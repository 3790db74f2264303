import Mathlib.Data.List.Basic
import Mathlib.Data.List.Induction

/-!
# Computations that may throw

A C++ function that may throw is a computation in `Except ε`.  `Outcome safe P r` says
two things about such a computation at once: if it returns, what it returns satisfies
`P`, and it can throw only if `safe` fails.  The rules below follow the shape of the
code, one for each way to put computations together.

`Returns r r'` says that `r'` throws no more than `r` does.

`safe` is what the caller grants: that every allocation succeeds, or that every file can be
opened.  Where it holds the computation returns, and where it fails nothing is said about
whether it throws.  What is returned satisfies `P` in both cases, so that one induction proves
the value right and shows where there is one.
-/

namespace Transition

universe u v w

variable {ε : Type w} {α β : Type u} {safe : Prop} {P : α → Prop} {Q : β → Prop}

/-- The computation returns a value with `P`, or `safe` fails and it throws. -/
def Outcome (safe : Prop) (P : α → Prop) : Except ε α → Prop
  | .ok a => P a
  | .error _ => ¬ safe

namespace Outcome

theorem ok {a : α} (h : P a) : Outcome safe P (.ok a : Except ε α) := h

theorem of_eq_ok {r : Except ε α} {a : α} (h : Outcome safe P r) (hok : r = .ok a) : P a := by
  subst hok
  exact h

/-- A computation that is safe returns.  This is the only rule that uses `safe`; the others
pass it on. -/
theorem exists_ok {r : Except ε α} (h : Outcome safe P r) (hsafe : safe) :
    ∃ a, r = .ok a ∧ P a := by
  cases r with
  | ok a => exact ⟨a, rfl, h⟩
  | error _ => exact absurd hsafe h

/-- What is returned satisfies more. -/
theorem mono {P' : α → Prop} {r : Except ε α} (h : Outcome safe P r) (himp : ∀ a, P a → P' a) :
    Outcome safe P' r := by
  cases r with
  | ok a => exact himp a h
  | error _ => exact h

/-- Another exception is thrown in its place. -/
theorem mapError {ε' : Type*} {r : Except ε α} (h : Outcome safe P r) (f : ε → ε') :
    Outcome safe P (r.mapError f) := by
  cases r with
  | ok a => exact h
  | error _ => exact h

/-- A function of what was returned. -/
theorem map {f : α → β} {r : Except ε α} (h : Outcome safe P r) (hf : ∀ a, P a → Q (f a)) :
    Outcome safe Q (r.map f) := by
  cases r with
  | ok a => exact hf a h
  | error _ => exact h

/-- One computation after the other. -/
theorem bind {r : Except ε α} {f : α → Except ε β} (h : Outcome safe P r)
    (hf : ∀ a, P a → Outcome safe Q (f a)) : Outcome safe Q (r >>= f) := by
  cases r with
  | ok a => exact hf a h
  | error _ => exact h

/-- **A loop over a list.**  The invariant speaks about the elements that the loop has
gone over. -/
theorem foldlM {γ : Type v} {f : β → γ → Except ε β} {I : List γ → β → Prop} {xs : List γ} {b : β}
    (hnil : I [] b)
    (hstep : ∀ front x b, front ++ [x] <+: xs → I front b →
      Outcome safe (I (front ++ [x])) (f b x)) :
    Outcome safe (I xs) (xs.foldlM f b) := by
  induction xs using List.reverseRecOn with
  | nil => exact hnil
  | append_singleton front x ih =>
      rw [List.foldlM_append]
      refine (ih fun front' y b hy => hstep front' y b (hy.trans (List.prefix_append _ _))).bind ?_
      intro b' hb
      rw [List.foldlM_cons]
      refine (hstep front x b' (List.prefix_refl _) hb).bind fun b'' hlast => ?_
      rw [List.foldlM_nil]
      exact hlast

end Outcome

/-! ### Computations that throw less

Where more is granted, fewer computations throw, and the ones that returned before
return the same.  The rules follow the code like those above. -/

section Returns

/-- Whatever the first computation returns, the second returns as well. -/
def Returns (r r' : Except ε α) : Prop := ∀ a, r = .ok a → r' = .ok a

namespace Returns

theorem refl (r : Except ε α) : Returns r r := fun _ h => h

theorem bind {r r' : Except ε α} {f g : α → Except ε β} (h : Returns r r')
    (hfg : ∀ a, Returns (f a) (g a)) : Returns (r >>= f) (r' >>= g) := by
  intro b hb
  cases r with
  | ok a =>
      rw [h a rfl]
      exact hfg a b hb
  | error _ => cases hb

theorem mapError {ε' : Type*} {r r' : Except ε α} (h : Returns r r') (f : ε → ε') :
    Returns (r.mapError f) (r'.mapError f) := by
  intro a ha
  cases r with
  | ok a' =>
      rw [h a' rfl]
      exact ha
  | error _ => cases ha

/-- A loop whose steps throw less. -/
theorem foldlM {γ : Type v} {f g : β → γ → Except ε β} (h : ∀ b x, Returns (f b x) (g b x))
    (xs : List γ) (b : β) : Returns (xs.foldlM f b) (xs.foldlM g b) := by
  induction xs generalizing b with
  | nil => exact refl _
  | cons x xs ih =>
      rw [List.foldlM_cons, List.foldlM_cons]
      exact (h b x).bind ih

end Returns

end Returns

end Transition
