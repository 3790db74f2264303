import Mathlib.Data.List.Lex
import Mathlib.Order.Lattice

/-!
# Sorting with a comparator

What a library function that sorts a range promises, and what it asks of its
comparator.  The comparator has to be a strict weak order on the elements of the
range; nothing is promised for any other.

* `StrictWeakOn comp xs` — the requirement;
* `Ordered comp xs` — no element goes before an earlier one;
* `Sorts sort` — the promise, which `mergeSorted` keeps;
* `strictWeakOn_of_key` — a comparator that compares keys of a linear order meets the
  requirement, and `descending_of_ordered` reads the promise in these keys.
-/

namespace Containers

universe u v

variable {α : Type u} {β : Type v} {comp : α → α → Bool} {xs : List α}

/-- The comparator is a strict weak order on the elements of a range. -/
structure StrictWeakOn (comp : α → α → Bool) (xs : List α) : Prop where
  irrefl : ∀ a ∈ xs, comp a a = false
  trans : ∀ a ∈ xs, ∀ b ∈ xs, ∀ c ∈ xs, comp a b = true → comp b c = true → comp a c = true
  incomparable : ∀ a ∈ xs, ∀ b ∈ xs, ∀ c ∈ xs, comp a b = false → comp b a = false →
    comp b c = false → comp c b = false → comp a c = false ∧ comp c a = false

/-- No element has to go before an earlier one. -/
def Ordered (comp : α → α → Bool) (xs : List α) : Prop :=
  xs.Pairwise fun a b => comp b a = false

/-- A sorting function: it returns a sorted permutation of a range on which its
comparator is a strict weak order. -/
def Sorts (sort : (α → α → Bool) → List α → List α) : Prop :=
  ∀ comp xs, StrictWeakOn comp xs → (sort comp xs).Perm xs ∧ Ordered comp (sort comp xs)

namespace StrictWeakOn

variable (h : StrictWeakOn comp xs) {a b c : α}

include h

/-- Of two elements at most one comes before the other. -/
theorem asymm (ha : a ∈ xs) (hb : b ∈ xs) (hab : comp a b = true) : comp b a = false := by
  by_contra hba
  have hself : comp a a = true :=
    h.trans a ha b hb a ha hab (eq_true_of_ne_false hba)
  rw [h.irrefl a ha] at hself
  cases hself

/-- Not to go before is transitive. -/
theorem neg_trans (ha : a ∈ xs) (hb : b ∈ xs) (hc : c ∈ xs) (hba : comp b a = false)
    (hcb : comp c b = false) : comp c a = false := by
  cases hab : comp a b with
  | true =>
      by_contra hca
      have hcb' := h.trans c hc a ha b hb (eq_true_of_ne_false hca) hab
      rw [hcb] at hcb'
      cases hcb'
  | false =>
      cases hbc : comp b c with
      | true =>
          by_contra hca
          have hba' := h.trans b hb c hc a ha hbc (eq_true_of_ne_false hca)
          rw [hba] at hba'
          cases hba'
      | false => exact (h.incomparable a ha b hb c hc hab hba hbc hcb).2

end StrictWeakOn

/-- The sorting of the library that the model is written in, for a comparator that is a
strict weak order on the elements of a range only. -/
def mergeSorted (comp : α → α → Bool) (xs : List α) : List α :=
  (xs.attach.mergeSort fun a b => !comp b.1 a.1).map Subtype.val

/-- The promise can be kept. -/
theorem sorts_mergeSorted : Sorts (mergeSorted (α := α)) := by
  intro comp xs h
  constructor
  · have hperm := (List.mergeSort_perm xs.attach fun a b => !comp b.1 a.1).map Subtype.val
    rwa [List.attach_map_subtype_val] at hperm
  · have hsorted : (xs.attach.mergeSort fun a b => !comp b.1 a.1).Pairwise
        fun a b => (!comp b.1 a.1) = true := by
      apply List.pairwise_mergeSort
      · intro a b c hab hbc
        rw [Bool.not_eq_true'] at hab hbc ⊢
        exact h.neg_trans a.2 b.2 c.2 hab hbc
      · intro a b
        rw [Bool.or_eq_true, Bool.not_eq_true', Bool.not_eq_true']
        cases hba : comp b.1 a.1 with
        | false => exact Or.inl rfl
        | true => exact Or.inr (h.asymm b.2 a.2 hba)
    rw [Ordered, mergeSorted, List.pairwise_map]
    exact hsorted.imp fun hab => (Bool.not_eq_true' _).mp hab

section Key

variable [LinearOrder β] {key : α → β}

/-- A comparator that puts the larger key first is a strict weak order. -/
theorem strictWeakOn_of_key
    (hkey : ∀ a ∈ xs, ∀ b ∈ xs, comp a b = true ↔ key b < key a) : StrictWeakOn comp xs := by
  have hkey' (a b : α) (ha : a ∈ xs) (hb : b ∈ xs) : comp a b = false ↔ key a ≤ key b := by
    rw [← not_lt, ← hkey a ha b hb, Bool.not_eq_true]
  constructor
  · intro a ha
    exact (hkey' a a ha ha).mpr le_rfl
  · intro a ha b hb c hc hab hbc
    rw [hkey a ha b hb] at hab
    rw [hkey b hb c hc] at hbc
    exact (hkey a ha c hc).mpr (hbc.trans hab)
  · intro a ha b hb c hc hab hba hbc hcb
    rw [hkey' a b ha hb] at hab
    rw [hkey' b a hb ha] at hba
    rw [hkey' b c hb hc] at hbc
    rw [hkey' c b hc hb] at hcb
    exact ⟨(hkey' a c ha hc).mpr (hab.trans hbc), (hkey' c a hc ha).mpr (hcb.trans hba)⟩

/-- In an ordered range the keys descend. -/
theorem descending_of_ordered
    (hkey : ∀ a ∈ xs, ∀ b ∈ xs, comp a b = true ↔ key b < key a) (h : Ordered comp xs) :
    xs.Pairwise fun a b => key b ≤ key a := by
  refine h.imp_of_mem fun {a b} ha hb hba => ?_
  rw [← not_lt, ← hkey b hb a ha, Bool.not_eq_true]
  exact hba

end Key

end Containers
