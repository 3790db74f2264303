import CppProfessional.Transition.Machine

/-!
# Histories of concurrent calls

A concurrent object is used by threads that call it and are answered later.  It is
linearizable if every call could have been carried out at one moment between its beginning
and its end; here that moment is the end, which is the way of monitors.

* `CallEvent` — a call begins or ends;
* `Linear` — a history in which every call is carried out when it ends, as a sequential
  specification allows;
* `Machine.Execution.linear` — a machine has such histories if every step extends them;
* `sequential` — calls one after the other, `linear_sequential` — a history of them.

A monitor answers a call in the section that ends it, under the mutex, so the moment of the
answer is the moment at which the call takes effect.  That is stronger than linearizability,
which would allow any moment since the call, and it needs no search for the right one: the
proof is an induction along the run.
-/

namespace Transition

universe u v w

variable {ι : Type u} {α : Type v} {β : Type w} {τ : Type*}

/-- A thread calls, or gets its answer. -/
inductive CallEvent (ι : Type u) (α : Type v) (β : Type w)
  | invoke (t : ι) (call : α)
  | respond (t : ι) (answer : β)

/-- What a sequential object may answer to a call, and how it goes on. -/
abbrev Specification (τ : Type*) (α : Type v) (β : Type w) := τ → α → β → τ → Prop

section Linear

variable [DecidableEq ι] (spec : Specification τ α β)

/-- A history that leads from some pending calls and a state of the object to others. -/
inductive Linear : (ι → Option α) → τ → List (CallEvent ι α β) → (ι → Option α) → τ → Prop
  | nil {pending : ι → Option α} {x : τ} : Linear pending x [] pending x
  | invoke {pending pending' : ι → Option α} {x x' : τ} {t : ι} {call : α}
      {history : List (CallEvent ι α β)} :
      pending t = none →
      Linear (Function.update pending t (some call)) x history pending' x' →
      Linear pending x (.invoke t call :: history) pending' x'
  | respond {pending pending' : ι → Option α} {x x₁ x' : τ} {t : ι} {call : α} {answer : β}
      {history : List (CallEvent ι α β)} :
      pending t = some call → spec x call answer x₁ →
      Linear (Function.update pending t none) x₁ history pending' x' →
      Linear pending x (.respond t answer :: history) pending' x'

variable {spec} {pending pending₁ pending' : ι → Option α} {x x₁ x' : τ}
  {history history' : List (CallEvent ι α β)}

/-- Two histories, the second from where the first one ends. -/
theorem Linear.append (h : Linear spec pending x history pending₁ x₁)
    (h' : Linear spec pending₁ x₁ history' pending' x') :
    Linear spec pending x (history ++ history') pending' x' := by
  induction h with
  | nil => exact h'
  | invoke hfree _ ih => exact .invoke hfree (ih h')
  | respond hcall hspec _ ih => exact .respond hcall hspec (ih h')

/-- A call that is answered at once. -/
theorem Linear.call {t : ι} {call : α} {answer : β} (hfree : pending t = none)
    (hspec : spec x call answer x') :
    Linear spec pending x [.invoke t call, .respond t answer] pending x' := by
  refine .invoke hfree (.respond (Function.update_self ..) hspec ?_)
  rw [Function.update_idem, Function.update_eq_self_iff.mpr hfree.symm]
  exact .nil

/-- **Linearizability.**  If every step of a machine extends the history from what its state
stands for to what the next state stands for, every execution has such a history. -/
theorem Machine.Execution.linear {σ ε ω : Type*} {M : Machine σ ε ω}
    (view : ε × ω → List (CallEvent ι α β)) (pending : σ → ι → Option α) (R : σ → τ → Prop)
    {x₀ : τ} (hinit : ∀ s, M.init s → pending s = (fun _ => none) ∧ R s x₀)
    (hstep : ∀ s e o s' x, M.Reachable s → R s x → M.step s e = some (o, s') →
      ∃ x', Linear spec (pending s) x (view (e, o)) (pending s') x' ∧ R s' x')
    {trace : List (ε × ω)} {s : σ} (h : M.Execution trace s) :
    ∃ x, Linear spec (fun _ => none) x₀ (trace.flatMap view) (pending s) x ∧ R s x := by
  refine h.induct (I := fun trace s => ∃ x,
    Linear spec (fun _ => none) x₀ (trace.flatMap view) (pending s) x ∧ R s x) ?_ ?_
  · intro s hs
    obtain ⟨hnone, hR⟩ := hinit s hs
    exact ⟨x₀, hnone ▸ .nil, hR⟩
  · rintro trace s e o s' hexec ⟨x, hlinear, hR⟩ hs
    obtain ⟨x', hlast, hR'⟩ := hstep s e o s' x hexec.reachable hR hs
    rw [List.flatMap_append, List.flatMap_singleton]
    exact ⟨x', hlinear.append hlast, hR'⟩

end Linear

/-! ### Calls one after the other

Without overlap linearizability says no more and no less than that each call is answered
as the specification allows. -/

/-- The history of calls that are answered before the next one. -/
def sequential (calls : List (ι × α × β)) : List (CallEvent ι α β) :=
  calls.flatMap fun (t, call, answer) => [.invoke t call, .respond t answer]

/-- Calls that a sequential object may answer so, one after the other. -/
inductive Legal (spec : Specification τ α β) : τ → List (ι × α × β) → τ → Prop
  | nil {x : τ} : Legal spec x [] x
  | cons {x x₁ x' : τ} {t : ι} {call : α} {answer : β} {calls : List (ι × α × β)} :
      spec x call answer x₁ → Legal spec x₁ calls x' →
      Legal spec x ((t, call, answer) :: calls) x'

/-- Of calls one after the other both say the same: nobody is pending between two of them, and
the object answers each as the specification allows. -/
theorem linear_sequential [DecidableEq ι] {spec : Specification τ α β}
    {pending pending' : ι → Option α} (hfree : pending = fun _ => none) {x x' : τ}
    {calls : List (ι × α × β)} :
    Linear spec pending x (sequential calls) pending' x' ↔
      pending' = (fun _ => none) ∧ Legal spec x calls x' := by
  induction calls generalizing x with
  | nil =>
      constructor
      · rintro ⟨⟩
        exact ⟨hfree, .nil⟩
      · rintro ⟨rfl, ⟨⟩⟩
        exact hfree ▸ .nil
  | cons call calls ih =>
      obtain ⟨t, call, answer⟩ := call
      have hnone : pending t = none := by rw [hfree]
      constructor
      · rintro (_ | ⟨-, hrest⟩)
        rcases hrest with _ | _ | ⟨hcall, hspec, hrest⟩
        rw [Function.update_self] at hcall
        obtain rfl := Option.some.inj hcall
        rw [Function.update_idem, Function.update_eq_self_iff.mpr hnone.symm] at hrest
        obtain ⟨hpending, hlegal⟩ := ih.mp hrest
        exact ⟨hpending, .cons hspec hlegal⟩
      · rintro ⟨hpending, _ | ⟨hspec, hlegal⟩⟩
        exact (Linear.call hnone hspec).append (ih.mpr ⟨hpending, hlegal⟩)

end Transition
