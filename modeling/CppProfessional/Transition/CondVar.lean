import Mathlib.Algebra.BigOperators.Group.Finset.Basic
import Mathlib.Algebra.Order.BigOperators.Group.Finset
import Mathlib.Data.Fintype.BigOperators

/-!
# Condition variables over a family of threads

A monitor keeps one control state per thread, `threads : ι → π`.  A condition
variable is then no data of its own: it is a way to read a control state — the
thread *sleeps* on it (blocked and not notified), or has been *notified* and not
yet resumed — together with what a notification does to a sleeper.

`CondVar.notifyOne` takes the thread to be woken as an argument, because
`notify_one` leaves the choice open: naming a sleeper is allowed, naming nobody
is allowed only when nobody sleeps.  `CondVar.notifyAll` wakes every sleeper.

The counting lemmas say how the number of threads with a given property changes
when one thread moves (`count_update`) and when a notification is delivered
(`count_notified_of_notifyOne`).  On top of them, `CondVar.Covered need threads`
is the counting invariant of a variable used with `notify_one`: as long as
somebody sleeps, at least `need` wake-ups are under way.  Its five rules are the
ways a monitor may change the threads.
-/

namespace Transition

universe u v

variable {ι : Type u} {π : Type v}

/-- After one thread moved to `p`, what holds of a thread holds of `p` or held before. -/
theorem of_update [DecidableEq ι] {P : π → Prop} {threads : ι → π} {t u : ι} {p : π}
    (h : P (Function.update threads t p u)) : P p ∨ P (threads u) := by
  by_cases hut : u = t
  · rw [hut, Function.update_self] at h
    exact Or.inl h
  · rw [Function.update_of_ne hut] at h
    exact Or.inr h

/-- How many threads have a control state satisfying `P`. -/
def count [Fintype ι] (P : π → Bool) (threads : ι → π) : ℕ :=
  (Finset.univ.filter fun u => P (threads u) = true).card

section Count

variable [Fintype ι] {P : π → Bool} {threads threads' : ι → π}

/-- The count as a sum over the threads. -/
theorem count_eq_sum : count P threads = ∑ u, (P (threads u)).toNat := by
  rw [count, Finset.card_filter]
  refine Finset.sum_congr rfl fun u _ => ?_
  cases P (threads u) <;> rfl

theorem count_congr (h : ∀ u, P (threads' u) = P (threads u)) :
    count P threads' = count P threads := by
  simp only [count_eq_sum, h]

/-- One thread moves: its old contribution is exchanged for its new one. -/
theorem count_update [DecidableEq ι] (t : ι) (p : π) :
    count P (Function.update threads t p) + (P (threads t)).toNat =
      count P threads + (P p).toNat := by
  have hrest : ∑ u ∈ Finset.univ.erase t,
        (P (Function.update threads t p u)).toNat =
      ∑ u ∈ Finset.univ.erase t, (P (threads u)).toNat := by
    refine Finset.sum_congr rfl fun u hu => ?_
    rw [Function.update_of_ne (Finset.ne_of_mem_erase hu)]
  rw [count_eq_sum, count_eq_sum,
    ← Finset.sum_erase_add Finset.univ _ (Finset.mem_univ t),
    ← Finset.sum_erase_add Finset.univ (fun u => (P (threads u)).toNat)
      (Finset.mem_univ t), hrest, Function.update_self]
  omega

theorem count_pos_of {t : ι} (h : P (threads t) = true) : 0 < count P threads :=
  Finset.card_pos.mpr ⟨t, by simp [h]⟩

/-- If any are counted, there is one. -/
theorem exists_of_count_pos (h : 0 < count P threads) :
    ∃ t, P (threads t) = true := by
  obtain ⟨t, ht⟩ := Finset.card_pos.mp h
  exact ⟨t, by simpa using ht⟩

theorem eq_of_count_le_one (hone : count P threads ≤ 1) {t u : ι}
    (ht : P (threads t) = true) (hu : P (threads u) = true) : t = u :=
  Finset.card_le_one.mp hone t (by simp [ht]) u (by simp [hu])

end Count

/-- A condition variable, read off the control state of a thread. -/
structure CondVar (π : Type v) where
  /-- Blocked on the variable and not notified. -/
  asleep : π → Bool
  /-- Notified, but not yet running again. -/
  notified : π → Bool
  /-- What a notification does to a sleeper. -/
  wake : π → π
  notified_wake : ∀ p, asleep p = true → notified (wake p) = true
  not_asleep_wake : ∀ p, asleep p = true → asleep (wake p) = false
  not_notified_of_asleep : ∀ p, asleep p = true → notified p = false

namespace CondVar

variable (cv : CondVar π) {threads threads' : ι → π}

/-- Every sleeper is marked. -/
def notifyAll (threads : ι → π) : ι → π := fun u =>
  if cv.asleep (threads u) then cv.wake (threads u) else threads u

/-- One sleeper, named by `heir`, is marked; `heir = none` is the notification
that finds nobody asleep. -/
def notifyOne [Fintype ι] [DecidableEq ι] (heir : Option ι) (threads : ι → π) :
    Option (ι → π) :=
  match heir with
  | some u =>
      if cv.asleep (threads u) then
        some (Function.update threads u (cv.wake (threads u)))
      else none
  | none => if ∃ u, cv.asleep (threads u) = true then none else some threads

/-- After `notify_all` nobody sleeps. -/
theorem asleep_notifyAll (u : ι) : cv.asleep (cv.notifyAll threads u) = false := by
  unfold notifyAll
  split
  · next h => exact cv.not_asleep_wake _ h
  · next h => simpa using h

/-- `notifyAll` leaves alone what `wake` leaves alone. -/
theorem apply_notifyAll {α : Type*} {f : π → α}
    (hf : ∀ p, cv.asleep p = true → f (cv.wake p) = f p) (u : ι) :
    f (cv.notifyAll threads u) = f (threads u) := by
  unfold notifyAll
  split
  · next h => exact hf _ h
  · rfl

variable [Fintype ι] [DecidableEq ι]

/-- What a delivered `notify_one` can have done. -/
theorem notifyOne_cases {heir : Option ι}
    (h : cv.notifyOne heir threads = some threads') :
    (∃ u, cv.asleep (threads u) = true ∧
      threads' = Function.update threads u (cv.wake (threads u))) ∨
    ((∀ u, cv.asleep (threads u) = false) ∧ threads' = threads) := by
  cases heir with
  | some u =>
      simp only [notifyOne, Option.ite_none_right_eq_some, Option.some.injEq] at h
      exact Or.inl ⟨u, h.1, h.2.symm⟩
  | none =>
      simp only [notifyOne, Option.ite_none_left_eq_some, Option.some.injEq,
        not_exists, Bool.not_eq_true] at h
      exact Or.inr ⟨h.1, h.2.symm⟩

/-- Some choice of heir is always enabled. -/
theorem exists_notifyOne (threads : ι → π) :
    ∃ heir threads', cv.notifyOne heir threads = some threads' := by
  by_cases h : ∃ u, cv.asleep (threads u) = true
  · obtain ⟨u, hu⟩ := h
    exact ⟨some u, Function.update threads u (cv.wake (threads u)), by simp [notifyOne, hu]⟩
  · exact ⟨none, threads, by simp only [notifyOne, h, if_false]⟩

/-- `notifyOne` leaves alone what `wake` leaves alone. -/
theorem apply_notifyOne {α : Type*} {f : π → α}
    (hf : ∀ p, cv.asleep p = true → f (cv.wake p) = f p) {heir : Option ι}
    (h : cv.notifyOne heir threads = some threads') (u : ι) :
    f (threads' u) = f (threads u) := by
  obtain ⟨v, hv, rfl⟩ | ⟨-, rfl⟩ := cv.notifyOne_cases h
  · by_cases huv : u = v
    · rw [huv, Function.update_self]
      exact hf _ hv
    · rw [Function.update_of_ne huv]
  · rfl

/-- A thread asleep after the notification was asleep before it. -/
theorem asleep_of_notifyOne {heir : Option ι}
    (h : cv.notifyOne heir threads = some threads') {u : ι}
    (hu : cv.asleep (threads' u) = true) : cv.asleep (threads u) = true := by
  obtain ⟨v, hv, rfl⟩ | ⟨-, rfl⟩ := cv.notifyOne_cases h
  · by_cases huv : u = v
    · exact huv ▸ hv
    · rwa [Function.update_of_ne huv] at hu
  · exact hu

/-- **The notification is counted**: if somebody is still asleep afterwards,
somebody was there to be marked, and exactly one thread was. -/
theorem count_notified_of_notifyOne {heir : Option ι}
    (h : cv.notifyOne heir threads = some threads') {u : ι}
    (hu : cv.asleep (threads' u) = true) :
    count cv.notified threads' = count cv.notified threads + 1 := by
  obtain ⟨v, hv, rfl⟩ | ⟨hnone, rfl⟩ := cv.notifyOne_cases h
  · have hcount : count cv.notified (Function.update threads v (cv.wake (threads v))) +
        (cv.notified (threads v)).toNat =
        count cv.notified threads + (cv.notified (cv.wake (threads v))).toNat :=
      count_update v _
    rw [cv.not_notified_of_asleep _ hv, cv.notified_wake _ hv] at hcount
    simpa using hcount
  · rw [hnone u] at hu
    cases hu

/-! ### Demand covered by wake-ups under way

Demand is what there is to do for threads that sleep.  It is covered if as many wake-ups
are under way as there is to do, or nobody sleeps; each rule says how a change of the
threads changes what is covered. -/

/-- While a thread sleeps on the variable, at least `need` threads have been
notified and not yet run. -/
def Covered (need : ℕ) (threads : ι → π) : Prop :=
  ∀ u, cv.asleep (threads u) = true → need ≤ count cv.notified threads

variable {cv} {need need' : ℕ}

omit [DecidableEq ι] in
/-- The demand stays covered while the same threads sleep and the same are notified. -/
theorem Covered.congr (h : cv.Covered need threads)
    (hasleep : ∀ u, cv.asleep (threads' u) = cv.asleep (threads u))
    (hnotified : ∀ u, cv.notified (threads' u) = cv.notified (threads u)) :
    cv.Covered need threads' := by
  intro u hu
  rw [count_congr hnotified]
  exact h u ((hasleep u).symm.trans hu)

/-- One thread moves.  It may fall asleep only if nothing is needed, and a
notified thread may go only if the need shrinks with it. -/
theorem Covered.update (h : cv.Covered need threads) {t : ι} {p : π}
    (hasleep : cv.asleep p = true → need' = 0)
    (hneed : need' = 0 ∨ need' + (cv.notified (threads t)).toNat ≤ need) :
    cv.Covered need' (Function.update threads t p) := by
  intro u hu
  rcases hneed with rfl | hneed
  · exact Nat.zero_le _
  · rcases of_update (P := fun p => cv.asleep p = true) hu with hp | hold
    · rw [hasleep hp]
      exact Nat.zero_le _
    · have hbefore : need ≤ count cv.notified threads := h u hold
      have hcount : count cv.notified (Function.update threads t p) +
          (cv.notified (threads t)).toNat =
          count cv.notified threads + (cv.notified p).toNat := count_update t p
      omega

/-- A thread that may have been notified leaves, and the need shrinks by one. -/
theorem Covered.leave (h : cv.Covered need threads) {t : ι} {p : π}
    (hasleep : cv.asleep p = false) : cv.Covered (need - 1) (Function.update threads t p) := by
  refine h.update (fun hp => ?_) ?_
  · rw [hasleep] at hp
    cases hp
  · have hle : (cv.notified (threads t)).toNat ≤ 1 := Bool.toNat_le _
    omega

/-- A notification covers one more. -/
theorem Covered.notifyOne (h : cv.Covered need threads) {heir : Option ι}
    (hone : cv.notifyOne heir threads = some threads') (hneed : need' ≤ need + 1) :
    cv.Covered need' threads' := by
  intro u hu
  rw [cv.count_notified_of_notifyOne hone hu]
  exact hneed.trans (Nat.add_le_add_right (h u (cv.asleep_of_notifyOne hone hu)) 1)

omit [DecidableEq ι] in
/-- After `notify_all` nobody sleeps. -/
theorem covered_notifyAll : cv.Covered need (cv.notifyAll threads) := by
  intro u hu
  rw [cv.asleep_notifyAll] at hu
  cases hu

end CondVar

end Transition
