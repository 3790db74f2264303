import CppProfessional.Transition.CondVar

/-!
# A flag that marks the thread inside a wait

A monitor that admits one caller at a time to a wait often does so with a plain
flag: a thread sets it, waits, and clears it, and whoever finds it set turns
away.  The mutex is free only inside the wait, so between two critical sections
the flag should be set exactly while a thread is inside.

`Flagged` is that relation, for a flag that only some configurations use; the
control state of a thread inside records whether the thread set the flag.  The
rules `enter`, `stay` and `leave` are the ways a section can touch it.

The count is what makes the invariant inductive.  That the flag is set while *somebody* is
inside would not survive the clear of the one who leaves: there has to be nobody else, so the
flag counts, and it counts to at most one.
-/

namespace Transition

universe u v

variable {ι : Type u} {π : Type v} [Fintype ι] {single flag : Bool}
  {frame : π → Option Bool} {threads : ι → π}

/-- The frame of a thread inside the wait remembers whether it set the flag.  In
a mode that uses the flag, the flag counts the threads inside; in the other modes
it is never set. -/
structure Flagged (single flag : Bool) (frame : π → Option Bool) (threads : ι → π) :
    Prop where
  frames : ∀ u active, frame (threads u) = some active → active = single
  counts : single = true →
    count (fun p => (frame p).isSome) threads = flag.toNat
  unused : single = false → flag = false

/-- The flag says the same of threads with the same frames. -/
theorem Flagged.congr (h : Flagged single flag frame threads) {threads' : ι → π}
    (hframe : ∀ u, frame (threads' u) = frame (threads u)) :
    Flagged single flag frame threads' where
  frames u active hu := h.frames u active ((hframe u).symm.trans hu)
  counts hsingle := by
    have hsame : count (fun p => (frame p).isSome) threads' =
        count (fun p => (frame p).isSome) threads :=
      count_congr fun u => by rw [hframe u]
    exact hsame.trans (h.counts hsingle)
  unused := h.unused

/-- The flag is set exactly when one thread is inside.  That it is one and not several comes
from the count, which a flag cannot exceed. -/
theorem Flagged.active_iff (h : Flagged true flag frame threads) :
    flag = true ↔ ∃! t, (frame (threads t)).isSome = true := by
  have hcount := h.counts rfl
  constructor
  · rintro rfl
    obtain ⟨t, ht⟩ := exists_of_count_pos (lt_of_lt_of_eq Nat.one_pos hcount.symm)
    exact ⟨t, ht, fun u hu => eq_of_count_le_one hcount.le hu ht⟩
  · rintro ⟨t, ht, -⟩
    have hpos : 0 < count (fun p => (frame p).isSome) threads := count_pos_of ht
    cases flag with
    | true => rfl
    | false => simp [hcount] at hpos

/-- The flag is clear exactly when no thread is inside. -/
theorem Flagged.inactive_iff (h : Flagged true flag frame threads) :
    flag = false ↔ ∀ t, frame (threads t) = none := by
  constructor
  · rintro rfl t
    by_contra hne
    have hpos : 0 < count (fun p => (frame p).isSome) threads :=
      count_pos_of (Option.isSome_iff_ne_none.mpr hne)
    simp [h.counts rfl] at hpos
  · intro hnone
    by_contra hflag
    obtain ⟨t, ht, -⟩ := h.active_iff.mp (by simpa using hflag)
    simp [hnone t] at ht

/-- Seen from a thread outside the wait, the flag is set by somebody else. -/
theorem Flagged.active_other (h : Flagged true flag frame threads) {t : ι}
    (ht : frame (threads t) = none) :
    flag = true ↔ ∃ u, u ≠ t ∧ (frame (threads u)).isSome = true := by
  rw [h.active_iff]
  constructor
  · rintro ⟨u, hu, -⟩
    refine ⟨u, ?_, hu⟩
    rintro rfl
    simp [ht] at hu
  · rintro ⟨u, -, hu⟩
    rw [← h.active_iff]
    by_contra hflag
    have hnone := h.inactive_iff.mp (by simpa using hflag) u
    simp [hnone] at hu

variable [DecidableEq ι] {flag' : Bool} {t : ι} {p : π}

omit [Fintype ι] in
/-- After one thread moved, a frame is its new one or was there before. -/
theorem frame_update {active : Bool} {u : ι}
    (hu : frame (Function.update threads t p u) = some active) :
    frame p = some active ∨ frame (threads u) = some active :=
  of_update (P := fun p => frame p = some active) hu

/-- A thread enters the wait after it found the flag clear and set it. -/
theorem Flagged.enter (h : Flagged single flag frame threads)
    (hflag : flag' = (single || flag)) (hfree : single = true → flag = false)
    (ht : frame (threads t) = none) (hp : frame p = some single) :
    Flagged single flag' frame (Function.update threads t p) where
  frames u active hu := by
    rcases frame_update hu with hnew | hold
    · exact (Option.some.inj (hp.symm.trans hnew)).symm
    · exact h.frames u active hold
  counts hsingle := by
    have hcount := @count_update ι π _ (fun p => (frame p).isSome) threads _ t p
    have hbefore := h.counts hsingle
    simp only [ht, hp, hfree hsingle, Option.isSome_none, Option.isSome_some,
      Bool.toNat_false, Bool.toNat_true] at hcount hbefore
    simp only [hflag, hsingle, Bool.true_or, Bool.toNat_true]
    omega
  unused hsingle := by simp [hflag, hsingle, h.unused hsingle]

/-- A thread stays inside or outside: nothing changes. -/
theorem Flagged.stay (h : Flagged single flag frame threads) (hflag : flag' = flag)
    (hp : frame p = frame (threads t)) :
    Flagged single flag' frame (Function.update threads t p) := by
  rw [hflag]
  refine h.congr fun u => ?_
  by_cases hut : u = t
  · rw [hut, Function.update_self, hp]
  · rw [Function.update_of_ne hut]

/-- A thread leaves and clears the flag if its frame says so.  A caller from outside that has
not waited has nothing to clear, whatever the flag says about the others. -/
theorem Flagged.leave (h : Flagged single flag frame threads) {active : Bool}
    (hflag : flag' = (!active && flag))
    (ht : frame (threads t) = some active ∨ frame (threads t) = none ∧ active = false)
    (hp : frame p = none) :
    Flagged single flag' frame (Function.update threads t p) := by
  rw [hflag]
  rcases ht with ht | ⟨ht, rfl⟩
  · have hactive := h.frames t active ht
    refine ⟨fun u b hu => ?_, fun hsingle => ?_, fun hsingle => ?_⟩
    · rcases frame_update hu with hnew | hold
      · rw [hp] at hnew
        cases hnew
      · exact h.frames u b hold
    · have hcount := @count_update ι π _ (fun p => (frame p).isSome) threads _ t p
      have hbefore := h.counts hsingle
      have hone := Bool.toNat_le flag
      simp only [ht, hp, Option.isSome_none, Option.isSome_some, Bool.toNat_false,
        Bool.toNat_true] at hcount
      simp only [hactive, hsingle, Bool.not_true, Bool.false_and, Bool.toNat_false]
      omega
    · simp [h.unused hsingle]
  · exact h.stay (by simp) (hp.trans ht.symm)

end Transition
