import CppProfessional.Capture.StreamCapture

/-!
# The descriptors of a capture

* `Layout` — what the members name, and that all other descriptors are as before;
* `Stage` — what holds in front of each call;
* `execution_stage` — both hold in every run;
* `Layout.eq_fds`, `Layout.ne_writeEnd` — what is left in the end, and who can write to the
  pipe.

A descriptor is only a number, and what it refers to changes with every `dup2` and
`close`.  The invariant therefore compares the table as it is with the table before the object
existed, and says of the few numbers that the members name what stands there now.
-/

namespace Capture

open Transition

variable {p : Process} {s s' : State p.limit} {e : Event p.limit} {effect : Effect}
  {trace : List (Event p.limit × Effect)}

/-! ### What the members name

The members are numbers, and what they refer to is said by the table.  `Layout` says
which numbers are in use; that they were free before is what makes it possible to say
that closing them restores the table. -/

variable (p) in
/-- The members name different descriptors, which were free, and these refer to the ends of the
pipe and to the file of the stream; the stream has one of these; all others are as before.
That the descriptors were free (`atRead`, `atWrite`, `atOld`) is what makes closing them a
return to the table of the process. -/
structure Layout (fds : Fin p.limit → Option File) (fdOld pipeR pipeW : Option (Fin p.limit)) :
    Prop where
  atTarget : fds p.target = some .original ∨ fds p.target = some .writeEnd
  atRead : ∀ fd, pipeR = some fd → fds fd = some .readEnd ∧ p.fds fd = none
  atWrite : ∀ fd, pipeW = some fd → fds fd = some .writeEnd ∧ p.fds fd = none
  atOld : ∀ fd, fdOld = some fd → fds fd = some .original ∧ p.fds fd = none
  elsewhere : ∀ fd, fd ≠ p.target → pipeR ≠ some fd → pipeW ≠ some fd → fdOld ≠ some fd →
    fds fd = p.fds fd

namespace Layout

variable {fds : Fin p.limit → Option File} {fdOld pipeR pipeW : Option (Fin p.limit)}

/-- The stream has a descriptor, so a free one is another. -/
theorem ne_target {fd : Fin p.limit} (h : p.fds fd = none) : fd ≠ p.target := by
  rintro rfl
  rw [p.fds_target] at h
  cases h

/-- What is free now was free before the object came. -/
theorem free (h : Layout p fds fdOld pipeR pipeW) {fd : Fin p.limit} (hfd : fds fd = none) :
    p.fds fd = none := by
  by_cases htarget : fd = p.target
  · rcases h.atTarget with ht | ht
    · rw [htarget, ht] at hfd
      cases hfd
    · rw [htarget, ht] at hfd
      cases hfd
  · rw [← h.elsewhere fd htarget, hfd]
    · intro heq
      rw [(h.atRead fd heq).1] at hfd
      cases hfd
    · intro heq
      rw [(h.atWrite fd heq).1] at hfd
      cases hfd
    · intro heq
      rw [(h.atOld fd heq).1] at hfd
      cases hfd

/-- `pipe2` gives out two free descriptors. -/
theorem pipe (h : Layout p fds none none none) {r w : Fin p.limit} (hr : fds r = none)
    (hw : fds w = none) (hne : r ≠ w) :
    Layout p (Function.update (Function.update fds r (some .readEnd)) w (some .writeEnd)) none
      (some r) (some w) := by
  have hr' := h.free hr
  have hw' := h.free hw
  have hrt := ne_target hr'
  have hwt := ne_target hw'
  constructor <;> grind [Function.update_apply, Layout]

/-- `fcntl` gives out a third one, for the file of the stream. -/
theorem duplicate (h : Layout p fds none pipeR pipeW) {fd : Fin p.limit} (hfd : fds fd = none)
    (htarget : fds p.target = some .original) :
    Layout p (Function.update fds fd (fds p.target)) (some fd) pipeR pipeW := by
  have hfree := h.free hfd
  have hne := ne_target hfree
  constructor <;> grind [Function.update_apply, Layout]

/-- `dup2` on the stream changes the stream alone. -/
theorem redirect (h : Layout p fds fdOld pipeR pipeW) {file : File}
    (hfile : file = .original ∨ file = .writeEnd) :
    Layout p (Function.update fds p.target (some file)) fdOld pipeR pipeW := by
  have hne {fd : Fin p.limit} (h : p.fds fd = none) := ne_target h
  constructor <;> grind [Function.update_apply, Layout]

/-- Closing the copy makes its descriptor free again, -/
theorem closeOld (h : Layout p fds fdOld pipeR pipeW) :
    Layout p (fdOld.elim fds fun fd => Function.update fds fd none) none pipeR pipeW := by
  cases fdOld with
  | none => exact h
  | some fd =>
      obtain ⟨hfd, hfree⟩ := h.atOld fd rfl
      have hne := ne_target hfree
      show Layout p (Function.update fds fd none) none pipeR pipeW
      constructor <;> grind [Function.update_apply, Layout]

/-- as closing the write end does, -/
theorem closeW (h : Layout p fds fdOld pipeR pipeW) :
    Layout p (pipeW.elim fds fun fd => Function.update fds fd none) fdOld pipeR none := by
  cases pipeW with
  | none => exact h
  | some fd =>
      obtain ⟨hfd, hfree⟩ := h.atWrite fd rfl
      have hne := ne_target hfree
      show Layout p (Function.update fds fd none) fdOld pipeR none
      constructor <;> grind [Function.update_apply, Layout]

/-- and closing the read end. -/
theorem closeR (h : Layout p fds fdOld pipeR pipeW) :
    Layout p (pipeR.elim fds fun fd => Function.update fds fd none) fdOld none pipeW := by
  cases pipeR with
  | none => exact h
  | some fd =>
      obtain ⟨hfd, hfree⟩ := h.atRead fd rfl
      have hne := ne_target hfree
      show Layout p (Function.update fds fd none) fdOld none pipeW
      constructor <;> grind [Function.update_apply, Layout]

end Layout

/-! ### How far the calls have come

Each call is reached with certain members set and certain calls behind it.  `Stage` goes
through the places of the code in order; a failing call jumps to the cleanup, where the
members themselves say what is to be undone. -/

section Stages

variable (reader : Reader) (file : Option File) (failed : Prop)

/-- Nothing has gone through the pipe: there is no reader yet, the stream still has its file,
and no call has failed, for a failing call leads to the cleanup at once. -/
structure Early (pipe capturedData : List UInt8) : Prop where
  absent : reader = .absent
  original : file = some .original
  pipe : pipe = []
  capturedData : capturedData = []
  unfailed : ¬failed

/-- The stream has the pipe, and a reader has been started for it. -/
structure Late : Prop where
  present : reader ≠ .absent
  writeEnd : file = some .writeEnd
  unfailed : ¬failed

/-- The stream has its file again, unless a call has failed; then it may still have the pipe,
and the error code says that something went wrong. -/
structure Restored (erCode : Bool) : Prop where
  present : reader ≠ .absent
  file : file = some .original ∧ ¬failed ∨ file = some .writeEnd ∧ failed ∧ erCode = true

end Stages

/-- The members that are not `-1`. -/
def Has {α : Type*} (fdOld pipeR pipeW : Option α) (b₁ b₂ b₃ : Bool) : Prop :=
  fdOld.isSome = b₁ ∧ pipeR.isSome = b₂ ∧ pipeW.isSome = b₃

/-- What holds in front of each call; `failed` is that a `dup2` has failed. -/
def Stage (p : Process) (failed : Prop) (s : State p.limit) : Prop :=
  let has := Has s.fdOld s.pipeR s.pipeW
  let file := s.fds p.target
  match s.pc with
  | .outside => has false false false ∧ Early s.reader file failed s.pipe s.capturedData
  | .flushing | .duplicating =>
      has false true true ∧ Early s.reader file failed s.pipe s.capturedData
  | .redirecting => has true true true ∧ Early s.reader file failed s.pipe s.capturedData
  | .starting => has true true true ∧ s.reader = .absent ∧ file = some .writeEnd ∧ ¬failed
  | .capturing | .ending => has true true true ∧ Late s.reader file failed
  | .restoring c =>
      has true true true ∧ (c.ending = true → Late s.reader file failed) ∧
        (c.ending = false → s.reader = .absent)
  | .closingOld c =>
      has true true true ∧ (c.ending = true → Restored s.reader file failed c.erCode) ∧
        (c.ending = false → s.reader = .absent) ∧ (¬failed → file = some .original)
  | .closingWrite c =>
      has false true true ∧ (c.ending = true → Restored s.reader file failed c.erCode) ∧
        (c.ending = false → s.reader = .absent) ∧ (¬failed → file = some .original)
  | .joining c =>
      has false true false ∧ c.ending = true ∧ Restored s.reader file failed c.erCode
  | .closingRead c =>
      has false true false ∧
        (c.ending = true → s.reader = .finished ∧ Restored s.reader file failed c.erCode) ∧
        (¬failed → file = some .original)
  | .returned text =>
      has false false false ∧ s.reader = .finished ∧ file = some .original ∧
        text = s.capturedData
  | .threw _ | .unconstructed =>
      has false false false ∧ (¬failed → file = some .original)

/-- What the descriptors refer to. -/
abbrev State.layout (p : Process) (s : State p.limit) : Prop :=
  Layout p s.fds s.fdOld s.pipeR s.pipeW

/-- Without members nothing is named. -/
theorem Has.eq_none {α : Type*} {fdOld pipeR pipeW : Option α}
    (h : Has fdOld pipeR pipeW false false false) :
    fdOld = none ∧ pipeR = none ∧ pipeW = none := by
  simpa [Has] using h

/-- The member for the write end refers to it, -/
theorem Layout.bind_pipeW (h : s.layout p) (hsome : s.pipeW.isSome = true) :
    s.pipeW.bind s.fds = some .writeEnd := by
  obtain ⟨fd, hfd⟩ := Option.isSome_iff_exists.mp hsome
  rw [hfd, Option.bind_some, (h.atWrite fd hfd).1]

/-- and the copy to the file of the stream. -/
theorem Layout.bind_fdOld (h : s.layout p) (hsome : s.fdOld.isSome = true) :
    s.fdOld.bind s.fds = some .original := by
  obtain ⟨fd, hfd⟩ := Option.isSome_iff_exists.mp hsome
  rw [hfd, Option.bind_some, (h.atOld fd hfd).1]

variable {failed : Prop}

/-- One step keeps the members and the table together.  A descriptor that is opened was free,
so it is none of those named before; and one that is closed is named by nothing else. -/
theorem move_layout (hm : Move p s e effect s') (h : s.layout p) (hstage : Stage p failed s) :
    s'.layout p := by
  cases hm with
  | piped hpc hr hw hne =>
      rw [Stage, hpc] at hstage
      obtain ⟨hold, hread, hwrite⟩ := hstage.1.eq_none
      rw [State.layout, hold, hread, hwrite] at h
      show Layout p _ s.fdOld _ _
      rw [hold]
      exact h.pipe hr hw hne
  | duplicated hpc hfd =>
      rw [Stage, hpc] at hstage
      have hold : s.fdOld = none := by simpa using hstage.1.1
      rw [State.layout, hold] at h
      exact h.duplicate hfd hstage.2.original
  | redirected hpc =>
      rw [Stage, hpc] at hstage
      show Layout p (Function.update s.fds p.target (s.pipeW.bind s.fds)) _ _ _
      rw [h.bind_pipeW hstage.1.2.2]
      exact h.redirect (.inr rfl)
  | restored hpc =>
      rw [Stage, hpc] at hstage
      show Layout p (Function.update s.fds p.target (s.fdOld.bind s.fds)) _ _ _
      rw [h.bind_fdOld hstage.1.1]
      exact h.redirect (.inl rfl)
  | closedOld _ => exact h.closeOld
  | closedWrite _ _ | closedWriteAlone _ _ => exact h.closeW
  | closedRead _ => exact h.closeR
  | _ => exact h

/-- A failing `close` is remembered and stops nothing. -/
theorem Restored.close {reader : Reader} {file : Option File} {erCode : Bool} (ok : Bool)
    (h : Restored reader file failed erCode) : Restored reader file failed (erCode || !ok) where
  present := h.present
  file := by
    refine h.file.imp_right fun ⟨hfile, hfailed, herror⟩ => ⟨hfile, hfailed, ?_⟩
    rw [herror, Bool.true_or]

/-- If no `dup2` has failed, the stream has its file back. -/
theorem Restored.back {reader : Reader} {file : Option File} {erCode : Bool}
    (h : Restored reader file failed erCode) (hunfailed : ¬failed) : file = some .original := by
  rcases h.file with ⟨hfile, -⟩ | ⟨-, hfailed, -⟩
  · exact hfile
  · exact absurd hfailed hunfailed

/-- The descriptor of the stream is not closed. -/
theorem closed_target {fd : Option (Fin p.limit)} (h : ∀ x, fd = some x → p.fds x = none) :
    s.closed fd p.target = s.fds p.target := by
  cases fd with
  | none => rfl
  | some x => exact Function.update_of_ne (Layout.ne_target (h x rfl)).symm _ _

/-- A cleanup begins where the members are; which of them there are decides where it goes
on. -/
theorem stage_cleanup {c : Cleanup} (hbegin : Begins s e c) (h : Stage p failed s) :
    Stage p (failed ∨ e = .dup2 false) (s.cleanup c) := by
  cases hbegin with
  | noFlush hpc | noDuplicate hpc =>
      rw [Stage, hpc] at h
      obtain ⟨hhas, hearly⟩ := h
      have hold : s.fdOld = none := by simpa using hhas.1
      simp only [Stage, State.cleanup, hold, if_true]
      exact ⟨⟨rfl, hhas.2⟩, nofun, fun _ => hearly.absent, fun _ => hearly.original⟩
  | noRedirect hpc =>
      rw [Stage, hpc] at h
      obtain ⟨hhas, hearly⟩ := h
      have hold : s.fdOld ≠ none := Option.isSome_iff_ne_none.mp hhas.1
      simp only [Stage, State.cleanup, hold, if_false]
      exact ⟨hhas, nofun, fun _ => hearly.absent⟩
  | noThread hpc =>
      rw [Stage, hpc] at h
      obtain ⟨hhas, habsent, -⟩ := h
      have hold : s.fdOld ≠ none := Option.isSome_iff_ne_none.mp hhas.1
      simp only [Stage, State.cleanup, hold, if_false]
      exact ⟨hhas, nofun, fun _ => habsent⟩
  | ended hpc _ | noFlushAtEnd hpc =>
      rw [Stage, hpc] at h
      obtain ⟨hhas, hlate⟩ := h
      have hold : s.fdOld ≠ none := Option.isSome_iff_ne_none.mp hhas.1
      simp only [Stage, State.cleanup, hold, if_false]
      refine ⟨hhas, fun _ => ⟨hlate.present, hlate.writeEnd, ?_⟩, nofun⟩
      rintro (hfailed | ⟨⟨⟩⟩)
      exact hlate.unfailed hfailed

theorem Layout.target_ne (h : s.layout p) {fd : Fin p.limit} (hfd : s.fds fd = none) :
    p.target ≠ fd :=
  (Layout.ne_target (h.free hfd)).symm

/-- The object after `cleanup`. -/
theorem stage_afterCleanup {c : Cleanup} (hpc : s.pc = s.afterCleanup c)
    (hhas : Has s.fdOld s.pipeR s.pipeW false false false)
    (hback : ¬failed → s.fds p.target = some .original)
    (hrestored : c.ending = true →
      s.reader = .finished ∧ Restored s.reader (s.fds p.target) failed c.erCode) :
    Stage p failed s := by
  rw [Stage, hpc, State.afterCleanup]
  cases hending : c.ending with
  | false => exact ⟨hhas, hback⟩
  | true =>
      obtain ⟨hfinished, hrest⟩ := hrestored hending
      cases herror : c.erCode with
      | true => exact ⟨hhas, hback⟩
      | false =>
          have horiginal : s.fds p.target = some .original := by
            rcases hrest.file with ⟨hfile, -⟩ | ⟨-, -, htrue⟩
            · exact hfile
            · cases herror.symm.trans htrue
          cases c.flushFailed with
          | true => exact ⟨hhas, hback⟩
          | false => exact ⟨hhas, hfinished, horiginal, rfl⟩

/-- A step that is no failing `dup2` keeps what holds in front of each call.  A failing one is
the only step after which the stream may have the wrong file, and it is treated apart. -/
theorem move_stage_of_ne (hm : Move p s e effect s') (hl : s.layout p) (h : Stage p failed s)
    (hne : e ≠ .dup2 false) : Stage p failed s' := by
  cases hm with
  | cleanup hbegin => simpa only [hne, or_false] using stage_cleanup hbegin h
  | write _ _ | emitOriginal _ | readAgain _ => exact h
  | emitPipe htarget =>
      cases hpc : s.pc <;> simp only [Stage, hpc] at h ⊢ <;>
        first
        | exact h
        | cases htarget.symm.trans h.2.original
  | readBytes hrunning =>
      cases hpc : s.pc <;> simp only [Stage, hpc] at h ⊢ <;>
        first
        | exact h
        | cases hrunning.symm.trans h.2.absent
        | cases hrunning.symm.trans h.2.1
  | readNothing hrunning _ _ | readError hrunning =>
      have hpresent : s.reader ≠ .absent := by simp [hrunning]
      cases hpc : s.pc <;> simp only [Stage, hpc] at h ⊢
      case capturing | ending => exact ⟨h.1, nofun, h.2.writeEnd, h.2.unfailed⟩
      case restoring c =>
        exact ⟨h.1, fun hc => ⟨nofun, (h.2.1 hc).writeEnd, (h.2.1 hc).unfailed⟩,
          fun hc => absurd (h.2.2 hc) hpresent⟩
      case closingOld c | closingWrite c =>
        exact ⟨h.1, fun hc => ⟨nofun, (h.2.1 hc).file⟩, fun hc => absurd (h.2.2.1 hc) hpresent,
          h.2.2.2⟩
      case joining c => exact ⟨h.1, h.2.1, nofun, h.2.2.file⟩
      case closingRead c => exact ⟨h.1, fun hc => ⟨trivial, nofun, (h.2.1 hc).2.file⟩, h.2.2⟩
      case returned text => exact ⟨h.1, trivial, h.2.2⟩
      case starting => exact absurd h.2.1 hpresent
      case threw | unconstructed => exact h
      all_goals exact absurd h.2.absent hpresent
  | @piped r w hpc hr hw _ =>
      rw [Stage, hpc] at h
      have hfile : Function.update (Function.update s.fds r (some File.readEnd)) w
          (some File.writeEnd) p.target = s.fds p.target := by
        rw [Function.update_of_ne (hl.target_ne hw), Function.update_of_ne (hl.target_ne hr)]
      obtain ⟨⟨hold, -, -⟩, hearly⟩ := h
      simp only [Stage, hfile]
      exact ⟨⟨hold, rfl, rfl⟩, hearly⟩
  | noPipe hpc =>
      rw [Stage, hpc] at h
      exact ⟨h.1, fun _ => h.2.original⟩
  | flushed hpc _ | called hpc =>
      rw [Stage, hpc] at h
      exact h
  | duplicated hpc hfd =>
      rw [Stage, hpc] at h
      simp only [Stage, Function.update_of_ne (hl.target_ne hfd)]
      exact ⟨⟨rfl, h.1.2⟩, h.2⟩
  | redirected hpc =>
      rw [Stage, hpc] at h
      simp only [Stage, Function.update_self, hl.bind_pipeW h.1.2.2]
      exact ⟨h.1, h.2.absent, trivial, h.2.unfailed⟩
  | started hpc =>
      rw [Stage, hpc] at h
      exact ⟨h.1, nofun, h.2.2.1, h.2.2.2⟩
  | restored hpc =>
      rw [Stage, hpc] at h
      simp only [Stage, Function.update_self, hl.bind_fdOld h.1.1]
      exact ⟨h.1, fun hc => ⟨(h.2.1 hc).present, .inl ⟨rfl, (h.2.1 hc).unfailed⟩⟩, h.2.2,
        fun _ => trivial⟩
  | notRestored _ => exact absurd rfl hne
  | closedOld hpc =>
      rw [Stage, hpc] at h
      simp only [Stage, closed_target fun x hx => (hl.atOld x hx).2]
      exact ⟨⟨rfl, h.1.2⟩, fun hc => (h.2.1 hc).close _, h.2.2⟩
  | closedWrite hpc hpresent =>
      rw [Stage, hpc] at h
      simp only [Stage, closed_target fun x hx => (hl.atWrite x hx).2]
      have hc := Bool.eq_true_of_not_eq_false fun hc => hpresent (h.2.2.1 hc)
      exact ⟨⟨h.1.1, h.1.2.1, rfl⟩, hc, (h.2.1 hc).close _⟩
  | closedWriteAlone hpc habsent =>
      rw [Stage, hpc] at h
      simp only [Stage, closed_target fun x hx => (hl.atWrite x hx).2]
      exact ⟨⟨h.1.1, h.1.2.1, rfl⟩, fun hc => absurd habsent (h.2.1 hc).present, h.2.2.2⟩
  | @closedRead c ok hpc =>
      rw [Stage, hpc] at h
      have hfile := closed_target (s := s) fun x hx => (hl.atRead x hx).2
      refine stage_afterCleanup rfl ⟨h.1.1, rfl, h.1.2.2⟩ (fun hfailed => ?_) fun hc => ?_
      · exact hfile.trans (h.2.2 hfailed)
      · obtain ⟨hfinished, hrestored⟩ := h.2.1 hc
        refine ⟨hfinished, ?_⟩
        simp only [hfile]
        exact hrestored.close ok
  | joined hpc hfinished =>
      rw [Stage, hpc] at h
      exact ⟨h.1, fun _ => ⟨hfinished, h.2.2⟩, h.2.2.back⟩

/-- One step keeps the place in the code and what is known there. -/
theorem move_stage (hm : Move p s e effect s') (hl : s.layout p) (h : Stage p failed s) :
    Stage p (failed ∨ e = .dup2 false) s' := by
  by_cases hne : e = .dup2 false
  · subst hne
    cases hm with
    | cleanup hbegin => exact stage_cleanup hbegin h
    | notRestored hpc =>
        rw [Stage, hpc] at h
        exact ⟨h.1, fun hc => ⟨(h.2.1 hc).present, .inr ⟨(h.2.1 hc).writeEnd, .inr rfl, rfl⟩⟩,
          h.2.2, fun hnot => absurd (.inr rfl) hnot⟩
  · simpa only [hne, or_false] using move_stage_of_ne hm hl h hne

/-- Some `dup2` has failed. -/
def Failed (trace : List (Event p.limit × Effect)) : Prop := ∃ x ∈ trace, x.1 = .dup2 false

/-- Some `read` has failed, and not because of a signal. -/
def ReadFailed (trace : List (Event p.limit × Effect)) : Prop :=
  ∃ x ∈ trace, x.1 = .read .error

theorem exists_mem_append {P : Event p.limit → Prop} {trace' : List (Event p.limit × Effect)} :
    (∃ x ∈ trace ++ trace', P x.1) ↔ (∃ x ∈ trace, P x.1) ∨ ∃ x ∈ trace', P x.1 := by
  simp only [List.mem_append, or_and_right, exists_or]

/-- An event of a run and a step is one of the run, or the step. -/
theorem exists_mem_concat {P : Event p.limit → Prop} :
    (∃ x ∈ trace ++ [(e, effect)], P x.1) ↔ (∃ x ∈ trace, P x.1) ∨ P e := by
  simp only [exists_mem_append, List.mem_singleton, exists_eq_left]

/-- Both invariants hold in every state of a run.  They are carried together: which descriptors
a step closes is said by the members, and which members there are by the place in the code. -/
theorem execution_stage (h : (machine p).Execution trace s) :
    s.layout p ∧ Stage p (Failed trace) s := by
  refine h.induct (I := fun trace s => s.layout p ∧ Stage p (Failed trace) s) ?_ ?_
  · rintro s rfl
    refine ⟨⟨.inl p.fds_target, nofun, nofun, nofun, fun _ _ _ _ _ => rfl⟩, ⟨rfl, rfl, rfl⟩, ?_⟩
    exact ⟨rfl, p.fds_target, rfl, rfl, nofun⟩
  · rintro trace s e effect s' - ⟨hlayout, hstage⟩ hs
    have hm := step_move hs
    refine ⟨move_layout hm hlayout hstage, ?_⟩
    have hfailed : Failed (trace ++ [(e, effect)]) = (Failed trace ∨ e = .dup2 false) :=
      propext (exists_mem_concat (P := fun e => e = .dup2 false))
    rw [hfailed]
    exact move_stage hm hlayout hstage

/-! ### Afterwards

Once all members are `-1` the layout says that every descriptor except that of the
stream is as before; the stream has its file if no `dup2` has failed. -/

/-- Only the stream and the object can have an end of the pipe. -/
theorem Layout.ne_writeEnd (h : s.layout p) (hpipeW : s.pipeW = none)
    (htarget : s.fds p.target = some .original) (fd : Fin p.limit) :
    s.fds fd ≠ some .writeEnd := by
  by_cases hfd : fd = p.target
  · rw [hfd, htarget]
    decide
  · by_cases hread : s.pipeR = some fd
    · rw [(h.atRead fd hread).1]
      decide
    · by_cases hold : s.fdOld = some fd
      · rw [(h.atOld fd hold).1]
        decide
      · rw [h.elsewhere fd hfd hread (by simp [hpipeW]) hold]
        exact p.fds_ne_writeEnd fd

/-- The capture is over, or has never begun. -/
def Pc.over : Pc → Prop
  | .returned _ | .threw _ | .unconstructed => True
  | _ => False

/-- All members are `-1`, and the stream has its file if no `dup2` has failed. -/
theorem stage_over (hstage : Stage p failed s) (hover : s.pc.over) :
    (s.fdOld = none ∧ s.pipeR = none ∧ s.pipeW = none) ∧
      (¬failed → s.fds p.target = some .original) := by
  cases hpc : s.pc <;> simp only [Stage, Pc.over, hpc] at hstage hover
  case returned text => exact ⟨hstage.1.eq_none, fun _ => hstage.2.2.1⟩
  case threw | unconstructed => exact ⟨hstage.1.eq_none, hstage.2⟩

/-- When no member names a descriptor, all but that of the stream are as before. -/
theorem Layout.eq_of_ne (h : s.layout p)
    (hnone : s.fdOld = none ∧ s.pipeR = none ∧ s.pipeW = none) {fd : Fin p.limit}
    (hfd : fd ≠ p.target) : s.fds fd = p.fds fd := by
  obtain ⟨hold, hread, hwrite⟩ := hnone
  exact h.elsewhere fd hfd (by simp [hread]) (by simp [hwrite]) (by simp [hold])

/-- All descriptors are as before. -/
theorem Layout.eq_fds (h : s.layout p)
    (hnone : s.fdOld = none ∧ s.pipeR = none ∧ s.pipeW = none)
    (htarget : s.fds p.target = some .original) : s.fds = p.fds := by
  funext fd
  by_cases hfd : fd = p.target
  · rw [hfd, htarget, p.fds_target]
  · exact h.eq_of_ne hnone hfd

end Capture
