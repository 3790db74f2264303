import CppProfessional.Capture.Descriptors

/-!
# What is captured

* `Ordered` — nothing that is written gets lost or changes its place;
* `Told` — what is captured is what was written while the object existed;
* `end_returns` — `End` can return, however much has been written;
* `run_stuck`, `joins_iff` — when the reader thread is waited for in vain;
* `capture_exact` puts this together.
-/

namespace Capture

open Transition

variable {p : Process} {s s' : State p.limit} {e : Event p.limit} {effect : Effect}
  {failed : Prop} {trace : List (Event p.limit × Effect)}

/-! ### What is written

A byte goes from the buffer of the stream to the file or into the pipe, and from the
pipe to the captured text.  No step takes it back or lets one byte overtake another. -/

/-- In the order in which it was written, everything is in the file, has been captured, is in
the pipe, is in the file, or is still in the buffer. -/
def Ordered (p : Process) (trace : List (Event p.limit × Effect)) (s : State p.limit) : Prop :=
  ∃ before after, s.original = before ++ after ∧
    (s.fds p.target = some .writeEnd → after = []) ∧
    Machine.history Effect.written trace =
      before ++ s.capturedData ++ s.pipe ++ after ++ s.buffer

theorem written_wrote (bytes : List UInt8) (pc : Pc) : (pc.wrote bytes).written = bytes := by
  cases pc <;> rfl

/-- One step moves bytes from one place to the next one, or nowhere.  Where the stream writes
to depends on its descriptor, which is why the table has to be known. -/
theorem move_ordered (hm : Move p s e effect s') (hl : s.layout p) (hstage : Stage p failed s)
    (h : Ordered p trace s) : Ordered p (trace ++ [(e, effect)]) s' := by
  obtain ⟨before, after, horiginal, hafter, hwritten⟩ := h
  rw [Ordered, Machine.history_append, Machine.history_singleton, hwritten]
  cases hm with
  | write _ _ => exact ⟨before, after, horiginal, hafter, by simp [written_wrote]⟩
  | @emitOriginal n htarget =>
      refine ⟨before, after ++ s.buffer.take n, by simp [horiginal], fun hpipe => ?_, by simp⟩
      cases htarget.symm.trans hpipe
  | emitPipe htarget =>
      exact ⟨before, after, horiginal, hafter, by simp [hafter htarget]⟩
  | readBytes _ => exact ⟨before, after, horiginal, hafter, by simp⟩
  | piped hpc hr hw hne =>
      refine ⟨before, after, horiginal, fun hpipe => hafter ?_, by simp⟩
      simpa only [Function.update_of_ne (hl.target_ne hw), Function.update_of_ne (hl.target_ne hr)]
        using hpipe
  | duplicated hpc hfd =>
      refine ⟨before, after, horiginal, fun hpipe => hafter ?_, by simp⟩
      simpa only [Function.update_of_ne (hl.target_ne hfd)] using hpipe
  | redirected hpc =>
      -- what the file has now is in front of everything that is captured
      rw [Stage, hpc] at hstage
      refine ⟨s.original, [], by simp, fun _ => rfl, ?_⟩
      simp [horiginal, hstage.2.pipe, hstage.2.capturedData]
  | restored hpc =>
      refine ⟨before, after, horiginal, fun hpipe => ?_, by simp⟩
      rw [Stage, hpc] at hstage
      simp only [Function.update_self, hl.bind_fdOld hstage.1.1] at hpipe
      cases hpipe
  | closedOld _ =>
      exact ⟨before, after, horiginal, fun hpipe =>
        hafter ((closed_target fun x hx => (hl.atOld x hx).2).symm.trans hpipe), by simp⟩
  | closedWrite _ _ | closedWriteAlone _ _ =>
      exact ⟨before, after, horiginal, fun hpipe =>
        hafter ((closed_target fun x hx => (hl.atWrite x hx).2).symm.trans hpipe), by simp⟩
  | closedRead _ =>
      exact ⟨before, after, horiginal, fun hpipe =>
        hafter ((closed_target fun x hx => (hl.atRead x hx).2).symm.trans hpipe), by simp⟩
  | _ => exact ⟨before, after, horiginal, hafter, by simp [State.cleanup]⟩

/-- So it is in every state of a run. -/
theorem execution_ordered (h : (machine p).Execution trace s) : Ordered p trace s := by
  refine h.induct (I := Ordered p) ?_ ?_
  · rintro s rfl
    exact ⟨[], [], rfl, fun _ => rfl, rfl⟩
  · intro trace s e effect s' hexec hordered hs
    obtain ⟨hlayout, hstage⟩ := execution_stage hexec
    exact move_ordered (step_move hs) hlayout hstage hordered

/-- What is captured is what was written inside, as long as nothing is written during a call;
`inside` is what was. -/
def Told (inside : List UInt8) {limit : ℕ} (s : State limit) : Prop :=
  match s.pc with
  | .outside | .flushing => inside = []
  | .duplicating | .redirecting => inside = [] ∧ s.buffer = []
  | .starting => inside = [] ∧ s.buffer = [] ∧ s.pipe = [] ∧ s.capturedData = []
  | .capturing | .ending => inside = s.capturedData ++ s.pipe ++ s.buffer
  | .restoring c | .closingOld c | .closingWrite c | .joining c | .closingRead c =>
      c.ending = true → c.flushFailed = false → s.buffer = [] ∧ inside = s.capturedData ++ s.pipe
  | .returned text => inside = text ++ s.pipe
  | .threw _ | .unconstructed => True

/-- A write adds to what is in the buffer, and counts as inside if there is an object. -/
theorem told_write {inside bytes : List UInt8} (hflushing : s.pc ≠ .flushing)
    (hending : s.pc ≠ .ending) (hquiet : (s.pc.wrote bytes).meanwhile = []) (h : Told inside s) :
    Told (inside ++ (s.pc.wrote bytes).inside) { s with buffer := s.buffer ++ bytes } := by
  cases hpc : s.pc <;> simp only [Told, hpc, Pc.wrote, List.append_nil] at h hquiet ⊢
  case flushing => exact absurd hpc hflushing
  case ending => exact absurd hpc hending
  case capturing => rw [h, List.append_assoc]
  case outside | returned => exact h
  case duplicating | redirecting => rwa [hquiet, List.append_nil]
  case starting => rwa [hquiet, List.append_nil]
  all_goals rwa [hquiet, List.append_nil]

/-- One step keeps the account of what was written inside.  Nothing may be written during a
call on the object, since such bytes may go to either side. -/
theorem move_told {inside : List UInt8} (hm : Move p s e effect s') (hstage : Stage p failed s)
    (hquiet : effect.meanwhile = []) (h : Told inside s) : Told (inside ++ effect.inside) s' := by
  cases hm with
  | write hflushing hending => exact told_write hflushing hending hquiet h
  | @emitOriginal n htarget =>
      rw [List.append_nil]
      cases hpc : s.pc <;> simp only [Told, Stage, hpc] at h hstage ⊢
      case capturing | ending => cases htarget.symm.trans hstage.2.writeEnd
      case outside | flushing | returned => exact h
      case duplicating | redirecting => simp [h]
      case starting => simp [h]
      all_goals
        intro hc hflush
        simp [h hc hflush]
  | @emitPipe n htarget =>
      rw [List.append_nil]
      cases hpc : s.pc <;> simp only [Told, Stage, hpc] at h hstage ⊢
      case returned => cases htarget.symm.trans hstage.2.2.1
      case outside | flushing => exact h
      case capturing | ending => simp [h]
      case duplicating | redirecting => simp [h]
      case starting => simp [h]
      all_goals
        intro hc hflush
        simp [h hc hflush]
  | @readBytes n hrunning =>
      rw [List.append_nil]
      cases hpc : s.pc <;> simp only [Told, Stage, hpc] at h hstage ⊢
      case returned => cases hrunning.symm.trans hstage.2.1
      case outside | flushing | duplicating | redirecting => exact h
      case capturing | ending => simp [h]
      case starting => simp [h]
      all_goals
        intro hc hflush
        simp [h hc hflush]
  | cleanup hbegin =>
      rw [List.append_nil]
      have hnone : ∀ c, Told inside (s.cleanup c) ↔ (c.ending = true → c.flushFailed = false →
          s.buffer = [] ∧ inside = s.capturedData ++ s.pipe) := by
        intro c
        by_cases hold : s.fdOld = none <;> simp [Told, State.cleanup, hold]
      rw [hnone]
      cases hbegin with
      | ended hpc hbuffer =>
          rw [Told, hpc] at h
          intro _ _
          rw [hbuffer, List.append_nil] at h
          exact ⟨hbuffer, h⟩
      | noFlushAtEnd _ =>
          intro _ hflush
          cases hflush
      | _ =>
          intro hc
          cases hc
  | @closedRead c ok hpc =>
      rw [List.append_nil]
      rw [Told, hpc] at h
      simp only [Told, State.afterCleanup]
      cases hending : c.ending with
      | false => trivial
      | true =>
          cases herror : c.erCode || !ok with
          | true => trivial
          | false =>
              cases hflush : c.flushFailed with
              | true => trivial
              | false => exact (h hending hflush).2
  | noPipe _ => trivial
  | flushed hpc hbuffer =>
      rw [List.append_nil]
      rw [Told, hpc] at h
      exact ⟨h, hbuffer⟩
  | redirected hpc =>
      rw [Stage, hpc] at hstage
      rw [Told, hpc] at h
      rw [List.append_nil]
      exact ⟨h.1, h.2, hstage.2.pipe, hstage.2.capturedData⟩
  | started hpc =>
      rw [Told, hpc] at h
      obtain ⟨hinside, hbuffer, hpipe, hcaptured⟩ := h
      simp [Told, hinside, hbuffer, hpipe, hcaptured]
  | piped hpc _ _ _ | duplicated hpc _ | called hpc | restored hpc | notRestored hpc
  | closedOld hpc | closedWrite hpc _ | closedWriteAlone hpc _ | joined hpc _ =>
      rw [List.append_nil]
      rw [Told, hpc] at h
      exact h
  | readNothing _ _ _ | readAgain _ | readError _ =>
      rw [List.append_nil]
      exact h

/-- So it is in every state, if nothing was written during a call. -/
theorem execution_told (h : (machine p).Execution trace s)
    (hquiet : Machine.history Effect.meanwhile trace = []) :
    Told (Machine.history Effect.inside trace) s := by
  refine h.induct (I := fun trace s => Machine.history Effect.meanwhile trace = [] →
    Told (Machine.history Effect.inside trace) s) ?_ ?_ hquiet
  · rintro s rfl _
    rfl
  · intro trace s e effect s' hexec htold hs hquiet
    rw [Machine.history_append, Machine.history_singleton, List.append_eq_nil_iff] at hquiet
    rw [Machine.history_append, Machine.history_singleton]
    exact move_told (step_move hs) (execution_stage hexec).2 hquiet.2 (htold hquiet.1)

/-! ### The end of the reader thread

`read` returns zero only if the pipe is empty and nobody has its write end.  From then
on nothing can come, so that the text is complete when the thread is joined. -/

/-- When the reader thread has read everything, nothing comes after it. -/
def Drained (p : Process) (s : State p.limit) : Prop :=
  s.reader = .finished → s.pipe = [] ∧ s.fds p.target ≠ some .writeEnd

/-- One step keeps the reader from finishing before its pipe is empty and can get nothing
more. -/
theorem move_drained (hm : Move p s e effect s') (hl : s.layout p) (hstage : Stage p failed s)
    (hread : e ≠ .read .error) (h : Drained p s) : Drained p s' := by
  intro hfinished
  cases hm with
  | emitPipe htarget => exact absurd htarget (h hfinished).2
  | readBytes hrunning => cases hrunning.symm.trans hfinished
  | readNothing _ hpipe hends => exact ⟨hpipe, hends p.target⟩
  | readError _ => exact absurd rfl hread
  | started _ => cases hfinished
  | piped hpc hr hw hne =>
      refine ⟨(h hfinished).1, ?_⟩
      simp only [Function.update_of_ne (hl.target_ne hw), Function.update_of_ne (hl.target_ne hr)]
      exact (h hfinished).2
  | duplicated hpc hfd =>
      refine ⟨(h hfinished).1, ?_⟩
      simp only [Function.update_of_ne (hl.target_ne hfd)]
      exact (h hfinished).2
  | redirected hpc =>
      rw [Stage, hpc] at hstage
      cases hstage.2.absent.symm.trans hfinished
  | restored hpc =>
      rw [Stage, hpc] at hstage
      refine ⟨(h hfinished).1, ?_⟩
      simp only [Function.update_self, hl.bind_fdOld hstage.1.1]
      decide
  | closedOld _ =>
      exact ⟨(h hfinished).1, fun hpipe =>
        (h hfinished).2 ((closed_target fun x hx => (hl.atOld x hx).2).symm.trans hpipe)⟩
  | closedWrite _ _ | closedWriteAlone _ _ =>
      exact ⟨(h hfinished).1, fun hpipe =>
        (h hfinished).2 ((closed_target fun x hx => (hl.atWrite x hx).2).symm.trans hpipe)⟩
  | closedRead _ =>
      exact ⟨(h hfinished).1, fun hpipe =>
        (h hfinished).2 ((closed_target fun x hx => (hl.atRead x hx).2).symm.trans hpipe)⟩
  | _ => exact h hfinished

theorem readFailed_concat : ReadFailed (trace ++ [(e, effect)]) ↔
    ReadFailed trace ∨ e = .read .error :=
  exists_mem_concat (P := fun e => e = .read .error)

/-- A reader that has finished without a failing `read` has taken everything, in every state
that is reached. -/
theorem execution_drained (h : (machine p).Execution trace s) (hread : ¬ReadFailed trace) :
    Drained p s := by
  refine h.induct (I := fun trace s => ¬ReadFailed trace → Drained p s) ?_ ?_ hread
  · rintro s rfl _
    exact nofun
  · intro trace s e effect s' hexec hdrained hs hread
    rw [readFailed_concat, not_or] at hread
    obtain ⟨hlayout, hstage⟩ := execution_stage hexec
    exact move_drained (step_move hs) hlayout hstage hread.2 (hdrained hread.1)

/-! ### The way to the end

That `End` can return is shown by a run that makes it.  The pipe may be smaller than
what is in the buffer; the run alternates between a byte that is written and a byte that
is read. -/

/-- A run in which nothing is written to the stream, and no `read` and no `dup2` fails. -/
def Reaches (s s' : State p.limit) : Prop :=
  ∃ trace, (machine p).Run s trace s' ∧ ¬ReadFailed trace ∧ ¬Failed trace ∧
    Machine.history Effect.written trace = []

theorem Reaches.refl (s : State p.limit) : Reaches s s :=
  ⟨[], .refl, by simp [ReadFailed], by simp [Failed], rfl⟩

/-- A step that writes nothing and does not fail leads on to what is reached from there. -/
theorem Reaches.head {s₁ : State p.limit} (hs : (machine p).step s e = some ({}, s₁))
    (hread : e ≠ .read .error) (hdup : e ≠ .dup2 false) (h : Reaches s₁ s') : Reaches s s' := by
  obtain ⟨trace, hrun, hread', hfailed, hwritten⟩ := h
  refine ⟨_, hrun.head hs, ?_, ?_, ?_⟩
  · simpa [ReadFailed, hread] using hread'
  · simpa [Failed, hdup] using hfailed
  · simpa [Machine.history] using hwritten

/-- What is reached can be gone on from. -/
theorem Reaches.trans {s₁ : State p.limit} (h : Reaches s s₁) (h' : Reaches s₁ s') :
    Reaches s s' := by
  obtain ⟨trace, hrun, hread, hfailed, hwritten⟩ := h
  obtain ⟨trace', hrun', hread', hfailed', hwritten'⟩ := h'
  refine ⟨trace ++ trace', hrun.trans hrun', ?_, ?_, ?_⟩
  · intro hbad
    exact ((exists_mem_append (P := fun e => e = .read .error)).mp hbad).elim hread hread'
  · intro hbad
    exact ((exists_mem_append (P := fun e => e = .dup2 false)).mp hbad).elim hfailed hfailed'
  · rw [Machine.history_append, hwritten, hwritten', List.append_nil]

/-- The reader thread reads what is in the pipe. -/
theorem reaches_drained (hrunning : s.reader = .running) :
    Reaches s { s with pipe := [], capturedData := s.capturedData ++ s.pipe } := by
  generalize hpipe : s.pipe = pipe
  induction pipe generalizing s with
  | nil =>
      rw [List.append_nil, ← hpipe]
      exact .refl s
  | cons byte pipe ih =>
      have hstep : (machine p).step s (.read (.bytes 1)) =
          some ({}, { s with pipe := pipe, capturedData := s.capturedData ++ [byte] }) := by
        simp [machine, State.step, State.read, hrunning, hpipe]
      have hrest := ih (s := { s with pipe := pipe, capturedData := s.capturedData ++ [byte] })
        hrunning rfl
      rw [List.append_assoc] at hrest
      exact hrest.head hstep (by simp) (by simp)

/-- Then it ends, once nobody can write to the pipe. -/
theorem exists_finished (hrunning : s.reader = .running)
    (hends : ∀ fd, s.fds fd ≠ some .writeEnd) :
    ∃ s', Reaches s s' ∧ s'.pc = s.pc ∧ s'.reader = .finished := by
  let s₁ : State p.limit := { s with pipe := [], capturedData := s.capturedData ++ s.pipe }
  have hcond : s₁.reader = .running ∧ s₁.pipe = [] ∧ ∀ fd, s₁.fds fd ≠ some .writeEnd :=
    ⟨hrunning, rfl, hends⟩
  have hstep : (machine p).step s₁ (.read .nothing) =
      some ({}, { s₁ with reader := .finished }) := by
    simp only [machine, State.step, State.read, if_pos hcond, Option.map_some]
  exact ⟨_, (reaches_drained hrunning).trans ((Reaches.refl _).head hstep (by simp) (by simp)),
    rfl, rfl⟩

/-- It makes room for what is in the buffer, however much that is.  By induction on the buffer:
a byte is written, and read at once, so that a pipe with room for one byte is enough. -/
theorem reaches_flushed (hcapacity : 0 < p.capacity) (hrunning : s.reader = .running)
    (htarget : s.fds p.target = some .writeEnd) (hread : ∃ fd, s.fds fd = some .readEnd)
    (hpipe : s.pipe = []) :
    Reaches s { s with buffer := [], pipe := [], capturedData := s.capturedData ++ s.buffer } := by
  generalize hbuffer : s.buffer = buffer
  induction buffer generalizing s with
  | nil =>
      have hsame : { s with buffer := [], pipe := [], capturedData := s.capturedData } = s := by
        cases s
        simp_all
      rw [List.append_nil, hsame]
      exact .refl s
  | cons byte buffer ih =>
      have hemit : (machine p).step s (.emit 1) =
          some ({}, { s with buffer := buffer, pipe := [byte] }) := by
        have hroom : 1 ≤ p.capacity ∧ ∃ fd, s.fds fd = some .readEnd := ⟨hcapacity, hread⟩
        simp [machine, State.step, State.emit, htarget, hbuffer, hpipe, hroom]
      have hbyte : (machine p).step { s with buffer := buffer, pipe := [byte] }
          (.read (.bytes 1)) = some ({}, { s with
            buffer := buffer, pipe := [], capturedData := s.capturedData ++ [byte] }) := by
        simp [machine, State.step, State.read, hrunning]
      have hrest := ih (s := { s with
        buffer := buffer, pipe := [], capturedData := s.capturedData ++ [byte] })
        hrunning htarget hread rfl rfl
      rw [List.append_assoc] at hrest
      exact (hrest.head hbyte (by simp) (by simp)).head hemit (by simp) (by simp)

/-- From its last `fflush` on, `End` goes on to its return, if the calls that are still to come
succeed. -/
theorem exists_returned (h : (machine p).Execution trace s) (hpc : s.pc = .ending)
    (hbuffer : s.buffer = []) (hpipe : s.pipe = []) (hrunning : s.reader = .running) :
    ∃ s', Reaches s s' ∧ s'.pc = .returned s.capturedData := by
  obtain ⟨hlayout, hstage⟩ := execution_stage h
  rw [Stage, hpc] at hstage
  obtain ⟨⟨hold, hread, hwrite⟩, hlate⟩ := hstage
  have hold' : s.fdOld ≠ none := Option.isSome_iff_ne_none.mp hold
  let c : Cleanup := ⟨true, false, false⟩
  let s₁ : State p.limit := { s with pc := .restoring c }
  have h₁ : (machine p).step s (.fflush true) = some ({}, s₁) := by
    simp [machine, State.step, hpc, hbuffer, State.cleanup, hold', s₁, c]
  let s₂ : State p.limit := { s₁ with
    fds := Function.update s.fds p.target (s.fdOld.bind s.fds), pc := .closingOld c }
  have h₂ : (machine p).step s₁ (.dup2 true) = some ({}, s₂) := rfl
  let s₃ : State p.limit := { s₂ with
    fds := s₂.closed s₂.fdOld, fdOld := none, pc := .closingWrite c }
  have h₃ : (machine p).step s₂ (.close true) = some ({}, s₃) := rfl
  let s₄ : State p.limit := { s₃ with fds := s₃.closed s₃.pipeW, pipeW := none, pc := .joining c }
  have h₄ : (machine p).step s₃ (.close true) = some ({}, s₄) := by
    have hpresent : s₃.reader ≠ .absent := hlate.present
    simp [machine, State.step, hpresent, s₃, s₄, c]
  have hexec : (machine p).Execution _ s₄ := (((h.snoc h₁).snoc h₂).snoc h₃).snoc h₄
  have hends : ∀ fd, s₄.fds fd ≠ some .writeEnd := by
    obtain ⟨hlayout₄, -, -, hrestored⟩ := execution_stage hexec
    refine hlayout₄.ne_writeEnd rfl (hrestored.back ?_)
    simpa [Failed] using hlate.unfailed
  let s₅ : State p.limit := { s₄ with reader := .finished }
  have h₅ : (machine p).step s₄ (.read .nothing) = some ({}, s₅) := by
    have hcond : s₄.reader = .running ∧ s₄.pipe = [] ∧ ∀ fd, s₄.fds fd ≠ some .writeEnd :=
      ⟨hrunning, hpipe, hends⟩
    simp only [machine, State.step, State.read, if_pos hcond, Option.map_some]
    rfl
  let s₆ : State p.limit := { s₅ with pc := .closingRead c }
  have h₆ : (machine p).step s₅ .join = some ({}, s₆) := rfl
  let s₇ : State p.limit := { s₆ with
    fds := s₆.closed s₆.pipeR, pipeR := none, pc := .returned s.capturedData }
  have h₇ : (machine p).step s₆ (.close true) = some ({}, s₇) := rfl
  have hlast : Reaches s₄ s₇ :=
    (((Reaches.refl s₇).head h₇ (by simp) (by simp)).head h₆ (by simp) (by simp)).head h₅
      (by simp) (by simp)
  have hfirst : Reaches s s₇ :=
    (((hlast.head h₄ (by simp) (by simp)).head h₃ (by simp) (by simp)).head h₂
      (by simp) (by simp)).head h₁ (by simp) (by simp)
  exact ⟨s₇, hfirst, rfl⟩

/-- **`End` can return**, with everything that is in the pipe and in the buffer. -/
theorem end_returns (h : (machine p).Execution trace s) (hpc : s.pc = .ending)
    (hread : ¬ReadFailed trace) (hcapacity : 0 < p.capacity) :
    ∃ s', Reaches s s' ∧ s'.pc = .returned (s.capturedData ++ s.pipe ++ s.buffer) := by
  obtain ⟨hlayout, hstage⟩ := execution_stage h
  rw [Stage, hpc] at hstage
  obtain ⟨⟨-, hpipeR, -⟩, hlate⟩ := hstage
  have hrunning : s.reader = .running := by
    cases hreader : s.reader with
    | absent => exact absurd hreader hlate.present
    | running => rfl
    | finished => exact absurd hlate.writeEnd (execution_drained h hread hreader).2
  obtain ⟨fd, hfd⟩ := Option.isSome_iff_exists.mp hpipeR
  have hflushed := (reaches_drained hrunning).trans
    (reaches_flushed hcapacity hrunning hlate.writeEnd ⟨fd, (hlayout.atRead fd hfd).1⟩ rfl)
  obtain ⟨trace', hrun, -⟩ := id hflushed
  obtain ⟨s', hreaches, hreturned⟩ :=
    exists_returned (h.append hrun) hpc rfl rfl hrunning
  exact ⟨s', hflushed.trans hreaches, hreturned⟩

/-! ### The thread that waits in vain

If `dup2` fails to put the file back, the stream keeps the write end.  The reader then
never sees the end of the pipe, and `join` never returns. -/

/-- A thread that waits for a reader whose pipe the stream still has. -/
structure Stuck (p : Process) (c : Cleanup) (s : State p.limit) : Prop where
  pc : s.pc = .joining c
  reader : s.reader ≠ .finished
  writeEnd : s.fds p.target = some .writeEnd

/-- As long as the stream holds the write end of the pipe, the reader waits, and `join` waits
for it. -/
theorem move_stuck {c : Cleanup} (hm : Move p s e effect s') (hread : e ≠ .read .error)
    (h : Stuck p c s) : Stuck p c s' := by
  obtain ⟨hpc, hreader, htarget⟩ := h
  cases hm with
  | write _ _ | emitOriginal _ | emitPipe _ | readBytes _ | readAgain _ =>
      exact ⟨hpc, hreader, htarget⟩
  | readNothing _ _ hends => exact absurd htarget (hends p.target)
  | readError _ => exact absurd rfl hread
  | joined _ hfinished => exact absurd hfinished hreader
  | cleanup hbegin => cases hbegin with
    | _ hother => cases hpc.symm.trans hother
  | _ hother => cases hpc.symm.trans hother

/-- **It waits forever.** -/
theorem run_stuck {c : Cleanup} (hrun : (machine p).Run s trace s') (hread : ¬ReadFailed trace)
    (h : Stuck p c s) : Stuck p c s' := by
  induction hrun with
  | refl => exact h
  | snoc _ hs ih =>
      rw [readFailed_concat, not_or] at hread
      exact move_stuck (step_move hs) hread.2 (ih hread.1)

/-- The reader can be joined exactly if no `dup2` has failed.  After a failure the stream
still has the end of the pipe that is written to, so the reader waits for bytes that may
still come. -/
theorem joins_iff {c : Cleanup} (h : (machine p).Execution trace s) (hpc : s.pc = .joining c)
    (hread : ¬ReadFailed trace) :
    (∃ trace' s', (machine p).Run s trace' s' ∧ ¬ReadFailed trace' ∧ s'.pc ≠ .joining c) ↔
      ¬Failed trace := by
  obtain ⟨hlayout, hstage⟩ := execution_stage h
  rw [Stage, hpc] at hstage
  obtain ⟨⟨-, -, hwrite⟩, -, hrestored⟩ := hstage
  constructor
  · rintro ⟨trace', s', hrun, hread', hleft⟩ hfailed
    have htarget : s.fds p.target = some .writeEnd := by
      rcases hrestored.file with ⟨-, hnot⟩ | ⟨htarget, -⟩
      · exact absurd hfailed hnot
      · exact htarget
    have hreader : s.reader ≠ .finished := fun hfinished =>
      (execution_drained h hread hfinished).2 htarget
    exact hleft (run_stuck hrun hread' ⟨hpc, hreader, htarget⟩).pc
  · intro hfailed
    have htarget := hrestored.back hfailed
    have hends := hlayout.ne_writeEnd (by simpa using hwrite) htarget
    obtain ⟨s', ⟨trace', hrun, hread', -⟩, hpc', hfinished⟩ :
        ∃ s', Reaches s s' ∧ s'.pc = s.pc ∧ s'.reader = .finished := by
      cases hreader : s.reader with
      | absent => exact absurd hreader hrestored.present
      | running => exact exists_finished hreader hends
      | finished => exact ⟨s, .refl s, rfl, hreader⟩
    have hjoin : (machine p).step s' .join = some ({}, { s' with pc := .closingRead c }) := by
      simp [machine, State.step, hpc', hpc, hfinished]
    refine ⟨_, _, hrun.snoc hjoin, ?_, by rintro ⟨⟩⟩
    rw [readFailed_concat, not_or]
    exact ⟨hread', by rintro ⟨⟩⟩

/-- **What is captured.**  In every run, whatever calls fail and whatever is written by other
threads, everything written to the stream is in its file, in the captured text, in the pipe or
in the buffer of the stream, in its order; what is still in the pipe when both its ends are
closed is gone.  When the capture is over, no descriptor is
left over, and if no `dup2` has failed, all are as before.  So they are if `End` returns a
text; and if no `read` has failed, nothing is left in the pipe then, and the text is what has
been written while the object existed, as long as nothing was written during a call on it.
`End` can return, however much is in the buffer and in the pipe.  But the reader thread can be
joined, if no `read` fails, exactly if no `dup2` has failed. -/
theorem capture_exact (h : (machine p).Execution trace s) :
    Ordered p trace s ∧
      (s.pc.over → (∀ fd, fd ≠ p.target → s.fds fd = p.fds fd) ∧
        (¬Failed trace → s.fds = p.fds)) ∧
      (∀ text, s.pc = .returned text → s.fds = p.fds ∧ text = s.capturedData ∧
        (¬ReadFailed trace → s.pipe = [] ∧ (Machine.history Effect.meanwhile trace = [] →
          text = Machine.history Effect.inside trace))) ∧
      (s.pc = .ending → ¬ReadFailed trace → 0 < p.capacity →
        ∃ s', Reaches s s' ∧ s'.pc = .returned (s.capturedData ++ s.pipe ++ s.buffer)) ∧
      ∀ c, s.pc = .joining c → ¬ReadFailed trace →
        ((∃ trace' s', (machine p).Run s trace' s' ∧ ¬ReadFailed trace' ∧
          s'.pc ≠ .joining c) ↔ ¬Failed trace) := by
  obtain ⟨hlayout, hstage⟩ := execution_stage h
  refine ⟨execution_ordered h, fun hover => ?_, fun text hpc => ?_, end_returns h,
    fun c hpc hread => joins_iff h hpc hread⟩
  · obtain ⟨hnone, htarget⟩ := stage_over hstage hover
    exact ⟨fun fd => hlayout.eq_of_ne hnone, fun hfailed => hlayout.eq_fds hnone (htarget hfailed)⟩
  · rw [Stage, hpc] at hstage
    obtain ⟨hhas, hfinished, htarget, htext⟩ := hstage
    refine ⟨hlayout.eq_fds hhas.eq_none htarget, htext, fun hread => ?_⟩
    have hpipe := (execution_drained h hread hfinished).1
    refine ⟨hpipe, fun hquiet => ?_⟩
    have htold := execution_told h hquiet
    rw [Told, hpc, hpipe] at htold
    rw [htold, List.append_nil]

/-- A process with a standard input, output and error, and a small pipe. -/
def smallProcess : Process where
  limit := 6
  target := 1
  capacity := 4
  fds fd := if fd = 1 then some .original else if fd < 3 then some .other else none
  fds_target := by decide
  fds_ne_readEnd := by decide
  fds_ne_writeEnd := by decide

/-- One byte is written before the capture, five while there is an object, which is more than
the pipe can take, and one after it. -/
def sixWrites : List (Event 6) :=
  [.write [1], .pipe2 (some (3, 4)), .emit 1, .fflush true, .fcntl (some 5), .dup2 true,
    .thread true, .write [2, 3], .emit 1, .write [4, 5, 6], .emit 3, .read (.bytes 2),
    .read .interrupted, .callEnd, .emit 1, .fflush true, .dup2 true, .close true,
    .read (.bytes 3), .close true, .read .nothing, .join, .close true, .write [7], .emit 1]

/-- The run. -/
def sixWritesRun : List (Event smallProcess.limit × Effect) × State smallProcess.limit :=
  (machine smallProcess).play (initial smallProcess) sixWrites (by decide +kernel)

/-- One byte is written before the object, five with it, and one after it; the capture is the
five. -/
theorem capture_exact_sixWrites :
    sixWritesRun.2.pc = .returned [2, 3, 4, 5, 6] ∧ sixWritesRun.2.fds = smallProcess.fds ∧
      Machine.history Effect.inside sixWritesRun.1 = [2, 3, 4, 5, 6] := by
  have hexec : (machine smallProcess).Execution sixWritesRun.1 sixWritesRun.2 :=
    Machine.execution_play rfl _
  have hpc : sixWritesRun.2.pc = .returned [2, 3, 4, 5, 6] := by decide +kernel
  obtain ⟨hfds, -, hread⟩ := (capture_exact hexec).2.2.1 _ hpc
  have hsound : ¬ReadFailed sixWritesRun.1 := by
    unfold ReadFailed
    decide +kernel
  exact ⟨hpc, hfds, ((hread hsound).2 (by decide +kernel)).symm⟩

/-- The file is not put back. -/
def notPutBack : List (Event 6) :=
  [.pipe2 (some (3, 4)), .fflush true, .fcntl (some 5), .dup2 true, .thread true, .callEnd,
    .fflush true, .dup2 false, .close true, .close true]

-- where `End` waits forever
example : (((machine smallProcess).exec (initial smallProcess) notPutBack).map fun r => r.2.pc) =
    some (.joining ⟨true, false, true⟩) := by
  decide +kernel

end Capture
