import CppProfessional.BulkServer.Periods

/-!
# The output of the bulk server

Over any number of connection periods and any interleaving of the workers with the
server's thread, every block that is pushed is printed once, in order, and written
once, by a file worker, to a file of its own: `output_exactly_once`.

`Delivering` is the invariant of a run.  What was pushed is what was printed, followed
by the block in the log worker's hand and the queue; for the files the same holds up
to the order, because two workers share their queue.

The workers are those of the ninth task, whose library loses the blocks of its second
period.  What makes the difference is one instruction: here `init_threads` takes
`should_terminate` back before it starts the workers, and the invariant of a period, `Staffed`,
can be established again.
-/

namespace BulkServer

open Transition
open Async (OutputTask Line Block Output Shared Worker Instr InstrMove WorkerMove publishing
  startThreads shutdown inHand writtenTasks Drained FilesNamed)

/-! ### What a run put out

A run is seen through three functions of its trace: the blocks pushed, printed and
written.  The results compare the three with each other and with the queues. -/

/-- What a step put out. -/
def ProcessEffect.through {α : Type} (f : Output → List α) : ProcessEffect → List α
  | .called _ => []
  | .output o => f o

/-- The blocks pushed to both queues. -/
def pushes (trace : List (ProcessEvent × ProcessEffect)) : List OutputTask :=
  Machine.history (ProcessEffect.through Output.pushes) trace

/-- The blocks printed. -/
def prints (trace : List (ProcessEvent × ProcessEffect)) : List OutputTask :=
  Machine.history (ProcessEffect.through Output.prints) trace

/-- The blocks written, with the worker and the name of the file. -/
def writes (trace : List (ProcessEvent × ProcessEffect)) : List (Worker × OutputTask × Line) :=
  Machine.history (ProcessEffect.through Output.writes) trace

/-- Every log file opens. -/
def ProcessEvent.opens : ProcessEvent → Bool
  | .worker _ opened => opened
  | .call _ | .advance | .spurious _ => true

/-- The bulk server with every log file opened. -/
def openingMachine : Machine Process ProcessEvent ProcessEffect :=
  processMachine.restrict fun _ e => e.opens = true

/-- No connection is registered, and no call is in progress. -/
def Process.AtRest (s : Process) : Prop :=
  s.library.contexts.entries = [] ∧ s.program = []

/-- Both queues are empty, every worker has left its loop and been joined, and every
block has been printed, in order, and written. -/
structure Delivered (trace : List (ProcessEvent × ProcessEffect)) (s : Process) : Prop where
  queues : ∀ q, s.shared.get q = []
  workers : ∀ w, s.shared.threads w = none
  printed : prints trace = pushes trace
  written : (writtenTasks (writes trace)).Perm (pushes trace)

/-! ### The laws of one step

The laws about the workers are those of the library, whose code is the same; here they
are put together with the steps of the calling thread. -/

variable {s s' : Process} {e : ProcessEvent} {effect : ProcessEffect}

/-- What is in a queue, with what a step pushes, is what leaves it, with what is in it then. -/
theorem ProcessMove.queue (h : ProcessMove s e effect s') (q : Async.Queue) :
    s.shared.get q ++ effect.through Output.pushes =
      effect.through (Output.takes q) ++ s'.shared.get q := by
  cases h with
  | calls _ _ => cases q <;> simp [ProcessEffect.through, Process.after, Shared.get]
  | advances _ hmove => exact Async.instrMove_queue hmove q
  | works _ hmove | wakes _ hmove => exact Async.workerMove_queue hmove q

/-- One step keeps the queues drained.  Here nothing is asked of the client: that the workers
attend to every push is part of the invariant `Staffed`. -/
theorem ProcessMove.drained (h : ProcessMove s e effect s') (hstaffed : Staffed s)
    (hinv : Drained s.shared) : Drained s'.shared := by
  cases h with
  | calls _ _ => exact hinv.mono (fun _ hu => hu) (fun q _ => by cases q <;> rfl)
  | advances hprogram hmove =>
      refine Async.instrMove_drained hmove (fun task hpush => ?_) hinv
      subst hpush
      exact hstaffed.attended hprogram
  | works _ hmove | wakes _ hmove => exact Async.workerMove_drained hmove hinv

/-- Every block on its way has commands. -/
structure Process.Substantial (s : Process) : Prop where
  shared : s.shared.Substantial
  program : ∀ task, .push task ∈ s.program → task.commands ≠ []

/-- No empty block is put out. -/
theorem PutsOut.commands {kind : Block} {contextId : Line} {block : List Line}
    {output : Option (Block × OutputTask)} (h : PutsOut kind contextId block output)
    {task : OutputTask} (htask : output.map Prod.snd = some task) : task.commands ≠ [] := by
  cases h with
  | nothing _ => cases htask
  | block timestamp hne =>
      cases htask
      exact hne

/-- Nor does a command put out one. -/
theorem CommandMove.commands {m : TaskManager} {context : ConnectionContext} {command : Line}
    {r : Processed} (h : CommandMove m context command r) {task : OutputTask}
    (htask : r.output.map Prod.snd = some task) : task.commands ≠ [] := by
  cases h with
  | opens _ hout | closes _ hout | fills _ _ _ _ _ hout => exact hout.commands htask
  | nests _ | unnests _ | skips | collects _ _ _ _ | appends _ _ _ _ _ => cases htask

/-- The blocks of a call have commands. -/
theorem Move.commands {s s' : Library} {e : Event} {effect : Effect} (h : Move s e effect s')
    {task : OutputTask} (htask : .push task ∈ instructions s s' effect) : task.commands ≠ [] := by
  cases h with
  | connects _ _ _ =>
      simp only [instructions] at htask
      split at htask <;> simp [startThreads] at htask
  | processes _ _ _ hmove => exact hmove.commands (Async.push_mem_publishing htask)
  | stops _ _ _ _ hout =>
      simp only [instructions] at htask
      split at htask
      · refine hout.commands (Async.push_mem_publishing ?_)
        simpa [shutdown, Async.joinThreads, publishing] using htask
      · cases htask
  | misses _ _ | leaves _ _ _ =>
      simp only [instructions] at htask
      split at htask
      · simp [shutdown, Async.joinThreads] at htask
      · cases htask
  | ignores _ _ | ignoresNull _ | accepts _ _ | returns _ => cases htask

/-- All blocks on their way have commands. -/
theorem ProcessMove.substantial (h : ProcessMove s e effect s') (hinv : s.Substantial) :
    s'.Substantial := by
  cases h with
  | calls _ hmove =>
      exact ⟨hinv.shared.congr (fun q => by cases q <;> rfl) hinv.shared.working,
        fun _ htask => hmove.commands htask⟩
  | advances hprogram hmove =>
      refine
        ⟨Async.instrMove_substantial hmove (fun task hpush => hinv.program task ?_) hinv.shared,
        fun task htask => hinv.program task ?_⟩
      · rw [hprogram, hpush]
        exact List.mem_cons_self ..
      · rw [hprogram]
        exact List.mem_cons_of_mem _ htask
  | works _ hmove | wakes _ hmove =>
      exact ⟨Async.workerMove_substantial hmove hinv.shared, hinv.program⟩

/-- What the printer has in hand, with what it takes, is what it prints, with what it has in
hand then. -/
theorem ProcessMove.printing (h : ProcessMove s e effect s') (hinv : s.Substantial) :
    inHand (s.shared.threads .log) ++ effect.through (Output.takes .log) =
      effect.through Output.prints ++ inHand (s'.shared.threads .log) := by
  cases h with
  | calls _ _ => simp [ProcessEffect.through, Process.after]
  | advances _ hmove => exact Async.instrMove_prints hmove
  | works _ hmove | wakes _ hmove => exact Async.workerMove_prints hmove hinv.shared

/-- A file that is to be written opens. -/
theorem ProcessMove.writing (h : ProcessMove s e effect s') (hopens : e.opens = true)
    (hinv : s.Substantial) :
    (s.shared.inFileHands ++ effect.through (Output.takes .file)).Perm
      (writtenTasks (effect.through Output.writes) ++ s'.shared.inFileHands) := by
  cases h with
  | calls _ _ => simp [ProcessEffect.through, Process.after, Shared.inFileHands, writtenTasks]
  | advances _ hmove => exact Async.instrMove_writes hmove
  | works hstep hmove =>
      subst hopens
      exact Async.workerMove_writes hmove hinv.shared
        fun _ htask hne hw => Async.workerStep_opens hstep htask hne hw
  | @wakes w _ _ hstep hmove =>
      refine Async.workerMove_writes hmove hinv.shared fun task htask _ _ => ?_
      simp [Async.spuriousStep, htask] at hstep

/-- One step keeps the names of the files apart, as the counter goes up with each file. -/
theorem ProcessMove.named {written : List (Worker × OutputTask × Line)}
    (h : ProcessMove s e effect s') (hopens : e.opens = true)
    (hinv : FilesNamed written s.shared.fileCounter) :
    FilesNamed (written ++ effect.through Output.writes) s'.shared.fileCounter := by
  cases h with
  | calls _ _ =>
      rw [ProcessEffect.through, List.append_nil]
      exact hinv
  | advances _ hmove => exact Async.instrMove_named hmove hinv
  | works hstep hmove =>
      subst hopens
      exact Async.workerMove_named hmove
        (fun _ htask hne hw => Async.workerStep_opens hstep htask hne hw) hinv
  | @wakes w _ _ hstep hmove =>
      refine Async.workerMove_named hmove (fun task htask _ _ => ?_) hinv
      simp [Async.spuriousStep, htask] at hstep

/-! ### Every run

Between the push and the screen a block is in the queue or in the log worker's hand, and
nowhere else.  With both empty, everything that was pushed has been printed. -/

/-- What holds in every state of a run: the invariants of the process, and where the blocks
pushed so far are.  They have to be carried together: that no block is left in a queue rests on
`drained`, this on the workers being in their loops at a push (`staffed`), and that they come
to the block at all on `heard`. -/
structure Delivering (trace : List (ProcessEvent × ProcessEffect)) (s : Process) : Prop where
  consistent : s.library.Consistent
  staffed : Staffed s
  heard : Heard s
  drained : Drained s.shared
  substantial : s.Substantial
  printed : prints trace ++ inHand (s.shared.threads .log) ++ s.shared.get .log = pushes trace
  written : (writtenTasks (writes trace) ++ s.shared.inFileHands ++ s.shared.get .file).Perm
    (pushes trace)
  named : FilesNamed (writes trace) s.shared.fileCounter

/-- At the start there are no blocks. -/
theorem delivering_initial : Delivering [] .initial where
  consistent := consistent_initial
  staffed := staffed_initial
  heard := ⟨fun w hw => (by cases hw), fun w hw => (by cases hw)⟩
  drained q _ := by cases q <;> rfl
  substantial :=
    ⟨⟨fun q task htask => (by cases q <;> cases htask), fun w task htask => (by cases htask)⟩,
      fun task htask => (by cases htask)⟩
  printed := rfl
  written := List.Perm.refl _
  named := .nil

/-- One step keeps all of this, if the file that it may open does open.  A block whose file
does not open is taken from the queue and written nowhere, which no invariant could make up
for. -/
theorem ProcessMove.delivering {trace : List (ProcessEvent × ProcessEffect)}
    (h : ProcessMove s e effect s') (hopens : e.opens = true) (hinv : Delivering trace s) :
    Delivering (trace ++ [(e, effect)]) s' := by
  have hqueue := h.queue
  refine ⟨h.consistent hinv.consistent, h.staffed hinv.consistent hinv.staffed,
    h.heard hinv.staffed.stage hinv.heard, h.drained hinv.staffed hinv.drained,
    h.substantial hinv.substantial, ?_, ?_, ?_⟩
  · have hprints := h.printing hinv.substantial
    rw [prints, pushes, Machine.history_append, Machine.history_append,
      Machine.history_singleton, Machine.history_singleton, ← pushes, ← prints, ← hinv.printed]
    calc prints trace ++ effect.through Output.prints ++ inHand (s'.shared.threads .log) ++
          s'.shared.get .log
      _ = prints trace ++ (effect.through Output.prints ++ inHand (s'.shared.threads .log)) ++
          s'.shared.get .log := by simp only [List.append_assoc]
      _ = prints trace ++ inHand (s.shared.threads .log) ++
          (effect.through (Output.takes .log) ++ s'.shared.get .log) := by
        rw [← hprints]
        simp only [List.append_assoc]
      _ = prints trace ++ inHand (s.shared.threads .log) ++ s.shared.get .log ++
          effect.through Output.pushes := by
        rw [← hqueue .log]
        simp only [List.append_assoc]
  · have hwrites := h.writing hopens hinv.substantial
    rw [writes, pushes, Machine.history_append, Machine.history_append,
      Machine.history_singleton, Machine.history_singleton, ← pushes, ← writes]
    have hstep : (writtenTasks (writes trace ++ effect.through Output.writes) ++
        s'.shared.inFileHands ++ s'.shared.get .file).Perm
        (writtenTasks (writes trace) ++ s.shared.inFileHands ++ s.shared.get .file ++
          effect.through Output.pushes) := by
      rw [List.append_assoc _ (s.shared.get .file), hqueue .file]
      simp only [writtenTasks, List.map_append, List.append_assoc]
      simp only [writtenTasks] at hwrites
      refine List.Perm.append_left _ ?_
      rw [← List.append_assoc, ← List.append_assoc]
      exact (hwrites.symm).append_right _
    exact hstep.trans (hinv.written.append_right _)
  · rw [writes, Machine.history_append, Machine.history_singleton, ← writes]
    exact h.named hopens hinv.named

/-- So it holds in every state of a run whose files open. -/
theorem execution_delivering {trace : List (ProcessEvent × ProcessEffect)} {s : Process}
    (h : openingMachine.Execution trace s) : Delivering trace s := by
  refine h.induct (I := Delivering) ?_ ?_
  · rintro s rfl
    exact delivering_initial
  · intro trace s e effect s' _ hinv hs
    obtain ⟨hopens, hs⟩ := Machine.restrict_step_eq_some.mp hs
    exact (Process.step_move hinv.consistent hs).delivering hopens hinv

/-- When nothing is on its way, everything pushed has been put out. -/
theorem Delivering.all {trace : List (ProcessEvent × ProcessEffect)} (h : Delivering trace s)
    (hqueues : ∀ q, s.shared.get q = []) (hhands : ∀ w, inHand (s.shared.threads w) = []) :
    prints trace = pushes trace ∧ (writtenTasks (writes trace)).Perm (pushes trace) := by
  have hprinted := h.printed
  have hwritten := h.written
  rw [hqueues, hhands] at hprinted
  rw [hqueues, Shared.inFileHands, hhands, hhands] at hwritten
  exact ⟨by simpa using hprinted, by simpa using hwritten⟩

/-- **Exactly once.**  In every state of every run, what was pushed has been printed in
order, up to the block in the log worker's hand and the queue, and has been written,
up to the blocks in the file workers' hands and the queue; no two files have the same
name.  What is still missing does not wait for a call.  And when no connection is
registered and no call is in progress, all of it is out, the workers are gone, and the
next `connect` starts new ones with the flag reset. -/
theorem output_exactly_once {trace : List (ProcessEvent × ProcessEffect)} {s : Process}
    (h : openingMachine.Execution trace s) (hfew : (pushes trace).length < 2 ^ 32) :
    (prints trace ++ inHand (s.shared.threads .log) ++ s.shared.logQueue = pushes trace ∧
      (writtenTasks (writes trace) ++ s.shared.inFileHands ++ s.shared.fileQueue).Perm
        (pushes trace) ∧
      (∀ x ∈ writes trace, x.1 ≠ .log) ∧ ((writes trace).map fun x => x.2.2).Nodup) ∧
    ((∃ e, e.continues = true ∧ (s.step e).isSome = true) ∨
      prints trace = pushes trace ∧ (writtenTasks (writes trace)).Perm (pushes trace)) ∧
    (s.AtRest → Delivered trace s ∧ ∀ bulk address effect s',
      s.step (.call (.connect bulk address)) = some (effect, s') →
        s'.program = .terminate false :: startThreads) := by
  have hinv := execution_delivering h
  refine ⟨⟨hinv.printed, hinv.written, hinv.named.workers, hinv.named.nodup ?_⟩, ?_, ?_⟩
  · have hlength := hinv.written.length_eq
    simp only [List.length_append, writtenTasks, List.length_map] at hlength
    omega
  · rcases progress hinv.drained hinv.heard with hstep | ⟨hqueues, hhands⟩
    · exact Or.inl hstep
    · exact Or.inr (hinv.all hqueues hhands)
  · rintro ⟨hempty, hprogram⟩
    have hflag : s.library.threadsInitialized = false := by
      rw [hinv.consistent.initialized, hinv.consistent.shared.mpr hempty, Option.isSome_none]
    have hworkers := hinv.staffed.free hflag hprogram
    have hqueues (q : Async.Queue) : s.shared.get q = [] :=
      hinv.drained q fun w _ => by rw [hworkers w]; rfl
    obtain ⟨hprinted, hwritten⟩ := hinv.all hqueues fun w => by rw [hworkers w]; rfl
    refine ⟨⟨hqueues, hworkers, hprinted, hwritten⟩, fun bulk address effect s' hs => ?_⟩
    have hmove := Process.step_move hinv.consistent hs
    cases hmove with
    | calls _ hmove =>
        cases hmove with
        | connects _ _ _ => simp [Process.after, instructions, hflag]

/-- The next instructions of the call in progress. -/
def advances (n : ℕ) : List ProcessEvent := List.replicate n .advance

/-- One connection that sends the command `c`; its block is written by worker `w`, which
the `disconnect` finds with the block still in hand. -/
def period (c : Char) (w : Worker) : List ProcessEvent :=
  List.flatten
    [[.call (.connect 1 1)], advances 4,
      [.call (.receive 1 [c, '\n']), .call (.line 0)], advances 2, [.call (.line 0)],
      [.worker .log true, .worker .log true, .worker w true],
      [.call (.disconnect 1)], advances 2,
      [.worker w true, .worker .log true, .worker .file1 true, .worker .file2 true], advances 3]

/-- Two periods, with a different file worker in each. -/
def twoPeriods : List (ProcessEvent × ProcessEffect) × Process :=
  openingMachine.play .initial (period 'a' .file1 ++ period 'b' .file2) (by decide +kernel)

/-- Two connections one after the other, with workers of their own: each block is printed and
written once, under a name of its own. -/
theorem output_exactly_once_twoPeriods :
    pushes twoPeriods.1 = [⟨0, ['0'], [['a']]⟩, ⟨0, ['0'], [['b']]⟩] ∧
      Delivered twoPeriods.1 twoPeriods.2 ∧
      (writes twoPeriods.1).map (fun x => x.2.2) =
        ["bulk0_0_1_0.log".toList, "bulk0_0_2_1.log".toList] := by
  have hexec : openingMachine.Execution twoPeriods.1 twoPeriods.2 := Machine.execution_play rfl _
  have hpushes : pushes twoPeriods.1 = [⟨0, ['0'], [['a']]⟩, ⟨0, ['0'], [['b']]⟩] := by
    decide +kernel
  have hrest : twoPeriods.2.AtRest := ⟨by decide +kernel, by decide +kernel⟩
  have hdelivered := (output_exactly_once hexec (by rw [hpushes]; decide)).2.2 hrest
  exact ⟨hpushes, hdelivered.1, by decide +kernel⟩

end BulkServer
