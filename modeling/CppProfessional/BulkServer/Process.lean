import CppProfessional.Async.Delivery
import CppProfessional.BulkServer.Conservation

/-!
# The bulk server with its output workers

The library of the bulk server, the state it shares with the output workers, and
the workers themselves.  The calls come from one thread, one at a time; a call does
its work on the contexts and the shared manager in one step, and leaves the
instructions on the shared state that it has still to run (`instructions`).  The
next call, or the next line of a `receive`, waits until they have run.  The workers
see nothing of the contexts and the manager, so the order between these and the
instructions is not visible to them.

`ProcessMove` lists what one step can do, and `Process.step_move` is the inversion.
-/

namespace BulkServer

open Transition
open Async (Output Shared Worker Instr InstrMove WorkerMove publishing startThreads shutdown
  workerStep spuriousStep)

/-- The library, the shared state, and the rest of the call in progress. -/
structure Process where
  library : Library
  shared : Shared
  program : List Instr

/-- The server's thread makes a call, or takes the next line of a `receive`; it runs
an instruction; or a worker moves. -/
inductive ProcessEvent
  | call (e : Event)
  | advance
  | worker (w : Worker) (opened : Bool)
  | spurious (w : Worker)
  deriving DecidableEq, Repr

/-- What a step lets the outside see. -/
inductive ProcessEffect
  | called (effect : Effect)
  | output (output : Output)
  deriving DecidableEq, Repr

/-- What a step of the library does to the shared state: `init_threads` where it sets
the flag, `process_tasks` where a block comes out, `stop_threads` where it clears the
flag. -/
def instructions (s s' : Library) : Effect → List Instr
  | .connected _ =>
      if !s.threadsInitialized && s'.threadsInitialized then .terminate false :: startThreads
      else []
  | .processed _ _ output => publishing (output.map Prod.snd)
  | .disconnected _ output =>
      if s.threadsInitialized && !s'.threadsInitialized then shutdown (output.map Prod.snd)
      else []
  | .silent | .accepted _ => []

/-- A step of the library has been made; its instructions are still to run. -/
def Process.after (s : Process) (library : Library) (effect : Effect) : Process where
  library := library
  shared := { s.shared with threadsInitialized := library.threadsInitialized }
  program := instructions s.library library effect

/-- One step. -/
def Process.step (s : Process) : ProcessEvent → Option (ProcessEffect × Process)
  | .call e =>
      if s.program = [] then
        (BulkServer.step s.library e).map fun (effect, library) =>
          (.called effect, s.after library effect)
      else none
  | .advance =>
      match s.program with
      | [] => none
      | instr :: rest =>
          (instr.exec s.shared).map fun (output, shared) =>
            (.output output, { s with shared := shared, program := rest })
  | .worker w opened =>
      (workerStep w opened s.shared).map fun (output, shared) =>
        (.output output, { s with shared := shared })
  | .spurious w =>
      (spuriousStep w s.shared).map fun (output, shared) =>
        (.output output, { s with shared := shared })

/-- The state before the first call. -/
def Process.initial : Process where
  library := BulkServer.initial
  shared :=
    { shouldTerminate := false, threadsInitialized := false, logQueue := [], fileQueue := [],
      threads := fun _ => none, fileCounter := 0 }
  program := []

/-- The bulk server with its output workers. -/
def processMachine : Machine Process ProcessEvent ProcessEffect where
  init := (· = .initial)
  step := Process.step

/-! ### What one step can do -/

/-- Everything a step can do. -/
inductive ProcessMove (s : Process) : ProcessEvent → ProcessEffect → Process → Prop
  | calls {e : Event} {effect : Effect} {library : Library} : s.program = [] →
      Move s.library e effect library →
      ProcessMove s (.call e) (.called effect) (s.after library effect)
  | advances {instr : Instr} {rest : List Instr} {output : Output} {shared : Shared} :
      s.program = instr :: rest → InstrMove s.shared instr output shared →
      ProcessMove s .advance (.output output) { s with shared := shared, program := rest }
  | works {w : Worker} {opened : Bool} {output : Output} {shared : Shared} :
      workerStep w opened s.shared = some (output, shared) →
      WorkerMove w s.shared output shared →
      ProcessMove s (.worker w opened) (.output output) { s with shared := shared }
  | wakes {w : Worker} {output : Output} {shared : Shared} :
      spuriousStep w s.shared = some (output, shared) →
      WorkerMove w s.shared output shared →
      ProcessMove s (.spurious w) (.output output) { s with shared := shared }

variable {s s' : Process} {e : ProcessEvent} {effect : ProcessEffect}

/-- **Inversion of a step.**  A call changes the library and leaves a program for the shared
state; every other step is an instruction of that program or one of a worker. -/
theorem Process.step_move (hs : s.library.Consistent) (h : s.step e = some (effect, s')) :
    ProcessMove s e effect s' := by
  cases e with
  | call e =>
      obtain ⟨hprogram, h⟩ := Option.ite_none_right_eq_some.mp h
      obtain ⟨⟨effect', library⟩, hstep, hend⟩ := Option.map_eq_some_iff.mp h
      cases hend
      exact .calls hprogram (BulkServer.step_move hs hstep)
  | advance =>
      simp only [Process.step] at h
      split at h
      · cases h
      · next instr rest hprogram =>
        obtain ⟨⟨output, shared⟩, hexec, hend⟩ := Option.map_eq_some_iff.mp h
        cases hend
        exact .advances hprogram (Async.exec_move hexec)
  | worker w opened =>
      obtain ⟨⟨output, shared⟩, hwork, hend⟩ := Option.map_eq_some_iff.mp h
      cases hend
      exact .works hwork (Async.workerStep_move hwork)
  | spurious w =>
      obtain ⟨⟨output, shared⟩, hwake, hend⟩ := Option.map_eq_some_iff.mp h
      cases hend
      exact .wakes hwake (Async.spuriousStep_move hwake)

/-- What the workers do does not touch the library. -/
theorem ProcessMove.consistent (h : ProcessMove s e effect s') (hs : s.library.Consistent) :
    s'.library.Consistent := by
  cases h with
  | calls _ hmove => exact move_consistent hmove hs
  | advances _ _ | works _ _ | wakes _ _ => exact hs

end BulkServer
