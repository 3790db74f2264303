import CppProfessional.Transition.CondVar
import Mathlib.Data.BitVec

/-!
# The output threads of the asynchronous library

`log_worker` and two `file_worker`s take blocks from `log_queue()` and
`file_queue()` under `queue_mutex()` and wait on `queue_cv()` for more.  The code
is the same in the library of the ninth task and in the bulk server of the tenth.

* `Shared` holds the static members of `taskmanager` and the control states of
  the three threads;
* `workerStep` is one step of a worker, with the two halves of
  `condition_variable::wait` apart: a predicate found false, and the release of
  the mutex together with the block;
* `Instr` are the steps by which the calling code touches the shared state;
  `publish`, `startThreads` and `shutdown` are the three programs it runs.

A string is its list of characters.  The mutex is held between two steps only by
a worker in `window`, so `MutexFree` is a condition on the control states.

`should_terminate` is atomic and is read twice in a row by a worker; the model
reads it once, which is the same as long as no thread resets it under a live
worker.
-/

namespace Async

open Transition

/-- A command line. -/
abbrev Line := List Char

/-- `OutputTask`: a block of commands with its time stamp, a count of clock ticks,
and the id of the context it comes from. -/
structure OutputTask where
  timestamp : ℤ
  contextId : Line
  commands : List Line
  deriving DecidableEq, Repr

/-- `TASK_MANAGER_NAME`. -/
def taskManagerName : Line := ['b', 'u', 'l', 'k']

/-- `std::to_string` of an integer. -/
def toText : ℤ → Line
  | .ofNat n => Nat.toDigits 10 n
  | .negSucc n => '-' :: Nat.toDigits 10 (n + 1)

/-- Ticks of `std::chrono::system_clock` per second. -/
def ticksPerSecond : ℤ := 1000000000

/-- What `log_worker` prints for a block, and `file_worker` writes. -/
def OutputTask.text (task : OutputTask) : Line :=
  taskManagerName ++ [':', ' '] ++ List.intercalate [',', ' '] task.commands ++ ['\n']

/-- The three output threads. -/
inductive Worker
  | log
  | file1
  | file2
  deriving DecidableEq, Repr

instance Worker.instFintype : Fintype Worker where
  elems := {.log, .file1, .file2}
  complete w := by cases w <;> decide

/-- The two queues. -/
inductive Queue
  | log
  | file
  deriving DecidableEq, Repr

/-- The queue a worker takes from. -/
def Worker.queue : Worker → Queue
  | .log => .log
  | .file1 | .file2 => .file

/-- The `thread_id` of a file worker. -/
def Worker.threadId : Worker → ℤ
  | .log => 0
  | .file1 => 1
  | .file2 => 2

/-- The name of the file for a block: name and seconds, context, thread and the
value of `file_counter`. -/
def fileName (task : OutputTask) (worker : Worker) (counter : BitVec 32) : Line :=
  taskManagerName ++ toText (task.timestamp / ticksPerSecond) ++ ['_'] ++ task.contextId ++
    ['_'] ++ toText worker.threadId ++ ['_'] ++ toText counter.toInt ++ ['.', 'l', 'o', 'g']

/-- The control state of a worker: about to lock the mutex; holding it with the
wait predicate found false; blocked in the wait; past the critical section with a
block; or out of its loop. -/
inductive Control
  | ready
  | window
  | blocked
  | working (task : OutputTask)
  | exited
  deriving DecidableEq, Repr

/-- The static members of `taskmanager`, `file_counter`, and the three `std::thread`
slots; `none` is a thread object that is not joinable. -/
structure Shared where
  shouldTerminate : Bool
  threadsInitialized : Bool
  logQueue : List OutputTask
  fileQueue : List OutputTask
  threads : Worker → Option Control
  fileCounter : BitVec 32

/-- What a step lets the outside see. -/
inductive Output
  | silent
  | pushed (task : OutputTask)
  | taken (worker : Worker) (task : OutputTask)
  | printed (task : OutputTask) (text : Line)
  | wrote (worker : Worker) (task : OutputTask) (name text : Line)
  deriving DecidableEq, Repr

/-- `log_queue()` or `file_queue()`. -/
def Shared.get (s : Shared) : Queue → List OutputTask
  | .log => s.logQueue
  | .file => s.fileQueue

def Shared.set (s : Shared) : Queue → List OutputTask → Shared
  | .log, tasks => { s with logQueue := tasks }
  | .file, tasks => { s with fileQueue := tasks }

/-- Worker `w` goes to control state `c`. -/
def Shared.goTo (s : Shared) (w : Worker) (c : Control) : Shared :=
  { s with threads := Function.update s.threads w (some c) }

/-- Nobody holds `queue_mutex()`. -/
def Shared.MutexFree (s : Shared) : Prop := ∀ w, s.threads w ≠ some .window

instance Shared.instDecidableMutexFree (s : Shared) : Decidable s.MutexFree :=
  inferInstanceAs (Decidable (∀ w, s.threads w ≠ some .window))

/-! ### The workers

A worker is in one of few places, and one step takes it to the next.  The look at the
predicate and the going to sleep are two steps: the mutex is held over both, but the
flag and the notification do not ask for it. -/

/-- The predicate of the wait. -/
def Worker.predicate (w : Worker) (s : Shared) : Bool :=
  !(s.get w.queue).isEmpty || s.shouldTerminate

/-- The critical section of a worker, up to the release of the mutex or to a
predicate found false. -/
def Worker.acquire (w : Worker) (s : Shared) : Output × Shared :=
  if !w.predicate s then (.silent, s.goTo w .window)
  else if s.shouldTerminate && (s.get w.queue).isEmpty then (.silent, s.goTo w .exited)
  else
    match s.get w.queue with
    -- the wait does not end with an empty queue and the flag down
    | [] => (.silent, s.goTo w .ready)
    | task :: rest => (.taken w task, (s.set w.queue rest).goTo w (.working task))

/-- What a worker does with a block; `opened` is `file.is_open()`. -/
def Worker.output (w : Worker) (task : OutputTask) (opened : Bool) (s : Shared) :
    Output × Shared :=
  if task.commands.isEmpty then (.silent, s.goTo w .ready)
  else
    match w with
    | .log => (.printed task task.text, s.goTo w .ready)
    | .file1 | .file2 =>
        -- the name is built first, so the counter advances even if the file does not open
        (if opened then .wrote w task (fileName task w s.fileCounter) task.text else .silent,
          { s with fileCounter := s.fileCounter + 1 }.goTo w .ready)

/-- One step of a worker of its own accord. -/
def workerStep (w : Worker) (opened : Bool) (s : Shared) : Option (Output × Shared) :=
  match s.threads w with
  | some .ready => if s.MutexFree then some (w.acquire s) else none
  | some .window => some (.silent, s.goTo w .blocked)
  | some (.working task) => some (w.output task opened s)
  | some .blocked | some .exited | none => none

/-- A spurious wake-up. -/
def spuriousStep (w : Worker) (s : Shared) : Option (Output × Shared) :=
  match s.threads w with
  | some .blocked => some (.silent, s.goTo w .ready)
  | _ => none

/-! ### The calling code

What a call does to the shared state is a list of instructions, each of them one atomic
step.  This is where interleavings come from: between two instructions every other
thread may move. -/

/-- Waiting on `queue_cv()`; a notified worker is about to lock the mutex again. -/
def queueCv : CondVar (Option Control) where
  asleep c := decide (c = some .blocked)
  notified c := decide (c = some .ready)
  wake _ := some .ready
  notified_wake _ _ := rfl
  not_asleep_wake _ _ := rfl
  not_notified_of_asleep c h := by
    rw [of_decide_eq_true h]
    rfl

/-- A step of the calling code on the shared state. -/
inductive Instr
  | push (task : OutputTask)
  | notifyAll
  | terminate (value : Bool)
  | start (w : Worker)
  | join (w : Worker)
  deriving DecidableEq, Repr

/-- `push` locks the mutex; `start` assigns to a thread object, which ends the
program if that object is joinable; `join` waits for the worker to leave its loop
and skips an object that is not joinable. -/
def Instr.exec (s : Shared) : Instr → Option (Output × Shared)
  | .push task =>
      if s.MutexFree then
        some (.pushed task,
          { s with logQueue := s.logQueue ++ [task], fileQueue := s.fileQueue ++ [task] })
      else none
  | .notifyAll => some (.silent, { s with threads := queueCv.notifyAll s.threads })
  | .terminate value => some (.silent, { s with shouldTerminate := value })
  | .start w => if s.threads w = none then some (.silent, s.goTo w .ready) else none
  | .join w =>
      match s.threads w with
      | none => some (.silent, s)
      | some .exited => some (.silent, { s with threads := Function.update s.threads w none })
      | some _ => none

/-- The end of `process_tasks`: both queues under the mutex, then `notify_all`. -/
def publish (task : OutputTask) : List Instr := [.push task, .notifyAll]

/-- The thread starts of `init_threads`. -/
def startThreads : List Instr := [.start .log, .start .file1, .start .file2]

/-- The joins of `stop_threads`. -/
def joinThreads : List Instr := [.join .log, .join .file1, .join .file2]

/-- `stop_threads` after its `exchange` returned true; `flush` is the block that
`shared_task_manager()->finish()` puts out first, where there is such a manager. -/
def shutdown (flush : Option OutputTask) : List Instr :=
  flush.elim [] publish ++ .terminate true :: .notifyAll :: joinThreads

/-! ### What a step can do

The two lists below are what the proofs about workers and callers go through.  They name
what a step changes and under which guard, and the step functions are not unfolded
again. -/

section Access

variable (s : Shared) (w : Worker) (c : Control) (q : Queue) (tasks : List OutputTask)

@[simp] theorem get_goTo : (s.goTo w c).get q = s.get q := by cases q <;> rfl

@[simp] theorem threads_goTo :
    (s.goTo w c).threads = Function.update s.threads w (some c) := rfl

@[simp] theorem shouldTerminate_goTo : (s.goTo w c).shouldTerminate = s.shouldTerminate := rfl

@[simp] theorem threadsInitialized_goTo :
    (s.goTo w c).threadsInitialized = s.threadsInitialized := rfl

@[simp] theorem get_set_self : (s.set q tasks).get q = tasks := by cases q <;> rfl

theorem get_set_of_ne {q' : Queue} (hne : q' ≠ q) : (s.set q tasks).get q' = s.get q' := by
  cases q <;> cases q' <;> first | rfl | exact absurd rfl hne

@[simp] theorem threads_set : (s.set q tasks).threads = s.threads := by cases q <;> rfl

@[simp] theorem shouldTerminate_set :
    (s.set q tasks).shouldTerminate = s.shouldTerminate := by cases q <;> rfl

@[simp] theorem threadsInitialized_set :
    (s.set q tasks).threadsInitialized = s.threadsInitialized := by cases q <;> rfl

end Access

/-- Everything a worker can do, spurious wake-ups included. -/
inductive WorkerMove (w : Worker) (s : Shared) : Output → Shared → Prop
  | waits : s.threads w = some .ready → s.MutexFree → s.get w.queue = [] →
      s.shouldTerminate = false → WorkerMove w s .silent (s.goTo w .window)
  | exits : s.threads w = some .ready → s.MutexFree → s.get w.queue = [] →
      s.shouldTerminate = true → WorkerMove w s .silent (s.goTo w .exited)
  | takes {task : OutputTask} {rest : List OutputTask} : s.threads w = some .ready →
      s.MutexFree → s.get w.queue = task :: rest →
      WorkerMove w s (.taken w task) ((s.set w.queue rest).goTo w (.working task))
  | blocks : s.threads w = some .window → WorkerMove w s .silent (s.goTo w .blocked)
  | wakes : s.threads w = some .blocked → WorkerMove w s .silent (s.goTo w .ready)
  | skips {task : OutputTask} : s.threads w = some (.working task) → task.commands = [] →
      WorkerMove w s .silent (s.goTo w .ready)
  | prints {task : OutputTask} : s.threads w = some (.working task) → task.commands ≠ [] →
      w = .log → WorkerMove w s (.printed task task.text) (s.goTo w .ready)
  | writes {task : OutputTask} {output : Output} : s.threads w = some (.working task) →
      task.commands ≠ [] → w ≠ .log →
      output = .wrote w task (fileName task w s.fileCounter) task.text ∨ output = .silent →
      WorkerMove w s output ({ s with fileCounter := s.fileCounter + 1 }.goTo w .ready)

variable {s s' : Shared} {w : Worker} {output : Output}

/-- A step of a worker is one of the moves of its loop; the two halves of a wait are two of
them. -/
theorem workerStep_move {opened : Bool} (h : workerStep w opened s = some (output, s')) :
    WorkerMove w s output s' := by
  unfold workerStep at h
  split at h
  · next hready =>
    split at h
    · next hfree =>
      simp only [Option.some.injEq, Worker.acquire, Worker.predicate] at h
      cases hq : s.get w.queue with
      | nil =>
          cases hterm : s.shouldTerminate with
          | false =>
              simp only [hq, hterm, List.isEmpty_nil, Bool.not_true, Bool.or_self,
                Bool.not_false, if_true, Prod.mk.injEq] at h
              obtain ⟨rfl, rfl⟩ := h
              exact .waits hready hfree hq hterm
          | true =>
              simp only [hq, hterm, List.isEmpty_nil, Bool.not_true, Bool.or_true,
                Bool.false_eq_true, if_false, Bool.and_self, if_true, Prod.mk.injEq] at h
              obtain ⟨rfl, rfl⟩ := h
              exact .exits hready hfree hq hterm
      | cons task rest =>
          simp only [hq, List.isEmpty_cons, Bool.not_false, Bool.true_or, Bool.not_true,
            Bool.false_eq_true, if_false, Bool.and_false, Prod.mk.injEq] at h
          obtain ⟨rfl, rfl⟩ := h
          exact .takes hready hfree hq
    · cases h
  · next hwindow =>
    cases h
    exact .blocks hwindow
  · next task hworking =>
    simp only [Option.some.injEq, Worker.output] at h
    split at h
    · next hempty =>
      cases h
      exact .skips hworking (List.isEmpty_iff.mp hempty)
    · next hne =>
      have hne : task.commands ≠ [] := fun hnil => hne (List.isEmpty_iff.mpr hnil)
      split at h
      · cases h
        exact .prints hworking hne rfl
      · cases h
        refine .writes hworking hne (by simp) ?_
        cases opened <;> simp
      · cases h
        refine .writes hworking hne (by simp) ?_
        cases opened <;> simp
  · cases h
  · cases h
  · cases h

/-- So is a wake-up without a cause, which the wait may have at any time. -/
theorem spuriousStep_move (h : spuriousStep w s = some (output, s')) :
    WorkerMove w s output s' := by
  unfold spuriousStep at h
  split at h
  · next hblocked =>
    cases h
    exact .wakes hblocked
  · cases h

/-- Everything an instruction can do. -/
inductive InstrMove (s : Shared) : Instr → Output → Shared → Prop
  | pushes {task : OutputTask} : s.MutexFree →
      InstrMove s (.push task) (.pushed task)
        { s with logQueue := s.logQueue ++ [task], fileQueue := s.fileQueue ++ [task] }
  | notifies : InstrMove s .notifyAll .silent { s with threads := queueCv.notifyAll s.threads }
  | terminates {value : Bool} :
      InstrMove s (.terminate value) .silent { s with shouldTerminate := value }
  | starts {w : Worker} : s.threads w = none → InstrMove s (.start w) .silent (s.goTo w .ready)
  | skips {w : Worker} : s.threads w = none → InstrMove s (.join w) .silent s
  | joins {w : Worker} : s.threads w = some .exited →
      InstrMove s (.join w) .silent { s with threads := Function.update s.threads w none }

/-- An instruction does one of the things the list of instructions names, when it can be
carried out: a push needs the mutex, and a join needs a thread that has left its loop, or
none. -/
theorem exec_move {instr : Instr} (h : instr.exec s = some (output, s')) :
    InstrMove s instr output s' := by
  cases instr with
  | push task =>
      obtain ⟨hfree, hend⟩ := Option.ite_none_right_eq_some.mp h
      cases hend
      exact .pushes hfree
  | notifyAll =>
      cases h
      exact .notifies
  | terminate value =>
      cases h
      exact .terminates
  | start w =>
      obtain ⟨hnone, hend⟩ := Option.ite_none_right_eq_some.mp h
      cases hend
      exact .starts hnone
  | join w =>
      simp only [Instr.exec] at h
      split at h
      · next hnone =>
        cases h
        exact .skips hnone
      · next hexited =>
        cases h
        exact .joins hexited
      · cases h

end Async
