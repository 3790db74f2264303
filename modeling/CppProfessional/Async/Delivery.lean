import CppProfessional.Async.Numerals

/-!
# What the output workers deliver

The shared state on its own: what a step pushes, takes, prints and writes, and what
holds of the workers under any calling code.

* `instrMove_queue`, `workerMove_queue` — each queue is first in, first out;
* `Drained` — a queue whose workers are all out of their loop is empty; a push into
  an unattended queue is the only step that breaks this;
* `Shared.Substantial` — every block has commands, so that no worker skips one, and
  then the log worker prints what it takes, in order (`workerMove_prints`), and the
  file workers write what they take (`workerMove_writes`);
* `FilesNamed` — the files of a run have different names (`FilesNamed.nodup`).
-/

namespace Async

open Transition

/-! ### The two queues

A block is pushed to both queues, and each is a first-in-first-out queue with workers of
its own.  What enters and what leaves is stated for one queue at a time, so that the
conservation law for queues applies to each. -/

/-- The blocks a step pushed, to both queues. -/
def Output.pushes : Output → List OutputTask
  | .pushed task => [task]
  | .silent | .taken _ _ | .printed _ _ | .wrote _ _ _ _ => []

/-- The blocks a step took from one of the queues. -/
def Output.takes (q : Queue) : Output → List OutputTask
  | .taken w task => if w.queue = q then [task] else []
  | .silent | .pushed _ | .printed _ _ | .wrote _ _ _ _ => []

/-- The blocks a step printed. -/
def Output.prints : Output → List OutputTask
  | .printed task _ => [task]
  | .silent | .pushed _ | .taken _ _ | .wrote _ _ _ _ => []

/-- What is in a queue, with what an instruction pushes, is what leaves it, with what is in it
afterwards. -/
theorem instrMove_queue {shared shared' : Shared} {instr : Instr} {output : Output}
    (h : InstrMove shared instr output shared') (q : Queue) :
    shared.get q ++ output.pushes = output.takes q ++ shared'.get q := by
  cases h <;> cases q <;> simp [Output.pushes, Output.takes, Shared.get, Shared.goTo]

/-- The same of a worker, which only takes. -/
theorem workerMove_queue {shared shared' : Shared} {w : Worker} {output : Output}
    (h : WorkerMove w shared output shared') (q : Queue) :
    shared.get q ++ output.pushes = output.takes q ++ shared'.get q := by
  cases h with
  | @takes task rest _ _ hqueue =>
      by_cases hq : w.queue = q
      · subst hq
        simp [Output.pushes, Output.takes, hqueue]
      · simp [Output.pushes, Output.takes, hq, get_set_of_ne _ _ _ (Ne.symm hq)]
  | writes _ _ _ houtput =>
      rcases houtput with rfl | rfl <;> cases q <;>
        simp [Output.pushes, Output.takes, Shared.get, Shared.goTo]
  | _ => simp [Output.pushes, Output.takes]

/-! ### What no worker touches -/

/-- Instructions leave the flag to the calls that own it. -/
theorem instrMove_threadsInitialized {shared shared' : Shared} {instr : Instr}
    {output : Output} (h : InstrMove shared instr output shared') :
    shared'.threadsInitialized = shared.threadsInitialized := by
  cases h <;> rfl

/-- So do the workers. -/
theorem workerMove_threadsInitialized {shared shared' : Shared} {w : Worker}
    {output : Output} (h : WorkerMove w shared output shared') :
    shared'.threadsInitialized = shared.threadsInitialized := by
  cases h <;> simp

/-! ### Threads in their loop

A worker leaves its loop when it finds `should_terminate` set and its queue empty.  So a
queue that nobody attends to is empty when its last worker goes, and it stays so as long
as nothing is pushed to it: this is `Drained`. -/

/-- The thread has been started and has not left its loop. -/
def inLoop : Option Control → Bool
  | none | some .exited => false
  | some .ready | some .window | some .blocked | some (.working _) => true

/-- The block a thread holds. -/
def inHand : Option Control → List OutputTask
  | some (.working task) => [task]
  | none | some .ready | some .window | some .blocked | some .exited => []

/-- Each queue has a worker in its loop. -/
def Shared.Attended (s : Shared) : Prop :=
  inLoop (s.threads .log) = true ∧
    (inLoop (s.threads .file1) = true ∨ inLoop (s.threads .file2) = true)

/-- A worker does not start another one. -/
theorem workerMove_started {s s' : Shared} {w u : Worker} {output : Output}
    (h : WorkerMove w s output s') (hu : s'.threads u ≠ none) : s.threads u ≠ none := by
  by_cases huw : u = w
  · subst huw
    cases h <;> simp_all
  · cases h <;> simpa [Function.update_of_ne huw] using hu

/-- A queue whose workers are all out of their loop is empty. -/
def Drained (s : Shared) : Prop :=
  ∀ q, (∀ w, w.queue = q → inLoop (s.threads w) = false) → s.get q = []

section Drained

variable {s s' : Shared} {w : Worker} {output : Output}

/-- The invariant is kept by a step that lets no worker leave its loop and touches no queue
without one. -/
theorem Drained.mono (h : Drained s)
    (hloop : ∀ w, inLoop (s.threads w) = true → inLoop (s'.threads w) = true)
    (hget : ∀ q, (∀ w, w.queue = q → inLoop (s'.threads w) = false) → s'.get q = s.get q) :
    Drained s' := by
  intro q hq
  rw [hget q hq]
  refine h q fun w hw => ?_
  by_contra hin
  have hstill := hloop w (by simpa using hin)
  rw [hq w hw] at hstill
  cases hstill

/-- A thread that stays in the loop, or comes into it. -/
theorem inLoop_update {threads : Worker → Option Control} {c : Option Control}
    (hc : inLoop (threads w) = true → inLoop c = true) (u : Worker)
    (hu : inLoop (threads u) = true) : inLoop (Function.update threads w c u) = true := by
  by_cases huw : u = w
  · rw [huw, Function.update_self]
    exact hc (huw ▸ hu)
  · rwa [Function.update_of_ne huw]

/-- A worker leaves its loop only after it has found its queue empty, so the queue of a worker
that moves is empty or still attended; the other queue is not touched. -/
theorem workerMove_drained (h : WorkerMove w s output s') (hinv : Drained s) : Drained s' := by
  have hstays {s' : Shared} {c : Control}
      (hthreads : s'.threads = Function.update s.threads w (some c))
      (hc : inLoop (some c) = true) (hget : ∀ q, q ≠ w.queue → s'.get q = s.get q) :
      Drained s' := by
    refine hinv.mono (fun u hu => ?_) (fun q hq => hget q ?_)
    · rw [hthreads]
      exact inLoop_update (fun _ => hc) u hu
    · rintro rfl
      have hout := hq w rfl
      rw [hthreads, Function.update_self, hc] at hout
      cases hout
  cases h with
  | waits _ _ _ _ => exact hstays rfl rfl (by simp)
  | blocks _ => exact hstays rfl rfl (by simp)
  | wakes _ => exact hstays rfl rfl (by simp)
  | skips _ _ => exact hstays rfl rfl (by simp)
  | prints _ _ _ => exact hstays rfl rfl (by simp)
  | writes _ _ _ _ => exact hstays rfl rfl fun q _ => by cases q <;> rfl
  | @takes task rest _ _ _ =>
      refine hstays (c := .working task) (by simp) rfl fun q hq => ?_
      simp [get_set_of_ne _ _ _ hq]
  | exits _ _ hqueue _ =>
      -- the worker leaves its loop because its queue is empty
      intro q hq
      by_cases hw : q = w.queue
      · rw [hw, get_goTo, hqueue]
      · rw [get_goTo]
        refine hinv q fun u hu => ?_
        have huw : u ≠ w := by
          rintro rfl
          exact hw hu.symm
        have hout := hq u hu
        rwa [threads_goTo, Function.update_of_ne huw] at hout

/-- A notification wakes a worker inside its loop and does not let it leave. -/
theorem inLoop_notifyAll (threads : Worker → Option Control) (w : Worker) :
    inLoop (queueCv.notifyAll threads w) = inLoop (threads w) := by
  refine queueCv.apply_notifyAll (fun c hc => ?_) w
  rw [of_decide_eq_true hc]
  rfl

/-- An instruction keeps the invariant if it pushes only while both queues are attended; this
is where the condition of `delivered_of_attended` comes in. -/
theorem instrMove_drained {instr : Instr} (h : InstrMove s instr output s')
    (hpush : ∀ task, instr = .push task → s.Attended) (hinv : Drained s) : Drained s' := by
  cases h with
  | @pushes task _ =>
      -- each queue has a worker in its loop, so neither has to be empty
      obtain ⟨hlog, hfile⟩ := hpush task rfl
      intro q hq
      cases q with
      | log =>
          have hout := hq .log rfl
          rw [hlog] at hout
          cases hout
      | file =>
          have hout1 := hq .file1 rfl
          have hout2 := hq .file2 rfl
          rcases hfile with hin | hin
          · rw [hin] at hout1
            cases hout1
          · rw [hin] at hout2
            cases hout2
  | notifies =>
      refine hinv.mono (fun u hu => ?_) (fun q _ => by cases q <;> rfl)
      rw [inLoop_notifyAll]
      exact hu
  | terminates => exact hinv.mono (fun _ hu => hu) (fun q _ => by cases q <;> rfl)
  | starts _ =>
      exact hinv.mono (inLoop_update fun _ => rfl) (fun q _ => by simp)
  | skips _ => exact hinv
  | joins hexited =>
      refine hinv.mono (inLoop_update fun hin => ?_) (fun q _ => by cases q <;> rfl)
      rw [hexited] at hin
      cases hin

end Drained

/-! ### Every block has commands

A worker skips a block without commands.  That there is none has to be known of every
block on its way; the calling code pushes only what `process_tasks` found not to be
empty. -/

/-- Every block on its way, from the program of a caller to the hand of a worker, has commands;
so the workers skip none.  It has to be said of the queues and of the hands, since a block goes
from one to the other. -/
structure Shared.Substantial (s : Shared) : Prop where
  queued : ∀ q, ∀ task ∈ s.get q, task.commands ≠ []
  working : ∀ w, ∀ task ∈ inHand (s.threads w), task.commands ≠ []

/-- A notification puts nothing into a worker's hands. -/
theorem inHand_notifyAll (threads : Worker → Option Control) (w : Worker) :
    inHand (queueCv.notifyAll threads w) = inHand (threads w) := by
  refine queueCv.apply_notifyAll (fun c hc => ?_) w
  rw [of_decide_eq_true hc]
  rfl

/-- What is in hand after a worker has moved is in its hands, or was in hand before. -/
theorem mem_inHand_update {threads : Worker → Option Control} {w u : Worker}
    {c : Option Control} {task : OutputTask}
    (h : task ∈ inHand (Function.update threads w c u)) :
    task ∈ inHand c ∨ task ∈ inHand (threads u) := by
  by_cases huw : u = w
  · rw [huw, Function.update_self] at h
    exact Or.inl h
  · rw [Function.update_of_ne huw] at h
    exact Or.inr h

/-- Blocks stay substantial if the queues and the hands of the workers do not change. -/
theorem Shared.Substantial.congr {shared shared' : Shared} (h : shared.Substantial)
    (hget : ∀ q, shared'.get q = shared.get q)
    (hhand : ∀ w, ∀ task ∈ inHand (shared'.threads w), task.commands ≠ []) :
    shared'.Substantial :=
  ⟨fun q task htask => h.queued q task (hget q ▸ htask), hhand⟩

/-- A worker takes a block as it is and puts nothing into the queues: the block is in its hand
afterwards, and the other hands are as before. -/
theorem workerMove_substantial {shared shared' : Shared} {w : Worker} {output : Output}
    (h : WorkerMove w shared output shared') (hinv : shared.Substantial) :
    shared'.Substantial := by
  have hidle {shared' : Shared} {c : Control} (hget : ∀ q, shared'.get q = shared.get q)
      (hthreads : shared'.threads = Function.update shared.threads w (some c))
      (hc : inHand (some c) = []) : shared'.Substantial := by
    refine hinv.congr hget fun u task htask => ?_
    rw [hthreads] at htask
    rcases mem_inHand_update htask with hnew | hold
    · rw [hc] at hnew
      cases hnew
    · exact hinv.working u task hold
  cases h with
  | waits _ _ _ _ | blocks _ | wakes _ | exits _ _ _ _ | skips _ _ | prints _ _ _ =>
      exact hidle (by simp) rfl rfl
  | writes _ _ _ _ => exact hidle (fun q => by cases q <;> rfl) rfl rfl
  | @takes task rest _ _ hqueue =>
      have htask : task.commands ≠ [] := hinv.queued w.queue task (by simp [hqueue])
      refine ⟨fun q other hother => ?_, fun u other hother => ?_⟩
      · rw [get_goTo] at hother
        by_cases hq : q = w.queue
        · subst hq
          rw [get_set_self] at hother
          exact hinv.queued w.queue other (by simp [hqueue, hother])
        · rw [get_set_of_ne _ _ _ hq] at hother
          exact hinv.queued q other hother
      · rw [threads_goTo, threads_set] at hother
        rcases mem_inHand_update hother with hnew | hold
        · rw [List.mem_singleton.mp hnew]
          exact htask
        · exact hinv.working u other hold

/-- An instruction keeps all blocks substantial if it pushes a block that is.  Starting a
worker empties its hand, and joining one does not touch any. -/
theorem instrMove_substantial {shared shared' : Shared} {instr : Instr} {output : Output}
    (h : InstrMove shared instr output shared')
    (hpush : ∀ task, instr = .push task → task.commands ≠ []) (hinv : shared.Substantial) :
    shared'.Substantial := by
  have hslot {w : Worker} {c : Option Control} (hc : inHand c = []) (u : Worker)
      (task : OutputTask) (htask : task ∈ inHand (Function.update shared.threads w c u)) :
      task.commands ≠ [] := by
    rcases mem_inHand_update htask with hnew | hold
    · rw [hc] at hnew
      cases hnew
    · exact hinv.working u task hold
  cases h with
  | @pushes task _ =>
      refine ⟨fun q other hother => ?_, hinv.working⟩
      have hmem : other ∈ shared.get q ∨ other = task := by
        cases q <;> simpa [Shared.get] using hother
      rcases hmem with hold | rfl
      · exact hinv.queued q other hold
      · exact hpush other rfl
  | notifies =>
      refine hinv.congr (fun q => by cases q <;> rfl) fun w task htask => ?_
      rw [inHand_notifyAll] at htask
      exact hinv.working w task htask
  | terminates => exact hinv.congr (fun q => by cases q <;> rfl) hinv.working
  | starts _ => exact hinv.congr (fun q => by cases q <;> rfl) (hslot rfl)
  | skips _ => exact hinv
  | joins _ => exact hinv.congr (fun q => by cases q <;> rfl) (hslot rfl)

/-! ### From the queue to the screen

A block that was taken is printed by the next step of its worker.  There is one log
worker, so what it prints comes in the order in which it was taken. -/

/-- With no block skipped, the log worker prints what it takes, in order. -/
theorem workerMove_prints {s s' : Shared} {w : Worker} {output : Output}
    (h : WorkerMove w s output s') (hinv : s.Substantial) :
    inHand (s.threads .log) ++ output.takes .log =
      output.prints ++ inHand (s'.threads .log) := by
  by_cases hw : w = .log
  · subst hw
    cases h with
    | skips hworking hnil =>
        exact absurd hnil (hinv.working .log _ (by rw [hworking]; exact List.mem_singleton_self _))
    | writes _ _ hne _ => exact absurd rfl hne
    | _ => simp [*, Output.takes, Output.prints, inHand, Worker.queue]
  · have hframe (c : Option Control) : Function.update s.threads w c .log = s.threads .log :=
      Function.update_of_ne (Ne.symm hw) c s.threads
    have hqueue : w.queue ≠ .log := by
      cases w <;> simp_all [Worker.queue]
    cases h with
    | prints _ _ hlog => exact absurd hlog hw
    | writes _ _ _ houtput =>
        rcases houtput with rfl | rfl <;> simp [Output.takes, Output.prints, hframe]
    | _ => simp [Output.takes, Output.prints, hframe, hqueue]

/-- Instructions neither print a block nor take one from the printer's hands. -/
theorem instrMove_prints {s s' : Shared} {instr : Instr} {output : Output}
    (h : InstrMove s instr output s') :
    inHand (s.threads .log) ++ output.takes .log =
      output.prints ++ inHand (s'.threads .log) := by
  have hslot {w : Worker} {c : Option Control} (hbefore : inHand (s.threads w) = [])
      (hc : inHand c = []) :
      inHand (Function.update s.threads w c .log) = inHand (s.threads .log) := by
    by_cases hw : Worker.log = w
    · rw [hw, Function.update_self, hc, hbefore]
    · rw [Function.update_of_ne hw]
  cases h with
  | notifies => simp [Output.takes, Output.prints, inHand_notifyAll]
  | starts hnone =>
      simp [Output.takes, Output.prints, hslot (c := some .ready) (by rw [hnone]; rfl) rfl]
  | joins hexited =>
      simp [Output.takes, Output.prints, hslot (c := none) (by rw [hexited]; rfl) rfl]
  | _ => simp [Output.takes, Output.prints]

/-! ### From the queue to the files

There are two file workers, and either may be the first to write.  What they write is
what they take only as a multiset. -/

/-- The blocks a step wrote, with the worker and the name of the file. -/
def Output.writes : Output → List (Worker × OutputTask × Line)
  | .wrote w task name _ => [(w, task, name)]
  | .silent | .pushed _ | .taken _ _ | .printed _ _ => []

/-- The blocks that the file workers hold. -/
def Shared.inFileHands (s : Shared) : List OutputTask :=
  inHand (s.threads .file1) ++ inHand (s.threads .file2)

/-- The blocks among what was written. -/
def writtenTasks (writes : List (Worker × OutputTask × Line)) : List OutputTask :=
  writes.map fun x => x.2.1

/-- A file that opens is written. -/
theorem workerStep_opens {s s' : Shared} {w : Worker} {output : Output}
    (h : workerStep w true s = some (output, s')) {task : OutputTask}
    (htask : s.threads w = some (.working task)) (hne : task.commands ≠ []) (hw : w ≠ .log) :
    output ≠ .silent := by
  have hfull : task.commands.isEmpty = false := by simpa using hne
  simp only [workerStep, htask, Worker.output, hfull] at h
  cases w with
  | log => exact absurd rfl hw
  | file1 | file2 =>
      cases h
      simp

/-- A step that leaves the hands of the file workers as they are. -/
theorem inFileHands_update {s s' : Shared} {w : Worker} {c : Option Control}
    (hthreads : s'.threads = Function.update s.threads w c) (hbefore : inHand (s.threads w) = [])
    (hc : inHand c = []) : s'.inFileHands = s.inFileHands := by
  have hslot (u : Worker) : inHand (s'.threads u) = inHand (s.threads u) := by
    rw [hthreads]
    by_cases hu : u = w
    · rw [hu, Function.update_self, hc, hbefore]
    · rw [Function.update_of_ne hu]
  rw [Shared.inFileHands, hslot, hslot, Shared.inFileHands]

/-- A worker that neither takes nor writes a task. -/
theorem silent_writes {s s' : Shared} {w : Worker} {c : Option Control}
    (hthreads : s'.threads = Function.update s.threads w c) (hbefore : inHand (s.threads w) = [])
    (hc : inHand c = []) :
    (s.inFileHands ++ Output.takes .file .silent).Perm
      (writtenTasks (Output.writes .silent) ++ s'.inFileHands) := by
  rw [inFileHands_update hthreads hbefore hc]
  simp [Output.takes, Output.writes, writtenTasks]

/-- With every file opened and no block skipped, the file workers write what they take.  It
holds up to the order: both take from one queue, and either may be the first to write. -/
theorem workerMove_writes {s s' : Shared} {w : Worker} {output : Output}
    (h : WorkerMove w s output s') (hinv : s.Substantial)
    (hopen : ∀ task, s.threads w = some (.working task) → task.commands ≠ [] → w ≠ .log →
      output ≠ .silent) :
    (s.inFileHands ++ output.takes .file).Perm
      (writtenTasks output.writes ++ s'.inFileHands) := by
  cases h with
  | waits hready _ _ _ | exits hready _ _ _ => exact silent_writes rfl (by rw [hready]; rfl) rfl
  | blocks hwindow => exact silent_writes rfl (by rw [hwindow]; rfl) rfl
  | wakes hblocked => exact silent_writes rfl (by rw [hblocked]; rfl) rfl
  | skips hworking hnil =>
      exact absurd hnil (hinv.working w _ (by rw [hworking]; exact List.mem_singleton_self _))
  | prints hworking _ hlog =>
      subst hlog
      simp [Output.takes, Output.writes, writtenTasks, Shared.inFileHands]
  | @takes task rest hready _ _ =>
      cases w with
      | log => simp [Output.takes, Output.writes, writtenTasks, Shared.inFileHands, Worker.queue]
      | file1 =>
          simp only [Shared.inFileHands, hready, inHand, Output.takes, Worker.queue, Output.writes,
            writtenTasks, threads_goTo, threads_set]
          simp [Function.update]
      | file2 =>
          simp [Output.takes, Output.writes, writtenTasks, Shared.inFileHands, Worker.queue, hready,
            inHand]
  | @writes task _ hworking hne hw houtput =>
      have hwrote := houtput.resolve_right (hopen task hworking hne hw)
      subst hwrote
      cases w with
      | log => exact absurd rfl hw
      | file1 =>
          simp [Output.takes, Output.writes, writtenTasks, Shared.inFileHands, hworking, inHand]
      | file2 =>
          simp only [Shared.inFileHands, hworking, inHand, Output.takes, Output.writes,
            writtenTasks, threads_goTo]
          simp [Function.update]

/-- Nor do they write one.  The two file workers share a queue, so their blocks are a bag. -/
theorem instrMove_writes {s s' : Shared} {instr : Instr} {output : Output}
    (h : InstrMove s instr output s') :
    (s.inFileHands ++ output.takes .file).Perm
      (writtenTasks output.writes ++ s'.inFileHands) := by
  have hidle {s' : Shared} {w : Worker} {c : Option Control} (hthreads : s'.threads =
      Function.update s.threads w c) (hbefore : inHand (s.threads w) = []) (hc : inHand c = []) :
      (s.inFileHands ++ Output.takes .file .silent).Perm
        (writtenTasks (Output.writes .silent) ++ s'.inFileHands) := by
    rw [inFileHands_update hthreads hbefore hc]
    simp [Output.takes, Output.writes, writtenTasks]
  cases h with
  | notifies =>
      simp [Output.takes, Output.writes, writtenTasks, Shared.inFileHands, inHand_notifyAll]
  | starts hnone => exact silent_writes rfl (by rw [hnone]; rfl) rfl
  | joins hexited => exact silent_writes rfl (by rw [hexited]; rfl) rfl
  | _ => simp [Output.takes, Output.writes, writtenTasks, Shared.inFileHands]

/-! ### The names of the files

A name contains the value of `file_counter`, which every write takes and increments in
one atomic step.  The names are different as long as the counter has not come around. -/

/-- The files written so far come from file workers and are numbered in order, and the counter
is the number of the next one.  The names of the files that are still to come depend on the
counter, so it belongs to the invariant although no file shows it. -/
structure FilesNamed (writes : List (Worker × OutputTask × Line)) (counter : BitVec 32) : Prop where
  counter : counter = BitVec.ofNat 32 writes.length
  names : ∀ k x, writes[k]? = some x → x.2.2 = fileName x.2.1 x.1 (BitVec.ofNat 32 k)
  workers : ∀ x ∈ writes, x.1 ≠ .log

theorem FilesNamed.nil : FilesNamed [] 0 :=
  ⟨rfl, fun k x hx => by simp at hx, fun x hx => by cases hx⟩

/-- One more file: it gets the number of the counter, which goes on by one.  The counter is the
one of the machine, so the numbers are taken in its arithmetic. -/
theorem FilesNamed.concat {writes : List (Worker × OutputTask × Line)} {counter : BitVec 32}
    (h : FilesNamed writes counter) {w : Worker} (hw : w ≠ .log) (task : OutputTask) :
    FilesNamed (writes ++ [(w, task, fileName task w counter)]) (counter + 1) where
  counter := by
    rw [h.counter, List.length_append, List.length_singleton, BitVec.ofNat_add]
    rfl
  names k x hx := by
    rcases lt_trichotomy k writes.length with hlt | heq | hgt
    · rw [List.getElem?_append_left hlt] at hx
      exact h.names k x hx
    · subst heq
      rw [List.getElem?_concat_length] at hx
      cases hx
      rw [h.counter]
    · rw [List.getElem?_eq_none (by simpa using Nat.succ_le_of_lt hgt)] at hx
      cases hx
  workers x hx := by
    rcases List.mem_append.mp hx with hx | hx
    · exact h.workers x hx
    · rw [List.mem_singleton.mp hx]
      exact hw

/-- **No file name is used twice**, as long as the counter does not come around. -/
theorem FilesNamed.nodup {writes : List (Worker × OutputTask × Line)} {counter : BitVec 32}
    (h : FilesNamed writes counter) (hfew : writes.length ≤ 2 ^ 32) :
    (writes.map fun x => x.2.2).Nodup := by
  rw [List.nodup_iff_getElem?_ne_getElem?]
  intro i j hij hj hsame
  rw [List.length_map] at hj
  have hi : i < writes.length := hij.trans hj
  rw [List.getElem?_map, List.getElem?_map, List.getElem?_eq_getElem hi,
    List.getElem?_eq_getElem hj, Option.map_some, Option.map_some] at hsame
  have hname := Option.some.inj hsame
  rw [h.names i _ (List.getElem?_eq_getElem hi), h.names j _ (List.getElem?_eq_getElem hj)] at hname
  have hcounter := congrArg BitVec.toNat (counter_eq_of_fileName_eq hname)
  simp only [BitVec.toNat_ofNat] at hcounter
  rw [Nat.mod_eq_of_lt (by omega), Nat.mod_eq_of_lt (by omega)] at hcounter
  exact hij.ne hcounter

/-- Every write takes the next number, and nothing else does. -/
theorem workerMove_named {s s' : Shared} {w : Worker} {output : Output}
    {writes : List (Worker × OutputTask × Line)} (h : WorkerMove w s output s')
    (hopen : ∀ task, s.threads w = some (.working task) → task.commands ≠ [] → w ≠ .log →
      output ≠ .silent) (hinv : FilesNamed writes s.fileCounter) :
    FilesNamed (writes ++ output.writes) s'.fileCounter := by
  cases h with
  | @writes task _ hworking hne hw houtput =>
      have hwrote := houtput.resolve_right (hopen task hworking hne hw)
      subst hwrote
      exact hinv.concat hw task
  | takes _ _ _ =>
      rw [Output.writes, List.append_nil]
      cases w <;> exact hinv
  | _ =>
      rw [Output.writes, List.append_nil]
      exact hinv

/-- Instructions write no file, and leave the counter of the names alone. -/
theorem instrMove_named {s s' : Shared} {instr : Instr} {output : Output}
    {writes : List (Worker × OutputTask × Line)} (h : InstrMove s instr output s')
    (hinv : FilesNamed writes s.fileCounter) :
    FilesNamed (writes ++ output.writes) s'.fileCounter := by
  cases h with
  | _ =>
      rw [Output.writes, List.append_nil]
      exact hinv

end Async
