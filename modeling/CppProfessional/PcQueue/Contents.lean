import CppProfessional.PcQueue.Moves
import Mathlib.Order.Preorder.Finite

/-!
# The contents of the queue over whole runs

What enters and leaves the two containers of `pc_queue::Queue`, for any number
of threads and any interleaving of `push`, `pop`, `close` and `clear`:

* `contents_fifo` — the plain container is first in, first out, without loss or
  duplication, and a call that fails moves nothing;
* `size_le_maxSize` — a bounded queue never holds more than `maxSize` items;
* `close_semantics` — after `close` nothing is accepted any more, the contents
  only shrink, every item that was there leaves exactly once, and a pop reports
  the end only of an empty queue.

All three rest on one law per container (`move_queue`, `move_priorityQueue`):
a section appends what it accepted and hands out what it removed.  What that is, is
settled first: `eq_accepted_of_pushed` and `dequeued_of_popped` say that it is the
argument of the push and the item that the pop returns.
-/

namespace PcQueue

open Transition

universe u v w

/-! ### The calls behind the sections

A call may take several sections.  Its arguments are in the frame of its thread while it
waits, and the section that ends it moves the item of this call and no other. -/

section Calls

variable {ι : Type u} {T : Type v} {P : Type w}

/-- The call a blocked thread is in. -/
def Thread.op : Thread T P → Option (Op T P)
  | .outside => none
  | .waitsNotEmpty timeout _ _ => some (.pop timeout)
  | .waitsNotFull item priority timeout _ _ => some (.push item priority timeout)

/-- The call a section belongs to: the one that begins with it, or the one its thread is
in. -/
def Event.op (threads : ι → Thread T P) : Event ι T P → Option (Op T P)
  | .call _ op _ _ => some op
  | .resume t _ _ _ => (threads t).op

/-- What a section of a call may move: a push that is accepted puts its argument in, a pop
that returns an item has taken it out, and otherwise only `clear` takes anything. -/
inductive Op.Moves [LT P] (cfg : Config) : Op T P → Effect T P → Prop
  | pushed (item : T) (priority : P) (timeout : ℤ) :
      Op.Moves cfg (.push item priority timeout) (accepted cfg item priority)
  | popped {timeout : ℤ} {effect : Effect T P} {q q' : Queue T P} :
      Takes cfg q effect q' → Op.Moves cfg (.pop timeout) effect
  | cleared {effect : Effect T P} : effect.enqueued = [] → effect.inserted = [] →
      effect.result = .returned → Op.Moves cfg .clear effect
  | nothing {op : Op T P} {result : Result T} : result ≠ .pushed true →
      (∀ item, result ≠ .popped (some item)) → Op.Moves cfg op { result := result }

/-- A section of the call leaves its thread waiting in the same call, or moves what the call
may move. -/
def Outcome.Accounts [LT P] (cfg : Config) (op : Op T P) : Outcome T P → Prop
  | .blocks frame _ => frame.op = some op
  | .leaves effect _ _ => op.Moves cfg effect ∧ effect.result ≠ .blocked

theorem op_wake_notEmpty (p : Thread T P) : (notEmpty.wake p).op = p.op := by
  cases p <;> rfl

theorem op_wake_notFull (p : Thread T P) : (notFull.wake p).op = p.op := by
  cases p <;> rfl

/-- Notifications do not change the calls the threads are in. -/
theorem op_deliver [Fintype ι] [DecidableEq ι] {heir : Option ι}
    {notification : Notification} {threads threads' : ι → Thread T P}
    (h : deliver notification heir threads = some threads') (u : ι) :
    (threads' u).op = (threads u).op := by
  cases notification with
  | none =>
      cases h
      rfl
  | oneNotEmpty => exact notEmpty.apply_notifyOne (fun p _ => op_wake_notEmpty p) h u
  | oneNotFull => exact notFull.apply_notifyOne (fun p _ => op_wake_notFull p) h u
  | allNotFull =>
      cases h
      exact notFull.apply_notifyAll (fun p _ => op_wake_notFull p) u
  | everybody =>
      cases h
      exact (notFull.apply_notifyAll (fun p _ => op_wake_notFull p) u).trans
        (notEmpty.apply_notifyAll (fun p _ => op_wake_notEmpty p) u)

variable [LT P] {cfg : Config} {q : Queue T P} {item : T} {priority : P} {timeout : ℤ}

/-- The end of a push moves its own item, or nothing. -/
theorem pushTail_accounts {isProducerActive success : Bool} :
    (pushTail cfg q item priority isProducerActive success).Accounts cfg
      (.push item priority timeout) := by
  unfold pushTail
  dsimp only
  split
  · exact ⟨.nothing (by simp) (by simp), by simp⟩
  · exact ⟨.pushed item priority timeout, by simp [accepted]⟩

/-- The first section of a push waits with the same item, or ends with it. -/
theorem pushImpl_accounts :
    (pushImpl cfg q item priority timeout).Accounts cfg (.push item priority timeout) := by
  unfold pushImpl
  split
  · exact ⟨.nothing (by simp) (by simp), by simp⟩
  · split
    · exact ⟨.nothing (by simp) (by simp), by simp⟩
    · dsimp only
      split
      · rfl
      · exact pushTail_accounts

/-- A push that is woken still has its item. -/
theorem resumePush_accounts {isProducerActive : Bool} {wake : Wake} :
    (resumePush cfg q item priority timeout isProducerActive wake).Accounts cfg
      (.push item priority timeout) := by
  unfold resumePush
  split
  · rfl
  · exact pushTail_accounts

variable [DecidableLT P] {pick : ℕ} {outcome : Outcome T P}

/-- The end of a pop takes out what it returns. -/
theorem popTail_accounts {isConsumerActive success : Bool}
    (h : popTail cfg q pick isConsumerActive success = some outcome) :
    outcome.Accounts cfg (.pop timeout) := by
  have hrefused (houtcome : some (Outcome.leaves { result := .popped none } .none
      (q.releaseConsumer isConsumerActive)) = some outcome) :
      outcome.Accounts cfg (.pop timeout) := by
    cases houtcome
    exact ⟨.nothing (by simp) (by simp), by simp⟩
  unfold popTail at h
  simp only [empty_releaseConsumer] at h
  cases hempty : q.empty cfg with
  | true =>
      simp only [hempty, if_true, Bool.not_false] at h
      exact hrefused h
  | false =>
      cases success with
      | false =>
          simp only [hempty, Bool.false_eq_true, if_false, Bool.not_false, if_true] at h
          exact hrefused h
      | true =>
          simp only [hempty, Bool.false_eq_true, if_false, Bool.not_true,
            Option.map_eq_some_iff, Prod.exists] at h
          obtain ⟨effect, q', htake, rfl⟩ := h
          have htakes := takes_of_takeItem htake
          obtain ⟨item, hresult⟩ := htakes.result
          exact ⟨.popped htakes, by simp [hresult]⟩

/-- The first section of a pop waits, or takes out what it returns. -/
theorem popImpl_accounts (h : popImpl cfg q timeout pick = some outcome) :
    outcome.Accounts cfg (.pop timeout) := by
  unfold popImpl at h
  split at h
  · cases h
    exact ⟨.nothing (by simp) (by simp), by simp⟩
  · split at h
    · cases h
      exact ⟨.nothing (by simp) (by simp), by simp⟩
    · dsimp only at h
      split at h
      · split at h
        · exact popTail_accounts h
        · cases h
          rfl
      · exact popTail_accounts h

/-- A pop that is woken takes out what it returns. -/
theorem resumePop_accounts {isConsumerActive : Bool} {wake : Wake}
    (h : resumePop cfg q timeout pick isConsumerActive wake = some outcome) :
    outcome.Accounts cfg (.pop timeout) := by
  unfold resumePop at h
  split at h
  · exact popTail_accounts h
  · split at h
    · exact popTail_accounts h
    · cases h
      rfl

/-- Each call starts with a section that accounts for what it moves. -/
theorem run_accounts {op : Op T P} (h : op.run cfg q pick = some outcome) :
    outcome.Accounts cfg op := by
  cases op with
  | push item priority timeout =>
      cases h
      exact pushImpl_accounts
  | pop timeout => exact popImpl_accounts h
  | close =>
      cases h
      exact ⟨.nothing (by simp) (by simp), by simp⟩
  | clear =>
      cases h
      exact ⟨.cleared rfl rfl rfl, by simp⟩

/-- A waiting thread goes on in the call that it made. -/
theorem resume_accounts {thread : Thread T P} {wake : Wake}
    (h : thread.resume cfg q wake pick = some outcome) :
    ∃ op, thread.op = some op ∧ outcome.Accounts cfg op := by
  cases thread with
  | outside => cases h
  | waitsNotEmpty timeout isConsumerActive notified =>
      simp only [Thread.resume, Option.ite_none_right_eq_some] at h
      exact ⟨_, rfl, resumePop_accounts h.2⟩
  | waitsNotFull item priority timeout isProducerActive notified =>
      simp only [Thread.resume, Option.ite_none_right_eq_some, Option.some.injEq] at h
      obtain ⟨-, rfl⟩ := h
      exact ⟨_, rfl, resumePush_accounts⟩

variable [Fintype ι] [DecidableEq ι] {s s' : State ι T P} {t : ι} {effect : Effect T P}

omit [DecidableLT P] in
/-- The end of a section, with what the frames of the threads are then. -/
theorem conclude_accounts {op : Op T P} {heir : Option ι} (haccounts : outcome.Accounts cfg op)
    (h : conclude s t heir outcome = some (effect, s')) :
    op.Moves cfg effect ∧ (effect.result = .blocked → (s'.threads t).op = some op) ∧
      (effect.result ≠ .blocked → (s'.threads t).op = none) ∧
      ∀ u ≠ t, (s'.threads u).op = (s.threads u).op := by
  cases outcome with
  | blocks frame q =>
      simp only [conclude, Option.some.injEq, Prod.mk.injEq] at h
      obtain ⟨rfl, rfl⟩ := h
      refine ⟨.nothing (by simp) (by simp), fun _ => ?_, fun h => (h rfl).elim, fun u hu => ?_⟩
      · dsimp only
        rw [Function.update_self]
        exact haccounts
      · dsimp only
        rw [Function.update_of_ne hu]
  | leaves effect' notification q =>
      simp only [conclude, Option.map_eq_some_iff, Prod.mk.injEq] at h
      obtain ⟨threads, hdeliver, rfl, rfl⟩ := h
      obtain ⟨hmoves, hanswer⟩ := haccounts
      refine ⟨hmoves, fun h => (hanswer h).elim, fun _ => ?_, fun u hu => ?_⟩
      · rw [op_deliver hdeliver, Function.update_self]
        rfl
      · rw [op_deliver hdeliver, Function.update_of_ne hu]

/-- **Every section belongs to a call.**  It moves what the call may move; a thread that waits
stays in the same call, with the same arguments, one that is answered is in no call any more,
and the others are where they were. -/
theorem step_accounts {e : Event ι T P} (h : step cfg s e = some (effect, s')) :
    ∃ op, e.op s.threads = some op ∧ op.Moves cfg effect ∧
      (effect.result = .blocked → (s'.threads e.thread).op = some op) ∧
      (effect.result ≠ .blocked → (s'.threads e.thread).op = none) ∧
      ∀ u ≠ e.thread, (s'.threads u).op = (s.threads u).op := by
  cases e with
  | call t op pick heir =>
      simp only [step] at h
      split at h
      · obtain ⟨outcome, hrun, hend⟩ := Option.bind_eq_some_iff.mp h
        exact ⟨op, rfl, conclude_accounts (run_accounts hrun) hend⟩
      · cases h
  | resume t wake pick heir =>
      obtain ⟨outcome, hresume, hend⟩ := Option.bind_eq_some_iff.mp h
      obtain ⟨op, hop, haccounts⟩ := resume_accounts hresume
      exact ⟨op, hop, conclude_accounts haccounts hend⟩

/-- What enters a container is the argument of the push that is accepted. -/
theorem eq_accepted_of_pushed {e : Event ι T P} (h : step cfg s e = some (effect, s'))
    (hpushed : effect.result = .pushed true) :
    ∃ item priority timeout, e.op s.threads = some (.push item priority timeout) ∧
      effect = accepted cfg item priority := by
  obtain ⟨op, hop, hmoves, -⟩ := step_accounts h
  cases hmoves with
  | pushed item priority timeout => exact ⟨item, priority, timeout, hop, rfl⟩
  | popped htakes =>
      obtain ⟨item, hresult⟩ := htakes.result
      rw [hresult] at hpushed
      cases hpushed
  | cleared _ _ hresult =>
      rw [hresult] at hpushed
      cases hpushed
  | nothing hne _ => exact (hne hpushed).elim

/-- What leaves a container with a pop is the item that the pop returns. -/
theorem dequeued_of_popped {e : Event ι T P} {item : T} (h : step cfg s e = some (effect, s'))
    (hpopped : effect.result = .popped (some item)) :
    (∃ timeout, e.op s.threads = some (.pop timeout)) ∧ effect.enqueued = [] ∧
      effect.inserted = [] ∧
      effect.dequeued ++ effect.extracted.map PriorityItem.data = [item] := by
  obtain ⟨op, hop, hmoves, -⟩ := step_accounts h
  cases hmoves with
  | pushed item priority timeout => cases hpopped
  | popped htakes =>
      refine ⟨⟨_, hop⟩, ?_⟩
      cases htakes with
      | front _ _ =>
          cases hpopped
          exact ⟨rfl, rfl, rfl⟩
      | top _ _ _ =>
          cases hpopped
          exact ⟨rfl, rfl, rfl⟩
  | cleared _ _ hresult =>
      rw [hresult] at hpopped
      cases hpopped
  | nothing _ hne => exact (hne item hpopped).elim

end Calls

variable {ι : Type u} {T : Type v} {P : Type w} [Fintype ι] [DecidableEq ι] [LT P]
  {cfg : Config} {s s' : State ι T P} {t : ι} {effect : Effect T P}

/-- The section moved nothing into or out of either container. -/
def Effect.Neutral (effect : Effect T P) : Prop :=
  effect.enqueued = [] ∧ effect.dequeued = [] ∧
    effect.inserted = [] ∧ effect.extracted = []

/-- The results that report failure: `push` returned `false`, `pop` returned
`nullopt`, or one of them threw. -/
def Result.Failed : Result T → Prop
  | .pushed accepted => accepted = false
  | .popped item => item = none
  | .threw _ => True
  | .blocked | .returned => False

omit [LT P] in
/-- `clear` hands everything out to nobody: what was in the queue is dequeued, nothing is
enqueued, and the result does not say what was there. -/
theorem clear_eq_leaves {q q' : Queue T P} {notification : Notification}
    (h : clear cfg q = .leaves effect notification q') :
    effect.enqueued = [] ∧ effect.inserted = [] ∧ effect.result = .returned ∧
      effect.dequeued = q.queue ∧ q'.queue = [] ∧
      q.priorityQueue = effect.extracted ++ q'.priorityQueue ∧
      q'.size cfg = 0 ∧ q'.closed = q.closed ∧
      q'.producerActive = q.producerActive ∧ q'.consumerActive = q.consumerActive := by
  simp only [clear, Outcome.leaves.injEq] at h
  obtain ⟨rfl, -, rfl⟩ := h
  cases huse : cfg.usePriority <;> simp [Queue.size, huse]

/-! ### The law of each container

Each section appends what it accepts and removes what it hands out.  For the plain
container this is an equation of lists, for the other one of bags. -/

/-- The plain container is taken from at the front and added to at the end.  `clear` takes
everything, in the same order. -/
theorem move_queue (h : Move cfg s t effect s') :
    s.q.queue ++ effect.enqueued = effect.dequeued ++ s'.q.queue := by
  cases h with
  | pushAccepted _ _ _ _ => simp [accepted]
  | popTakes _ htakes _ =>
      cases htakes with
      | front _ hq => simpa using hq
      | top _ _ _ => simp
  | clears _ hclear =>
      obtain ⟨hin, -, -, hout, hq, -⟩ := clear_eq_leaves hclear
      simp [hin, hout, hq]
  | _ => simp

/-- The priority queue keeps what it was given, in whatever arrangement. -/
theorem move_priorityQueue (h : Move cfg s t effect s') :
    (s.q.priorityQueue ++ effect.inserted).Perm
      (effect.extracted ++ s'.q.priorityQueue) := by
  cases h with
  | pushAccepted _ _ _ _ => simp [accepted]
  | popTakes _ htakes _ =>
      cases htakes with
      | front _ _ => simp
      | @top pick top _ hpick _ =>
          obtain ⟨hlt, rfl⟩ := List.getElem?_eq_some_iff.mp hpick
          simpa using (List.getElem_cons_eraseIdx_perm hlt).symm
  | clears _ hclear =>
      obtain ⟨-, hin, -, -, -, hout, -⟩ := clear_eq_leaves hclear
      rw [hin, List.append_nil, hout]
  | _ => simp

/-- A call that fails leaves the contents as they are. -/
theorem move_failed (h : Move cfg s t effect s') (hfailed : effect.result.Failed) :
    effect.Neutral ∧ s'.q.queue = s.q.queue ∧
      s'.q.priorityQueue = s.q.priorityQueue := by
  cases h with
  | pushAccepted _ _ _ _ => simp [accepted, Result.Failed] at hfailed
  | popTakes _ htakes _ =>
      obtain ⟨item, hresult⟩ := htakes.result
      simp [hresult, Result.Failed] at hfailed
  | clears _ hclear =>
      obtain ⟨-, -, hresult, -⟩ := clear_eq_leaves hclear
      simp [hresult, Result.Failed] at hfailed
  | _ => simp [Effect.Neutral]

section Runs

variable [DecidableLT P] {trace : List (Event ι T P × Effect T P)}

/-- **First in, first out.** Between any two states, what was there and what was enqueued is
what was dequeued and what is there, in this order. -/
theorem run_queue (h : (machine cfg ι T P).Run s trace s') :
    s.q.queue ++ Machine.history Effect.enqueued trace =
      Machine.history Effect.dequeued trace ++ s'.q.queue :=
  h.fifo (fun s => s.q.queue) fun _ _ _ _ _ _ hs => move_queue (step_move hs)

/-- With priorities the same holds up to the order. -/
theorem run_priorityQueue (h : (machine cfg ι T P).Run s trace s') :
    (s.q.priorityQueue ++ Machine.history Effect.inserted trace).Perm
      (Machine.history Effect.extracted trace ++ s'.q.priorityQueue) :=
  h.conserves (fun s => s.q.priorityQueue) fun _ _ _ _ _ _ hs =>
    move_priorityQueue (step_move hs)

end Runs

/-! ### First in, first out

Over a run the two equations add up.  Starting from an empty queue, all that was
enqueued is what was dequeued and what is still there. -/

/-- **The plain queue is first in, first out.**  For every bound, mode, timeout
and interleaving: the items of the successful pushes, in the order they were
enqueued, are the items removed by `pop` or discarded by `clear`, in removal
order, followed by the contents; and a call that fails or throws adds and removes
nothing. -/
theorem contents_fifo [DecidableLT P] (mode : QueueMode) (maxSize : ℕ)
    {trace : List (Event ι T P × Effect T P)} {s : State ι T P}
    (h : (machine ⟨false, mode, maxSize⟩ ι T P).Execution trace s) :
    Machine.history Effect.enqueued trace =
        Machine.history Effect.dequeued trace ++ s.q.queue ∧
      ∀ (e : Event ι T P) (effect : Effect T P) (s' : State ι T P),
        step ⟨false, mode, maxSize⟩ s e = some (effect, s') → effect.result.Failed →
          effect.Neutral ∧ s'.q.queue = s.q.queue ∧
            s'.q.priorityQueue = s.q.priorityQueue := by
  constructor
  · obtain ⟨s₀, rfl, hrun⟩ := h
    exact run_queue hrun
  · intro e effect s' hs hfailed
    exact move_failed (step_move hs) hfailed

/-- Two threads on a queue bounded by one: the second push blocks, the pop wakes
it, and the last push is refused because the queue is full again. -/
def blockedProducer : List (Event Bool ℕ ℕ) :=
  [.call false (.push 7 0 (-1)) 0 none,
   .call true (.push 8 0 (-1)) 0 none,
   .call false (.pop 0) 0 (some true),
   .resume true .notification 0 none,
   .call false (.push 9 0 0) 0 none]

/-- The run that schedule describes. -/
def blockedProducerRun :
    List (Event Bool ℕ ℕ × Effect ℕ ℕ) × State Bool ℕ ℕ :=
  (machine ⟨false, .multiProducerMultiConsumer, 1⟩ Bool ℕ ℕ).play initial
    blockedProducer (by decide)

/-- That schedule is possible. -/
theorem blockedProducer_execution :
    (machine ⟨false, .multiProducerMultiConsumer, 1⟩ Bool ℕ ℕ).Execution
      blockedProducerRun.1 blockedProducerRun.2 :=
  Machine.execution_play rfl _

/-- The item of the push that blocked is enqueued when it resumes; the refused one is not. -/
theorem contents_fifo_blockedProducer :
    Machine.history Effect.enqueued blockedProducerRun.1 = [7, 8] ∧
      Machine.history Effect.enqueued blockedProducerRun.1 =
        Machine.history Effect.dequeued blockedProducerRun.1 ++
          blockedProducerRun.2.q.queue :=
  ⟨by decide, (contents_fifo _ _ blockedProducer_execution).1⟩

/-! ### Capacity

The size is tested under the mutex in the section that inserts, also after a wait. -/

/-- **One step keeps the bound.** Only an accepted push adds an item, and it has seen room
under the same lock. -/
theorem move_size_le (hmax : 0 < cfg.maxSize) (h : Move cfg s t effect s')
    (hsize : s.q.size cfg ≤ cfg.maxSize) : s'.q.size cfg ≤ cfg.maxSize := by
  cases h with
  | pushAccepted _ _ hroom _ =>
      simp only [size_insert, size_releaseProducer]
      omega
  | popTakes _ htakes _ =>
      have hone := htakes.size
      simp only [size_releaseConsumer] at hone
      simp only
      omega
  | clears _ hclear =>
      obtain ⟨-, -, -, -, -, -, hempty, -⟩ := clear_eq_leaves hclear
      simp [hempty]
  | closes _ => exact hsize
  | _ => simpa using hsize

/-- **The capacity bound.**  A queue with a bound never holds more items, in the
plain and in the priority variant, whoever is blocked and however many producers
are woken at once. -/
theorem size_le_maxSize [DecidableLT P] (cfg : Config) (hmax : 0 < cfg.maxSize)
    (h : (machine cfg ι T P).Reachable s) : s.q.size cfg ≤ cfg.maxSize := by
  refine h.invariant (I := fun s => s.q.size cfg ≤ cfg.maxSize) ?_ ?_
  · rintro s rfl
    simp [initial, Queue.size]
  · intro s e effect s' _ hsize hs
    exact move_size_le hmax (step_move hs) hsize

/-- After that run there is one item, as many as allowed. -/
theorem size_le_maxSize_blockedProducer :
    blockedProducerRun.2.q.size ⟨false, .multiProducerMultiConsumer, 1⟩ ≤ 1 :=
  size_le_maxSize ⟨false, .multiProducerMultiConsumer, 1⟩ (by decide)
    blockedProducer_execution.reachable

/-! ### Close

The flag is never taken back.  Every section that would insert tests it, and every pop
still takes what is there. -/

/-- Once closed, a section leaves the queue closed and accepts nothing. -/
theorem move_closed (h : Move cfg s t effect s') (hclosed : s.q.closed = true) :
    s'.q.closed = true ∧ effect.result ≠ .pushed true ∧
      effect.enqueued = [] ∧ effect.inserted = [] := by
  cases h with
  | pushAccepted _ hopen _ _ => simp [hclosed] at hopen
  | popTakes _ htakes _ =>
      cases htakes with
      | front _ _ => exact ⟨by simpa using hclosed, by simp⟩
      | top _ _ _ => exact ⟨by simpa using hclosed, by simp⟩
  | clears _ hclear =>
      obtain ⟨hin, hins, hresult, -, -, -, -, hq, -⟩ := clear_eq_leaves hclear
      exact ⟨hq.trans hclosed, by simp [hresult], hin, hins⟩
  | closes _ => exact ⟨rfl, by simp⟩
  | _ => exact ⟨by simpa using hclosed, by simp⟩

/-- A pop that reports the end found the queue empty and leaves it so. -/
theorem move_popped_none (h : Move cfg s t effect s')
    (hresult : effect.result = .popped none) :
    s.q.size cfg = 0 ∧ s'.q.size cfg = 0 := by
  cases h with
  | popRefused _ hsize => exact ⟨hsize, by simpa using hsize⟩
  | pushAccepted _ _ _ _ => simp [accepted] at hresult
  | popTakes _ htakes _ =>
      obtain ⟨item, hitem⟩ := htakes.result
      simp [hitem] at hresult
  | clears _ hclear =>
      obtain ⟨-, -, hreturned, -⟩ := clear_eq_leaves hclear
      simp [hreturned] at hresult
  | _ => cases hresult

/-- A pop that finds an item, and may take it, takes it. -/
theorem exists_step_of_takeItem [DecidableLT P] {q : Queue T P} {pick : ℕ} {t : ι}
    (ht : s.threads t = .outside)
    (hidle : (cfg.mode.singleConsumer && s.q.consumerActive) = false)
    (hempty : s.q.empty cfg = false) (htake : takeItem cfg s.q pick = some (effect, q))
    (timeout : ℤ) :
    ∃ heir threads, step cfg s (.call t (.pop timeout) pick heir) =
      some (effect, ⟨q, threads⟩) := by
  have hfree : cfg.mode.singleConsumer = true → s.q.consumerActive = false := by
    intro hmode
    simpa [hmode] using hidle
  obtain ⟨heir, threads, hheir⟩ :=
    notFull.exists_notifyOne (Function.update s.threads t (.outside : Thread T P))
  refine ⟨heir, threads, ?_⟩
  simp only [step, ht, Op.run, popImpl, hempty, Bool.and_false, Bool.false_eq_true, if_false,
    hidle, empty_claimConsumer, Bool.false_and, popTail, Bool.not_true,
    releaseConsumer_claimConsumer hfree, htake, Option.map_some, Option.bind_some, conclude,
    deliver, hheir]

section Close

variable {P : Type w} [Preorder P] [DecidableLT P] {s s' : State ι T P}

omit [Fintype ι] [DecidableEq ι] in
/-- A non-empty container offers an item. -/
theorem exists_takeItem {q : Queue T P} (hsize : 0 < q.size cfg) :
    ∃ pick effect q', takeItem cfg q pick = some (effect, q') := by
  cases huse : cfg.usePriority with
  | false =>
      obtain ⟨item, rest, hq⟩ : ∃ item rest, q.queue = item :: rest := by
        refine List.exists_cons_of_ne_nil fun hnil => ?_
        simp [Queue.size, huse, hnil] at hsize
      exact ⟨0, _, _, by simp only [takeItem, huse, hq]; rfl⟩
  | true =>
      have hne : {x | x ∈ q.priorityQueue}.Nonempty := by
        refine List.exists_mem_of_ne_nil _ fun hnil => ?_
        simp [Queue.size, huse, hnil] at hsize
      obtain ⟨top, htop, hmax⟩ := Set.Finite.exists_maximalFor PriorityItem.priority _
        (List.finite_toSet q.priorityQueue) hne
      obtain ⟨pick, hpick⟩ := List.mem_iff_getElem?.mp htop
      have hall : (q.priorityQueue.all fun other => !decide (top < other)) = true := by
        simp only [List.all_eq_true, Bool.not_eq_eq_eq_not, Bool.not_true,
          decide_eq_false_iff_not]
        intro other hother hlt
        exact not_le_of_gt hlt (hmax hother (le_of_lt hlt))
      exact ⟨pick, _, _, by
        simp only [takeItem, huse, takeTop, hpick, hall, if_true, Option.map_some]; rfl⟩

/-- On a non-empty queue a pop is enabled, and it takes an item or throws. -/
theorem exists_pop_step (hsize : 0 < s.q.size cfg) {t : ι} (ht : s.threads t = .outside)
    (timeout : ℤ) :
    ∃ pick heir effect s', step cfg s (.call t (.pop timeout) pick heir) =
        some (effect, s') ∧
      ((∃ item, effect.result = .popped (some item)) ∨
        ∃ what, effect.result = .threw what) := by
  have hempty : s.q.empty cfg = false := Queue.empty_eq_false.mpr hsize
  by_cases hbusy : (cfg.mode.singleConsumer && s.q.consumerActive) = true
  · refine ⟨0, none, { result := .threw "Only one consumer allowed in this mode" },
      ⟨s.q, Function.update s.threads t .outside⟩, ?_, Or.inr ⟨_, rfl⟩⟩
    simp only [step, ht, Op.run, popImpl, hempty, Bool.and_false, Bool.false_eq_true,
      if_false, hbusy, if_true, Option.bind_some, conclude, deliver, Option.map_some]
  · obtain ⟨pick, effect, q, htake⟩ := exists_takeItem hsize
    obtain ⟨heir, threads, hstep⟩ :=
      exists_step_of_takeItem ht (Bool.eq_false_of_not_eq_true hbusy) hempty htake timeout
    exact ⟨pick, heir, effect, ⟨q, threads⟩, hstep, Or.inl (takes_of_takeItem htake).result⟩

/-- **Close.**  Take any state with the close flag set and any run from it.  The
flag stays set and no push in the run returns `true`.  The contents only shrink:
what was stored is what left during the run, each item once, together with what
is still stored, in order in the plain variant.  A pop returns `nullopt` only in
a section that finds the queue empty, and as long as the queue is not empty a pop
takes an item unless it throws. -/
theorem close_semantics (cfg : Config)
    (hclosed : s.q.closed = true) {trace : List (Event ι T P × Effect T P)}
    (hrun : (machine cfg ι T P).Run s trace s') :
    s'.q.closed = true ∧ (∀ x ∈ trace, x.2.result ≠ .pushed true) ∧
      s.q.queue = Machine.history Effect.dequeued trace ++ s'.q.queue ∧
      s.q.priorityQueue.Perm
        (Machine.history Effect.extracted trace ++ s'.q.priorityQueue) ∧
      (∀ (e : Event ι T P) (effect : Effect T P) (s'' : State ι T P),
        step cfg s' e = some (effect, s'') → effect.result = .popped none →
          s'.q.size cfg = 0 ∧ s''.q.size cfg = 0) ∧
      ∀ (t : ι) (timeout : ℤ), s'.threads t = .outside → 0 < s'.q.size cfg →
        ∃ pick heir effect s'', step cfg s' (.call t (.pop timeout) pick heir) =
            some (effect, s'') ∧
          ((∃ item, effect.result = .popped (some item)) ∨
            ∃ what, effect.result = .threw what) := by
  obtain ⟨hstill, hall⟩ := hrun.stable (Q := fun s => s.q.closed = true)
    (R := fun x => x.2.result ≠ .pushed true ∧ x.2.enqueued = [] ∧ x.2.inserted = [])
    (fun _ _ _ _ hclosed hs => move_closed (step_move hs) hclosed) hclosed
  have henqueued : Machine.history Effect.enqueued trace = [] :=
    List.flatMap_eq_nil_iff.mpr fun x hx => (hall x hx).2.1
  have hinserted : Machine.history Effect.inserted trace = [] :=
    List.flatMap_eq_nil_iff.mpr fun x hx => (hall x hx).2.2
  have hqueue := run_queue hrun
  have hpriority := run_priorityQueue hrun
  rw [henqueued, List.append_nil] at hqueue
  rw [hinserted, List.append_nil] at hpriority
  refine ⟨hstill, fun x hx => (hall x hx).1, hqueue, hpriority, ?_, ?_⟩
  · intro e effect s'' hs hresult
    exact move_popped_none (step_move hs) hresult
  · intro t timeout ht hsize
    exact exists_pop_step hsize ht timeout

end Close

/-- A full queue, a producer blocked on it, and then `close`. -/
def closedQueue : List (Event Bool ℕ ℕ × Effect ℕ ℕ) × State Bool ℕ ℕ :=
  (machine ⟨false, .multiProducerMultiConsumer, 1⟩ Bool ℕ ℕ).play initial
    [.call false (.push 7 0 (-1)) 0 none, .call true (.push 8 0 5) 0 none,
      .call false .close 0 none] (by decide)

/-- The blocked producer comes back and is refused, and the queue is emptied. -/
def closedQueueRun : List (Event Bool ℕ ℕ × Effect ℕ ℕ) × State Bool ℕ ℕ :=
  (machine ⟨false, .multiProducerMultiConsumer, 1⟩ Bool ℕ ℕ).play closedQueue.2
    [.resume true .notification 0 none, .call false (.pop (-1)) 0 none] (by decide)

/-- In this run the item comes out after the queue was closed, and no push is accepted. -/
theorem close_semantics_closedQueue :
    closedQueueRun.1.map (fun x => x.2.result) = [.pushed false, .popped (some 7)] ∧
      closedQueueRun.2.q.closed = true ∧
      ∀ x ∈ closedQueueRun.1, x.2.result ≠ .pushed true :=
  have h := close_semantics ⟨false, .multiProducerMultiConsumer, 1⟩
    (s := closedQueue.2) (by decide) (Machine.run_play _)
  ⟨by decide, h.1, h.2.1⟩

end PcQueue
