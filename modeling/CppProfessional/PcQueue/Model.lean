import CppProfessional.Transition.CondVar
import CppProfessional.Transition.Machine
import Mathlib.Order.Basic

/-!
# The producer/consumer queue `pc_queue::Queue` as a monitor

`Queue<T, PriorityType>` guards two containers, a close flag and two activity
flags with one mutex and two condition variables.  A call runs atomically from
the moment it acquires `mutex_` until it returns, throws, or blocks in
`wait`/`wait_for`; there it releases the mutex, and it goes on later, with the
mutex held again, because it was notified, spuriously, or because its `wait_for`
timed out.  Between two such sections the mutex is free, so the state of the
machine below is a state of the monitor with the mutex free.

* `Queue` holds the members the methods change, `Config` the ones fixed by the
  constructor;
* `Thread` is the control state of one thread: outside the queue, or blocked at
  one of the two waits together with the locals its frame still needs;
* `pushImpl`, `popImpl`, `close`, `clear` are the sections from the acquisition
  of the mutex, `resumePush`, `resumePop` the sections that follow a wait;
* `machine` puts any finite family of threads around them.

The queue is generic in the element type and the priority type, as in the
source.  A timeout is a number of milliseconds: zero does not wait, a positive
one waits with `wait_for`, a negative one waits without limit.  How long a wait
lasts is not modelled: a blocked `wait_for` may time out at any moment.

`std::priority_queue` promises that `top` is a greatest element and not which
one, so an event that pops from it names the position `pick` of the element that
leaves, and the step is enabled when no stored element is greater.
-/

namespace PcQueue

open Transition

universe u v w

/-- `pc_queue::QueueMode`. -/
inductive QueueMode
  | singleProducerSingleConsumer
  | multiProducerSingleConsumer
  | singleProducerMultiConsumer
  | multiProducerMultiConsumer
  deriving DecidableEq, Repr

/-- The two modes in which `pushImpl` guards itself with `producerActive_`. -/
def QueueMode.singleProducer : QueueMode → Bool
  | .singleProducerSingleConsumer | .singleProducerMultiConsumer => true
  | .multiProducerSingleConsumer | .multiProducerMultiConsumer => false

/-- The two modes in which `waitForNonEmpty` guards itself with
`consumerActive_`. -/
def QueueMode.singleConsumer : QueueMode → Bool
  | .singleProducerSingleConsumer | .multiProducerSingleConsumer => true
  | .singleProducerMultiConsumer | .multiProducerMultiConsumer => false

/-- The members fixed by the constructor; `maxSize = 0` is unlimited. -/
structure Config where
  usePriority : Bool
  mode : QueueMode
  maxSize : ℕ

/-- `Queue::PriorityItem`. -/
structure PriorityItem (T : Type v) (P : Type w) where
  data : T
  priority : P
  deriving DecidableEq, Repr

/-- `PriorityItem::operator<` compares priorities only. -/
instance PriorityItem.instLT {T : Type v} {P : Type w} [LT P] :
    LT (PriorityItem T P) := ⟨fun a b => a.priority < b.priority⟩

instance PriorityItem.instDecidableLT {T : Type v} {P : Type w} [LT P]
    [DecidableLT P] : DecidableLT (PriorityItem T P) := fun a b =>
  inferInstanceAs (Decidable (a.priority < b.priority))

/-- The members of `Queue` that its methods change. -/
structure Queue (T : Type v) (P : Type w) where
  closed : Bool
  producerActive : Bool
  consumerActive : Bool
  priorityQueue : List (PriorityItem T P)
  queue : List T

/-- The control state of a thread: outside the queue's methods, or blocked in
`waitForNonEmpty` or `waitForNotFull`.  `notified` is the mark a notification
leaves on a blocked thread. -/
inductive Thread (T : Type v) (P : Type w)
  | outside
  | waitsNotEmpty (timeout : ℤ) (isConsumerActive notified : Bool)
  | waitsNotFull (item : T) (priority : P) (timeout : ℤ)
      (isProducerActive notified : Bool)

/-- How a critical section ends for the calling thread. -/
inductive Result (T : Type v)
  | blocked
  | pushed (accepted : Bool)
  | popped (item : Option T)
  | threw (what : String)
  | returned
  deriving DecidableEq, Repr

/-- What a critical section did: its result, and what entered and left each of
the two containers, in order. -/
structure Effect (T : Type v) (P : Type w) where
  result : Result T
  enqueued : List T := []
  dequeued : List T := []
  inserted : List (PriorityItem T P) := []
  extracted : List (PriorityItem T P) := []

/-- The notifications sent before the mutex is released. -/
inductive Notification
  | none
  | oneNotEmpty
  | oneNotFull
  | allNotFull
  | everybody

/-- The end of a critical section: the thread blocks with the given frame, or
leaves the method after sending a notification. -/
inductive Outcome (T : Type v) (P : Type w)
  | blocks (frame : Thread T P) (q : Queue T P)
  | leaves (effect : Effect T P) (notification : Notification) (q : Queue T P)

/-- Why a blocked thread holds the mutex again. -/
inductive Wake
  | notification
  | spurious
  | timeout
  deriving DecidableEq, Repr

/-- `std::cv_status::timeout` is possible in a `wait_for` only. -/
def Wake.possible (wake : Wake) (timeout : ℤ) (notified : Bool) : Bool :=
  match wake with
  | .notification => notified
  | .spurious => true
  | .timeout => decide (0 < timeout)

variable {T : Type v} {P : Type w}

/-- `Queue::empty`. -/
def Queue.empty (cfg : Config) (q : Queue T P) : Bool :=
  if cfg.usePriority then q.priorityQueue.isEmpty else q.queue.isEmpty

/-- `Queue::size`. -/
def Queue.size (cfg : Config) (q : Queue T P) : ℕ :=
  if cfg.usePriority then q.priorityQueue.length else q.queue.length

/-- `empty` is about the size. -/
theorem Queue.empty_eq_true {cfg : Config} {q : Queue T P} :
    q.empty cfg = true ↔ q.size cfg = 0 := by
  unfold Queue.empty Queue.size
  split <;> simp

theorem Queue.empty_eq_false {cfg : Config} {q : Queue T P} :
    q.empty cfg = false ↔ 0 < q.size cfg := by
  rw [← Bool.not_eq_true, Queue.empty_eq_true, Nat.pos_iff_ne_zero]

/-- `producerActive_ = true` in the modes that allow one producer. -/
def Queue.claimProducer (cfg : Config) (q : Queue T P) : Queue T P :=
  if cfg.mode.singleProducer then { q with producerActive := true } else q

/-- `consumerActive_ = true` in the modes that allow one consumer. -/
def Queue.claimConsumer (cfg : Config) (q : Queue T P) : Queue T P :=
  if cfg.mode.singleConsumer then { q with consumerActive := true } else q

/-- `if (isProducerActive) producerActive_ = false`. -/
def Queue.releaseProducer (isProducerActive : Bool) (q : Queue T P) : Queue T P :=
  if isProducerActive then { q with producerActive := false } else q

/-- `if (isConsumerActive) consumerActive_ = false`. -/
def Queue.releaseConsumer (isConsumerActive : Bool) (q : Queue T P) : Queue T P :=
  if isConsumerActive then { q with consumerActive := false } else q

/-- `queue_.push` or `priorityQueue_.push`, as `usePriority_` selects. -/
def Queue.insert (cfg : Config) (q : Queue T P) (item : T) (priority : P) :
    Queue T P :=
  if cfg.usePriority then
    { q with priorityQueue := q.priorityQueue ++ [⟨item, priority⟩] }
  else { q with queue := q.queue ++ [item] }

/-- What an accepted push adds. -/
def accepted (cfg : Config) (item : T) (priority : P) : Effect T P where
  result := .pushed true
  enqueued := if cfg.usePriority then [] else [item]
  inserted := if cfg.usePriority then [⟨item, priority⟩] else []

/-! ### Push

A push is one section, or several if it has to wait: the first up to the wait, and one
for each wake-up.  The flag of the active producer is set in the first and cleared in
the last. -/

/-- `waitForNotFull` up to its first wait: the value it returns, or `none` when
it blocks on `notFull_`. -/
def waitForNotFull (cfg : Config) (q : Queue T P) (timeout : ℤ) : Option Bool :=
  if cfg.maxSize ≤ q.size cfg ∧ q.closed = false then
    -- any other timeout waits, a negative one without a limit
    if timeout = 0 then some false else none
  else some (!q.closed)

/-- The rest of `waitForNotFull` once the thread runs again.  `wait_for` returns
its predicate; `wait` returns when the predicate holds, and then the function
returns `!closed_`. -/
def resumeNotFull (cfg : Config) (q : Queue T P) (timeout : ℤ) (wake : Wake) :
    Option Bool :=
  let predicate := decide (q.size cfg < cfg.maxSize) || q.closed
  if 0 < timeout then
    if predicate then some true
    else if wake = .timeout then some false else none
  else if predicate then some (!q.closed) else none

/-- `pushImpl` from the point where `success` is known. -/
def pushTail (cfg : Config) (q : Queue T P) (item : T) (priority : P)
    (isProducerActive success : Bool) : Outcome T P :=
  let q := q.releaseProducer isProducerActive
  if !success || q.closed then .leaves { result := .pushed false } .none q
  else .leaves (accepted cfg item priority) .oneNotEmpty (q.insert cfg item priority)

/-- `pushImpl` up to its wait.  Both public overloads call it, the one without a
priority with `PriorityType{}`. -/
def pushImpl (cfg : Config) (q : Queue T P) (item : T) (priority : P)
    (timeout : ℤ) : Outcome T P :=
  if q.closed then .leaves { result := .pushed false } .none q
  else if cfg.mode.singleProducer && q.producerActive then
    .leaves { result := .threw "Only one producer allowed in this mode" } .none q
  else
    let isProducerActive := cfg.mode.singleProducer
    let q := q.claimProducer cfg
    let success :=
      -- a `maxSize_` of zero stands for a queue without a bound
      if 0 < cfg.maxSize ∧ cfg.maxSize ≤ q.size cfg then waitForNotFull cfg q timeout
      else some true
    match success with
    | none =>
        .blocks (.waitsNotFull item priority timeout isProducerActive false) q
    | some success => pushTail cfg q item priority isProducerActive success

/-- `pushImpl` after its wait. -/
def resumePush (cfg : Config) (q : Queue T P) (item : T) (priority : P)
    (timeout : ℤ) (isProducerActive : Bool) (wake : Wake) : Outcome T P :=
  match resumeNotFull cfg q timeout wake with
  | none => .blocks (.waitsNotFull item priority timeout isProducerActive false) q
  | some success => pushTail cfg q item priority isProducerActive success

/-! ### Pop

`waitForNonEmpty` tests the container once more after its wait.  So the end of a pop has
two cases only, an item or nothing. -/

section Pop

variable [LT P] [DecidableLT P]

/-- `top()` and `pop()` of the priority queue: the element at `pick`, provided no
stored element is greater, and the elements that stay. -/
def takeTop (pick : ℕ) (items : List (PriorityItem T P)) :
    Option (PriorityItem T P × List (PriorityItem T P)) :=
  match items[pick]? with
  | none => none
  | some top =>
      if items.all fun other => !decide (top < other) then
        some (top, items.eraseIdx pick)
      else none

/-- The part of `popImpl` that takes the item.  `popImpl` reaches it with a
non-empty container only, so the case of an empty one never arises. -/
def takeItem (cfg : Config) (q : Queue T P) (pick : ℕ) :
    Option (Effect T P × Queue T P) :=
  if cfg.usePriority then
    (takeTop pick q.priorityQueue).map fun (top, rest) =>
      ({ result := .popped (some top.data), extracted := [top] },
        { q with priorityQueue := rest })
  else
    match q.queue with
    | [] => none
    | item :: rest =>
        some ({ result := .popped (some item), dequeued := [item] },
          { q with queue := rest })

/-- `waitForNonEmpty` from the point where `success` is known, and the rest of
`popImpl`. -/
def popTail (cfg : Config) (q : Queue T P) (pick : ℕ)
    (isConsumerActive success : Bool) : Option (Outcome T P) :=
  let q := q.releaseConsumer isConsumerActive
  -- the final test of `waitForNonEmpty`, after the wait and under the mutex
  let success := if q.empty cfg then false else success
  if !success then some (.leaves { result := .popped none } .none q)
  else
    (takeItem cfg q pick).map fun (effect, q) => .leaves effect .oneNotFull q

/-- `popImpl` up to the wait in `waitForNonEmpty`. -/
def popImpl (cfg : Config) (q : Queue T P) (timeout : ℤ) (pick : ℕ) :
    Option (Outcome T P) :=
  if q.closed && q.empty cfg then
    some (.leaves { result := .popped none } .none q)
  else if cfg.mode.singleConsumer && q.consumerActive then
    some (.leaves { result := .threw "Only one consumer allowed in this mode" } .none q)
  else
    let isConsumerActive := cfg.mode.singleConsumer
    let q := q.claimConsumer cfg
    if q.empty cfg && !q.closed then
      if timeout = 0 then popTail cfg q pick isConsumerActive false
      else some (.blocks (.waitsNotEmpty timeout isConsumerActive false) q)
    else popTail cfg q pick isConsumerActive true

/-- `popImpl` after the wait in `waitForNonEmpty`: `wait_for` returns its
predicate, `wait` leaves `success` true. -/
def resumePop (cfg : Config) (q : Queue T P) (timeout : ℤ) (pick : ℕ)
    (isConsumerActive : Bool) (wake : Wake) : Option (Outcome T P) :=
  if !q.empty cfg || q.closed then popTail cfg q pick isConsumerActive true
  else if wake = .timeout then popTail cfg q pick isConsumerActive false
  else some (.blocks (.waitsNotEmpty timeout isConsumerActive false) q)

end Pop

/-! ### Close and clear

Neither of them waits.  Both notify everybody whom the change may concern, `clear` those
who wait for room. -/

/-- `Queue::close`. -/
def close (q : Queue T P) : Outcome T P :=
  .leaves { result := .returned } .everybody { q with closed := true }

/-- `Queue::clear`: the plain container is emptied in any case. -/
def clear (cfg : Config) (q : Queue T P) : Outcome T P :=
  .leaves
    { result := .returned, dequeued := q.queue,
      extracted := if cfg.usePriority then q.priorityQueue else [] }
    .allNotFull
    { q with
      queue := []
      priorityQueue := if cfg.usePriority then [] else q.priorityQueue }

/-! ### The monitor

A section ends by leaving its thread in a wait or outside, and with a notification.
Which thread `notify_one` wakes is part of the event. -/

/-- Waiting on `notEmpty_`. -/
def notEmpty : CondVar (Thread T P) where
  asleep
    | .waitsNotEmpty _ _ notified => !notified
    | _ => false
  notified
    | .waitsNotEmpty _ _ notified => notified
    | _ => false
  wake
    | .waitsNotEmpty timeout isConsumerActive _ =>
        .waitsNotEmpty timeout isConsumerActive true
    | thread => thread
  notified_wake p h := by cases p <;> simp_all
  not_asleep_wake p h := by cases p <;> simp_all
  not_notified_of_asleep p h := by cases p <;> simp_all

/-- Waiting on `notFull_`. -/
def notFull : CondVar (Thread T P) where
  asleep
    | .waitsNotFull _ _ _ _ notified => !notified
    | _ => false
  notified
    | .waitsNotFull _ _ _ _ notified => notified
    | _ => false
  wake
    | .waitsNotFull item priority timeout isProducerActive _ =>
        .waitsNotFull item priority timeout isProducerActive true
    | thread => thread
  notified_wake p h := by cases p <;> simp_all
  not_asleep_wake p h := by cases p <;> simp_all
  not_notified_of_asleep p h := by cases p <;> simp_all

section Waiting

variable (item : T) (priority : P) (timeout : ℤ) (active notified : Bool)

@[simp] theorem notEmpty_asleep_outside :
    notEmpty.asleep (.outside : Thread T P) = false := rfl

@[simp] theorem notEmpty_notified_outside :
    notEmpty.notified (.outside : Thread T P) = false := rfl

@[simp] theorem notEmpty_asleep_waitsNotFull :
    notEmpty.asleep (.waitsNotFull item priority timeout active notified) = false := rfl

@[simp] theorem notEmpty_notified_waitsNotFull :
    notEmpty.notified (.waitsNotFull item priority timeout active notified) = false := rfl

@[simp] theorem notFull_asleep_outside :
    notFull.asleep (.outside : Thread T P) = false := rfl

@[simp] theorem notFull_notified_outside :
    notFull.notified (.outside : Thread T P) = false := rfl

@[simp] theorem notFull_asleep_waitsNotEmpty :
    notFull.asleep (.waitsNotEmpty timeout active notified : Thread T P) = false := rfl

@[simp] theorem notFull_notified_waitsNotEmpty :
    notFull.notified (.waitsNotEmpty timeout active notified : Thread T P) = false := rfl

end Waiting

/-- A call of a public method. -/
inductive Op (T : Type v) (P : Type w)
  | push (item : T) (priority : P) (timeout : ℤ)
  | pop (timeout : ℤ)
  | close
  | clear

/-- A thread calls a method, or a blocked thread runs again.  `pick` resolves
`std::priority_queue::top`, `heir` the choice of `notify_one`. -/
inductive Event (ι : Type u) (T : Type v) (P : Type w)
  | call (t : ι) (op : Op T P) (pick : ℕ) (heir : Option ι)
  | resume (t : ι) (wake : Wake) (pick : ℕ) (heir : Option ι)

/-- The thread an event moves. -/
def Event.thread {ι : Type u} : Event ι T P → ι
  | .call t _ _ _ => t
  | .resume t _ _ _ => t

/-- The monitor with the mutex free. -/
structure State (ι : Type u) (T : Type v) (P : Type w) where
  q : Queue T P
  threads : ι → Thread T P

section Step

variable {ι : Type u} [Fintype ι] [DecidableEq ι]

/-- Delivery of a notification. -/
def deliver (notification : Notification) (heir : Option ι)
    (threads : ι → Thread T P) : Option (ι → Thread T P) :=
  match notification with
  | .none => some threads
  | .oneNotEmpty => notEmpty.notifyOne heir threads
  | .oneNotFull => notFull.notifyOne heir threads
  | .allNotFull => some (notFull.notifyAll threads)
  | .everybody => some (notFull.notifyAll (notEmpty.notifyAll threads))

/-- The state in which thread `t` leaves the mutex. -/
def conclude (s : State ι T P) (t : ι) (heir : Option ι) :
    Outcome T P → Option (Effect T P × State ι T P)
  | .blocks frame q =>
      some ({ result := .blocked }, ⟨q, Function.update s.threads t frame⟩)
  | .leaves effect notification q =>
      -- the notification is sent before the mutex is released
      (deliver notification heir (Function.update s.threads t .outside)).map
        fun threads => (effect, ⟨q, threads⟩)

variable [LT P] [DecidableLT P]

/-- The section a call starts with. -/
def Op.run (cfg : Config) (q : Queue T P) (pick : ℕ) :
    Op T P → Option (Outcome T P)
  | .push item priority timeout => some (pushImpl cfg q item priority timeout)
  | .pop timeout => popImpl cfg q timeout pick
  | .close => some (PcQueue.close q)
  | .clear => some (PcQueue.clear cfg q)

/-- The section a blocked thread goes on with. -/
def Thread.resume (cfg : Config) (q : Queue T P) (wake : Wake) (pick : ℕ) :
    Thread T P → Option (Outcome T P)
  | .outside => none
  | .waitsNotEmpty timeout isConsumerActive notified =>
      if wake.possible timeout notified then
        resumePop cfg q timeout pick isConsumerActive wake
      else none
  | .waitsNotFull item priority timeout isProducerActive notified =>
      if wake.possible timeout notified then
        some (resumePush cfg q item priority timeout isProducerActive wake)
      else none

/-- One critical section of one thread. -/
def step (cfg : Config) (s : State ι T P) :
    Event ι T P → Option (Effect T P × State ι T P)
  | .call t op pick heir =>
      match s.threads t with
      | .outside => (op.run cfg s.q pick).bind (conclude s t heir)
      | _ => none
  | .resume t wake pick heir =>
      ((s.threads t).resume cfg s.q wake pick).bind (conclude s t heir)

/-- A freshly constructed queue, no thread inside it. -/
def initial : State ι T P where
  q :=
    { closed := false, producerActive := false, consumerActive := false,
      priorityQueue := [], queue := [] }
  threads := fun _ => .outside

/-- Any number of threads around one queue. -/
def machine (cfg : Config) (ι : Type u) [Fintype ι] [DecidableEq ι]
    (T : Type v) (P : Type w) [LT P] [DecidableLT P] :
    Machine (State ι T P) (Event ι T P) (Effect T P) where
  init s := s = initial
  step := step cfg

end Step

end PcQueue
