import CppProfessional.PcQueue.Activity
import CppProfessional.Transition.Histories
import Mathlib.Data.Multiset.AddSub

/-!
# The queue seen by its callers

A caller of `pc_queue::Queue` sees the calls and what they answer, not the sections of
the monitor.  `Store` is what he may think the queue is: a line of items or a bag of items
with priorities, and the close flag.  `Contract` says what each call may answer there.

`linearizable` is that the histories of the queue are those of a `Store` that carries out
every call at one moment, and that nothing weaker than `Contract` would do: calls one after
the other may answer whatever it allows.

The store forgets what no caller can observe: the arrangement of the heap, the activity flags
and who is blocked.  It is related to the queue by a function, `Queue.store`, so that the
simulation has nothing to choose; only which of several greatest items leaves is left open on
both sides.
-/

namespace PcQueue

open Transition

universe u v w

variable {ι : Type u} {T : Type v} {P : Type w}

/-! ### The abstract queue

The contract says for every call which answers are allowed and what they do to the
store.  It allows a refusal only where there is a reason that the caller may know of. -/

/-- The contents and the close flag.  Which arrangement the heap is in and who is active is
not for the callers to see. -/
@[ext] structure Store (T : Type v) (P : Type w) where
  closed : Bool
  line : List T
  bag : Multiset (PriorityItem T P)

/-- An open queue with nothing in it. -/
def Store.fresh : Store T P := ⟨false, [], 0⟩

/-- How many items can be popped. -/
def Store.size (cfg : Config) (x : Store T P) : ℕ :=
  if cfg.usePriority then x.bag.card else x.line.length

/-- One item more. -/
def Store.add (cfg : Config) (x : Store T P) (item : T) (priority : P) : Store T P :=
  if cfg.usePriority then { x with bag := ⟨item, priority⟩ ::ₘ x.bag }
  else { x with line := x.line ++ [item] }

/-- Nothing that can be popped any more. -/
def Store.cleared (cfg : Config) (x : Store T P) : Store T P :=
  { x with line := [], bag := if cfg.usePriority then 0 else x.bag }

section Contract

variable [LT P]

/-- The first of the line is next, or one of the greatest of the bag. -/
inductive Store.Takes (cfg : Config) (x : Store T P) : T → Store T P → Prop
  | first {item : T} {rest : List T} : cfg.usePriority = false → x.line = item :: rest →
      Takes cfg x item { x with line := rest }
  | greatest {top : PriorityItem T P} {rest : Multiset (PriorityItem T P)} :
      cfg.usePriority = true → x.bag = top ::ₘ rest → (∀ other ∈ x.bag, ¬ top < other) →
      Takes cfg x top.data { x with bag := rest }

/-- What a call may answer, and what it leaves.  A call without a limit on its waiting
fails only because the queue is closed. -/
inductive Contract (cfg : Config) : Specification (Store T P) (Op T P) (Result T)
  | pushed {x : Store T P} {item : T} {priority : P} {timeout : ℤ} :
      x.closed = false → cfg.maxSize = 0 ∨ x.size cfg < cfg.maxSize →
      Contract cfg x (.push item priority timeout) (.pushed true) (x.add cfg item priority)
  | refused {x : Store T P} {item : T} {priority : P} {timeout : ℤ} :
      x.closed = true ∨ 0 < cfg.maxSize ∧ cfg.maxSize ≤ x.size cfg ∧ 0 ≤ timeout →
      Contract cfg x (.push item priority timeout) (.pushed false) x
  | popped {x x' : Store T P} {timeout : ℤ} {item : T} : x.Takes cfg item x' →
      Contract cfg x (.pop timeout) (.popped (some item)) x'
  | finished {x : Store T P} {timeout : ℤ} : x.size cfg = 0 →
      x.closed = true ∨ 0 ≤ timeout →
      Contract cfg x (.pop timeout) (.popped none) x
  | closes {x : Store T P} : Contract cfg x .close .returned { x with closed := true }
  | clears {x : Store T P} : Contract cfg x .clear .returned (x.cleared cfg)
  | producerActive {x : Store T P} {item : T} {priority : P} {timeout : ℤ} :
      cfg.mode.singleProducer = true → x.closed = false →
      Contract cfg x (.push item priority timeout)
        (.threw "Only one producer allowed in this mode") x
  | consumerActive {x : Store T P} {timeout : ℤ} :
      cfg.mode.singleConsumer = true → ¬(x.closed = true ∧ x.size cfg = 0) →
      Contract cfg x (.pop timeout) (.threw "Only one consumer allowed in this mode") x

end Contract

/-! ### What the monitor stands for

The store of a monitor is a function of its containers and its close flag; which calls
are pending is read off the frames of the threads. -/

/-- What the members of the queue stand for. -/
def Queue.store (q : Queue T P) : Store T P := ⟨q.closed, q.queue, q.priorityQueue⟩

/-- The calls that have begun and not ended. -/
def State.pending (s : State ι T P) : ι → Option (Op T P) := fun t => (s.threads t).op

/-- The end of a call, if the section is one. -/
def answers (t : ι) : Result T → List (CallEvent ι (Op T P) (Result T))
  | .blocked => []
  | result => [.respond t result]

/-- What the callers see of a section. -/
def view : Event ι T P × Effect T P → List (CallEvent ι (Op T P) (Result T))
  | (.call t op _ _, effect) => .invoke t op :: answers t effect.result
  | (.resume t _ _ _, effect) => answers t effect.result

section Views

variable (cfg : Config) (q : Queue T P) (b : Bool) (item : T) (priority : P)

@[simp] theorem size_store : q.store.size cfg = q.size cfg := by
  unfold Store.size Queue.size Queue.store; split <;> simp

@[simp] theorem closed_store : q.store.closed = q.closed := rfl

@[simp] theorem store_claimProducer : (q.claimProducer cfg).store = q.store := by
  unfold Queue.claimProducer; split <;> rfl

@[simp] theorem store_claimConsumer : (q.claimConsumer cfg).store = q.store := by
  unfold Queue.claimConsumer; split <;> rfl

@[simp] theorem store_releaseProducer : (q.releaseProducer b).store = q.store := by
  cases b <;> rfl

@[simp] theorem store_releaseConsumer : (q.releaseConsumer b).store = q.store := by
  cases b <;> rfl

/-- Inserting into the queue is adding to the store. -/
@[simp] theorem store_insert :
    (q.insert cfg item priority).store = q.store.add cfg item priority := by
  cases huse : cfg.usePriority with
  | false => simp [Queue.insert, Store.add, Queue.store, huse]
  | true =>
      simp only [Queue.insert, Store.add, Queue.store, huse, if_true, Store.mk.injEq,
        true_and]
      exact Multiset.coe_eq_coe.mpr List.perm_append_comm

end Views

/-- Waiting is no answer. -/
theorem Contract.ne_blocked [LT P] {cfg : Config} {x x' : Store T P} {op : Op T P}
    {result : Result T} (h : Contract cfg x op result x') : result ≠ .blocked := by
  rintro rfl
  cases h

@[simp] theorem answers_blocked (t : ι) :
    (answers t .blocked : List (CallEvent ι (Op T P) (Result T))) = [] := rfl

/-- Every other end of a section is an answer. -/
theorem answers_of_ne_blocked (t : ι) {result : Result T} (h : result ≠ .blocked) :
    (answers t result : List (CallEvent ι (Op T P) (Result T))) = [.respond t result] := by
  cases result with
  | blocked => exact (h rfl).elim
  | _ => rfl

section Takes

variable [LT P] [DecidableLT P] {cfg : Config} {q q' : Queue T P} {effect : Effect T P}

omit [DecidableLT P] in
/-- What leaves the container may leave the store. -/
theorem Takes.store (h : Takes cfg q effect q') :
    ∃ item, effect.result = .popped (some item) ∧ q.store.Takes cfg item q'.store := by
  cases h with
  | front huse hq => exact ⟨_, rfl, .first huse hq⟩
  | @top pick top huse hpick hmax =>
      obtain ⟨hlt, rfl⟩ := List.getElem?_eq_some_iff.mp hpick
      refine ⟨_, rfl, .greatest huse ?_ fun other hother => hmax other ?_⟩
      · exact Multiset.coe_eq_coe.mpr (List.getElem_cons_eraseIdx_perm hlt).symm
      · simpa [Queue.store] using hother

/-- What may leave the store can be taken from the container: in an arrangement of the bag the
chosen item has a position, and the event may name it. -/
theorem exists_takeItem_of_takes {item : T} {x' : Store T P}
    (h : q.store.Takes cfg item x') :
    ∃ pick effect q', takeItem cfg q pick = some (effect, q') ∧
      effect.result = .popped (some item) ∧ q'.store = x' := by
  cases h with
  | @first item rest huse hline =>
      have hq : q.queue = item :: rest := hline
      refine ⟨0, { result := .popped (some item), dequeued := [item] },
        { q with queue := rest }, ?_, rfl, rfl⟩
      simp only [takeItem, huse, Bool.false_eq_true, if_false, hq]
  | @greatest top rest huse hbag hmax =>
      have hbag : (q.priorityQueue : Multiset (PriorityItem T P)) = top ::ₘ rest := hbag
      have htop : top ∈ q.priorityQueue := by
        rw [← Multiset.mem_coe, hbag]
        exact Multiset.mem_cons_self _ _
      obtain ⟨pick, hlt, hpick⟩ := List.getElem_of_mem htop
      have hall : (q.priorityQueue.all fun other => !decide (top < other)) = true := by
        simpa [List.all_eq_true] using fun other hother =>
          hmax other (Multiset.mem_coe.mpr hother)
      refine ⟨pick, { result := .popped (some top.data), extracted := [top] },
        { q with priorityQueue := q.priorityQueue.eraseIdx pick }, ?_, rfl, ?_⟩
      · simp only [takeItem, takeTop, huse, if_true, List.getElem?_eq_getElem hlt, hpick, hall,
          Option.map_some]
      · have hcons : top ::ₘ (q.priorityQueue.eraseIdx pick : Multiset (PriorityItem T P)) =
            top ::ₘ rest := by
          rw [← hbag, ← hpick]
          exact Multiset.coe_eq_coe.mpr (List.getElem_cons_eraseIdx_perm hlt)
        simp only [Queue.store, Store.mk.injEq, true_and]
        exact (Multiset.cons_inj_right top).mp hcons

end Takes

/-! ### The sections keep the contract

A section that ends its call answers as the contract allows, for the store before and
after it; a section that waits leaves the store alone. -/

/-- How a section of a call may end: the thread goes on waiting in the same call and nothing
has changed, or the call is answered. -/
def Outcome.Meets [LT P] (cfg : Config) (x : Store T P) (op : Op T P) : Outcome T P → Prop
  | .blocks frame q => frame.op = some op ∧ q.store = x
  | .leaves effect _ q => Contract cfg x op effect.result q.store

section Sections

variable [LT P] {cfg : Config} {q : Queue T P} {item : T} {priority : P} {timeout : ℤ}

/-- The end of a push keeps the contract, given why it failed or that there was room.  Failure
alone is not enough: the contract lets a push be refused only when the queue is closed, or full
after a timeout. -/
theorem pushTail_meets {isProducerActive success : Bool}
    (hfail : success = false → q.closed = true ∨
      0 < cfg.maxSize ∧ cfg.maxSize ≤ q.size cfg ∧ 0 ≤ timeout)
    (hroom : success = true → q.closed = true ∨
      cfg.maxSize = 0 ∨ q.size cfg < cfg.maxSize) :
    (pushTail cfg q item priority isProducerActive success).Meets cfg q.store
      (.push item priority timeout) := by
  unfold pushTail
  simp only [closed_releaseProducer]
  split
  · next hrefused =>
    simp only [Outcome.Meets, store_releaseProducer]
    refine .refused ?_
    simp only [closed_store, size_store]
    cases success with
    | false => exact hfail rfl
    | true => exact Or.inl (by simpa using hrefused)
  · next haccepted =>
    obtain ⟨rfl, hopen⟩ : success = true ∧ q.closed = false := by simpa using haccepted
    simp only [Outcome.Meets, store_insert, store_releaseProducer]
    refine .pushed hopen ?_
    rw [size_store]
    exact (hroom rfl).resolve_left (by simp [hopen])

/-- The first section of a push waits or keeps the contract.  It refuses at once only with a
timeout of zero, which the contract counts among the limits. -/
theorem pushImpl_meets :
    (pushImpl cfg q item priority timeout).Meets cfg q.store (.push item priority timeout) := by
  unfold pushImpl
  split
  · next hclosed => exact .refused (Or.inl hclosed)
  · next hopen =>
    have hopen : q.closed = false := by simpa using hopen
    split
    · next hbusy =>
      obtain ⟨hmode, -⟩ : cfg.mode.singleProducer = true ∧ q.producerActive = true := by
        simpa using hbusy
      exact .producerActive hmode hopen
    · have htail (success : Bool) := @pushTail_meets T P _ cfg (q.claimProducer cfg) item
        priority timeout cfg.mode.singleProducer success
      simp only [closed_claimProducer, size_claimProducer, store_claimProducer] at htail ⊢
      by_cases hfull : 0 < cfg.maxSize ∧ cfg.maxSize ≤ q.size cfg
      · rw [if_pos hfull, waitForNotFull_of_full (by simpa using hfull.2) (by simpa using hopen)]
        split
        · next hblocked => exact ⟨rfl, store_claimProducer cfg q⟩
        · next success hsuccess =>
          simp only [Option.ite_none_right_eq_some, Option.some.injEq] at hsuccess
          obtain ⟨htimeout, rfl⟩ := hsuccess
          exact htail false (fun _ => Or.inr ⟨hfull.1, hfull.2, htimeout.ge⟩)
            (fun htrue => by cases htrue)
      · rw [if_neg hfull]
        exact htail true (fun hfalse => by cases hfalse) (fun _ => Or.inr (by omega))

/-- A push that has waited for a place: only queues with a bound make it wait. -/
theorem resumePush_meets {isProducerActive : Bool} {wake : Wake} (hbound : 0 < cfg.maxSize) :
    (resumePush cfg q item priority timeout isProducerActive wake).Meets cfg q.store
      (.push item priority timeout) := by
  unfold resumePush
  by_cases hfull : cfg.maxSize ≤ q.size cfg ∧ q.closed = false
  · rw [resumeNotFull_of_full hfull]
    by_cases hexpired : 0 < timeout ∧ wake = .timeout
    · rw [if_pos hexpired]
      exact pushTail_meets (fun _ => Or.inr ⟨hbound, hfull.1, hexpired.1.le⟩)
        (fun htrue => by cases htrue)
    · rw [if_neg hexpired]
      exact ⟨rfl, rfl⟩
  · rw [resumeNotFull_of_room hfull]
    refine pushTail_meets (fun hfalse => Or.inl ?_) (fun _ => ?_)
    · split at hfalse
      · cases hfalse
      · simpa using hfalse
    · rw [not_and_or, Bool.not_eq_false, Nat.not_le] at hfull
      exact hfull.symm.imp_right Or.inr

variable [DecidableLT P] {pick : ℕ} {outcome : Outcome T P}

/-- The end of a pop keeps the contract, given why nothing was taken.  That the container is
empty is not enough: a pop without a limit may say so only of a closed queue. -/
theorem popTail_meets {isConsumerActive success : Bool}
    (hfail : success = false → q.size cfg = 0)
    (hend : q.size cfg = 0 → q.closed = true ∨ 0 ≤ timeout)
    (h : popTail cfg q pick isConsumerActive success = some outcome) :
    outcome.Meets cfg q.store (.pop timeout) := by
  have hfinished (hsize : q.size cfg = 0)
      (houtcome : some (Outcome.leaves { result := .popped none } .none
        (q.releaseConsumer isConsumerActive)) = some outcome) :
      outcome.Meets cfg q.store (.pop timeout) := by
    cases houtcome
    simp only [Outcome.Meets, store_releaseConsumer]
    exact .finished (by simpa using hsize) (hend hsize)
  unfold popTail at h
  simp only [empty_releaseConsumer] at h
  cases hempty : q.empty cfg with
  | true =>
      simp only [hempty, if_true, Bool.not_false] at h
      exact hfinished (Queue.empty_eq_true.mp hempty) h
  | false =>
      cases success with
      | false =>
          simp only [hempty, Bool.false_eq_true, if_false, Bool.not_false, if_true] at h
          exact hfinished (hfail rfl) h
      | true =>
          simp only [hempty, Bool.false_eq_true, if_false, Bool.not_true,
            Option.map_eq_some_iff, Prod.exists] at h
          obtain ⟨effect, q', htake, rfl⟩ := h
          obtain ⟨item, hresult, htakes⟩ := (takes_of_takeItem htake).store
          simp only [Outcome.Meets, hresult]
          exact .popped (by simpa using htakes)

/-- The first section of a pop waits or keeps the contract; without waiting it reports nothing
only if the timeout is zero or the queue is closed. -/
theorem popImpl_meets (h : popImpl cfg q timeout pick = some outcome) :
    outcome.Meets cfg q.store (.pop timeout) := by
  unfold popImpl at h
  split at h
  · next hover =>
    obtain ⟨hclosed, hempty⟩ : q.closed = true ∧ q.empty cfg = true := by simpa using hover
    cases h
    exact .finished (by simpa using Queue.empty_eq_true.mp hempty) (Or.inl hclosed)
  · next hopen =>
    split at h
    · next hbusy =>
      obtain ⟨hmode, -⟩ : cfg.mode.singleConsumer = true ∧ q.consumerActive = true := by
        simpa using hbusy
      cases h
      refine .consumerActive hmode ?_
      rw [size_store, ← Queue.empty_eq_true]
      simpa using hopen
    · have htail (success : Bool) := @popTail_meets T P _ cfg (q.claimConsumer cfg) timeout _
        pick outcome cfg.mode.singleConsumer success
      simp only [closed_claimConsumer, size_claimConsumer, store_claimConsumer,
        empty_claimConsumer] at htail h
      split at h
      · next hwait =>
        obtain ⟨hempty, -⟩ : q.empty cfg = true ∧ q.closed = false := by simpa using hwait
        split at h
        · next htimeout =>
          exact htail false (fun _ => Queue.empty_eq_true.mp hempty)
            (fun _ => Or.inr htimeout.ge) h
        · cases h
          exact ⟨rfl, store_claimConsumer cfg q⟩
      · next hready =>
        refine htail true (fun hfalse => by cases hfalse) (fun hsize => Or.inl ?_) h
        rw [← Queue.empty_eq_true] at hsize
        simpa [hsize] using hready

/-- A pop that has waited for an item: it times out only if it has a limit. -/
theorem resumePop_meets {isConsumerActive notified : Bool} {wake : Wake}
    (hwake : wake.possible timeout notified = true)
    (h : resumePop cfg q timeout pick isConsumerActive wake = some outcome) :
    outcome.Meets cfg q.store (.pop timeout) := by
  unfold resumePop at h
  split at h
  · next hready =>
    refine popTail_meets (fun hfalse => by cases hfalse) (fun hsize => Or.inl ?_) h
    rw [← Queue.empty_eq_true] at hsize
    simpa [hsize] using hready
  · next hpred =>
    obtain ⟨hempty, -⟩ : q.empty cfg = true ∧ q.closed = false := by simpa using hpred
    split at h
    · next hexpired =>
      subst hexpired
      have htimeout : 0 < timeout := by simpa [Wake.possible] using hwake
      exact popTail_meets (fun _ => Queue.empty_eq_true.mp hempty)
        (fun _ => Or.inr htimeout.le) h
    · cases h
      exact ⟨rfl, rfl⟩

/-- The first section of every call, `close` and `clear` included, which never wait. -/
theorem run_meets {op : Op T P} (h : op.run cfg q pick = some outcome) :
    outcome.Meets cfg q.store op := by
  cases op with
  | push item priority timeout =>
      cases h
      exact pushImpl_meets
  | pop timeout => exact popImpl_meets h
  | close =>
      cases h
      exact .closes
  | clear =>
      cases h
      have hclears : Contract cfg q.store .clear .returned (q.store.cleared cfg) := .clears
      simp only [Outcome.Meets, clear, Store.cleared, Queue.store] at hclears ⊢
      cases huse : cfg.usePriority <;> simpa [huse] using hclears

/-- A thread that is woken keeps the contract of the call it made.  A producer waits only on a
bounded queue, which is why the bound is asked for. -/
theorem resume_meets {thread : Thread T P} {wake : Wake}
    (hbound : thread.producerFrame.isSome = true → 0 < cfg.maxSize)
    (h : thread.resume cfg q wake pick = some outcome) :
    ∃ op, thread.op = some op ∧ outcome.Meets cfg q.store op := by
  cases thread with
  | outside => cases h
  | waitsNotEmpty timeout isConsumerActive notified =>
      simp only [Thread.resume, Option.ite_none_right_eq_some] at h
      exact ⟨_, rfl, resumePop_meets h.1 h.2⟩
  | waitsNotFull item priority timeout isProducerActive notified =>
      simp only [Thread.resume, Option.ite_none_right_eq_some, Option.some.injEq] at h
      obtain ⟨-, rfl⟩ := h
      exact ⟨_, rfl, resumePush_meets (hbound rfl)⟩

end Sections

/-! ### Every run is a run of the store

With the answer in its last section, a call is carried out at one moment inside it. -/

section Runs

variable [Fintype ι] [DecidableEq ι] [LT P] {cfg : Config} {s s' : State ι T P} {t : ι}
  {effect : Effect T P} {heir : Option ι}

/-- Nobody waits for room in a queue without a bound.  The wait itself would not notice: its
predicate compares the size with the bound, and with a bound of zero it is never true in an
open queue. -/
theorem move_bounded (h : Move cfg s t effect s')
    (hinv : ∀ u, (s.threads u).producerFrame.isSome = true → 0 < cfg.maxSize) :
    ∀ u, (s'.threads u).producerFrame.isSome = true → 0 < cfg.maxSize := by
  have hmoves (p : Thread T P) (hp : p.producerFrame.isSome = true → 0 < cfg.maxSize) (u : ι)
      (hu : (Function.update s.threads t p u).producerFrame.isSome = true) :
      0 < cfg.maxSize :=
    (of_update (P := fun p : Thread T P => p.producerFrame.isSome = true) hu).elim hp (hinv u)
  have hleaves := hmoves .outside (fun hnone => by cases hnone)
  cases h with
  | pushBlocks _ _ _ hbound _ _ => exact hmoves _ fun _ => hbound
  | pushRewaits ht _ _ => exact hmoves _ fun _ => hinv t (by rw [ht]; rfl)
  | popBlocks _ _ _ _ _ | popRewaits _ _ _ => exact hmoves _ fun hnone => by cases hnone
  | pushThrows _ _ _ _ | popThrows _ _ _ _ | pushRefused _ _ | popRefused _ _ => exact hleaves
  | pushAccepted _ _ _ hone =>
      intro u hu
      rw [notEmpty.apply_notifyOne (fun p _ => producerFrame_wake_notEmpty p) hone] at hu
      exact hleaves u hu
  | popTakes _ _ hone =>
      intro u hu
      rw [notFull.apply_notifyOne (fun p _ => producerFrame_wake_notFull p) hone] at hu
      exact hleaves u hu
  | closes _ =>
      intro u hu
      rw [notFull.apply_notifyAll (fun p _ => producerFrame_wake_notFull p),
        notEmpty.apply_notifyAll (fun p _ => producerFrame_wake_notEmpty p)] at hu
      exact hleaves u hu
  | clears _ _ =>
      intro u hu
      rw [notFull.apply_notifyAll (fun p _ => producerFrame_wake_notFull p)] at hu
      exact hleaves u hu

omit [Fintype ι] [LT P] in
/-- When one thread moves, the calls of the others stay pending. -/
theorem pending_update (q : Queue T P) (p : Thread T P) :
    State.pending ⟨q, Function.update s.threads t p⟩ = Function.update s.pending t p.op := by
  funext u
  exact Function.apply_update (fun _ (p : Thread T P) => p.op) s.threads t p u

/-- The end of a section, as its callers see it: a thread that goes on waiting has not answered
and its call stays pending, a thread that leaves has been answered. -/
theorem conclude_linear {op : Op T P} {outcome : Outcome T P}
    (hmeets : outcome.Meets cfg s.q.store op)
    (h : conclude s t heir outcome = some (effect, s')) :
    Linear (Contract cfg) (Function.update s.pending t (some op)) s.q.store
      (answers t effect.result) s'.pending s'.q.store := by
  cases outcome with
  | blocks frame q =>
      obtain ⟨hframe, hstore⟩ := hmeets
      simp only [conclude, Option.some.injEq, Prod.mk.injEq] at h
      obtain ⟨rfl, rfl⟩ := h
      rw [pending_update, hframe, hstore]
      exact .nil
  | leaves effect' notification q =>
      simp only [conclude, Option.map_eq_some_iff, Prod.mk.injEq] at h
      obtain ⟨threads, hdeliver, rfl, rfl⟩ := h
      have hpending : State.pending ⟨q, threads⟩ = Function.update s.pending t none := by
        rw [show none = (Thread.outside : Thread T P).op from rfl, ← pending_update q .outside]
        exact funext (op_deliver hdeliver)
      have hspec : Contract cfg s.q.store op effect'.result q.store := hmeets
      rw [answers_of_ne_blocked t hspec.ne_blocked, hpending]
      refine .respond (Function.update_self ..) hspec ?_
      rw [Function.update_idem]
      exact .nil

variable [DecidableLT P]

/-- In every reachable state a producer that waits has a bound to wait for. -/
theorem reachable_bounded (h : (machine cfg ι T P).Reachable s) :
    ∀ u, (s.threads u).producerFrame.isSome = true → 0 < cfg.maxSize := by
  refine h.invariant
    (I := fun s => ∀ u, (s.threads u).producerFrame.isSome = true → 0 < cfg.maxSize) ?_ ?_
  · rintro s rfl u hu
    cases hu
  · intro s e effect s' _ hinv hs
    exact move_bounded (step_move hs) hinv

/-- One section extends the history as the store allows.  A call that begins and ends in one
section is invoked and answered at once; a section after a wait answers a call that was invoked
before. -/
theorem step_linear {e : Event ι T P} (hreach : (machine cfg ι T P).Reachable s)
    (h : step cfg s e = some (effect, s')) :
    Linear (Contract cfg) s.pending s.q.store (view (e, effect)) s'.pending s'.q.store := by
  cases e with
  | call t op pick heir =>
      have ht := call_outside h
      simp only [step, ht] at h
      obtain ⟨outcome, hrun, hend⟩ := Option.bind_eq_some_iff.mp h
      exact .invoke (by simp [State.pending, ht, Thread.op])
        (conclude_linear (run_meets hrun) hend)
  | resume t wake pick heir =>
      obtain ⟨outcome, hresume, hend⟩ := Option.bind_eq_some_iff.mp h
      obtain ⟨op, hop, hmeets⟩ := resume_meets (reachable_bounded hreach t) hresume
      have hlinear := conclude_linear hmeets hend
      rwa [Function.update_eq_self_iff.mpr hop.symm] at hlinear

end Runs

/-! ### Calls one after the other

The other direction says that the contract promises no less than it could: what it
allows really happens, at least to a caller who is alone.  A single call with a positive
timeout may need two sections, a wait and its end. -/

/-- Nobody is in a call. -/
structure Queue.Quiet (q : Queue T P) : Prop where
  producer : q.producerActive = false
  consumer : q.consumerActive = false

section Sequential

variable [LT P] [DecidableLT P] {cfg : Config} {q q' : Queue T P} {op : Op T P}
  {answer : Result T}

/-- A lone caller gets this answer: at once, or because his waiting has timed out. -/
inductive Answers (cfg : Config) (q : Queue T P) (op : Op T P) (answer : Result T)
    (q' : Queue T P) : Prop
  | atOnce {pick : ℕ} {effect : Effect T P} {notification : Notification} :
      op.run cfg q pick = some (.leaves effect notification q') → effect.result = answer →
      Answers cfg q op answer q'
  | late {frame : Thread T P} {q₁ : Queue T P} {effect : Effect T P}
      {notification : Notification} :
      op.run cfg q 0 = some (.blocks frame q₁) →
      frame.resume cfg q₁ .timeout 0 = some (.leaves effect notification q') →
      effect.result = answer → Answers cfg q op answer q'

/-- On a quiet queue with room a push is accepted. -/
theorem answers_pushed {item : T} {priority : P} {timeout : ℤ} (hquiet : q.Quiet)
    (hopen : q.closed = false) (hroom : cfg.maxSize = 0 ∨ q.size cfg < cfg.maxSize) :
    Answers cfg q (.push item priority timeout) (.pushed true)
      (q.insert cfg item priority) := by
  have hfull : ¬(0 < cfg.maxSize ∧ cfg.maxSize ≤ q.size cfg) := by omega
  have hrun : (Op.push item priority timeout).run cfg q 0 =
      some (.leaves (accepted cfg item priority) .oneNotEmpty (q.insert cfg item priority)) := by
    simp only [Op.run, pushImpl, hopen, hquiet.producer, Bool.and_false, Bool.false_eq_true,
      if_false, size_claimProducer, hfull, pushTail, Bool.not_true, Bool.false_or,
      releaseProducer_claimProducer fun _ => hquiet.producer]
  exact .atOnce hrun rfl

/-- On a quiet queue a push is refused when the queue is closed, or full and the timeout
ends. -/
theorem answers_refused {item : T} {priority : P} {timeout : ℤ} (hquiet : q.Quiet)
    (h : q.closed = true ∨ 0 < cfg.maxSize ∧ cfg.maxSize ≤ q.size cfg ∧ 0 ≤ timeout) :
    Answers cfg q (.push item priority timeout) (.pushed false) q := by
  have hrelease : (q.claimProducer cfg).releaseProducer cfg.mode.singleProducer = q :=
    releaseProducer_claimProducer fun _ => hquiet.producer
  by_cases hclosed : q.closed = true
  · have hrun : (Op.push item priority timeout).run cfg q 0 =
        some (.leaves { result := .pushed false } .none q) := by
      simp only [Op.run, pushImpl, hclosed, if_true]
    exact .atOnce hrun rfl
  · obtain ⟨hbound, hsize, htimeout⟩ := h.resolve_left hclosed
    have hopen : q.closed = false := by simpa using hclosed
    have hwait : waitForNotFull cfg (q.claimProducer cfg) timeout =
        if timeout = 0 then some false else none :=
      waitForNotFull_of_full (by simpa using hsize) (by simpa using hopen)
    have hfull : 0 < cfg.maxSize ∧ cfg.maxSize ≤ q.size cfg := ⟨hbound, hsize⟩
    rcases htimeout.eq_or_lt with rfl | hpos
    · have hrun : (Op.push item priority 0).run cfg q 0 =
          some (.leaves { result := .pushed false } .none q) := by
        simp only [Op.run, pushImpl, hopen, hquiet.producer, Bool.and_false, Bool.false_eq_true,
          if_false, size_claimProducer, hfull, hwait, pushTail, Bool.not_false, Bool.true_or,
          if_true, hrelease, and_self]
      exact .atOnce hrun rfl
    · have hne : timeout ≠ 0 := hpos.ne'
      have hstill : resumeNotFull cfg (q.claimProducer cfg) timeout .timeout =
          some false := by
        rw [resumeNotFull_of_full (by simpa using ⟨hsize, hopen⟩), if_pos ⟨hpos, rfl⟩]
      have hrun : (Op.push item priority timeout).run cfg q 0 =
          some (.blocks (.waitsNotFull item priority timeout cfg.mode.singleProducer false)
            (q.claimProducer cfg)) := by
        simp only [Op.run, pushImpl, hopen, hquiet.producer, Bool.and_false,
          Bool.false_eq_true, if_false, size_claimProducer, hfull, hwait, hne, and_self, if_true]
      have hresume : (Thread.waitsNotFull item priority timeout cfg.mode.singleProducer
          false).resume cfg (q.claimProducer cfg) .timeout 0 =
            some (.leaves { result := .pushed false } .none q) := by
        simp only [Thread.resume, Wake.possible, hpos, decide_true, if_true, resumePush, hstill,
          pushTail, Bool.not_false, Bool.true_or, hrelease]
      exact .late hrun hresume rfl

/-- On a quiet queue a pop returns the item that it takes. -/
theorem answers_popped {pick : ℕ} {timeout : ℤ} {effect : Effect T P} (hquiet : q.Quiet)
    (htake : takeItem cfg q pick = some (effect, q')) :
    Answers cfg q (.pop timeout) effect.result q' := by
  have hempty : q.empty cfg = false := by
    rw [Queue.empty_eq_false, (takes_of_takeItem htake).size]
    omega
  have hrun : (Op.pop timeout : Op T P).run cfg q pick =
      some (.leaves effect .oneNotFull q') := by
    simp only [Op.run, popImpl, hempty, Bool.and_false, Bool.false_eq_true, if_false,
      hquiet.consumer, empty_claimConsumer, Bool.false_and, popTail, Bool.not_true,
      releaseConsumer_claimConsumer fun _ => hquiet.consumer, htake, Option.map_some]
  exact .atOnce hrun rfl

/-- On a quiet queue a pop returns nothing at the end of a closed queue or of the timeout.
With a positive timeout the lone caller waits first, since nobody will push, and then runs out
of time. -/
theorem answers_finished {timeout : ℤ} (hquiet : q.Quiet) (hsize : q.size cfg = 0)
    (h : q.closed = true ∨ 0 ≤ timeout) :
    Answers cfg q (.pop timeout) (.popped none) q := by
  have hempty : q.empty cfg = true := Queue.empty_eq_true.mpr hsize
  have hrelease : (q.claimConsumer cfg).releaseConsumer cfg.mode.singleConsumer = q :=
    releaseConsumer_claimConsumer fun _ => hquiet.consumer
  by_cases hclosed : q.closed = true
  · have hrun : (Op.pop timeout : Op T P).run cfg q 0 =
        some (.leaves { result := .popped none } .none q) := by
      simp only [Op.run, popImpl, hclosed, hempty, Bool.and_self, if_true]
    exact .atOnce hrun rfl
  · have hopen : q.closed = false := by simpa using hclosed
    rcases (h.resolve_left hclosed).eq_or_lt with rfl | hpos
    · have hrun : (Op.pop 0 : Op T P).run cfg q 0 =
          some (.leaves { result := .popped none } .none q) := by
        simp only [Op.run, popImpl, hopen, hempty, Bool.false_and, Bool.false_eq_true, if_false,
          hquiet.consumer, Bool.and_false, empty_claimConsumer, closed_claimConsumer,
          Bool.not_false, Bool.and_self, if_true, popTail, hrelease]
      exact .atOnce hrun rfl
    · have hne : timeout ≠ 0 := hpos.ne'
      have hrun : (Op.pop timeout : Op T P).run cfg q 0 =
          some (.blocks (.waitsNotEmpty timeout cfg.mode.singleConsumer false)
            (q.claimConsumer cfg)) := by
        simp only [Op.run, popImpl, hopen, hempty, Bool.false_and, Bool.false_eq_true, if_false,
          hquiet.consumer, Bool.and_false, empty_claimConsumer, closed_claimConsumer,
          Bool.not_false, Bool.and_self, if_true, hne]
      have hresume : (Thread.waitsNotEmpty timeout cfg.mode.singleConsumer false :
          Thread T P).resume cfg (q.claimConsumer cfg) .timeout 0 =
            some (.leaves { result := .popped none } .none q) := by
        simp only [Thread.resume, Wake.possible, hpos, decide_true, if_true, resumePop,
          empty_claimConsumer, closed_claimConsumer, hempty, hopen, Bool.not_true, Bool.or_self,
          Bool.false_eq_true, if_false, popTail, hrelease, Bool.not_false]
      exact .late hrun hresume rfl

/-- Whatever the contract allows a lone caller may be answered, except a throw: that needs
another thread inside the same wait. -/
theorem exists_answers {x' : Store T P} (hquiet : q.Quiet)
    (hspec : Contract cfg q.store op answer x') (hthrew : ∀ what, answer ≠ .threw what) :
    ∃ q', Answers cfg q op answer q' ∧ q'.Quiet ∧ q'.store = x' := by
  cases hspec with
  | pushed hopen hroom =>
      rw [size_store] at hroom
      refine ⟨_, answers_pushed hquiet hopen hroom, ⟨?_, ?_⟩, store_insert cfg q _ _⟩
      · rw [producerActive_insert, hquiet.producer]
      · rw [consumerActive_insert, hquiet.consumer]
  | refused h =>
      rw [size_store] at h
      exact ⟨q, answers_refused hquiet h, hquiet, rfl⟩
  | popped htakes =>
      obtain ⟨pick, effect, q', htake, hresult, hstore⟩ := exists_takeItem_of_takes htakes
      obtain ⟨-, hproducer, hconsumer⟩ := (takes_of_takeItem htake).frame
      exact ⟨q', hresult ▸ answers_popped hquiet htake,
        ⟨hproducer.trans hquiet.producer, hconsumer.trans hquiet.consumer⟩, hstore⟩
  | finished hsize h =>
      rw [size_store] at hsize
      exact ⟨q, answers_finished hquiet hsize h, hquiet, rfl⟩
  | closes => exact ⟨_, .atOnce (rfl : Op.run cfg q 0 .close = _) rfl,
      ⟨hquiet.producer, hquiet.consumer⟩, rfl⟩
  | clears =>
      refine ⟨_, .atOnce (rfl : Op.run cfg q 0 .clear = _) rfl,
        ⟨hquiet.producer, hquiet.consumer⟩, ?_⟩
      cases huse : cfg.usePriority <;> simp [Queue.store, Store.cleared, huse]
  | producerActive _ _ => exact (hthrew _ rfl).elim
  | consumerActive _ _ => exact (hthrew _ rfl).elim

end Sequential

section Alone

variable [Fintype ι] [DecidableEq ι] {cfg : Config} {q : Queue T P}

/-- A call that ends when nobody is waiting wakes nobody. -/
theorem deliver_outside (notification : Notification) :
    deliver notification none (fun _ : ι => (.outside : Thread T P)) =
      some fun _ => .outside := by
  cases notification with
  | none => rfl
  | oneNotEmpty | oneNotFull => simp [deliver, CondVar.notifyOne]
  | allNotFull | everybody => rfl

/-- When nobody is left in a call, a section leaves the others where they are: its notification
wakes no one. -/
theorem conclude_outside {threads : ι → Thread T P} {t : ι} {effect : Effect T P}
    {notification : Notification}
    (hthreads : Function.update threads t .outside = fun _ => .outside) (q₀ : Queue T P) :
    conclude ⟨q₀, threads⟩ t none (.leaves effect notification q) =
      some (effect, ⟨q, fun _ => .outside⟩) := by
  simp only [conclude, hthreads, deliver_outside, Option.map_some]

variable [LT P] [DecidableLT P] {q' : Queue T P} {op : Op T P} {answer : Result T}

/-- A lone call is a run of one section, or of two when it waits until its timeout. -/
theorem Answers.run (h : Answers cfg q op answer q') (hblocked : answer ≠ .blocked) (t : ι) :
    ∃ trace, (machine cfg ι T P).Run ⟨q, fun _ => .outside⟩ trace ⟨q', fun _ => .outside⟩ ∧
      trace.flatMap view = [.invoke t op, .respond t answer] := by
  have hself : Function.update (fun _ : ι => (.outside : Thread T P)) t .outside =
      fun _ => .outside := Function.update_eq_self t _
  have hanswers : answers (P := P) t answer = [.respond t answer] :=
    answers_of_ne_blocked t hblocked
  cases h with
  | @atOnce pick effect notification hrun hresult =>
      have hstep : (machine cfg ι T P).step ⟨q, fun _ => .outside⟩ (.call t op pick none) =
          some (effect, ⟨q', fun _ => .outside⟩) := by
        simp only [machine, step, hrun, Option.bind_some, conclude_outside hself]
      refine ⟨_, .single hstep, ?_⟩
      simp [view, hresult, hanswers]
  | @late frame q₁ effect notification hrun hresume hresult =>
      have hwaits : (machine cfg ι T P).step ⟨q, fun _ => .outside⟩ (.call t op 0 none) =
          some ({ result := .blocked },
            ⟨q₁, Function.update (fun _ => .outside) t frame⟩) := by
        simp only [machine, step, hrun, Option.bind_some, conclude]
      have hends : (machine cfg ι T P).step ⟨q₁, Function.update (fun _ => .outside) t frame⟩
          (.resume t .timeout 0 none) = some (effect, ⟨q', fun _ => .outside⟩) := by
        simp only [machine, step, Function.update_self, hresume, Option.bind_some]
        exact conclude_outside (by rw [Function.update_idem, hself]) q₁
      refine ⟨_, (Machine.Run.single hwaits).snoc hends, ?_⟩
      simp [view, hresult, hanswers]

/-- Calls one after the other may answer whatever the contract allows.  This is the direction
that keeps the contract from being too weak. -/
theorem exists_run_of_legal {calls : List (ι × Op T P × Result T)} {x' : Store T P}
    (hthrew : ∀ c ∈ calls, ∀ what, c.2.2 ≠ .threw what) (hquiet : q.Quiet)
    (h : Legal (Contract cfg) q.store calls x') :
    ∃ trace q', (machine cfg ι T P).Run ⟨q, fun _ => .outside⟩ trace ⟨q', fun _ => .outside⟩ ∧
      trace.flatMap view = sequential calls ∧ q'.store = x' := by
  induction calls generalizing q with
  | nil =>
      cases h
      exact ⟨[], q, .refl, rfl, rfl⟩
  | cons c calls ih =>
      obtain _ | ⟨hspec, hrest⟩ := h
      rename_i x₁ t op answer
      obtain ⟨q₁, hanswers, hquiet₁, rfl⟩ :=
        exists_answers hquiet hspec (hthrew _ List.mem_cons_self)
      obtain ⟨trace, hrun, hview⟩ := hanswers.run hspec.ne_blocked t
      obtain ⟨trace', q', hrun', hview', hstore⟩ :=
        ih (fun c hc => hthrew c (List.mem_cons_of_mem _ hc)) hquiet₁ hrest
      refine ⟨trace ++ trace', q', hrun.trans hrun', ?_, hstore⟩
      rw [List.flatMap_append, hview, hview']
      rfl

/-- **The queue is linearizable**, for any number of threads, any bound, mode and timeouts,
and any interleaving.  In what its callers see of a run, every call is answered as `Contract`
allows of a store that all of them share, and carried out at one moment between its beginning
and its end; the store they leave is what the members of the queue stand for.  And the
contract is exact: calls one after the other, none of them a second producer or consumer, can
be answered so if and only if it allows them. -/
theorem linearizable (cfg : Config) :
    (∀ (trace : List (Event ι T P × Effect T P)) (s : State ι T P),
      (machine cfg ι T P).Execution trace s →
        Linear (Contract cfg) (fun _ => none) Store.fresh (trace.flatMap view)
          s.pending s.q.store) ∧
    ∀ (calls : List (ι × Op T P × Result T)) (x : Store T P),
      (∀ c ∈ calls, ∀ what, c.2.2 ≠ .threw what) →
        ((∃ (trace : List (Event ι T P × Effect T P)) (s : State ι T P),
          (machine cfg ι T P).Execution trace s ∧ trace.flatMap view = sequential calls ∧
            s.q.store = x) ↔
          Legal (Contract cfg) Store.fresh calls x) := by
  have hlinear (trace : List (Event ι T P × Effect T P)) (s : State ι T P)
      (h : (machine cfg ι T P).Execution trace s) :
      Linear (Contract cfg) (fun _ => none) Store.fresh (trace.flatMap view)
        s.pending s.q.store := by
    obtain ⟨x, hlinear, rfl⟩ := h.linear view State.pending (fun s x => s.q.store = x)
      (fun s hs => by subst hs; exact ⟨rfl, rfl⟩)
      (fun s e effect s' x hreach hx hs => ⟨_, hx ▸ step_linear hreach hs, rfl⟩)
    exact hlinear
  refine ⟨hlinear, fun calls x hthrew => ⟨?_, fun hlegal => ?_⟩⟩
  · rintro ⟨trace, s, hexec, hview, rfl⟩
    have hhistory := hlinear trace s hexec
    rw [hview] at hhistory
    exact ((linear_sequential rfl).mp hhistory).2
  · obtain ⟨trace, q', hrun, hview, hstore⟩ := exists_run_of_legal hthrew
      (q := (initial : State ι T P).q) ⟨rfl, rfl⟩ hlegal
    exact ⟨trace, _, ⟨initial, rfl, hrun⟩, hview, hstore⟩

/-- A push that has to wait for a pop is answered after it, and the last push not at all. -/
theorem linearizable_blockedProducer :
    Linear (Contract ⟨false, .multiProducerMultiConsumer, 1⟩) (fun _ => none) Store.fresh
      [.invoke false (.push 7 0 (-1)), .respond false (.pushed true),
        .invoke true (.push 8 0 (-1)),
        .invoke false (.pop 0), .respond false (.popped (some 7)),
        .respond true (.pushed true),
        .invoke false (.push 9 0 0), .respond false (.pushed false)]
      blockedProducerRun.2.pending blockedProducerRun.2.q.store :=
  (linearizable _).1 _ _ blockedProducer_execution

end Alone

end PcQueue
