import CppProfessional.PcQueue.Model

/-!
# What one critical section of the queue can do

`Move cfg s t effect s'` lists the possible sections of thread `t`: for each of
`push` and `pop` the throw, the first block, the block after a wake-up that found
the predicate false, the refusal and the success, and then `close` and `clear`.
A section that starts with the call and a section that resumes after a wait end
in the same ways, so they share a constructor; `Pushes` and `Pops` say which of
the two it is and which activity flag the frame has to release.

`step_move` is the only place where the code of the methods is unfolded for the
safety results; every invariant below is a case analysis of `Move`.

What a constructor leaves out is as much a part of it as what it says.  The refusal of a push
does not say whether the queue was full or had been closed, since no invariant depends on it;
the success says that there was room, which the capacity bound rests on, and that the queue was
open, on which everything about `close` rests.
-/

namespace PcQueue

open Transition

universe u v w

variable {ι : Type u} {T : Type v} {P : Type w}

/-! ### Frame lemmas of the queue operations

Claiming and releasing an activity flag concerns one member.  The lemmas say so for each
of the other ones, and `simp` uses them. -/

section Frame

variable (cfg : Config) (q : Queue T P) (b : Bool)

@[simp] theorem closed_claimProducer : (q.claimProducer cfg).closed = q.closed := by
  unfold Queue.claimProducer; split <;> rfl

@[simp] theorem size_claimProducer : (q.claimProducer cfg).size cfg = q.size cfg := by
  unfold Queue.claimProducer; split <;> rfl

@[simp] theorem queue_claimProducer : (q.claimProducer cfg).queue = q.queue := by
  unfold Queue.claimProducer; split <;> rfl

@[simp] theorem priorityQueue_claimProducer :
    (q.claimProducer cfg).priorityQueue = q.priorityQueue := by
  unfold Queue.claimProducer; split <;> rfl

@[simp] theorem consumerActive_claimProducer :
    (q.claimProducer cfg).consumerActive = q.consumerActive := by
  unfold Queue.claimProducer; split <;> rfl

theorem producerActive_claimProducer :
    (q.claimProducer cfg).producerActive =
      (cfg.mode.singleProducer || q.producerActive) := by
  unfold Queue.claimProducer; split <;> simp_all

@[simp] theorem closed_claimConsumer : (q.claimConsumer cfg).closed = q.closed := by
  unfold Queue.claimConsumer; split <;> rfl

@[simp] theorem size_claimConsumer : (q.claimConsumer cfg).size cfg = q.size cfg := by
  unfold Queue.claimConsumer; split <;> rfl

@[simp] theorem empty_claimConsumer : (q.claimConsumer cfg).empty cfg = q.empty cfg := by
  unfold Queue.claimConsumer; split <;> rfl

@[simp] theorem queue_claimConsumer : (q.claimConsumer cfg).queue = q.queue := by
  unfold Queue.claimConsumer; split <;> rfl

@[simp] theorem priorityQueue_claimConsumer :
    (q.claimConsumer cfg).priorityQueue = q.priorityQueue := by
  unfold Queue.claimConsumer; split <;> rfl

@[simp] theorem producerActive_claimConsumer :
    (q.claimConsumer cfg).producerActive = q.producerActive := by
  unfold Queue.claimConsumer; split <;> rfl

theorem consumerActive_claimConsumer :
    (q.claimConsumer cfg).consumerActive =
      (cfg.mode.singleConsumer || q.consumerActive) := by
  unfold Queue.claimConsumer; split <;> simp_all

@[simp] theorem closed_releaseProducer : (q.releaseProducer b).closed = q.closed := by
  cases b <;> rfl

@[simp] theorem size_releaseProducer : (q.releaseProducer b).size cfg = q.size cfg := by
  cases b <;> rfl

@[simp] theorem queue_releaseProducer : (q.releaseProducer b).queue = q.queue := by
  cases b <;> rfl

@[simp] theorem priorityQueue_releaseProducer :
    (q.releaseProducer b).priorityQueue = q.priorityQueue := by
  cases b <;> rfl

@[simp] theorem consumerActive_releaseProducer :
    (q.releaseProducer b).consumerActive = q.consumerActive := by
  cases b <;> rfl

theorem producerActive_releaseProducer :
    (q.releaseProducer b).producerActive = (!b && q.producerActive) := by
  cases b <;> rfl

@[simp] theorem closed_releaseConsumer : (q.releaseConsumer b).closed = q.closed := by
  cases b <;> rfl

@[simp] theorem size_releaseConsumer : (q.releaseConsumer b).size cfg = q.size cfg := by
  cases b <;> rfl

@[simp] theorem empty_releaseConsumer : (q.releaseConsumer b).empty cfg = q.empty cfg := by
  cases b <;> rfl

@[simp] theorem queue_releaseConsumer : (q.releaseConsumer b).queue = q.queue := by
  cases b <;> rfl

@[simp] theorem priorityQueue_releaseConsumer :
    (q.releaseConsumer b).priorityQueue = q.priorityQueue := by
  cases b <;> rfl

@[simp] theorem producerActive_releaseConsumer :
    (q.releaseConsumer b).producerActive = q.producerActive := by
  cases b <;> rfl

theorem consumerActive_releaseConsumer :
    (q.releaseConsumer b).consumerActive = (!b && q.consumerActive) := by
  cases b <;> rfl

variable (item : T) (priority : P)

@[simp] theorem closed_insert : (q.insert cfg item priority).closed = q.closed := by
  unfold Queue.insert; split <;> rfl

@[simp] theorem size_insert : (q.insert cfg item priority).size cfg = q.size cfg + 1 := by
  unfold Queue.insert Queue.size; split <;> simp

@[simp] theorem queue_insert :
    (q.insert cfg item priority).queue = q.queue ++ (accepted cfg item priority).enqueued := by
  unfold Queue.insert accepted; split <;> simp_all

@[simp] theorem priorityQueue_insert :
    (q.insert cfg item priority).priorityQueue =
      q.priorityQueue ++ (accepted cfg item priority).inserted := by
  unfold Queue.insert accepted; split <;> simp_all

@[simp] theorem producerActive_insert :
    (q.insert cfg item priority).producerActive = q.producerActive := by
  unfold Queue.insert; split <;> rfl

@[simp] theorem consumerActive_insert :
    (q.insert cfg item priority).consumerActive = q.consumerActive := by
  unfold Queue.insert; split <;> rfl

variable {cfg q}

/-- Claiming and releasing in one section restores the flag, because the section
goes on only when nobody else holds it. -/
theorem releaseProducer_claimProducer
    (hfree : cfg.mode.singleProducer = true → q.producerActive = false) :
    (q.claimProducer cfg).releaseProducer cfg.mode.singleProducer = q := by
  unfold Queue.claimProducer Queue.releaseProducer
  split
  · next h => rw [← hfree h]
  · rfl

theorem releaseConsumer_claimConsumer
    (hfree : cfg.mode.singleConsumer = true → q.consumerActive = false) :
    (q.claimConsumer cfg).releaseConsumer cfg.mode.singleConsumer = q := by
  unfold Queue.claimConsumer Queue.releaseConsumer
  split
  · next h => rw [← hfree h]
  · rfl

end Frame

/-! ### Taking an item

An item is taken from the front of the plain container, or from any position of the
other one that holds a greatest item.  `Takes` covers both. -/

section Take

variable [LT P] [DecidableLT P] {cfg : Config} {q q' : Queue T P} {pick : ℕ}
  {effect : Effect T P}

theorem takeTop_eq_some {items rest : List (PriorityItem T P)} {top : PriorityItem T P}
    (h : takeTop pick items = some (top, rest)) :
    items[pick]? = some top ∧ (∀ other ∈ items, ¬ top < other) ∧
      rest = items.eraseIdx pick := by
  unfold takeTop at h
  split at h
  · cases h
  · next x hx =>
    simp only [Option.ite_none_right_eq_some, Option.some.injEq, Prod.mk.injEq,
      List.all_eq_true, Bool.not_eq_eq_eq_not, Bool.not_true, decide_eq_false_iff_not] at h
    obtain ⟨hmax, rfl, rfl⟩ := h
    exact ⟨hx, hmax, rfl⟩

/-- The two ways an item leaves: the front of the plain container, or a greatest
element of the priority queue. -/
inductive Takes (cfg : Config) (q : Queue T P) : Effect T P → Queue T P → Prop
  | front {item : T} {rest : List T} : cfg.usePriority = false →
      q.queue = item :: rest →
      Takes cfg q { result := .popped (some item), dequeued := [item] }
        { q with queue := rest }
  | top {pick : ℕ} {top : PriorityItem T P} : cfg.usePriority = true →
      q.priorityQueue[pick]? = some top → (∀ other ∈ q.priorityQueue, ¬ top < other) →
      Takes cfg q { result := .popped (some top.data), extracted := [top] }
        { q with priorityQueue := q.priorityQueue.eraseIdx pick }

/-- The item that is taken is the first one, or one that no stored item exceeds; the rest
stays. -/
theorem takes_of_takeItem (h : takeItem cfg q pick = some (effect, q')) :
    Takes cfg q effect q' := by
  unfold takeItem at h
  split at h
  · next huse =>
    simp only [Option.map_eq_some_iff, Prod.exists, Prod.mk.injEq] at h
    obtain ⟨top, rest, htop, rfl, rfl⟩ := h
    obtain ⟨hpick, hmax, rfl⟩ := takeTop_eq_some htop
    exact Takes.top huse hpick hmax
  · next huse =>
    split at h
    · cases h
    · next item rest hq =>
      cases h
      exact Takes.front (by simpa using huse) hq

omit [DecidableLT P] in
theorem Takes.size (h : Takes cfg q effect q') : q.size cfg = q'.size cfg + 1 := by
  cases h with
  | front huse hq => simp [Queue.size, huse, hq]
  | top huse hpick _ =>
      obtain ⟨hlt, -⟩ := List.getElem?_eq_some_iff.mp hpick
      simp only [Queue.size, huse, if_true, List.length_eraseIdx, hlt]
      omega

omit [DecidableLT P] in
theorem Takes.frame (h : Takes cfg q effect q') :
    q'.closed = q.closed ∧ q'.producerActive = q.producerActive ∧
      q'.consumerActive = q.consumerActive := by
  cases h <;> exact ⟨rfl, rfl, rfl⟩

omit [DecidableLT P] in
theorem Takes.result (h : Takes cfg q effect q') :
    ∃ item, effect.result = .popped (some item) := by
  cases h <;> exact ⟨_, rfl⟩

end Take

/-! ### The moves

One constructor for each way in which a section can end, with its guards.  The two
beginnings of a section, a call and a wake-up, are not told apart any more. -/

/-- Thread `t` runs `pushImpl` with the given item: from its start, or after the
wait.  The flag is the `isProducerActive` of a resumed frame; from the start of
the section nothing is left to release at its end. -/
inductive Pushes (threads : ι → Thread T P) (t : ι) : T → P → Bool → Prop
  | entering {item : T} {priority : P} : threads t = .outside →
      Pushes threads t item priority false
  | resuming {item : T} {priority : P} {timeout : ℤ} {isProducerActive notified : Bool} :
      threads t = .waitsNotFull item priority timeout isProducerActive notified →
      Pushes threads t item priority isProducerActive

/-- Thread `t` runs `popImpl`, from its start or after the wait. -/
inductive Pops (threads : ι → Thread T P) (t : ι) : Bool → Prop
  | entering : threads t = .outside → Pops threads t false
  | resuming {timeout : ℤ} {isConsumerActive notified : Bool} :
      threads t = .waitsNotEmpty timeout isConsumerActive notified →
      Pops threads t isConsumerActive

section Waits

variable {cfg : Config} {q : Queue T P} {timeout : ℤ} {wake : Wake}

theorem waitForNotFull_of_full (hfull : cfg.maxSize ≤ q.size cfg) (hopen : q.closed = false) :
    waitForNotFull cfg q timeout = if timeout = 0 then some false else none :=
  if_pos ⟨hfull, hopen⟩

/-- A thread that runs again finds the queue full: `wait_for` may have run out of time. -/
theorem resumeNotFull_of_full (h : cfg.maxSize ≤ q.size cfg ∧ q.closed = false) :
    resumeNotFull cfg q timeout wake =
      if 0 < timeout ∧ wake = .timeout then some false else none := by
  have hpredicate : (decide (q.size cfg < cfg.maxSize) || q.closed) = false := by
    simpa using h
  simp only [resumeNotFull, hpredicate, Bool.false_eq_true, if_false, ite_and]

/-- A thread that runs again finds a place, or a closed queue. -/
theorem resumeNotFull_of_room (h : ¬ (cfg.maxSize ≤ q.size cfg ∧ q.closed = false)) :
    resumeNotFull cfg q timeout wake = some (if 0 < timeout then true else !q.closed) := by
  have hpredicate : (decide (q.size cfg < cfg.maxSize) || q.closed) = true := by
    rw [not_and_or, Nat.not_le, Bool.not_eq_false] at h
    simpa using h
  simp only [resumeNotFull, hpredicate, if_true]
  split <;> rfl

end Waits

section Moves

variable [Fintype ι] [DecidableEq ι] [LT P]

/-- Everything a critical section of thread `t` can do. -/
inductive Move (cfg : Config) (s : State ι T P) (t : ι) :
    Effect T P → State ι T P → Prop
  | pushThrows {what : String} : s.threads t = .outside → s.q.closed = false →
      cfg.mode.singleProducer = true → s.q.producerActive = true →
      Move cfg s t { result := .threw what }
        ⟨s.q, Function.update s.threads t .outside⟩
  | pushBlocks {item : T} {priority : P} {timeout : ℤ} : s.threads t = .outside →
      s.q.closed = false →
      (cfg.mode.singleProducer = true → s.q.producerActive = false) →
      0 < cfg.maxSize → cfg.maxSize ≤ s.q.size cfg → timeout ≠ 0 →
      Move cfg s t { result := .blocked }
        ⟨s.q.claimProducer cfg, Function.update s.threads t
          (.waitsNotFull item priority timeout cfg.mode.singleProducer false)⟩
  | pushRewaits {item : T} {priority : P} {timeout : ℤ}
      {isProducerActive notified : Bool} :
      s.threads t = .waitsNotFull item priority timeout isProducerActive notified →
      s.q.closed = false → cfg.maxSize ≤ s.q.size cfg →
      Move cfg s t { result := .blocked }
        ⟨s.q, Function.update s.threads t
          (.waitsNotFull item priority timeout isProducerActive false)⟩
  | pushRefused {item : T} {priority : P} {isProducerActive : Bool} :
      Pushes s.threads t item priority isProducerActive →
      s.q.closed = true ∨ cfg.maxSize ≤ s.q.size cfg →
      Move cfg s t { result := .pushed false }
        ⟨s.q.releaseProducer isProducerActive, Function.update s.threads t .outside⟩
  | pushAccepted {item : T} {priority : P} {isProducerActive : Bool}
      {heir : Option ι} {threads : ι → Thread T P} :
      Pushes s.threads t item priority isProducerActive →
      s.q.closed = false → cfg.maxSize = 0 ∨ s.q.size cfg < cfg.maxSize →
      notEmpty.notifyOne heir (Function.update s.threads t .outside) = some threads →
      Move cfg s t (accepted cfg item priority)
        ⟨(s.q.releaseProducer isProducerActive).insert cfg item priority, threads⟩
  | popThrows {what : String} : s.threads t = .outside →
      (s.q.closed && s.q.empty cfg) = false →
      cfg.mode.singleConsumer = true → s.q.consumerActive = true →
      Move cfg s t { result := .threw what }
        ⟨s.q, Function.update s.threads t .outside⟩
  | popBlocks {timeout : ℤ} : s.threads t = .outside →
      s.q.closed = false →
      (cfg.mode.singleConsumer = true → s.q.consumerActive = false) →
      s.q.size cfg = 0 → timeout ≠ 0 →
      Move cfg s t { result := .blocked }
        ⟨s.q.claimConsumer cfg, Function.update s.threads t
          (.waitsNotEmpty timeout cfg.mode.singleConsumer false)⟩
  | popRewaits {timeout : ℤ} {isConsumerActive notified : Bool} :
      s.threads t = .waitsNotEmpty timeout isConsumerActive notified →
      s.q.closed = false → s.q.size cfg = 0 →
      Move cfg s t { result := .blocked }
        ⟨s.q, Function.update s.threads t
          (.waitsNotEmpty timeout isConsumerActive false)⟩
  | popRefused {isConsumerActive : Bool} : Pops s.threads t isConsumerActive →
      s.q.size cfg = 0 →
      Move cfg s t { result := .popped none }
        ⟨s.q.releaseConsumer isConsumerActive, Function.update s.threads t .outside⟩
  | popTakes {isConsumerActive : Bool} {effect : Effect T P} {q : Queue T P}
      {heir : Option ι} {threads : ι → Thread T P} :
      Pops s.threads t isConsumerActive →
      Takes cfg (s.q.releaseConsumer isConsumerActive) effect q →
      notFull.notifyOne heir (Function.update s.threads t .outside) = some threads →
      Move cfg s t effect ⟨q, threads⟩
  | closes : s.threads t = .outside →
      Move cfg s t { result := .returned }
        ⟨{ s.q with closed := true },
          notFull.notifyAll (notEmpty.notifyAll (Function.update s.threads t .outside))⟩
  | clears {effect : Effect T P} {q : Queue T P} : s.threads t = .outside →
      clear cfg s.q = .leaves effect .allNotFull q →
      Move cfg s t effect
        ⟨q, notFull.notifyAll (Function.update s.threads t .outside)⟩

variable {cfg : Config} {s s' : State ι T P} {t : ι} {effect : Effect T P}
  {heir : Option ι}

/-- The end of a push: refused or accepted.  The hypotheses are what the two ways to get here
have in common: a failure has a reason, and after a success there is room unless the queue is
closed, which is tested again. -/
theorem move_of_pushTail {item : T} {priority : P} {isProducerActive success : Bool}
    (hpush : Pushes s.threads t item priority isProducerActive)
    (hfail : success = false → s.q.closed = true ∨ cfg.maxSize ≤ s.q.size cfg)
    (hroom : success = true →
      s.q.closed = true ∨ cfg.maxSize = 0 ∨ s.q.size cfg < cfg.maxSize)
    (h : conclude s t heir (pushTail cfg s.q item priority isProducerActive success) =
      some (effect, s')) : Move cfg s t effect s' := by
  unfold pushTail at h
  simp only [closed_releaseProducer] at h
  split at h
  · next hrefused =>
    simp only [conclude, deliver, Option.map_some, Option.some.injEq, Prod.mk.injEq] at h
    obtain ⟨rfl, rfl⟩ := h
    refine Move.pushRefused hpush ?_
    cases success with
    | false => exact hfail rfl
    | true => exact Or.inl (by simpa using hrefused)
  · next haccepted =>
    obtain ⟨rfl, hopen⟩ : success = true ∧ s.q.closed = false := by
      simpa using haccepted
    simp only [conclude, deliver, Option.map_eq_some_iff, Prod.mk.injEq] at h
    obtain ⟨threads, hthreads, rfl, rfl⟩ := h
    exact Move.pushAccepted hpush hopen ((hroom rfl).resolve_left (by simp [hopen])) hthreads

/-- A push from its beginning throws, blocks, or ends. -/
theorem move_of_pushImpl {item : T} {priority : P} {timeout : ℤ}
    (ht : s.threads t = .outside)
    (h : conclude s t heir (pushImpl cfg s.q item priority timeout) = some (effect, s')) :
    Move cfg s t effect s' := by
  unfold pushImpl at h
  split at h
  · next hclosed =>
    simp only [conclude, deliver, Option.map_some, Option.some.injEq, Prod.mk.injEq] at h
    obtain ⟨rfl, rfl⟩ := h
    exact Move.pushRefused (Pushes.entering ht : Pushes s.threads t item priority false)
      (Or.inl hclosed)
  · next hopen =>
    have hopen : s.q.closed = false := by simpa using hopen
    split at h
    · next hbusy =>
      obtain ⟨hmode, hactive⟩ : cfg.mode.singleProducer = true ∧
          s.q.producerActive = true := by simpa using hbusy
      simp only [conclude, deliver, Option.map_some, Option.some.injEq,
        Prod.mk.injEq] at h
      obtain ⟨rfl, rfl⟩ := h
      exact Move.pushThrows ht hopen hmode hactive
    · next hidle =>
      have hfree : cfg.mode.singleProducer = true → s.q.producerActive = false := by
        intro hmode
        simpa [hmode] using hidle
      -- a flag that the section sets and clears is back where it was
      have hrelease : ∀ success, pushTail cfg (s.q.claimProducer cfg) item priority
          cfg.mode.singleProducer success = pushTail cfg s.q item priority false success := by
        intro success
        unfold pushTail
        rw [releaseProducer_claimProducer hfree]
        rfl
      simp only [size_claimProducer, hrelease] at h
      split at h
      · next hwait =>
        -- the thread blocks: the queue is bounded and full, and the timeout is not zero
        split at hwait
        · next hfull =>
          rw [waitForNotFull_of_full (by simpa using hfull.2) (by simpa using hopen)] at hwait
          split at hwait
          · cases hwait
          · next htimeout =>
            simp only [conclude, Option.some.injEq, Prod.mk.injEq] at h
            obtain ⟨rfl, rfl⟩ := h
            exact Move.pushBlocks ht hopen hfree hfull.1 hfull.2 htimeout
        · cases hwait
      · next success hwait =>
        split at hwait
        · next hfull =>
          rw [waitForNotFull_of_full (by simpa using hfull.2) (by simpa using hopen)] at hwait
          split at hwait
          · cases hwait
            exact move_of_pushTail (.entering ht) (fun _ => Or.inr hfull.2)
              (fun htrue => by cases htrue) h
          · cases hwait
        · next hroom =>
          cases hwait
          exact move_of_pushTail (.entering ht) (fun hfalse => by cases hfalse)
            (fun _ => Or.inr (by omega)) h

/-- A push that runs again blocks once more or ends; it cannot throw, since the test of the
flag is behind it. -/
theorem move_of_resumePush {item : T} {priority : P} {timeout : ℤ}
    {isProducerActive notified : Bool} {wake : Wake}
    (ht : s.threads t = .waitsNotFull item priority timeout isProducerActive notified)
    (h : conclude s t heir
      (resumePush cfg s.q item priority timeout isProducerActive wake) =
        some (effect, s')) : Move cfg s t effect s' := by
  unfold resumePush at h
  by_cases hfull : cfg.maxSize ≤ s.q.size cfg ∧ s.q.closed = false
  · rw [resumeNotFull_of_full hfull] at h
    by_cases hexpired : 0 < timeout ∧ wake = .timeout
    · rw [if_pos hexpired] at h
      exact move_of_pushTail (.resuming ht) (fun _ => Or.inr hfull.1)
        (fun htrue => by cases htrue) h
    · rw [if_neg hexpired] at h
      simp only [conclude, Option.some.injEq, Prod.mk.injEq] at h
      obtain ⟨rfl, rfl⟩ := h
      exact Move.pushRewaits ht hfull.2 hfull.1
  · -- the predicate is true of a closed queue as well, and the tail sorts that out
    rw [resumeNotFull_of_room hfull] at h
    refine move_of_pushTail (.resuming ht) (fun hfalse => ?_) (fun _ => ?_) h
    · split at hfalse
      · cases hfalse
      · exact Or.inl (by simpa using hfalse)
    · rw [not_and_or, Bool.not_eq_false, Nat.not_le] at hfull
      exact hfull.symm.imp_right Or.inr

variable [DecidableLT P] {pick : ℕ}

/-- The end of a pop: refused because the container is empty, or an item leaves.  The last test
of `waitForNonEmpty` makes the two cases exclusive, whatever the wait returned. -/
theorem move_of_popTail {isConsumerActive success : Bool} {outcome : Outcome T P}
    (hpop : Pops s.threads t isConsumerActive)
    (hfail : success = false → s.q.size cfg = 0)
    (htail : popTail cfg s.q pick isConsumerActive success = some outcome)
    (h : conclude s t heir outcome = some (effect, s')) : Move cfg s t effect s' := by
  have hrefused (hsize : s.q.size cfg = 0)
      (houtcome : some (Outcome.leaves { result := .popped none } .none
        (s.q.releaseConsumer isConsumerActive)) = some outcome) :
      Move cfg s t effect s' := by
    cases houtcome
    simp only [conclude, deliver, Option.map_some, Option.some.injEq, Prod.mk.injEq] at h
    obtain ⟨rfl, rfl⟩ := h
    exact Move.popRefused hpop hsize
  unfold popTail at htail
  simp only [empty_releaseConsumer] at htail
  cases hempty : s.q.empty cfg with
  | true =>
      simp only [hempty, if_true, Bool.not_false] at htail
      exact hrefused (Queue.empty_eq_true.mp hempty) htail
  | false =>
      cases success with
      | false =>
          simp only [hempty, Bool.false_eq_true, if_false, Bool.not_false, if_true] at htail
          exact hrefused (hfail rfl) htail
      | true =>
          simp only [hempty, Bool.false_eq_true, if_false, Bool.not_true,
            Option.map_eq_some_iff, Prod.exists] at htail
          obtain ⟨taken, q, htake, rfl⟩ := htail
          simp only [conclude, deliver, Option.map_eq_some_iff, Prod.mk.injEq] at h
          obtain ⟨threads, hthreads, rfl, rfl⟩ := h
          exact Move.popTakes hpop (takes_of_takeItem htake) hthreads

/-- A pop from its beginning throws, blocks, or ends. -/
theorem move_of_popImpl {timeout : ℤ} {outcome : Outcome T P}
    (ht : s.threads t = .outside)
    (hpop : popImpl cfg s.q timeout pick = some outcome)
    (h : conclude s t heir outcome = some (effect, s')) : Move cfg s t effect s' := by
  unfold popImpl at hpop
  split at hpop
  · next hover =>
    obtain ⟨-, hempty⟩ : s.q.closed = true ∧ s.q.empty cfg = true := by simpa using hover
    cases hpop
    simp only [conclude, deliver, Option.map_some, Option.some.injEq, Prod.mk.injEq] at h
    obtain ⟨rfl, rfl⟩ := h
    exact Move.popRefused (.entering ht) (Queue.empty_eq_true.mp hempty)
  · next hopen =>
    split at hpop
    · next hbusy =>
      obtain ⟨hmode, hactive⟩ : cfg.mode.singleConsumer = true ∧
          s.q.consumerActive = true := by simpa using hbusy
      cases hpop
      simp only [conclude, deliver, Option.map_some, Option.some.injEq,
        Prod.mk.injEq] at h
      obtain ⟨rfl, rfl⟩ := h
      exact Move.popThrows ht (by simpa using hopen) hmode hactive
    · next hidle =>
      have hfree : cfg.mode.singleConsumer = true → s.q.consumerActive = false := by
        intro hmode
        simpa [hmode] using hidle
      have hrelease : ∀ success, popTail cfg (s.q.claimConsumer cfg) pick
          cfg.mode.singleConsumer success = popTail cfg s.q pick false success := by
        intro success
        unfold popTail
        rw [releaseConsumer_claimConsumer hfree]
        rfl
      simp only [empty_claimConsumer, closed_claimConsumer, hrelease] at hpop
      split at hpop
      · next hwait =>
        obtain ⟨hempty, hclosed⟩ : s.q.empty cfg = true ∧ s.q.closed = false := by
          simpa using hwait
        have hsize := Queue.empty_eq_true.mp hempty
        split at hpop
        · exact move_of_popTail (.entering ht) (fun _ => hsize) hpop h
        · next htimeout =>
          cases hpop
          simp only [conclude, Option.some.injEq, Prod.mk.injEq] at h
          obtain ⟨rfl, rfl⟩ := h
          exact Move.popBlocks ht hclosed hfree hsize htimeout
      · exact move_of_popTail (.entering ht) (fun hfalse => by cases hfalse) hpop h

/-- A pop that runs again blocks once more or ends. -/
theorem move_of_resumePop {timeout : ℤ} {isConsumerActive notified : Bool} {wake : Wake}
    {outcome : Outcome T P}
    (ht : s.threads t = .waitsNotEmpty timeout isConsumerActive notified)
    (hpop : resumePop cfg s.q timeout pick isConsumerActive wake = some outcome)
    (h : conclude s t heir outcome = some (effect, s')) : Move cfg s t effect s' := by
  unfold resumePop at hpop
  split at hpop
  · exact move_of_popTail (.resuming ht) (fun hfalse => by cases hfalse) hpop h
  · next hpred =>
    obtain ⟨hempty, hclosed⟩ : s.q.empty cfg = true ∧ s.q.closed = false := by
      simpa using hpred
    have hsize := Queue.empty_eq_true.mp hempty
    split at hpop
    · exact move_of_popTail (.resuming ht) (fun _ => hsize) hpop h
    · cases hpop
      simp only [conclude, Option.some.injEq, Prod.mk.injEq] at h
      obtain ⟨rfl, rfl⟩ := h
      exact Move.popRewaits ht hclosed hsize

/-- **Inversion of a step**: a critical section is one of the moves.  The delivery of its
notification is part of the move, because whom it reaches decides what the waiting threads do
next. -/
theorem step_move {e : Event ι T P} (h : step cfg s e = some (effect, s')) :
    Move cfg s e.thread effect s' := by
  cases e with
  | call t op pick heir =>
      simp only [step] at h
      split at h
      · next ht =>
        obtain ⟨outcome, hrun, hend⟩ := Option.bind_eq_some_iff.mp h
        cases op with
        | push item priority timeout =>
            cases hrun
            exact move_of_pushImpl ht hend
        | pop timeout => exact move_of_popImpl ht hrun hend
        | close =>
            cases hrun
            simp only [PcQueue.close, conclude, deliver, Option.map_some, Option.some.injEq,
              Prod.mk.injEq] at hend
            obtain ⟨rfl, rfl⟩ := hend
            exact Move.closes ht
        | clear =>
            cases hrun
            simp only [PcQueue.clear, conclude, deliver, Option.map_some, Option.some.injEq,
              Prod.mk.injEq] at hend
            obtain ⟨rfl, rfl⟩ := hend
            exact Move.clears ht rfl
      · cases h
  | resume t wake pick heir =>
      obtain ⟨outcome, hresume, hend⟩ := Option.bind_eq_some_iff.mp h
      unfold Thread.resume at hresume
      split at hresume
      · cases hresume
      · next hthread =>
        split at hresume
        · exact move_of_resumePop hthread hresume hend
        · cases hresume
      · next hthread =>
        split at hresume
        · cases hresume
          exact move_of_resumePush hthread hend
        · cases hresume

end Moves

end PcQueue
