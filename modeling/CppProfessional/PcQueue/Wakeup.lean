import CppProfessional.PcQueue.Contents

/-!
# No wake-up of the queue is lost

`push` and `pop` notify one waiter each, while callers that never waited, timed
waits and spurious wake-ups compete for the same items and places.  The invariant
is a count: while a consumer sleeps un-notified on `notEmpty_`, at least `size()`
consumers have been notified and have not resumed; while a producer sleeps
un-notified on `notFull_`, at least `maxSize - size()` producers have.  After
`close` nobody sleeps.

Each move changes the two demands and the two sets of waiters by one of the rules
of `CondVar.Covered`.

The demand is a number and not a truth value.  With several items in the queue one pending
wake-up would not be enough: its consumer takes one item, and the next sleeper would stay
asleep beside the others.  What the source sends, one notification for each item pushed and
for each place freed, is just enough to keep the count up.
-/

namespace PcQueue

open Transition

universe u v w

variable {ι : Type u} {T : Type v} {P : Type w}

/-- A closed queue has no sleepers, and every demand is covered by wake-ups that
are under way. -/
structure NoLostWakeup [Fintype ι] (cfg : Config) (s : State ι T P) : Prop where
  notEmpty_open : ∀ u, notEmpty.asleep (s.threads u) = true → s.q.closed = false
  notEmpty_covered : notEmpty.Covered (s.q.size cfg) s.threads
  notFull_open : ∀ u, notFull.asleep (s.threads u) = true → s.q.closed = false
  notFull_covered : notFull.Covered (cfg.maxSize - s.q.size cfg) s.threads

/-! ### The two condition variables are independent

A thread sleeps on one of the two at a time, so a notification on one leaves the waiters
on the other alone.  What a section adds to the demand is on one side only; on the other
side the demand stays or goes down. -/

/-- A notification on one variable does not wake a thread that sleeps on the other. -/
theorem notFull_asleep_wake (p : Thread T P) :
    notFull.asleep (notEmpty.wake p) = notFull.asleep p := by
  cases p <;> rfl

theorem notFull_notified_wake (p : Thread T P) :
    notFull.notified (notEmpty.wake p) = notFull.notified p := by
  cases p <;> rfl

/-- A notification on one variable does not wake a thread that sleeps on the other. -/
theorem notEmpty_asleep_wake (p : Thread T P) :
    notEmpty.asleep (notFull.wake p) = notEmpty.asleep p := by
  cases p <;> rfl

theorem notEmpty_notified_wake (p : Thread T P) :
    notEmpty.notified (notFull.wake p) = notEmpty.notified p := by
  cases p <;> rfl

/-- A thread running `push` is not on `notEmpty_`. -/
theorem Pushes.not_notEmpty {threads : ι → Thread T P} {t : ι} {item : T} {priority : P}
    {isProducerActive : Bool} (h : Pushes threads t item priority isProducerActive) :
    notEmpty.notified (threads t) = false := by
  cases h with
  | entering ht => rw [ht]; rfl
  | resuming ht => rw [ht]; rfl

/-- A thread running `pop` is not on `notFull_`. -/
theorem Pops.not_notFull {threads : ι → Thread T P} {t : ι} {isConsumerActive : Bool}
    (h : Pops threads t isConsumerActive) : notFull.notified (threads t) = false := by
  cases h with
  | entering ht => rw [ht]; rfl
  | resuming ht => rw [ht]; rfl

variable [DecidableEq ι] {cfg : Config} {s s' : State ι T P} {t : ι} {effect : Effect T P}

/-- A sleeper after `t` moved to `p` is a sleeper from before, unless it is `t`. -/
theorem asleep_of_update {cv : CondVar (Thread T P)} {threads : ι → Thread T P}
    {p : Thread T P} {u : ι} (hu : cv.asleep (Function.update threads t p u) = true) :
    cv.asleep p = true ∨ cv.asleep (threads u) = true :=
  of_update (P := fun p => cv.asleep p = true) hu

variable [Fintype ι]

/-- **A section without notification.**  The thread may fall asleep only while
its predicate is false in an open queue; a notified thread that gives up found
nothing to take, or no place, or a closed queue. -/
theorem NoLostWakeup.update (h : NoLostWakeup cfg s) {q : Queue T P}
    (hclosed : q.closed = s.q.closed) (hsize : q.size cfg = s.q.size cfg)
    {p : Thread T P}
    (hnotEmpty : notEmpty.asleep p = true → s.q.closed = false ∧ s.q.size cfg = 0)
    (hconsumer : notEmpty.notified (s.threads t) = true → s.q.size cfg = 0)
    (hnotFull : notFull.asleep p = true →
      s.q.closed = false ∧ cfg.maxSize ≤ s.q.size cfg)
    (hproducer : notFull.notified (s.threads t) = true →
      s.q.closed = true ∨ cfg.maxSize ≤ s.q.size cfg) :
    NoLostWakeup cfg (⟨q, Function.update s.threads t p⟩ : State ι T P) where
  notEmpty_open u hu := by
    rw [hclosed]
    rcases asleep_of_update hu with hp | hbefore
    · exact (hnotEmpty hp).1
    · exact h.notEmpty_open u hbefore
  notEmpty_covered := by
    rw [hsize]
    refine h.notEmpty_covered.update (fun hp => (hnotEmpty hp).2) ?_
    cases hnotified : notEmpty.notified (s.threads t) with
    | true => exact Or.inl (hconsumer hnotified)
    | false => exact Or.inr (le_of_eq rfl)
  notFull_open u hu := by
    rw [hclosed]
    rcases asleep_of_update hu with hp | hbefore
    · exact (hnotFull hp).1
    · exact h.notFull_open u hbefore
  notFull_covered := by
    rw [hsize]
    intro u hu
    -- a sleeper on `notFull_` rules out the closed queue
    have hopen : s.q.closed = false := by
      rcases asleep_of_update hu with hp | hbefore
      · exact (hnotFull hp).1
      · exact h.notFull_open u hbefore
    have hcovered : notFull.Covered (cfg.maxSize - s.q.size cfg)
        (Function.update s.threads t p) := by
      refine h.notFull_covered.update
        (fun hp => Nat.sub_eq_zero_of_le (hnotFull hp).2) ?_
      cases hnotified : notFull.notified (s.threads t) with
      | true =>
          rcases hproducer hnotified with hclosed | hfull
          · rw [hopen] at hclosed
            cases hclosed
          · exact Or.inl (Nat.sub_eq_zero_of_le hfull)
      | false => exact Or.inr (le_of_eq rfl)
    exact hcovered u hu

variable [LT P]

/-- **One step keeps every wake-up.** An accepted push needs one more consumer and notifies
one, a pop one more producer.  A thread falls asleep only where it found nothing to do under
the lock, and a notified one that gives up found nothing to take, no room, or a closed queue.
The clauses that sleepers leave the queue open are needed for this last case: a closed queue
releases everybody, so nobody is left to be covered. -/
theorem move_noLostWakeup (h : Move cfg s t effect s') (hinv : NoLostWakeup cfg s) :
    NoLostWakeup cfg s' := by
  cases h with
  | pushThrows ht _ _ _ =>
      exact hinv.update rfl rfl (by simp) (by simp [ht]) (by simp) (by simp [ht])
  | popThrows ht _ _ _ =>
      exact hinv.update rfl rfl (by simp) (by simp [ht]) (by simp) (by simp [ht])
  | pushBlocks ht hopen _ _ hfull _ =>
      exact hinv.update (by simp) (by simp) (by simp) (by simp [ht])
        (fun _ => ⟨hopen, hfull⟩) (by simp [ht])
  | pushRewaits ht hopen hfull =>
      exact hinv.update rfl rfl (by simp) (by simp [ht])
        (fun _ => ⟨hopen, hfull⟩) (fun _ => Or.inr hfull)
  | popBlocks ht hopen _ hempty _ =>
      exact hinv.update (by simp) (by simp) (fun _ => ⟨hopen, hempty⟩)
        (by simp [ht]) (by simp) (by simp [ht])
  | popRewaits ht hopen hempty =>
      exact hinv.update rfl rfl (fun _ => ⟨hopen, hempty⟩) (fun _ => hempty) (by simp)
        (by simp [ht])
  | pushRefused hpush hwhy =>
      exact hinv.update (by simp) (by simp) (by simp) (by simp [hpush.not_notEmpty]) (by simp)
        (fun _ => hwhy)
  | popRefused hpop hempty =>
      exact hinv.update (by simp) (by simp) (by simp) (fun _ => hempty) (by simp)
        (by simp [hpop.not_notFull])
  | @pushAccepted item priority isProducerActive heir threads hpush hopen hroom hone =>
      refine ⟨fun _ _ => by simpa using hopen, ?_, fun _ _ => by simpa using hopen, ?_⟩
      · -- one item more, one consumer notified
        have hconsumers : notEmpty.Covered (s.q.size cfg)
            (Function.update s.threads t .outside) :=
          hinv.notEmpty_covered.update (by simp) (Or.inr (by simp [hpush.not_notEmpty]))
        exact hconsumers.notifyOne hone (by simp)
      · -- one place less, and the producer that filled it may have been notified
        have hproducers : notFull.Covered (cfg.maxSize - (s.q.size cfg + 1))
            (Function.update s.threads t .outside) := by
          rw [Nat.sub_add_eq]
          exact hinv.notFull_covered.leave rfl
        simp only [size_insert, size_releaseProducer]
        exact hproducers.congr
          (notEmpty.apply_notifyOne (fun p _ => notFull_asleep_wake p) hone)
          (notEmpty.apply_notifyOne (fun p _ => notFull_notified_wake p) hone)
  | @popTakes isConsumerActive effect q heir threads hpop htakes hone =>
      have hsize : s.q.size cfg = q.size cfg + 1 := by simpa using htakes.size
      have hclosed : q.closed = s.q.closed := by simpa using htakes.frame.1
      have hasleep := notFull.apply_notifyOne (fun p _ => notEmpty_asleep_wake p) hone
      refine ⟨fun u hu => ?_, ?_, fun u hu => ?_, ?_⟩
      · rw [hasleep] at hu
        exact hclosed.trans (hinv.notEmpty_open u ((asleep_of_update hu).resolve_left (by simp)))
      · -- one item less, and the consumer that took it may have been notified
        have hconsumers : notEmpty.Covered (q.size cfg)
            (Function.update s.threads t .outside) := by
          rw [← Nat.add_sub_cancel (q.size cfg) 1, ← hsize]
          exact hinv.notEmpty_covered.leave rfl
        exact hconsumers.congr hasleep
          (notFull.apply_notifyOne (fun p _ => notEmpty_notified_wake p) hone)
      · have hbefore := notFull.asleep_of_notifyOne hone hu
        exact hclosed.trans
          (hinv.notFull_open u ((asleep_of_update hbefore).resolve_left (by simp)))
      · -- one place more, one producer notified
        have hproducers : notFull.Covered (cfg.maxSize - s.q.size cfg)
            (Function.update s.threads t .outside) :=
          hinv.notFull_covered.update (by simp) (Or.inr (by simp [hpop.not_notFull]))
        exact hproducers.notifyOne hone (by simp only; omega)
  | closes ht =>
      have hnone : ∀ u, notEmpty.asleep (notFull.notifyAll
          (notEmpty.notifyAll (Function.update s.threads t .outside)) u) = false := by
        intro u
        rw [notFull.apply_notifyAll (fun p _ => notEmpty_asleep_wake p)]
        exact notEmpty.asleep_notifyAll u
      refine ⟨fun u hu => ?_, fun u hu => ?_, fun u hu => ?_, CondVar.covered_notifyAll⟩
      · rw [hnone u] at hu
        cases hu
      · rw [hnone u] at hu
        cases hu
      · rw [notFull.asleep_notifyAll] at hu
        cases hu
  | @clears effect q ht hclear =>
      obtain ⟨-, -, -, -, -, -, hempty, hclosed, -⟩ := clear_eq_leaves hclear
      have hasleep : ∀ u, notEmpty.asleep (notFull.notifyAll
          (Function.update s.threads t .outside) u) =
          notEmpty.asleep (Function.update s.threads t .outside u) :=
        notFull.apply_notifyAll (fun p _ => notEmpty_asleep_wake p)
      refine ⟨fun u hu => ?_, fun u _ => ?_, fun u hu => ?_, CondVar.covered_notifyAll⟩
      · rw [hasleep] at hu
        exact hclosed.trans (hinv.notEmpty_open u ((asleep_of_update hu).resolve_left (by simp)))
      · simp only [hempty]
        exact Nat.zero_le _
      · rw [notFull.asleep_notifyAll] at hu
        cases hu

/-- No wake-up is ever lost: the invariant holds in every reachable state, since nobody sleeps
before the first call. -/
theorem reachable_noLostWakeup [DecidableLT P] (h : (machine cfg ι T P).Reachable s) :
    NoLostWakeup cfg s := by
  refine h.invariant (I := NoLostWakeup cfg) ?_ ?_
  · rintro s rfl
    exact ⟨by simp [initial], fun u hu => by simp [initial] at hu, by simp [initial],
      fun u hu => by simp [initial] at hu⟩
  · intro s e effect s' _ hinv hs
    exact move_noLostWakeup (step_move hs) hinv

/-- **No lost wake-up.**  In every reachable state, whoever is blocked: a consumer
sleeping un-notified means an open queue with no more items than consumers that
have been notified and not resumed, and a producer sleeping un-notified means an
open queue with no more free places than such producers.  Hence, if somebody waits
on a variable and nobody there has been notified, the queue is open and there is
nothing to wait for less. -/
theorem no_lost_wakeup [DecidableLT P] (cfg : Config)
    (h : (machine cfg ι T P).Reachable s) :
    (∀ u, notEmpty.asleep (s.threads u) = true →
      s.q.closed = false ∧ s.q.size cfg ≤ count notEmpty.notified s.threads) ∧
    (∀ u, notFull.asleep (s.threads u) = true →
      s.q.closed = false ∧
        cfg.maxSize - s.q.size cfg ≤ count notFull.notified s.threads) ∧
    (∀ u, notEmpty.asleep (s.threads u) = true →
      (∀ v, notEmpty.notified (s.threads v) = false) →
        s.q.closed = false ∧ s.q.size cfg = 0) ∧
    ∀ u, notFull.asleep (s.threads u) = true →
      (∀ v, notFull.notified (s.threads v) = false) →
        s.q.closed = false ∧ cfg.maxSize ≤ s.q.size cfg := by
  have hinv := reachable_noLostWakeup h
  have hnobody {cv : CondVar (Thread T P)}
      (hnone : ∀ v, cv.notified (s.threads v) = false) :
      count cv.notified s.threads = 0 := by
    by_contra hne
    obtain ⟨v, hv⟩ := exists_of_count_pos (Nat.pos_of_ne_zero hne)
    rw [hnone v] at hv
    cases hv
  refine ⟨fun u hu => ⟨hinv.notEmpty_open u hu, hinv.notEmpty_covered u hu⟩,
    fun u hu => ⟨hinv.notFull_open u hu, hinv.notFull_covered u hu⟩,
    fun u hu hnone => ⟨hinv.notEmpty_open u hu, ?_⟩,
    fun u hu hnone => ⟨hinv.notFull_open u hu, ?_⟩⟩
  · have hcovered := hinv.notEmpty_covered u hu
    rw [hnobody hnone] at hcovered
    exact Nat.le_zero.mp hcovered
  · have hcovered := hinv.notFull_covered u hu
    rw [hnobody hnone] at hcovered
    omega

/-- A producer and, after the pop, a notified producer: the two states around one
wake-up on a queue bounded by one. -/
def notifiedProducer : List (Event (Fin 3) ℕ ℕ × Effect ℕ ℕ) × State (Fin 3) ℕ ℕ :=
  (machine ⟨false, .multiProducerMultiConsumer, 1⟩ (Fin 3) ℕ ℕ).play initial
    [.call 0 (.push 7 0 (-1)) 0 none, .call 1 (.push 8 0 5) 0 none,
      .call 2 (.push 9 0 (-1)) 0 none, .call 0 (.pop 0) 0 (some 1)] (by decide)

/-- In this run a producer sleeps while another has been notified of the room that there is. -/
theorem no_lost_wakeup_notifiedProducer :
    notFull.asleep (notifiedProducer.2.threads 2) = true ∧
      1 - notifiedProducer.2.q.size ⟨false, .multiProducerMultiConsumer, 1⟩ ≤
        count notFull.notified notifiedProducer.2.threads :=
  ⟨by decide, ((no_lost_wakeup ⟨false, .multiProducerMultiConsumer, 1⟩
    (Machine.execution_play rfl _).reachable).2.1 2 (by decide)).2⟩

end PcQueue
