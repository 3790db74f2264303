import CppProfessional.PcQueue.Contents
import CppProfessional.Transition.Flag

/-!
# The activity flags of the single-producer and single-consumer modes

In the modes that allow one producer, `pushImpl` sets `producerActive_` before
its wait and clears it after it, and throws when it finds the flag set; the two
modes that allow one consumer treat `consumerActive_` in the same way around the
wait in `waitForNonEmpty`.  Both flags are instances of `Transition.Flagged`, so
each is set exactly while one call is blocked at its wait, and every exit restores
that.

The throws are read off the code: `push_threw_iff` and `pop_threw_iff` say when
the section of a call ends in a throw, and `move_threw` that a throw changes
nothing.

The frame of a blocked call carries `isProducerActive`, a local of the source.  It is the one
piece of data that makes the clear at the end safe: a call that did not set the flag does not
clear it, even if another one has set it meanwhile.
-/

namespace PcQueue

open Transition

universe u v w

variable {ι : Type u} {T : Type v} {P : Type w}

/-- The `isProducerActive` of a call blocked in `waitForNotFull`. -/
def Thread.producerFrame : Thread T P → Option Bool
  | .waitsNotFull _ _ _ isProducerActive _ => some isProducerActive
  | _ => none

/-- The `isConsumerActive` of a call blocked in `waitForNonEmpty`. -/
def Thread.consumerFrame : Thread T P → Option Bool
  | .waitsNotEmpty _ isConsumerActive _ => some isConsumerActive
  | _ => none

/-- A notification on `not_empty_` does not touch what a waiting producer remembers. -/
theorem producerFrame_wake_notEmpty (p : Thread T P) :
    (notEmpty.wake p).producerFrame = p.producerFrame := by
  cases p <;> rfl

theorem producerFrame_wake_notFull (p : Thread T P) :
    (notFull.wake p).producerFrame = p.producerFrame := by
  cases p <;> rfl

theorem consumerFrame_wake_notEmpty (p : Thread T P) :
    (notEmpty.wake p).consumerFrame = p.consumerFrame := by
  cases p <;> rfl

/-- A notification on `not_full_` does not touch what a waiting consumer remembers. -/
theorem consumerFrame_wake_notFull (p : Thread T P) :
    (notFull.wake p).consumerFrame = p.consumerFrame := by
  cases p <;> rfl

/-- What `pushImpl` has to release at its end, and what its frame says. -/
theorem Pushes.producerFrame {threads : ι → Thread T P} {t : ι} {item : T} {priority : P}
    {isProducerActive : Bool} (h : Pushes threads t item priority isProducerActive) :
    (threads t).producerFrame = some isProducerActive ∨
      (threads t).producerFrame = none ∧ isProducerActive = false := by
  cases h with
  | entering ht => exact Or.inr ⟨by rw [ht]; rfl, rfl⟩
  | resuming ht => exact Or.inl (by rw [ht]; rfl)

/-- A thread that pushes is not inside the wait of a pop. -/
theorem Pushes.consumerFrame {threads : ι → Thread T P} {t : ι} {item : T} {priority : P}
    {isProducerActive : Bool} (h : Pushes threads t item priority isProducerActive) :
    (threads t).consumerFrame = none := by
  cases h with
  | entering ht => rw [ht]; rfl
  | resuming ht => rw [ht]; rfl

/-- A thread that pops resumes its wait, or comes from outside and has not set the flag. -/
theorem Pops.consumerFrame {threads : ι → Thread T P} {t : ι} {isConsumerActive : Bool}
    (h : Pops threads t isConsumerActive) :
    (threads t).consumerFrame = some isConsumerActive ∨
      (threads t).consumerFrame = none ∧ isConsumerActive = false := by
  cases h with
  | entering ht => exact Or.inr ⟨by rw [ht]; rfl, rfl⟩
  | resuming ht => exact Or.inl (by rw [ht]; rfl)

/-- A thread that pops is not inside the wait of a push. -/
theorem Pops.producerFrame {threads : ι → Thread T P} {t : ι} {isConsumerActive : Bool}
    (h : Pops threads t isConsumerActive) : (threads t).producerFrame = none := by
  cases h with
  | entering ht => rw [ht]; rfl
  | resuming ht => rw [ht]; rfl

variable [Fintype ι]

/-- `producerActive_` marks the push inside `waitForNotFull`. -/
abbrev ProducerFlagged (cfg : Config) (s : State ι T P) : Prop :=
  Flagged cfg.mode.singleProducer s.q.producerActive Thread.producerFrame s.threads

/-- `consumerActive_` marks the pop inside `waitForNonEmpty`. -/
abbrev ConsumerFlagged (cfg : Config) (s : State ι T P) : Prop :=
  Flagged cfg.mode.singleConsumer s.q.consumerActive Thread.consumerFrame s.threads

variable [DecidableEq ι] {cfg : Config} {s s' : State ι T P} {t : ι} {effect : Effect T P}

variable [LT P]

/-- **One step keeps the producer flag.** The flag is set by the thread that starts to wait and
cleared by the same thread when its section ends; the frame carries which of them it was, and
without it a clear could not be matched with its set. -/
theorem move_producerFlagged (h : Move cfg s t effect s')
    (hinv : ProducerFlagged cfg s) : ProducerFlagged cfg s' := by
  cases h with
  | pushThrows ht _ _ _ | popThrows ht _ _ _ =>
      exact Flagged.stay hinv rfl (by rw [ht])
  | pushBlocks ht _ hfree _ _ _ =>
      exact Flagged.enter hinv (producerActive_claimProducer _ _) hfree (by rw [ht]; rfl) rfl
  | pushRewaits ht _ _ => exact Flagged.stay hinv rfl (by rw [ht]; rfl)
  | pushRefused hpush _ =>
      exact Flagged.leave hinv (producerActive_releaseProducer _ _) hpush.producerFrame rfl
  | pushAccepted hpush _ _ hone =>
      have hleave : Flagged cfg.mode.singleProducer _ Thread.producerFrame
          (Function.update s.threads t .outside) :=
        Flagged.leave hinv (producerActive_releaseProducer _ _) hpush.producerFrame rfl
      have hnotified := hleave.congr
        (notEmpty.apply_notifyOne (fun p _ => producerFrame_wake_notEmpty p) hone)
      simpa only [ProducerFlagged, producerActive_insert] using hnotified
  | popBlocks ht _ _ _ _ => exact Flagged.stay hinv (by simp) (by rw [ht]; rfl)
  | popRewaits ht _ _ => exact Flagged.stay hinv rfl (by rw [ht]; rfl)
  | popRefused hpop _ =>
      exact Flagged.stay hinv (by simp) (by rw [hpop.producerFrame]; rfl)
  | popTakes hpop htakes hone =>
      have hleave : Flagged cfg.mode.singleProducer _ Thread.producerFrame
          (Function.update s.threads t .outside) :=
        Flagged.stay hinv (by simpa using htakes.frame.2.1) (by rw [hpop.producerFrame]; rfl)
      exact hleave.congr
        (notFull.apply_notifyOne (fun p _ => producerFrame_wake_notFull p) hone)
  | closes ht =>
      have hleave : Flagged cfg.mode.singleProducer s.q.producerActive Thread.producerFrame
          (Function.update s.threads t .outside) := Flagged.stay hinv rfl (by rw [ht])
      refine hleave.congr fun u => ?_
      rw [notFull.apply_notifyAll (fun p _ => producerFrame_wake_notFull p),
        notEmpty.apply_notifyAll (fun p _ => producerFrame_wake_notEmpty p)]
  | clears ht hclear =>
      obtain ⟨-, -, -, -, -, -, -, -, hflag, -⟩ := clear_eq_leaves hclear
      have hleave : Flagged cfg.mode.singleProducer _ Thread.producerFrame
          (Function.update s.threads t .outside) := Flagged.stay hinv hflag (by rw [ht])
      exact hleave.congr
        (notFull.apply_notifyAll fun p _ => producerFrame_wake_notFull p)

/-- One step keeps the consumer flag, by the same argument: a pop sets it before its wait and
clears it after it, and its frame says whether it did. -/
theorem move_consumerFlagged (h : Move cfg s t effect s')
    (hinv : ConsumerFlagged cfg s) : ConsumerFlagged cfg s' := by
  cases h with
  | pushThrows ht _ _ _ | popThrows ht _ _ _ =>
      exact Flagged.stay hinv rfl (by rw [ht])
  | pushBlocks ht _ _ _ _ _ => exact Flagged.stay hinv (by simp) (by rw [ht]; rfl)
  | pushRewaits ht _ _ => exact Flagged.stay hinv rfl (by rw [ht]; rfl)
  | pushRefused hpush _ =>
      exact Flagged.stay hinv (by simp) (by rw [hpush.consumerFrame]; rfl)
  | pushAccepted hpush _ _ hone =>
      have hleave : Flagged cfg.mode.singleConsumer s.q.consumerActive Thread.consumerFrame
          (Function.update s.threads t .outside) :=
        Flagged.stay hinv rfl (by rw [hpush.consumerFrame]; rfl)
      have hnotified := hleave.congr
        (notEmpty.apply_notifyOne (fun p _ => consumerFrame_wake_notEmpty p) hone)
      simpa only [ConsumerFlagged, consumerActive_insert, consumerActive_releaseProducer]
        using hnotified
  | popBlocks ht _ hfree _ _ =>
      exact Flagged.enter hinv (consumerActive_claimConsumer _ _) hfree (by rw [ht]; rfl) rfl
  | popRewaits ht _ _ => exact Flagged.stay hinv rfl (by rw [ht]; rfl)
  | popRefused hpop _ =>
      exact Flagged.leave hinv (consumerActive_releaseConsumer _ _) hpop.consumerFrame rfl
  | popTakes hpop htakes hone =>
      have hleave : Flagged cfg.mode.singleConsumer _ Thread.consumerFrame
          (Function.update s.threads t .outside) :=
        Flagged.leave hinv
          (htakes.frame.2.2.trans (consumerActive_releaseConsumer _ _)) hpop.consumerFrame rfl
      exact hleave.congr
        (notFull.apply_notifyOne (fun p _ => consumerFrame_wake_notFull p) hone)
  | closes ht =>
      have hleave : Flagged cfg.mode.singleConsumer s.q.consumerActive Thread.consumerFrame
          (Function.update s.threads t .outside) := Flagged.stay hinv rfl (by rw [ht])
      refine hleave.congr fun u => ?_
      rw [notFull.apply_notifyAll (fun p _ => consumerFrame_wake_notFull p),
        notEmpty.apply_notifyAll (fun p _ => consumerFrame_wake_notEmpty p)]
  | clears ht hclear =>
      obtain ⟨-, -, -, -, -, -, -, -, -, hflag⟩ := clear_eq_leaves hclear
      have hleave : Flagged cfg.mode.singleConsumer _ Thread.consumerFrame
          (Function.update s.threads t .outside) := Flagged.stay hinv hflag (by rw [ht])
      exact hleave.congr
        (notFull.apply_notifyAll fun p _ => consumerFrame_wake_notFull p)

/-- Both flags count the threads inside their waits, in every reachable state.  Neither needs
the other, but every section is looked at for both. -/
theorem reachable_flagged [DecidableLT P] (h : (machine cfg ι T P).Reachable s) :
    ProducerFlagged cfg s ∧ ConsumerFlagged cfg s := by
  refine h.invariant (I := fun s => ProducerFlagged cfg s ∧ ConsumerFlagged cfg s) ?_ ?_
  · rintro s rfl
    have hnone {frame : Thread T P → Option Bool} (hframe : frame .outside = none)
        (single : Bool) :
        Flagged single false frame (fun _ : ι => (.outside : Thread T P)) :=
      ⟨fun u active hu => (by rw [hframe] at hu; cases hu),
        fun _ => by simp [count, hframe], fun _ => rfl⟩
    exact ⟨hnone rfl _, hnone rfl _⟩
  · intro s e effect s' _ hinv hs
    exact ⟨move_producerFlagged (step_move hs) hinv.1,
      move_consumerFlagged (step_move hs) hinv.2⟩

/-! ### When a call throws

A section throws only at its beginning, when it finds the flag set.  What has been done
by then is nothing, so the queue and all other threads are as before. -/

/-- The result a section ends with. -/
def Outcome.result : Outcome T P → Result T
  | .blocks _ _ => .blocked
  | .leaves effect _ _ => effect.result

omit [LT P] in
/-- Delivering the notifications does not change what a section returned. -/
theorem conclude_result {outcome : Outcome T P} {heir : Option ι}
    (h : conclude s t heir outcome = some (effect, s')) :
    effect.result = outcome.result := by
  cases outcome with
  | blocks frame q =>
      cases h
      rfl
  | leaves effect' notification q =>
      simp only [conclude, Option.map_eq_some_iff, Prod.mk.injEq] at h
      obtain ⟨threads, -, rfl, -⟩ := h
      rfl

omit [Fintype ι] [DecidableEq ι] [LT P] in
/-- The end of a push returns a truth value and throws nothing. -/
theorem pushTail_result (cfg : Config) (q : Queue T P) (item : T) (priority : P)
    (isProducerActive success : Bool) :
    ∃ accepted, (pushTail cfg q item priority isProducerActive success).result =
      .pushed accepted := by
  simp only [pushTail]
  split
  · exact ⟨false, rfl⟩
  · exact ⟨true, rfl⟩

omit [Fintype ι] [DecidableEq ι] [LT P] in
/-- A push throws on finding the flag set, and in no other way; a closed queue is refused
before the flag is looked at. -/
theorem pushImpl_threw_iff {q : Queue T P} {item : T} {priority : P} {timeout : ℤ} :
    (∃ what, (pushImpl cfg q item priority timeout).result = .threw what) ↔
      cfg.mode.singleProducer = true ∧ q.closed = false ∧ q.producerActive = true := by
  unfold pushImpl
  split
  · next hclosed => simp [Outcome.result, hclosed]
  · next hopen =>
    split
    · next hbusy =>
      obtain ⟨hmode, hactive⟩ : cfg.mode.singleProducer = true ∧
          q.producerActive = true := by simpa using hbusy
      exact ⟨fun _ => ⟨hmode, by simpa using hopen, hactive⟩, fun _ => ⟨_, rfl⟩⟩
    · next hidle =>
      refine ⟨fun hthrew => ?_, fun hbusy => (hidle (by simp [hbusy.1, hbusy.2.2])).elim⟩
      obtain ⟨what, hwhat⟩ := hthrew
      dsimp only at hwhat
      split at hwhat
      · cases hwhat
      · obtain ⟨accepted, hpushed⟩ := pushTail_result cfg (q.claimProducer cfg) item
          priority cfg.mode.singleProducer ‹Bool›
        rw [hpushed] at hwhat
        cases hwhat

/-- Calls are made by threads outside the queue. -/
theorem call_outside [DecidableLT P] {op : Op T P} {pick : ℕ} {heir : Option ι}
    (h : step cfg s (.call t op pick heir) = some (effect, s')) : s.threads t = .outside := by
  simp only [step] at h
  split at h
  · assumption
  · cases h

/-- A push throws exactly when another thread is waiting to push and the mode allows one
producer only; a closed queue is refused before that. -/
theorem push_threw_iff [DecidableLT P] {item : T} {priority : P} {timeout : ℤ} {pick : ℕ}
    {heir : Option ι}
    (h : step cfg s (.call t (.push item priority timeout) pick heir) = some (effect, s')) :
    (∃ what, effect.result = .threw what) ↔
      cfg.mode.singleProducer = true ∧ s.q.closed = false ∧ s.q.producerActive = true := by
  simp only [step, Op.run] at h
  split at h
  · rw [conclude_result h]
    exact pushImpl_threw_iff
  · cases h

section Pop

variable [DecidableLT P] {pick : ℕ}

omit [Fintype ι] [DecidableEq ι] in
/-- The end of a pop returns an item or nothing and throws nothing. -/
theorem popTail_result {q : Queue T P} {isConsumerActive success : Bool}
    {outcome : Outcome T P}
    (h : popTail cfg q pick isConsumerActive success = some outcome) :
    ∃ item, outcome.result = .popped item := by
  unfold popTail at h
  dsimp only at h
  cases hfail : !(if (q.releaseConsumer isConsumerActive).empty cfg = true then false
      else success) with
  | true =>
      rw [hfail, if_pos rfl] at h
      cases h
      exact ⟨none, rfl⟩
  | false =>
      simp only [hfail, Bool.false_eq_true, if_false, Option.map_eq_some_iff,
        Prod.exists] at h
      obtain ⟨taken, q', htake, rfl⟩ := h
      obtain ⟨item, hitem⟩ := (takes_of_takeItem htake).result
      exact ⟨some item, hitem⟩

omit [Fintype ι] [DecidableEq ι] in
/-- A pop throws on finding the flag set, and in no other way; on a queue that is closed and
empty it reports the end before it looks at the flag. -/
theorem popImpl_threw_iff {q : Queue T P} {timeout : ℤ} {outcome : Outcome T P}
    (h : popImpl cfg q timeout pick = some outcome) :
    (∃ what, outcome.result = .threw what) ↔
      cfg.mode.singleConsumer = true ∧ (q.closed && q.empty cfg) = false ∧
        q.consumerActive = true := by
  unfold popImpl at h
  split at h
  · next hover =>
    cases h
    simp [Outcome.result, hover]
  · next hopen =>
    split at h
    · next hbusy =>
      obtain ⟨hmode, hactive⟩ : cfg.mode.singleConsumer = true ∧
          q.consumerActive = true := by simpa using hbusy
      cases h
      exact ⟨fun _ => ⟨hmode, by simpa using hopen, hactive⟩, fun _ => ⟨_, rfl⟩⟩
    · next hidle =>
      refine ⟨fun hthrew => ?_, fun hbusy => (hidle (by simp [hbusy.1, hbusy.2.2])).elim⟩
      obtain ⟨what, hwhat⟩ := hthrew
      have htail {success : Bool}
          (hpop : popTail cfg (q.claimConsumer cfg) pick cfg.mode.singleConsumer success =
            some outcome) : False := by
        obtain ⟨item, hitem⟩ := popTail_result hpop
        rw [hitem] at hwhat
        cases hwhat
      dsimp only at h
      split at h
      · split at h
        · exact (htail h).elim
        · cases h
          cases hwhat
      · exact (htail h).elim

/-- A pop throws exactly when another thread is waiting to pop and the mode allows one consumer
only; the end of a closed queue is reported before that. -/
theorem pop_threw_iff {timeout : ℤ} {heir : Option ι}
    (h : step cfg s (.call t (.pop timeout) pick heir) = some (effect, s')) :
    (∃ what, effect.result = .threw what) ↔
      cfg.mode.singleConsumer = true ∧ (s.q.closed && s.q.empty cfg) = false ∧
        s.q.consumerActive = true := by
  simp only [step, Op.run] at h
  split at h
  · obtain ⟨outcome, hpop, hend⟩ := Option.bind_eq_some_iff.mp h
    rw [conclude_result hend]
    exact popImpl_threw_iff hpop
  · cases h

end Pop

/-- A section that throws belongs to a call that has not waited, and it changes
nothing. -/
theorem move_threw {what : String} (h : Move cfg s t effect s')
    (hthrew : effect.result = .threw what) : s.threads t = .outside ∧ s' = s := by
  have hsame (ht : s.threads t = .outside) :
      (⟨s.q, Function.update s.threads t .outside⟩ : State ι T P) = s := by
    rw [← ht, Function.update_eq_self]
  cases h with
  | pushThrows ht _ _ _ => exact ⟨ht, hsame ht⟩
  | popThrows ht _ _ _ => exact ⟨ht, hsame ht⟩
  | pushAccepted _ _ _ _ => simp [accepted] at hthrew
  | popTakes _ htakes _ =>
      obtain ⟨item, hitem⟩ := htakes.result
      simp [hitem] at hthrew
  | clears _ hclear =>
      obtain ⟨-, -, hreturned, -⟩ := clear_eq_leaves hclear
      simp [hreturned] at hthrew
  | _ => cases hthrew

/-- **The activity flags.**  In every reachable state: in a single-producer mode
`producerActive_` is set exactly while one push and no other is blocked in
`waitForNotFull`, and clear exactly while none is; a push throws exactly when the
queue is open and a push is blocked there.  A single-consumer mode treats
`consumerActive_`, `waitForNonEmpty` and the pops in the same way, except that the
queue must not be closed and empty.  In the other modes the flags stay clear and
nothing throws, and whatever throws leaves the state as it was. -/
theorem activity_flags [DecidableLT P] (cfg : Config)
    (h : (machine cfg ι T P).Reachable s) :
    (cfg.mode.singleProducer = true →
      (s.q.producerActive = true ↔ ∃! u, (s.threads u).producerFrame.isSome = true) ∧
      (s.q.producerActive = false ↔ ∀ u, (s.threads u).producerFrame = none)) ∧
    (cfg.mode.singleConsumer = true →
      (s.q.consumerActive = true ↔ ∃! u, (s.threads u).consumerFrame.isSome = true) ∧
      (s.q.consumerActive = false ↔ ∀ u, (s.threads u).consumerFrame = none)) ∧
    (cfg.mode.singleProducer = false → s.q.producerActive = false) ∧
    (cfg.mode.singleConsumer = false → s.q.consumerActive = false) ∧
    (∀ (t : ι) (item : T) (priority : P) (timeout : ℤ) (pick : ℕ) (heir : Option ι)
      (effect : Effect T P) (s' : State ι T P),
      step cfg s (.call t (.push item priority timeout) pick heir) = some (effect, s') →
        ((∃ what, effect.result = .threw what) ↔
          cfg.mode.singleProducer = true ∧ s.q.closed = false ∧
            ∃ u, u ≠ t ∧ (s.threads u).producerFrame.isSome = true)) ∧
    (∀ (t : ι) (timeout : ℤ) (pick : ℕ) (heir : Option ι) (effect : Effect T P)
      (s' : State ι T P),
      step cfg s (.call t (.pop timeout) pick heir) = some (effect, s') →
        ((∃ what, effect.result = .threw what) ↔
          cfg.mode.singleConsumer = true ∧ ¬(s.q.closed = true ∧ s.q.size cfg = 0) ∧
            ∃ u, u ≠ t ∧ (s.threads u).consumerFrame.isSome = true)) ∧
    ∀ (e : Event ι T P) (effect : Effect T P) (s' : State ι T P) (what : String),
      step cfg s e = some (effect, s') → effect.result = .threw what →
        s.threads e.thread = .outside ∧ s' = s := by
  obtain ⟨hproducer, hconsumer⟩ := reachable_flagged h
  refine ⟨fun hmode => ?_, fun hmode => ?_, hproducer.unused, hconsumer.unused, ?_, ?_, ?_⟩
  · unfold ProducerFlagged at hproducer
    rw [hmode] at hproducer
    exact ⟨hproducer.active_iff, hproducer.inactive_iff⟩
  · unfold ConsumerFlagged at hconsumer
    rw [hmode] at hconsumer
    exact ⟨hconsumer.active_iff, hconsumer.inactive_iff⟩
  · intro t item priority timeout pick heir effect s' hs
    rw [push_threw_iff hs]
    refine and_congr_right fun hmode => and_congr_right fun _ => ?_
    unfold ProducerFlagged at hproducer
    rw [hmode] at hproducer
    exact hproducer.active_other (by rw [call_outside hs]; rfl)
  · intro t timeout pick heir effect s' hs
    rw [pop_threw_iff hs]
    have hends : (s.q.closed && s.q.empty cfg) = false ↔
        ¬(s.q.closed = true ∧ s.q.size cfg = 0) := by
      rw [← Queue.empty_eq_true]
      simp
    rw [hends]
    refine and_congr_right fun hmode => and_congr_right fun _ => ?_
    unfold ConsumerFlagged at hconsumer
    rw [hmode] at hconsumer
    exact hconsumer.active_other (by rw [call_outside hs]; rfl)
  · intro e effect s' what hs hthrew
    exact move_threw (step_move hs) hthrew

/-- One thread fills a queue bounded by one and blocks on its next push. -/
def activeProducer : List (Event Bool ℕ ℕ × Effect ℕ ℕ) × State Bool ℕ ℕ :=
  (machine ⟨false, .singleProducerSingleConsumer, 1⟩ Bool ℕ ℕ).play initial
    [.call false (.push 7 0 0) 0 none, .call false (.push 8 0 (-1)) 0 none] (by decide)

/-- In this run the second push waits, and the flag is its own. -/
theorem activity_flags_activeProducer :
    activeProducer.2.q.producerActive = true ∧
      ∃! u, (activeProducer.2.threads u).producerFrame.isSome = true :=
  have h := (activity_flags ⟨false, .singleProducerSingleConsumer, 1⟩
    (s := activeProducer.2) (Machine.execution_play rfl _).reachable).1 rfl
  ⟨by decide, h.1.mp (by decide)⟩

end PcQueue
