import CppProfessional.PcQueue.Contents

/-!
# The queue with priorities

The queue of a machine with `usePriority` set, for any number of threads, any mode, any
bound and any interleaving.

* `argument` — the item and the priority that a section pushes if it is accepted: those
  of the call, or those that a blocked thread has kept;
* `popped`, `cleared` — what leaves through `pop` and through `clear`;
* `priority_order` — a pop takes an item that no stored item exceeds, and the stored
  items are the accepted ones without those that left.

No order of the priorities is assumed: `operator<` is whatever the priority type has, and
the steps of a machine are those in which the priority queue has a greatest element to
offer.

The comparison of the source has the items of lower numbers come out last.  Nothing here
depends on it: what is proved is about `operator<`, and which numbers count as high is a matter
of the priority type.
-/

namespace PcQueue

open Transition

universe u v w

variable {ι : Type u} {T : Type v} {P : Type w} [LT P] {cfg : Config}

/-- What leaves through `pop`. -/
def Effect.popped (effect : Effect T P) : List (PriorityItem T P) :=
  match effect.result with
  | .popped _ => effect.extracted
  | _ => []

/-- What leaves through `clear`. -/
def Effect.cleared (effect : Effect T P) : List (PriorityItem T P) :=
  match effect.result with
  | .returned => effect.extracted
  | _ => []

/-- The item and the priority that an event pushes if it is accepted. -/
def argument (s : State ι T P) : Event ι T P → Option (PriorityItem T P)
  | .call _ (.push item priority _) _ _ => some ⟨item, priority⟩
  | .call _ _ _ _ => none
  | .resume t _ _ _ =>
      match s.threads t with
      | .waitsNotFull item priority _ _ _ => some ⟨item, priority⟩
      | _ => none

/-- Whether an event is a section of `pop`. -/
def Event.isPop (s : State ι T P) : Event ι T P → Bool
  | .call _ (.pop _) _ _ => true
  | .call _ _ _ _ => false
  | .resume t _ _ _ =>
      match s.threads t with
      | .waitsNotEmpty _ _ _ => true
      | _ => false

/-! ### How a section leaves

A push adds its own item, and an item leaves through a pop or through `clear`.  The
result says which it was, so the two can be told apart in a trace. -/

section Leaves

variable {q q' : Queue T P} {effect : Effect T P} {notification : Notification} {item : T}
  {priority : P}

omit [LT P] in
/-- The end of a push is accepted or refused. -/
theorem pushTail_leaves {isProducerActive success : Bool}
    (h : pushTail cfg q item priority isProducerActive success =
      .leaves effect notification q') :
    effect = accepted cfg item priority ∨ effect.result = .pushed false := by
  unfold pushTail at h
  dsimp only at h
  split at h
  · cases h
    exact Or.inr rfl
  · cases h
    exact Or.inl rfl

omit [LT P] in
/-- A push is accepted, refused, or throws; in the last two cases nothing has been added. -/
theorem pushImpl_leaves {timeout : ℤ}
    (h : pushImpl cfg q item priority timeout = .leaves effect notification q') :
    effect = accepted cfg item priority ∨ effect.result = .pushed false ∨
      ∃ what, effect.result = .threw what := by
  unfold pushImpl at h
  split at h
  · cases h
    exact Or.inr (Or.inl rfl)
  · split at h
    · cases h
      exact Or.inr (Or.inr ⟨_, rfl⟩)
    · dsimp only at h
      split at h
      · cases h
      · exact (pushTail_leaves h).imp_right Or.inl

omit [LT P] in
/-- A push that is woken is accepted or refused. -/
theorem resumePush_leaves {timeout : ℤ} {isProducerActive : Bool} {wake : Wake}
    (h : resumePush cfg q item priority timeout isProducerActive wake =
      .leaves effect notification q') :
    effect = accepted cfg item priority ∨ effect.result = .pushed false := by
  unfold resumePush at h
  split at h
  · cases h
  · exact pushTail_leaves h

variable [DecidableLT P] {pick : ℕ}

/-- The end of a pop returns an item or nothing. -/
theorem popTail_leaves {isConsumerActive success : Bool}
    (h : popTail cfg q pick isConsumerActive success = some (.leaves effect notification q')) :
    ∃ item, effect.result = .popped item := by
  unfold popTail at h
  dsimp only at h
  generalize (if (q.releaseConsumer isConsumerActive).empty cfg then false else success) = found
    at h
  cases found with
  | false =>
      cases h
      exact ⟨none, rfl⟩
  | true =>
      obtain ⟨⟨taken, rest⟩, htake, heq⟩ := Option.map_eq_some_iff.mp h
      cases heq
      obtain ⟨item, hresult⟩ := (takes_of_takeItem htake).result
      exact ⟨some item, hresult⟩

/-- A pop returns or throws. -/
theorem popImpl_leaves {timeout : ℤ}
    (h : popImpl cfg q timeout pick = some (.leaves effect notification q')) :
    (∃ item, effect.result = .popped item) ∨ ∃ what, effect.result = .threw what := by
  unfold popImpl at h
  split at h
  · cases h
    exact Or.inl ⟨none, rfl⟩
  · split at h
    · cases h
      exact Or.inr ⟨_, rfl⟩
    · dsimp only at h
      split at h
      · split at h
        · exact Or.inl (popTail_leaves h)
        · cases h
      · exact Or.inl (popTail_leaves h)

/-- A pop that is woken returns an item or nothing. -/
theorem resumePop_leaves {timeout : ℤ} {isConsumerActive : Bool} {wake : Wake}
    (h : resumePop cfg q timeout pick isConsumerActive wake =
      some (.leaves effect notification q')) : ∃ item, effect.result = .popped item := by
  unfold resumePop at h
  split at h
  · exact popTail_leaves h
  · split at h
    · exact popTail_leaves h
    · cases h

end Leaves

section Steps

variable [Fintype ι] [DecidableEq ι] {s s' : State ι T P} {t : ι} {e : Event ι T P}
  {effect : Effect T P} {heir : Option ι}

omit [LT P] in
/-- A section whose result is not `blocked` has left the queue. -/
theorem leaves_of_conclude {outcome : Outcome T P}
    (h : conclude s t heir outcome = some (effect, s')) (hresult : effect.result ≠ .blocked) :
    ∃ notification q, outcome = .leaves effect notification q := by
  cases outcome with
  | blocks frame q =>
      cases h
      exact absurd rfl hresult
  | leaves effect' notification q =>
      obtain ⟨threads, -, heq⟩ := Option.map_eq_some_iff.mp h
      cases heq
      exact ⟨notification, q, rfl⟩

variable [DecidableLT P]

/-- Who can end with which result: a section that pushes is accepted, refused, or throws;
a section that pops returns or throws; the others return. -/
theorem result_of_step (h : step cfg s e = some (effect, s')) (hleft : effect.result ≠ .blocked) :
    (∃ x, argument s e = some x ∧
        (effect = accepted cfg x.data x.priority ∨ effect.result = .pushed false ∨
          ∃ what, effect.result = .threw what)) ∨
      (e.isPop s = true ∧
        ((∃ item, effect.result = .popped item) ∨ ∃ what, effect.result = .threw what)) ∨
      effect.result = .returned := by
  cases e with
  | call t op pick heir =>
      simp only [step] at h
      split at h
      · obtain ⟨outcome, hrun, hend⟩ := Option.bind_eq_some_iff.mp h
        obtain ⟨notification, q, rfl⟩ := leaves_of_conclude hend hleft
        cases op with
        | push item priority timeout =>
            exact Or.inl ⟨⟨item, priority⟩, rfl, pushImpl_leaves (Option.some.inj hrun)⟩
        | pop timeout => exact Or.inr (Or.inl ⟨rfl, popImpl_leaves hrun⟩)
        | close | clear =>
            cases hrun
            exact Or.inr (Or.inr rfl)
      · cases h
  | resume t wake pick heir =>
      obtain ⟨outcome, hresume, hend⟩ := Option.bind_eq_some_iff.mp h
      obtain ⟨notification, q, rfl⟩ := leaves_of_conclude hend hleft
      unfold Thread.resume at hresume
      split at hresume
      · cases hresume
      · next hthread =>
        split at hresume
        · refine Or.inr (Or.inl ⟨?_, Or.inl (resumePop_leaves hresume)⟩)
          simp only [Event.isPop, hthread]
        · cases hresume
      · next item priority timeout isProducerActive notified hthread =>
        split at hresume
        · refine Or.inl ⟨⟨item, priority⟩, ?_, ?_⟩
          · simp only [argument, hthread]
          · exact (resumePush_leaves (Option.some.inj hresume)).imp_right Or.inl
        · cases hresume

/-- **What a successful push adds** is its argument, also when the push had to wait: the frame
of the blocked thread has kept it. -/
theorem inserted_of_step (h : step cfg s e = some (effect, s'))
    (hresult : effect.result = .pushed true) :
    ∃ x, argument s e = some x ∧ effect.inserted = (accepted cfg x.data x.priority).inserted := by
  rcases result_of_step h (by rw [hresult]; exact nofun) with
    ⟨x, hx, rfl | hrefused | ⟨what, hthrew⟩⟩ | ⟨-, ⟨item, hpopped⟩ | ⟨what, hthrew⟩⟩ | hreturned
  · exact ⟨x, hx, rfl⟩
  · exact absurd (hresult.symm.trans hrefused) nofun
  · exact absurd (hresult.symm.trans hthrew) nofun
  · exact absurd (hresult.symm.trans hpopped) nofun
  · exact absurd (hresult.symm.trans hthrew) nofun
  · exact absurd (hresult.symm.trans hreturned) nofun

/-- Only a pop takes an item. -/
theorem isPop_of_step (h : step cfg s e = some (effect, s')) {item : Option T}
    (hresult : effect.result = .popped item) : e.isPop s = true := by
  rcases result_of_step h (by rw [hresult]; exact nofun) with
    ⟨x, hx, rfl | hrefused | ⟨what, hthrew⟩⟩ | ⟨hpop, -⟩ | hreturned
  · cases hresult
  · exact absurd (hresult.symm.trans hrefused) nofun
  · exact absurd (hresult.symm.trans hthrew) nofun
  · exact hpop
  · exact absurd (hresult.symm.trans hreturned) nofun

omit [DecidableLT P] in
/-- An item leaves through `pop` or through `clear`, and the result says through which. -/
theorem extracted_eq (h : Move cfg s t effect s') :
    effect.extracted = effect.popped ++ effect.cleared := by
  cases h with
  | popTakes _ htakes _ =>
      cases htakes with
      | front _ _ => rfl
      | top _ _ _ => rfl
  | clears _ hclear =>
      obtain ⟨-, -, hresult, -⟩ := clear_eq_leaves hclear
      simp only [Effect.popped, Effect.cleared, hresult, List.nil_append]
  | _ => rfl

omit [DecidableLT P] in
/-- Nothing enters but through a successful push. -/
theorem inserted_of_ne (h : Move cfg s t effect s') (hresult : effect.result ≠ .pushed true) :
    effect.inserted = [] := by
  cases h with
  | pushAccepted _ _ _ _ => exact absurd rfl hresult
  | popTakes _ htakes _ => cases htakes <;> rfl
  | clears _ hclear => exact (clear_eq_leaves hclear).2.1
  | _ => rfl

omit [DecidableLT P] in
/-- **What a pop takes** is an item that no stored item exceeds.  The item that the caller gets
is the data of the one that left the container, so the two cannot differ. -/
theorem move_popped (huse : cfg.usePriority = true) (h : Move cfg s t effect s') {item : T}
    (hresult : effect.result = .popped (some item)) :
    ∃ top ∈ s.q.priorityQueue, top.data = item ∧ effect.popped = [top] ∧
      ∀ other ∈ s.q.priorityQueue, ¬top.priority < other.priority := by
  cases h with
  | popTakes _ htakes _ =>
      cases htakes with
      | front hplain _ =>
          rw [huse] at hplain
          cases hplain
      | @top pick top _ hpick hmax =>
          rw [priorityQueue_releaseConsumer] at hpick hmax
          obtain rfl : top.data = item := by simpa using hresult
          exact ⟨top, List.mem_of_getElem? hpick, rfl, rfl, hmax⟩
  | pushAccepted _ _ _ _ => cases hresult
  | clears _ hclear =>
      rw [(clear_eq_leaves hclear).2.2.1] at hresult
      cases hresult
  | _ => cases hresult

end Steps

/-! ### Priority order

A pop takes a greatest item.  Which one of several is not said, and nothing that is
proved depends on it. -/

/-- **The queue with priorities.**  The accepted items are those that were popped, those
that were cleared and those that are stored; and from every state, a pop that returns an
item returns one that no stored item exceeds, and what enters is what a successful push
was given. -/
theorem priority_order [Fintype ι] [DecidableEq ι] [DecidableLT P] (mode : QueueMode)
    (maxSize : ℕ) {trace : List (Event ι T P × Effect T P)} {s : State ι T P}
    (h : (machine ⟨true, mode, maxSize⟩ ι T P).Execution trace s) :
    (Machine.history Effect.inserted trace).Perm
        (Machine.history Effect.popped trace ++ Machine.history Effect.cleared trace ++
          s.q.priorityQueue) ∧
      ∀ (e : Event ι T P) (effect : Effect T P) (s' : State ι T P),
        step ⟨true, mode, maxSize⟩ s e = some (effect, s') →
          (∀ item, effect.result = .popped (some item) →
            ∃ top ∈ s.q.priorityQueue, top.data = item ∧ effect.popped = [top] ∧
              ∀ other ∈ s.q.priorityQueue, ¬top.priority < other.priority) ∧
          (effect.result = .pushed true →
            ∃ x, argument s e = some x ∧ effect.inserted = [x]) ∧
          (effect.result ≠ .pushed true → effect.inserted = []) := by
  constructor
  · obtain ⟨s₀, rfl, hrun⟩ := h
    have hleft : (Machine.history Effect.inserted trace).Perm
        (Machine.history (fun effect => effect.popped ++ effect.cleared) trace ++
          s.q.priorityQueue) :=
      hrun.conserves (fun s => s.q.priorityQueue) fun _ _ _ _ _ _ hs =>
        extracted_eq (step_move hs) ▸ move_priorityQueue (step_move hs)
    exact hleft.trans ((List.flatMap_append_perm trace _ _).symm.append_right _)
  · intro e effect s' hs
    have hmove := step_move hs
    refine ⟨fun item => move_popped rfl hmove, fun hresult => ?_, inserted_of_ne hmove⟩
    exact inserted_of_step hs hresult

/-- Two producers and a consumer; the item without a priority leaves last. -/
def twoProducers : List (Event Bool ℕ ℕ) :=
  [.call false (.push 10 0 0) 0 none, .call true (.push 20 5 0) 0 none,
    .call false (.pop 0) 1 none]

/-- The run that schedule describes. -/
def twoProducersRun : List (Event Bool ℕ ℕ × Effect ℕ ℕ) × State Bool ℕ ℕ :=
  (machine ⟨true, .multiProducerMultiConsumer, 0⟩ Bool ℕ ℕ).play initial twoProducers (by decide)

/-- In this run the item of the higher number comes out first, although it was pushed later. -/
theorem priority_order_twoProducers :
    (Machine.history Effect.popped twoProducersRun.1).map PriorityItem.data = [20] ∧
      (Machine.history Effect.inserted twoProducersRun.1).Perm
        (Machine.history Effect.popped twoProducersRun.1 ++
          Machine.history Effect.cleared twoProducersRun.1 ++
          twoProducersRun.2.q.priorityQueue) :=
  ⟨by decide, (priority_order .multiProducerMultiConsumer 0 (Machine.execution_play rfl _)).1⟩

end PcQueue
