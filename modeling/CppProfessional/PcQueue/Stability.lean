import CppProfessional.PcQueue.Priority

/-!
# Items of equal priority

The queue is asked to keep the order of its items.  With priorities it does so among
items of one priority only as long as the priority queue has no choice:
`std::priority_queue` promises a greatest element and not which one.

* `OrderKept` — for each priority, the items left in the order in which they came;
* `SingleTop` — no two stored items share a priority that no stored item exceeds;
* `order_kept` — if a pop meets such a queue only, the order is kept in every state
  reached; and where two different items share the highest priority and the order was
  kept so far, a pop may take the later one and break it;
* `order_broken` — four items without a priority, taken as a binary heap gives them out.
-/

namespace PcQueue

open Transition

universe u v w

variable {ι : Type u} {T : Type v} {P : Type w} [LT P] [DecidableLT P] [DecidableEq P]

/-- Whether an item has the given priority. -/
def PriorityItem.hasPriority (p : P) (a : PriorityItem T P) : Bool := decide (a.priority = p)

/-- For each priority, the items that came are those that left, in the order in which they
left, and then those that are stored. -/
def OrderKept (trace : List (Event ι T P × Effect T P)) (s : State ι T P) : Prop :=
  ∀ p, (Machine.history Effect.inserted trace).filter (PriorityItem.hasPriority p) =
    (Machine.history Effect.extracted trace).filter (PriorityItem.hasPriority p) ++
      s.q.priorityQueue.filter (PriorityItem.hasPriority p)

/-- The stored items that no stored item exceeds. -/
def tops (items : List (PriorityItem T P)) : List (PriorityItem T P) :=
  items.filter fun a => items.all fun b => !decide (a < b)

/-- No two of them share a priority. -/
def SingleTop (q : Queue T P) : Prop :=
  ((tops q.priorityQueue).map PriorityItem.priority).Nodup

instance (q : Queue T P) : Decidable (SingleTop q) :=
  inferInstanceAs (Decidable (List.Nodup _))

section Lists

variable {α : Type*} {xs front back : List α} {p : α → Bool} {x y : α}

/-- An element of a list has its predecessors in front of it and its successors behind it. -/
theorem exists_split {i : ℕ} (h : xs[i]? = some x) :
    ∃ front back, xs = front ++ x :: back ∧ xs.eraseIdx i = front ++ back := by
  obtain ⟨hlt, rfl⟩ := List.getElem?_eq_some_iff.mp h
  refine ⟨xs.take i, xs.drop (i + 1), ?_, List.eraseIdx_eq_take_drop_succ ..⟩
  rw [← List.drop_eq_getElem_cons hlt, List.take_append_drop]

/-- Of a kind of which there is one, taking it out leaves none behind.  Stated of any list and
any key, since the queue needs it of the greatest items and their priorities. -/
theorem filter_of_nodup {β : Type*} {f : α → β}
    (hp : ∀ z ∈ front ++ x :: back, p z = true → f z = f x)
    (hx : p x = true) (h : (((front ++ x :: back).filter p).map f).Nodup) :
    (front ++ x :: back).filter p = x :: (front ++ back).filter p := by
  have hfront : front.filter p = [] := by
    rw [List.filter_eq_nil_iff]
    intro z hz hpz
    rw [List.filter_append, List.map_append, List.nodup_append] at h
    refine h.2.2 (f z) (List.mem_map_of_mem (List.mem_filter.mpr ⟨hz, hpz⟩)) (f x) ?_ ?_
    · exact List.mem_map_of_mem (List.mem_filter.mpr ⟨List.mem_cons_self .., hx⟩)
    · exact hp z (List.mem_append_left _ hz) hpz
  rw [List.filter_append, List.filter_append, hfront, List.filter_cons_of_pos hx]
  rfl

/-- A list that an element can be moved around has only that element.  It is what turns two
different items of one priority into two orders that can be told apart. -/
theorem eq_of_rotate (h : front ++ [x] = x :: front) (hy : y ∈ front) : y = x := by
  induction front with
  | nil => cases hy
  | cons z front ih =>
      obtain ⟨rfl, hrest⟩ := List.cons.inj h
      rcases List.mem_cons.mp hy with rfl | hmem
      · rfl
      · exact ih hrest hmem

end Lists

section Step

variable [Fintype ι] [DecidableEq ι] {cfg : Config} {s s' : State ι T P} {t : ι}
  {effect : Effect T P}

omit [DecidableEq P] in
/-- Items of the priority of a greatest item are greatest items. -/
theorem mem_tops_of_priority {items : List (PriorityItem T P)} {a b : PriorityItem T P}
    (ha : a ∈ items) (hpriority : a.priority = b.priority)
    (hmax : ∀ other ∈ items, ¬b < other) : a ∈ tops items := by
  refine List.mem_filter.mpr ⟨ha, ?_⟩
  rw [List.all_eq_true]
  intro other hother
  rw [Bool.not_eq_true', decide_eq_false_iff_not]
  intro hlt
  have hlt' : a.priority < other.priority := hlt
  rw [hpriority] at hlt'
  exact hmax other hother hlt'

/-- A greatest item that shares its priority with no other is the first of its priority:
it is the only stored item that has it, so the position from which the heap takes it does
not matter. -/
theorem filter_eraseIdx {items : List (PriorityItem T P)} {pick : ℕ} {top : PriorityItem T P}
    (hpick : items[pick]? = some top) (hmax : ∀ other ∈ items, ¬top < other)
    (hsingle : ((tops items).map PriorityItem.priority).Nodup) (p : P) :
    items.filter (PriorityItem.hasPriority p) =
      [top].filter (PriorityItem.hasPriority p) ++
        (items.eraseIdx pick).filter (PriorityItem.hasPriority p) := by
  obtain ⟨front, back, rfl, herase⟩ := exists_split hpick
  rw [herase]
  by_cases htop : top.priority = p
  · have hp : PriorityItem.hasPriority p top = true := decide_eq_true htop
    have htops : (front ++ top :: back).filter (PriorityItem.hasPriority p) =
        (tops (front ++ top :: back)).filter (PriorityItem.hasPriority p) := by
      rw [tops, List.filter_filter]
      refine List.filter_congr fun a ha => ?_
      cases hsame : PriorityItem.hasPriority p a with
      | false => rfl
      | true =>
          have hpriority : a.priority = top.priority := (of_decide_eq_true hsame).trans htop.symm
          have hmem := mem_tops_of_priority ha hpriority hmax
          rw [(List.mem_filter.mp hmem).2]
          rfl
    rw [List.filter_cons_of_pos hp, List.filter_nil, List.singleton_append]
    refine filter_of_nodup (f := PriorityItem.priority) ?_ hp ?_
    · intro z _ hz
      rw [of_decide_eq_true hz, htop]
    · rw [htops]
      exact hsingle.sublist (List.filter_sublist.map _)
  · have hp : ¬PriorityItem.hasPriority p top = true := by
      simpa [PriorityItem.hasPriority] using htop
    rw [List.filter_cons_of_neg hp, List.filter_nil, List.nil_append, List.filter_append,
      List.filter_append, List.filter_cons_of_neg hp]

/-- What is stored and what enters is, priority by priority, what leaves and what is stored
then. -/
theorem filter_move (hmove : Move cfg s t effect s')
    (hsingle : (∃ item, effect.result = .popped (some item)) → SingleTop s.q) (p : P) :
    (s.q.priorityQueue ++ effect.inserted).filter (PriorityItem.hasPriority p) =
      (effect.extracted ++ s'.q.priorityQueue).filter (PriorityItem.hasPriority p) := by
  cases hmove with
  | pushAccepted _ _ _ _ => simp [accepted]
  | popTakes _ htakes _ =>
      cases htakes with
      | front _ _ => simp
      | @top pick top _ hpick hmax =>
          rw [priorityQueue_releaseConsumer] at hpick hmax
          rw [List.append_nil, List.filter_append, priorityQueue_releaseConsumer]
          exact filter_eraseIdx hpick hmax (hsingle ⟨_, rfl⟩) p
  | clears _ hclear =>
      obtain ⟨-, hin, -, -, -, hout, -⟩ := clear_eq_leaves hclear
      rw [hin, List.append_nil, hout]
  | _ => simp

/-- **One section.**  A pop that has no choice keeps the order; pushes and `clear` keep it in
any case. -/
theorem orderKept_move {e : Event ι T P} {trace : List (Event ι T P × Effect T P)}
    (h : OrderKept trace s) (hmove : Move cfg s t effect s')
    (hsingle : (∃ item, effect.result = .popped (some item)) → SingleTop s.q) :
    OrderKept (trace ++ [(e, effect)]) s' := by
  intro p
  have hfilter := filter_move hmove hsingle p
  rw [List.filter_append, List.filter_append] at hfilter
  rw [Machine.history_append, Machine.history_append, Machine.history_singleton,
    Machine.history_singleton, List.filter_append, List.filter_append, h p, List.append_assoc,
    List.append_assoc, hfilter]

/-- **A pop that has a choice.**  Of two different items of one priority that no stored
item exceeds, a pop may take the later one, and then the order is not kept. -/
theorem exists_pop_breaks {trace : List (Event ι T P × Effect T P)}
    (huse : cfg.usePriority = true) (h : OrderKept trace s)
    {front back : List (PriorityItem T P)} {a b : PriorityItem T P}
    (hstored : s.q.priorityQueue = front ++ b :: back) (ha : a ∈ front) (hne : a ≠ b)
    (hpriority : a.priority = b.priority) (hmax : ∀ other ∈ s.q.priorityQueue, ¬b < other)
    (ht : s.threads t = .outside)
    (hidle : (cfg.mode.singleConsumer && s.q.consumerActive) = false) (timeout : ℤ) :
    ∃ heir effect s', step cfg s (.call t (.pop timeout) front.length heir) = some (effect, s') ∧
      ¬OrderKept (trace ++ [(.call t (.pop timeout) front.length heir, effect)]) s' := by
  have htake : takeItem cfg s.q front.length =
      some ({ result := .popped (some b.data), extracted := [b] },
        { s.q with priorityQueue := front ++ back }) := by
    have hall : (s.q.priorityQueue.all fun other => !decide (b < other)) = true := by
      rw [List.all_eq_true]
      intro other hother
      rw [Bool.not_eq_true', decide_eq_false_iff_not]
      exact hmax other hother
    have hget : s.q.priorityQueue[front.length]? = some b := by simp [hstored]
    have herase : s.q.priorityQueue.eraseIdx front.length = front ++ back := by
      rw [hstored, List.eraseIdx_append_of_length_le (le_refl _), Nat.sub_self]
      rfl
    simp only [takeItem, huse, takeTop, hget, hall, herase, if_true, Option.map_some]
  have hempty : s.q.empty cfg = false := by
    simp [Queue.empty, huse, hstored]
  obtain ⟨heir, threads, hstep⟩ := exists_step_of_takeItem ht hidle hempty htake timeout
  refine ⟨heir, _, _, hstep, fun hkept => ?_⟩
  have hb : PriorityItem.hasPriority b.priority b = true := decide_eq_true rfl
  have hmem : a ∈ front.filter (PriorityItem.hasPriority b.priority) :=
    List.mem_filter.mpr ⟨ha, decide_eq_true hpriority⟩
  -- what is stored after the pop would have to be what was stored, without its first item
  have hafter := hkept b.priority
  rw [Machine.history_append, Machine.history_append, Machine.history_singleton,
    Machine.history_singleton, List.append_nil, List.filter_append, h b.priority,
    List.append_assoc, hstored, List.filter_append, List.filter_append,
    List.filter_cons_of_pos hb, List.filter_cons_of_pos hb, List.filter_nil,
    List.append_cancel_left_eq] at hafter
  have hrotate : front.filter (PriorityItem.hasPriority b.priority) ++ [b] =
      b :: front.filter (PriorityItem.hasPriority b.priority) := by
    apply List.append_cancel_right
    rw [List.append_assoc]
    exact hafter
  exact hne (eq_of_rotate hrotate hmem)

end Step

/-! ### Runs

The condition is one on the pops: none of them finds two items of the same highest
priority.  Where one finds two different ones, the pop that breaks the order is an event
that the machine takes. -/

/-- If an event is a section of `pop`, then the priority queue has no choice. -/
def NoChoice (s : State ι T P) (e : Event ι T P) : Prop := e.isPop s = true → SingleTop s.q

instance (s : State ι T P) (e : Event ι T P) : Decidable (NoChoice s e) :=
  inferInstanceAs (Decidable (_ → _))

/-- **Items of equal priority.**  In every run whose pops have no choice the order is kept;
and a pop that has a choice between different items may break an order kept so far. -/
theorem order_kept [Fintype ι] [DecidableEq ι] (mode : QueueMode) (maxSize : ℕ) :
    (∀ (trace : List (Event ι T P × Effect T P)) (s : State ι T P),
      ((machine ⟨true, mode, maxSize⟩ ι T P).restrict NoChoice).Execution trace s →
        OrderKept trace s) ∧
    ∀ (trace : List (Event ι T P × Effect T P)) (s : State ι T P)
      (front back : List (PriorityItem T P)) (a b : PriorityItem T P) (t : ι) (timeout : ℤ),
      (machine ⟨true, mode, maxSize⟩ ι T P).Execution trace s → OrderKept trace s →
      s.q.priorityQueue = front ++ b :: back → a ∈ front → a ≠ b → a.priority = b.priority →
      (∀ other ∈ s.q.priorityQueue, ¬b < other) → s.threads t = .outside →
      (mode.singleConsumer && s.q.consumerActive) = false →
        ∃ heir effect s',
          step ⟨true, mode, maxSize⟩ s (.call t (.pop timeout) front.length heir) =
            some (effect, s') ∧
          ¬OrderKept (trace ++ [(.call t (.pop timeout) front.length heir, effect)]) s' := by
  constructor
  · intro trace s h
    refine h.induct (I := OrderKept) ?_ ?_
    · rintro s rfl p
      rfl
    · intro trace s e effect s' _ hkept hs
      obtain ⟨hcond, hstep⟩ := Machine.restrict_step_eq_some.mp hs
      refine orderKept_move hkept (step_move hstep) ?_
      rintro ⟨item, hresult⟩
      exact hcond (isPop_of_step hstep hresult)
  · intro trace s front back a b t timeout _ hkept hstored ha hne hpriority hmax ht hidle
    exact exists_pop_breaks rfl hkept hstored ha hne hpriority hmax ht hidle timeout

/-- Pushes and pops with different priorities. -/
def differentPriorities : List (Event Unit ℕ ℕ) :=
  [.call () (.push 10 0 0) 0 none, .call () (.push 20 5 0) 0 none, .call () (.pop 0) 1 none,
    .call () (.push 30 0 0) 0 none]

/-- The run that schedule describes. -/
def differentPrioritiesRun : List (Event Unit ℕ ℕ × Effect ℕ ℕ) × State Unit ℕ ℕ :=
  ((machine ⟨true, .multiProducerMultiConsumer, 0⟩ Unit ℕ ℕ).restrict NoChoice).play initial
    differentPriorities (by decide)

/-- Two items without a priority are stored. -/
def twoItemsRun : List (Event Unit ℕ ℕ × Effect ℕ ℕ) × State Unit ℕ ℕ :=
  ((machine ⟨true, .multiProducerMultiConsumer, 0⟩ Unit ℕ ℕ).restrict NoChoice).play initial
    [.call () (.push 10 0 0) 0 none, .call () (.push 20 0 0) 0 none] (by decide)

/-- Here the order is kept as long as priorities differ, and lost with two equal ones. -/
theorem order_kept_differentPriorities :
    OrderKept differentPrioritiesRun.1 differentPrioritiesRun.2 ∧
      ∃ heir effect s',
        step ⟨true, .multiProducerMultiConsumer, 0⟩ twoItemsRun.2 (.call () (.pop 0) 1 heir) =
          some (effect, s') ∧
        ¬OrderKept (twoItemsRun.1 ++ [(.call () (.pop 0) 1 heir, effect)]) s' := by
  have htwo : ((machine ⟨true, .multiProducerMultiConsumer, 0⟩ Unit ℕ ℕ).restrict
      NoChoice).Execution twoItemsRun.1 twoItemsRun.2 := Machine.execution_play rfl _
  obtain ⟨hkept, hbreaks⟩ := order_kept (ι := Unit) (T := ℕ) (P := ℕ)
    .multiProducerMultiConsumer 0
  exact ⟨hkept _ _ (Machine.execution_play rfl _),
    hbreaks twoItemsRun.1 twoItemsRun.2 [⟨10, 0⟩] [] ⟨10, 0⟩ ⟨20, 0⟩ () 0 htwo.of_restrict
      (hkept _ _ htwo) (by decide) (by decide) (by decide) rfl (by decide) (by rfl) rfl⟩

/-- Four items without a priority, and the pops of a binary heap, which replaces its root
by the right child unless the left one is greater. -/
def fourItems : List (Event Unit ℕ ℕ) :=
  [.call () (.push 10 0 0) 0 none, .call () (.push 20 0 0) 0 none,
    .call () (.push 30 0 0) 0 none, .call () (.push 40 0 0) 0 none,
    .call () (.pop 0) 0 none, .call () (.pop 0) 1 none, .call () (.pop 0) 0 none,
    .call () (.pop 0) 0 none]

/-- The run that schedule describes. -/
def fourItemsRun : List (Event Unit ℕ ℕ × Effect ℕ ℕ) × State Unit ℕ ℕ :=
  (machine ⟨true, .multiProducerMultiConsumer, 0⟩ Unit ℕ ℕ).play initial fourItems (by decide)

/-- **The order is broken.**  Four items of one priority come as 10, 20, 30, 40 and leave as
10, 30, 20, 40. -/
theorem order_broken :
    (machine ⟨true, .multiProducerMultiConsumer, 0⟩ Unit ℕ ℕ).Execution fourItemsRun.1
        fourItemsRun.2 ∧
      (Machine.history Effect.inserted fourItemsRun.1).map PriorityItem.data = [10, 20, 30, 40] ∧
      (Machine.history Effect.popped fourItemsRun.1).map PriorityItem.data = [10, 30, 20, 40] ∧
      ¬OrderKept fourItemsRun.1 fourItemsRun.2 := by
  refine ⟨Machine.execution_play rfl _, by decide, by decide, fun h => ?_⟩
  have hzero := h 0
  revert hzero
  decide

end PcQueue
