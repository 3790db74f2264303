import Mathlib.Data.List.Basic

/-!
# Items and their places

A `Ledger` lists the items that have entered a system, in the order in which they
entered, each with the place where it is now.  That an item is in one place only,
and that nothing is lost or doubled, is then a matter of the type; what is left to
prove of a system is that the items at a place are those it stores there.

* `Ledger.record` — an item enters;
* `Ledger.move` — everything at one place goes to another;
* `Ledger.itemsAt` — the items at a place, in the order in which they entered.

A move takes everything at a place with it.  That is what clearing a buffer does, and it makes
a move describable without naming the items: an item cannot stay behind.
-/

namespace Transition

universe u v

/-- Items in the order in which they entered, with the place of each. -/
structure Ledger (α : Type u) (π : Type v) where
  entries : List (α × π)

namespace Ledger

variable {α : Type u} {π : Type v}

/-- Nothing has entered. -/
def empty : Ledger α π := ⟨[]⟩

/-- Everything that has entered. -/
def items (l : Ledger α π) : List α := l.entries.map Prod.fst

/-- An item enters. -/
def record (l : Ledger α π) (a : α) (p : π) : Ledger α π := ⟨l.entries ++ [(a, p)]⟩

/-- A new item is added at the end. -/
@[simp] theorem items_record (l : Ledger α π) (a : α) (p : π) :
    (l.record a p).items = l.items ++ [a] := by
  show (l.entries ++ [(a, p)]).map Prod.fst = _
  rw [List.map_append]
  rfl

/-- A property of all entries, when an item enters. -/
theorem forall_record {P : α → π → Prop} {l : Ledger α π} {a : α} {p : π}
    (h : ∀ x ∈ l.entries, P x.1 x.2) (ha : P a p) : ∀ x ∈ (l.record a p).entries, P x.1 x.2 := by
  intro x hx
  rcases List.mem_append.mp hx with hx | hx
  · exact h x hx
  · rw [List.mem_singleton.mp hx]
    exact ha

variable [DecidableEq π]

/-- The items at a place. -/
def itemsAt (l : Ledger α π) (p : π) : List α :=
  (l.entries.filter fun x => x.2 = p).map Prod.fst

/-- Everything at place `p` goes to place `q`. -/
def move (l : Ledger α π) (p q : π) : Ledger α π :=
  ⟨l.entries.map fun x => (x.1, if x.2 = p then q else x.2)⟩

@[simp] theorem itemsAt_record_self (l : Ledger α π) (a : α) (p : π) :
    (l.record a p).itemsAt p = l.itemsAt p ++ [a] := by
  simp [itemsAt, record]

theorem itemsAt_record_of_ne (l : Ledger α π) (a : α) {p q : π} (hpq : p ≠ q) :
    (l.record a p).itemsAt q = l.itemsAt q := by
  simp [itemsAt, record, hpq]

@[simp] theorem items_move (l : Ledger α π) (p q : π) : (l.move p q).items = l.items := by
  show (l.entries.map _).map Prod.fst = _
  rw [List.map_map]
  rfl

/-- The items at a place after a move, read off the entries before it. -/
theorem itemsAt_move (l : Ledger α π) (p q r : π) :
    (l.move p q).itemsAt r =
      (l.entries.filter fun x => (if x.2 = p then q else x.2) = r).map Prod.fst := by
  simp only [itemsAt, move, List.filter_map, List.map_map]
  rfl

/-- The place that is left is empty afterwards. -/
theorem itemsAt_move_source (l : Ledger α π) {p q : π} (hpq : p ≠ q) :
    (l.move p q).itemsAt p = [] := by
  rw [itemsAt_move, List.map_eq_nil_iff, List.filter_eq_nil_iff]
  intro x _
  by_cases hx : x.2 = p
  · simpa [hx] using hpq.symm
  · simp [hx]

/-- An empty place receives what the other one held, in the same order.  Were it not empty, the
order in which the items had entered would mix the two. -/
theorem itemsAt_move_target (l : Ledger α π) {p q : π} (hq : l.itemsAt q = []) :
    (l.move p q).itemsAt q = l.itemsAt p := by
  rw [itemsAt_move, itemsAt]
  congr 1
  apply List.filter_congr
  intro x hx
  have hother : x.2 ≠ q := by
    rw [itemsAt, List.map_eq_nil_iff, List.filter_eq_nil_iff] at hq
    simpa using hq x hx
  by_cases hp : x.2 = p <;> simp [hp, hother]

/-- At other places nothing happens. -/
theorem itemsAt_move_of_ne (l : Ledger α π) {p q r : π} (hp : r ≠ p) (hq : r ≠ q) :
    (l.move p q).itemsAt r = l.itemsAt r := by
  rw [itemsAt_move, itemsAt]
  congr 1
  apply List.filter_congr
  intro x _
  by_cases hx : x.2 = p
  · simp [hx, hq.symm, hp.symm]
  · simp [hx]

/-- A property of all entries, when everything at one place goes to another.  The items that
stay are asked to keep theirs as well, because the property may speak about the state of the
system, which has changed. -/
theorem forall_move {P Q : α → π → Prop} {l : Ledger α π} {p q : π}
    (h : ∀ x ∈ l.entries, P x.1 x.2) (hmoved : ∀ a, P a p → Q a q)
    (hstays : ∀ a r, r ≠ p → P a r → Q a r) : ∀ x ∈ (l.move p q).entries, Q x.1 x.2 := by
  intro x hx
  obtain ⟨y, hy, rfl⟩ := List.mem_map.mp hx
  by_cases hp : y.2 = p
  · have hplace : (if y.2 = p then q else y.2) = q := if_pos hp
    show Q y.1 (if y.2 = p then q else y.2)
    rw [hplace]
    exact hmoved y.1 (hp ▸ h y hy)
  · have hplace : (if y.2 = p then q else y.2) = y.2 := if_neg hp
    show Q y.1 (if y.2 = p then q else y.2)
    rw [hplace]
    exact hstays y.1 y.2 hp (h y hy)

end Ledger

end Transition
