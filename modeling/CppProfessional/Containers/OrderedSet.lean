import Mathlib.Data.List.Sort

/-!
# An ordered set as a sorted list

`std::set` keeps its elements in ascending order.  It is the list of its elements here,
and `insertIf` is a loop that inserts some elements of a sequence.

* `setInsert` — `set.insert(x)`;
* `Ascending` — the elements of a set, in order and without repetition.

The list determines the set and the set the list, so that a loop over the set is a loop over
the list and two sets with the same elements are equal.
-/

namespace Containers

universe u

variable {α : Type u} [LinearOrder α]

/-- `set.insert(x)` -/
def setInsert (x : α) (set : List α) : List α :=
  if x ∈ set then set else set.orderedInsert (· ≤ ·) x

/-- A loop that inserts the elements of `xs` with `p`. -/
def insertIf (p : α → Prop) [DecidablePred p] (set xs : List α) : List α :=
  xs.foldl (fun set x => if p x then setInsert x set else set) set

/-- In strictly ascending order. -/
def Ascending (set : List α) : Prop := set.Pairwise (· < ·)

/-- The set has one element more, or the same. -/
theorem mem_setInsert {x y : α} {set : List α} : y ∈ setInsert x set ↔ y = x ∨ y ∈ set := by
  unfold setInsert
  split
  · next hmem =>
      exact ⟨Or.inr, fun h => h.elim (fun heq => heq ▸ hmem) id⟩
  · rw [List.mem_orderedInsert]

/-- It stays in ascending order. -/
theorem Ascending.setInsert {set : List α} (h : Ascending set) (x : α) :
    Ascending (setInsert x set) := by
  unfold Containers.setInsert
  split
  · exact h
  · next hnew =>
      have hsorted : (set.orderedInsert (· ≤ ·) x).Pairwise (· ≤ ·) :=
        List.Pairwise.orderedInsert x set (h.imp le_of_lt)
      have hnodup : (set.orderedInsert (· ≤ ·) x).Nodup := by
        rw [(List.perm_orderedInsert (· ≤ ·) x set).nodup_iff, List.nodup_cons]
        exact ⟨hnew, h.imp ne_of_lt⟩
      exact (hsorted.and hnodup).imp fun hle => lt_of_le_of_ne hle.1 hle.2

variable {p : α → Prop} [DecidablePred p]

/-- All elements that meet the condition come into the set, and no others; an element that is
there already is not added again. -/
theorem mem_insertIf {xs set : List α} {y : α} :
    y ∈ insertIf p set xs ↔ y ∈ set ∨ y ∈ xs ∧ p y := by
  induction xs generalizing set with
  | nil => simp [insertIf]
  | cons x xs ih =>
      show y ∈ insertIf p (if p x then setInsert x set else set) xs ↔ _
      rw [ih, List.mem_cons]
      split
      · next hx =>
          rw [mem_setInsert]
          constructor
          · rintro ((rfl | hset) | ⟨hxs, hy⟩)
            · exact Or.inr ⟨Or.inl rfl, hx⟩
            · exact Or.inl hset
            · exact Or.inr ⟨Or.inr hxs, hy⟩
          · rintro (hset | ⟨rfl | hxs, hy⟩)
            · exact Or.inl (Or.inr hset)
            · exact Or.inl (Or.inl rfl)
            · exact Or.inr ⟨hxs, hy⟩
      · next hx =>
          refine or_congr_right ⟨fun h => ⟨Or.inr h.1, h.2⟩, ?_⟩
          rintro ⟨rfl | hxs, hy⟩
          · exact absurd hy hx
          · exact ⟨hxs, hy⟩

/-- It stays in ascending order, whatever order they come in. -/
theorem Ascending.insertIf {set : List α} (h : Ascending set) (xs : List α) :
    Ascending (insertIf p set xs) := by
  induction xs generalizing set with
  | nil => exact h
  | cons x xs ih =>
      show Ascending (Containers.insertIf p (if p x then Containers.setInsert x set else set) xs)
      apply ih
      split
      · exact h.setInsert x
      · exact h

end Containers
