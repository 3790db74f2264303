import Mathlib.Data.List.Nodup
import Mathlib.Data.List.Perm.Subperm
import Mathlib.Logic.Function.Basic

/-!
# Singly linked chains

Nodes in a memory, each with the address of the next one.  `Chain cells q p xs` says
that from the pointer `p` one comes through the nodes `xs` to the pointer `q`; a null
pointer is `none`.

* `Chain.frame` — a chain does not see the memory outside its nodes;
* `Chain.snoc`, `Chain.of_snoc` — the last node of a chain;
* `Chain.link` — a new node behind the last one;
* `walk` — the values on the way through a chain, `walk_eq` says which.
-/

namespace Containers

universe u

/-- A node: the pointer to the next one, and a value. -/
structure Node (T : Type u) where
  next : Option ℕ
  val : T
  deriving DecidableEq, Repr

variable {T : Type u} {cells cells' : ℕ → Option (Node T)} {p q : Option ℕ}
  {xs : List (ℕ × T)} {a b : ℕ} {v w : T}

/-- The nodes from one pointer to another. -/
inductive Chain (cells : ℕ → Option (Node T)) (q : Option ℕ) : Option ℕ → List (ℕ × T) → Prop
  | nil : Chain cells q q []
  | cons {a : ℕ} {next : Option ℕ} {v : T} {xs : List (ℕ × T)} :
      cells a = some ⟨next, v⟩ → Chain cells q next xs → Chain cells q (some a) ((a, v) :: xs)

namespace Chain

/-- A chain does not see the memory outside its nodes. -/
theorem frame (h : Chain cells q p xs) (hsame : ∀ x ∈ xs, cells' x.1 = cells x.1) :
    Chain cells' q p xs := by
  induction h with
  | nil => exact .nil
  | cons hcell _ ih =>
      rw [List.forall_mem_cons] at hsame
      exact .cons (hsame.1.trans hcell) (ih hsame.2)

/-- A chain goes on where its last cell points to. -/
theorem snoc (h : Chain cells (some a) p xs) (hcell : cells a = some ⟨q, v⟩) :
    Chain cells q p (xs ++ [(a, v)]) := by
  induction h with
  | nil => exact .cons hcell .nil
  | cons hfirst _ ih => exact .cons hfirst ih

/-- A chain with a last cell is a chain up to it. -/
theorem of_snoc (h : Chain cells q p (xs ++ [(a, v)])) :
    Chain cells (some a) p xs ∧ cells a = some ⟨q, v⟩ := by
  induction xs generalizing p with
  | nil =>
      cases h with
      | cons hcell hrest =>
          cases hrest
          exact ⟨.nil, hcell⟩
  | cons x xs ih =>
      cases h with
      | cons hcell hrest =>
          obtain ⟨hchain, hlast⟩ := ih hrest
          exact ⟨.cons hcell hchain, hlast⟩

theorem eq_nil (h : Chain cells none none xs) : xs = [] := by
  cases h
  rfl

/-- A pointer that is not null leads to a last node. -/
theorem exists_last (h : Chain cells none (some b) xs) :
    ∃ front a v, xs = front ++ [(a, v)] ∧ cells a = some ⟨none, v⟩ := by
  rcases List.eq_nil_or_concat xs with rfl | ⟨front, ⟨a, v⟩, rfl⟩
  · cases h
  · rw [List.concat_eq_append] at h
    exact ⟨front, a, v, List.concat_eq_append, h.of_snoc.2⟩

/-- A new node behind the last one. -/
theorem link (h : Chain cells none p (xs ++ [(a, v)]))
    (hnodup : ((xs ++ [(a, v)]).map Prod.fst).Nodup)
    (hfresh : b ∉ (xs ++ [(a, v)]).map Prod.fst) :
    Chain (Function.update (Function.update cells b (some ⟨none, w⟩)) a (some ⟨some b, v⟩)) none p
      (xs ++ [(a, v)] ++ [(b, w)]) := by
  obtain ⟨hchain, -⟩ := h.of_snoc
  have hne : b ≠ a := by
    rintro rfl
    exact hfresh (by simp)
  have hlast : ∀ x ∈ xs, x.1 ≠ a := by
    intro x hx heq
    rw [List.map_append, List.nodup_append] at hnodup
    exact hnodup.2.2 x.1 (List.mem_map_of_mem hx) a (by simp) heq
  have hnew : ∀ x ∈ xs, x.1 ≠ b := by
    intro x hx heq
    exact hfresh (heq ▸ List.mem_map_of_mem (List.mem_append_left _ hx))
  refine ((hchain.frame ?_).snoc ?_).snoc ?_
  · intro x hx
    rw [Function.update_of_ne (hlast x hx), Function.update_of_ne (hnew x hx)]
  · rw [Function.update_self]
  · rw [Function.update_of_ne hne, Function.update_self]

/-- The addresses of a chain below a bound are not more than the bound. -/
theorem length_le {bound : ℕ} (hnodup : (xs.map Prod.fst).Nodup)
    (hlt : ∀ x ∈ xs, x.1 < bound) : xs.length ≤ bound := by
  have hsub : xs.map Prod.fst ⊆ List.range bound := by
    intro address haddress
    obtain ⟨x, hx, rfl⟩ := List.mem_map.mp haddress
    exact List.mem_range.mpr (hlt x hx)
  have hle := (hnodup.subperm hsub).length_le
  rwa [List.length_map, List.length_range] at hle

end Chain

/-- The values on the way from a pointer, as far as the fuel lasts. -/
def walk (cells : ℕ → Option (Node T)) : ℕ → Option ℕ → List T
  | fuel + 1, some a =>
      match cells a with
      | some node => node.val :: walk cells fuel node.next
      | none => []
  | _, _ => []

/-- Walked from its first cell, a chain gives its values in order, given steps enough. -/
theorem walk_eq (h : Chain cells none p xs) {fuel : ℕ} (hfuel : xs.length ≤ fuel) :
    walk cells fuel p = xs.map Prod.snd := by
  induction h generalizing fuel with
  | nil => cases fuel <;> rfl
  | cons hcell _ ih =>
      cases fuel with
      | zero => cases hfuel
      | succ fuel =>
          rw [walk, hcell, List.map_cons]
          exact congrArg _ (ih (Nat.le_of_succ_le_succ hfuel))

end Containers
