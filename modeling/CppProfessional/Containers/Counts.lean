import Mathlib.Algebra.BigOperators.Group.List.Basic
import Mathlib.Order.Lattice

/-!
# Counting equal values

A map from values to the number of their occurrences, as a list in ascending order.  The
counters may be machine numbers; the weighted sums over the map are the sums over what was
counted where they are natural numbers.

* `increment` — one more occurrence,
* `counts` — the occurrences in a list,
* `counts_eq_map` — counters of another type are the images of the natural ones,
* `sum_counts` — sums, for any function of the values.
-/

namespace Containers

variable {α M : Type*} [AddCommMonoid M]

/-- The sum over a map, every value as often as it occurs. -/
def weighted (f : α → M) (map : List (α × ℕ)) : M := (map.map fun x => x.2 • f x.1).sum

/-- An entry counts as often as it says. -/
theorem weighted_cons (f : α → M) (x : α × ℕ) (map : List (α × ℕ)) :
    weighted f (x :: map) = x.2 • f x.1 + weighted f map := by
  rw [weighted, List.map_cons, List.sum_cons]
  rfl

theorem weighted_perm (f : α → M) {map map' : List (α × ℕ)} (h : map.Perm map') :
    weighted f map = weighted f map' :=
  (h.map fun x : α × ℕ => x.2 • f x.1).sum_eq

/-- Maps one after the other add up. -/
theorem weighted_append (f : α → M) (front back : List (α × ℕ)) :
    weighted f (front ++ back) = weighted f front + weighted f back := by
  rw [weighted, List.map_append, List.sum_append]
  rfl

variable [LinearOrder α]

section Counters

variable {N : Type*} [OfNat N 1] [Add N]

/-- One more occurrence of a value. -/
def increment (a : α) : List (α × N) → List (α × N)
  | [] => [(a, 1)]
  | (b, n) :: rest =>
      if a < b then (a, 1) :: (b, n) :: rest
      else if b < a then (b, n) :: increment a rest
      else (b, n + 1) :: rest

/-- The occurrences in a list. -/
def counts (xs : List α) : List (α × N) := xs.foldl (fun map a => increment a map) []

variable {f : ℕ → N} (hone : f 1 = 1) (hsucc : ∀ n, f (n + 1) = f n + 1)

include hone hsucc

/-- Counting does not depend on what the counts are made of. -/
theorem increment_map (a : α) (map : List (α × ℕ)) :
    increment a (map.map fun entry => (entry.1, f entry.2)) =
      (increment a map).map fun entry => (entry.1, f entry.2) := by
  induction map with
  | nil => rw [increment, List.map_cons, hone]; rfl
  | cons x rest ih =>
      obtain ⟨b, n⟩ := x
      rw [List.map_cons, increment, increment]
      split_ifs
      · rw [List.map_cons, List.map_cons, hone]
      · rw [List.map_cons, ih]
      · rw [List.map_cons, hsucc]

/-- Counters of any type that are counted up in step with the natural numbers. -/
theorem counts_eq_map (xs : List α) :
    counts xs = (counts xs : List (α × ℕ)).map fun entry => (entry.1, f entry.2) := by
  have hfold (map : List (α × ℕ)) :
      xs.foldl (fun map a => increment a map) (map.map fun entry => (entry.1, f entry.2)) =
        (xs.foldl (fun map a => increment a map) map).map fun entry => (entry.1, f entry.2) := by
    induction xs generalizing map with
    | nil => rfl
    | cons a xs ih => rw [List.foldl_cons, List.foldl_cons, increment_map hone hsucc, ih]
  exact hfold []

end Counters

/-- Counting one more adds it once. -/
theorem weighted_increment (f : α → M) (a : α) (map : List (α × ℕ)) :
    weighted f (increment a map) = f a + weighted f map := by
  induction map with
  | nil => rw [increment, weighted_cons, one_nsmul]
  | cons x rest ih =>
      obtain ⟨b, n⟩ := x
      rw [increment]
      split_ifs with hlt hgt
      · rw [weighted_cons, one_nsmul]
      · rw [weighted_cons, weighted_cons, ih, add_left_comm]
      · obtain rfl : a = b := le_antisymm (not_lt.mp hgt) (not_lt.mp hlt)
        rw [weighted_cons, weighted_cons, succ_nsmul', add_assoc]

/-- **Sums over a map of counts.** -/
theorem sum_counts (f : α → M) (xs : List α) : weighted f (counts xs) = (xs.map f).sum := by
  have hfold (map : List (α × ℕ)) :
      weighted f (xs.foldl (fun map a => increment a map) map) =
        weighted f map + (xs.map f).sum := by
    induction xs generalizing map with
    | nil => exact (add_zero _).symm
    | cons a xs ih =>
        rw [List.foldl_cons, ih, weighted_increment, List.map_cons, List.sum_cons, add_comm (f a),
          add_assoc]
  rw [counts, hfold]
  exact zero_add _

/-! ### The entries of the map

The map is a list in ascending order without repetitions, so that an entry can be found
by its value, and what it adds to a sum is its own term. -/

/-- The values of a map. -/
def keys (map : List (α × ℕ)) : List α := map.map Prod.fst

omit [LinearOrder α] in
theorem mem_keys_of_mem {a : α} {n : ℕ} {map : List (α × ℕ)} (h : (a, n) ∈ map) : a ∈ keys map :=
  List.mem_map_of_mem h

/-- A key is there if it was there before or has just been counted. -/
theorem mem_keys_increment {a b : α} {map : List (α × ℕ)} :
    b ∈ keys (increment a map) ↔ b = a ∨ b ∈ keys map := by
  induction map with
  | nil => simp [increment, keys]
  | cons x rest ih =>
      obtain ⟨c, n⟩ := x
      rw [increment]
      split_ifs with hlt hgt
      · simp [keys]
      · simp only [keys, List.map_cons, List.mem_cons] at ih ⊢
        rw [ih, or_left_comm]
      · obtain rfl : a = c := le_antisymm (not_lt.mp hgt) (not_lt.mp hlt)
        simp [keys]

/-- The values stay in ascending order. -/
theorem pairwise_keys_increment {a : α} {map : List (α × ℕ)} (h : (keys map).Pairwise (· < ·)) :
    (keys (increment a map)).Pairwise (· < ·) := by
  induction map with
  | nil => exact List.pairwise_singleton ..
  | cons x rest ih =>
      obtain ⟨c, n⟩ := x
      obtain ⟨hfirst, hrest⟩ := List.pairwise_cons.mp h
      rw [increment]
      split_ifs with hlt hgt
      · refine List.pairwise_cons.mpr ⟨fun b hb => ?_, h⟩
        rcases List.mem_cons.mp hb with rfl | hb
        · exact hlt
        · exact hlt.trans (hfirst b hb)
      · refine List.pairwise_cons.mpr ⟨fun b hb => ?_, ih hrest⟩
        rcases mem_keys_increment.mp hb with rfl | hb
        · exact hgt
        · exact hfirst b hb
      · exact List.pairwise_cons.mpr ⟨hfirst, hrest⟩

/-- Every value that was counted is in the map, once. -/
theorem keys_counts (xs : List α) :
    (∀ a, a ∈ keys (counts xs) ↔ a ∈ xs) ∧ (keys (counts xs)).Pairwise (· < ·) := by
  have hfold (map : List (α × ℕ)) (hmap : (keys map).Pairwise (· < ·)) :
      (∀ a, a ∈ keys (xs.foldl (fun map a => increment a map) map) ↔ a ∈ keys map ∨ a ∈ xs) ∧
        (keys (xs.foldl (fun map a => increment a map) map)).Pairwise (· < ·) := by
    induction xs generalizing map with
    | nil => exact ⟨fun a => by simp, hmap⟩
    | cons b xs ih =>
        obtain ⟨hmem, hpairwise⟩ := ih (increment b map) (pairwise_keys_increment hmap)
        refine ⟨fun a => ?_, hpairwise⟩
        rw [List.foldl_cons, hmem, mem_keys_increment, List.mem_cons]
        exact or_assoc.trans or_left_comm
  obtain ⟨hmem, hpairwise⟩ := hfold [] List.Pairwise.nil
  exact ⟨fun a => (hmem a).trans (or_iff_right List.not_mem_nil), hpairwise⟩

/-- The sum over one value is the number of its occurrences. -/
theorem weighted_counts_single (a : α) (xs : List α) :
    weighted (fun b => if b = a then 1 else 0) (counts xs) = xs.count a := by
  rw [sum_counts]
  induction xs with
  | nil => rfl
  | cons b xs ih =>
      rw [List.map_cons, List.sum_cons, ih, List.count_cons, add_comm]
      simp only [beq_iff_eq]

/-- What an entry adds to the sum over its own value. -/
theorem weighted_single {a : α} {n : ℕ} {map : List (α × ℕ)} (hmem : (a, n) ∈ map)
    (h : (keys map).Pairwise (· < ·)) :
    weighted (fun b => if b = a then 1 else 0) map = n := by
  have hnone {rest : List (α × ℕ)} (hrest : a ∉ keys rest) :
      weighted (fun b => if b = a then 1 else 0) rest = 0 := by
    refine List.sum_eq_zero fun k hk => ?_
    obtain ⟨x, hx, rfl⟩ := List.mem_map.mp hk
    have hne : x.1 ≠ a := fun heq => hrest (heq ▸ List.mem_map_of_mem hx)
    exact (congrArg (x.2 • ·) (if_neg hne)).trans (nsmul_zero x.2)
  induction map with
  | nil => cases hmem
  | cons x rest ih =>
      obtain ⟨hfirst, hrest⟩ := List.pairwise_cons.mp h
      rw [weighted_cons]
      rcases List.mem_cons.mp hmem with rfl | hmem
      · rw [if_pos rfl, hnone fun ha => (hfirst a ha).false, add_zero, Nat.nsmul_eq_mul,
          mul_one]
      · have hne : x.1 ≠ a := (hfirst a (mem_keys_of_mem hmem)).ne
        rw [if_neg hne, nsmul_zero, zero_add, ih hmem hrest]

/-- **The entries of the map** are the values with the numbers of their occurrences. -/
theorem mem_counts {a : α} {n : ℕ} {xs : List α} :
    (a, n) ∈ counts xs ↔ a ∈ xs ∧ n = xs.count a := by
  obtain ⟨hkeys, hpairwise⟩ := keys_counts xs
  have hcount {k : ℕ} (hk : (a, k) ∈ counts xs) : k = xs.count a := by
    rw [← weighted_single hk hpairwise, weighted_counts_single]
  constructor
  · intro h
    exact ⟨(hkeys a).mp (mem_keys_of_mem h), hcount h⟩
  · rintro ⟨ha, rfl⟩
    obtain ⟨⟨b, k⟩, hmem, rfl⟩ := List.mem_map.mp ((hkeys a).mpr ha)
    exact hcount hmem ▸ hmem

end Containers
