import Mathlib.Data.List.Basic
import Mathlib.Data.List.Induction
import Mathlib.Data.List.Nodup

/-!
# Grouping through an unordered map

A loop that runs `map[key(x)].emplace_back(x)` over a sequence, and a loop that then
goes over the vectors of the map, split the sequence into its classes of equal keys.
The order in which the second loop meets them is not specified: it is a parameter here,
an `Iteration`.

* `emplaceBack`, `collect` — the first loop; the map is a list of its entries;
* `Iteration.visit` — the vectors in the order of the second loop;
* `mem_visit`, `visit_disjoint` — the vectors are the classes of equal keys, with the
  elements in the order of the sequence, and no two of them share an element.
-/

namespace Containers

universe u v

variable {κ : Type u} {α : Type v} [DecidableEq κ]

/-- `map[key].emplace_back(x)` on an unordered map of vectors. -/
def emplaceBack (key : κ) (x : α) (buckets : List (κ × List α)) : List (κ × List α) :=
  if key ∈ buckets.map Prod.fst then
    buckets.map fun bucket => (bucket.1, if bucket.1 = key then bucket.2 ++ [x] else bucket.2)
  else buckets ++ [(key, [x])]

/-- The map after a loop over `xs`. -/
def collect (key : α → κ) (xs : List α) : List (κ × List α) :=
  xs.foldl (fun buckets x => emplaceBack (key x) x buckets) []

/-- The order in which a loop meets the entries of an unordered map. -/
structure Iteration (κ : Type u) (α : Type v) where
  arrange : List (κ × List α) → List (κ × List α)
  perm : ∀ buckets, (arrange buckets).Perm buckets

/-- The entries in the order in which their keys were inserted. -/
def Iteration.inserted (κ : Type u) (α : Type v) : Iteration κ α where
  arrange := id
  perm _ := .refl _

/-- The vectors of the map, in the order of a loop over it. -/
def Iteration.visit (order : Iteration κ α) (buckets : List (κ × List α)) : List (List α) :=
  (order.arrange buckets).map Prod.snd

variable {key : α → κ} {xs : List α}

theorem collect_concat (xs : List α) (x : α) :
    collect key (xs ++ [x]) = emplaceBack (key x) x (collect key xs) := by
  simp only [collect, List.foldl_append, List.foldl_cons, List.foldl_nil]

/-- Only the keys of the elements matter. -/
theorem collect_congr {key' : α → κ} (h : ∀ x ∈ xs, key x = key' x) :
    collect key xs = collect key' xs := by
  induction xs using List.reverseRecOn with
  | nil => rfl
  | append_singleton xs x ih =>
      rw [collect_concat, collect_concat, ih fun y hy => h y (List.mem_append_left _ hy),
        h x (by simp)]

/-- A key that is new is the last one. -/
theorem emplaceBack_keys (k : κ) (x : α) (buckets : List (κ × List α)) :
    (emplaceBack k x buckets).map Prod.fst =
      if k ∈ buckets.map Prod.fst then buckets.map Prod.fst else buckets.map Prod.fst ++ [k] := by
  unfold emplaceBack
  split
  · rw [List.map_map]
    rfl
  · rw [List.map_append]
    rfl

/-- The keys of the map are the keys of the elements. -/
theorem mem_collect_keys {k : κ} : k ∈ (collect key xs).map Prod.fst ↔ k ∈ xs.map key := by
  induction xs using List.reverseRecOn with
  | nil => rfl
  | append_singleton xs x ih =>
      rw [collect_concat, emplaceBack_keys, List.map_append, List.mem_append, ← ih]
      split
      · next hmem =>
          constructor
          · exact Or.inl
          · rintro (hold | hnew)
            · exact hold
            · rw [List.map_singleton, List.mem_singleton] at hnew
              exact hnew ▸ hmem
      · exact List.mem_append

/-- No two buckets have one key. -/
theorem collect_keys_nodup : ((collect key xs).map Prod.fst).Nodup := by
  induction xs using List.reverseRecOn with
  | nil => exact List.nodup_nil
  | append_singleton xs x ih =>
      rw [collect_concat, emplaceBack_keys]
      split
      · exact ih
      · next hnew =>
          rw [List.nodup_append]
          refine ⟨ih, List.nodup_singleton _, fun k hk k' hk' heq => ?_⟩
          rw [List.mem_singleton.mp hk'] at heq
          exact hnew (heq ▸ hk)

/-- **The vector under a key** has the elements with this key, in the order in which they
came. -/
theorem mem_collect {k : κ} {bucket : List α} (h : (k, bucket) ∈ collect key xs) :
    bucket = xs.filter fun x => key x = k := by
  induction xs using List.reverseRecOn generalizing bucket with
  | nil => cases h
  | append_singleton xs x ih =>
      rw [collect_concat] at h
      rw [List.filter_append]
      unfold emplaceBack at h
      split at h
      · obtain ⟨⟨k', old⟩, hold, heq⟩ := List.mem_map.mp h
        simp only [Prod.mk.injEq] at heq
        obtain ⟨rfl, rfl⟩ := heq
        rw [← ih hold]
        by_cases hkey : k' = key x
        · simp [hkey]
        · simp [hkey, Ne.symm hkey]
      · next hnew =>
          rcases List.mem_append.mp h with hold | hlast
          · have hne : key x ≠ k := fun heq => hnew (heq ▸ List.mem_map_of_mem hold)
            rw [ih hold]
            simp [hne]
          · obtain ⟨rfl, rfl⟩ : k = key x ∧ bucket = [x] := by simpa using hlast
            have hnone : xs.filter (fun y => key y = key x) = [] := by
              rw [List.filter_eq_nil_iff]
              intro y hy heq
              refine hnew (mem_collect_keys.mpr ?_)
              rw [← of_decide_eq_true heq]
              exact List.mem_map_of_mem hy
            rw [hnone]
            simp

variable (order : Iteration κ α)

/-- **The classes of equal keys.** -/
theorem mem_visit {bucket : List α} : bucket ∈ order.visit (collect key xs) ↔
    ∃ x ∈ xs, bucket = xs.filter fun y => key y = key x := by
  have hvisit : bucket ∈ order.visit (collect key xs) ↔ ∃ k, (k, bucket) ∈ collect key xs := by
    simp [Iteration.visit, (order.perm _).mem_iff]
  rw [hvisit]
  constructor
  · rintro ⟨k, hk⟩
    obtain ⟨x, hx, hkey⟩ := List.mem_map.mp (mem_collect_keys.mp (List.mem_map_of_mem hk))
    refine ⟨x, hx, ?_⟩
    rw [hkey]
    exact mem_collect hk
  · rintro ⟨x, hx, rfl⟩
    have hmem : key x ∈ (collect key xs).map Prod.fst :=
      mem_collect_keys.mpr (List.mem_map_of_mem hx)
    obtain ⟨⟨k, bucket⟩, hentry, hkey⟩ := List.mem_map.mp hmem
    obtain rfl : k = key x := hkey
    rw [← mem_collect hentry]
    exact ⟨key x, hentry⟩

/-- The loop over the map meets every element. -/
theorem mem_visit_flatten {x : α} : x ∈ (order.visit (collect key xs)).flatten ↔ x ∈ xs := by
  rw [List.mem_flatten]
  constructor
  · rintro ⟨bucket, hbucket, hx⟩
    obtain ⟨y, -, rfl⟩ := (mem_visit order).mp hbucket
    exact List.mem_of_mem_filter hx
  · intro hx
    exact ⟨_, (mem_visit order).mpr ⟨x, hx, rfl⟩, by simp [hx]⟩

/-- No two of the vectors share an element. -/
theorem visit_disjoint : (order.visit (collect key xs)).Pairwise List.Disjoint := by
  have hkeys : ((order.arrange (collect key xs)).map Prod.fst).Nodup :=
    ((order.perm (collect key xs)).map Prod.fst).nodup_iff.mpr collect_keys_nodup
  rw [Iteration.visit, List.pairwise_map]
  refine (List.pairwise_map.mp hkeys).imp_of_mem ?_
  rintro ⟨k, bucket⟩ ⟨k', bucket'⟩ hentry hentry' hne x hx hx'
  apply hne
  have hbucket := mem_collect ((order.perm _).mem_iff.mp hentry)
  have hbucket' := mem_collect ((order.perm _).mem_iff.mp hentry')
  rw [hbucket] at hx
  rw [hbucket'] at hx'
  simp only [List.mem_filter, decide_eq_true_eq] at hx hx'
  exact hx.2.symm.trans hx'.2

/-- The loop over the map meets no element twice. -/
theorem visit_nodup (hnodup : xs.Nodup) : (order.visit (collect key xs)).flatten.Nodup := by
  rw [List.nodup_flatten]
  refine ⟨fun bucket hbucket => ?_, visit_disjoint order⟩
  obtain ⟨x, -, rfl⟩ := (mem_visit order).mp hbucket
  exact hnodup.filter _

end Containers
