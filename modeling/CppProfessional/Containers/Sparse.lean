import Mathlib.Data.List.AList
import Mathlib.Data.Set.Card

/-!
# Functions with a default value as finite maps

A function that differs from a default value at finitely many points can be kept as
the finite map of these points.  `Stores d data f` says that the map `data` is the one
of the function `f` with the default value `d`: it has no entry for the default value,
so the map is determined by the function up to the order of its entries.

* `Stores.erase`, `Stores.insert` — how an update of the function is done on the map;
* `Stores.lookup_getD`, `Stores.mem_entries`, `Stores.length_entries` — what a lookup,
  the entries and their number say about the function.
-/

namespace Containers

universe u v

variable {κ : Type u} {T : Type v} [DecidableEq κ]

/-- The map holds the values of the function that differ from the default value, and
nothing else. -/
def Stores (d : T) (data : AList fun _ : κ => T) (f : κ → T) : Prop :=
  ∀ k v, data.lookup k = some v ↔ f k = v ∧ v ≠ d

/-- The order in which a loop over an unordered map meets its entries.  Nothing is said
about it but that every entry is met once. -/
structure Arrangement (κ : Type u) (T : Type v) where
  arrange : List (Sigma fun _ : κ => T) → List (Sigma fun _ : κ => T)
  perm : ∀ entries, (arrange entries).Perm entries

/-- The entries as the map lists them. -/
def Arrangement.listed (κ : Type u) (T : Type v) : Arrangement κ T where
  arrange := id
  perm _ := .refl _

namespace Stores

variable {d : T} {data : AList fun _ : κ => T} {f : κ → T}

/-- The empty map is the one of the function that is constantly the default value. -/
theorem empty (d : T) : Stores d (∅ : AList fun _ : κ => T) fun _ => d := by
  intro k v
  rw [AList.lookup_empty]
  constructor
  · intro hnone
    cases hnone
  · rintro ⟨rfl, hne⟩
    exact absurd rfl hne

/-- The default value is assigned by erasing. -/
theorem erase (h : Stores d data f) (k : κ) :
    Stores d (data.erase k) (Function.update f k d) := by
  intro k' v
  by_cases hk : k' = k
  · subst hk
    rw [Function.update_self, AList.lookup_erase]
    constructor
    · intro hnone
      cases hnone
    · rintro ⟨rfl, hne⟩
      exact absurd rfl hne
  · rw [Function.update_of_ne hk, AList.lookup_erase_ne hk, h k']

/-- Any other value is assigned by inserting. -/
theorem insert (h : Stores d data f) (k : κ) {v : T} (hv : v ≠ d) :
    Stores d (data.insert k v) (Function.update f k v) := by
  intro k' v'
  by_cases hk : k' = k
  · subst hk
    rw [Function.update_self, AList.lookup_insert, Option.some_inj]
    constructor
    · rintro rfl
      exact ⟨rfl, hv⟩
    · exact And.left
  · rw [Function.update_of_ne hk, AList.lookup_insert_ne hk, h k']

/-- A lookup that falls back on the default value computes the function. -/
theorem lookup_getD (h : Stores d data f) (k : κ) : (data.lookup k).getD d = f k := by
  cases hlookup : data.lookup k with
  | some v => exact ((h k v).mp hlookup).1.symm
  | none =>
      by_contra hne
      rw [Option.getD_none] at hne
      have hsome := (h k (f k)).mpr ⟨rfl, Ne.symm hne⟩
      rw [hlookup] at hsome
      cases hsome

/-- The entries are the points at which the function differs from the default value. -/
theorem mem_entries (h : Stores d data f) {k : κ} {v : T} :
    ⟨k, v⟩ ∈ data.entries ↔ f k = v ∧ v ≠ d := by
  rw [← AList.mem_lookup_iff, Option.mem_def, h k v]

omit [DecidableEq κ] in
theorem nodup_entries (data : AList fun _ : κ => T) : data.entries.Nodup :=
  data.keys_nodup.of_map _

/-- The keys are the points at which the function differs from the default value. -/
theorem mem_keys (h : Stores d data f) {k : κ} : k ∈ data.keys ↔ f k ≠ d := by
  rw [← AList.mem_keys, ← AList.lookup_isSome, Option.isSome_iff_exists]
  constructor
  · rintro ⟨v, hv⟩
    obtain ⟨rfl, hne⟩ := (h k v).mp hv
    exact hne
  · intro hne
    exact ⟨f k, (h k (f k)).mpr ⟨rfl, hne⟩⟩

/-- The number of entries is the number of these points. -/
theorem length_entries (h : Stores d data f) :
    data.entries.length = {k | f k ≠ d}.ncard := by
  have hset : {k | f k ≠ d} = (data.keys.toFinset : Set κ) := by
    ext k
    rw [Set.mem_ofPred_eq, List.coe_toFinset, Set.mem_ofPred_eq, h.mem_keys]
  rw [hset, Set.ncard_coe_finset, List.toFinset_card_of_nodup data.keys_nodup]
  exact (List.length_map _).symm

end Stores

end Containers
