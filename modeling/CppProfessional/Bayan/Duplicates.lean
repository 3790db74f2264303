import CppProfessional.Bayan.Files
import CppProfessional.Containers.Buckets
import Mathlib.Data.List.GetD

/-!
# The duplicate finder

`DuplicateFinder` groups the files by their size, goes through the blocks of each class
of equal sizes, keeping the files whose hash of the block is that of another file kept so
far, and groups what is left by the concatenation of all hashes.

* `filterRounds`, `findDuplicatesInGroup`, `findDuplicates` — the three loops;
* `KeepsCompany` — which files the loop over the blocks keeps: the files kept by a round
  are not held apart by the earlier blocks;
* `Groups` — what the search returns: the classes of the kept files of one size under
  equality of the concatenated hashes;
* `duplicates_sound_iff`, `duplicates_complete` — the groups hold every pair of equal
  files, and they hold nothing else exactly if the files are `Separated`.
-/

namespace Bayan

open Transition Containers

universe u

section Search

variable {ι : Type u} [DecidableEq ι] [Fintype ι] (sys : System) (hash : Bytes → Text)
  (byHash : Iteration Text ι) (bySize : Iteration ℕ ι)

/-- One round: the files by the hashes of their blocks `k`. -/
def hashRound (k : ℕ) (files : List ι) (s : Search ι) :
    Except (Thrown ι) (List (Text × List ι) × Search ι) :=
  files.foldlM (fun (filesByHash, s) file => do
    let (hashed, s) ← computeBlockHash sys hash k file s
    pure (emplaceBack hashed file filesByHash, s)) ([], s)

/-- What the loop over `files_by_hash` puts back into the list of files. -/
def refill (filesByHash : List (Text × List ι)) : List ι :=
  ((byHash.visit filesByHash).filter fun hashGroup => 2 ≤ hashGroup.length).flatten

/-- The loop over the blocks. -/
def filterRounds : List ℕ → List ι → Search ι → Except (Thrown ι) (List ι × Search ι)
  | [], files, s => pure (files, s)
  | k :: blocks, files, s => do
      let (filesByHash, s) ← hashRound sys hash k files s
      let files := refill byHash filesByHash
      if files.isEmpty then pure (files, s) else filterRounds blocks files s

/-- `DuplicateFinder::find_duplicates_in_group(files)` -/
def findDuplicatesInGroup (blockSize : ℕ) (files : List ι) (s : Search ι) :
    Except (Thrown ι) (List (List FileInfo) × Search ι) := do
  let size := (files.head?.map fun file => (s.files file).size).getD 0
  let (files, s) ← filterRounds sys hash byHash (List.range (numBlocks size blockSize)) files s
  let filesByAllHashes := collect (fun file => (s.files file).hashes.flatten) files
  pure ((byHash.visit filesByAllHashes).map
    fun group => group.map fun file => (s.files file).copy, s)

/-- `DuplicateFinder::find_duplicates(files)` -/
def findDuplicates (blockSize : ℕ) (files : List ι) (s : Search ι) :
    Except (Thrown ι) (List (List FileInfo) × Search ι) :=
  (bySize.visit (collect (fun file => (s.files file).size) files)).foldlM
    (fun (duplicateGroups, s) sizeGroup =>
      if sizeGroup.length < 2 then pure (duplicateGroups, s)
      else do
        let (groups, s) ← findDuplicatesInGroup sys hash byHash blockSize sizeGroup s
        pure (duplicateGroups ++ groups, s)) ([], s)

end Search

/-! ### The loop over the blocks

The loop keeps a file in round `k` if another file kept so far has the same hash of
block `k`, and that file may be a different one in each round.  This is why a file can
survive without a twin; `KeepsCompany` says exactly what survives. -/

section Rounds

variable {ι : Type u}

/-- File `x` is one of several files, and at each of the first `n` blocks another file
that kept company so far has the same hash. -/
def KeepsCompany (files : List ι) (H : ι → ℕ → Text) : ℕ → ι → Prop
  | 0, x => x ∈ files ∧ ∃ y ∈ files, y ≠ x
  | n + 1, x => KeepsCompany files H n x ∧
      ∃ y, y ≠ x ∧ KeepsCompany files H n y ∧ H y n = H x n

instance decidableKeepsCompany [DecidableEq ι] [Fintype ι] (files : List ι) (H : ι → ℕ → Text) :
    (n : ℕ) → (x : ι) → Decidable (KeepsCompany files H n x)
  | 0, x => inferInstanceAs (Decidable (x ∈ files ∧ ∃ y ∈ files, y ≠ x))
  | n + 1, x =>
      have := decidableKeepsCompany files H n
      inferInstanceAs (Decidable (KeepsCompany files H n x ∧
        ∃ y, y ≠ x ∧ KeepsCompany files H n y ∧ H y n = H x n))

variable {files : List ι} {H : ι → ℕ → Text}

/-- Who keeps company for many blocks has kept it for fewer. -/
theorem KeepsCompany.of_add {m n : ℕ} {x : ι} (h : KeepsCompany files H (m + n) x) :
    KeepsCompany files H m x := by
  induction n with
  | zero => exact h
  | succ n ih => exact ih h.1

/-- Who keeps company at all is one of the files, and not the only one. -/
theorem KeepsCompany.start {n : ℕ} {x : ι} (h : KeepsCompany files H n x) :
    x ∈ files ∧ ∃ y ∈ files, y ≠ x := by
  induction n with
  | zero => exact h
  | succ n ih => exact ih h.1

/-- Two files with the same hashes keep each other company. -/
theorem keepsCompany_of_twin {x y : ι} (hx : x ∈ files) (hy : y ∈ files) (hne : x ≠ y) {n : ℕ}
    (hsame : ∀ k < n, H x k = H y k) : KeepsCompany files H n x ∧ KeepsCompany files H n y := by
  induction n with
  | zero => exact ⟨⟨hx, y, hy, hne.symm⟩, hy, x, hx, hne⟩
  | succ n ih =>
      obtain ⟨hkeptx, hkepty⟩ := ih fun k hk => hsame k (Nat.lt_succ_of_lt hk)
      have hlast := hsame n (Nat.lt_succ_self n)
      exact ⟨⟨hkeptx, y, hne.symm, hkepty, hlast.symm⟩, hkepty, x, hne, hkeptx, hlast⟩

variable [DecidableEq ι]

/-- A class has two elements if it has one other than the one given. -/
theorem two_le_length_iff {xs : List ι} (hnodup : xs.Nodup) {x : ι} (hx : x ∈ xs) :
    2 ≤ xs.length ↔ ∃ y ∈ xs, y ≠ x := by
  constructor
  · intro htwo
    by_contra hnone
    have hsub : xs ⊆ [x] := fun y hy => by
      by_contra hne
      exact hnone ⟨y, hy, fun heq => hne (heq ▸ List.mem_singleton_self x)⟩
    have hlen := (List.subperm_of_subset hnodup hsub).length_le
    rw [List.length_singleton] at hlen
    omega
  · rintro ⟨y, hy, hne⟩
    have hpair : [x, y].Nodup := by simp [Ne.symm hne]
    have hsub : [x, y] ⊆ xs := by simp [hx, hy]
    exact (List.subperm_of_subset hpair hsub).length_le

variable (byHash : Iteration Text ι)

/-- **One round keeps the files that have company.**  The buckets of the hash map are put
together again in any order, so the statement is one of membership. -/
theorem mem_refill {xs : List ι} (hnodup : xs.Nodup) {key : ι → Text} {x : ι} :
    x ∈ refill byHash (collect key xs) ↔ x ∈ xs ∧ ∃ y, y ≠ x ∧ y ∈ xs ∧ key y = key x := by
  have hclass (hx : x ∈ xs) : 2 ≤ (xs.filter fun y => key y = key x).length ↔
      ∃ y, y ≠ x ∧ y ∈ xs ∧ key y = key x := by
    rw [two_le_length_iff (hnodup.filter _) (x := x) (by simp [hx])]
    apply exists_congr
    intro y
    rw [List.mem_filter, decide_eq_true_eq, and_comm]
  constructor
  · intro hmem
    obtain ⟨group, hgroup, hxgroup⟩ := List.mem_flatten.mp hmem
    obtain ⟨hvisit, htwo⟩ := List.mem_filter.mp hgroup
    obtain ⟨z, -, rfl⟩ := (mem_visit byHash).mp hvisit
    obtain ⟨hx, hkey⟩ := List.mem_filter.mp hxgroup
    rw [← of_decide_eq_true hkey] at htwo
    exact ⟨hx, (hclass hx).mp (of_decide_eq_true htwo)⟩
  · rintro ⟨hx, hcompany⟩
    refine List.mem_flatten.mpr ⟨xs.filter fun y => key y = key x, ?_, by simp [hx]⟩
    refine List.mem_filter.mpr ⟨(mem_visit byHash).mpr ⟨x, hx, rfl⟩, ?_⟩
    exact decide_eq_true ((hclass hx).mpr hcompany)

omit [DecidableEq ι] in
/-- Collecting files by a hash and pouring them out again doubles none. -/
theorem refill_nodup {xs : List ι} (hnodup : xs.Nodup) (key : ι → Text) :
    (refill byHash (collect key xs)).Nodup := by
  have hvisit : (byHash.visit (collect key xs)).flatten.Nodup := visit_nodup byHash hnodup
  obtain ⟨hgroups, hdisjoint⟩ := List.nodup_flatten.mp hvisit
  exact List.nodup_flatten.mpr
    ⟨fun group hgroup => hgroups group (List.mem_of_mem_filter hgroup), hdisjoint.filter _⟩

end Rounds

section Outcomes

variable {ι : Type u} [DecidableEq ι] [Fintype ι] {sys : System} {hash : Bytes → Text}
  {byHash : Iteration Text ι} {bySize : Iteration ℕ ι} {files : ι → FileInfo}
  {D : ι → ℕ → Prop} {s : Search ι}

/-- A round groups the files by the hashes of their blocks. -/
theorem hashRound_outcome (h : Informed sys hash files D s) {k : ℕ} {xs : List ι}
    (hk : ∀ x ∈ xs, k < (files x).hashes.length) :
    Outcome (Openable sys files)
      (fun r => r.1 = collect (fun x => blockHash sys hash (files x) k) xs ∧
        Informed sys hash files (fun j l => D j l ∨ j ∈ xs ∧ l = k) r.2)
      (hashRound sys hash k xs s) := by
  unfold hashRound
  refine Outcome.foldlM
    (I := fun front (r : List (Text × List ι) × Search ι) =>
      r.1 = collect (fun x => blockHash sys hash (files x) k) front ∧
      Informed sys hash files (fun j l => D j l ∨ j ∈ front ∧ l = k) r.2) ?_ ?_
  · exact ⟨rfl, h.mono fun j l hD => hD.resolve_right (by simp)⟩
  · rintro front x ⟨buckets, s⟩ hfront ⟨hbuckets, hs⟩
    have hx : x ∈ xs := hfront.subset (by simp)
    refine (computeBlockHash_outcome hs (hk x hx)).bind ?_
    rintro ⟨hashed, s'⟩ ⟨hhash, hs'⟩
    refine ⟨?_, hs'.mono fun j l hD => ?_⟩
    · rw [collect_concat]
      exact congrArg₂ (fun hashed buckets => emplaceBack hashed x buckets) hhash hbuckets
    · simp only [List.mem_append, List.mem_singleton] at hD
      tauto

/-- **The loop over the blocks.**  From the files that keep company for the first blocks
it arrives at those that keep company for all of them, with all their hashes known. -/
theorem filterRounds_outcome (xs : List ι) {n m : ℕ} {kept : List ι}
    (h : Informed sys hash files D s) (hlen : ∀ x ∈ xs, m + n = (files x).hashes.length)
    (hnodup : kept.Nodup)
    (hkept : ∀ x, x ∈ kept ↔
      KeepsCompany xs (fun x k => blockHash sys hash (files x) k) m x)
    (hknown : ∀ x ∈ kept, ∀ k < m, D x k) :
    Outcome (Openable sys files)
      (fun r => r.1.Nodup ∧
        (∀ x, x ∈ r.1 ↔
          KeepsCompany xs (fun x k => blockHash sys hash (files x) k) (m + n) x) ∧
        Informed sys hash files (fun j l => D j l ∨ j ∈ r.1 ∧ l < m + n) r.2)
      (filterRounds sys hash byHash (List.range' m n) kept s) := by
  induction n generalizing m kept D s with
  | zero =>
      refine ⟨hnodup, hkept, h.mono fun j l hD => ?_⟩
      rcases hD with hD | ⟨hj, hl⟩
      · exact hD
      · exact hknown j hj l hl
  | succ n ih =>
      rw [List.range'_succ, filterRounds]
      have hmem : ∀ x ∈ kept, x ∈ xs := fun x hx => ((hkept x).mp hx).start.1
      refine (hashRound_outcome h fun x hx => ?_).bind ?_
      · have := hlen x (hmem x hx)
        omega
      · rintro ⟨buckets, s'⟩ ⟨hbuckets, hs'⟩
        obtain rfl : buckets = _ := hbuckets
        have hnext (x : ι) : x ∈ refill byHash
            (collect (fun x => blockHash sys hash (files x) m) kept) ↔
              KeepsCompany xs (fun x k => blockHash sys hash (files x) k) (m + 1) x := by
          rw [mem_refill byHash hnodup, KeepsCompany]
          simp only [hkept]
        have hsum : m + 1 + n = m + (n + 1) := by omega
        show Outcome _ _ (if _ then _ else _)
        split
        · next hempty =>
            -- nobody is left, and nobody comes back
            rw [List.isEmpty_iff] at hempty
            refine ⟨refill_nodup byHash hnodup _, fun x => ?_, hs'.mono fun j l hD => ?_⟩
            · refine (hnext x).trans ⟨fun hx => ?_, fun hx => ?_⟩
              · rw [← hnext, hempty] at hx
                cases hx
              · exact (hsum ▸ hx : KeepsCompany _ _ (m + 1 + n) x).of_add
            · refine hD.imp_right fun hj => ?_
              rw [hempty] at hj
              cases hj.1
        · refine (ih hs' (fun x hx => hsum.trans (hlen x hx)) (refill_nodup byHash hnodup _)
            hnext ?_).mono ?_
          · intro x hx k hk
            have hxkept : x ∈ kept := (hkept x).mpr ((hnext x).mp hx).1
            rcases Nat.lt_succ_iff_lt_or_eq.mp hk with hlt | heq
            · exact Or.inl (hknown x hxkept k hlt)
            · exact Or.inr ⟨hxkept, heq⟩
          · rintro ⟨rest, s''⟩ ⟨hrest, hmem', hs''⟩
            rw [hsum] at hmem' hs''
            exact ⟨hrest, hmem', hs''.mono fun j l hD => hD.imp_left Or.inl⟩

/-! ### What the search returns

Each of the two loops, over the sizes and over the keys, splits a list of files into
classes.  `Groups` is the specification of such a split: the classes, under equality of
a key, of the elements that are kept.

The loop over the sizes joins the groups of its classes, whose keys are different; so
the result is again a split of all files, by the size and the key together. -/

variable (sys hash)

/-- The hashes of all blocks of a file as they are on the disk. -/
def hashSequence (file : FileInfo) : List Text :=
  (List.range file.hashes.length).map (blockHash sys hash file)

/-- The copy of a file all of whose hashes are known. -/
def FileInfo.hashed (file : FileInfo) : FileInfo :=
  { file with hashes := hashSequence sys hash file, fileOpened := false }

variable {sys hash}

/-- A file all of whose hashes are known. -/
theorem FileInfo.Knows.copy_eq {original file : FileInfo} {K : ℕ → Prop}
    (h : original.Knows sys hash K file) (hall : ∀ k < original.hashes.length, K k) :
    file.copy = original.hashed sys hash := by
  have hhashes : file.hashes = hashSequence sys hash original := by
    apply List.ext_getElem
    · rw [h.length, hashSequence, List.length_map, List.length_range]
    · intro k hk hk'
      have hknown := h.known k (hall k (h.length ▸ hk))
      rw [List.getD_eq_getElem _ _ hk] at hknown
      rw [hknown]
      simp only [hashSequence, List.getElem_map, List.getElem_range]
  rw [FileInfo.copy, FileInfo.hashed, hhashes]
  congr 1
  · exact h.path
  · exact h.size
  · exact h.blockSize

/-- The groups `groups` of the pointers `xs`: the classes of the elements with `P` under
equality of `key`.  That no element stands twice is a clause of its own, since each of the
others would also hold of a list with a group listed again. -/
structure Groups {κ : Type*} (xs : List ι) (P : ι → Prop) (key : ι → κ) (groups : List (List ι)) :
    Prop where
  nodup : groups.flatten.Nodup
  mem : ∀ x, x ∈ groups.flatten ↔ x ∈ xs ∧ P x
  same : ∀ group ∈ groups, ∃ x ∈ group, ∀ y, y ∈ group ↔ y ∈ xs ∧ P y ∧ key y = key x

omit [DecidableEq ι] [Fintype ι] in
/-- The groups of two lists whose keys differ.  Keys that differ keep the classes apart, and
the lists have then no element in common either. -/
theorem Groups.append {κ : Type*} {xs ys : List ι} {P : ι → Prop} {key : ι → κ}
    {groups groups' : List (List ι)} (h : Groups xs P key groups) (h' : Groups ys P key groups')
    (hkeys : ∀ x ∈ xs, ∀ y ∈ ys, key x ≠ key y) :
    Groups (xs ++ ys) P key (groups ++ groups') := by
  refine ⟨?_, fun x => ?_, fun group hgroup => ?_⟩
  · rw [List.flatten_append, List.nodup_append]
    refine ⟨h.nodup, h'.nodup, fun x hx y hy heq => ?_⟩
    exact hkeys x ((h.mem x).mp hx).1 y ((h'.mem y).mp hy).1 (congrArg key heq)
  · rw [List.flatten_append, List.mem_append, h.mem, h'.mem, List.mem_append, or_and_right]
  · have hsplit (y : ι) : y ∈ xs ++ ys ↔ y ∈ xs ∨ y ∈ ys := List.mem_append
    rcases List.mem_append.mp hgroup with hleft | hright
    · obtain ⟨x, hx, hsame⟩ := h.same group hleft
      have hxs := ((hsame x).mp hx).1
      refine ⟨x, hx, fun y => (hsame y).trans ?_⟩
      rw [hsplit]
      exact ⟨fun hy => ⟨Or.inl hy.1, hy.2⟩, fun hy => ⟨hy.1.resolve_right fun hys =>
        hkeys x hxs y hys hy.2.2.symm, hy.2⟩⟩
    · obtain ⟨x, hx, hsame⟩ := h'.same group hright
      have hys := ((hsame x).mp hx).1
      refine ⟨x, hx, fun y => (hsame y).trans ?_⟩
      rw [hsplit]
      exact ⟨fun hy => ⟨Or.inr hy.1, hy.2⟩, fun hy => ⟨hy.1.resolve_left fun hxs =>
        hkeys y hxs x hys hy.2.2, hy.2⟩⟩

omit [DecidableEq ι] [Fintype ι] in
/-- A loop over an unordered map groups by its keys. -/
theorem groups_visit {κ : Type*} [DecidableEq κ] (order : Iteration κ ι) {xs kept : List ι}
    {P : ι → Prop} {key : ι → κ} (hkept : kept.Nodup) (hmem : ∀ x, x ∈ kept ↔ x ∈ xs ∧ P x) :
    Groups xs P key (order.visit (collect key kept)) := by
  refine ⟨visit_nodup order hkept, fun x => ?_, fun group hgroup => ?_⟩
  · rw [mem_visit_flatten, hmem]
  · obtain ⟨x, hx, rfl⟩ := (mem_visit order).mp hgroup
    refine ⟨x, by simp [hx], fun y => ?_⟩
    rw [List.mem_filter, hmem, decide_eq_true_eq, and_assoc]

omit [DecidableEq ι] [Fintype ι] in
/-- Groups depend on the key only through which files have equal ones. -/
theorem Groups.congr_key {κ κ' : Type*} {xs : List ι} {P : ι → Prop} {key : ι → κ} {key' : ι → κ'}
    {groups : List (List ι)} (h : Groups xs P key groups)
    (hkey : ∀ x ∈ xs, ∀ y ∈ xs, key y = key x ↔ key' y = key' x) :
    Groups xs P key' groups := by
  refine { h with same := fun group hgroup => ?_ }
  obtain ⟨x, hx, hsame⟩ := h.same group hgroup
  refine ⟨x, hx, fun y => (hsame y).trans ?_⟩
  exact and_congr_right fun hy => and_congr_right fun _ =>
    hkey x ((hsame x).mp hx).1 y hy

/-- The files that are compared with file `x`. -/
def sizeClass (files : ι → FileInfo) (xs : List ι) (x : ι) : List ι :=
  xs.filter fun y => (files y).size = (files x).size

/-- What the loop over the blocks keeps among the files of the size of `x`. -/
def Kept (sys : System) (hash : Bytes → Text) (files : ι → FileInfo) (xs : List ι) (x : ι) : Prop :=
  KeepsCompany (sizeClass files xs x) (fun y k => blockHash sys hash (files y) k)
    (files x).hashes.length x

/-- What the concatenation at the end identifies. -/
def groupKey (sys : System) (hash : Bytes → Text) (file : FileInfo) : ℕ × Text :=
  (file.size, (hashSequence sys hash file).flatten)

omit [DecidableEq ι] [Fintype ι] in
/-- Files of one size have one size class. -/
theorem sizeClass_congr {xs : List ι} {x y : ι} (h : y ∈ sizeClass files xs x) :
    sizeClass files xs y = sizeClass files xs x := by
  have hsize := of_decide_eq_true (List.mem_filter.mp h).2
  rw [sizeClass, sizeClass, hsize]

omit [DecidableEq ι] [Fintype ι] in
/-- The size that the loop over the blocks takes from the first file. -/
theorem head_sizeClass {xs : List ι} {z : ι} (hne : sizeClass files xs z ≠ []) :
    ((sizeClass files xs z).head?.map fun x => (files x).size).getD 0 = (files z).size := by
  cases hclass : sizeClass files xs z with
  | nil => exact absurd hclass hne
  | cons w ws =>
      have hw : w ∈ sizeClass files xs z := by simp [hclass]
      exact of_decide_eq_true (List.mem_filter.mp hw).2

omit [Fintype ι] in
/-- A file without another of its size is in no group. -/
theorem groups_of_alone {κ : Type*} {key : ι → κ} {xs : List ι} {z : ι} (hxs : xs.Nodup)
    (hsmall : (sizeClass files xs z).length < 2) :
    Groups (sizeClass files xs z) (Kept sys hash files xs) key [] := by
  refine ⟨List.nodup_nil, fun x => ?_, by simp⟩
  refine iff_of_false (by simp) fun ⟨hx, hkept⟩ => ?_
  rw [Kept, sizeClass_congr hx] at hkept
  have htwo := (two_le_length_iff (hxs.filter _) hx).mpr hkept.start.2
  exact absurd htwo (Nat.not_le.mpr hsmall)

omit [DecidableEq ι] [Fintype ι] in
/-- Files of different iterations of the loop over the sizes have different sizes. -/
theorem groupKey_ne_of_earlier {xs : List ι} {front : List (List ι)} {x y z : ι}
    (hfront : front ++ [sizeClass files xs z] <+:
      bySize.visit (collect (fun x => (files x).size) xs))
    (hx : x ∈ front.flatten) (hy : y ∈ sizeClass files xs z) :
    groupKey sys hash (files x) ≠ groupKey sys hash (files y) := by
  intro heq
  obtain ⟨other, hother, hxother⟩ := List.mem_flatten.mp hx
  have hdisjoint := (visit_disjoint bySize).sublist hfront.sublist
  refine (List.pairwise_append.mp hdisjoint).2.2 other hother _
    (List.mem_singleton_self _) hxother ?_
  have hxs : x ∈ xs := by
    rw [← mem_visit_flatten bySize]
    exact List.mem_flatten.mpr
      ⟨other, hfront.subset (List.mem_append_left _ hother), hxother⟩
  have hsize := of_decide_eq_true (List.mem_filter.mp hy).2
  exact List.mem_filter.mpr ⟨hxs, decide_eq_true ((congrArg Prod.fst heq).trans hsize)⟩

/-- **All rounds.**  The files that are kept keep company for all their blocks, and have all
their hashes. -/
theorem filterRounds_all {group : List ι} {count : ℕ} (h : Informed sys hash files D s)
    (hnodup : group.Nodup) (htwo : 2 ≤ group.length)
    (hcount : ∀ x ∈ group, (files x).hashes.length = count) :
    Outcome (Openable sys files)
      (fun r => r.1.Nodup ∧
        (∀ x, x ∈ r.1 ↔
          KeepsCompany group (fun y k => blockHash sys hash (files y) k) count x) ∧
        (∀ x ∈ r.1, (r.2.files x).copy = (files x).hashed sys hash) ∧
        Informed sys hash files D r.2)
      (filterRounds sys hash byHash (List.range count) group s) := by
  rw [List.range_eq_range']
  refine (filterRounds_outcome group h ?_ hnodup ?_ ?_).mono ?_
  · intro x hx
    rw [hcount x hx, Nat.zero_add]
  · intro x
    exact ⟨fun hx => ⟨hx, (two_le_length_iff hnodup hx).mp htwo⟩, And.left⟩
  · intro x _ k hk
    exact absurd hk (Nat.not_lt_zero k)
  · rintro ⟨kept, s'⟩ ⟨hkept, hmem, hs'⟩
    rw [Nat.zero_add] at hmem hs'
    refine ⟨hkept, hmem, fun x hx => ?_, hs'.mono fun j l hD => Or.inl hD⟩
    refine (hs' x).copy_eq fun k hk => Or.inr ⟨hx, ?_⟩
    rwa [hcount x ((hmem x).mp hx).start.1] at hk

/-- **The groups of one size.**  If every file can be opened the result is the classes of the
files that pass all rounds, under the concatenated hashes; and what has been learnt about the
files is right whether it returns or throws. -/
theorem findDuplicatesInGroup_outcome {blockSize : ℕ} {xs : List ι} {z : ι}
    (h : Informed sys hash files D s) (hxs : xs.Nodup)
    (hlen : ∀ x, (files x).hashes.length = numBlocks (files x).size blockSize)
    (htwo : 2 ≤ (sizeClass files xs z).length) :
    Outcome (Openable sys files)
      (fun r => ∃ groups, Groups (sizeClass files xs z) (Kept sys hash files xs)
          (fun x => groupKey sys hash (files x)) groups ∧
        r.1 = groups.map (·.map fun x => (files x).hashed sys hash) ∧
        Informed sys hash files D r.2)
      (findDuplicatesInGroup sys hash byHash blockSize (sizeClass files xs z) s) := by
  have hnodup : (sizeClass files xs z).Nodup := hxs.filter _
  have hsize (x : ι) (hx : x ∈ sizeClass files xs z) : (files x).size = (files z).size :=
    of_decide_eq_true (List.mem_filter.mp hx).2
  have hhead : (((sizeClass files xs z).head?.map fun x => (s.files x).size).getD 0) =
      (files z).size := by
    have hsizes (x : ι) : (s.files x).size = (files x).size := (h x).size
    simp only [hsizes]
    exact head_sizeClass fun hnil => by simp [hnil] at htwo
  unfold findDuplicatesInGroup
  simp only [hhead]
  refine (filterRounds_all h hnodup htwo ?_).bind ?_
  · intro x hx
    rw [hlen, hsize x hx]
  · rintro ⟨kept, s'⟩ ⟨hkept, hmem, hall, hs'⟩
    have hclass (x : ι) : x ∈ kept ↔ x ∈ sizeClass files xs z ∧ Kept sys hash files xs x := by
      have hkeeps (hx : x ∈ sizeClass files xs z) : Kept sys hash files xs x ↔ x ∈ kept := by
        rw [Kept, sizeClass_congr hx, hlen, hsize x hx, hmem]
      exact ⟨fun hx => ⟨((hmem x).mp hx).start.1, (hkeeps ((hmem x).mp hx).start.1).mpr hx⟩,
        fun hx => (hkeeps hx.1).mp hx.2⟩
    have hkey (x : ι) (hx : x ∈ kept) : (s'.files x).hashes.flatten =
        (hashSequence sys hash (files x)).flatten := by
      have hcopy := congrArg FileInfo.hashes (hall x hx)
      exact congrArg List.flatten hcopy
    rw [collect_congr hkey]
    have hgroups : Groups (sizeClass files xs z) (Kept sys hash files xs)
        (fun x => (hashSequence sys hash (files x)).flatten) (byHash.visit (collect _ kept)) :=
      groups_visit byHash hkept hclass
    refine ⟨_, hgroups.congr_key fun x hx y hy => ?_, ?_, hs'⟩
    · rw [groupKey, groupKey, hsize x hx, hsize y hy, Prod.mk.injEq]
      exact ⟨fun heq => ⟨rfl, heq⟩, And.right⟩
    · refine List.map_congr_left fun group hgroup => List.map_congr_left fun x hx => ?_
      refine hall x ?_
      exact (mem_visit_flatten byHash).mp (List.mem_flatten.mpr ⟨group, hgroup, hx⟩)

/-- **What the search returns.**  The groups are the classes of the kept files under
equality of the sizes and of the concatenated hashes. -/
theorem findDuplicates_outcome {blockSize : ℕ} {xs : List ι} (h : Informed sys hash files D s)
    (hxs : xs.Nodup)
    (hlen : ∀ x, (files x).hashes.length = numBlocks (files x).size blockSize) :
    Outcome (Openable sys files)
      (fun r => ∃ groups, Groups xs (Kept sys hash files xs)
          (fun x => groupKey sys hash (files x)) groups ∧
        r.1 = groups.map (·.map fun x => (files x).hashed sys hash))
      (findDuplicates sys hash byHash bySize blockSize xs s) := by
  unfold findDuplicates
  have hsizes (x : ι) : (s.files x).size = (files x).size := (h x).size
  simp only [hsizes]
  refine Outcome.mono (Outcome.foldlM
    (I := fun front (r : List (List FileInfo) × Search ι) =>
      ∃ groups, Groups front.flatten (Kept sys hash files xs)
          (fun x => groupKey sys hash (files x)) groups ∧
        r.1 = groups.map (·.map fun x => (files x).hashed sys hash) ∧
        Informed sys hash files D r.2) ?_ ?_) ?_
  · exact ⟨[], ⟨List.nodup_nil, by simp, by simp⟩, rfl, h⟩
  · rintro front sizeGroup ⟨dups, s'⟩ hfront ⟨groups, hgroups, hdups, hs'⟩
    have hvisited : sizeGroup ∈ front ++ [sizeGroup] := by simp
    obtain ⟨z, -, rfl⟩ := (mem_visit bySize).mp (hfront.subset hvisited)
    have hapart (x : ι) (hx : x ∈ front.flatten) (y : ι) (hy : y ∈ sizeClass files xs z) :
        groupKey sys hash (files x) ≠ groupKey sys hash (files y) :=
      groupKey_ne_of_earlier hfront hx hy
    have hflatten : (front ++ [sizeClass files xs z]).flatten =
        front.flatten ++ sizeClass files xs z := by
      simp
    show Outcome _ _ (if (sizeClass files xs z).length < 2 then _ else _)
    split
    · next hsmall =>
        refine ⟨groups, ?_, hdups, hs'⟩
        rw [← List.append_nil groups]
        exact hflatten ▸ hgroups.append (groups_of_alone hxs hsmall) hapart
    · next hlarge =>
        refine (findDuplicatesInGroup_outcome hs' hxs hlen (Nat.not_lt.mp hlarge)).bind ?_
        rintro ⟨more, s''⟩ ⟨groups', hgroups', hmore, hs''⟩
        refine ⟨groups ++ groups', hflatten ▸ hgroups.append hgroups' hapart, ?_, hs''⟩
        rw [List.map_append]
        exact congrArg₂ (· ++ ·) hdups hmore
  · rintro ⟨dups, s'⟩ ⟨groups, hgroups, hdups, -⟩
    refine ⟨groups, ⟨hgroups.nodup, fun x => ?_, fun group hgroup => ?_⟩, hdups⟩
    · rw [hgroups.mem, mem_visit_flatten]
    · obtain ⟨x, hx, hsame⟩ := hgroups.same group hgroup
      refine ⟨x, hx, fun y => ?_⟩
      rw [hsame, mem_visit_flatten]

end Outcomes

/-! ### Soundness and completeness

What is returned is known exactly, so both questions are about the classes: soundness
asks whether the classes are those of the block hashes, completeness whether equal files
fall into one class, which needs nothing of the hash function. -/

section Results

variable (sys : System) (hash : Bytes → Text) (blockSize : ℕ) (files : List FileInfo)
  (byHash : Iteration Text (Fin files.length)) (bySize : Iteration ℕ (Fin files.length))

/-- `find_duplicates` on a vector of files; what it throws is the text of the exception. -/
def duplicates : Except Text (List (List FileInfo)) := do
  let (duplicateGroups, _) ← (findDuplicates sys hash byHash bySize blockSize
    (List.finRange files.length) ⟨files.get, []⟩).mapError Prod.fst
  pure duplicateGroups

/-- The files are as the scanner lists them. -/
def Fresh : Prop := ∀ i, files.get i = .create (files.get i).path (files.get i).size blockSize

instance : Decidable (Fresh blockSize files) :=
  inferInstanceAs (Decidable (∀ i, files.get i =
    .create (files.get i).path (files.get i).size blockSize))

/-- Another file has the same size and the same hashes. -/
def HasTwin (i : Fin files.length) : Prop :=
  ∃ j ≠ i, (files.get j).size = (files.get i).size ∧
    hashSequence sys hash (files.get j) = hashSequence sys hash (files.get i)

/-- File `i` passes all rounds. -/
def Survives (i : Fin files.length) : Prop :=
  Kept sys hash files.get (List.finRange files.length) i

/-- Every file that passes all rounds has a twin, and the concatenation of the hashes tells
files with twins apart.  The two say what can go wrong: a collision of single hashes lets a
file without a twin pass, and hashes of different lengths can have the same concatenation. -/
structure Separated : Prop where
  twin : ∀ i, Survives sys hash files i → HasTwin sys hash files i
  key : ∀ i j, HasTwin sys hash files i → HasTwin sys hash files j →
    groupKey sys hash (files.get i) = groupKey sys hash (files.get j) →
      hashSequence sys hash (files.get i) = hashSequence sys hash (files.get j)

variable {sys hash blockSize files byHash bySize}

/-- All files that the scanner has listed have its block size. -/
theorem Fresh.blockSize_eq (h : Fresh blockSize files) (i : Fin files.length) :
    (files.get i).blockSize = blockSize := by
  rw [h i]
  rfl

/-- They have a place for the hash of each of their blocks. -/
theorem Fresh.length (h : Fresh blockSize files) (i : Fin files.length) :
    (files.get i).hashes.length = numBlocks (files.get i).size blockSize := by
  rw [h i]
  exact List.length_replicate

/-- No hash is cached yet. -/
theorem Fresh.getD_hashes (h : Fresh blockSize files) (i : Fin files.length) (k : ℕ) :
    (files.get i).hashes.getD k [] = [] := by
  rw [h i]
  show (List.replicate _ ([] : Text)).getD k [] = []
  rw [List.getD_eq_getElem?_getD, List.getElem?_replicate]
  split <;> rfl

/-- Nothing is cached before the search, so that nothing cached is wrong. -/
theorem Fresh.informed (h : Fresh blockSize files) :
    Informed sys hash files.get (fun _ _ => False) ⟨files.get, []⟩ := by
  intro i
  refine ⟨rfl, rfl, rfl, rfl, fun k hne => ?_, fun k hk => hk.elim⟩
  exact absurd (h.getD_hashes i k) hne

/-- What the search returns for files as the scanner lists them. -/
theorem duplicates_outcome (h : Fresh blockSize files) :
    Outcome (Openable sys files.get)
      (fun result => ∃ groups,
        Groups (List.finRange files.length) (Survives sys hash files)
          (fun i => groupKey sys hash (files.get i)) groups ∧
        result = groups.map (·.map fun i => (files.get i).hashed sys hash))
      (duplicates sys hash blockSize files byHash bySize) := by
  unfold duplicates
  refine ((findDuplicates_outcome h.informed (List.nodup_finRange _) h.length).mapError _).bind ?_
  rintro ⟨duplicateGroups, s⟩ hgroups
  exact hgroups

theorem hashSequence_length (sys : System) (hash : Bytes → Text) (file : FileInfo) :
    (hashSequence sys hash file).length = file.hashes.length := by
  rw [hashSequence, List.length_map, List.length_range]

/-- A file whose hashes are cached has the hashes it had. -/
theorem hashSequence_hashed (file : FileInfo) :
    hashSequence sys hash (file.hashed sys hash) = hashSequence sys hash file := by
  show (List.range (hashSequence sys hash file).length).map (blockHash sys hash file) = _
  rw [hashSequence_length]
  rfl

/-- Equal sequences of hashes agree block by block, as files of one sequence have equally
many. -/
theorem blockHash_eq_of_hashSequence_eq {file file' : FileInfo}
    (h : hashSequence sys hash file = hashSequence sys hash file') {k : ℕ}
    (hk : k < file.hashes.length) : blockHash sys hash file k = blockHash sys hash file' k := by
  have hk' : k < file'.hashes.length := by
    rw [← hashSequence_length sys hash, ← h, hashSequence_length]
    exact hk
  have hget := congrArg (·[k]?) h
  simpa [hashSequence, hk, hk'] using hget

/-- Equal bytes have equal hashes. -/
theorem Fresh.hashSequence_eq (h : Fresh blockSize files) {i j : Fin files.length}
    (hsize : (files.get i).size = (files.get j).size)
    (hcontent : sys.content (files.get i).path = sys.content (files.get j).path) :
    hashSequence sys hash (files.get i) = hashSequence sys hash (files.get j) := by
  rw [hashSequence, hashSequence, h.length, h.length, hsize]
  refine List.map_congr_left fun k _ => ?_
  unfold blockHash readBlock
  rw [hcontent, h.blockSize_eq, h.blockSize_eq]

/-- A file with a twin passes all rounds. -/
theorem HasTwin.survives {i : Fin files.length} (h : HasTwin sys hash files i) :
    Survives sys hash files i := by
  obtain ⟨j, hne, hsize, hsame⟩ := h
  have hclass (x : Fin files.length) (hx : (files.get x).size = (files.get i).size) :
      x ∈ sizeClass files.get (List.finRange files.length) i :=
    List.mem_filter.mpr ⟨List.mem_finRange x, decide_eq_true hx⟩
  refine (keepsCompany_of_twin (hclass i rfl) (hclass j hsize) hne.symm fun k hk => ?_).1
  exact blockHash_eq_of_hashSequence_eq hsame.symm hk

/-- Files that agree in size and in all hashes are twins of each other. -/
theorem hasTwin_of_same {i j : Fin files.length} (hne : i ≠ j)
    (hsize : (files.get i).size = (files.get j).size)
    (hsame : hashSequence sys hash (files.get i) = hashSequence sys hash (files.get j)) :
    HasTwin sys hash files i ∧ HasTwin sys hash files j :=
  ⟨⟨j, hne.symm, hsize.symm, hsame.symm⟩, i, hne, hsize, hsame⟩

/-- A group is everything of its key: who shares it with a member is in the group too, and
nobody else. -/
theorem Groups.mem_iff {ι κ : Type*} {xs : List ι} {P : ι → Prop} {key : ι → κ}
    {groups : List (List ι)} (h : Groups xs P key groups) {group : List ι} (hgroup : group ∈ groups)
    {x y : ι} (hx : x ∈ group) : y ∈ group ↔ y ∈ xs ∧ P y ∧ key y = key x := by
  obtain ⟨z, -, hsame⟩ := h.same group hgroup
  rw [hsame, ((hsame x).mp hx).2.2]

/-- **When the duplicate finder is sound.**  Every group has two members or more, and all
its members the same size and the same block hashes, exactly if the files that pass the
rounds have twins and the concatenation of the hashes tells those apart. -/
theorem duplicates_sound_iff {result : List (List FileInfo)} (hfresh : Fresh blockSize files)
    (hok : duplicates sys hash blockSize files byHash bySize = .ok result) :
    (∀ group ∈ result, 2 ≤ group.length ∧ ∀ a ∈ group, ∀ b ∈ group,
        a.size = b.size ∧ hashSequence sys hash a = hashSequence sys hash b) ↔
      Separated sys hash files := by
  obtain ⟨groups, hgroups, rfl⟩ := (duplicates_outcome hfresh).of_eq_ok hok
  have hfound (i : Fin files.length) (hi : Survives sys hash files i) :
      ∃ group ∈ groups, i ∈ group :=
    List.mem_flatten.mp ((hgroups.mem i).mpr ⟨List.mem_finRange i, hi⟩)
  constructor
  · intro hsound
    have hgroup (group : List (Fin files.length)) (h : group ∈ groups) : 2 ≤ group.length ∧
        ∀ i ∈ group, ∀ j ∈ group, (files.get i).size = (files.get j).size ∧
          hashSequence sys hash (files.get i) = hashSequence sys hash (files.get j) := by
      obtain ⟨htwo, hsame⟩ := hsound _ (List.mem_map_of_mem h)
      rw [List.length_map] at htwo
      refine ⟨htwo, fun i hi j hj => ?_⟩
      have hij := hsame _ (List.mem_map_of_mem hi) _ (List.mem_map_of_mem hj)
      rw [hashSequence_hashed, hashSequence_hashed] at hij
      exact hij
    refine ⟨fun i hi => ?_, fun i j hi hj hkey => ?_⟩
    · obtain ⟨group, hmem, higroup⟩ := hfound i hi
      obtain ⟨htwo, hsame⟩ := hgroup group hmem
      have hnodup := (List.nodup_flatten.mp hgroups.nodup).1 group hmem
      obtain ⟨j, hj, hne⟩ := (two_le_length_iff hnodup higroup).mp htwo
      exact ⟨j, hne, hsame j hj i higroup⟩
    · obtain ⟨group, hmem, higroup⟩ := hfound i (hi.survives)
      have hjgroup := (hgroups.mem_iff hmem higroup).mpr
        ⟨List.mem_finRange j, hj.survives, hkey.symm⟩
      exact ((hgroup group hmem).2 i higroup j hjgroup).2
  · intro hsep group hgroup
    obtain ⟨members, hmem, rfl⟩ := List.mem_map.mp hgroup
    have hsurvives (i : Fin files.length) (hi : i ∈ members) : HasTwin sys hash files i :=
      hsep.twin i ((hgroups.mem_iff hmem hi).mp hi).2.1
    refine ⟨?_, fun a ha b hb => ?_⟩
    · -- the twin of a member is a member
      obtain ⟨i, hi, -⟩ := hgroups.same members hmem
      obtain ⟨j, hne, hsize, hsame⟩ := hsurvives i hi
      have hj : j ∈ members := (hgroups.mem_iff hmem hi).mpr ⟨List.mem_finRange j,
        (hasTwin_of_same hne hsize hsame).1.survives, by rw [groupKey, groupKey, hsize, hsame]⟩
      have hnodup := (List.nodup_flatten.mp hgroups.nodup).1 members hmem
      rw [List.length_map]
      exact (two_le_length_iff hnodup hi).mpr ⟨j, hj, hne⟩
    · obtain ⟨i, hi, rfl⟩ := List.mem_map.mp ha
      obtain ⟨j, hj, rfl⟩ := List.mem_map.mp hb
      have hkey := ((hgroups.mem_iff hmem hj).mp hi).2.2
      rw [hashSequence_hashed, hashSequence_hashed]
      exact ⟨congrArg Prod.fst hkey, hsep.key i j (hsurvives i hi) (hsurvives j hj) hkey⟩

/-- **No duplicate is missed.**  What the search returns are groups of copies of the
files, at positions that occur once; any two files of the same size with the same bytes
are in one group.  If every file can be opened, the search returns. -/
theorem duplicates_complete (hfresh : Fresh blockSize files) :
    (∀ result, duplicates sys hash blockSize files byHash bySize = .ok result →
      ∃ groups : List (List (Fin files.length)),
        result = groups.map (·.map fun i => (files.get i).hashed sys hash) ∧
        groups.flatten.Nodup ∧
        ∀ i j, i ≠ j → (files.get i).size = (files.get j).size →
          sys.content (files.get i).path = sys.content (files.get j).path →
            ∃ group ∈ groups, i ∈ group ∧ j ∈ group) ∧
      (Openable sys files.get →
        ∃ result, duplicates sys hash blockSize files byHash bySize = .ok result) := by
  constructor
  · -- equal bytes have equal hashes, so the two files are twins
    intro result hok
    obtain ⟨groups, hgroups, rfl⟩ := (duplicates_outcome hfresh).of_eq_ok hok
    refine ⟨groups, rfl, hgroups.nodup, fun i j hne hsize hcontent => ?_⟩
    have hsame : hashSequence sys hash (files.get i) = hashSequence sys hash (files.get j) :=
      hfresh.hashSequence_eq hsize hcontent
    obtain ⟨hi, hj⟩ := hasTwin_of_same hne hsize hsame
    obtain ⟨group, hmem, higroup⟩ := List.mem_flatten.mp
      ((hgroups.mem i).mpr ⟨List.mem_finRange i, hi.survives⟩)
    refine ⟨group, hmem, higroup, (hgroups.mem_iff hmem higroup).mpr ?_⟩
    exact ⟨List.mem_finRange j, hj.survives, by rw [groupKey, groupKey, hsize, hsame]⟩
  · intro hopen
    obtain ⟨result, hok, -⟩ := (duplicates_outcome hfresh).exists_ok hopen
    exact ⟨result, hok⟩

end Results

/-! ### Four files

Survivors need not have twins.  All files of two bytes out of two give each file one
companion in the first round and another one in the second. -/

/-- The path of each file spells its bytes. -/
def spelled : System where
  content path := some (path.map fun c => UInt8.ofNat c.toNat)
  admits _ := true

/-- A hash function without collisions. -/
def plainHash (bytes : Bytes) : Text := bytes.map fun b => Char.ofNat b.toNat

/-- All files of two bytes out of two. -/
def fourFiles : List FileInfo :=
  [['a', 'a'], ['a', 'b'], ['b', 'a'], ['b', 'b']].map fun path => .create path 2 1

/-- The four files are different, and all four are returned, each in a group of its own:
every file shares its first byte with one and its second byte with another. -/
theorem fourFiles_groups : Fresh 1 fourFiles ∧
    (duplicates spelled plainHash 1 fourFiles (.inserted _ _) (.inserted _ _)).toOption.map
      (·.map (·.map FileInfo.path)) =
        some [[['a', 'a']], [['b', 'a']], [['a', 'b']], [['b', 'b']]] := by
  decide +kernel

/-- The four files are not separated, as their groups of one show. -/
theorem duplicates_sound_iff_fourFiles : ¬ Separated spelled plainHash fourFiles := by
  intro hsep
  have hfresh : Fresh 1 fourFiles := by decide
  have hlengths :
      (duplicates spelled plainHash 1 fourFiles (.inserted _ _) (.inserted _ _)).toOption.map
        (·.map List.length) = some [1, 1, 1, 1] := by
    decide +kernel
  cases hok : duplicates spelled plainHash 1 fourFiles (.inserted _ _) (.inserted _ _) with
  | error _ =>
      rw [hok] at hlengths
      cases hlengths
  | ok result =>
      rw [hok] at hlengths
      have hmap : result.map List.length = [1, 1, 1, 1] := Option.some.inj hlengths
      obtain ⟨group, hgroup, hone⟩ : ∃ group ∈ result, group.length = 1 :=
        List.mem_map.mp (hmap ▸ List.mem_cons_self)
      have htwo := ((duplicates_sound_iff hfresh hok).mpr hsep group hgroup).1
      omega

/-- The four files with one of them listed again. -/
def fiveFiles : List FileInfo := fourFiles ++ [.create ['a', 'b'] 2 1]

/-- Among five files there is a group of two. -/
theorem duplicates_complete_fiveFiles : ∃ result,
    duplicates spelled plainHash 1 fiveFiles (.inserted _ _) (.inserted _ _) = .ok result ∧
      ∃ group ∈ result, 2 ≤ group.length := by
  have hfresh : Fresh 1 fiveFiles := by decide
  obtain ⟨hall, hreturns⟩ :=
    @duplicates_complete spelled plainHash 1 fiveFiles (.inserted _ _) (.inserted _ _) hfresh
  obtain ⟨result, hok⟩ := hreturns ⟨fun _ => rfl, fun _ => rfl⟩
  obtain ⟨groups, rfl, hnodup, hsame⟩ := hall result hok
  obtain ⟨group, hmem, hi, hj⟩ := hsame ⟨1, by decide⟩ ⟨4, by decide⟩ (by decide) rfl rfl
  refine ⟨_, hok, _, List.mem_map_of_mem hmem, ?_⟩
  rw [List.length_map]
  exact (two_le_length_iff ((List.nodup_flatten.mp hnodup).1 group hmem) hi).mpr
    ⟨_, hj, by decide⟩

end Bayan
