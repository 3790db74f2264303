import CppProfessional.Bayan.Duplicates

/-!
# What the search reads

Which blocks the duplicate finder asks for depends on the hashes alone: `searchRequests`
is the list of them in order, computed from the bytes on the disk.  The search is a walk
along this list that stops at the first file that cannot be opened, so what is read, and
which files are open, can be seen from the list.

* `requests`, `searchRequests` — the list; `mem_searchRequests` says that block `k` of a file
  is in it if the file keeps company for the blocks before it;
* `findDuplicates_eq` — the search is the walk along the list;
* `Fetched` — what the caches and streams are after a part of the list;
* `Guided` — every file that keeps company for some blocks has a companion for all of them;
* `reads_minimal` — no block is read twice and no file of a size of its own is opened, and
  blocks are read only with need exactly if the files are guided.
-/

namespace Bayan

open Transition Containers

universe u

section Requests

variable {ι : Type u} (H : ι → ℕ → Text) (byHash : Iteration Text ι) (bySize : Iteration ℕ ι)

/-- The blocks that the loop over the blocks of one size class asks for, if the hashes
are `H`. -/
def requests : List ℕ → List ι → List (ι × ℕ)
  | [], _ => []
  | k :: blocks, files =>
      let rest := refill byHash (collect (fun file => H file k) files)
      files.map (·, k) ++ if rest.isEmpty then [] else requests blocks rest

/-- What the search asks for in one size class. -/
def groupRequests (files : ι → FileInfo) (blockSize : ℕ) (sizeGroup : List ι) : List (ι × ℕ) :=
  if sizeGroup.length < 2 then []
  else
    let size := (sizeGroup.head?.map fun file => (files file).size).getD 0
    requests H byHash (List.range (numBlocks size blockSize)) sizeGroup

/-- What the whole search asks for. -/
def searchRequests (files : ι → FileInfo) (blockSize : ℕ) (xs : List ι) : List (ι × ℕ) :=
  (bySize.visit (collect (fun file => (files file).size) xs)).flatMap
    (groupRequests H byHash files blockSize)

variable {H byHash bySize} {files : ι → FileInfo} {blockSize : ℕ}

/-- The requests of a file go on as long as the file keeps company.  By induction on the number
of blocks; a round refines the classes of the round before. -/
theorem mem_requests [DecidableEq ι] {xs kept : List ι} {n m : ℕ} (hnodup : kept.Nodup)
    (hkept : ∀ x, x ∈ kept ↔ KeepsCompany xs H m x) {x : ι} {k : ℕ} :
    (x, k) ∈ requests H byHash (List.range' m n) kept ↔
      m ≤ k ∧ k < m + n ∧ KeepsCompany xs H k x := by
  induction n generalizing m kept with
  | zero => exact iff_of_false List.not_mem_nil (by omega)
  | succ n ih =>
      have hnext (y : ι) : y ∈ refill byHash (collect (fun y => H y m) kept) ↔
          KeepsCompany xs H (m + 1) y := by
        rw [mem_refill byHash hnodup, KeepsCompany]
        simp only [hkept]
      have hfirst : (x, k) ∈ kept.map (·, m) ↔ k = m ∧ KeepsCompany xs H k x := by
        rw [List.mem_map]
        constructor
        · rintro ⟨y, hy, heq⟩
          obtain ⟨rfl, rfl⟩ := Prod.mk.inj heq
          exact ⟨rfl, (hkept y).mp hy⟩
        · rintro ⟨rfl, hx⟩
          exact ⟨x, (hkept x).mpr hx, rfl⟩
      have hlater : (x, k) ∈ (if (refill byHash (collect (fun y => H y m) kept)).isEmpty then []
          else requests H byHash (List.range' (m + 1) n)
            (refill byHash (collect (fun y => H y m) kept))) ↔
          m + 1 ≤ k ∧ k < m + 1 + n ∧ KeepsCompany xs H k x := by
        split
        · next hempty =>
            -- nobody has company any more
            refine iff_of_false List.not_mem_nil ?_
            rintro ⟨hlt, -, hx⟩
            obtain ⟨d, rfl⟩ := Nat.exists_eq_add_of_le hlt
            have hmem := (hnext x).mpr hx.of_add
            rw [List.isEmpty_iff.mp hempty] at hmem
            cases hmem
        · exact ih (refill_nodup byHash hnodup _) hnext
      rw [List.range'_succ, requests, List.mem_append, hfirst, hlater]
      constructor
      · rintro (⟨rfl, hx⟩ | ⟨hlt, hle, hx⟩)
        · exact ⟨le_rfl, by omega, hx⟩
        · exact ⟨by omega, by omega, hx⟩
      · rintro ⟨hle, hlt, hx⟩
        rcases Nat.eq_or_lt_of_le hle with rfl | hgt
        · exact .inl ⟨rfl, hx⟩
        · exact .inr ⟨hgt, by omega, hx⟩

/-- Only the files that are left are read, and only at the blocks that are left. -/
theorem mem_of_mem_requests {blocks : List ℕ} {kept : List ι} {request : ι × ℕ}
    (h : request ∈ requests H byHash blocks kept) : request.1 ∈ kept ∧ request.2 ∈ blocks := by
  induction blocks generalizing kept with
  | nil => cases h
  | cons k blocks ih =>
      rw [requests] at h
      rcases List.mem_append.mp h with hfirst | hlater
      · obtain ⟨x, hx, rfl⟩ := List.mem_map.mp hfirst
        exact ⟨hx, List.mem_cons_self⟩
      · split at hlater
        · cases hlater
        · obtain ⟨hmem, hblock⟩ := ih hlater
          obtain ⟨group, hgroup, hx⟩ := List.mem_flatten.mp hmem
          refine ⟨?_, List.mem_cons_of_mem _ hblock⟩
          rw [← mem_visit_flatten byHash]
          exact List.mem_flatten.mpr ⟨group, List.mem_of_mem_filter hgroup, hx⟩

/-- No block of a file is asked for twice in a group. -/
theorem requests_nodup {blocks : List ℕ} (hblocks : blocks.Nodup) {kept : List ι}
    (hnodup : kept.Nodup) : (requests H byHash blocks kept).Nodup := by
  induction blocks generalizing kept with
  | nil => exact List.nodup_nil
  | cons k blocks ih =>
      obtain ⟨hk, hrest⟩ := List.nodup_cons.mp hblocks
      rw [requests, List.nodup_append]
      refine ⟨hnodup.map fun x y heq => congrArg Prod.fst heq, ?_, fun a ha b hb heq => ?_⟩
      · split
        · exact List.nodup_nil
        · exact ih hrest (refill_nodup byHash hnodup _)
      · obtain ⟨x, -, rfl⟩ := List.mem_map.mp ha
        split at hb
        · cases hb
        · have hblock : k = b.2 := congrArg Prod.snd heq
          exact hk (hblock ▸ (mem_of_mem_requests hb).2)

/-- The requests of a size class are blocks of its files. -/
theorem lt_of_mem_groupRequests {xs : List ι} {z : ι} {request : ι × ℕ}
    (h : request ∈ groupRequests H byHash files blockSize (sizeClass files xs z)) :
    request.1 ∈ sizeClass files xs z ∧
      request.2 < numBlocks (files request.1).size blockSize := by
  unfold groupRequests at h
  split at h
  · cases h
  · obtain ⟨hmem, hblock⟩ := mem_of_mem_requests h
    rw [head_sizeClass (List.ne_nil_of_mem hmem), List.mem_range] at hblock
    have hsize : (files request.1).size = (files z).size :=
      of_decide_eq_true (List.mem_filter.mp hmem).2
    exact ⟨hmem, hsize ▸ hblock⟩

/-- A group reads only its own files. -/
theorem mem_of_mem_groupRequests {sizeGroup : List ι} {request : ι × ℕ}
    (h : request ∈ groupRequests H byHash files blockSize sizeGroup) : request.1 ∈ sizeGroup := by
  unfold groupRequests at h
  split at h
  · cases h
  · exact (mem_of_mem_requests h).1

/-- No block is asked for twice. -/
theorem searchRequests_nodup {xs : List ι} (hxs : xs.Nodup) :
    (searchRequests H byHash bySize files blockSize xs).Nodup := by
  refine List.nodup_flatMap.mpr ⟨fun sizeGroup hgroup => ?_, ?_⟩
  · obtain ⟨z, -, rfl⟩ := (mem_visit bySize).mp hgroup
    unfold groupRequests
    split
    · exact List.nodup_nil
    · exact requests_nodup List.nodup_range (hxs.filter _)
  · refine (visit_disjoint bySize).imp fun hdisjoint a ha hb => ?_
    exact hdisjoint (mem_of_mem_groupRequests ha) (mem_of_mem_groupRequests hb)

/-- **What the search asks for.**  A block is asked for exactly if at each block before it some
other file of the same size, kept so far, has the same hash. -/
theorem mem_searchRequests [DecidableEq ι] {xs : List ι} (hxs : xs.Nodup) {x : ι} {k : ℕ} :
    (x, k) ∈ searchRequests H byHash bySize files blockSize xs ↔
      k < numBlocks (files x).size blockSize ∧ KeepsCompany (sizeClass files xs x) H k x := by
  -- the requests of the class of a file
  have hclass (z : ι) : (x, k) ∈ groupRequests H byHash files blockSize
      (sizeClass files xs z) ↔ k < numBlocks (files z).size blockSize ∧
        KeepsCompany (sizeClass files xs z) H k x := by
    have hnodup : (sizeClass files xs z).Nodup := hxs.filter _
    unfold groupRequests
    split
    · next hsmall =>
        refine iff_of_false List.not_mem_nil ?_
        rintro ⟨-, hx⟩
        have htwo := (two_le_length_iff hnodup hx.start.1).mpr hx.start.2
        exact absurd htwo (Nat.not_le.mpr hsmall)
    · next hlarge =>
        have hhead : (((sizeClass files xs z).head?.map fun x => (files x).size).getD 0) =
            (files z).size := head_sizeClass fun hnil => by simp [hnil] at hlarge
        have hstart (y : ι) : y ∈ sizeClass files xs z ↔
            KeepsCompany (sizeClass files xs z) H 0 y :=
          ⟨fun hy => ⟨hy, (two_le_length_iff hnodup hy).mp (Nat.not_lt.mp hlarge)⟩, And.left⟩
        dsimp only
        rw [hhead, List.range_eq_range', mem_requests hnodup hstart, Nat.zero_add,
          and_iff_right (Nat.zero_le k)]
  rw [searchRequests, List.mem_flatMap]
  constructor
  · rintro ⟨sizeGroup, hgroup, hmem⟩
    obtain ⟨z, -, rfl⟩ := (mem_visit bySize).mp hgroup
    have hx : x ∈ sizeClass files xs z := mem_of_mem_groupRequests hmem
    have hsize : (files x).size = (files z).size := of_decide_eq_true (List.mem_filter.mp hx).2
    rw [sizeClass_congr hx, hsize]
    exact (hclass z).mp hmem
  · rintro ⟨hk, hx⟩
    have hxs := (List.mem_filter.mp hx.start.1).1
    exact ⟨_, (mem_visit bySize).mpr ⟨x, hxs, rfl⟩, (hclass x).mpr ⟨hk, hx⟩⟩

end Requests

/-! ### The search is a walk along its requests

The loops of the search interleave reading and grouping, and the groups of a round
decide what the next round reads.  But they depend on the contents only, so the blocks
can be listed beforehand and the loops read them off the list. -/

section Walk

variable {ι : Type u} [DecidableEq ι] [Fintype ι] (sys : System) (hash : Bytes → Text)

/-- The blocks of a list, one after the other. -/
def readAll (blocks : List (ι × ℕ)) (s : Search ι) : Except (Thrown ι) (Search ι) :=
  blocks.foldlM (fun s block => (computeBlockHash sys hash block.2 block.1 s).map Prod.snd) s

variable {sys hash} {byHash : Iteration Text ι} {bySize : Iteration ℕ ι} {files : ι → FileInfo}
  {D : ι → ℕ → Prop} {s : Search ι}

theorem readAll_append (front back : List (ι × ℕ)) (s : Search ι) :
    readAll sys hash (front ++ back) s = readAll sys hash front s >>= readAll sys hash back :=
  List.foldlM_append

/-- Reading blocks that have places among the hashes fails only for want of a stream or a
file. -/
theorem readAll_outcome {blocks : List (ι × ℕ)}
    (hblocks : ∀ block ∈ blocks, block.2 < (files block.1).hashes.length)
    (h : Informed sys hash files D s) :
    Outcome (Openable sys files) (Informed sys hash files D) (readAll sys hash blocks s) := by
  unfold readAll
  refine Outcome.foldlM (I := fun _ => Informed sys hash files D) h ?_
  intro front block s' hfront hs'
  have hblock := hblocks block (hfront.subset (by simp))
  exact (computeBlockHash_outcome hs' hblock).map fun r hr =>
    hr.2.mono fun i k hD => Or.inl hD

/-- A round reads the blocks of its files. -/
theorem hashRound_eq (k : ℕ) (xs : List ι) (s : Search ι) :
    (hashRound sys hash k xs s).map Prod.snd = readAll sys hash (xs.map (·, k)) s := by
  unfold hashRound readAll
  generalize ([] : List (Text × List ι)) = buckets
  induction xs generalizing buckets s with
  | nil => rfl
  | cons x xs ih =>
      rw [List.map_cons, List.foldlM_cons, List.foldlM_cons]
      dsimp only
      cases hread : computeBlockHash sys hash k x s with
      | error e => rfl
      | ok r => exact ih r.2 _

/-- The loop over the blocks reads what it asks for.  Which blocks these are does not depend on
the search, only on the contents: that is what makes the search a walk along a list. -/
theorem filterRounds_eq {blocks : List ℕ} {xs : List ι} (h : Informed sys hash files D s)
    (hlen : ∀ x ∈ xs, ∀ k ∈ blocks, k < (files x).hashes.length) :
    (filterRounds sys hash byHash blocks xs s).map Prod.snd =
      readAll sys hash
        (requests (fun x k => blockHash sys hash (files x) k) byHash blocks xs) s := by
  induction blocks generalizing xs D s with
  | nil => rfl
  | cons k blocks ih =>
      have hround := hashRound_outcome h fun x hx => hlen x hx k List.mem_cons_self
      have hread : (hashRound sys hash k xs s).map Prod.snd = _ := hashRound_eq k xs s
      rw [requests, readAll_append, ← hread, filterRounds]
      cases hresult : hashRound sys hash k xs s with
      | error e => rfl
      | ok r =>
          obtain ⟨buckets, s'⟩ := r
          rw [hresult] at hround
          obtain ⟨hbuckets, hs'⟩ := hround
          obtain rfl : buckets = _ := hbuckets
          show Except.map _ (if _ then _ else _) = readAll sys hash (if _ then _ else _) s'
          split
          · rfl
          · refine ih hs' fun x hx l hl => hlen x ?_ l (List.mem_cons_of_mem _ hl)
            obtain ⟨group, hgroup, hmem⟩ := List.mem_flatten.mp hx
            rw [← mem_visit_flatten byHash]
            exact List.mem_flatten.mpr ⟨group, List.mem_of_mem_filter hgroup, hmem⟩

/-- A size class is searched by reading what it asks for. -/
theorem findDuplicatesInGroup_eq {blockSize : ℕ} {xs : List ι} {z : ι}
    (h : Informed sys hash files D s)
    (hlen : ∀ x, (files x).hashes.length = numBlocks (files x).size blockSize)
    (htwo : ¬(sizeClass files xs z).length < 2) :
    (findDuplicatesInGroup sys hash byHash blockSize (sizeClass files xs z) s).map Prod.snd =
      readAll sys hash (groupRequests (fun x k => blockHash sys hash (files x) k) byHash files
        blockSize (sizeClass files xs z)) s := by
  have hsizes (x : ι) : (s.files x).size = (files x).size := (h x).size
  have hrange (x : ι) (hx : x ∈ sizeClass files xs z) (k : ℕ) (hk : k ∈ List.range (numBlocks
      (((sizeClass files xs z).head?.map fun x => (files x).size).getD 0) blockSize)) :
      k < (files x).hashes.length := by
    rw [head_sizeClass (List.ne_nil_of_mem hx), List.mem_range] at hk
    rw [hlen, show (files x).size = (files z).size from
      of_decide_eq_true (List.mem_filter.mp hx).2]
    exact hk
  have hrounds : (filterRounds sys hash byHash _ (sizeClass files xs z) s).map Prod.snd = _ :=
    filterRounds_eq h hrange
  rw [groupRequests, if_neg htwo, ← hrounds, findDuplicatesInGroup]
  simp only [hsizes]
  cases filterRounds sys hash byHash _ (sizeClass files xs z) s with
  | error e => rfl
  | ok r => rfl

/-- **The search is a walk along its requests**, size after size in the order of the map. -/
theorem findDuplicates_eq {blockSize : ℕ} (xs : List ι) (h : Informed sys hash files D s)
    (hlen : ∀ x, (files x).hashes.length = numBlocks (files x).size blockSize) :
    (findDuplicates sys hash byHash bySize blockSize xs s).map Prod.snd =
      readAll sys hash (searchRequests (fun x k => blockHash sys hash (files x) k) byHash bySize
        files blockSize xs) s := by
  have hsizes (x : ι) : (s.files x).size = (files x).size := (h x).size
  have hclasses (sizeGroup : List ι)
      (hgroup : sizeGroup ∈ bySize.visit (collect (fun x => (files x).size) xs)) :
      ∃ z, sizeGroup = sizeClass files xs z := by
    obtain ⟨z, -, hz⟩ := (mem_visit bySize).mp hgroup
    exact ⟨z, hz⟩
  unfold findDuplicates searchRequests
  simp only [hsizes]
  generalize bySize.visit (collect (fun x => (files x).size) xs) = sizeGroups at hclasses ⊢
  generalize ([] : List (List FileInfo)) = duplicateGroups
  induction sizeGroups generalizing duplicateGroups s with
  | nil => rfl
  | cons sizeGroup rest ih =>
      obtain ⟨z, rfl⟩ := hclasses sizeGroup List.mem_cons_self
      have hrest := fun group hgroup => hclasses group (List.mem_cons_of_mem _ hgroup)
      rw [List.foldlM_cons, List.flatMap_cons, readAll_append]
      dsimp only
      by_cases hsmall : (sizeClass files xs z).length < 2
      · have hnone : groupRequests (fun x k => blockHash sys hash (files x) k) byHash files
            blockSize (sizeClass files xs z) = [] := if_pos hsmall
        rw [if_pos hsmall, hnone]
        exact ih h hsizes hrest duplicateGroups
      · have hgroup : (findDuplicatesInGroup sys hash byHash blockSize (sizeClass files xs z)
            s).map Prod.snd = _ := findDuplicatesInGroup_eq h hlen hsmall
        rw [if_neg hsmall, ← hgroup]
        cases hresult : findDuplicatesInGroup sys hash byHash blockSize
            (sizeClass files xs z) s with
        | error e => rfl
        | ok r =>
            obtain ⟨groups, s'⟩ := r
            have hs' : Informed sys hash files D s' := by
              refine (readAll_outcome (fun block hblock => ?_) h).of_eq_ok
                (hgroup.symm.trans (by rw [hresult]; rfl))
              rw [hlen]
              exact (lt_of_mem_groupRequests hblock).2
            exact ih hs' (fun x => (hs' x).size) hrest (duplicateGroups ++ groups)

end Walk

/-! ### A walk

What a walk does to the cache and to the streams does not depend on where the list of
blocks comes from, as long as no block is in it twice. -/

section Fetched

variable {ι : Type u} [DecidableEq ι] {sys : System} {hash : Bytes → Text} {s : Search ι}
  {files : ι → FileInfo} {done : List (ι × ℕ)}

/-- The blocks `done` of the files have been read, in this order: no other hash is cached, and
the open files are those that were read.  `cached` says nothing of a block that was read and
has the empty hash, which would be read again if it were asked for again. -/
structure Fetched (files : ι → FileInfo) (done : List (ι × ℕ)) (s : Search ι) : Prop where
  path : ∀ i, (s.files i).path = (files i).path
  reads : s.reads = done
  cached : ∀ i k, (s.files i).hashes.getD k [] ≠ [] → (i, k) ∈ done
  opened : ∀ i, (s.files i).fileOpened = true ↔ ∃ k, (i, k) ∈ done

/-- Storing a hash in a search whose file has a stream: the block is the last one that was
read, and no other file is touched. -/
theorem fetched_store {i : ι} {k : ℕ} {hashed : Text}
    (hpath : ∀ j, (s.files j).path = (files j).path) (hreads : s.reads = done)
    (hcached : ∀ j l, (s.files j).hashes.getD l [] ≠ [] → (j, l) ∈ done)
    (hopened : ∀ j, (s.files j).fileOpened = true ↔ j = i ∨ ∃ l, (j, l) ∈ done) :
    Fetched files (done ++ [(i, k)])
      { s.set i { s.files i with hashes := (s.files i).hashes.set k hashed } with
        reads := s.reads ++ [(i, k)] } := by
  refine ⟨fun j => ?_, congrArg (· ++ [(i, k)]) hreads, fun j l hne => ?_, fun j => ?_⟩
  · show (Function.update s.files i _ j).path = _
    by_cases hj : j = i
    · subst hj
      rw [Function.update_self]
      exact hpath j
    · rw [Function.update_of_ne hj]
      exact hpath j
  · have hne : (Function.update s.files i
        { s.files i with hashes := (s.files i).hashes.set k hashed } j).hashes.getD l [] ≠ [] := hne
    rw [List.mem_append, List.mem_singleton]
    by_cases hj : j = i
    · subst hj
      by_cases hl : l = k
      · exact .inr (by rw [hl])
      · left
        rw [Function.update_self] at hne
        refine hcached j l fun hold => hne ?_
        rw [List.getD_eq_getElem?_getD] at hold ⊢
        simpa [List.getElem?_set_ne (Ne.symm hl)] using hold
    · rw [Function.update_of_ne hj] at hne
      exact .inl (hcached j l hne)
  · have hsame : (Function.update s.files i
        { s.files i with hashes := (s.files i).hashes.set k hashed } j).fileOpened =
          (s.files j).fileOpened := by
      by_cases hj : j = i
      · subst hj
        rw [Function.update_self]
      · rw [Function.update_of_ne hj]
    show (Function.update s.files i _ j).fileOpened = true ↔ _
    rw [hsame, hopened]
    constructor
    · rintro (rfl | ⟨l, hl⟩)
      · exact ⟨k, by simp⟩
      · exact ⟨l, List.mem_append_left _ hl⟩
    · rintro ⟨l, hl⟩
      rcases List.mem_append.mp hl with hold | hnew
      · exact .inr ⟨l, hold⟩
      · exact .inl (congrArg Prod.fst (List.mem_singleton.mp hnew))

variable [Fintype ι]

/-- A file can be opened now, or is open already. -/
def Available (sys : System) (s : Search ι) (i : ι) : Prop :=
  (s.files i).fileOpened = true ∨
    (sys.content (s.files i).path).isSome = true ∧ sys.admits s.openStreams = true

variable (sys hash)

/-- **A block that was not read yet.**  It is read if its file can be opened, and otherwise
nothing happens. -/
theorem Fetched.read (h : Fetched files done s) {i : ι} {k : ℕ} (hnew : (i, k) ∉ done) :
    (Available sys s i ∧ ∃ s', (computeBlockHash sys hash k i s).map Prod.snd = .ok s' ∧
        Fetched files (done ++ [(i, k)]) s') ∨
      ¬Available sys s i ∧
        ∃ text, (computeBlockHash sys hash k i s).map Prod.snd = .error (text, s) := by
  have hmissing : ¬(s.files i).hashes.getD k [] ≠ [] := fun hne => hnew (h.cached i k hne)
  rw [computeBlockHash, if_neg hmissing]
  by_cases hopened : (s.files i).fileOpened = true
  · left
    refine ⟨.inl hopened, ?_⟩
    rw [openFile, if_pos hopened]
    refine ⟨_, rfl, fetched_store h.path h.reads h.cached fun j => ?_⟩
    rw [h.opened]
    constructor
    · exact .inr
    · rintro (rfl | hold)
      · exact (h.opened j).mp hopened
      · exact hold
  · by_cases hadmits : ((sys.content (s.files i).path).isSome && sys.admits s.openStreams) = true
    · left
      refine ⟨.inr (Bool.and_eq_true_iff.mp hadmits), ?_⟩
      rw [openFile, if_neg hopened, if_pos hadmits]
      refine ⟨_, rfl, fetched_store (fun j => ?_) h.reads (fun j l hne => ?_) fun j => ?_⟩
      · show (Function.update s.files i _ j).path = _
        by_cases hj : j = i
        · subst hj
          rw [Function.update_self]
          exact h.path j
        · rw [Function.update_of_ne hj]
          exact h.path j
      · have hne : (Function.update s.files i { s.files i with fileOpened := true }
            j).hashes.getD l [] ≠ [] := hne
        refine h.cached j l ?_
        by_cases hj : j = i
        · subst hj
          rwa [Function.update_self] at hne
        · rwa [Function.update_of_ne hj] at hne
      · show (Function.update s.files i _ j).fileOpened = true ↔ _
        by_cases hj : j = i
        · subst hj
          rw [Function.update_self]
          exact iff_of_true rfl (.inl rfl)
        · rw [Function.update_of_ne hj, h.opened, or_iff_right hj]
    · right
      refine ⟨fun havailable => ?_, ?_⟩
      · rcases havailable with hold | hfree
        · exact hopened hold
        · exact hadmits (Bool.and_eq_true_iff.mpr hfree)
      · rw [openFile, if_neg hopened, if_neg hadmits]
        exact ⟨_, rfl⟩

/-- **A walk along blocks that are all different** reads them in order, and stops at the
first whose file cannot be opened. -/
theorem Fetched.readAll (h : Fetched files done s) {blocks : List (ι × ℕ)}
    (hnodup : (done ++ blocks).Nodup) :
    (∃ s', readAll sys hash blocks s = .ok s' ∧ Fetched files (done ++ blocks) s') ∨
      ∃ front, ∃ text, ∃ s', front <+: blocks ∧
        Bayan.readAll sys hash blocks s = .error (text, s') ∧ Fetched files (done ++ front) s' := by
  induction blocks generalizing done s with
  | nil => exact .inl ⟨s, rfl, by rwa [List.append_nil]⟩
  | cons block blocks ih =>
      obtain ⟨i, k⟩ := block
      have hnew : (i, k) ∉ done := fun hold =>
        List.disjoint_of_nodup_append hnodup hold List.mem_cons_self
      have hassoc (rest : List (ι × ℕ)) : done ++ (i, k) :: rest = done ++ [(i, k)] ++ rest := by
        rw [List.append_assoc]
        rfl
      rw [Bayan.readAll, List.foldlM_cons]
      rcases h.read sys hash hnew with ⟨-, s', hread, hs'⟩ | ⟨-, text, hthrown⟩
      · rw [hread]
        rw [hassoc] at hnodup ⊢
        rcases ih hs' hnodup with hall | ⟨front, text, s'', hfront, hwalk, hs''⟩
        · exact .inl hall
        · refine .inr ⟨(i, k) :: front, text, s'', ?_, hwalk, ?_⟩
          · exact (List.prefix_cons_inj _).mpr hfront
          · rw [hassoc]
            exact hs''
      · rw [hthrown]
        exact .inr ⟨[], text, s, List.nil_prefix, rfl, by rwa [List.append_nil]⟩

end Fetched

/-! ### Reading with need

A block has to be read if the files cannot be told apart without it: there is another
file of the same size that agrees in all blocks before.  The search asks for more, as a
file may have kept company with different files in turn; `Guided` excludes this. -/

section Results

variable (sys : System) (hash : Bytes → Text) (blockSize : ℕ) (files : List FileInfo)
  (byHash : Iteration Text (Fin files.length)) (bySize : Iteration ℕ (Fin files.length))

/-- Another listed file has the size of file `i` and its hashes in the first `k` blocks. -/
def HasCompanion (i : Fin files.length) (k : ℕ) : Prop :=
  ∃ j ≠ i, (files.get j).size = (files.get i).size ∧
    ∀ l < k, blockHash sys hash (files.get j) l = blockHash sys hash (files.get i) l

instance (i : Fin files.length) (k : ℕ) : Decidable (HasCompanion sys hash files i k) :=
  inferInstanceAs (Decidable (∃ j, j ≠ i ∧ (files.get j).size = (files.get i).size ∧
    ∀ l < k, blockHash sys hash (files.get j) l = blockHash sys hash (files.get i) l))

/-- The files that a file is compared with block by block always include one that has been
like it in all blocks so far. -/
def Guided : Prop :=
  ∀ i k, k < numBlocks (files.get i).size blockSize →
    KeepsCompany (sizeClass files.get (List.finRange files.length) i)
      (fun j l => blockHash sys hash (files.get j) l) k i →
        HasCompanion sys hash files i k

instance : Decidable (Guided sys hash blockSize files) :=
  inferInstanceAs (Decidable (∀ i, ∀ k < numBlocks (files.get i).size blockSize, _ → _))

/-- What `duplicates` asks for. -/
def duplicateRequests : List (Fin files.length × ℕ) :=
  searchRequests (fun i k => blockHash sys hash (files.get i) k) byHash bySize files.get blockSize
    (List.finRange files.length)

/-- The search of `duplicates` when it ends, with a result or with an exception. -/
def finalSearch : Search (Fin files.length) :=
  match findDuplicates sys hash byHash bySize blockSize (List.finRange files.length)
    ⟨files.get, []⟩ with
  | .ok (_, s) => s
  | .error (_, s) => s

/-- No block is read twice, none of a file of a size of its own, which is not even opened,
and none without need. -/
structure MinimalReading (s : Search (Fin files.length)) : Prop where
  once : s.reads.Nodup
  alone : ∀ i, (∀ j, (files.get j).size = (files.get i).size → j = i) →
    (s.files i).fileOpened = false ∧ ∀ k, (i, k) ∉ s.reads
  needed : ∀ i k, (i, k) ∈ s.reads → HasCompanion sys hash files i k

variable {sys hash blockSize files byHash bySize}

theorem duplicateRequests_nodup :
    (duplicateRequests sys hash blockSize files byHash bySize).Nodup :=
  searchRequests_nodup (List.nodup_finRange _)

/-- A block of a file is asked for exactly if it has kept company in all the blocks before;
this is what the minimality of the reading comes down to. -/
theorem mem_duplicateRequests {i : Fin files.length} {k : ℕ} :
    (i, k) ∈ duplicateRequests sys hash blockSize files byHash bySize ↔
      k < numBlocks (files.get i).size blockSize ∧
        KeepsCompany (sizeClass files.get (List.finRange files.length) i)
          (fun j l => blockHash sys hash (files.get j) l) k i :=
  mem_searchRequests (List.nodup_finRange _)

/-- The walk begins with no open file and nothing cached. -/
theorem Fresh.fetched (h : Fresh blockSize files) :
    Fetched files.get [] (⟨files.get, []⟩ : Search (Fin files.length)) := by
  refine ⟨fun _ => rfl, rfl, fun i k hne => absurd (h.getD_hashes i k) hne, fun i => ?_⟩
  show (files.get i).fileOpened = true ↔ _
  rw [h i]
  refine iff_of_false Bool.false_ne_true ?_
  rintro ⟨k, hmem⟩
  exact List.not_mem_nil hmem

variable (sys hash byHash bySize)

/-- `duplicates` walks along its requests. -/
theorem Fresh.walk (h : Fresh blockSize files) :
    (findDuplicates sys hash byHash bySize blockSize (List.finRange files.length)
      ⟨files.get, []⟩).map Prod.snd =
        readAll sys hash (duplicateRequests sys hash blockSize files byHash bySize)
          ⟨files.get, []⟩ :=
  findDuplicates_eq (List.finRange files.length) h.informed h.length

/-- What was read at the end is a part of the requests, all of them if the search returns.  It
is a front of them, since the search stops at the first block that it cannot read. -/
theorem fetched_finalSearch (hfresh : Fresh blockSize files) :
    ∃ front, front <+: duplicateRequests sys hash blockSize files byHash bySize ∧
      Fetched files.get front (finalSearch sys hash blockSize files byHash bySize) ∧
      ((∃ result, duplicates sys hash blockSize files byHash bySize = .ok result) →
        front = duplicateRequests sys hash blockSize files byHash bySize) := by
  have hwalk := hfresh.walk sys hash byHash bySize
  have hnodup : ([] ++ duplicateRequests sys hash blockSize files byHash bySize).Nodup :=
    duplicateRequests_nodup
  unfold finalSearch duplicates
  rcases hfresh.fetched.readAll sys hash hnodup with
    ⟨s', hread, hs'⟩ | ⟨front, text, s', hfront, hread, hs'⟩
  all_goals rw [List.nil_append] at hs'; rw [hread] at hwalk
  · refine ⟨_, List.prefix_refl _, ?_, fun _ => rfl⟩
    cases hresult : findDuplicates sys hash byHash bySize blockSize
        (List.finRange files.length) ⟨files.get, []⟩ with
    | error e =>
        rw [hresult] at hwalk
        cases hwalk
    | ok r =>
        rw [hresult] at hwalk
        have hsame : r.2 = s' := Except.ok.inj hwalk
        show Fetched _ _ r.2
        rw [hsame]
        exact hs'
  · refine ⟨front, hfront, ?_⟩
    cases hresult : findDuplicates sys hash byHash bySize blockSize
        (List.finRange files.length) ⟨files.get, []⟩ with
    | error e =>
        rw [hresult] at hwalk
        have hsame : e = (text, s') := Except.error.inj hwalk
        refine ⟨?_, ?_⟩
        · rw [hsame]
          exact hs'
        · rintro ⟨result, hok⟩
          cases hok
    | ok r =>
        rw [hresult] at hwalk
        cases hwalk

variable {sys hash byHash bySize}

/-- **When nothing is read in vain.**  No block is read twice and no file of a size of its
own is opened.  Every block that is read had to be read if the files are guided, and if the
search returns, only then. -/
theorem reads_minimal (hfresh : Fresh blockSize files) :
    (Guided sys hash blockSize files →
      MinimalReading sys hash files (finalSearch sys hash blockSize files byHash bySize)) ∧
    ((∃ result, duplicates sys hash blockSize files byHash bySize = .ok result) →
      (MinimalReading sys hash files (finalSearch sys hash blockSize files byHash bySize) ↔
        Guided sys hash blockSize files)) ∧
    (finalSearch sys hash blockSize files byHash bySize).reads.Nodup ∧
    ∀ i, (∀ j, (files.get j).size = (files.get i).size → j = i) →
      ((finalSearch sys hash blockSize files byHash bySize).files i).fileOpened = false ∧
        ∀ k, (i, k) ∉ (finalSearch sys hash blockSize files byHash bySize).reads := by
  obtain ⟨front, hfront, hfetched, hall⟩ := fetched_finalSearch sys hash byHash bySize hfresh
  have honce : (finalSearch sys hash blockSize files byHash bySize).reads.Nodup := by
    rw [hfetched.reads]
    exact duplicateRequests_nodup.sublist hfront.sublist
  have hrequested (i : Fin files.length) (k : ℕ) (h : (i, k) ∈ front) :=
    mem_duplicateRequests.mp (hfront.subset h)
  have halone (i : Fin files.length)
      (hi : ∀ j, (files.get j).size = (files.get i).size → j = i) (k : ℕ) : (i, k) ∉ front := by
    intro h
    obtain ⟨j, hj, hne⟩ := (hrequested i k h).2.start.2
    exact hne (hi j (of_decide_eq_true (List.mem_filter.mp hj).2))
  have hunopened (i : Fin files.length)
      (hi : ∀ j, (files.get j).size = (files.get i).size → j = i) :
      ((finalSearch sys hash blockSize files byHash bySize).files i).fileOpened = false ∧
        ∀ k, (i, k) ∉ (finalSearch sys hash blockSize files byHash bySize).reads := by
    rw [hfetched.reads]
    refine ⟨?_, halone i hi⟩
    rw [← Bool.not_eq_true, hfetched.opened]
    rintro ⟨k, hk⟩
    exact halone i hi k hk
  have hguided (h : Guided sys hash blockSize files) : MinimalReading sys hash files
      (finalSearch sys hash blockSize files byHash bySize) := by
    refine ⟨honce, hunopened, fun i k hread => ?_⟩
    rw [hfetched.reads] at hread
    obtain ⟨hk, hcompany⟩ := hrequested i k hread
    exact h i k hk hcompany
  refine ⟨hguided, fun hok => ⟨fun hminimal i k hk hcompany => ?_, hguided⟩, honce, hunopened⟩
  refine hminimal.needed i k ?_
  rw [hfetched.reads, hall hok]
  exact mem_duplicateRequests.mpr ⟨hk, hcompany⟩

/-! ### Four files of three blocks

In the four files every block has a companion, but no two files agree in their first two
blocks. -/

/-- Two files that differ in the second block. -/
def twoFiles : List FileInfo := [['a', 'a', 'a'], ['a', 'b', 'a']].map fun path => .create path 3 1

/-- The third blocks of both are not read. -/
theorem reads_minimal_twoFiles :
    MinimalReading spelled plainHash twoFiles
      (finalSearch spelled plainHash 1 twoFiles (.inserted _ _) (.inserted _ _)) :=
  (reads_minimal (by decide)).1 (by decide +kernel)

/-- The four files of two bytes out of two, with a third byte each. -/
def longFiles : List FileInfo :=
  [['a', 'a', 'x'], ['a', 'b', 'y'], ['b', 'a', 'z'], ['b', 'b', 'w']].map fun path =>
    .create path 3 1

/-- **A block is read in vain.**  The first two blocks tell all four files apart, and all
third blocks are read. -/
theorem longFiles_read : Fresh 1 longFiles ∧
    (duplicates spelled plainHash 1 longFiles (.inserted _ _) (.inserted _ _)).isOk = true ∧
    ((⟨0, by decide⟩ : Fin longFiles.length), 2) ∈
      (finalSearch spelled plainHash 1 longFiles (.inserted _ _) (.inserted _ _)).reads ∧
    ¬HasCompanion spelled plainHash longFiles ⟨0, by decide⟩ 2 ∧
    ¬MinimalReading spelled plainHash longFiles
      (finalSearch spelled plainHash 1 longFiles (.inserted _ _) (.inserted _ _)) := by
  have hread : ((⟨0, by decide⟩ : Fin longFiles.length), 2) ∈
      (finalSearch spelled plainHash 1 longFiles (.inserted _ _) (.inserted _ _)).reads := by
    decide +kernel
  have halone : ¬HasCompanion spelled plainHash longFiles ⟨0, by decide⟩ 2 := by decide
  exact ⟨by decide, by decide +kernel, hread, halone, fun h => halone (h.needed _ _ hread)⟩

end Results

end Bayan
