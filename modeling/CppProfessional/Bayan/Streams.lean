import CppProfessional.Bayan.Reading

/-!
# A limit on open streams

A file that was opened once stays open as long as the search lasts, so a search needs a
stream for each file of which it reads a block.  With few streams it throws, and what it
found is lost.

* `System.limited`, `System.unlimited` — systems with and without a limit;
* `findDuplicates_returns` — a search that returns also returns where more is admitted;
* `readAll_limited_iff` — a walk ends exactly if there are enough streams for its files;
* `contenders` — the files of which a block is read;
* `streams_suffice_iff` — the limit does no harm exactly if it is not below their number.
-/

namespace Bayan

open Transition Containers

universe u

/-- At most `limit` streams are open at once. -/
def System.limited (sys : System) (limit : ℕ) : System :=
  { sys with admits := fun n => decide (n < limit) }

def System.unlimited (sys : System) : System := { sys with admits := fun _ => true }

/-- The same files, and more streams.  Files come first: with other files the search would not
even ask for the same blocks. -/
structure System.Within (sys sys' : System) : Prop where
  content : sys.content = sys'.content
  admits : ∀ n, sys.admits n = true → sys'.admits n = true

theorem System.limited_within (sys : System) (limit : ℕ) :
    (sys.limited limit).Within sys.unlimited :=
  ⟨rfl, fun _ _ => rfl⟩

/-! ### More streams

A search that returns has opened all it needed; that more could have been opened makes
no difference to it.  The lemmas follow the calls from the inside to the outside. -/

section Within

variable {ι : Type u} [DecidableEq ι] [Fintype ι] {sys sys' : System} (h : sys.Within sys')
  (hash : Bytes → Text) (byHash : Iteration Text ι) (bySize : Iteration ℕ ι)

include h

/-- A file that opens within the limit opens without it. -/
theorem openFile_returns (s : Search ι) (i : ι) :
    Returns (openFile sys s i) (openFile sys' s i) := by
  intro s' hs'
  unfold openFile at hs' ⊢
  split at hs'
  · next hopened =>
      rw [if_pos hopened]
      exact hs'
  · next hopened =>
      rw [if_neg hopened]
      split at hs'
      · next hadmits =>
          obtain ⟨hcontent, hfree⟩ := Bool.and_eq_true_iff.mp hadmits
          rw [if_pos (Bool.and_eq_true_iff.mpr ⟨h.content ▸ hcontent, h.admits _ hfree⟩)]
          exact hs'
      · cases hs'

/-- So does the hash of a block. -/
theorem computeBlockHash_returns (k : ℕ) (i : ι) (s : Search ι) :
    Returns (computeBlockHash sys hash k i s) (computeBlockHash sys' hash k i s) := by
  unfold computeBlockHash
  split
  · exact Returns.refl _
  · refine (openFile_returns h s i).bind fun s' => ?_
    have hhash : blockHash sys hash = blockHash sys' hash := by
      unfold blockHash readBlock
      rw [h.content]
    rw [hhash]
    exact Returns.refl _

/-- So does a round over the files of a group. -/
theorem hashRound_returns (k : ℕ) (xs : List ι) (s : Search ι) :
    Returns (hashRound sys hash k xs s) (hashRound sys' hash k xs s) := by
  refine Returns.foldlM (fun r x => ?_) _ _
  exact (computeBlockHash_returns h hash k x r.2).bind fun _ => Returns.refl _

/-- So do all rounds. -/
theorem filterRounds_returns (blocks : List ℕ) (xs : List ι) (s : Search ι) :
    Returns (filterRounds sys hash byHash blocks xs s)
      (filterRounds sys' hash byHash blocks xs s) := by
  induction blocks generalizing xs s with
  | nil => exact Returns.refl _
  | cons k blocks ih =>
      rw [filterRounds, filterRounds]
      refine (hashRound_returns h hash k xs s).bind fun r => ?_
      dsimp only
      split
      · exact Returns.refl _
      · exact ih _ _

/-- And so does the search in a group: a result within the limit is one without it. -/
theorem findDuplicatesInGroup_returns (blockSize : ℕ) (xs : List ι) (s : Search ι) :
    Returns (findDuplicatesInGroup sys hash byHash blockSize xs s)
      (findDuplicatesInGroup sys' hash byHash blockSize xs s) :=
  (filterRounds_returns h hash byHash _ xs s).bind fun _ => Returns.refl _

/-- **A search that returns also returns where more is admitted**, and returns the same. -/
theorem findDuplicates_returns (blockSize : ℕ) (xs : List ι) (s : Search ι) :
    Returns (findDuplicates sys hash byHash bySize blockSize xs s)
      (findDuplicates sys' hash byHash bySize blockSize xs s) := by
  refine Returns.foldlM (fun r sizeGroup => ?_) _ _
  dsimp only
  split
  · exact Returns.refl _
  · exact (findDuplicatesInGroup_returns h hash byHash blockSize sizeGroup _).bind
      fun _ => Returns.refl _

end Within

/-! ### Few streams

Streams are counted by the owners of the blocks read so far, because no stream is closed
before the search is over. -/

section Limited

variable {ι : Type u} [DecidableEq ι] [Fintype ι] {sys : System} {hash : Bytes → Text}
  {files : ι → FileInfo} {s : Search ι} {done : List (ι × ℕ)} {limit : ℕ}

/-- The files of a list of blocks. -/
def owners (blocks : List (ι × ℕ)) : Finset ι := (blocks.map Prod.fst).toFinset

omit [Fintype ι] in
/-- The owners of blocks are the files of which one has been read. -/
theorem mem_owners {blocks : List (ι × ℕ)} {i : ι} : i ∈ owners blocks ↔ ∃ k, (i, k) ∈ blocks := by
  simp [owners]

omit [Fintype ι] in
/-- A further block adds its owner, unless a block of the file has been read before: its stream
stays open. -/
theorem owners_concat (blocks : List (ι × ℕ)) (i : ι) (k : ℕ) :
    owners (blocks ++ [(i, k)]) = insert i (owners blocks) := by
  ext j
  simp [owners]

/-- The open streams are those of the files that were read. -/
theorem Fetched.openStreams (h : Fetched files done s) : s.openStreams = (owners done).card := by
  unfold Search.openStreams
  congr 1
  ext i
  rw [Finset.mem_filter, mem_owners, h.opened]
  exact and_iff_right (Finset.mem_univ i)

/-- **A walk with few streams** ends exactly if there is one for each file on the way: a stream
stays open until the end of the search. -/
theorem readAll_limited_iff (h : Fetched files done s)
    (hcontent : ∀ i, (sys.content (files i).path).isSome = true) {blocks : List (ι × ℕ)}
    (hnodup : (done ++ blocks).Nodup) (hle : (owners done).card ≤ limit) :
    (∃ s', readAll (sys.limited limit) hash blocks s = .ok s') ↔
      (owners (done ++ blocks)).card ≤ limit := by
  induction blocks generalizing done s with
  | nil =>
      rw [List.append_nil]
      exact iff_of_true ⟨s, rfl⟩ hle
  | cons block blocks ih =>
      obtain ⟨i, k⟩ := block
      have hnew : (i, k) ∉ done := fun hold =>
        List.disjoint_of_nodup_append hnodup hold List.mem_cons_self
      have hassoc : done ++ (i, k) :: blocks = done ++ [(i, k)] ++ blocks := by
        rw [List.append_assoc]
        rfl
      rw [readAll, List.foldlM_cons]
      rcases h.read (sys.limited limit) hash hnew with
        ⟨havailable, s', hread, hs'⟩ | ⟨hdenied, text, hthrown⟩
      · rw [hread]
        rw [hassoc] at hnodup ⊢
        refine ih hs' hnodup ?_
        rw [owners_concat]
        rcases havailable with hopened | ⟨-, hfree⟩
        · rw [Finset.insert_eq_of_mem (mem_owners.mpr ((h.opened i).mp hopened))]
          exact hle
        · have hlt : s.openStreams < limit := of_decide_eq_true hfree
          rw [h.openStreams] at hlt
          exact (Finset.card_insert_le _ _).trans hlt
      · rw [hthrown]
        refine iff_of_false ?_ fun hcard => hdenied ?_
        · rintro ⟨s', hok⟩
          cases hok
        -- the file is not among those that are open, and one more is needed
        by_cases hold : i ∈ owners done
        · exact .inl ((h.opened i).mpr (mem_owners.mp hold))
        · refine .inr ⟨h.path i ▸ hcontent i, decide_eq_true ?_⟩
          have hsub : insert i (owners done) ⊆ owners (done ++ (i, k) :: blocks) := by
            rw [hassoc, ← owners_concat done i k]
            intro j hj
            obtain ⟨l, hl⟩ := mem_owners.mp hj
            exact mem_owners.mpr ⟨l, List.mem_append_left _ hl⟩
          have hmore := (Finset.card_le_card hsub).trans hcard
          rw [Finset.card_insert_of_notMem hold] at hmore
          rw [h.openStreams]
          exact hmore

end Limited

/-! ### Many candidates

The files whose first block is asked for are all of those that have one and are not
alone with their size.  Their number is what the limit is compared with. -/

section Results

variable (sys : System) (hash : Bytes → Text) (blockSize : ℕ) (files : List FileInfo)
  (byHash : Iteration Text (Fin files.length)) (bySize : Iteration ℕ (Fin files.length))

/-- The files with a block and with another listed file of their size. -/
def contenders : Finset (Fin files.length) :=
  Finset.univ.filter fun i => 0 < numBlocks (files.get i).size blockSize ∧
    ∃ j, j ≠ i ∧ (files.get j).size = (files.get i).size

variable {sys hash blockSize files byHash bySize}

/-- The first block of each of them is asked for. -/
theorem owners_duplicateRequests :
    owners (duplicateRequests sys hash blockSize files byHash bySize) =
      contenders blockSize files := by
  ext i
  rw [mem_owners, contenders, Finset.mem_filter, and_iff_right (Finset.mem_univ i)]
  constructor
  · rintro ⟨k, hk⟩
    obtain ⟨hlt, hcompany⟩ := mem_duplicateRequests.mp hk
    obtain ⟨-, j, hj, hne⟩ := hcompany.start
    exact ⟨Nat.zero_lt_of_lt hlt, j, hne, of_decide_eq_true (List.mem_filter.mp hj).2⟩
  · rintro ⟨hpos, j, hne, hsize⟩
    have hmem (x : Fin files.length) (hx : (files.get x).size = (files.get i).size) :
        x ∈ sizeClass files.get (List.finRange files.length) i :=
      List.mem_filter.mpr ⟨List.mem_finRange x, decide_eq_true hx⟩
    exact ⟨0, mem_duplicateRequests.mpr ⟨hpos, hmem i rfl, j, hmem j hsize, hne⟩⟩

/-- **When there are streams enough.**  With at most `limit` streams the search returns
what it returns without a limit exactly if not more files than this have a block and another
file of their size; with more of them it throws. -/
theorem streams_suffice_iff (hfresh : Fresh blockSize files)
    (hcontent : ∀ i, (sys.content (files.get i).path).isSome = true) (limit : ℕ) :
    (∃ result, duplicates (sys.limited limit) hash blockSize files byHash bySize = .ok result ∧
      duplicates sys.unlimited hash blockSize files byHash bySize = .ok result) ↔
        (contenders blockSize files).card ≤ limit := by
  have hreturns : Returns (duplicates (sys.limited limit) hash blockSize files byHash bySize)
      (duplicates sys.unlimited hash blockSize files byHash bySize) :=
    (Returns.mapError (findDuplicates_returns (sys.limited_within limit) hash byHash bySize
      blockSize _ _) _).bind fun _ => Returns.refl _
  have hwalk : (∃ s', readAll (sys.limited limit) hash
      (duplicateRequests (sys.limited limit) hash blockSize files byHash bySize)
        ⟨files.get, []⟩ = .ok s') ↔ _ :=
    readAll_limited_iff hfresh.fetched hcontent duplicateRequests_nodup (Nat.zero_le limit)
  rw [List.nil_append, owners_duplicateRequests, ← hfresh.walk] at hwalk
  rw [← hwalk]
  unfold duplicates at hreturns ⊢
  cases hresult : findDuplicates (sys.limited limit) hash byHash bySize blockSize
      (List.finRange files.length) ⟨files.get, []⟩ with
  | error e =>
      refine iff_of_false ?_ ?_
      · rintro ⟨result, hok, -⟩
        cases hok
      · rintro ⟨s, hok⟩
        cases hok
  | ok r =>
      rw [hresult] at hreturns
      exact iff_of_true ⟨r.1, rfl, hreturns r.1 rfl⟩ ⟨r.2, rfl⟩

/-- All files hold the same byte. -/
def sameByte : System where
  content _ := some [97]
  admits _ := true

/-- Two copies of one file. -/
def copies : List FileInfo := [['x'], ['y']].map fun path => .create path 1 1

/-- Two streams are enough for two copies. -/
theorem streams_suffice_iff_copies : ∃ result,
    duplicates (sameByte.limited 2) plainHash 1 copies (.inserted _ _) (.inserted _ _) =
        .ok result ∧
      duplicates sameByte.unlimited plainHash 1 copies (.inserted _ _) (.inserted _ _) =
        .ok result :=
  (streams_suffice_iff (by decide) (fun _ => rfl) 2).mpr (by decide)

/-- **One stream is not enough** for two files: the second cannot be opened while the first
stays open, and the copies are missed. -/
theorem copies_missed : Fresh 1 copies ∧
    duplicates (sameByte.limited 1) plainHash 1 copies (.inserted _ _) (.inserted _ _) =
        .error ("Failed to open file: y".toList) ∧
      (duplicates sameByte.unlimited plainHash 1 copies (.inserted _ _)
        (.inserted _ _)).toOption.map (·.map (·.map FileInfo.path)) = some [[['x'], ['y']]] := by
  decide +kernel

end Results

end Bayan
