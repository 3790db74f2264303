import CppProfessional.Bayan.Duplicates

/-!
# The hash algorithms

A block hash is a text: a CRC-32 in decimal, which has one to ten digits, or an MD5 in
hexadecimal, which always has 32.  At the end of the search the hashes of all blocks are
written one behind the other, and this text is the key of the file.

* `HashAlgorithm.computeHash` — the texts, for any checksum functions;
* `KeyIdentifies` — the key of a file that passed the rounds determines its block hashes;
* `keyIdentifies_iff` — this holds for MD5, and for CRC-32 if there is at most one block;
* `crc32` — the checksum itself; `collidingFiles_grouped` are files that it does not keep
  apart although all their blocks have different checksums.
-/

namespace Bayan

open Transition Containers

/-- `enum class hash_algorithm` -/
inductive HashAlgorithm
  | crc32
  | md5
  deriving DecidableEq, Repr

/-- The checksums of a text: `boost::crc_32_type` and `boost::uuids::detail::md5`. -/
structure Checksums where
  crc32 : Bytes → UInt32
  md5 : Bytes → Fin 16 → UInt8

/-- `compute_crc32(input)` -/
def computeCrc32 (sums : Checksums) (input : Bytes) : Text :=
  Nat.toDigits 10 (sums.crc32 input).toNat

/-- The digits of `boost::algorithm::hex`. -/
def hexDigit (n : ℕ) : Char := "0123456789ABCDEF".toList.getD n '0'

/-- `compute_md5(input)` -/
def computeMd5 (sums : Checksums) (input : Bytes) : Text :=
  (List.ofFn (sums.md5 input)).flatMap fun byte =>
    [hexDigit (byte.toNat / 16), hexDigit (byte.toNat % 16)]

/-- `HashAlgorithm::compute_hash(input)` -/
def HashAlgorithm.computeHash (sums : Checksums) : HashAlgorithm → Bytes → Text
  | .crc32 => computeCrc32 sums
  | .md5 => computeMd5 sums

/-- An MD5 sum is written with two digits a byte, and so always with 32. -/
theorem length_computeMd5 (sums : Checksums) (input : Bytes) :
    (computeMd5 sums input).length = 32 := by
  rw [computeMd5, List.length_flatMap]
  simp

/-- In files of one size that pass the rounds of the search, equal keys mean equal block
hashes, whatever the checksums are. -/
def KeyIdentifies (algorithm : HashAlgorithm) (size blockSize : ℕ) : Prop :=
  ∀ (sums : Checksums) (sys : System) (files : List FileInfo), Fresh blockSize files →
    ∀ (byHash : Iteration Text (Fin files.length)) (sizeGroup : List (Fin files.length)),
      sizeGroup.Nodup → 2 ≤ sizeGroup.length → (∀ i ∈ sizeGroup, (files.get i).size = size) →
    ∀ s : Search (Fin files.length),
      Informed sys (algorithm.computeHash sums) files.get (fun _ _ => False) s →
    ∀ kept s', filterRounds sys (algorithm.computeHash sums) byHash
        (List.range (numBlocks size blockSize)) sizeGroup s = .ok (kept, s') →
      ∀ i ∈ kept, ∀ j ∈ kept,
        ((s'.files i).hashes.flatten = (s'.files j).hashes.flatten ↔
          (s'.files i).hashes = (s'.files j).hashes)

section Survivors

variable {sys : System} {hash : Bytes → Text} {blockSize size : ℕ} {files : List FileInfo}
  {byHash : Iteration Text (Fin files.length)} {s : Search (Fin files.length)}

/-- The files that pass the rounds, with all their hashes. -/
theorem filterRounds_survivors (hfresh : Fresh blockSize files)
    {sizeGroup : List (Fin files.length)} (hnodup : sizeGroup.Nodup)
    (htwo : 2 ≤ sizeGroup.length) (hsize : ∀ i ∈ sizeGroup, (files.get i).size = size)
    (h : Informed sys hash files.get (fun _ _ => False) s) :
    Outcome (Openable sys files.get)
      (fun r => (∀ i, i ∈ r.1 ↔ KeepsCompany sizeGroup
          (fun j k => blockHash sys hash (files.get j) k) (numBlocks size blockSize) i) ∧
        ∀ i ∈ r.1, (r.2.files i).hashes = hashSequence sys hash (files.get i))
      (filterRounds sys hash byHash (List.range (numBlocks size blockSize)) sizeGroup s) := by
  refine (filterRounds_all h hnodup htwo fun i hi => ?_).mono ?_
  · rw [hfresh.length, hsize i hi]
  · rintro ⟨kept, s'⟩ ⟨-, hkept, hcopies, -⟩
    exact ⟨hkept, fun i hi => congrArg FileInfo.hashes (hcopies i hi)⟩

end Survivors

/-! ### Hashes of one length

A concatenation of texts can be taken apart again if their lengths are known.  This is
the whole difference between the two algorithms. -/

/-- Texts of one length can be read off their concatenation. -/
theorem eq_of_flatten_eq {α : Type*} {w : ℕ} {xs ys : List (List α)}
    (hlength : xs.length = ys.length) (hxs : ∀ x ∈ xs, x.length = w)
    (hys : ∀ y ∈ ys, y.length = w) (h : xs.flatten = ys.flatten) : xs = ys := by
  refine List.eq_iff_flatten_eq.mpr ⟨h, ?_⟩
  rw [List.eq_replicate_of_mem (a := w) (l := xs.map List.length),
    List.eq_replicate_of_mem (a := w) (l := ys.map List.length)]
  · rw [List.length_map, List.length_map, hlength]
  · intro n hn
    obtain ⟨y, hy, rfl⟩ := List.mem_map.mp hn
    exact hys y hy
  · intro n hn
    obtain ⟨x, hx, rfl⟩ := List.mem_map.mp hn
    exact hxs x hx

/-- One text can be read off a concatenation of one. -/
theorem eq_of_flatten_eq_of_length_le_one {α : Type*} {xs ys : List (List α)}
    (hlength : xs.length = ys.length) (hone : xs.length ≤ 1) (h : xs.flatten = ys.flatten) :
    xs = ys := by
  match xs, ys with
  | [], [] => rfl
  | [x], [y] => simpa using h

/-! ### Checksums whose texts run together

For every number of blocks from two on there are files on which CRC-32 fails: two
checksums `1` and `23` give the same digits as `12` and `3`.  Each of the two kinds of
files is there twice, so that the rounds keep them all. -/

/-- A checksum of the first byte. -/
def collidingSums : Checksums where
  crc32 bytes :=
    match bytes.head? with
    | some 1 => 1
    | some 2 => 23
    | some 3 => 12
    | some 4 => 3
    | _ => 0
  md5 _ _ := 0

/-- A file whose first block begins with `a` and the second with `b`. -/
def markedBytes (size blockSize : ℕ) (a b : UInt8) : Bytes :=
  (List.range size).map fun i => if i = 0 then a else if i = blockSize then b else 0

/-- The first two blocks of the files whose names begin with `p` have the checksums 1 and 23,
those of all others 12 and 3. -/
def markedFiles (size blockSize : ℕ) : System where
  content path :=
    some (if path.head? = some 'p' then markedBytes size blockSize 1 2
      else markedBytes size blockSize 3 4)
  admits _ := true

/-- Two files of each sort. -/
def twoPairs (size blockSize : ℕ) : List FileInfo :=
  [['p', '1'], ['p', '2'], ['q', '1'], ['q', '2']].map fun path => .create path size blockSize

section Colliding

variable {size blockSize : ℕ}

/-- A file of two blocks or more is longer than one block. -/
theorem lt_size_of_two_le (h : 2 ≤ numBlocks size blockSize) :
    0 < blockSize ∧ blockSize < size := by
  have hpos : 0 < blockSize := by
    by_contra hzero
    rw [Nat.eq_zero_of_not_pos hzero, numBlocks, Nat.div_zero] at h
    omega
  refine ⟨hpos, ?_⟩
  have hle := (Nat.le_div_iff_mul_le hpos).mp h
  have hwrap : (size + blockSize + (UInt64.size - 1)) % UInt64.size ≤ size + blockSize - 1 := by
    have hsum : size + blockSize + (UInt64.size - 1) = size + blockSize - 1 + UInt64.size := by
      have : 0 < UInt64.size := by decide
      omega
    rw [hsum, Nat.add_mod_right]
    exact Nat.mod_le _ _
  omega

/-- The hash of a block of a marked file. -/
theorem blockHash_marked (hpos : 0 < blockSize) (hlt : blockSize < size) {path : Text}
    {a b : UInt8}
    (hcontent : (markedFiles size blockSize).content path = some (markedBytes size blockSize a b))
    (k : ℕ) : blockHash (markedFiles size blockSize) (computeCrc32 collidingSums)
      (.create path size blockSize) k =
        computeCrc32 collidingSums [if k = 0 then a else if k = 1 then b else 0] := by
  have hhead : (readBlock (markedFiles size blockSize) (.create path size blockSize) k).head? =
      (markedBytes size blockSize a b)[k * blockSize]? := by
    unfold readBlock
    show ((List.drop (k * blockSize) (((markedFiles size blockSize).content path).getD [])).take
      blockSize).head? = _
    rw [hcontent, Option.getD_some, List.head?_take, if_neg hpos.ne', List.head?_drop]
  show Nat.toDigits 10 (collidingSums.crc32 (readBlock _ _ k)).toNat =
    Nat.toDigits 10 (collidingSums.crc32 [_]).toNat
  unfold collidingSums
  dsimp only
  rw [hhead, markedBytes, List.getElem?_map, List.head?_cons]
  match k with
  | 0 =>
      rw [Nat.zero_mul, List.getElem?_range (hpos.trans hlt), Option.map_some, if_pos rfl,
        if_pos rfl]
  | 1 =>
      rw [Nat.one_mul, List.getElem?_range hlt, Option.map_some, if_neg hpos.ne', if_pos rfl,
        if_neg Nat.one_ne_zero, if_pos rfl]
  | k + 2 =>
      -- the rest of the file is zero, as far as it goes
      have hlater : blockSize < (k + 2) * blockSize := by
        rw [Nat.add_mul]
        omega
      by_cases hinside : (k + 2) * blockSize < size
      · rw [List.getElem?_range hinside, Option.map_some, if_neg (by omega), if_neg hlater.ne',
          if_neg (by omega), if_neg (by omega)]
      · rw [List.getElem?_eq_none (by simpa using hinside), Option.map_none, if_neg (by omega),
          if_neg (by omega)]
        rfl

/-- The hashes of a marked file. -/
theorem hashSequence_marked {blocks : ℕ} (hblocks : numBlocks size blockSize = blocks + 2)
    {path : Text} {a b : UInt8}
    (hcontent : (markedFiles size blockSize).content path = some (markedBytes size blockSize a b)) :
    hashSequence (markedFiles size blockSize) (computeCrc32 collidingSums)
        (.create path size blockSize) =
      computeCrc32 collidingSums [a] :: computeCrc32 collidingSums [b] ::
        List.replicate blocks ['0'] := by
  obtain ⟨hpos, hlt⟩ := lt_size_of_two_le (hblocks ▸ Nat.le_add_left 2 blocks)
  have hlength : (FileInfo.create path size blockSize).hashes.length = blocks + 2 :=
    List.length_replicate.trans hblocks
  have hrest : (List.range blocks).map (fun k => blockHash (markedFiles size blockSize)
      (computeCrc32 collidingSums) (.create path size blockSize) (k + 2)) =
        List.replicate blocks ['0'] := by
    refine List.eq_replicate_iff.mpr ⟨by rw [List.length_map, List.length_range], ?_⟩
    intro hashed hmem
    obtain ⟨k, -, rfl⟩ := List.mem_map.mp hmem
    rw [blockHash_marked hpos hlt hcontent, if_neg (Nat.succ_ne_zero _), if_neg (by omega)]
    decide
  have hfirst := blockHash_marked hpos hlt hcontent 0
  have hsecond := blockHash_marked hpos hlt hcontent 1
  rw [hashSequence, hlength, List.range_succ_eq_map, List.range_succ_eq_map, List.map_cons,
    List.map_cons, List.map_cons, List.map_map, List.map_map, hfirst]
  rw [← hrest]
  exact congrArg (computeCrc32 collidingSums [a] :: · :: _) hsecond

theorem exists_path_twoPairs (i : Fin (twoPairs size blockSize).length) :
    ∃ path, (twoPairs size blockSize).get i = .create path size blockSize := by
  obtain ⟨path, -, hpath⟩ := List.mem_map.mp ((twoPairs size blockSize).get_mem i)
  exact ⟨path, hpath.symm⟩

/-- The four files are as the scanner lists them. -/
theorem fresh_twoPairs : Fresh blockSize (twoPairs size blockSize) := by
  intro i
  obtain ⟨path, hpath⟩ := exists_path_twoPairs i
  rw [hpath]
  rfl

/-- They have one size. -/
theorem size_twoPairs (i : Fin (twoPairs size blockSize).length) :
    ((twoPairs size blockSize).get i).size = size := by
  obtain ⟨path, hpath⟩ := exists_path_twoPairs i
  rw [hpath]
  rfl

/-- A file with a twin passes the rounds. -/
theorem keepsCompany_twoPairs {i j : Fin (twoPairs size blockSize).length} (hne : i ≠ j)
    (hsame : hashSequence (markedFiles size blockSize) (computeCrc32 collidingSums)
        ((twoPairs size blockSize).get i) =
      hashSequence (markedFiles size blockSize) (computeCrc32 collidingSums)
        ((twoPairs size blockSize).get j)) :
    KeepsCompany (List.finRange (twoPairs size blockSize).length)
      (fun x k => blockHash (markedFiles size blockSize) (computeCrc32 collidingSums)
        ((twoPairs size blockSize).get x) k) (numBlocks size blockSize) i := by
  refine (keepsCompany_of_twin (List.mem_finRange i) (List.mem_finRange j) hne fun k hk => ?_).1
  refine blockHash_eq_of_hashSequence_eq hsame ?_
  rw [fresh_twoPairs.length, size_twoPairs i]
  exact hk

/-- **CRC-32 keys run together** as soon as there are two blocks.  The sums are decimal
numerals without leading zeros, so the same digits can be cut in two ways. -/
theorem not_keyIdentifies_crc32 (h : 2 ≤ numBlocks size blockSize) :
    ¬KeyIdentifies .crc32 size blockSize := by
  intro hkey
  obtain ⟨blocks, hblocks⟩ := Nat.exists_eq_add_of_le' h
  have hfresh : Fresh blockSize (twoPairs size blockSize) := fresh_twoPairs
  have hsize : ∀ i ∈ List.finRange (twoPairs size blockSize).length,
      ((twoPairs size blockSize).get i).size = size := fun i _ => size_twoPairs i
  have hnodup := List.nodup_finRange (twoPairs size blockSize).length
  have htwo : 2 ≤ (List.finRange (twoPairs size blockSize).length).length := by
    rw [List.length_finRange]
    exact Nat.le_add_left 2 2
  have hsurvivors : Outcome _ _ (filterRounds (markedFiles size blockSize)
      (computeCrc32 collidingSums) (.inserted _ _) _ _ ⟨(twoPairs size blockSize).get, []⟩) :=
    filterRounds_survivors hfresh hnodup htwo hsize hfresh.informed
  obtain ⟨⟨kept, s⟩, hok, hkept, hhashes⟩ := hsurvivors.exists_ok ⟨fun _ => rfl, fun _ => rfl⟩
  -- the hashes of the two sorts
  have hp (name : Text) : hashSequence (markedFiles size blockSize) (computeCrc32 collidingSums)
      (.create ('p' :: name) size blockSize) =
        ['1'] :: ['2', '3'] :: List.replicate blocks ['0'] :=
    hashSequence_marked (a := 1) (b := 2) hblocks rfl
  have hq (name : Text) : hashSequence (markedFiles size blockSize) (computeCrc32 collidingSums)
      (.create ('q' :: name) size blockSize) =
        ['1', '2'] :: ['3'] :: List.replicate blocks ['0'] :=
    hashSequence_marked (a := 3) (b := 4) hblocks rfl
  let p : Fin (twoPairs size blockSize).length := ⟨0, Nat.succ_pos 3⟩
  let q : Fin (twoPairs size blockSize).length := ⟨2, Nat.lt_succ_of_lt (Nat.lt_succ_self 2)⟩
  have hpkept : p ∈ kept :=
    (hkept p).mpr (keepsCompany_twoPairs (j := ⟨1, Nat.one_lt_succ_succ 2⟩)
      (Fin.ne_of_val_ne Nat.zero_ne_one) ((hp _).trans (hp _).symm))
  have hqkept : q ∈ kept :=
    (hkept q).mpr (keepsCompany_twoPairs (j := ⟨3, Nat.lt_succ_self 3⟩)
      (Fin.ne_of_val_ne (Nat.ne_of_lt (Nat.lt_succ_self 2))) ((hq _).trans (hq _).symm))
  have hphashes := (hhashes p hpkept).trans (hp _)
  have hqhashes := (hhashes q hqkept).trans (hq _)
  have hsame := (hkey collidingSums (markedFiles size blockSize) (twoPairs size blockSize) hfresh
    (.inserted _ _) _ hnodup htwo hsize _ hfresh.informed kept s hok p hpkept q hqkept).mp
      (by rw [hphashes, hqhashes]; rfl)
  rw [hphashes, hqhashes] at hsame
  exact absurd (List.cons.inj hsame).1 (by decide)

end Colliding

/-- **When the key identifies the block hashes.**  For all files of a size, and whatever the
checksums are: with MD5 always, with CRC-32 exactly if there is at most one block. -/
theorem keyIdentifies_iff (algorithm : HashAlgorithm) (size blockSize : ℕ) :
    KeyIdentifies algorithm size blockSize ↔
      algorithm = .md5 ∨ numBlocks size blockSize ≤ 1 := by
  constructor
  · intro hkey
    cases algorithm with
    | md5 => exact .inl rfl
    | crc32 =>
        by_contra hmany
        rw [not_or, Nat.not_le] at hmany
        exact not_keyIdentifies_crc32 hmany.2 hkey
  · intro hshort sums sys files hfresh byHash sizeGroup hnodup htwo hsize s hs kept s' hok i hi j hj
    obtain ⟨hkept, hhashes⟩ :=
      (filterRounds_survivors hfresh hnodup htwo hsize hs).of_eq_ok hok
    refine ⟨fun hflatten => ?_, congrArg List.flatten⟩
    have hlength (x : Fin files.length) (hx : x ∈ kept) :
        (s'.files x).hashes.length = numBlocks size blockSize := by
      rw [hhashes x hx, hashSequence_length, hfresh.length, hsize x ((hkept x).mp hx).start.1]
    have hsame := (hlength i hi).trans (hlength j hj).symm
    rcases hshort with rfl | hone
    · have hwidth (x : Fin files.length) (hx : x ∈ kept) :
          ∀ text ∈ (s'.files x).hashes, text.length = 32 := by
        intro text htext
        rw [hhashes x hx] at htext
        obtain ⟨k, -, rfl⟩ := List.mem_map.mp htext
        exact length_computeMd5 sums _
      exact eq_of_flatten_eq hsame (hwidth i hi) (hwidth j hj) hflatten
    · exact eq_of_flatten_eq_of_length_le_one hsame ((hlength i hi).trans_le hone) hflatten

/-! ### Four files with the checksums 1, 23 and 12, 3

The checksum above was made up for the purpose.  Here are bytes for which the real one
has these values. -/

/-- One bit of the remainder. -/
def crcStep (remainder : UInt32) : UInt32 :=
  if remainder &&& 1 = 1 then (remainder >>> 1) ^^^ 0xEDB88320 else remainder >>> 1

/-- CRC-32: the reflected polynomial, with all bits of the first and the last remainder
inverted. -/
def crc32 (bytes : Bytes) : UInt32 :=
  bytes.foldl (fun remainder byte => crcStep^[8] (remainder ^^^ byte.toUInt32)) 0xFFFFFFFF ^^^
    0xFFFFFFFF

example : crc32 ("123456789".toList.map fun c => UInt8.ofNat c.toNat) = 0xCBF43926 := by
  decide +kernel

/-- Two blocks with the checksums 1 and 23, and two with 12 and 3. -/
def collidingFiles : System where
  content path :=
    some (if path.head? = some 'p' then [220, 12, 168, 182, 3, 73, 103, 218]
      else [86, 50, 194, 219, 31, 6, 59, 219])
  admits _ := true

/-- **Different files in one group.**  The checksums of all their blocks are different, and
the concatenated texts are the same. -/
theorem collidingFiles_grouped : Fresh 4 (twoPairs 8 4) ∧
    hashSequence collidingFiles (computeCrc32 ⟨crc32, fun _ _ => 0⟩) (.create ['p', '1'] 8 4) =
        [['1'], ['2', '3']] ∧
      hashSequence collidingFiles (computeCrc32 ⟨crc32, fun _ _ => 0⟩) (.create ['q', '1'] 8 4) =
        [['1', '2'], ['3']] ∧
      (duplicates collidingFiles (computeCrc32 ⟨crc32, fun _ _ => 0⟩) 4 (twoPairs 8 4)
        (.inserted _ _) (.inserted _ _)).toOption.map (·.map (·.map FileInfo.path)) =
          some [[['p', '1'], ['p', '2'], ['q', '1'], ['q', '2']]] ∧
      ¬KeyIdentifies .crc32 8 4 := by
  refine ⟨by decide, by decide +kernel, by decide +kernel, by decide +kernel, ?_⟩
  exact not_keyIdentifies_crc32 (by decide)

end Bayan
