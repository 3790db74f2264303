import CppProfessional.Bayan.Hashing
import CppProfessional.Numbers.Crc

/-!
# What CRC-32 keeps apart

The search takes two files for equal if their checksums are, but not every difference is
lost.  A CRC-32 detects each change of four consecutive bytes or less; the other blocks have
equal checksums, which cancel in the keys.

* `crc32_burst` — `crc32` is the division of `crcBytes`, with its guarantee;
* `duplicates_burst` — files whose bytes differ only in four consecutive bytes or less of
  one block are never in one group.
-/

namespace Bayan

open Containers Numbers

/-! ### The checksum

`crc32` works on the characters of a text, the division on bits.  Both shift by one bit
at a time, so the results about division carry over once the two steps are identified. -/

/-- The reflected polynomial. -/
def crcPolynomial : BitVec 32 := 0xEDB88320

/-- One step of the checksum is one shift of the division. -/
theorem crcStep_toBitVec (remainder : UInt32) :
    (crcStep remainder).toBitVec = crcShift crcPolynomial remainder.toBitVec := by
  have hlow : remainder &&& 1 = 1 ↔ remainder.toBitVec.getLsbD 0 = true := by
    have hone : (1 : UInt32).toBitVec = 1#32 := rfl
    rw [← UInt32.toBitVec_inj, UInt32.toBitVec_and, hone,
      BitVec.and_one_eq_setWidth_ofBool_getLsbD]
    cases remainder.toBitVec.getLsbD 0
    · exact iff_of_false (by decide) Bool.false_ne_true
    · exact iff_of_true rfl rfl
  unfold crcStep crcShift
  by_cases hone : remainder &&& 1 = 1
  · rw [if_pos hone, if_pos (hlow.mp hone)]
    rfl
  · rw [if_neg hone, if_neg (hlow.not.mp hone)]
    rfl

/-- So are several steps. -/
theorem iterate_crcStep_toBitVec (k : ℕ) (remainder : UInt32) :
    (crcStep^[k] remainder).toBitVec = (crcShift crcPolynomial)^[k] remainder.toBitVec := by
  induction k generalizing remainder with
  | zero => rfl
  | succ k ih => rw [Function.iterate_succ_apply, Function.iterate_succ_apply, ih,
      crcStep_toBitVec]

/-- `crc32` divides the bytes of its text. -/
theorem crc32_toBitVec (bytes : Bytes) : (crc32 bytes).toBitVec =
    crcBytes crcPolynomial 0xFFFFFFFF (bytes.map UInt8.toBitVec) ^^^ 0xFFFFFFFF := by
  have hfold (remainder : UInt32) :
      (bytes.foldl (fun remainder byte => crcStep^[8] (remainder ^^^ byte.toUInt32))
        remainder).toBitVec =
          crcBytes crcPolynomial remainder.toBitVec (bytes.map UInt8.toBitVec) := by
    induction bytes generalizing remainder with
    | nil => rfl
    | cons byte bytes ih =>
        rw [List.foldl_cons, ih, iterate_crcStep_toBitVec]
        rfl
  unfold crc32
  rw [UInt32.toBitVec_xor, hfold]
  rfl

/-- **CRC-32 detects four consecutive bytes.** -/
theorem crc32_burst {front window window' back : Bytes} (hlength : window.length = window'.length)
    (hfour : window.length ≤ 4) :
    crc32 (front ++ window ++ back) = crc32 (front ++ window' ++ back) ↔ window = window' := by
  have hpolynomial : crcPolynomial.msb = true := by decide
  have hinj : Function.Injective UInt8.toBitVec := fun _ _ => UInt8.toBitVec_inj.mp
  rw [← UInt32.toBitVec_inj, crc32_toBitVec, crc32_toBitVec, BitVec.xor_left_inj]
  simp only [List.map_append]
  rw [crcBytes_inj hpolynomial (by simpa using hlength) (by rw [List.length_map]; omega)]
  exact (List.map_injective_iff.mpr hinj).eq_iff

/-! ### Blocks

The difference lies in one window of the bytes.  A block of the file is before the
window, behind it, or around it; only in the last case do the two files have different
blocks. -/

section Blocks

variable {α : Type*} {front window back rest : List α} {m n : ℕ}

/-- A block that ends before the window is read from the front alone. -/
theorem take_drop_front (h : m + n ≤ front.length) :
    ((front ++ rest).drop m).take n = (front.drop m).take n := by
  rw [List.drop_append_of_le_length (by omega), List.take_append_of_le_length]
  rw [List.length_drop]
  omega

/-- What is read behind the window is read from the back alone; of the window only its length
counts. -/
theorem drop_back (h : front.length + window.length ≤ m) :
    (front ++ window ++ back).drop m = back.drop (m - (front.length + window.length)) := by
  rw [List.drop_append, List.drop_eq_nil_of_le (by rwa [List.length_append]), List.nil_append,
    List.length_append]

/-- A block around the window is the end of the front, the window, and the beginning of the
back. -/
theorem take_drop_window (hstart : m ≤ front.length) (hend : front.length + window.length ≤ m + n) :
    ((front ++ window ++ back).drop m).take n =
      front.drop m ++ window ++ back.take (m + n - (front.length + window.length)) := by
  have hlength : (front.drop m ++ window).length = front.length - m + window.length := by
    rw [List.length_append, List.length_drop]
  rw [List.append_assoc, List.drop_append_of_le_length hstart, ← List.append_assoc,
    List.take_append, List.take_of_length_le (by omega), hlength]
  congr 2
  omega

/-- Equal parts of a concatenation cancel. -/
theorem eq_of_flatten_map_eq {β : Type*} {f g : α → List β} {xs : List α} {k : α}
    (hnodup : xs.Nodup) (hk : k ∈ xs) (hrest : ∀ l ∈ xs, l ≠ k → f l = g l)
    (h : (xs.map f).flatten = (xs.map g).flatten) : f k = g k := by
  obtain ⟨before, behind, rfl⟩ := List.append_of_mem hk
  obtain ⟨hbefore, hbehind⟩ := (List.nodup_middle.mp hnodup |> List.nodup_cons.mp).1 |>
    List.mem_append.not.mp |> not_or.mp
  have hleft : before.map f = before.map g := List.map_congr_left fun l hl =>
    hrest l (List.mem_append_left _ hl) fun heq => hbefore (heq ▸ hl)
  have hright : behind.map f = behind.map g := List.map_congr_left fun l hl =>
    hrest l (List.mem_append_right _ (List.mem_cons_of_mem _ hl)) fun heq => hbehind (heq ▸ hl)
  rw [List.map_append, List.map_append, List.map_cons, List.map_cons, hleft, hright,
    List.flatten_append, List.flatten_append, List.flatten_cons, List.flatten_cons] at h
  exact List.append_cancel_right (List.append_cancel_left h)

end Blocks

/-! ### Groups

Files in one group have equal keys, that is, equal concatenations of the texts of all
checksums.  With only one block different, all other texts are equal and cancel,
whatever their lengths are; the one that is left has to be equal too. -/

section Groups

variable {sys : System} {sums : Checksums} {blockSize : ℕ} {files : List FileInfo}
  {byHash : Iteration Text (Fin files.length)} {bySize : Iteration ℕ (Fin files.length)}
  {result : List (List FileInfo)} {group : List FileInfo} {a b : FileInfo}

/-- Files of one group agree in what the search compares at the end. -/
theorem groupKey_eq {hash : Bytes → Text} (hfresh : Fresh blockSize files)
    (hok : duplicates sys hash blockSize files byHash bySize = .ok result)
    (hgroup : group ∈ result) (ha : a ∈ group) (hb : b ∈ group) :
    groupKey sys hash a = groupKey sys hash b := by
  obtain ⟨groups, hgroups, rfl⟩ := (duplicates_outcome hfresh).of_eq_ok hok
  obtain ⟨members, hmem, rfl⟩ := List.mem_map.mp hgroup
  obtain ⟨i, hi, rfl⟩ := List.mem_map.mp ha
  obtain ⟨j, hj, rfl⟩ := List.mem_map.mp hb
  have hkey := ((hgroups.mem_iff hmem hj).mp hi).2.2
  rw [groupKey, groupKey, hashSequence_hashed, hashSequence_hashed]
  exact hkey

/-- The files of a group have the block size of the search, and as many hashes as blocks. -/
theorem shape_of_mem {hash : Bytes → Text} (hfresh : Fresh blockSize files)
    (hok : duplicates sys hash blockSize files byHash bySize = .ok result)
    (hgroup : group ∈ result) (ha : a ∈ group) :
    a.blockSize = blockSize ∧ a.hashes.length = numBlocks a.size blockSize := by
  obtain ⟨groups, -, rfl⟩ := (duplicates_outcome hfresh).of_eq_ok hok
  obtain ⟨members, -, rfl⟩ := List.mem_map.mp hgroup
  obtain ⟨i, -, rfl⟩ := List.mem_map.mp ha
  exact ⟨hfresh.blockSize_eq i, (hashSequence_length ..).trans (hfresh.length i)⟩

/-- **Small changes are noticed.**  If the library's checksum is CRC-32, then whatever the
iteration orders are, no group contains two files whose bytes differ in four consecutive bytes
or less of one block and agree everywhere else. -/
theorem duplicates_burst (hsums : sums.crc32 = crc32) (hfresh : Fresh blockSize files)
    (hok : duplicates sys (HashAlgorithm.crc32.computeHash sums) blockSize files byHash bySize =
      .ok result)
    (hgroup : group ∈ result) {front window window' back : Bytes}
    (hcontent : sys.content a.path = some (front ++ window ++ back))
    (hcontent' : sys.content b.path = some (front ++ window' ++ back))
    (hlength : window.length = window'.length) (hfour : window.length ≤ 4)
    (hne : window ≠ window') {k : ℕ} (hk : k < numBlocks a.size blockSize)
    (hstart : k * blockSize ≤ front.length)
    (hend : front.length + window.length ≤ (k + 1) * blockSize) : ¬(a ∈ group ∧ b ∈ group) := by
  rintro ⟨ha, hb⟩
  have hkey := groupKey_eq hfresh hok hgroup ha hb
  obtain ⟨hblock, hhashes⟩ := shape_of_mem hfresh hok hgroup ha
  obtain ⟨hblock', hhashes'⟩ := shape_of_mem hfresh hok hgroup hb
  obtain ⟨hsize, hflatten⟩ := Prod.mk.inj hkey
  rw [hashSequence, hashSequence, hhashes, hhashes', ← hsize] at hflatten
  have hread (l : ℕ) : readBlock sys a l =
      ((front ++ window ++ back).drop (l * blockSize)).take blockSize := by
    rw [readBlock, hcontent, hblock, Option.getD_some]
  have hread' (l : ℕ) : readBlock sys b l =
      ((front ++ window' ++ back).drop (l * blockSize)).take blockSize := by
    rw [readBlock, hcontent', hblock', Option.getD_some]
  -- the other blocks lie in front of the window or behind it
  have hrest (l : ℕ) (hne : l ≠ k) : readBlock sys a l = readBlock sys b l := by
    rw [hread, hread']
    rcases Nat.lt_or_gt_of_ne hne with hbefore | hbehind
    · have hle : (l + 1) * blockSize ≤ k * blockSize := Nat.mul_le_mul_right _ hbefore
      rw [Nat.succ_mul] at hle
      rw [List.append_assoc, List.append_assoc, take_drop_front (by omega),
        take_drop_front (by omega)]
    · have hle : (k + 1) * blockSize ≤ l * blockSize := Nat.mul_le_mul_right _ hbehind
      rw [drop_back (by omega), drop_back (by omega), hlength]
  have hdigits : computeCrc32 sums (readBlock sys a k) = computeCrc32 sums (readBlock sys b k) :=
    eq_of_flatten_map_eq List.nodup_range (List.mem_range.mpr hk)
      (fun l _ hne => congrArg (computeCrc32 sums) (hrest l hne)) hflatten
  have hnumber : crc32 (readBlock sys a k) = crc32 (readBlock sys b k) := by
    rw [computeCrc32, computeCrc32, hsums] at hdigits
    have hvalue := congrArg (Nat.ofDigitChars 10 · 0) hdigits
    rw [Nat.ofDigitChars_ten_toDigits, Nat.ofDigitChars_ten_toDigits] at hvalue
    exact UInt32.toNat_inj.mp hvalue
  rw [Nat.succ_mul] at hend
  rw [hread, hread', take_drop_window hstart hend, take_drop_window hstart (hlength ▸ hend),
    hlength] at hnumber
  exact hne ((crc32_burst hlength hfour).mp hnumber)

end Groups

/-- Two pairs of files of two blocks; one byte of the second block is different. -/
def changedByte : System where
  content path := some ([1, 2, 3, 4, 5] ++ [if path.head? = some 'p' then 6 else 9] ++ [7, 8])
  admits _ := true

/-- Four files of eight bytes, of which two have another byte in the second block. -/
theorem duplicates_burst_changedByte : ∃ result,
    duplicates changedByte (HashAlgorithm.crc32.computeHash ⟨crc32, fun _ _ => 0⟩) 4
      (twoPairs 8 4) (.inserted _ _) (.inserted _ _) = .ok result ∧
    ∀ group ∈ result, ¬(
      (FileInfo.create ['p', '1'] 8 4).hashed changedByte
        (HashAlgorithm.crc32.computeHash ⟨crc32, fun _ _ => 0⟩) ∈ group ∧
      (FileInfo.create ['q', '1'] 8 4).hashed changedByte
        (HashAlgorithm.crc32.computeHash ⟨crc32, fun _ _ => 0⟩) ∈ group) := by
  have hfresh : Fresh 4 (twoPairs 8 4) := fresh_twoPairs
  obtain ⟨result, hok, -⟩ := (duplicates_outcome hfresh).exists_ok
    (show Openable changedByte _ from ⟨fun _ => rfl, fun _ => rfl⟩)
  refine ⟨result, hok, fun group hgroup => ?_⟩
  exact duplicates_burst (k := 1) rfl hfresh hok hgroup rfl rfl rfl (by decide) (by decide)
    (by decide) (by decide) (by decide)

end Bayan
