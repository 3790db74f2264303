import CppProfessional.Bayan.Hashing
import CppProfessional.Bayan.Reading
import CppProfessional.Bayan.Scanner
import Mathlib.Algebra.Order.Floor.Div
import Mathlib.Data.Char
import Mathlib.Data.List.Lex
import Mathlib.Order.Bounds.Basic

/-!
# The options of the duplicate finder

`option_process` leaves the command line to Boost.Program_options, which checks that the
mandatory options are there and runs the notifiers.  Those of the two sizes let everything
through that is not negative, and the block size is a divisor later on.

* `VariablesMap` — what Boost makes of the command line;
* `entries`, `optionProcess` — the checks, and the options that come out;
* `Notifies` — what the program relies on in `notify`;
* `success_blockSize` — an accepted block size is the one that was given, and below 2^63;
* `blockCount` — the number of blocks where the machine can divide;
* `blocks_safe_iff` — the arithmetic is safe exactly if the block size is not zero.
-/

namespace Bayan

open Containers

/-- What is known of the options after `store`: the values that were given. -/
structure VariablesMap where
  help : Bool
  blockSize : Option Int64
  excludeDirs : Option (List Text)
  fileMasks : Option (List Text)
  hashAlgorithm : Option Text
  minFileSize : Option Int64
  scanDirs : Option (List Text)
  scanLevel : Option Bool

/-- `struct Options` -/
structure Options where
  scanLevel : Bool := false
  hashAlgorithm : HashAlgorithm := .crc32
  blockSize : UInt64 := 0
  minFileSize : UInt64 := 0
  excludeDirs : List Text := []
  fileMasks : List Text := []
  scanDirs : List Text := []
  deriving DecidableEq

/-- `enum class ProcessStatus` -/
inductive ProcessStatus
  | success
  | helpRequested
  | optionError
  | fileError
  deriving DecidableEq

/-- The exceptions that `option_process` reports. -/
inductive OptionError
  /-- `error` with a text of its own. -/
  | error (what : Text)
  /-- `required_option` -/
  | required (option : Text)
  /-- `validation_error` of the kind `invalid_option_value`. -/
  | invalidValue (option token : Text)
  deriving DecidableEq

/-- `HashAlgorithm::HashAlgorithm(name)` -/
def HashAlgorithm.ofName (name : Text) : Except OptionError HashAlgorithm :=
  let lower := name.map Char.toLower
  if lower = "crc32".toList then .ok .crc32
  else if lower = "md5".toList then .ok .md5
  else .error (.invalidValue "hash_algorithm".toList "Invalid hash algorithm".toList)

/-- `negative_check` -/
def negativeCheck (value : Int64) : Except OptionError Unit :=
  if value < 0 then
    .error (.error ("value must be non-negative, but got ".toList ++
      (toString value.toInt).toList))
  else .ok ()

/-- A notifier stores a value in the options, or throws. -/
abbrev Notifier := Options → Except OptionError Options

def notifyBlockSize (value : Int64) : Notifier := fun options => do
  negativeCheck value
  pure { options with blockSize := value.toUInt64 }

def notifyExcludeDirs (value : List Text) : Notifier := fun options =>
  pure { options with excludeDirs := value }

def notifyFileMasks (value : List Text) : Notifier := fun options =>
  pure { options with fileMasks := value }

def notifyHashAlgorithm (value : Text) : Notifier := fun options => do
  let algorithm ← HashAlgorithm.ofName value
  pure { options with hashAlgorithm := algorithm }

def notifyMinFileSize (value : Int64) : Notifier := fun options => do
  negativeCheck value
  pure { options with minFileSize := value.toUInt64 }

def notifyScanDirs (value : List Text) : Notifier := fun options =>
  pure { options with scanDirs := value }

def notifyScanLevel (value : Bool) : Notifier := fun options =>
  pure { options with scanLevel := value }

/-- An option of the description, and what is to be run for its value: for the value that was
given, else for the default, and nothing where there is neither. -/
structure Entry where
  name : Text
  mandatory : Bool
  notifier : Option Notifier

/-- The options that `option_process` describes, in the order of the source. -/
def entries (map : VariablesMap) : List Entry :=
  [⟨"block_size".toList, true, map.blockSize.map notifyBlockSize⟩,
    ⟨"scan_dirs".toList, true, map.scanDirs.map notifyScanDirs⟩,
    ⟨"scan_level".toList, true, map.scanLevel.map notifyScanLevel⟩,
    ⟨"exclude_dirs".toList, false, map.excludeDirs.map notifyExcludeDirs⟩,
    ⟨"min_file_size".toList, false, notifyMinFileSize (map.minFileSize.getD 1)⟩,
    ⟨"file_masks".toList, false, map.fileMasks.map notifyFileMasks⟩,
    ⟨"hash_algorithm".toList, false,
      notifyHashAlgorithm (map.hashAlgorithm.getD "crc32".toList)⟩]

/-- What `notify` makes of the described options: the exception that it throws, and what is
stored by then. -/
abbrev Notify := List Entry → Options → Option OptionError × Options

/-- The notifiers, one after another, up to the first exception. -/
def storeAll (order : List Notifier) (options : Options) : Except OptionError Options :=
  order.foldlM (fun stored notifier => notifier stored) options

/-- What is known of `boost::program_options::notify`: it returns only if every mandatory
option has a value, and it has then run the notifier of every value once, in some order. -/
structure Notifies (notify : Notify) : Prop where
  mandatory : ∀ {entries options last}, notify entries options = (none, last) →
    ∀ entry ∈ entries, entry.mandatory = true → entry.notifier.isSome = true
  ran : ∀ {entries options last}, notify entries options = (none, last) →
    ∃ order : List Notifier, order.Perm (entries.filterMap Entry.notifier) ∧
      storeAll order options = .ok last

/-- What `option_process` returns, and the exception that it reports. -/
structure Processed where
  status : ProcessStatus
  options : Options
  reported : Option OptionError
  deriving DecidableEq

/-- `option_process(argv)`; `parse` stands for `parse_command_line` and `store`. -/
def optionProcess (parse : List Text → Except Text VariablesMap) (notify : Notify)
    (argv : List Text) : Processed :=
  match parse argv with
  | .error what => ⟨.optionError, {}, some (.error what)⟩
  | .ok map =>
      if map.help then ⟨.helpRequested, {}, none⟩
      else
        match notify (entries map) {} with
        | (some thrown, options) => ⟨.optionError, options, some thrown⟩
        | (none, options) => ⟨.success, options, none⟩

/-- The scanner that `process_files` makes. -/
def scannerOf (options : Options) : FileScanner where
  scanLevel := options.scanLevel
  blockSize := options.blockSize.toNat
  minFileSize := options.minFileSize.toNat
  excludeDirs := options.excludeDirs
  fileMasks := options.fileMasks
  scanDirs := options.scanDirs

/-! ### What is accepted

`notify` may run the notifiers in any order.  The block size is written by one of them
only, so its value at the end does not depend on the order, and that no notifier threw
is known of each of them. -/

section Accepted

variable {parse : List Text → Except Text VariablesMap} {notify : Notify} {argv : List Text}
  {map : VariablesMap}

/-- A run of notifiers that does not throw is one that none of them does. -/
theorem storeAll_cons {notifier : Notifier} {order : List Notifier} {options last : Options} :
    storeAll (notifier :: order) options = .ok last ↔
      ∃ stored, notifier options = .ok stored ∧ storeAll order stored = .ok last := by
  unfold storeAll
  rw [List.foldlM_cons]
  cases notifier options with
  | error thrown =>
      constructor
      · intro h
        cases h
      · rintro ⟨stored, h, -⟩
        cases h
  | ok stored =>
      constructor
      · exact fun h => ⟨stored, rfl, h⟩
      · rintro ⟨_, hstored, h⟩
        cases hstored
        exact h

/-- It can be cut anywhere. -/
theorem storeAll_append {front back : List Notifier} {options last : Options} :
    storeAll (front ++ back) options = .ok last ↔
      ∃ stored, storeAll front options = .ok stored ∧ storeAll back stored = .ok last := by
  induction front generalizing options with
  | nil =>
      constructor
      · exact fun h => ⟨options, rfl, h⟩
      · rintro ⟨_, hstored, h⟩
        cases hstored
        exact h
  | cons notifier front ih =>
      rw [List.cons_append, storeAll_cons]
      constructor
      · rintro ⟨options', hnotifier, h⟩
        obtain ⟨stored, hfront, hback⟩ := ih.mp h
        exact ⟨stored, storeAll_cons.mpr ⟨options', hnotifier, hfront⟩, hback⟩
      · rintro ⟨stored, h, hback⟩
        obtain ⟨options', hnotifier, hfront⟩ := storeAll_cons.mp h
        exact ⟨options', hnotifier, ih.mpr ⟨stored, hfront, hback⟩⟩

/-- What the notifier of the block size lets through. -/
theorem blockSize_notify {value : Int64} {options options' : Options}
    (h : notifyBlockSize value options = .ok options') :
    ¬value < 0 ∧ options'.blockSize = value.toUInt64 := by
  unfold notifyBlockSize negativeCheck at h
  split at h
  · cases h
  · next hnonneg =>
      cases h
      exact ⟨hnonneg, rfl⟩

/-- A notifier that leaves the block size alone. -/
def KeepsBlockSize (notifier : Notifier) : Prop :=
  ∀ ⦃options options' : Options⦄, notifier options = .ok options' →
    options'.blockSize = options.blockSize

/-- The name of an algorithm is checked, and nothing else is stored. -/
theorem keepsBlockSize_hashAlgorithm (value : Text) :
    KeepsBlockSize (notifyHashAlgorithm value) := by
  intro options options' hstored
  unfold notifyHashAlgorithm at hstored
  cases hname : HashAlgorithm.ofName value with
  | error thrown =>
      rw [hname] at hstored
      cases hstored
  | ok algorithm =>
      rw [hname] at hstored
      cases hstored
      rfl

/-- The other size goes to another member. -/
theorem keepsBlockSize_minFileSize (value : Int64) :
    KeepsBlockSize (notifyMinFileSize value) := by
  intro options options' hstored
  unfold notifyMinFileSize negativeCheck at hstored
  split at hstored
  · cases hstored
  · cases hstored
    rfl

/-- Of all the notifiers only that of the block size writes it. -/
theorem eq_or_keepsBlockSize {notifier : Notifier}
    (h : notifier ∈ (entries map).filterMap Entry.notifier) :
    (∃ value, map.blockSize = some value ∧ notifier = notifyBlockSize value) ∨
      KeepsBlockSize notifier := by
  obtain ⟨entry, hentry, hnotifier⟩ := List.mem_filterMap.mp h
  simp only [entries, List.mem_cons, List.not_mem_nil, or_false] at hentry
  rcases hentry with rfl | rfl | rfl | rfl | rfl | rfl | rfl
  · obtain ⟨value, hvalue, rfl⟩ := Option.map_eq_some_iff.mp hnotifier
    exact .inl ⟨value, hvalue, rfl⟩
  · obtain ⟨value, -, rfl⟩ := Option.map_eq_some_iff.mp hnotifier
    exact .inr fun _ _ hstored => by cases hstored; rfl
  · obtain ⟨value, -, rfl⟩ := Option.map_eq_some_iff.mp hnotifier
    exact .inr fun _ _ hstored => by cases hstored; rfl
  · obtain ⟨value, -, rfl⟩ := Option.map_eq_some_iff.mp hnotifier
    exact .inr fun _ _ hstored => by cases hstored; rfl
  · cases hnotifier
    exact .inr (keepsBlockSize_minFileSize _)
  · obtain ⟨value, -, rfl⟩ := Option.map_eq_some_iff.mp hnotifier
    exact .inr fun _ _ hstored => by cases hstored; rfl
  · cases hnotifier
    exact .inr (keepsBlockSize_hashAlgorithm _)

/-- The block size that is stored does not change any more. -/
theorem blockSize_storeAll {order : List Notifier} {options last : Options} {value : Int64}
    (horder : ∀ notifier ∈ order, notifier = notifyBlockSize value ∨ KeepsBlockSize notifier)
    (hstored : options.blockSize = value.toUInt64) (hrun : storeAll order options = .ok last) :
    last.blockSize = value.toUInt64 := by
  induction order generalizing options with
  | nil =>
      cases hrun
      exact hstored
  | cons notifier order ih =>
      obtain ⟨stored, hnotifier, hrest⟩ := storeAll_cons.mp hrun
      refine ih (fun other hother => horder other (List.mem_cons_of_mem _ hother)) ?_ hrest
      rcases horder notifier List.mem_cons_self with rfl | hkeeps
      · exact (blockSize_notify hnotifier).2
      · exact (hkeeps hnotifier).trans hstored

/-- Wherever its notifier runs, the block size is stored in the end. -/
theorem blockSize_of_mem {order : List Notifier} {options last : Options} {value : Int64}
    (horder : ∀ notifier ∈ order, notifier = notifyBlockSize value ∨ KeepsBlockSize notifier)
    (hmem : notifyBlockSize value ∈ order) (hrun : storeAll order options = .ok last) :
    ¬value < 0 ∧ last.blockSize = value.toUInt64 := by
  obtain ⟨front, back, rfl⟩ := List.append_of_mem hmem
  obtain ⟨middle, -, hrest⟩ := storeAll_append.mp hrun
  obtain ⟨stored, hnotifier, hback⟩ := storeAll_cons.mp hrest
  obtain ⟨hnonneg, hstored⟩ := blockSize_notify hnotifier
  refine ⟨hnonneg, blockSize_storeAll (fun other hother => ?_) hstored hback⟩
  exact horder other (List.mem_append_right _ (List.mem_cons_of_mem _ hother))

/-- On success nothing was thrown, and the options are those that `notify` has stored. -/
theorem notify_of_success (hmap : parse argv = .ok map)
    (hsuccess : (optionProcess parse notify argv).status = .success) :
    notify (entries map) {} = (none, (optionProcess parse notify argv).options) := by
  unfold optionProcess at hsuccess ⊢
  rw [hmap] at hsuccess ⊢
  dsimp only at hsuccess ⊢
  split at hsuccess
  · cases hsuccess
  · next hhelp =>
      rw [if_neg hhelp]
      cases hrun : notify (entries map) {} with
      | mk thrown options =>
          rw [hrun] at hsuccess
          cases thrown with
          | some thrown => cases hsuccess
          | none => rfl

/-- **An accepted block size** was given, is not negative, and is stored as it is. -/
theorem success_blockSize (hnotify : Notifies notify) (hmap : parse argv = .ok map)
    (hsuccess : (optionProcess parse notify argv).status = .success) :
    ∃ value, map.blockSize = some value ∧ ¬value < 0 ∧
      (optionProcess parse notify argv).options.blockSize = value.toUInt64 := by
  have hrun := notify_of_success hmap hsuccess
  have hgiven := hnotify.mandatory hrun _ List.mem_cons_self rfl
  rw [Option.isSome_map] at hgiven
  obtain ⟨value, hvalue⟩ := Option.isSome_iff_exists.mp hgiven
  obtain ⟨order, hperm, hlast⟩ := hnotify.ran hrun
  refine ⟨value, hvalue, blockSize_of_mem (fun notifier hnotifier => ?_) ?_ hlast⟩
  · rcases eq_or_keepsBlockSize (hperm.mem_iff.mp hnotifier) with ⟨value', hvalue', rfl⟩ | hkeeps
    · obtain rfl : value = value' := Option.some.inj (hvalue.symm.trans hvalue')
      exact .inl rfl
    · exact .inr hkeeps
  · refine hperm.mem_iff.mpr (List.mem_filterMap.mpr ⟨_, List.mem_cons_self, ?_⟩)
    rw [hvalue]
    rfl

end Accepted

/-! ### The arithmetic

All numbers are 64 bits wide here.  The sum of the size and the block size stays below
2^64 because both are below 2^63: the size of a file is, and a block size that
`negative_check` lets through. -/

/-- `(size + block_size - 1) / block_size`, if the machine can divide. -/
def blockCount (size blockSize : UInt64) : Option UInt64 :=
  if blockSize = 0 then none else some ((size + blockSize - 1) / blockSize)

/-- The dividend in 64 bits. -/
theorem toNat_dividend (size blockSize : UInt64) : (size + blockSize - 1).toNat =
    (size.toNat + blockSize.toNat + (UInt64.size - 1)) % UInt64.size := by
  have hsize : UInt64.size = 18446744073709551616 := rfl
  have hone : (1 : UInt64).toNat = 1 := rfl
  rw [UInt64.toNat_sub, UInt64.toNat_add, hone, hsize]
  omega

/-- This is the number of blocks of the model. -/
theorem numBlocks_eq {size blockSize count : UInt64} (h : blockCount size blockSize = some count) :
    numBlocks size.toNat blockSize.toNat = count.toNat := by
  unfold blockCount at h
  split at h
  · cases h
  · cases h
    rw [UInt64.toNat_div, toNat_dividend, numBlocks]

theorem toNat_lt_of_nonneg {value : Int64} (h : ¬value < 0) : value.toUInt64.toNat < 2 ^ 63 := by
  rw [Int64.toNat_toUInt64_of_le (Int64.not_lt.mp h)]
  exact Int64.toNatClampNeg_lt value

/-- The arithmetic of the blocks is safe: no sum wraps, the machine can divide, and the
quotient is the least number of blocks that hold the file; and the search asks no file of a
size class for a block that has no place among its hashes. -/
structure BlocksSafe (options : Options) : Prop where
  count : ∀ size : UInt64, size.toNat < 2 ^ 63 →
    size.toNat + options.blockSize.toNat < 2 ^ 64 ∧
      1 ≤ size.toNat + options.blockSize.toNat ∧
      ∃ count, blockCount size options.blockSize = some count ∧
        IsLeast {n | size.toNat ≤ n * options.blockSize.toNat} count.toNat
  index : ∀ files, Fresh (scannerOf options).blockSize files →
    ∀ sys hash byHash bySize i k,
      (i, k) ∈ duplicateRequests sys hash options.blockSize.toNat files byHash bySize →
        ∀ j, (files.get j).size = (files.get i).size → k < (files.get j).hashes.length

/-- The quotient is rounded up: as long as the sum does not wrap, it is the least number of
blocks that hold the file. -/
theorem isLeast_count {size blockSize : UInt64} (hblock : blockSize ≠ 0)
    (hsum : size.toNat + blockSize.toNat < 2 ^ 64) :
    ∃ count, blockCount size blockSize = some count ∧
      IsLeast {n | size.toNat ≤ n * blockSize.toNat} count.toNat := by
  have hpos : 0 < blockSize.toNat :=
    Nat.pos_of_ne_zero fun hzero => hblock (UInt64.toNat_inj.mp hzero)
  refine ⟨_, if_neg hblock, ?_⟩
  have hceil : ((size + blockSize - 1) / blockSize).toNat =
      size.toNat ⌈/⌉ blockSize.toNat := by
    have hsize : UInt64.size = 18446744073709551616 := rfl
    have hdividend : (size + blockSize - 1).toNat = size.toNat + blockSize.toNat - 1 := by
      rw [toNat_dividend, hsize]
      omega
    rw [UInt64.toNat_div, hdividend, Nat.ceilDiv_eq_add_pred_div]
  rw [hceil]
  constructor
  · show size.toNat ≤ _
    rw [Nat.mul_comm]
    exact (ceilDiv_le_iff_le_mul hpos).mp le_rfl
  · intro n hn
    refine (ceilDiv_le_iff_le_mul hpos).mpr ?_
    rw [Nat.mul_comm]
    exact hn

/-- The places for the hashes are as many as the blocks that are asked for. -/
theorem index_lt {blockSize : ℕ} {files : List FileInfo} (hfresh : Fresh blockSize files)
    {sys : System} {hash : Bytes → Text} {byHash : Iteration Text (Fin files.length)}
    {bySize : Iteration ℕ (Fin files.length)} {i j : Fin files.length} {k : ℕ}
    (h : (i, k) ∈ duplicateRequests sys hash blockSize files byHash bySize)
    (hsize : (files.get j).size = (files.get i).size) : k < (files.get j).hashes.length := by
  rw [hfresh.length, hsize]
  exact (mem_duplicateRequests.mp h).1

/-- **When the block arithmetic is safe.**  For the options of a command line that is
accepted: if and only if the block size that was given is not zero. -/
theorem blocks_safe_iff {parse : List Text → Except Text VariablesMap} {notify : Notify}
    (hnotify : Notifies notify) {argv : List Text} {map : VariablesMap}
    (hmap : parse argv = .ok map)
    (hsuccess : (optionProcess parse notify argv).status = .success) :
    BlocksSafe (optionProcess parse notify argv).options ↔ map.blockSize ≠ some 0 := by
  obtain ⟨value, hvalue, hnonneg, hstored⟩ := success_blockSize hnotify hmap hsuccess
  have hzero : (optionProcess parse notify argv).options.blockSize = 0 ↔ value = 0 := by
    rw [hstored]
    constructor
    · intro h
      exact Int64.toInt64_toUInt64 value ▸ congrArg UInt64.toInt64 h
    · rintro rfl
      rfl
  rw [hvalue, Ne, Option.some.injEq, ← hzero]
  constructor
  · intro hsafe hblock
    obtain ⟨-, -, count, hcount, -⟩ := hsafe.count 1 (by decide)
    rw [hblock] at hcount
    cases hcount
  · intro hblock
    have hbound : (optionProcess parse notify argv).options.blockSize.toNat < 2 ^ 63 := by
      rw [hstored]
      exact toNat_lt_of_nonneg hnonneg
    have hpos : 0 < (optionProcess parse notify argv).options.blockSize.toNat :=
      Nat.pos_of_ne_zero fun h => hblock (UInt64.toNat_inj.mp h)
    refine ⟨fun size hsize => ?_, fun files hfresh sys hash byHash bySize i k h j hsize =>
      index_lt hfresh h hsize⟩
    have hsum : size.toNat + (optionProcess parse notify argv).options.blockSize.toNat <
        2 ^ 64 := by
      omega
    exact ⟨hsum, by omega, isLeast_count hblock hsum⟩

/-! ### A block size of zero

Boost is instantiated by a `notify` that goes through the options by their names; the
command line gives the three options that are mandatory, the block size among them. -/

/-- The notifiers, one after another: what was stored before an exception stays. -/
def runNotifiers : List Notifier → Options → Option OptionError × Options
  | [], options => (none, options)
  | notifier :: rest, options =>
      match notifier options with
      | .error thrown => (some thrown, options)
      | .ok options => runNotifiers rest options

/-- A `notify` that looks for the mandatory options and then runs the notifiers, both in the
order of the names. -/
def notifyByName : Notify := fun entries options =>
  let sorted := entries.insertionSort fun entry other => entry.name ≤ other.name
  match sorted.find? fun entry => entry.mandatory && entry.notifier.isNone with
  | some entry => (some (.required entry.name), options)
  | none => runNotifiers (sorted.filterMap Entry.notifier) options

/-- What the loop has stored in the end, if there was no exception. -/
theorem storeAll_of_runNotifiers {order : List Notifier} {options last : Options}
    (h : runNotifiers order options = (none, last)) : storeAll order options = .ok last := by
  induction order generalizing options with
  | nil =>
      cases h
      rfl
  | cons notifier order ih =>
      rw [runNotifiers] at h
      split at h
      · cases h
      · next stored hstored => exact storeAll_cons.mpr ⟨stored, hstored, ih h⟩

/-- Going by the names is one of the orders in which the notifiers may run. -/
theorem notifies_notifyByName : Notifies notifyByName where
  mandatory {entries options last} h entry hentry hmandatory := by
    unfold notifyByName at h
    dsimp only at h
    split at h
    · cases h
    · next hnone =>
        have hsorted := (List.perm_insertionSort (fun a b : Entry => a.name ≤ b.name)
          entries).mem_iff.mpr hentry
        have hgiven := List.find?_eq_none.mp hnone entry hsorted
        rw [hmandatory, Bool.true_and] at hgiven
        exact Option.isSome_iff_ne_none.mpr fun h => hgiven (Option.isNone_iff_eq_none.mpr h)
  ran {entries options last} h := by
    unfold notifyByName at h
    dsimp only at h
    split at h
    · cases h
    · exact ⟨_, (List.perm_insertionSort _ entries).filterMap _, storeAll_of_runNotifiers h⟩

/-- The arguments of a search in `/tmp` with a block size. -/
def arguments (blockSize : Text) : List Text :=
  ["--scan_dirs".toList, "/tmp".toList, "--scan_level".toList, ['0'], "--block_size".toList,
    blockSize]

/-- What is to be known of them. -/
def argumentsMap (blockSize : Int64) : VariablesMap where
  help := false
  blockSize := some blockSize
  excludeDirs := none
  fileMasks := none
  hashAlgorithm := none
  minFileSize := none
  scanDirs := some ["/tmp".toList]
  scanLevel := some false

/-- Boost on these arguments, for the block sizes 5, 0 and -1. -/
def parseArguments (argv : List Text) : Except Text VariablesMap :=
  if argv = arguments ['5'] then .ok (argumentsMap 5)
  else if argv = arguments ['0'] then .ok (argumentsMap 0)
  else if argv = arguments ['-', '1'] then .ok (argumentsMap (-1))
  else .error "unrecognised option".toList

/-- `option_process` on these arguments. -/
def processArguments (blockSize : Text) : Processed :=
  optionProcess parseArguments notifyByName (arguments blockSize)

example : (processArguments ['-', '1']).reported =
    some (.error "value must be non-negative, but got -1".toList) := by
  decide

/-- A block size of five is accepted, and safe. -/
theorem blocks_safe_iff_five : BlocksSafe (processArguments ['5']).options := by
  have hmap : parseArguments (arguments ['5']) = .ok (argumentsMap 5) := if_pos rfl
  exact (blocks_safe_iff notifies_notifyByName hmap (by decide)).mpr (by decide)

/-- **A block size of zero is accepted**, and the number of blocks of a file cannot be
computed. -/
theorem zero_accepted : (processArguments ['0']).status = .success ∧
    (processArguments ['0']).options.blockSize = 0 ∧
      blockCount 13 (processArguments ['0']).options.blockSize = none ∧
      ¬BlocksSafe (processArguments ['0']).options := by
  have hblock : (processArguments ['0']).options.blockSize = 0 := by decide
  refine ⟨by decide, hblock, by rw [hblock]; rfl, fun hsafe => ?_⟩
  obtain ⟨-, -, count, hcount, -⟩ := hsafe.count 13 (by decide)
  rw [hblock] at hcount
  cases hcount

end Bayan
