import CppProfessional.Containers.Joined
import CppProfessional.IpFilter.Splitting
import CppProfessional.Numbers.Places

/-!
# The overloads of `print_ip`

Three loops that put dots between numbers, each with a test of its own: the bytes of an
integer compare their index with the size, a container counts its size down, and a tuple
asks for the first index.

* `printContainer_eq`, `printTuple_eq`, `printIntegral_eq` say what each of them writes,
* `IntType.Value` is a value of an integer type,
* `printIp_agree` compares the overloads and reads an integer back.
-/

namespace PrintIp

open Containers IpFilter Numbers

/-- `std::format("{}", n)` for an unsigned number. -/
def formatted (n : ℕ) : Text := Nat.toDigits 10 n

/-! ### The functions

The three loops differ in how they find out that an element is the last one or the
first. -/

/-- `static_cast<std::make_unsigned_t<T>>(ipAddress)` for a type of `size` bytes. -/
def makeUnsigned (size : ℕ) (ipAddress : ℤ) : ℕ := (ipAddress % 2 ^ (8 * size)).toNat

/-- `byte` in the round `i` of the loop. -/
def byte (size : ℕ) (ipAddress : ℤ) (i : ℕ) : ℕ :=
  (makeUnsigned size ipAddress >>> ((size - 1 - i) * 8)) % 2 ^ 8

/-- The loop of `print_ip` over the bytes of an integer, from the round `i` on. -/
def printIntegralFrom (size : ℕ) (ipAddress : ℤ) (i : ℕ) : Text :=
  if i < size then
    formatted (byte size ipAddress i) ++ (if i < size - 1 then ['.'] else []) ++
      printIntegralFrom size ipAddress (i + 1)
  else []
termination_by size - i

/-- `print_ip` for an integer. -/
def printIntegral (size : ℕ) (ipAddress : ℤ) : Text := printIntegralFrom size ipAddress 0 ++ ['\n']

section Numbers

variable {α : Type*} (format : α → Text)

/-- The loop of `print_ip` over a container, with the variable `size`. -/
def printContainerFrom : ℕ → List α → Text
  | _, [] => []
  | size, octet :: ipAddress =>
      format octet ++ (if size - 1 ≠ 0 then ['.'] else []) ++
        printContainerFrom (size - 1) ipAddress

/-- `print_ip` for a container. -/
def printContainer (ipAddress : List α) : Text :=
  printContainerFrom format ipAddress.length ipAddress ++ ['\n']

/-- The calls of `print_ip` for the elements of a tuple, with the variable `idx`. -/
def printTupleFrom : ℕ → List α → Text
  | _, [] => []
  | idx, arg :: args =>
      (if idx = 0 then [] else ['.']) ++ format arg ++ printTupleFrom (idx + 1) args

/-- `print_ip` for a tuple. -/
def printTuple (ipAddress : List α) : Text := printTupleFrom format 0 ipAddress ++ ['\n']

/-! ### What they write

All three write the elements with dots between them, and a line break. -/

/-- The loop prints the elements with a dot between any two. -/
theorem printContainerFrom_eq (ipAddress : List α) :
    printContainerFrom format ipAddress.length ipAddress = joinWith '.' (ipAddress.map format) := by
  induction ipAddress with
  | nil => rfl
  | cons octet ipAddress ih =>
      rw [List.length_cons, printContainerFrom, Nat.add_sub_cancel, ih]
      cases ipAddress with
      | nil => simp [joinWith]
      | cons next ipAddress =>
          rw [if_pos (show (next :: ipAddress).length ≠ 0 from Nat.succ_ne_zero _)]
          exact (List.intercalate_cons_cons ..).symm

theorem printContainer_eq (ipAddress : List α) :
    printContainer format ipAddress = joinWith '.' (ipAddress.map format) ++ ['\n'] := by
  rw [printContainer, printContainerFrom_eq]

/-- Behind the first element every element has its dot. -/
theorem printTupleFrom_succ (idx : ℕ) (args : List α) :
    printTupleFrom format (idx + 1) args = joined '.' (args.map format) := by
  induction args generalizing idx with
  | nil => rfl
  | cons arg args ih =>
      rw [printTupleFrom, if_neg (Nat.succ_ne_zero _), ih, List.map_cons, joined_cons,
        List.append_assoc]
      rfl

/-- A tuple is printed the same way. -/
theorem printTuple_eq (ipAddress : List α) :
    printTuple format ipAddress = joinWith '.' (ipAddress.map format) ++ ['\n'] := by
  cases ipAddress with
  | nil => rfl
  | cons arg args =>
      rw [printTuple, printTupleFrom, if_pos rfl, printTupleFrom_succ, joinWith, List.map_cons,
        intercalate_cons]
      rfl

end Numbers

/-- The bytes of an integer, the most significant one first. -/
def bytes (size : ℕ) (ipAddress : ℤ) : List ℕ := places 256 size (makeUnsigned size ipAddress)

/-- The loop takes the bytes from the highest one down. -/
theorem byte_eq (size : ℕ) (ipAddress : ℤ) (i : ℕ) :
    byte size ipAddress i = makeUnsigned size ipAddress / 256 ^ (size - 1 - i) % 256 := by
  rw [byte, Nat.shiftRight_eq_div_pow, Nat.mul_comm, Nat.pow_mul]
  rfl

/-- From any byte on, the loop prints the remaining ones with a dot between any two. -/
theorem printIntegralFrom_eq (size : ℕ) (ipAddress : ℤ) (i : ℕ) :
    printIntegralFrom size ipAddress i =
      joinWith '.' ((places 256 (size - i) (makeUnsigned size ipAddress)).map formatted) := by
  fun_induction printIntegralFrom size ipAddress i with
  | case1 i hlt ih =>
      obtain ⟨rest, hrest⟩ : ∃ rest, size - i = rest + 1 := ⟨size - i - 1, by omega⟩
      have hnext : size - (i + 1) = rest := by omega
      have hplace : size - 1 - i = rest := by omega
      rw [ih, byte_eq, hrest, hnext, hplace, places, List.map_cons]
      cases rest with
      | zero =>
          rw [if_neg (by omega)]
          simp [joinWith, places]
      | succ rest =>
          rw [if_pos (by omega)]
          exact (List.intercalate_cons_cons ..).symm
  | case2 i hle =>
      rw [Nat.sub_eq_zero_of_le (Nat.le_of_not_lt hle)]
      rfl

/-- **Integers.** The bytes of the two's complement are printed, joined with dots. -/
theorem printIntegral_eq (size : ℕ) (ipAddress : ℤ) :
    printIntegral size ipAddress =
      joinWith '.' ((bytes size ipAddress).map formatted) ++ ['\n'] := by
  rw [printIntegral, printIntegralFrom_eq]
  rfl

/-! ### Reading an integer back

The bytes are digits to the base 256.  Cut at its dots, the text gives the digits back,
and these give the integer up to the range of its type. -/

theorem decimal_formatted (n : ℕ) : decimal (formatted n) = n :=
  Nat.ofDigitChars_toDigits (by decide) (by decide)

/-- What is written of a byte. -/
theorem numeral_formatted {n : ℕ} (h : n < 256) : Numeral (formatted n) := by
  refine ⟨Nat.toDigits_ne_nil, ?_, ?_⟩
  · intro c hc
    exact Nat.isDigit_of_mem_toDigits (by decide) (by decide) hc
  · rw [decimal_formatted]
    exact Nat.le_of_lt_succ h

theorem lt_of_mem_bytes {size : ℕ} {ipAddress : ℤ} {n : ℕ} (h : n ∈ bytes size ipAddress) :
    n < 256 :=
  lt_of_mem_places (by decide) h

/-- The bytes of an integer determine it up to the range of its type. -/
theorem value_bytes (size : ℕ) (ipAddress : ℤ) :
    (value 256 (bytes size ipAddress) : ℤ) = ipAddress % 256 ^ size := by
  have hbase : (2 : ℤ) ^ (8 * size) = 256 ^ size := by
    rw [pow_mul]
    norm_num
  have hpos : (0 : ℤ) < 256 ^ size := by positivity
  have hlt : makeUnsigned size ipAddress < 256 ^ size := by
    have hmod := Int.emod_lt_of_pos ipAddress hpos
    have hnonneg := Int.emod_nonneg ipAddress hpos.ne'
    rw [makeUnsigned, hbase, Int.toNat_lt hnonneg]
    exact_mod_cast hmod
  rw [bytes, value_places, Nat.mod_eq_of_lt hlt, makeUnsigned, hbase,
    Int.toNat_of_nonneg (Int.emod_nonneg ipAddress hpos.ne')]

/-- An integer type of the given number of bytes. -/
structure IntType where
  size : ℕ
  pos : 1 ≤ size
  signed : Bool

/-- The least value of a type. -/
def IntType.min (type : IntType) : ℤ := if type.signed then -2 ^ (8 * type.size - 1) else 0

/-- A value of a type. -/
structure IntType.Value (type : IntType) where
  val : ℤ
  min_le : type.min ≤ val
  lt : val < type.min + 256 ^ type.size

/-- Values of one type with the same remainder are equal. -/
theorem IntType.Value.eq_of_emod_eq {type : IntType} {v v' : type.Value}
    (h : v.val % 256 ^ type.size = v'.val % 256 ^ type.size) : v.val = v'.val := by
  have hdvd : (256 ^ type.size : ℤ) ∣ v.val - v'.val :=
    Int.dvd_of_emod_eq_zero (Int.emod_eq_emod_iff_emod_sub_eq_zero.mp h)
  have habs : |v.val - v'.val| < 256 ^ type.size := by
    have hmin := v.min_le
    have hmin' := v'.min_le
    have hlt := v.lt
    have hlt' := v'.lt
    rw [abs_lt]
    constructor <;> omega
  have hzero := Int.eq_zero_of_abs_lt_dvd hdvd habs
  omega

/-- What a line says about an integer: it splits at the dots into as many numerals below
256 as there are bytes, and these are the integer modulo `256 ^ size`. -/
structure Decodes (size : ℕ) (ipAddress : ℤ) (line : Text) : Prop where
  length : (split line '.').length = size
  numeral : ∀ part ∈ split line '.', Numeral part
  value : (value 256 ((split line '.').map decimal) : ℤ) = ipAddress % 256 ^ size

/-- What is printed for an integer can be read back. -/
theorem decodes_joinWith {size : ℕ} (hsize : 1 ≤ size) (ipAddress : ℤ) :
    Decodes size ipAddress (joinWith '.' ((bytes size ipAddress).map formatted)) := by
  have hlength : (bytes size ipAddress).length = size := length_places ..
  have hnumeral : ∀ part ∈ (bytes size ipAddress).map formatted, Numeral part := by
    intro part hpart
    obtain ⟨n, hn, rfl⟩ := List.mem_map.mp hpart
    exact numeral_formatted (lt_of_mem_bytes hn)
  have hne : (bytes size ipAddress).map formatted ≠ [] := by
    refine List.ne_nil_of_length_pos ?_
    rw [List.length_map, hlength]
    exact hsize
  have hsplit := split_joinWith hne fun part hpart => (hnumeral part hpart).dot_notMem
  refine ⟨?_, ?_, ?_⟩
  · rw [hsplit, List.length_map, hlength]
  · rw [hsplit]
    exact hnumeral
  · have hid : decimal ∘ formatted = id := funext decimal_formatted
    rw [hsplit, List.map_map, hid, List.map_id, value_bytes]

/-- The line tells the values of a type apart. -/
theorem printIntegral_injective {type : IntType} {v v' : type.Value}
    (h : printIntegral type.size v.val = printIntegral type.size v'.val) : v.val = v'.val := by
  rw [printIntegral_eq, printIntegral_eq] at h
  have hline := List.append_cancel_right h
  have hvalue := (decodes_joinWith type.pos v.val).value
  rw [hline, (decodes_joinWith type.pos v'.val).value] at hvalue
  exact IntType.Value.eq_of_emod_eq hvalue.symm

/-- **The overloads agree**, and a line says which integer it was printed for. -/
theorem printIp_agree :
    (∀ (type : IntType) (v : type.Value),
      printIntegral type.size v.val = printContainer formatted (bytes type.size v.val) ∧
      printIntegral type.size v.val = printTuple formatted (bytes type.size v.val) ∧
      (∃ line, printIntegral type.size v.val = line ++ ['\n'] ∧ Decodes type.size v.val line) ∧
      ∀ v' : type.Value, printIntegral type.size v.val = printIntegral type.size v'.val →
        v.val = v'.val) ∧
    ∀ (α : Type) (format : α → Text) (ipAddress : List α),
      printContainer format ipAddress = printTuple format ipAddress := by
  constructor
  · intro type v
    refine ⟨?_, ?_, ⟨_, printIntegral_eq .., decodes_joinWith type.pos v.val⟩, fun v' => ?_⟩
    · rw [printIntegral_eq, printContainer_eq]
    · rw [printIntegral_eq, printTuple_eq]
    · exact printIntegral_injective
  · intro α format ipAddress
    rw [printContainer_eq, printTuple_eq]

/-- A line of the test. -/
example : printIntegral 4 2130706433 = "127.0.0.1\n".toList := by
  rw [printIntegral_eq]
  decide

end PrintIp
