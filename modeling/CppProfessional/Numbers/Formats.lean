import CppProfessional.Numbers.Rounding

/-!
# Binary formats and their arithmetic

The numbers of a binary floating point format, rounding to the nearest, and the four
operations: the exact result is rounded, and what is too large is no number any more.

* `BinaryFormat`, with `binary32` and `binary64`;
* `nearest_natCast`, `add_natCast`, `mul_natCast` — whole numbers are exact as long as they
  have few enough digits;
* `abs_nearest_sub_le`, `abs_nearest_sub_le_of_normal` — how far rounding goes.

`none` stands for the infinities and for what is not a number alike.  Nothing that is proved
about a program goes on from such a value, so the difference does not matter.
-/

namespace Numbers

/-- The number of binary digits, and the exponents of the least and of the largest unit in
the last place. -/
structure BinaryFormat where
  digits : ℕ
  minExponent : ℤ
  maxExponent : ℕ
  digits_pos : 0 < digits
  minExponent_nonpos : minExponent ≤ 0

/-- `float` -/
def binary32 : BinaryFormat := ⟨24, -149, 104, by decide, by decide⟩

/-- `double` -/
def binary64 : BinaryFormat := ⟨53, -1074, 971, by decide, by decide⟩

/-! ### The distance to what is rounded

Rounding is done in the rational numbers: a number is divided by the unit of its last
place and rounded to a whole number, half to even. -/

/-- Rounding moves a number by at most a half. -/
theorem abs_roundHalfEven_sub_le (x : ℚ) : |(roundHalfEven x : ℚ) - x| ≤ 1 / 2 := by
  have hfloor := Int.floor_le x
  have hlt := Int.lt_floor_add_one x
  rw [abs_le, roundHalfEven]
  split_ifs with hbelow habove heven
  · constructor <;> linarith
  · push_cast
    constructor <;> linarith
  · constructor <;> linarith
  · push_cast
    constructor <;> linarith

/-- Rounding to a unit moves a number by at most half of it. -/
theorem abs_roundTo_sub_le {unit : ℚ} (hunit : 0 < unit) (x : ℚ) :
    |roundTo unit x - x| ≤ unit / 2 := by
  have hdiff : roundTo unit x - x = (roundHalfEven (x / unit) - x / unit) * unit := by
    rw [roundTo, sub_mul, div_mul_cancel₀ _ hunit.ne']
  rw [hdiff, abs_mul, abs_of_pos hunit]
  calc |(roundHalfEven (x / unit) : ℚ) - x / unit| * unit ≤ 1 / 2 * unit :=
        mul_le_mul_of_nonneg_right (abs_roundHalfEven_sub_le _) hunit.le
    _ = unit / 2 := by ring

namespace BinaryFormat

variable (fmt : BinaryFormat)

/-- The number of the format nearest to a number, as long as there is one of that size. -/
def nearest (x : ℚ) : ℚ :=
  roundTo (2 ^ max (Int.log 2 |x| - (fmt.digits - 1 : ℕ)) fmt.minExponent) x

/-- The largest number. -/
def largest : ℚ := (2 ^ fmt.digits - 1) * 2 ^ fmt.maxExponent

/-- The number nearest to a number; `none` stands for everything that is not finite. -/
def finite (x : ℚ) : Option ℚ :=
  if |fmt.nearest x| ≤ fmt.largest then some (fmt.nearest x) else none

/-- The operations. -/
def add (x y : Option ℚ) : Option ℚ := x.bind fun x => y.bind fun y => fmt.finite (x + y)

@[inherit_doc add]
def sub (x y : Option ℚ) : Option ℚ := x.bind fun x => y.bind fun y => fmt.finite (x - y)

@[inherit_doc add]
def mul (x y : Option ℚ) : Option ℚ := x.bind fun x => y.bind fun y => fmt.finite (x * y)

@[inherit_doc add]
def div (x y : Option ℚ) : Option ℚ :=
  x.bind fun x => y.bind fun y => if y = 0 then none else fmt.finite (x / y)

/-! ### Whole numbers

Whole numbers with no more bits than the format are represented, so an operation on them
whose result is again such a number is exact. -/

variable {fmt} {a b n : ℕ} {x y : ℚ}

/-- **Small whole numbers are exact.** A number with no more bits than the format is its own
nearest number. -/
theorem nearest_natCast (h : n < 2 ^ fmt.digits) : fmt.nearest n = n := by
  have hdigits := fmt.digits_pos
  have hmin := fmt.minExponent_nonpos
  have hlog : Int.log 2 |(n : ℚ)| ≤ (fmt.digits - 1 : ℕ) := by
    rw [Nat.abs_cast, Int.log_natCast]
    have hle : Nat.log 2 n < fmt.digits := Nat.log_lt_of_lt_pow' hdigits.ne' h
    exact_mod_cast Nat.le_sub_one_of_lt hle
  obtain ⟨k, hk⟩ : ∃ k : ℕ,
      max (Int.log 2 |(n : ℚ)| - (fmt.digits - 1 : ℕ)) fmt.minExponent = -(k : ℤ) :=
    ⟨(-max (Int.log 2 |(n : ℚ)| - (fmt.digits - 1 : ℕ)) fmt.minExponent).toNat, by omega⟩
  rw [nearest, hk, roundTo_eq_self_iff (zpow_ne_zero _ two_ne_zero)]
  refine ⟨n * 2 ^ k, ?_⟩
  push_cast
  rw [zpow_neg, zpow_natCast, mul_assoc, mul_inv_cancel₀ (pow_ne_zero k two_ne_zero), mul_one]

/-- A number with no more bits than the format is in its range. -/
theorem natCast_le_largest (h : n < 2 ^ fmt.digits) : |(n : ℚ)| ≤ fmt.largest := by
  have hdigits : (n : ℚ) ≤ 2 ^ fmt.digits - 1 := by
    rw [le_sub_iff_add_le]
    exact_mod_cast h
  have hone : (1 : ℚ) ≤ 2 ^ fmt.maxExponent := one_le_pow₀ one_le_two
  rw [Nat.abs_cast]
  exact hdigits.trans (le_mul_of_one_le_right ((Nat.cast_nonneg n).trans hdigits) hone)

theorem finite_natCast (h : n < 2 ^ fmt.digits) : fmt.finite n = some (n : ℚ) := by
  rw [finite, nearest_natCast h, if_pos (natCast_le_largest h)]

theorem add_natCast (h : a + b < 2 ^ fmt.digits) :
    fmt.add (some (a : ℚ)) (some (b : ℚ)) = some ((a + b : ℕ) : ℚ) := by
  rw [add, Option.bind_some, Option.bind_some, ← Nat.cast_add, finite_natCast h]

theorem mul_natCast (h : a * b < 2 ^ fmt.digits) :
    fmt.mul (some (a : ℚ)) (some (b : ℚ)) = some ((a * b : ℕ) : ℚ) := by
  rw [mul, Option.bind_some, Option.bind_some, ← Nat.cast_mul, finite_natCast h]

/-- A product added to a sum. -/
theorem add_mul_natCast {c : ℕ} (hc : c < 2 ^ fmt.digits) (h : a + c * b < 2 ^ fmt.digits) :
    fmt.add (some (a : ℚ)) (fmt.mul (some (b : ℚ)) (fmt.finite c)) =
      some ((a + c * b : ℕ) : ℚ) := by
  have hmul : b * c < 2 ^ fmt.digits := by
    rw [mul_comm]
    omega
  rw [finite_natCast hc, mul_natCast hmul, mul_comm b, add_natCast h]

/-- A quotient that is zero for no numbers. -/
theorem div_natCast (x : ℚ) (h : n < 2 ^ fmt.digits) :
    (if 0 < n then fmt.div (some x) (fmt.finite n) else some 0) = fmt.finite (x / n) := by
  rcases Nat.eq_zero_or_pos n with rfl | hpos
  · have hzero : fmt.finite ((0 : ℕ) : ℚ) = some ((0 : ℕ) : ℚ) := finite_natCast h
    rw [Nat.cast_zero] at hzero
    rw [if_neg (Nat.lt_irrefl 0), Nat.cast_zero, div_zero, hzero]
  · have hne : (n : ℚ) ≠ 0 := by exact_mod_cast hpos.ne'
    rw [if_pos hpos, finite_natCast h, div, Option.bind_some, Option.bind_some, if_neg hne]

/-! ### How far rounding goes

For all other numbers there is only a bound.  It is relative to the number, except near
zero, where the unit does not get smaller any more. -/

/-- The unit in the last place. -/
theorem zpow_log_le (hx : x ≠ 0) :
    (2 : ℚ) ^ (Int.log 2 |x| - (fmt.digits - 1 : ℕ)) ≤ 2 * (|x| / 2 ^ fmt.digits) := by
  have hdigits : (2 : ℚ) ^ fmt.digits = 2 * 2 ^ (fmt.digits - 1) := by
    rw [← pow_succ', Nat.sub_add_cancel fmt.digits_pos]
  have hpow : (0 : ℚ) < 2 ^ (fmt.digits - 1) := by positivity
  rw [zpow_sub₀ two_ne_zero, zpow_natCast, hdigits, ← mul_div_assoc,
    mul_div_mul_left _ _ two_ne_zero]
  exact div_le_div_of_nonneg_right (Int.zpow_log_le_self (by decide) (abs_pos.mpr hx)) hpow.le

@[simp] theorem nearest_zero : fmt.nearest 0 = 0 := by
  have hzero : fmt.nearest ((0 : ℕ) : ℚ) = ((0 : ℕ) : ℚ) := nearest_natCast (Nat.two_pow_pos _)
  rwa [Nat.cast_zero] at hzero

/-- **The error of rounding**: half a unit in the last digit, or half of the least unit for
numbers that are too small to have all their digits. -/
theorem abs_nearest_sub_le (x : ℚ) :
    |fmt.nearest x - x| ≤ |x| / 2 ^ fmt.digits + 2 ^ fmt.minExponent / 2 := by
  have hmin : (0 : ℚ) < 2 ^ fmt.minExponent := zpow_pos two_pos _
  rcases eq_or_ne x 0 with rfl | hx
  · rw [nearest_zero, sub_zero, abs_zero, zero_div, zero_add]
    exact (half_pos hmin).le
  · have hround := abs_roundTo_sub_le
      (zpow_pos two_pos (max (Int.log 2 |x| - (fmt.digits - 1 : ℕ)) fmt.minExponent) :
        (0 : ℚ) < _) x
    have hunit := @zpow_log_le fmt x hx
    have habs : 0 ≤ |x| / 2 ^ fmt.digits := by positivity
    rcases max_choice (Int.log 2 |x| - ((fmt.digits - 1 : ℕ) : ℤ)) fmt.minExponent with hmax | hmax
    · rw [hmax] at hround
      rw [nearest, hmax]
      linarith
    · rw [hmax] at hround
      rw [nearest, hmax]
      linarith

/-- Rounding a number that is not too small changes it by half a unit in the last digit. -/
theorem abs_nearest_sub_le_of_normal
    (hx : (2 : ℚ) ^ (fmt.minExponent + (fmt.digits - 1 : ℕ)) ≤ |x|) :
    |fmt.nearest x - x| ≤ |x| / 2 ^ fmt.digits := by
  have hpos : 0 < |x| := (zpow_pos two_pos _).trans_le hx
  have hlog : fmt.minExponent ≤ Int.log 2 |x| - (fmt.digits - 1 : ℕ) := by
    have hle := (Int.zpow_le_iff_le_log (b := 2) (by decide) hpos).mp hx
    omega
  have hround := abs_roundTo_sub_le
    (zpow_pos two_pos (Int.log 2 |x| - (fmt.digits - 1 : ℕ)) : (0 : ℚ) < _) x
  have hunit := @zpow_log_le fmt x (abs_pos.mp hpos)
  rw [nearest, max_eq_left hlog]
  linarith

/-- What is far from the largest number stays finite. -/
theorem finite_eq_some (h : 2 * |x| + 1 ≤ fmt.largest) : fmt.finite x = some (fmt.nearest x) := by
  have hround := @abs_nearest_sub_le fmt x
  have hdigits : |x| / 2 ^ fmt.digits ≤ |x| :=
    div_le_self (abs_nonneg x) (one_le_pow₀ one_le_two)
  have hmin : (2 : ℚ) ^ fmt.minExponent ≤ 1 :=
    zpow_le_one_of_nonpos₀ one_le_two fmt.minExponent_nonpos
  have htriangle : |fmt.nearest x| ≤ |fmt.nearest x - x| + |x| := by
    have hsum := abs_add_le (fmt.nearest x - x) x
    rwa [sub_add_cancel] at hsum
  rw [finite, if_pos (by linarith)]

end BinaryFormat

end Numbers
