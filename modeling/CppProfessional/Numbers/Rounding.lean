import Mathlib.Algebra.Order.Field.Basic
import Mathlib.Algebra.Order.Field.Power
import Mathlib.Data.Int.Log
import Mathlib.Data.Rat.Floor
import Mathlib.Tactic.Linarith

/-!
# Rounding to the nearest, ties to even

The multiple of a unit that is closest to a number.  Binary floating point numbers and
decimal numerals with a fixed number of digits are both such multiples, with a unit that
depends on the size of the number.

* `roundHalfEven` — the nearest integer, `roundTo` the nearest multiple of a unit;
* `roundTo_eq_self_iff` — the numbers that are not changed.
-/

namespace Numbers

/-- The integer nearest to a number, the even one when there are two. -/
def roundHalfEven (x : ℚ) : ℤ :=
  if x - ⌊x⌋ < 1 / 2 then ⌊x⌋
  else if 1 / 2 < x - ⌊x⌋ then ⌊x⌋ + 1
  else if ⌊x⌋ % 2 = 0 then ⌊x⌋
  else ⌊x⌋ + 1

@[simp] theorem roundHalfEven_intCast (z : ℤ) : roundHalfEven z = z := by
  rw [roundHalfEven, Int.floor_intCast, sub_self, if_pos (by norm_num)]

@[simp] theorem roundHalfEven_natCast (n : ℕ) : roundHalfEven n = n := by
  exact_mod_cast roundHalfEven_intCast n

/-- Rounding goes down or up by less than one. -/
theorem roundHalfEven_eq_or (x : ℚ) :
    roundHalfEven x = ⌊x⌋ ∨ roundHalfEven x = ⌊x⌋ + 1 ∧ (⌊x⌋ : ℚ) < x := by
  rw [roundHalfEven]
  split_ifs with hbelow habove heven
  · exact .inl rfl
  · exact .inr ⟨rfl, by linarith⟩
  · exact .inl rfl
  · exact .inr ⟨rfl, by linarith⟩

theorem le_roundHalfEven {x : ℚ} {z : ℤ} (h : z ≤ x) : z ≤ roundHalfEven x := by
  have hfloor : z ≤ ⌊x⌋ := Int.le_floor.mpr h
  rcases roundHalfEven_eq_or x with heq | ⟨heq, -⟩ <;> omega

/-- Rounding does not go above a whole number on top. -/
theorem roundHalfEven_le {x : ℚ} {z : ℤ} (h : x ≤ z) : roundHalfEven x ≤ z := by
  rcases roundHalfEven_eq_or x with heq | ⟨heq, hlt⟩
  · rw [heq]
    exact_mod_cast (Int.floor_le x).trans h
  · have hfloor : ⌊x⌋ < z := by exact_mod_cast hlt.trans_le h
    omega

/-- The multiple of a unit nearest to a number. -/
def roundTo (unit x : ℚ) : ℚ := roundHalfEven (x / unit) * unit

/-- **Multiples of the unit** are the numbers that rounding leaves alone. -/
theorem roundTo_eq_self_iff {unit x : ℚ} (hunit : unit ≠ 0) :
    roundTo unit x = x ↔ ∃ z : ℤ, x = z * unit := by
  constructor
  · intro h
    exact ⟨roundHalfEven (x / unit), h.symm⟩
  · rintro ⟨z, rfl⟩
    rw [roundTo, mul_div_cancel_right₀ _ hunit, roundHalfEven_intCast]

end Numbers
