import CppProfessional.Numbers.Rounding
import Mathlib.Data.Nat.Factorization.Basic

/-!
# Significant digits

A whole number rounded to its first `d` decimal digits: `mantissa d n` are these digits, and
`dropped d n` is the number of digits behind them.

* `Significant d n` — the number has at most `d` digits, apart from zeros at its end;
* `rounded_eq_self_iff` — these are the numbers that rounding leaves alone;
* `significant_sq_iff` — the digits of a square.

Rounding is to the nearest number with so many digits, and to the even one of two that are
equally near.  That is how the texts of streams are rounded, of which six digits are the
default.
-/

namespace Numbers

/-- A number with at most `d` digits in front of zeros. -/
def Significant (d n : ℕ) : Prop := ∃ m j, m < 10 ^ d ∧ n = m * 10 ^ j

/-- The number of digits behind the first `d`. -/
def dropped (d n : ℕ) : ℕ := (Nat.toDigits 10 n).length - d

/-- The first `d` digits, rounded. -/
def mantissa (d n : ℕ) : ℕ := (roundHalfEven ((n : ℚ) / 10 ^ dropped d n)).toNat

/-- The number rounded to `d` digits. -/
def rounded (d n : ℕ) : ℕ := mantissa d n * 10 ^ dropped d n

section Rounded

variable {d n : ℕ}

theorem lt_pow_length (n : ℕ) : n < 10 ^ (Nat.toDigits 10 n).length :=
  (Nat.length_toDigits_le_iff (by decide) Nat.length_toDigits_pos).mp le_rfl

/-- A number with more than `k` digits. -/
theorem pow_le_of_lt_length {k : ℕ} (hk : 0 < k) (h : k < (Nat.toDigits 10 n).length) :
    10 ^ k ≤ n := by
  by_contra hlt
  exact absurd ((Nat.length_toDigits_le_iff (by decide) hk).mpr (Nat.lt_of_not_le hlt))
    (Nat.not_le.mpr h)

/-- The digits that are kept are the number without the dropped ones, rounded half to even. -/
theorem mantissa_eq (d n : ℕ) :
    (mantissa d n : ℤ) = roundHalfEven ((n : ℚ) / 10 ^ dropped d n) := by
  refine Int.toNat_of_nonneg (le_roundHalfEven ?_)
  rw [Int.cast_zero]
  positivity

/-- The number with its last digits rounded off, as a rational. -/
theorem rounded_eq (d n : ℕ) : (rounded d n : ℚ) = roundTo (10 ^ dropped d n) n := by
  have hmantissa : ((mantissa d n : ℤ) : ℚ) = roundHalfEven ((n : ℚ) / 10 ^ dropped d n) := by
    rw [mantissa_eq]
  rw [rounded, roundTo, ← hmantissa]
  push_cast
  rfl

theorem mantissa_of_dropped (h : dropped d n = 0) : mantissa d n = n := by
  rw [mantissa, h, pow_zero, div_one, roundHalfEven_natCast, Int.toNat_natCast]

/-- Where digits are dropped, `d` digits are left. -/
theorem le_mantissa (hd : 1 < d) (h : dropped d n ≠ 0) : 10 ^ (d - 1) ≤ mantissa d n := by
  have hle : 10 ^ (d - 1) * 10 ^ dropped d n ≤ n := by
    rw [← pow_add]
    refine pow_le_of_lt_length (by omega) ?_
    rw [dropped] at h ⊢
    omega
  have hrat : (((10 ^ (d - 1) : ℕ) : ℤ) : ℚ) ≤ (n : ℚ) / 10 ^ dropped d n := by
    rw [le_div_iff₀ (by positivity)]
    exact_mod_cast hle
  have hround := le_roundHalfEven hrat
  rw [← mantissa_eq] at hround
  exact_mod_cast hround

/-- No more than `d` digits are left, or a one with `d` zeros. -/
theorem mantissa_le (d n : ℕ) : mantissa d n ≤ 10 ^ d := by
  have hle : n ≤ 10 ^ d * 10 ^ dropped d n := by
    rw [← pow_add]
    refine (lt_pow_length n).le.trans (Nat.pow_le_pow_right (by decide) ?_)
    rw [dropped]
    omega
  have hrat : (n : ℚ) / 10 ^ dropped d n ≤ ((10 ^ d : ℕ) : ℤ) := by
    rw [div_le_iff₀ (by positivity)]
    exact_mod_cast hle
  have hround := roundHalfEven_le hrat
  rw [← mantissa_eq] at hround
  exact_mod_cast hround

/-- Rounding does not take a number further than to its double. -/
theorem rounded_le (hd : 0 < d) (n : ℕ) : rounded d n ≤ 2 * n := by
  by_cases h : dropped d n = 0
  · rw [rounded, mantissa_of_dropped h, h]
    omega
  · have hunit : 10 ^ dropped d n ≤ n := by
      refine pow_le_of_lt_length (Nat.pos_of_ne_zero h) ?_
      rw [dropped] at h ⊢
      omega
    have hpos : (0 : ℚ) < 10 ^ dropped d n := by positivity
    have hround : roundHalfEven ((n : ℚ) / 10 ^ dropped d n) ≤
        ((n / 10 ^ dropped d n + 1 : ℕ) : ℤ) := by
      refine roundHalfEven_le ?_
      rw [div_le_iff₀ hpos]
      have hdiv : n < (n / 10 ^ dropped d n + 1) * 10 ^ dropped d n := by
        rw [add_one_mul]
        exact Nat.lt_div_mul_add (by positivity)
      exact_mod_cast hdiv.le
    rw [← mantissa_eq] at hround
    have hmantissa : mantissa d n ≤ n / 10 ^ dropped d n + 1 := by exact_mod_cast hround
    calc rounded d n ≤ (n / 10 ^ dropped d n + 1) * 10 ^ dropped d n :=
          Nat.mul_le_mul_right _ hmantissa
      _ = n / 10 ^ dropped d n * 10 ^ dropped d n + 10 ^ dropped d n := by ring
      _ ≤ n + n := Nat.add_le_add (Nat.div_mul_le_self ..) hunit
      _ = 2 * n := by ring

/-- Nothing is lost exactly when the dropped digits are zeros. -/
theorem rounded_eq_self_iff_dvd : rounded d n = n ↔ 10 ^ dropped d n ∣ n := by
  have hunit : (10 : ℚ) ^ dropped d n ≠ 0 := by positivity
  have hround : rounded d n = n ↔ ∃ z : ℤ, (n : ℚ) = z * 10 ^ dropped d n := by
    rw [← roundTo_eq_self_iff hunit, ← rounded_eq]
    norm_cast
  rw [hround]
  constructor
  · rintro ⟨z, hz⟩
    have hint : (n : ℤ) = z * (10 ^ dropped d n : ℕ) := by exact_mod_cast hz
    exact Int.natCast_dvd_natCast.mp (hint ▸ Dvd.intro_left z rfl)
  · rintro ⟨m, hm⟩
    refine ⟨m, ?_⟩
    rw [mul_comm]
    exact_mod_cast hm

/-- **What rounding leaves alone.** -/
theorem rounded_eq_self_iff (hd : 0 < d) : rounded d n = n ↔ Significant d n := by
  rw [rounded_eq_self_iff_dvd]
  constructor
  · rintro ⟨m, hm⟩
    have hlt : 10 ^ dropped d n * m < 10 ^ dropped d n * 10 ^ d := by
      rw [← hm, ← pow_add]
      refine (lt_pow_length n).trans_le (Nat.pow_le_pow_right (by decide) ?_)
      rw [dropped]
      omega
    exact ⟨m, dropped d n, lt_of_mul_lt_mul_left hlt (Nat.zero_le _), hm.trans (mul_comm ..)⟩
  · rintro ⟨m, j, hm, hn⟩
    have hlt : n < 10 ^ (d + j) := by
      rw [hn, pow_add]
      exact Nat.mul_lt_mul_of_pos_right hm (by positivity)
    have hlength := (Nat.length_toDigits_le_iff (by decide) (Nat.add_pos_left hd j)).mpr hlt
    have hle : dropped d n ≤ j := by
      rw [dropped]
      omega
    exact (pow_dvd_pow 10 hle).trans (hn ▸ Dvd.intro_left m rfl)

end Rounded

/-! ### Squares -/

theorem Significant.mono {d d' n : ℕ} (h : Significant d n) (hle : d ≤ d') : Significant d' n := by
  obtain ⟨m, j, hm, hn⟩ := h
  exact ⟨m, j, hm.trans_le (Nat.pow_le_pow_right (by decide) hle), hn⟩

/-- A square does not end in a zero when its root does not. -/
theorem ten_dvd_of_ten_dvd_sq {q : ℕ} (h : 10 ∣ q * q) : 10 ∣ q := by
  rw [← sq] at h
  have htwo : 2 ∣ q := Nat.prime_two.dvd_of_dvd_pow ((by decide : 2 ∣ 10).trans h)
  have hfive : 5 ∣ q := Nat.prime_five.dvd_of_dvd_pow ((by decide : 5 ∣ 10).trans h)
  exact Nat.Coprime.mul_dvd_of_dvd_of_dvd (by decide : Nat.Coprime 2 5) htwo hfive

/-- **The digits of a square.** -/
theorem significant_sq_iff {d p : ℕ} : Significant (2 * d) (p * p) ↔ Significant d p := by
  constructor
  · rintro ⟨m, t, hm, hp⟩
    rcases Nat.eq_zero_or_pos p with rfl | hpos
    · exact ⟨0, 0, by positivity, rfl⟩
    obtain ⟨j, q, hq, rfl⟩ := Nat.exists_eq_pow_mul_and_not_dvd hpos.ne' 10 (by decide)
    refine ⟨q, j, ?_, mul_comm ..⟩
    by_contra hlarge
    -- otherwise the square of the digits is larger, and a zero of it is missing
    have hsq : m < q * q := by
      have hle := Nat.mul_le_mul (Nat.not_lt.mp hlarge) (Nat.not_lt.mp hlarge)
      rw [← pow_add, ← two_mul] at hle
      exact hm.trans_le hle
    have heq : q * q * 10 ^ (2 * j) = m * 10 ^ t := by
      rw [← hp, two_mul, pow_add]
      ring
    have hlt : 2 * j < t := by
      by_contra hle
      have hpow : 10 ^ t ≤ 10 ^ (2 * j) := Nat.pow_le_pow_right (by decide) (Nat.not_lt.mp hle)
      have hmul : m * 10 ^ t < q * q * 10 ^ (2 * j) :=
        (Nat.mul_le_mul_left m hpow).trans_lt (Nat.mul_lt_mul_of_pos_right hsq (by positivity))
      exact absurd heq hmul.ne'
    obtain ⟨k, rfl⟩ := Nat.exists_eq_add_of_lt hlt
    have hzero : q * q = m * 10 ^ k * 10 := by
      have hcancel : q * q * 10 ^ (2 * j) = m * 10 ^ k * 10 * 10 ^ (2 * j) := by
        rw [heq, pow_succ, pow_add]
        ring
      exact Nat.eq_of_mul_eq_mul_right (by positivity) hcancel
    exact hq (ten_dvd_of_ten_dvd_sq (Dvd.intro_left _ hzero.symm))
  · rintro ⟨q, j, hq, rfl⟩
    refine ⟨q * q, 2 * j, ?_, ?_⟩
    · rw [two_mul, pow_add]
      exact Nat.mul_lt_mul'' hq hq
    · rw [two_mul, pow_add]
      ring

end Numbers
