import Mathlib.Data.Nat.Digits.Lemmas

/-!
# Numbers with a fixed number of places

The last `w` digits of a number in base `b`, the most significant one first, with as many
leading zeros as it takes.

* `places` — the digits, `length_places` and `lt_of_mem_places` what they are;
* `value` — the number that digits stand for;
* `value_places` — the digits stand for the number modulo `b ^ w`.

With a base of 256 the places are the bytes of a machine integer, and the number modulo `b ^ w`
is its bit pattern.
-/

namespace Numbers

/-- The last `w` digits of a number. -/
def places (b : ℕ) : ℕ → ℕ → List ℕ
  | 0, _ => []
  | w + 1, n => n / b ^ w % b :: places b w n

/-- The number that digits stand for. -/
def value (b : ℕ) (digits : List ℕ) : ℕ := Nat.ofDigits b digits.reverse

/-- The first digit counts with the power of the base behind it. -/
theorem value_cons (b digit : ℕ) (digits : List ℕ) :
    value b (digit :: digits) = digit * b ^ digits.length + value b digits := by
  rw [value, List.reverse_cons, Nat.ofDigits_append, Nat.ofDigits_singleton, List.length_reverse,
    Nat.add_comm, Nat.mul_comm]
  rfl

@[simp] theorem length_places (b w n : ℕ) : (places b w n).length = w := by
  induction w with
  | zero => rfl
  | succ w ih => rw [places, List.length_cons, ih]

/-- Every digit is below the base. -/
theorem lt_of_mem_places {b w n digit : ℕ} (hb : 0 < b) (h : digit ∈ places b w n) :
    digit < b := by
  induction w with
  | zero => cases h
  | succ w ih =>
      rw [places, List.mem_cons] at h
      rcases h with rfl | h
      · exact Nat.mod_lt _ hb
      · exact ih h

/-- So many places hold the number as far as it fits into them. -/
theorem value_places (b w n : ℕ) : value b (places b w n) = n % b ^ w := by
  induction w with
  | zero => rw [Nat.pow_zero, Nat.mod_one]; rfl
  | succ w ih =>
      rw [places, value_cons, ih, length_places, Nat.pow_succ, Nat.mod_mul, Nat.mul_comm,
        Nat.add_comm]

end Numbers
