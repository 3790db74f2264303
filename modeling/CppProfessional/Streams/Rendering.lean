import CppProfessional.Streams.Floats

/-!
# Rational numbers in streams

What `std::ostream` writes for a finite floating point number with its default settings: six
significant digits without zeros at the end, with an exponent where it is below -4 or at
least six.  A floating point number is a rational number here, and rounded exactly.

* `numberText` — the text;
* `sixSignificant` — the number that it denotes, which `splitFloat_numberText` reads back
  and `abs_sixSignificant_sub_le` compares with the number that was written;
* `numberText_natCast` — for whole numbers it is `floatText`.
-/

namespace Streams

open Numbers

/-! ### Writing

`%g` chooses between two styles by the exponent of the rounded number, so the rounding
comes first. -/

/-- The decimal exponent of a number that is not negative, once it is rounded to six digits,
and these digits. -/
def sixDigits (x : ℚ) : ℤ × ℕ :=
  let exponent := Int.log 10 x
  let digits := (roundHalfEven (x / 10 ^ (exponent - 5))).toNat
  if digits = 10 ^ 6 then (exponent + 1, 10 ^ 5) else (exponent, digits)

/-- Digits with a point between them; behind the point zeros at the end go, and the point
with the last digit. -/
def pointed (whole frac : List Char) : List Char :=
  let frac := frac.rdropWhile (· = '0')
  whole ++ if frac = [] then [] else '.' :: frac

/-- An exponent with its sign and two digits or more. -/
def exponentText (exponent : ℤ) : List Char :=
  'e' :: (if exponent < 0 then '-' else '+') ::
    (Nat.toDigits 10 exponent.natAbs).leftpad 2 '0'

/-- The digits of a number in the style for its exponent. -/
def digitsText (exponent : ℤ) (digits : List Char) : List Char :=
  if exponent < -4 ∨ 6 ≤ exponent then
    pointed (digits.take 1) (digits.drop 1) ++ exponentText exponent
  else if exponent < 0 then
    pointed ['0'] (List.replicate (-exponent - 1).toNat '0' ++ digits)
  else pointed (digits.take (exponent.toNat + 1)) (digits.drop (exponent.toNat + 1))

/-- `os << x` -/
def numberText (x : ℚ) : List Char :=
  let (exponent, digits) := sixDigits |x|
  (if x < 0 then ['-'] else []) ++ digitsText exponent (Nat.toDigits 10 digits)

/-- The number with its absolute value rounded to six significant digits. -/
def sixSignificant (x : ℚ) : ℚ :=
  let magnitude := roundTo (10 ^ (Int.log 10 |x| - 5)) |x|
  if x < 0 then -magnitude else magnitude

/-! ### Six digits

A number is scaled by a power of ten until its sixth digit is in front of the point, and
rounded there.  Rounding may carry into a seventh digit; then the exponent goes up by
one. -/

section SixDigits

variable {x : ℚ}

@[simp] theorem sixDigits_zero : sixDigits 0 = (0, 0) := by
  have hzero : roundHalfEven 0 = 0 := by exact_mod_cast roundHalfEven_intCast 0
  rw [sixDigits, Int.log_zero_right, zero_div, hzero]
  rfl

/-- Before rounding, a number has its first digit in the sixth place.  Rounding may carry it to
the seventh, which is why the upper bound can be reached. -/
theorem quotient_bounds (hx : 0 < x) :
    (10 : ℚ) ^ 5 ≤ x / 10 ^ (Int.log 10 x - 5) ∧ x / 10 ^ (Int.log 10 x - 5) ≤ 10 ^ 6 := by
  have hunit : (0 : ℚ) < 10 ^ (Int.log 10 x - 5) := zpow_pos (by norm_num) _
  have hlow : ((10 : ℕ) : ℚ) ^ Int.log 10 x ≤ x := Int.zpow_log_le_self (by decide) hx
  have hhigh : x < ((10 : ℕ) : ℚ) ^ (Int.log 10 x + 1) := Int.lt_zpow_succ_log_self (by decide) x
  constructor
  · rw [le_div_iff₀ hunit]
    calc (10 : ℚ) ^ 5 * 10 ^ (Int.log 10 x - 5) = 10 ^ Int.log 10 x := by
          rw [← zpow_natCast, ← zpow_add₀ (by norm_num)]
          congr 1
          push_cast
          ring
      _ ≤ x := hlow
  · rw [div_le_iff₀ hunit]
    calc x ≤ 10 ^ (Int.log 10 x + 1) := hhigh.le
      _ = (10 : ℚ) ^ 6 * 10 ^ (Int.log 10 x - 5) := by
          rw [← zpow_natCast, ← zpow_add₀ (by norm_num)]
          congr 1
          push_cast
          ring

/-- **The six digits** of a number, and what they stand for: the number rounded in the place of
its sixth digit, also where rounding has carried. -/
theorem sixDigits_spec (hx : 0 < x) :
    10 ^ 5 ≤ (sixDigits x).2 ∧ (sixDigits x).2 < 10 ^ 6 ∧
      ((sixDigits x).2 : ℚ) * 10 ^ ((sixDigits x).1 - 5) =
        roundTo (10 ^ (Int.log 10 x - 5)) x := by
  obtain ⟨hlow, hhigh⟩ := quotient_bounds hx
  have hge : (10 ^ 5 : ℤ) ≤ roundHalfEven (x / 10 ^ (Int.log 10 x - 5)) :=
    le_roundHalfEven (by exact_mod_cast hlow)
  have hle : roundHalfEven (x / 10 ^ (Int.log 10 x - 5)) ≤ 10 ^ 6 :=
    roundHalfEven_le (by exact_mod_cast hhigh)
  obtain ⟨m, hm⟩ := Int.eq_ofNat_of_zero_le ((by norm_num : (0 : ℤ) ≤ 10 ^ 5).trans hge)
  rw [roundTo, sixDigits]
  simp only [hm, Int.toNat_natCast] at hge hle ⊢
  split
  · next hcarry =>
      refine ⟨le_rfl, by norm_num, ?_⟩
      have hexponent : Int.log 10 x + 1 - 5 = Int.log 10 x - 5 + 1 := by ring
      rw [hcarry, hexponent, zpow_add_one₀ (by norm_num)]
      push_cast
      ring
  · next hcarry =>
      refine ⟨by omega, by omega, ?_⟩
      rw [Int.cast_natCast]

/-- Rounding a number that is not negative. -/
theorem abs_roundTo_six_sub_le (hx : 0 ≤ x) :
    |roundTo (10 ^ (Int.log 10 x - 5)) x - x| ≤ x / (2 * 10 ^ 5) := by
  rcases hx.eq_or_lt with rfl | hpos
  · have hzero : roundHalfEven 0 = 0 := by exact_mod_cast roundHalfEven_intCast 0
    rw [roundTo, zero_div, hzero]
    norm_num
  · have hunit : (0 : ℚ) < 10 ^ (Int.log 10 x - 5) := zpow_pos (by norm_num) _
    have hlow := (le_div_iff₀ hunit).mp (quotient_bounds hpos).1
    refine (abs_roundTo_sub_le hunit x).trans ?_
    linarith

/-- **Rounding to six digits** changes a number by at most half a unit in the sixth digit. -/
theorem abs_sixSignificant_sub_le (x : ℚ) : |sixSignificant x - x| ≤ |x| / (2 * 10 ^ 5) := by
  have hmagnitude := abs_roundTo_six_sub_le (abs_nonneg x)
  rw [sixSignificant]
  split
  · next hneg =>
      rw [abs_of_neg hneg] at hmagnitude ⊢
      rw [← abs_neg]
      convert hmagnitude using 2
      ring
  · next hneg =>
      rw [abs_of_nonneg (not_lt.mp hneg)] at hmagnitude ⊢
      exact hmagnitude

end SixDigits

/-! ### The number that is read

In either style, what is read denotes the six digits in their place.  Zeros that are not
written make no difference. -/

section Reading

variable {whole frac digits rest tail : List Char} {c : Char}

/-- Without the zeros at its end a fraction still consists of digits. -/
theorem isDigit_rdropWhile (hfrac : ∀ d ∈ frac, d.isDigit = true) :
    ∀ d ∈ frac.rdropWhile (· = '0'), d.isDigit = true := fun d hd =>
  hfrac d ((List.rdropWhile_prefix _ frac).subset hd)

/-- Digits with a point and what follows them, which is neither a digit nor a point. -/
theorem splitFloat_pointed (hne : whole ≠ []) (hwhole : ∀ d ∈ whole, d.isDigit = true)
    (hfrac : ∀ d ∈ frac, d.isDigit = true) (hrest : ∀ d ∈ rest.head?, d.isDigit = false)
    (hpoint : ∀ d ∈ rest.head?, d ≠ '.') :
    splitFloat (pointed whole frac ++ rest) =
      (⟨false, whole, frac.rdropWhile (· = '0'), (splitExponent rest).1⟩,
        (splitExponent rest).2) := by
  have hdigits := isDigit_rdropWhile hfrac
  rw [pointed, List.append_assoc]
  by_cases hnil : frac.rdropWhile (· = '0') = []
  · have hsplit : splitFrac rest = ([], rest) := by
      unfold splitFrac
      split
      · exact absurd rfl (hpoint '.' rfl)
      · rfl
    rw [if_pos hnil, List.nil_append, splitFloat_append hne hwhole hrest, hsplit, hnil]
  · have hsplit : splitFrac ('.' :: frac.rdropWhile (· = '0') ++ rest) =
        (frac.rdropWhile (· = '0'), rest) := by
      show ((frac.rdropWhile _ ++ rest).takeWhile _, (frac.rdropWhile _ ++ rest).dropWhile _) = _
      rw [takeWhile_append hdigits hrest, dropWhile_append hdigits hrest]
    have hhead : ∀ d ∈ ('.' :: frac.rdropWhile (· = '0') ++ rest).head?, d.isDigit = false :=
      forall_head?_cons (by decide)
    rw [if_neg hnil, splitFloat_append hne hwhole hhead, hsplit]

/-- There is no exponent in front of a blank. -/
theorem splitExponent_space (hc : isSpace c = true) :
    splitExponent (c :: tail) = (none, c :: tail) := by
  refine if_neg ?_
  rintro (rfl | rfl) <;> cases hc

/-- The exponent that is read of its text. -/
theorem splitExponent_exponentText (exponent : ℤ) (tail : List Char) (hc : isSpace c = true) :
    splitExponent (exponentText exponent ++ c :: tail) =
      (some (decide (exponent < 0), (Nat.toDigits 10 exponent.natAbs).leftpad 2 '0'),
        c :: tail) := by
  have hstop := not_isDigit_of_isSpace hc
  by_cases hneg : exponent < 0
  · rw [exponentText, if_pos hneg, decide_eq_true hneg]
    show (some (true, ((_ ++ c :: tail).takeWhile _)), (_ ++ c :: tail).dropWhile _) = _
    rw [takeWhile_stop isDigit_leftpad hstop, dropWhile_stop isDigit_leftpad hstop]
  · rw [exponentText, if_neg hneg, decide_eq_false hneg]
    show (some (false, ((_ ++ c :: tail).takeWhile _)), (_ ++ c :: tail).dropWhile _) = _
    rw [takeWhile_stop isDigit_leftpad hstop, dropWhile_stop isDigit_leftpad hstop]

/-- The value of the exponent, as it was written. -/
theorem exponentValue_exponentText (negative : Bool) (whole frac : List Char) (exponent : ℤ) :
    (FloatField.mk negative whole frac
      (some (decide (exponent < 0),
        (Nat.toDigits 10 exponent.natAbs).leftpad 2 '0'))).exponentValue = some exponent := by
  have hne : ¬(Nat.toDigits 10 exponent.natAbs).leftpad 2 '0' = [] := by
    rw [List.leftpad, List.append_eq_nil_iff, not_and]
    exact fun _ => Nat.toDigits_ne_nil
  simp only [FloatField.exponentValue, if_neg hne, ofDigitChars_leftpad, decide_eq_true_eq]
  split <;> congr 1 <;> omega

/-- Zeros at the end of the digits behind the point do not change the number. -/
theorem value_rdropWhile (negative : Bool) (hne : whole ≠ []) (exponent : Option (Bool × List Char))
    {z : ℤ}
    (hz : (FloatField.mk negative whole (frac.rdropWhile (· = '0')) exponent).exponentValue =
      some z) :
    (FloatField.mk negative whole (frac.rdropWhile (· = '0')) exponent).value =
      some ((if negative then -(Nat.ofDigitChars 10 (whole ++ frac) 0 : ℚ)
        else Nat.ofDigitChars 10 (whole ++ frac) 0) * 10 ^ (z - frac.length)) := by
  obtain ⟨zeros, hfrac⟩ := eq_append_replicate frac
  generalize frac.rdropWhile (· = '0') = kept at hfrac hz ⊢
  subst hfrac
  have hnumber : Nat.ofDigitChars 10 (whole ++ (kept ++ List.replicate zeros '0')) 0 =
      10 ^ zeros * Nat.ofDigitChars 10 (whole ++ kept) 0 := by
    rw [← List.append_assoc, Nat.ofDigitChars_append, Nat.ofDigitChars_replicate_zero]
  have hpower : z - kept.length = z - (kept.length + zeros : ℕ) + (zeros : ℕ) := by
    push_cast
    ring
  rw [FloatField.value, hz]
  simp only [List.append_eq_nil_iff, hne, false_and, if_false, Option.map_some, hnumber,
    List.length_append, List.length_replicate]
  rw [hpower, zpow_add₀ (by norm_num : (10 : ℚ) ≠ 0), zpow_natCast]
  congr 1
  push_cast
  split <;> ring

/-- Digits with a point denote the digits without it, moved behind the point. -/
theorem splitFloat_plain {m : ℕ} (hne : whole ≠ []) (hwhole : ∀ d ∈ whole, d.isDigit = true)
    (hfrac : ∀ d ∈ frac, d.isDigit = true) (hm : Nat.ofDigitChars 10 (whole ++ frac) 0 = m)
    {z : ℤ} (hz : z = -frac.length) (tail : List Char) (hc : isSpace c = true) :
    ∃ field, splitFloat (pointed whole frac ++ c :: tail) = (field, c :: tail) ∧
      field.negative = false ∧ field.value = some ((m : ℚ) * 10 ^ z) := by
  have hpoint : ∀ d ∈ (c :: tail).head?, d ≠ '.' := by
    rintro d hd rfl
    obtain rfl : c = '.' := Option.some.inj hd
    cases hc
  have hvalue := @value_rdropWhile whole frac false hne none 0 rfl
  refine ⟨_, ?_, rfl, hvalue.trans ?_⟩
  · rw [splitFloat_pointed hne hwhole hfrac (forall_head?_cons (not_isDigit_of_isSpace hc)) hpoint,
      splitExponent_space hc]
  · rw [hm, hz, zero_sub]
    rfl

/-- With an exponent behind them they are moved as far as it says. -/
theorem splitFloat_exponent {m : ℕ} (hne : whole ≠ []) (hwhole : ∀ d ∈ whole, d.isDigit = true)
    (hfrac : ∀ d ∈ frac, d.isDigit = true) (hm : Nat.ofDigitChars 10 (whole ++ frac) 0 = m)
    (exponent : ℤ) {z : ℤ} (hz : z = exponent - frac.length) (tail : List Char)
    (hc : isSpace c = true) :
    ∃ field, splitFloat (pointed whole frac ++ exponentText exponent ++ c :: tail) =
        (field, c :: tail) ∧
      field.negative = false ∧ field.value = some ((m : ℚ) * 10 ^ z) := by
  have hhead : ∀ d ∈ (exponentText exponent ++ c :: tail).head?, d = 'e' := by
    intro d hd
    exact (Option.some.inj hd).symm
  have hvalue := @value_rdropWhile whole frac false hne _ _
    (exponentValue_exponentText false whole _ exponent)
  refine ⟨_, ?_, rfl, hvalue.trans ?_⟩
  · rw [List.append_assoc, splitFloat_pointed hne hwhole hfrac (fun d hd => hhead d hd ▸ by decide)
      (fun d hd => hhead d hd ▸ by decide), splitExponent_exponentText exponent tail hc]
  · rw [hm, hz]
    rfl

/-- The six digits are six. -/
theorem length_toDigits_six {m : ℕ} (hlow : 10 ^ 5 ≤ m) (hhigh : m < 10 ^ 6) :
    (Nat.toDigits 10 m).length = 6 := by
  have hle := (Nat.length_toDigits_le_iff (k := 6) (by decide : 1 < 10) (by decide)).mpr hhigh
  have hnot := mt (Nat.length_toDigits_le_iff (k := 5) (by decide : 1 < 10) (by decide)).mp
    (Nat.not_lt.mpr hlow)
  omega

/-- **The three styles** all denote the digits, with the first of them at the exponent: with an
exponent, below one with zeros in front, and with a point somewhere or nowhere. -/
theorem splitFloat_digitsText {exponent : ℤ} {m : ℕ} (hlow : 10 ^ 5 ≤ m) (hhigh : m < 10 ^ 6)
    (tail : List Char) (hc : isSpace c = true) :
    ∃ field, splitFloat (digitsText exponent (Nat.toDigits 10 m) ++ c :: tail) =
        (field, c :: tail) ∧
      field.negative = false ∧ field.value = some ((m : ℚ) * 10 ^ (exponent - 5)) := by
  have hlength := length_toDigits_six hlow hhigh
  have hnumber : Nat.ofDigitChars 10 (Nat.toDigits 10 m) 0 = m := Nat.ofDigitChars_ten_toDigits
  have hdigits : ∀ d ∈ Nat.toDigits 10 m, d.isDigit = true := isDigit_toDigits
  generalize Nat.toDigits 10 m = digits at hlength hnumber hdigits ⊢
  have htake (k : ℕ) : ∀ d ∈ digits.take k, d.isDigit = true := fun d hd =>
    hdigits d (List.mem_of_mem_take hd)
  have hdrop (k : ℕ) : ∀ d ∈ digits.drop k, d.isDigit = true := fun d hd =>
    hdigits d (List.mem_of_mem_drop hd)
  have hfirst (k : ℕ) : digits.take (k + 1) ≠ [] := by
    intro hnil
    have hzero := congrArg List.length hnil
    rw [List.length_take, hlength, List.length_nil] at hzero
    omega
  rw [digitsText]
  split_ifs with hlarge hneg
  · refine splitFloat_exponent (hfirst 0) (htake 1) (hdrop 1) ?_ exponent ?_ tail hc
    · rw [List.take_append_drop, hnumber]
    · rw [List.length_drop, hlength]
      rfl
  · refine splitFloat_plain (List.cons_ne_nil _ _) ?_ ?_ ?_ ?_ tail hc
    · intro d hd
      rw [List.mem_singleton.mp hd]
      rfl
    · intro d hd
      rcases List.mem_append.mp hd with hzero | hd
      · rw [List.eq_of_mem_replicate hzero]
        rfl
      · exact hdigits d hd
    · have hzeros : ['0'] ++ (List.replicate (-exponent - 1).toNat '0' ++ digits) =
          List.replicate ((-exponent - 1).toNat + 1) '0' ++ digits := rfl
      rw [hzeros, Nat.ofDigitChars_append, Nat.ofDigitChars_replicate_zero, Nat.mul_zero, hnumber]
    · rw [List.length_append, List.length_replicate, hlength]
      omega
  · refine splitFloat_plain (hfirst _) (htake _) (hdrop _) ?_ ?_ tail hc
    · rw [List.take_append_drop, hnumber]
    · rw [List.length_drop, hlength]
      omega

/-- A text of a number starts with a digit. -/
theorem digitsText_eq_cons (exponent : ℤ) (m : ℕ) :
    ∃ first rest, digitsText exponent (Nat.toDigits 10 m) = first :: rest ∧
      first.isDigit = true := by
  obtain ⟨first, digits, hdigits, hfirst, -⟩ := toDigits_eq_cons m
  rw [digitsText, hdigits]
  split_ifs
  · exact ⟨first, _, rfl, hfirst⟩
  · exact ⟨'0', _, rfl, rfl⟩
  · exact ⟨first, _, rfl, hfirst⟩

/-- A minus sign in front of a number changes the sign of what is read and nothing else. -/
theorem splitFloat_minus {first : Char} {text : List Char} {field : FloatField}
    (hfirst : first.isDigit = true) (h : splitFloat (first :: text) = (field, rest)) {v : ℚ}
    (hnegative : field.negative = false) (hvalue : field.value = some v) :
    splitFloat ('-' :: first :: text) = ({ field with negative := true }, rest) ∧
      FloatField.value { field with negative := true } = some (-v) := by
  have hdigit : ∀ d ∈ [first], d.isDigit = true := by simpa using hfirst
  have hsign : IStream.splitSign (first :: text) = (false, first :: text) :=
    IStream.splitSign_digits (List.cons_ne_nil _ _) hdigit text
  have hminus : IStream.splitSign ('-' :: first :: text) = (true, first :: text) := rfl
  constructor
  · rw [splitFloat, hsign] at h
    rw [splitFloat, hminus]
    dsimp only at h ⊢
    split at h
    · next hnil =>
        rw [if_pos hnil]
        obtain ⟨rfl, rfl⟩ := Prod.mk.inj h
        rfl
    · next hnil =>
        rw [if_neg hnil]
        obtain ⟨rfl, rfl⟩ := Prod.mk.inj h
        rfl
  · obtain ⟨negative, whole, frac, exponent⟩ := field
    subst hnegative
    rw [FloatField.value] at hvalue ⊢
    dsimp only at hvalue ⊢
    split at hvalue
    · cases hvalue
    · next hnil =>
        rw [if_neg hnil]
        obtain ⟨z, hz, rfl⟩ := Option.map_eq_some_iff.mp hvalue
        have hz' : (FloatField.mk true whole frac exponent).exponentValue = some z := hz
        rw [hz', Option.map_some]
        simp

/-- **What is written of a number**, up to the next blank, denotes the number rounded to six
significant digits. -/
theorem splitFloat_numberText (x : ℚ) (tail : List Char) (hc : isSpace c = true) :
    ∃ field, splitFloat (numberText x ++ c :: tail) = (field, c :: tail) ∧
      field.value = some (sixSignificant x) := by
  rcases eq_or_ne x 0 with rfl | hx
  · have htext : numberText 0 = ['0'] := by
      rw [numberText, abs_zero, sixDigits_zero, if_neg (lt_irrefl 0)]
      rfl
    have hzero : sixSignificant 0 = 0 := by
      simpa using abs_sixSignificant_sub_le 0
    have hdigit : ∀ d ∈ ['0'], d.isDigit = true := by
      intro d hd
      rw [List.mem_singleton.mp hd]
      rfl
    refine ⟨_, ?_, (value_digits (List.cons_ne_nil '0' [])).trans ?_⟩
    · rw [htext]
      exact splitFloat_digits (List.cons_ne_nil _ _) hdigit hc
    · rw [hzero]
      rfl
  · obtain ⟨hlow, hhigh, hround⟩ := sixDigits_spec (abs_pos.mpr hx)
    obtain ⟨field, hsplit, hnegative, hvalue⟩ :=
      @splitFloat_digitsText _ (sixDigits |x|).1 _ hlow hhigh tail hc
    rw [hround] at hvalue
    rw [numberText, sixSignificant]
    by_cases hneg : x < 0
    · obtain ⟨first, text, htext, hfirst⟩ :=
        digitsText_eq_cons (sixDigits |x|).1 (sixDigits |x|).2
      rw [htext] at hsplit
      obtain ⟨hminus, hopposite⟩ := splitFloat_minus hfirst hsplit hnegative hvalue
      refine ⟨{ field with negative := true }, ?_, ?_⟩
      · rw [if_pos hneg]
        dsimp only
        rw [htext]
        exact hminus
      · rw [hopposite, if_pos hneg]
    · refine ⟨field, ?_, ?_⟩
      · rw [if_neg hneg]
        exact hsplit
      · rw [hvalue, if_neg hneg]

end Reading

/-! ### Whole numbers

For whole numbers there is the definition with whole numbers only, and the two agree. -/

section Whole

/-- A number with zeros behind it. -/
theorem toDigits_mul_pow {n : ℕ} (hn : 0 < n) (k : ℕ) :
    Nat.toDigits 10 (n * 10 ^ k) = Nat.toDigits 10 n ++ List.replicate k '0' := by
  induction k with
  | zero => simp
  | succ k ih =>
      have happend := Nat.toDigits_append_toDigits (b := 10) (d := 0) (by decide)
        (Nat.mul_pos hn (Nat.pow_pos (n := k) (by decide : 0 < 10))) (by decide)
      have hnumber : n * 10 ^ (k + 1) = 10 * (n * 10 ^ k) + 0 := by ring
      rw [hnumber, ← happend, ih, Nat.toDigits_zero, List.append_assoc, List.replicate_succ']

/-- Zeros behind a point are not written, nor is the point. -/
theorem pointed_replicate (whole : List Char) (k : ℕ) :
    pointed whole (List.replicate k '0') = whole := by
  have hnil : (List.replicate k '0').rdropWhile (· = '0') = [] := by
    rw [List.rdropWhile_eq_nil_iff]
    intro c hc
    rw [List.eq_of_mem_replicate hc]
    rfl
  rw [pointed, hnil]
  exact List.append_nil whole

/-- The style with an exponent is the same for whole numbers. -/
theorem scientific_eq (exponent : ℕ) (first : Char) (rest : List Char) :
    scientific exponent (first :: rest) = pointed [first] rest ++ exponentText exponent := by
  have hnonneg : ¬(exponent : ℤ) < 0 := Int.not_lt.mpr (Int.natCast_nonneg _)
  rw [scientific, behindFirst, pointed, exponentText, if_neg hnonneg, Int.natAbs_natCast,
    List.append_assoc]
  rfl

/-- The digits of a number with an exponent that is too large for the other styles. -/
theorem digitsText_natCast {exponent : ℕ} (hexponent : 6 ≤ exponent) {digits : List Char}
    (hdigits : digits ≠ []) : digitsText exponent digits = scientific exponent digits := by
  obtain ⟨first, rest, rfl⟩ := List.exists_cons_of_ne_nil hdigits
  rw [digitsText, if_pos (.inr (by exact_mod_cast hexponent)), scientific_eq]
  rfl

/-- The exponent of a whole number is one less than the number of its digits. -/
theorem log_natCast_ten {n : ℕ} (hn : 0 < n) :
    Int.log 10 (n : ℚ) = ((Nat.toDigits 10 n).length : ℤ) - 1 := by
  have hpos : 0 < (Nat.toDigits 10 n).length := Nat.length_toDigits_pos
  have hlog : Nat.log 10 n = (Nat.toDigits 10 n).length - 1 := by
    rw [Nat.log_eq_iff (.inr ⟨by decide, hn.ne'⟩), Nat.sub_add_cancel hpos]
    refine ⟨?_, lt_pow_length n⟩
    rcases Nat.eq_zero_or_pos ((Nat.toDigits 10 n).length - 1) with hzero | hlong
    · rw [hzero]
      exact hn
    · exact pow_le_of_lt_length hlong (Nat.sub_lt hpos Nat.one_pos)
  rw [Int.log_natCast, hlog, Nat.cast_sub hpos, Nat.cast_one]

/-- A short number is filled up with zeros. -/
theorem sixDigits_of_short {n : ℕ} (hn : 0 < n) (hshort : (Nat.toDigits 10 n).length ≤ 6) :
    sixDigits n =
      (((Nat.toDigits 10 n).length : ℤ) - 1, n * 10 ^ (6 - (Nat.toDigits 10 n).length)) := by
  have hlt := lt_pow_length n
  have hlog := log_natCast_ten hn
  generalize (Nat.toDigits 10 n).length = length at *
  have hquotient : (n : ℚ) / 10 ^ ((length : ℤ) - 1 - 5) = (n * 10 ^ (6 - length) : ℕ) := by
    have hexponent : (length : ℤ) - 1 - 5 = -((6 - length : ℕ) : ℤ) := by omega
    rw [hexponent, zpow_neg, zpow_natCast, div_inv_eq_mul]
    push_cast
    rfl
  have hsmall : n * 10 ^ (6 - length) < 10 ^ 6 := by
    calc n * 10 ^ (6 - length) < 10 ^ length * 10 ^ (6 - length) :=
          Nat.mul_lt_mul_of_pos_right hlt (by positivity)
      _ = 10 ^ 6 := by rw [← pow_add, Nat.add_sub_cancel' hshort]
  rw [sixDigits, hlog]
  simp only [hquotient, roundHalfEven_natCast, Int.toNat_natCast]
  rw [if_neg hsmall.ne]

/-- A long number is rounded to its first six digits. -/
theorem sixDigits_of_long {n : ℕ} (hlong : 6 < (Nat.toDigits 10 n).length) :
    sixDigits n = if mantissa 6 n = 10 ^ 6 then (((Nat.toDigits 10 n).length : ℤ), 10 ^ 5)
      else (((Nat.toDigits 10 n).length : ℤ) - 1, mantissa 6 n) := by
  have hn : 0 < n := by
    refine Nat.pos_of_ne_zero ?_
    rintro rfl
    revert hlong
    decide
  have hexponent : ((Nat.toDigits 10 n).length : ℤ) - 1 - 5 = (dropped 6 n : ℤ) := by
    rw [dropped]
    omega
  rw [sixDigits, log_natCast_ten hn, hexponent, zpow_natCast, sub_add_cancel]
  rfl

/-- **Whole numbers** are written the same way by the two definitions, so what is proved of the
texts of whole numbers holds of these. -/
theorem numberText_natCast (n : ℕ) : numberText n = floatText n := by
  have hnonneg : ¬(n : ℚ) < 0 := not_lt.mpr (Nat.cast_nonneg n)
  rw [numberText, Nat.abs_cast, if_neg hnonneg]
  rcases Nat.eq_zero_or_pos n with rfl | hn
  · rw [Nat.cast_zero, sixDigits_zero]
    decide +kernel
  rcases Nat.lt_or_ge 6 (Nat.toDigits 10 n).length with hlong | hshort
  · have hdropped : dropped 6 n + 6 = (Nat.toDigits 10 n).length := by
      rw [dropped]
      omega
    have hmantissa : 10 ^ 5 ≤ mantissa 6 n := le_mantissa (d := 6) (by decide) (by omega)
    rw [sixDigits_of_long hlong]
    by_cases hcarry : mantissa 6 n = 10 ^ 6
    · -- rounding up takes a seventh digit, a zero
      have hdigits : Nat.toDigits 10 (10 ^ 6) = ['1', '0', '0', '0', '0', '0', '0'] := by decide
      rw [if_pos hcarry, floatText, hcarry, hdigits]
      dsimp only
      have hexponent : dropped 6 n + ['1', '0', '0', '0', '0', '0', '0'].length - 1 =
          (Nat.toDigits 10 n).length := by
        show dropped 6 n + 7 - 1 = _
        omega
      rw [hexponent, if_neg (by omega), digitsText_natCast hlong.le Nat.toDigits_ne_nil]
      show scientific _ ('1' :: List.replicate 5 '0') = scientific _ ('1' :: List.replicate 6 '0')
      rw [scientific_eq, scientific_eq, pointed_replicate, pointed_replicate]
    · have hlength := length_toDigits_six hmantissa
        (lt_of_le_of_ne (mantissa_le 6 n) hcarry)
      have hexponent : dropped 6 n + (Nat.toDigits 10 (mantissa 6 n)).length - 1 =
          (Nat.toDigits 10 n).length - 1 := by omega
      have hcast : ((Nat.toDigits 10 n).length : ℤ) - 1 =
          ((Nat.toDigits 10 n).length - 1 : ℕ) := by omega
      rw [if_neg hcarry, floatText]
      dsimp only
      rw [hexponent, if_neg (by omega), hcast,
        digitsText_natCast (by omega) Nat.toDigits_ne_nil]
      rfl
  · have hdropped : dropped 6 n = 0 := Nat.sub_eq_zero_of_le hshort
    have hpos : 0 < (Nat.toDigits 10 n).length := Nat.length_toDigits_pos
    have htext : floatText n = Nat.toDigits 10 n := by
      rw [floatText, hdropped, mantissa_of_dropped hdropped, if_pos (by omega)]
    rw [htext, sixDigits_of_short hn hshort]
    dsimp only
    rw [toDigits_mul_pow hn]
    have htoNat : (((Nat.toDigits 10 n).length : ℤ) - 1).toNat + 1 =
        (Nat.toDigits 10 n).length := by omega
    rw [digitsText, if_neg (by omega), if_neg (by omega), htoNat, List.take_left', List.drop_left',
      pointed_replicate]
    · rfl
    · rfl
    · rfl

end Whole

end Streams
