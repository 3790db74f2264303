import CppProfessional.Numbers.Decimals
import CppProfessional.Numbers.Formats
import CppProfessional.Streams.Extraction
import Mathlib.Data.List.DropRight

/-!
# Numbers in streams

What `std::ostream` writes for a floating point number with its default settings, where the
number is whole, and what `std::istream` reads for a floating point and for an unsigned
number, in the "C" locale.

* `floatText` — six significant digits, with an exponent when there are more in front of
  the point; `setw` pads it;
* `IStream.floating`, with `IStream.double`, and `IStream.unsigned` — the extractions; a
  floating point number is a rational number, and `none` is the value that is no number;
* `floating_floatText`, `unsigned_toDigits` — what is read of what was written.
-/

namespace Streams

open Numbers

/-! ### Writing -/

/-- `std::setw(n)` in front of a text. -/
def setw (n : ℕ) (text : List Char) : List Char := text.leftpad n ' '

/-- What is behind the first digit in the style with an exponent. -/
def behindFirst (frac exponent : List Char) : List Char :=
  (if frac = [] then [] else '.' :: frac) ++ 'e' :: '+' :: exponent

/-- The style with an exponent, for the digits of a mantissa: zeros at the end go, and the
exponent has two digits. -/
def scientific (exponent : ℕ) : List Char → List Char
  | [] => []
  | first :: rest =>
      first :: behindFirst (rest.rdropWhile (· = '0')) ((Nat.toDigits 10 exponent).leftpad 2 '0')

/-- `os << x` for a whole number that is not negative. -/
def floatText (n : ℕ) : List Char :=
  let digits := Nat.toDigits 10 (mantissa 6 n)
  let exponent := dropped 6 n + digits.length - 1
  if exponent < 6 then Nat.toDigits 10 n else scientific exponent digits

/-! ### Reading

`std::num_get` collects the characters that can be part of a number and converts them.
Which characters it takes does not depend on the value. -/

/-- The characters of a number: its sign, the digits in front of the point and behind it,
and the exponent with its sign. -/
structure FloatField where
  negative : Bool
  whole : List Char
  frac : List Char
  exponent : Option (Bool × List Char)
  deriving DecidableEq, Repr

/-- The digits behind a point, and what follows them. -/
def splitFrac : List Char → List Char × List Char
  | '.' :: text => (text.takeWhile Char.isDigit, text.dropWhile Char.isDigit)
  | text => ([], text)

/-- The exponent, and what follows it. -/
def splitExponent : List Char → Option (Bool × List Char) × List Char
  | [] => (none, [])
  | c :: text =>
      if c = 'e' ∨ c = 'E' then
        let (negative, text) := IStream.splitSign text
        (some (negative, text.takeWhile Char.isDigit), text.dropWhile Char.isDigit)
      else (none, c :: text)

/-- The characters of a number at the front of a text, and what follows them; without a
digit there is no exponent. -/
def splitFloat (text : List Char) : FloatField × List Char :=
  let (negative, text) := IStream.splitSign text
  let whole := text.takeWhile Char.isDigit
  let (frac, text) := splitFrac (text.dropWhile Char.isDigit)
  if whole ++ frac = [] then (⟨negative, whole, frac, none⟩, text)
  else
    let (exponent, text) := splitExponent text
    (⟨negative, whole, frac, exponent⟩, text)

namespace FloatField

/-- The exponent, where it has digits or there is none. -/
def exponentValue (field : FloatField) : Option ℤ :=
  match field.exponent with
  | none => some 0
  | some (negative, digits) =>
      if digits = [] then none
      else
        let number : ℤ := Nat.ofDigitChars 10 digits 0
        some (if negative then -number else number)

/-- The number that the characters denote. -/
def value (field : FloatField) : Option ℚ :=
  if field.whole ++ field.frac = [] then none
  else
    field.exponentValue.map fun exponent : ℤ =>
      let number : ℚ := Nat.ofDigitChars 10 (field.whole ++ field.frac) 0
      (if field.negative then -number else number) * 10 ^ (exponent - field.frac.length)

end FloatField

namespace IStream

/-- `is >> x` for a number of a binary format. -/
def floating (fmt : BinaryFormat) (s : IStream) (old : Option ℚ) : Option ℚ × IStream :=
  match s.sentry with
  | (false, s) => (old, s)
  | (true, s) =>
      let (field, rest) := splitFloat s.rest
      let s := s.stopAt rest
      match field.value with
      | none => (some 0, { s with fail := true })
      | some x =>
          if |fmt.nearest x| ≤ fmt.largest then (some (fmt.nearest x), s)
          else (some (if x < 0 then -fmt.largest else fmt.largest), { s with fail := true })

/-- `is >> x` for a double. -/
def double (s : IStream) (old : Option ℚ) : Option ℚ × IStream := s.floating binary64 old

/-- `is >> n` for an unsigned integer type with the largest value `max`: a number that is
too large is replaced by it, and a minus sign is taken modulo `max + 1`. -/
def unsigned (max : ℕ) (s : IStream) (old : ℕ) : ℕ × IStream :=
  match s.sentry with
  | (false, s) => (old, s)
  | (true, s) =>
      let (negative, text) := splitSign s.rest
      let digits := text.takeWhile Char.isDigit
      let number := Nat.ofDigitChars 10 digits 0
      let value :=
        if max < number then max else if negative then (max + 1 - number) % (max + 1) else number
      let s := s.stopAt (text.dropWhile Char.isDigit)
      (value, { s with fail := digits.isEmpty || decide (max < number) })

end IStream

/-! ### What is read of what was written

A text that was written consists of digits, a point and an exponent in known places, so
each part of the extraction takes just one of them. -/

theorem isDigit_toDigits {n : ℕ} : ∀ c ∈ Nat.toDigits 10 n, c.isDigit = true := fun _ hc =>
  Nat.isDigit_of_mem_toDigits (by decide) (by decide) hc

/-- A numeral has a first digit. -/
theorem toDigits_eq_cons (n : ℕ) : ∃ first rest, Nat.toDigits 10 n = first :: rest ∧
    first.isDigit = true ∧ ∀ c ∈ rest, c.isDigit = true := by
  obtain ⟨first, rest, hdigits⟩ :=
    List.exists_cons_of_ne_nil (Nat.toDigits_ne_nil (n := n) (b := 10))
  have hdigit : ∀ c ∈ first :: rest, c.isDigit = true := hdigits ▸ isDigit_toDigits
  rw [List.forall_mem_cons] at hdigit
  exact ⟨first, rest, hdigits, hdigit⟩

/-- Also with zeros in front. -/
theorem isDigit_leftpad {k n : ℕ} :
    ∀ c ∈ (Nat.toDigits 10 n).leftpad k '0', c.isDigit = true := by
  intro c hc
  rcases List.mem_append.mp hc with hzero | hdigit
  · rw [List.eq_of_mem_replicate hzero]
    rfl
  · exact isDigit_toDigits c hdigit

/-- White space is not a digit. -/
theorem not_isDigit_of_isSpace {c : Char} (hc : isSpace c = true) : c.isDigit = false := by
  by_contra hdigit
  rw [isSpace_of_isDigit (Bool.not_eq_false _ ▸ hdigit)] at hc
  cases hc

section Fields

variable {whole frac exponent tail : List Char} {c first : Char}

/-- Digits and what follows them. -/
theorem splitFloat_append {rest : List Char} (hne : whole ≠ [])
    (hwhole : ∀ d ∈ whole, d.isDigit = true) (hrest : ∀ d ∈ rest.head?, d.isDigit = false) :
    splitFloat (whole ++ rest) =
      (⟨false, whole, (splitFrac rest).1, (splitExponent (splitFrac rest).2).1⟩,
        (splitExponent (splitFrac rest).2).2) := by
  have happend (frac : List Char) : ¬whole ++ frac = [] := by simp [hne]
  rw [splitFloat, IStream.splitSign_digits hne hwhole]
  simp only [takeWhile_append hwhole hrest, dropWhile_append hwhole hrest, happend, if_false]

/-- Digits that are followed by a blank. -/
theorem splitFloat_digits (hne : whole ≠ []) (hwhole : ∀ d ∈ whole, d.isDigit = true)
    (hc : isSpace c = true) :
    splitFloat (whole ++ c :: tail) = (⟨false, whole, [], none⟩, c :: tail) := by
  have hfrac : splitFrac (c :: tail) = ([], c :: tail) := by
    unfold splitFrac
    split
    · next heq =>
        rw [(List.cons.inj heq).1] at hc
        cases hc
    · rfl
  have hexponent : splitExponent (c :: tail) = (none, c :: tail) := by
    have hnot : ¬(c = 'e' ∨ c = 'E') := by
      rintro (rfl | rfl) <;> cases hc
    exact if_neg hnot
  rw [splitFloat_append hne hwhole (forall_head?_cons (not_isDigit_of_isSpace hc)), hfrac,
    hexponent]

/-- The fraction that is printed is read back, and the exponent is left. -/
theorem splitFrac_behindFirst (hfrac : ∀ d ∈ frac, d.isDigit = true) :
    splitFrac (behindFirst frac exponent) = (frac, 'e' :: '+' :: exponent) := by
  by_cases hnil : frac = []
  · rw [behindFirst, if_pos hnil, hnil]
    rfl
  · rw [behindFirst, if_neg hnil]
    show ((frac ++ 'e' :: '+' :: exponent).takeWhile _, (frac ++ _ :: _).dropWhile _) = _
    rw [takeWhile_stop hfrac (by decide), dropWhile_stop hfrac (by decide)]

/-- What follows the first digit is not a digit, so the whole part ends there. -/
theorem head?_behindFirst (frac exponent : List Char) :
    ∀ d ∈ (behindFirst frac exponent).head?, d.isDigit = false := by
  rw [behindFirst]
  split
  · exact forall_head?_cons (by decide)
  · exact forall_head?_cons (by decide)

/-- Text after a number comes after its exponent. -/
theorem behindFirst_append (frac exponent tail : List Char) :
    behindFirst frac exponent ++ tail = behindFirst frac (exponent ++ tail) := by
  rw [behindFirst, behindFirst, List.append_assoc]
  rfl

/-- A number with an exponent. -/
theorem splitFloat_scientific (hfirst : first.isDigit = true)
    (hfrac : ∀ d ∈ frac, d.isDigit = true) (hexponent : ∀ d ∈ exponent, d.isDigit = true)
    (hc : isSpace c = true) :
    splitFloat (first :: behindFirst frac (exponent ++ c :: tail)) =
      (⟨false, [first], frac, some (false, exponent)⟩, c :: tail) := by
  have hwhole : ∀ d ∈ [first], d.isDigit = true := by
    intro d hd
    rw [List.mem_singleton.mp hd]
    exact hfirst
  have hexp : splitExponent ('e' :: '+' :: (exponent ++ c :: tail)) =
      (some (false, exponent), c :: tail) := by
    show (some (false, (exponent ++ c :: tail).takeWhile _), (exponent ++ _ :: _).dropWhile _) = _
    rw [takeWhile_stop hexponent (not_isDigit_of_isSpace hc),
      dropWhile_stop hexponent (not_isDigit_of_isSpace hc)]
  show splitFloat ([first] ++ behindFirst frac (exponent ++ c :: tail)) = _
  rw [splitFloat_append (List.cons_ne_nil _ _) hwhole (head?_behindFirst _ _),
    splitFrac_behindFirst hfrac, hexp]

end Fields

/-! ### The number that is read

Two texts denote one number: the one with an exponent leaves zeros out, and the exponent
makes up for them. -/

/-- The digits of a mantissa without the zeros at its end. -/
theorem eq_append_replicate (digits : List Char) :
    ∃ zeros, digits = digits.rdropWhile (· = '0') ++ List.replicate zeros '0' := by
  refine ⟨(digits.rtakeWhile (· = '0')).length, ?_⟩
  have hzeros : digits.rtakeWhile (· = '0') =
      List.replicate (digits.rtakeWhile (· = '0')).length '0' := by
    refine List.eq_replicate_of_mem fun c hc => ?_
    simpa using List.mem_rtakeWhile_imp hc
  rw [← hzeros, List.rdropWhile_append_rtakeWhile]

/-- Zeros in front do not change the number. -/
theorem ofDigitChars_leftpad (k n : ℕ) :
    Nat.ofDigitChars 10 ((Nat.toDigits 10 n).leftpad k '0') 0 = n := by
  rw [List.leftpad, Nat.ofDigitChars_append, Nat.ofDigitChars_replicate_zero, Nat.mul_zero,
    Nat.ofDigitChars_ten_toDigits]

/-- The two digits of an exponent are read back as the exponent. -/
theorem exponentValue_leftpad (whole frac : List Char) (exponent : ℕ) :
    (FloatField.mk false whole frac
      (some (false, (Nat.toDigits 10 exponent).leftpad 2 '0'))).exponentValue =
      some (exponent : ℤ) := by
  have hne : ¬(Nat.toDigits 10 exponent).leftpad 2 '0' = [] := by
    rw [List.leftpad, List.append_eq_nil_iff, not_and]
    exact fun _ => Nat.toDigits_ne_nil
  simp only [FloatField.exponentValue, if_neg hne, ofDigitChars_leftpad, Bool.false_eq_true,
    if_false]

/-- **The style with an exponent** denotes the digits with zeros behind them.  The zeros at the
end of the fraction are not written, and the exponent makes up for them. -/
theorem value_scientific {first : Char} {rest : List Char} {exponent k : ℕ}
    (hexponent : exponent = k + rest.length) :
    (FloatField.mk false [first] (rest.rdropWhile (· = '0'))
      (some (false, (Nat.toDigits 10 exponent).leftpad 2 '0'))).value =
      some ((Nat.ofDigitChars 10 (first :: rest) 0 * 10 ^ k : ℕ) : ℚ) := by
  obtain ⟨zeros, hrest⟩ := eq_append_replicate rest
  generalize rest.rdropWhile (· = '0') = frac at hrest ⊢
  subst hrest
  have hnumber : Nat.ofDigitChars 10 (first :: (frac ++ List.replicate zeros '0')) 0 =
      10 ^ zeros * Nat.ofDigitChars 10 ([first] ++ frac) 0 := by
    rw [← Nat.ofDigitChars_replicate_zero, ← Nat.ofDigitChars_append]
    rfl
  have hpower : (exponent : ℤ) - frac.length = (k + zeros : ℕ) := by
    rw [hexponent, List.length_append, List.length_replicate]
    push_cast
    ring
  simp only [FloatField.value, exponentValue_leftpad, List.append_eq_nil_iff, List.cons_ne_nil,
    false_and, if_false, Option.map_some, Bool.false_eq_true, hpower, hnumber, zpow_natCast]
  congr 1
  push_cast
  ring

/-- Digits alone denote their number. -/
theorem value_digits {digits : List Char} (hne : digits ≠ []) :
    (FloatField.mk false digits [] none).value =
      some ((Nat.ofDigitChars 10 digits 0 : ℕ) : ℚ) := by
  simp [FloatField.value, FloatField.exponentValue, hne]

/-- **The two styles.**  Without an exponent nothing is rounded; with one there is a first
digit, a fraction without zeros at its end, and an exponent of two digits or more. -/
theorem floatText_cases (n : ℕ) :
    floatText n = Nat.toDigits 10 n ∧ rounded 6 n = n ∨
      ∃ first rest, Nat.toDigits 10 (mantissa 6 n) = first :: rest ∧ first.isDigit = true ∧
        (∀ c ∈ rest.rdropWhile (· = '0'), c.isDigit = true) ∧
        floatText n = first :: behindFirst (rest.rdropWhile (· = '0'))
          ((Nat.toDigits 10 (dropped 6 n + rest.length)).leftpad 2 '0') := by
  obtain ⟨first, rest, hdigits, hfirst, hrest⟩ := toDigits_eq_cons (mantissa 6 n)
  have hexponent : dropped 6 n + (rest.length + 1) - 1 = dropped 6 n + rest.length := by omega
  rw [floatText]
  simp only [hdigits, List.length_cons, hexponent]
  by_cases hsmall : dropped 6 n + rest.length < 6
  · left
    have hdropped : dropped 6 n = 0 := by
      by_contra hne
      have hlong : ¬(Nat.toDigits 10 (mantissa 6 n)).length ≤ 5 := by
        rw [Nat.length_toDigits_le_iff (by decide) (by decide)]
        exact Nat.not_lt.mpr (le_mantissa (by decide) hne)
      rw [hdigits, List.length_cons] at hlong
      omega
    rw [if_pos hsmall, rounded, mantissa_of_dropped hdropped, hdropped, pow_zero, mul_one]
    exact ⟨rfl, rfl⟩
  · right
    rw [if_neg hsmall]
    refine ⟨first, rest, rfl, hfirst, fun c hc => ?_, rfl⟩
    exact hrest c ((List.rdropWhile_prefix _ rest).subset hc)

/-- **What is written** of a whole number are the characters of the number rounded to six
digits. -/
theorem splitFloat_floatText (n : ℕ) {c : Char} (tail : List Char) (hc : isSpace c = true) :
    ∃ field, splitFloat (floatText n ++ c :: tail) = (field, c :: tail) ∧
      field.value = some (rounded 6 n : ℚ) := by
  rcases floatText_cases n with ⟨htext, hrounded⟩ | ⟨first, rest, hdigits, hfirst, hfrac, htext⟩
  · refine ⟨⟨false, Nat.toDigits 10 n, [], none⟩, ?_, ?_⟩
    · rw [htext]
      exact splitFloat_digits Nat.toDigits_ne_nil isDigit_toDigits hc
    · rw [value_digits Nat.toDigits_ne_nil, Nat.ofDigitChars_ten_toDigits, hrounded]
  · refine ⟨⟨false, [first], rest.rdropWhile (· = '0'), some (false,
      (Nat.toDigits 10 (dropped 6 n + rest.length)).leftpad 2 '0')⟩, ?_, ?_⟩
    · rw [htext, List.cons_append, behindFirst_append]
      exact splitFloat_scientific hfirst hfrac isDigit_leftpad hc
    · rw [value_scientific rfl, ← hdigits, Nat.ofDigitChars_ten_toDigits]
      rfl

/-- There is no white space in a number. -/
theorem isSpace_of_mem_behindFirst {frac exponent : List Char} {c : Char}
    (hfrac : ∀ d ∈ frac, d.isDigit = true) (hexponent : ∀ d ∈ exponent, d.isDigit = true)
    (hc : c ∈ behindFirst frac exponent) : isSpace c = false := by
  have hpoint : c ∈ '.' :: frac → isSpace c = false := by
    intro hmem
    rcases List.mem_cons.mp hmem with rfl | hmem
    · rfl
    · exact isSpace_of_isDigit (hfrac c hmem)
  rcases List.mem_append.mp hc with hmem | hmem
  · split at hmem
    · cases hmem
    · exact hpoint hmem
  · rw [List.mem_cons, List.mem_cons] at hmem
    rcases hmem with rfl | rfl | hmem
    · rfl
    · rfl
    · exact isSpace_of_isDigit (hexponent c hmem)

/-- There is no blank in a number. -/
theorem isSpace_of_mem_floatText {n : ℕ} {c : Char} (hc : c ∈ floatText n) :
    isSpace c = false := by
  rcases floatText_cases n with ⟨htext, -⟩ | ⟨first, rest, -, hfirst, hfrac, htext⟩
  · rw [htext] at hc
    exact isSpace_of_isDigit (isDigit_toDigits c hc)
  · rw [htext] at hc
    rcases List.mem_cons.mp hc with rfl | hc
    · exact isSpace_of_isDigit hfirst
    · exact isSpace_of_mem_behindFirst hfrac isDigit_leftpad hc

/-- Every number is printed as something. -/
theorem floatText_ne_nil (n : ℕ) : floatText n ≠ [] := by
  rcases floatText_cases n with ⟨htext, -⟩ | ⟨first, rest, -, -, -, htext⟩
  · rw [htext]
    exact Nat.toDigits_ne_nil
  · rw [htext]
    exact List.cons_ne_nil _ _

namespace IStream

/-- **A number between blanks**, when its first six digits are not too many for the format. -/
theorem floating_floatText {fmt : BinaryFormat} {n : ℕ} (hn : rounded 6 n < 2 ^ fmt.digits)
    (old : Option ℚ) {blanks : List Char} {c : Char} (tail : List Char)
    (hblanks : ∀ d ∈ blanks, isSpace d = true) (hc : isSpace c = true) :
    (ofText (blanks ++ (floatText n ++ c :: tail))).floating fmt old =
      (some (rounded 6 n : ℚ), ofText (c :: tail)) := by
  obtain ⟨field, hsplit, hvalue⟩ := splitFloat_floatText n tail hc
  obtain ⟨first, rest, htext⟩ := List.exists_cons_of_ne_nil (floatText_ne_nil n)
  have hfirst : isSpace first = false :=
    isSpace_of_mem_floatText (htext ▸ List.mem_cons_self : first ∈ floatText n)
  rw [htext, List.cons_append] at hsplit ⊢
  rw [floating, sentry_ofText hblanks hfirst]
  simp only [ofText, hsplit, hvalue, BinaryFormat.nearest_natCast hn,
    if_pos (BinaryFormat.natCast_le_largest hn)]
  rfl

/-- **A double between blanks** is read as the number rounded to six digits. -/
theorem double_floatText {n : ℕ} (hn : n < 2 ^ 52) (old : Option ℚ) {blanks : List Char} {c : Char}
    (tail : List Char) (hblanks : ∀ d ∈ blanks, isSpace d = true) (hc : isSpace c = true) :
    (ofText (blanks ++ (floatText n ++ c :: tail))).double old =
      (some (rounded 6 n : ℚ), ofText (c :: tail)) := by
  have hsmall : rounded 6 n < 2 ^ binary64.digits := by
    have hle := rounded_le (d := 6) (by decide) n
    show rounded 6 n < 2 ^ 53
    omega
  exact floating_floatText hsmall old tail hblanks hc

/-- **An unsigned number** at the end of a line; one that is too large is not accepted, and the
largest one is stored in its place. -/
theorem unsigned_toDigits (max n old : ℕ) {blanks : List Char}
    (hblanks : ∀ d ∈ blanks, isSpace d = true) :
    (ofText (blanks ++ Nat.toDigits 10 n)).unsigned max old =
      (if max < n then max else n, ⟨[], true, decide (max < n)⟩) := by
  obtain ⟨first, rest, hdigits, hfirst, -⟩ := toDigits_eq_cons n
  have hsign := splitSign_digits (Nat.toDigits_ne_nil (n := n) (b := 10)) isDigit_toDigits []
  have htake : (Nat.toDigits 10 n).takeWhile Char.isDigit = Nat.toDigits 10 n :=
    List.takeWhile_eq_self_iff.mpr isDigit_toDigits
  have hdrop : (Nat.toDigits 10 n).dropWhile Char.isDigit = [] :=
    List.dropWhile_eq_nil_iff.mpr isDigit_toDigits
  have hsentry : (ofText (blanks ++ Nat.toDigits 10 n)).sentry =
      (true, ofText (Nat.toDigits 10 n)) := by
    rw [hdigits]
    exact sentry_ofText hblanks (isSpace_of_isDigit hfirst)
  have hempty : (Nat.toDigits 10 n).isEmpty = false := by
    rw [hdigits]
    rfl
  rw [List.append_nil] at hsign
  rw [unsigned, hsentry]
  simp only [ofText, hsign, htake, hdrop, Nat.ofDigitChars_ten_toDigits, hempty, Bool.false_or,
    Bool.false_eq_true, if_false]
  rfl

end IStream

end Streams
