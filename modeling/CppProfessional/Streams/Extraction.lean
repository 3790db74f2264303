import Mathlib.Data.Int.Order.Basic
import Mathlib.Data.List.TakeWhile
import Mathlib.Order.Basic

/-!
# Extraction from an input stream

The part of `std::istream` that a parser of command lines uses, in the "C" locale: the
extraction of a word and of an integer, `std::ws` and `std::getline`.  A stream is the
text still to be read and its state flags.  An extraction that does not find what it
looks for sets `failbit`, and every later extraction then leaves its target as it is.

* `IStream.sentry` — what comes before an extraction;
* `IStream.word`, `IStream.int`, `IStream.ws`, `IStream.getline` — the extractions, with
  the old value of the target;
* `Numeral` — the texts that denote an integer;
* `word_ofText`, `int_ofText`, `getline_ws_ofText` — what they read from a text that has
  what they look for.
-/

namespace Streams

/-- `std::isspace` in the "C" locale. -/
def isSpace (c : Char) : Bool :=
  c = ' ' || c = '\t' || c = '\n' || c = '\x0b' || c = '\x0c' || c = '\r'

/-- A signed integer type with the values from `lo` to `hi`. -/
structure Bounded (lo hi : ℤ) where
  val : ℤ
  ge : lo ≤ val
  le : val ≤ hi
  deriving DecidableEq

namespace Bounded

variable {lo hi : ℤ}

/-- A bounded number is known by its value. -/
theorem val_injective : Function.Injective (val : Bounded lo hi → ℤ) := by
  rintro ⟨m, _, _⟩ ⟨n, _, _⟩ h
  obtain rfl : m = n := h
  rfl

instance : LinearOrder (Bounded lo hi) :=
  @LinearOrder.lift' _ _ Int.instLinearOrder val val_injective

/-- The value of the type that is closest to an integer. -/
def clamp (h : lo ≤ hi) (n : ℤ) : Bounded lo hi :=
  if hlo : n < lo then ⟨lo, Int.le_refl lo, h⟩
  else if hhi : hi < n then ⟨hi, h, Int.le_refl hi⟩
  else ⟨n, Int.not_lt.mp hlo, Int.not_lt.mp hhi⟩

theorem clamp_val (h : lo ≤ hi) (n : Bounded lo hi) : clamp h n.val = n := by
  rw [clamp, dif_neg (Int.not_lt.mpr n.ge), dif_neg (Int.not_lt.mpr n.le)]

end Bounded

/-- An input stream. -/
structure IStream where
  rest : List Char
  eof : Bool
  fail : Bool
  deriving DecidableEq, Repr

namespace IStream

/-- A string stream. -/
def ofText (text : List Char) : IStream := ⟨text, false, false⟩

def good (s : IStream) : Bool := !s.eof && !s.fail

/-- The stream when an extraction has stopped before `rest`. -/
def stopAt (s : IStream) (rest : List Char) : IStream :=
  { s with rest := rest, eof := rest.isEmpty }

/-- The sentry of a formatted extraction: whether there is something to extract. -/
def sentry (s : IStream) : Bool × IStream :=
  if s.good then
    match s.rest.dropWhile isSpace with
    | [] => (false, ⟨[], true, true⟩)
    | c :: rest => (true, { s with rest := c :: rest })
  else (false, { s with fail := true })

/-- `is >> str` -/
def word (s : IStream) (old : List Char) : List Char × IStream :=
  match s.sentry with
  | (false, s) => (old, s)
  | (true, s) =>
      (s.rest.takeWhile fun c => !isSpace c, s.stopAt (s.rest.dropWhile fun c => !isSpace c))

/-- The sign of a numeral, and what follows it. -/
def splitSign : List Char → Bool × List Char
  | '-' :: text => (true, text)
  | '+' :: text => (false, text)
  | text => (false, text)

/-- `is >> n` for a signed integer type with the range from `lo` to `hi`: without digits
the target becomes zero, and a number out of range is clamped. -/
def int {lo hi : ℤ} (h : lo ≤ hi) (s : IStream) (old : Bounded lo hi) : Bounded lo hi × IStream :=
  match s.sentry with
  | (false, s) => (old, s)
  | (true, s) =>
      let (negative, text) := splitSign s.rest
      let digits := text.takeWhile Char.isDigit
      let number : ℤ := Nat.ofDigitChars 10 digits 0
      let value := if negative then -number else number
      let s := s.stopAt (text.dropWhile Char.isDigit)
      (Bounded.clamp h value,
        { s with fail := digits.isEmpty || decide (value < lo) || decide (hi < value) })

/-- `is >> std::ws` -/
def ws (s : IStream) : IStream :=
  if s.good then s.stopAt (s.rest.dropWhile isSpace) else { s with fail := true }

/-- `std::getline(is, str)` -/
def getline (s : IStream) (old : List Char) : List Char × IStream :=
  if s.good then
    match s.rest.dropWhile (· ≠ '\n') with
    | [] => (s.rest, ⟨[], true, s.rest.isEmpty⟩)
    | _ :: rest => (s.rest.takeWhile (· ≠ '\n'), { s with rest := rest })
  else (old, { s with fail := true })

end IStream

/-! ### Texts that have what an extraction looks for

An extraction skips white space, takes a token, and leaves the rest in the stream.  For
a text with a token in front of something that is no part of it, each of the three parts
is known. -/

/-- A digit is not white space. -/
theorem isSpace_of_isDigit {c : Char} (h : c.isDigit = true) : isSpace c = false := by
  by_contra hspace
  simp only [isSpace, Bool.not_eq_false, Bool.or_eq_true, decide_eq_true_eq] at hspace
  rcases hspace with ((((rfl | rfl) | rfl) | rfl) | rfl) | rfl <;> cases h

/-- A decimal numeral, with an optional sign, and the integer it denotes. -/
inductive Numeral : List Char → ℤ → Prop
  | plain {digits : List Char} : digits ≠ [] → (∀ c ∈ digits, c.isDigit = true) →
      Numeral digits (Nat.ofDigitChars 10 digits 0)
  | plus {digits : List Char} : digits ≠ [] → (∀ c ∈ digits, c.isDigit = true) →
      Numeral ('+' :: digits) (Nat.ofDigitChars 10 digits 0)
  | minus {digits : List Char} : digits ≠ [] → (∀ c ∈ digits, c.isDigit = true) →
      Numeral ('-' :: digits) (-Nat.ofDigitChars 10 digits 0)

section Reading

variable {p : Char → Bool} {front tail blanks word : List Char} {c : Char}

/-- A token ends where what follows is not part of it. -/
theorem takeWhile_append (hfront : ∀ d ∈ front, p d = true)
    (htail : ∀ d ∈ tail.head?, p d = false) : (front ++ tail).takeWhile p = front := by
  rw [List.takeWhile_append_of_pos hfront]
  cases tail with
  | nil => exact List.append_nil front
  | cons d tail =>
      rw [List.takeWhile_cons_of_neg (by simp [htail d rfl]), List.append_nil]

/-- And the rest is what follows. -/
theorem dropWhile_append (hfront : ∀ d ∈ front, p d = true)
    (htail : ∀ d ∈ tail.head?, p d = false) : (front ++ tail).dropWhile p = tail := by
  rw [List.dropWhile_append_of_pos hfront]
  cases tail with
  | nil => rfl
  | cons d tail => exact List.dropWhile_cons_of_neg (by simp [htail d rfl])

/-- A character that is not part of a token ends it. -/
theorem forall_head?_cons (hc : p c = false) : ∀ d ∈ (c :: tail).head?, p d = false := by
  intro d hd
  obtain rfl : c = d := Option.some.inj hd
  exact hc

theorem takeWhile_stop (hfront : ∀ d ∈ front, p d = true) (hc : p c = false) :
    (front ++ c :: tail).takeWhile p = front :=
  takeWhile_append hfront (forall_head?_cons hc)

theorem dropWhile_stop (hfront : ∀ d ∈ front, p d = true) (hc : p c = false) :
    (front ++ c :: tail).dropWhile p = c :: tail :=
  dropWhile_append hfront (forall_head?_cons hc)

namespace IStream

/-- The sentry skips the blanks. -/
theorem sentry_ofText (hblanks : ∀ d ∈ blanks, isSpace d = true) (hc : isSpace c = false) :
    (ofText (blanks ++ c :: tail)).sentry = (true, ofText (c :: tail)) := by
  show (match (blanks ++ c :: tail).dropWhile isSpace with
    | [] => _
    | c :: rest => _) = _
  rw [dropWhile_stop hblanks hc]
  rfl

/-- **A word between blanks.** -/
theorem word_ofText (old : List Char) (hblanks : ∀ d ∈ blanks, isSpace d = true)
    (hword : ∀ d ∈ word, isSpace d = false) (hne : word ≠ []) (hc : isSpace c = true) :
    (ofText (blanks ++ (word ++ c :: tail))).word old = (word, ofText (c :: tail)) := by
  obtain ⟨d, rest, rfl⟩ := List.exists_cons_of_ne_nil hne
  have hplain : ∀ e ∈ d :: rest, (!isSpace e) = true := fun e he => by simp [hword e he]
  have hstop : (!isSpace c) = false := by simp [hc]
  rw [IStream.word, List.cons_append, sentry_ofText hblanks (hword d List.mem_cons_self)]
  show ((d :: rest ++ c :: tail).takeWhile _,
    (ofText _).stopAt ((d :: rest ++ c :: tail).dropWhile _)) = _
  rw [takeWhile_stop hplain hstop, dropWhile_stop hplain hstop]
  rfl

/-- Digits carry no sign. -/
theorem splitSign_digits {digits : List Char} (hne : digits ≠ [])
    (hdigits : ∀ d ∈ digits, d.isDigit = true) (tail : List Char) :
    splitSign (digits ++ tail) = (false, digits ++ tail) := by
  obtain ⟨d, rest, rfl⟩ := List.exists_cons_of_ne_nil hne
  have hd := hdigits d List.mem_cons_self
  rw [List.cons_append]
  unfold splitSign
  split
  · next heq =>
      rw [(List.cons.inj heq).1] at hd
      cases hd
  · next heq =>
      rw [(List.cons.inj heq).1] at hd
      cases hd
  · rfl

/-- Digits, after a sign or without one. -/
theorem int_of_splitSign {lo hi : ℤ} (h : lo ≤ hi) (old : Bounded lo hi) {s : IStream}
    {text digits : List Char} {negative : Bool} {n : Bounded lo hi}
    (hs : s.sentry = (true, ofText text))
    (hsign : splitSign text = (negative, digits ++ tail)) (hne : digits ≠ [])
    (hdigits : ∀ d ∈ digits, d.isDigit = true) (htail : ∀ d ∈ tail.head?, d.isDigit = false)
    (hvalue : (if negative then -Nat.ofDigitChars 10 digits 0
      else Nat.ofDigitChars 10 digits 0 : ℤ) = n.val) :
    s.int h old = (n, (ofText tail).stopAt tail) := by
  have hfits : (digits.isEmpty || decide (n.val < lo) || decide (hi < n.val)) = false := by
    simp [hne, n.ge, n.le]
  unfold IStream.int
  simp only [hs, ofText, hsign, takeWhile_append hdigits htail, dropWhile_append hdigits htail,
    hvalue, hfits, Bounded.clamp_val]
  rfl

/-- **A numeral after blanks.**  What follows it does not begin with a digit. -/
theorem int_append {lo hi : ℤ} (h : lo ≤ hi) (old n : Bounded lo hi) {text : List Char}
    (hblanks : ∀ d ∈ blanks, isSpace d = true) (htext : Numeral text n.val)
    (htail : ∀ d ∈ tail.head?, d.isDigit = false) :
    (ofText (blanks ++ (text ++ tail))).int h old = (n, (ofText tail).stopAt tail) := by
  generalize hn : n.val = value at htext
  cases htext with
  | @plain digits hne hdigits =>
      obtain ⟨d, rest, rfl⟩ := List.exists_cons_of_ne_nil hne
      exact int_of_splitSign h old
        (sentry_ofText hblanks (isSpace_of_isDigit (hdigits d List.mem_cons_self)))
        (splitSign_digits hne hdigits tail) hne hdigits htail hn.symm
  | @plus digits hne hdigits =>
      have hsign : splitSign ('+' :: (digits ++ tail)) = (false, digits ++ tail) := rfl
      exact int_of_splitSign h old (sentry_ofText hblanks (by decide)) hsign hne hdigits htail
        hn.symm
  | @minus digits hne hdigits =>
      have hsign : splitSign ('-' :: (digits ++ tail)) = (true, digits ++ tail) := rfl
      exact int_of_splitSign h old (sentry_ofText hblanks (by decide)) hsign hne hdigits htail
        hn.symm

/-- **A numeral between blanks.** -/
theorem int_ofText {lo hi : ℤ} (h : lo ≤ hi) (old n : Bounded lo hi) {text : List Char}
    (hblanks : ∀ d ∈ blanks, isSpace d = true) (htext : Numeral text n.val)
    (hc : c.isDigit = false) :
    (ofText (blanks ++ (text ++ c :: tail))).int h old = (n, ofText (c :: tail)) :=
  int_append h old n hblanks htext (forall_head?_cons hc)

/-- **The rest of a line.** -/
theorem getline_ws_ofText (old : List Char) {line : List Char}
    (hblanks : ∀ d ∈ blanks, isSpace d = true) (hc : isSpace c = false)
    (hline : '\n' ∉ c :: line) :
    (ofText (blanks ++ (c :: line ++ '\n' :: tail))).ws.getline old = (c :: line, ofText tail) := by
  have hws : (ofText (blanks ++ (c :: line ++ '\n' :: tail))).ws =
      ofText (c :: line ++ '\n' :: tail) := by
    show (ofText _).stopAt ((blanks ++ (c :: line ++ '\n' :: tail)).dropWhile isSpace) = _
    rw [List.cons_append, dropWhile_stop hblanks hc]
    rfl
  have hplain : ∀ d ∈ c :: line, decide (d ≠ '\n') = true :=
    fun d hd => decide_eq_true fun heq => hline (heq ▸ hd)
  have hstop : decide ('\n' ≠ '\n') = false := by decide
  rw [hws]
  unfold getline
  simp only [ofText, good, dropWhile_stop hplain hstop, takeWhile_stop hplain hstop]
  rfl

/-- A line that is read has no newline in it. -/
theorem getline_newline (s : IStream) {old : List Char} (h : '\n' ∉ old) :
    '\n' ∉ (s.getline old).1 := by
  unfold getline
  split
  · split
    · next hall =>
        intro hmem
        exact of_decide_eq_true (List.dropWhile_eq_nil_iff.mp hall '\n' hmem) rfl
    · intro (hmem : '\n' ∈ s.rest.takeWhile fun c => decide (c ≠ '\n'))
      have hplain := List.mem_takeWhile_imp hmem
      exact of_decide_eq_true hplain rfl
  · exact h

end IStream

end Reading

end Streams
