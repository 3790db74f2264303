import Mathlib.Data.List.Basic
import Mathlib.Logic.Function.Iterate

/-!
# Cyclic redundancy checks

A remainder of any width is divided bit by bit, low bits first.  A shift is linear in
exclusive or, and it loses nothing if the polynomial has its highest bit; so as many bits as
the remainder is wide are determined by the remainders before and behind them.

* `crcShift` — one bit;
* `crcBytes` — the bytes of a message;
* `word` — some bytes as one word, `crcBytes_eq_iterate` — which is divided like one;
* `crcBytes_inj` — the bytes of a window no wider than the remainder are determined by the
  remainder of the whole message and the bytes around it.
-/

namespace Numbers

variable {w : ℕ} {polynomial : BitVec w}

/-- One bit of the remainder. -/
def crcShift (polynomial remainder : BitVec w) : BitVec w :=
  if remainder.getLsbD 0 then remainder >>> 1 ^^^ polynomial else remainder >>> 1

/-- One byte of a message. -/
def crcByte (polynomial remainder : BitVec w) (byte : BitVec 8) : BitVec w :=
  (crcShift polynomial)^[8] (remainder ^^^ byte.setWidth w)

/-- The bytes of a message. -/
def crcBytes (polynomial remainder : BitVec w) (bytes : List (BitVec 8)) : BitVec w :=
  bytes.foldl (crcByte polynomial) remainder

/-! ### Shifts

The shift is linear, and it is injective if the polynomial has its highest bit.  Every
further property of the division is drawn from these two. -/

theorem xor_xor_xor_cancel (x y p : BitVec w) : (x ^^^ p) ^^^ (y ^^^ p) = x ^^^ y := by
  rw [BitVec.xor_comm y p, ← BitVec.xor_assoc, BitVec.xor_assoc x p p, BitVec.xor_self,
    BitVec.xor_zero]

/-- One bit of the register is linear. -/
theorem crcShift_xor (x y : BitVec w) :
    crcShift polynomial (x ^^^ y) = crcShift polynomial x ^^^ crcShift polynomial y := by
  unfold crcShift
  rw [BitVec.getLsbD_xor, BitVec.ushiftRight_xor_distrib]
  cases x.getLsbD 0 <;> cases y.getLsbD 0
  · rfl
  · exact BitVec.xor_assoc ..
  · show (x >>> 1 ^^^ y >>> 1) ^^^ polynomial = (x >>> 1 ^^^ polynomial) ^^^ y >>> 1
    rw [BitVec.xor_assoc, BitVec.xor_comm (y >>> 1), ← BitVec.xor_assoc]
  · exact (xor_xor_xor_cancel ..).symm

/-- So are any number of bits. -/
theorem iterate_crcShift_xor (k : ℕ) (x y : BitVec w) :
    (crcShift polynomial)^[k] (x ^^^ y) =
      (crcShift polynomial)^[k] x ^^^ (crcShift polynomial)^[k] y := by
  induction k generalizing x y with
  | zero => rfl
  | succ k ih => rw [Function.iterate_succ_apply, Function.iterate_succ_apply,
      Function.iterate_succ_apply, crcShift_xor, ih]

/-- A shift loses nothing: the highest bit tells whether a one has fallen out. -/
theorem eq_zero_of_crcShift (hpolynomial : polynomial.msb = true) {x : BitVec w}
    (h : crcShift polynomial x = 0#w) : x = 0#w := by
  have hlow : x.getLsbD 0 = false := by
    by_contra htrue
    rw [crcShift, if_pos (by simpa using htrue)] at h
    have hhigh := congrArg (·.getLsbD (w - 1)) h
    rw [BitVec.msb_eq_getLsbD_last] at hpolynomial
    have hout : x.getLsbD (1 + (w - 1)) = false := BitVec.getLsbD_of_ge x _ (by omega)
    simp [hpolynomial, hout] at hhigh
  rw [crcShift, hlow, if_neg Bool.false_ne_true] at h
  refine BitVec.eq_of_getLsbD_eq fun i _ => ?_
  cases i with
  | zero => rw [hlow, BitVec.getLsbD_zero]
  | succ i =>
      have hbit := congrArg (·.getLsbD i) h
      simpa [Nat.add_comm 1 i] using hbit

/-- No two registers are taken to the same one: the top bit of the polynomial tells which of
them had the bit that was shifted out. -/
theorem crcShift_injective (hpolynomial : polynomial.msb = true) :
    Function.Injective (crcShift polynomial) := by
  intro x y h
  have hzero : crcShift polynomial (x ^^^ y) = 0#w := by rw [crcShift_xor, h, BitVec.xor_self]
  exact BitVec.xor_eq_zero_iff.mp (eq_zero_of_crcShift hpolynomial hzero)

/-! ### Words

As long as a message is no wider than the register it is one word, and dividing it is a
number of shifts of this word. -/

/-- A shift undoes the multiplication by two as long as nothing has left the word. -/
theorem crcShift_shiftLeft_one {x : BitVec w} (h : x.msb = false) :
    crcShift polynomial (x <<< 1) = x := by
  have hlow : (x <<< 1).getLsbD 0 = false := by simp
  rw [crcShift, hlow, if_neg Bool.false_ne_true]
  refine BitVec.eq_of_getLsbD_eq fun i hi => ?_
  rw [BitVec.getLsbD_ushiftRight, BitVec.getLsbD_shiftLeft]
  rcases Nat.lt_or_ge (1 + i) w with hinside | hout
  · simp [hinside]
  · have hlast : i = w - 1 := by omega
    rw [BitVec.msb_eq_getLsbD_last, ← hlast] at h
    simp [h]

/-- Zero bits at the low end are shifted out without the polynomial. -/
theorem iterate_crcShift_shiftLeft (k : ℕ) {x : BitVec w}
    (h : ∀ i, w ≤ i + k → x.getLsbD i = false) :
    (crcShift polynomial)^[k] (x <<< k) = x := by
  induction k generalizing x with
  | zero => exact BitVec.shiftLeft_zero x
  | succ k ih =>
      have hmsb : (x <<< k).msb = false := by
        rw [BitVec.msb_eq_getLsbD_last, BitVec.getLsbD_shiftLeft]
        rcases Nat.lt_or_ge (w - 1) k with hlt | hge
        · simp [hlt]
        · rw [h (w - 1 - k) (by omega), Bool.and_false]
      rw [Function.iterate_succ_apply, BitVec.shiftLeft_add, crcShift_shiftLeft_one hmsb]
      exact ih fun i hi => h i (by omega)

/-- Some bytes as one word, the first byte lowest. -/
def word (w : ℕ) : List (BitVec 8) → BitVec w
  | [] => 0#w
  | byte :: bytes => byte.setWidth w ^^^ word w bytes <<< 8

/-- A word has no bits beyond its bytes. -/
theorem getLsbD_word_of_ge {bytes : List (BitVec 8)} {i : ℕ} (h : 8 * bytes.length ≤ i) :
    (word w bytes).getLsbD i = false := by
  induction bytes generalizing i with
  | nil => exact BitVec.getLsbD_zero
  | cons byte bytes ih =>
      rw [List.length_cons] at h
      have hbyte : byte.getLsbD i = false := BitVec.getLsbD_of_ge byte i (by omega)
      have hrest : (word w bytes).getLsbD (i - 8) = false := ih (by omega)
      simp [word, hbyte, hrest]

/-- Bytes that fit into a register can be read back from it, each from the eight bits of its
place. -/
theorem word_injective {bytes bytes' : List (BitVec 8)} (hlength : bytes.length = bytes'.length)
    (hwidth : 8 * bytes.length ≤ w) (h : word w bytes = word w bytes') : bytes = bytes' := by
  induction bytes generalizing bytes' with
  | nil => exact (List.length_eq_zero_iff.mp hlength.symm).symm
  | cons byte bytes ih =>
      obtain ⟨byte', bytes', rfl⟩ := List.exists_cons_of_length_eq_add_one hlength.symm
      rw [List.length_cons, List.length_cons] at hlength
      rw [List.length_cons] at hwidth
      have hbits (i : ℕ) := congrArg (·.getLsbD i) h
      have hbyte : byte = byte' := by
        refine BitVec.eq_of_getLsbD_eq fun i hi => ?_
        have hi' : i < w := by omega
        simpa [word, hi, hi'] using hbits i
      subst hbyte
      have hrest : word w bytes = word w bytes' := by
        refine BitVec.eq_of_getLsbD_eq fun i hi => ?_
        rcases Nat.lt_or_ge (i + 8) w with hinside | hout
        · have hhigh : ¬i + 8 < 8 := by omega
          simpa [word, hinside, hi, hhigh] using hbits (i + 8)
        · rw [getLsbD_word_of_ge (by omega), getLsbD_word_of_ge (by omega)]
      rw [ih (by omega) (by omega) hrest]

/-- A message no wider than the remainder is divided like one word. -/
theorem crcBytes_eq_iterate {bytes : List (BitVec 8)} (hwidth : 8 * bytes.length ≤ w)
    (remainder : BitVec w) : crcBytes polynomial remainder bytes =
      (crcShift polynomial)^[8 * bytes.length] (remainder ^^^ word w bytes) := by
  induction bytes generalizing remainder with
  | nil => exact (BitVec.xor_zero).symm
  | cons byte bytes ih =>
      rw [List.length_cons] at hwidth
      have hrest : (crcShift polynomial)^[8] (word w bytes <<< 8) = word w bytes :=
        iterate_crcShift_shiftLeft 8 fun i hi => getLsbD_word_of_ge (by omega)
      show crcBytes polynomial (crcByte polynomial remainder byte) bytes = _
      rw [ih (by omega), List.length_cons, Nat.mul_succ, Function.iterate_add_apply, word,
        ← BitVec.xor_assoc, iterate_crcShift_xor 8 (remainder ^^^ _), hrest]
      rfl

/-- For one byte, the register before it can be told from the register after it. -/
theorem crcByte_injective (hpolynomial : polynomial.msb = true) (byte : BitVec 8) :
    Function.Injective (crcByte polynomial · byte) := by
  intro x y h
  exact (BitVec.xor_left_inj _).mp ((crcShift_injective hpolynomial).iterate 8 h)

/-- The same for any number of bytes: sums that differ stay different. -/
theorem crcBytes_injective (hpolynomial : polynomial.msb = true) (bytes : List (BitVec 8)) :
    Function.Injective (crcBytes polynomial · bytes) := by
  induction bytes with
  | nil => exact fun _ _ h => h
  | cons byte bytes ih => exact fun x y h => crcByte_injective hpolynomial byte (ih h)

/-- **Bursts are detected.**  Two messages of one length that differ in a window no wider than
the remainder have different remainders. -/
theorem crcBytes_inj (hpolynomial : polynomial.msb = true) {front window window' back :
    List (BitVec 8)} (hlength : window.length = window'.length)
    (hwidth : 8 * window.length ≤ w) (remainder : BitVec w) :
    crcBytes polynomial remainder (front ++ window ++ back) =
      crcBytes polynomial remainder (front ++ window' ++ back) ↔ window = window' := by
  constructor
  · intro h
    unfold crcBytes at h
    rw [List.foldl_append, List.foldl_append, List.foldl_append (l := front ++ window'),
      List.foldl_append (l := front)] at h
    have hmiddle := crcBytes_injective hpolynomial back h
    have hwords : crcBytes polynomial (front.foldl (crcByte polynomial) remainder) window =
      crcBytes polynomial (front.foldl (crcByte polynomial) remainder) window' := hmiddle
    rw [crcBytes_eq_iterate hwidth, crcBytes_eq_iterate (hlength ▸ hwidth), ← hlength] at hwords
    exact word_injective hlength hwidth
      ((BitVec.xor_right_inj _).mp ((crcShift_injective hpolynomial).iterate _ hwords))
  · rintro rfl
    rfl

end Numbers
