import CppProfessional.Async.Workers

/-!
# What `std::to_string` writes

A numeral is a sign and decimal digits, it can be read back, and so numbers with
the same numeral are the same number.  A file name ends with the numeral of the
file counter, which makes names with different counters different.

Nothing else of a name is needed to keep files apart: the time stamps and the ids of two blocks
may be the same, and often are.  The counter is the one of the machine, so the names repeat
once it has wrapped around, and not before.
-/

namespace Async

theorem isDigit_of_mem_toText_natCast {n : ℕ} {c : Char} (h : c ∈ toText n) :
    c.isDigit = true :=
  Nat.isDigit_of_mem_toDigits (b := 10) (by decide) (by decide) h

/-- A numeral has digits and a minus sign only. -/
theorem isDigit_or_minus_of_mem_toText {n : ℤ} {c : Char} (h : c ∈ toText n) :
    c.isDigit = true ∨ c = '-' := by
  cases n with
  | ofNat n => exact Or.inl (isDigit_of_mem_toText_natCast h)
  | negSucc n =>
      rcases List.mem_cons.mp h with hminus | hdigit
      · exact Or.inr hminus
      · exact Or.inl (isDigit_of_mem_toText_natCast (n := n + 1) hdigit)

/-- The digits are those of Lean's own numerals. -/
theorem toText_eq_toString (n : ℤ) : toText n = (toString n).toList := by
  cases n with
  | ofNat n => exact Nat.toList_repr.symm
  | negSucc n =>
      show _ = ("-" ++ Nat.repr (n + 1)).toList
      rw [String.toList_append, Nat.toList_repr]
      rfl

/-- A number has a digit. -/
theorem toText_ne_nil (n : ℤ) : toText n ≠ [] := by
  cases n with
  | ofNat n => exact Nat.toDigits_ne_nil
  | negSucc n => exact List.cons_ne_nil _ _

/-- Numbers with the same numeral are equal: a numeral with a sign is not one without, and the
digits determine the number. -/
theorem eq_of_toText_eq {m n : ℤ} (h : toText m = toText n) : m = n := by
  have hread (n : ℕ) : Nat.ofDigitChars 10 (Nat.toDigits 10 n) 0 = n :=
    Nat.ofDigitChars_toDigits (by decide) (by decide)
  have hsign (m n : ℕ) : toText m ≠ toText (.negSucc n) := by
    intro hsame
    have hminus : '-' ∈ toText m := by
      rw [hsame]
      exact List.mem_cons_self ..
    have hdigit := isDigit_of_mem_toText_natCast hminus
    revert hdigit
    decide
  cases m with
  | ofNat m =>
      cases n with
      | ofNat n =>
          have hdigits : Nat.toDigits 10 m = Nat.toDigits 10 n := h
          rw [← hread m, hdigits, hread n]
      | negSucc n => exact absurd h (hsign m n)
  | negSucc m =>
      cases n with
      | ofNat n => exact absurd h.symm (hsign n m)
      | negSucc n =>
          have hdigits : Nat.toDigits 10 (m + 1) = Nat.toDigits 10 (n + 1) :=
            (List.cons.inj h).2
          have hsucc : m + 1 = n + 1 := by rw [← hread (m + 1), hdigits, hread (n + 1)]
          rw [Nat.succ.inj hsucc]

/-- What follows the last separator is determined. -/
theorem eq_of_append_cons_eq {α : Type*} {front front' back back' : List α} {a : α}
    (h : front ++ a :: back = front' ++ a :: back') (hback : a ∉ back) (hback' : a ∉ back') :
    back = back' := by
  rcases List.append_eq_append_iff.mp h with ⟨middle, -, hmiddle⟩ | ⟨middle, -, hmiddle⟩
  · cases middle with
    | nil => exact (List.cons.inj hmiddle).2
    | cons x middle =>
        -- the second separator would lie in the first back
        have hmem : a ∈ back := by
          rw [(List.cons.inj hmiddle).2]
          exact List.mem_append_right _ (List.mem_cons_self ..)
        exact absurd hmem hback
  · cases middle with
    | nil => exact (List.cons.inj hmiddle).2.symm
    | cons x middle =>
        have hmem : a ∈ back' := by
          rw [(List.cons.inj hmiddle).2]
          exact List.mem_append_right _ (List.mem_cons_self ..)
        exact absurd hmem hback'

/-- **File names are told apart by the counter alone.** -/
theorem counter_eq_of_fileName_eq {task task' : OutputTask} {w w' : Worker}
    {counter counter' : BitVec 32} (h : fileName task w counter = fileName task' w' counter') :
    counter = counter' := by
  have hplain (counter : BitVec 32) : '_' ∉ toText counter.toInt := by
    intro hmem
    rcases isDigit_or_minus_of_mem_toText hmem with hdigit | hminus
    · revert hdigit
      decide
    · revert hminus
      decide
  have hlast := List.append_cancel_right (show _ ++ ['.', 'l', 'o', 'g'] = _ ++ _ from h)
  rw [List.append_assoc, List.append_assoc (_ ++ toText w'.threadId)] at hlast
  have hsame : toText counter.toInt = toText counter'.toInt :=
    eq_of_append_cons_eq hlast (hplain counter) (hplain counter')
  exact BitVec.eq_of_toInt_eq (eq_of_toText_eq hsame)

end Async
