import Mathlib
import CppProfessional.Patterns.Matching

/-!
# Globs

A star stands for any text, a question mark for any character, and every other character for
itself, in either case.

* `globMatches` — if a text is of the form;
* `globMatches_iff` — the language of a glob;
* `fill`, `globMatches_fill` — a text of the form, with given characters for the wildcards;
* `exists_sameLetter` — a text of the form has all the literal characters.

This is what a mask is meant to say, and it mentions no regular expression.  The scanner
translates masks into regular expressions; how far the translation agrees with the meaning is a
statement about the scanner, which needs this definition as its other side.
-/

namespace Patterns

def globMatches : List Char → List Char → Bool
  | [], text => text.isEmpty
  | c :: glob, text =>
      if c = '*' then text.tails.any (globMatches glob)
      else text.head?.any (fun d => c = '?' || sameLetter c d) && globMatches glob text.tail

/-- What a character of a glob stands for. -/
def globPiece (c : Char) : Language Char :=
  if c = '*' then ⊤ else if c = '?' then letters fun _ => true else letters (sameLetter c)

/-- **The language of a glob** is the product of the languages of its characters.  By induction
on the glob and the text; a star is tried for no character and for one more. -/
theorem globMatches_iff {glob text : List Char} :
    globMatches glob text = true ↔ text ∈ (glob.map globPiece).prod := by
  induction glob generalizing text with
  | nil =>
      rw [globMatches, List.isEmpty_iff, List.map_nil, List.prod_nil, Language.mem_one]
  | cons c glob ih =>
      rw [globMatches, List.map_cons, List.prod_cons, Language.mem_mul]
      by_cases hstar : c = '*'
      · rw [if_pos hstar, globPiece, if_pos hstar, List.any_eq_true]
        constructor
        · rintro ⟨rest, hrest, h⟩
          obtain ⟨front, rfl⟩ := (List.mem_tails rest text).mp hrest
          exact ⟨front, trivial, rest, ih.mp h, rfl⟩
        · rintro ⟨front, -, rest, h, rfl⟩
          exact ⟨rest, (List.mem_tails _ _).mpr (List.suffix_append front rest), ih.mpr h⟩
      · have hpiece : globPiece c = letters fun d => c = '?' || sameLetter c d := by
          rw [globPiece, if_neg hstar]
          by_cases hquestion : c = '?'
          · simp [hquestion]
          · simp [hquestion]
        rw [if_neg hstar, hpiece]
        cases text with
        | nil => simp [mem_letters]
        | cons d text =>
            rw [List.head?_cons, Option.any_some, List.tail_cons, Bool.and_eq_true, ih]
            constructor
            · rintro ⟨hd, h⟩
              exact ⟨[d], ⟨d, hd, rfl⟩, text, h, rfl⟩
            · rintro ⟨front, ⟨e, he, rfl⟩, rest, h, heq⟩
              cases heq
              exact ⟨he, h⟩

/-- Languages that agree on the texts of a kind, one after the other. -/
theorem mem_prod_congr {A B : Char → Language Char} {P : List Char → Prop}
    (hP : ∀ v w, P (v ++ w) → P v ∧ P w) {glob text : List Char}
    (h : ∀ c ∈ glob, ∀ w, P w → (w ∈ A c ↔ w ∈ B c)) (htext : P text) :
    text ∈ (glob.map A).prod ↔ text ∈ (glob.map B).prod := by
  induction glob generalizing text with
  | nil => rfl
  | cons c glob ih =>
      have hrest : ∀ d ∈ glob, ∀ w, P w → (w ∈ A d ↔ w ∈ B d) := fun d hd =>
        h d (List.mem_cons_of_mem c hd)
      rw [List.map_cons, List.map_cons, List.prod_cons, List.prod_cons, Language.mem_mul,
        Language.mem_mul]
      constructor
      · rintro ⟨v, hv, w, hw, rfl⟩
        obtain ⟨hPv, hPw⟩ := hP v w htext
        exact ⟨v, (h c List.mem_cons_self v hPv).mp hv, w, (ih hrest hPw).mp hw, rfl⟩
      · rintro ⟨v, hv, w, hw, rfl⟩
        obtain ⟨hPv, hPw⟩ := hP v w htext
        exact ⟨v, (h c List.mem_cons_self v hPv).mpr hv, w, (ih hrest hPw).mpr hw, rfl⟩

/-! ### Letters

Letters are compared in either case.  What is no letter is only equal to itself, the
ends of lines among them. -/

theorem sameLetter_refl (c : Char) : sameLetter c c = true := decide_eq_true rfl

/-- What is no letter is the same in either case. -/
theorem eq_of_sameLetter {c d : Char} (hc : ¬ c.isAlpha = true) (h : sameLetter c d = true) :
    d = c := by
  have hlower : c.toLower = d.toLower := of_decide_eq_true h
  have hd : ¬ d.isAlpha = true := by
    rwa [← Char.isAlpha_toLower_eq_isAlpha, ← hlower, Char.isAlpha_toLower_eq_isAlpha]
  have hupper {e : Char} (he : ¬ e.isAlpha = true) : e.toLower = e :=
    Char.toLower_eq_of_not_isUpper fun h => he (by simp [Char.isAlpha, h])
  rw [← hupper hd, ← hlower, hupper hc]

/-- The ends of lines are no letters. -/
theorem isTerminator_eq_of_sameLetter {c d : Char} (h : sameLetter c d = true) :
    isTerminator d = isTerminator c := by
  have hnot {e : Char} (he : isTerminator e = true) : ¬ e.isAlpha = true := by
    have hmem : e ∈ ['\n', '\r', '\u2028', '\u2029'] := of_decide_eq_true he
    simp only [List.mem_cons, List.not_mem_nil, or_false] at hmem
    rcases hmem with rfl | rfl | rfl | rfl <;> decide
  have hsymm : sameLetter d c = true := decide_eq_true (of_decide_eq_true h).symm
  cases hc : isTerminator c with
  | true => rw [eq_of_sameLetter (hnot hc) h, hc]
  | false =>
      cases hd : isTerminator d with
      | false => rfl
      | true => rw [← hd, ← hc, eq_of_sameLetter (hnot hd) hsymm]

/-! ### Texts of the form -/

/-- The glob with texts in place of its wildcards. -/
def fill (star : List Char) (question : Char) (glob : List Char) : List Char :=
  glob.flatMap fun c => if c = '*' then star else if c = '?' then [question] else [c]

/-- A mask whose stars and question marks have been filled in is matched by the mask. -/
theorem globMatches_fill (star : List Char) (question : Char) (glob : List Char) :
    globMatches glob (fill star question glob) = true := by
  rw [globMatches_iff]
  induction glob with
  | nil => exact Language.nil_mem_one
  | cons c glob ih =>
      rw [List.map_cons, List.prod_cons, Language.mem_mul, globPiece]
      refine ⟨_, ?_, _, ih, rfl⟩
      by_cases hstar : c = '*'
      · rw [if_pos hstar]
        trivial
      · rw [if_neg hstar]
        by_cases hquestion : c = '?'
        · rw [if_pos hquestion]
          exact ⟨question, rfl, by simp [hquestion]⟩
        · rw [if_neg hquestion]
          exact ⟨c, sameLetter_refl c, by simp [hstar, hquestion]⟩

/-- Every literal character of a glob is in the texts of the form. -/
theorem exists_sameLetter {glob text : List Char} {c : Char} (hc : c ∈ glob) (hstar : c ≠ '*')
    (hquestion : c ≠ '?') (h : globMatches glob text = true) :
    ∃ d ∈ text, sameLetter c d = true := by
  rw [globMatches_iff] at h
  induction glob generalizing text with
  | nil => simp at hc
  | cons e glob ih =>
      rw [List.map_cons, List.prod_cons, Language.mem_mul] at h
      obtain ⟨v, hv, w, hw, rfl⟩ := h
      rcases List.mem_cons.mp hc with rfl | hc
      · rw [globPiece, if_neg hstar, if_neg hquestion] at hv
        obtain ⟨d, hd, rfl⟩ := hv
        exact ⟨d, by simp, hd⟩
      · obtain ⟨d, hd, hsame⟩ := ih hc hw
        exact ⟨d, List.mem_append_right v hd, hsame⟩

end Patterns
