import CppProfessional.IpFilter.Program
import Mathlib.Logic.Equiv.Defs

/-!
# Splitting and joining

`split` and the joining of `print` are inverse to each other: a text is the same thing as
a non-empty list of texts without the delimiter.

* `splitLoop` is the loop with the checks that `std::string::substr` makes,
* `Parts` are the lists that `split` returns,
* `splitEquiv` is the correspondence.
-/

namespace IpFilter

/-! ### Positions

`std::string::substr` throws for a position behind the end of the text.  The loop checks
for this nowhere, and need not. -/

/-- `str.substr(pos, n)`, which throws `std::out_of_range` behind the end. -/
def substrAt (str : Text) (pos n : ℕ) : Option Text :=
  if pos ≤ str.length then some (substr str pos n) else none

/-- The loop of `split` from the position `start`, where `substr` may throw. -/
def splitLoop (str : Text) (d : Char) (start : ℕ) : Option (List Text) :=
  match h : findFirstOf str d start with
  | some stop => do
      let part ← substrAt str start (stop - start)
      let parts ← splitLoop str d (stop + 1)
      return part :: parts
  | none => do
      let part ← substrAt str start str.length
      return [part]
termination_by str.length - start
decreasing_by
  have := findFirstOf_eq_some h
  omega

/-- No position that the loop reaches lies behind the end, so the exception of
`std::string::substr` is never thrown. -/
theorem splitLoop_eq (str : Text) (d : Char) (start : ℕ) (hstart : start ≤ str.length) :
    splitLoop str d start = some (splitFrom str d start) := by
  fun_induction splitLoop str d start with
  | case1 start stop hstop ih =>
      have hnext : stop + 1 ≤ str.length := (findFirstOf_eq_some hstop).2
      have hfrom : splitFrom str d start =
          substr str start (stop - start) :: splitFrom str d (stop + 1) := by
        rw [splitFrom]
        split
        · next stop' hstop' =>
            obtain rfl : stop = stop' := Option.some.inj (hstop.symm.trans hstop')
            rfl
        · next hnone => cases hstop.symm.trans hnone
      rw [substrAt, if_pos hstart, ih hnext, hfrom]
      rfl
  | case2 start hstop =>
      have hfrom : splitFrom str d start = [str.drop start] := by
        rw [splitFrom]
        split
        · next stop hstop' => cases hstop.symm.trans hstop'
        · rfl
      have htail : substr str start str.length = str.drop start :=
        List.take_of_length_le ((List.length_drop ..).trans_le (Nat.sub_le ..))
      rw [substrAt, if_pos hstart, htail, hfrom]
      rfl

/-! ### From texts to parts and back

No part has the delimiter in it, and there is always a part.  These two properties
describe the lists that `split` returns, and on them joining is its inverse. -/

/-- The parts with the delimiter between them. -/
def joinWith (d : Char) (parts : List Text) : Text := List.intercalate [d] parts

theorem joinWith_split (str : Text) (d : Char) : joinWith d (split str d) = str := by
  rw [joinWith, split_eq_splitOn, List.intercalate_splitOn]

theorem split_ne_nil (str : Text) (d : Char) : split str d ≠ [] := by
  rw [split_eq_splitOn]
  exact List.splitOn_ne_nil d str

theorem split_cons_self (str : Text) (d : Char) : split (d :: str) d = [] :: split str d := by
  rw [split_eq_splitOn, split_eq_splitOn, List.splitOn_cons_eq_if_modifyHead,
    if_pos (beq_self_eq_true d)]

/-- A character that is no delimiter goes to the front of the first part. -/
theorem split_cons_of_ne {c d : Char} (hc : c ≠ d) (str : Text) :
    ∃ part parts, split str d = part :: parts ∧ split (c :: str) d = (c :: part) :: parts := by
  obtain ⟨part, parts, hsplit⟩ := List.exists_cons_of_ne_nil (split_ne_nil str d)
  refine ⟨part, parts, hsplit, ?_⟩
  rw [split_eq_splitOn] at hsplit
  rw [split_eq_splitOn, List.splitOn_cons_eq_if_modifyHead, if_neg (by simpa using hc), hsplit,
    List.modifyHead_cons]

/-- There is one part more than there are delimiters. -/
theorem length_split (str : Text) (d : Char) : (split str d).length = str.count d + 1 := by
  induction str with
  | nil =>
      rw [split_eq_splitOn, List.splitOn_nil]
      rfl
  | cons c str ih =>
      by_cases hc : c = d
      · subst hc
        rw [split_cons_self, List.length_cons, ih, List.count_cons_self]
      · obtain ⟨part, parts, hsplit, hcons⟩ := split_cons_of_ne hc str
        rw [hsplit] at ih
        rw [hcons, List.count_cons_of_ne hc]
        exact ih

/-- No part has the delimiter in it, which is one half of what makes splitting undo joining. -/
theorem notMem_of_mem_split {str : Text} {d : Char} {part : Text} (h : part ∈ split str d) :
    d ∉ part := by
  induction str generalizing part with
  | nil =>
      rw [split_eq_splitOn, List.splitOn_nil, List.mem_singleton] at h
      exact h ▸ List.not_mem_nil
  | cons c str ih =>
      by_cases hc : c = d
      · subst hc
        rw [split_cons_self, List.mem_cons] at h
        obtain rfl | h := h
        · exact List.not_mem_nil
        · exact ih h
      · obtain ⟨first, parts, hsplit, hcons⟩ := split_cons_of_ne hc str
        rw [hcons, List.mem_cons] at h
        obtain rfl | h := h
        · rw [List.mem_cons, not_or]
          exact ⟨Ne.symm hc, ih (hsplit ▸ List.mem_cons_self)⟩
        · exact ih (hsplit ▸ List.mem_cons_of_mem first h)

theorem split_joinWith {d : Char} {parts : List Text} (hne : parts ≠ [])
    (hparts : ∀ part ∈ parts, d ∉ part) : split (joinWith d parts) d = parts := by
  rw [split_eq_splitOn, joinWith, List.splitOn_intercalate d hparts hne]

/-- The lists that `split` returns. -/
structure Parts (d : Char) where
  parts : List Text
  ne_nil : parts ≠ []
  notMem : ∀ part ∈ parts, d ∉ part

/-- Parts are determined by their list. -/
@[ext]
theorem Parts.ext {d : Char} {p q : Parts d} (h : p.parts = q.parts) : p = q := by
  cases p
  cases q
  cases h
  rfl

/-- A text is the list of its parts. -/
def splitEquiv (d : Char) : Text ≃ Parts d where
  toFun str := ⟨split str d, split_ne_nil str d, fun _ => notMem_of_mem_split⟩
  invFun p := joinWith d p.parts
  left_inv str := joinWith_split str d
  right_inv p := Parts.ext (split_joinWith p.ne_nil p.notMem)

/-! ### The output

Where the standard library has no `std::ranges::to`, `print` is a loop with a special
case for the first part.  It prints the same text. -/

/-- The loop of `print` over the parts of an address where there is no `ranges::to`. -/
def printFrom (ipAddress : Address) (i : ℕ) : Text :=
  if h : i < ipAddress.length then
    ipAddress.get ⟨i, h⟩ ++ (if i + 1 < ipAddress.length then ['.'] else []) ++
      printFrom ipAddress (i + 1)
  else []
termination_by ipAddress.length - i

/-- The loop that prints an address puts the rest of it together. -/
theorem printFrom_eq (ipAddress : Address) (i : ℕ) :
    printFrom ipAddress i = joinWith '.' (ipAddress.drop i) := by
  fun_induction printFrom ipAddress i with
  | case1 i h ih =>
      rw [ih, List.drop_eq_getElem_cons h, List.get_eq_getElem]
      by_cases hlast : i + 1 < ipAddress.length
      · obtain ⟨part, parts, hdrop⟩ := List.exists_cons_of_ne_nil
          (List.ne_nil_of_length_pos ((List.length_drop ..).symm ▸ Nat.sub_pos_of_lt hlast))
        rw [if_pos hlast, hdrop, joinWith, joinWith, List.intercalate_cons_cons]
      · rw [if_neg hlast, List.drop_of_length_le (Nat.le_of_not_lt hlast)]
        simp [joinWith]
  | case2 i h =>
      rw [List.drop_of_length_le (Nat.le_of_not_lt h)]
      rfl

/-- **Splitting and joining** are inverse to each other. -/
theorem split_joinWith_inverse (d : Char) :
    (∀ str : Text, splitLoop str d 0 = some (split str d) ∧
      (split str d).length = str.count d + 1 ∧ (∀ part ∈ split str d, d ∉ part) ∧
      joinWith d (split str d) = str) ∧
    (∀ parts : List Text, parts ≠ [] → (∀ part ∈ parts, d ∉ part) →
      split (joinWith d parts) d = parts) ∧
    ∀ ipAddress : Address, print [ipAddress] = joinWith '.' ipAddress ++ ['\n'] ∧
      printFrom ipAddress 0 = joinWith '.' ipAddress := by
  refine ⟨fun str => ⟨?_, length_split str d, ?_, joinWith_split str d⟩, ?_, fun ipAddress => ?_⟩
  · exact splitLoop_eq str d 0 (Nat.zero_le _)
  · intro part hpart
    exact notMem_of_mem_split hpart
  · intro parts hne hparts
    exact split_joinWith hne hparts
  · exact ⟨List.append_nil _, printFrom_eq ipAddress 0⟩

end IpFilter
