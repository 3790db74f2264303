import CppProfessional.IpFilter.Filter
import Mathlib.Data.List.TakeWhile

/-!
# The address filter as a program

For an input of addresses the program prints them four times: sorted, and then the
ones with given numbers in the order of the sorted list.

The pieces that the code works with are connected to texts and numbers one function
at a time: `split_eq_splitOn` for the positions of `split`, `fromChars_numeral` for a
part, `comp_iff` for the comparator, `hasOctets_iff` and `hasAny_iff` for the filters,
`stdinToVector_eq` for the lines.

That the input consists of addresses is the assumption under which the program does what it is
for, and nothing in the code tests it.  What becomes of other lines is the subject of two
further modules: whether they may be sorted, and what the filters find among them.
-/

namespace IpFilter

open Commands Containers

/-! ### Splitting

The loop of `split` is a loop over positions.  What it computes is the splitting of a
list at a delimiter, and only this is used from here on. -/

/-- The text in front of the delimiter, the delimiter, and the rest. -/
theorem substr_append_cons {str : Text} {d : Char} {start stop : ℕ}
    (h : findFirstOf str d start = some stop) :
    str.drop start = substr str start (stop - start) ++ d :: str.drop (stop + 1) ∧
      d ∉ substr str start (stop - start) := by
  obtain ⟨i, hi, rfl⟩ := Option.map_eq_some_iff.mp h
  obtain ⟨hlt, hfound, hbefore⟩ := List.findIdx?_eq_some_iff_getElem.mp hi
  have hfront : substr str start (start + i - start) = (str.drop start).take i := by
    rw [substr, Nat.add_sub_cancel_left]
  rw [hfront]
  constructor
  · have hrest : str.drop (start + i + 1) = (str.drop start).drop (i + 1) := by
      rw [List.drop_drop, Nat.add_assoc]
    rw [hrest, ← of_decide_eq_true hfound, ← List.drop_eq_getElem_cons hlt,
      List.take_append_drop]
  · intro hmem
    obtain ⟨j, hj, hget⟩ := List.mem_iff_getElem.mp hmem
    rw [List.length_take] at hj
    rw [List.getElem_take] at hget
    exact hbefore j (by omega) (decide_eq_true hget)

/-- The loop of `split` from any point on. -/
theorem splitFrom_eq_splitOn (str : Text) (d : Char) (start : ℕ) :
    splitFrom str d start = (str.drop start).splitOn d := by
  fun_induction splitFrom str d start with
  | case1 start stop hstop ih =>
      obtain ⟨hsplit, hfront⟩ := substr_append_cons hstop
      rw [ih, hsplit, List.splitOn_append_cons_self_of_not_mem hfront]
  | case2 start hstop =>
      have hnone : d ∉ str.drop start := by
        intro hmem
        rw [findFirstOf, Option.map_eq_none_iff, List.findIdx?_eq_none_iff] at hstop
        exact absurd rfl (of_decide_eq_false (hstop d hmem))
      rw [List.splitOn_eq_singleton hnone]

theorem split_eq_splitOn (str : Text) (d : Char) : split str d = str.splitOn d :=
  splitFrom_eq_splitOn str d 0

/-! ### Parts

On parts that are numerals up to 255 nothing that could go wrong in reading a number
does. -/

/-- A decimal numeral for a number up to 255. -/
structure Numeral (part : Text) : Prop where
  ne_nil : part ≠ []
  isDigit : ∀ c ∈ part, c.isDigit = true
  le : decimal part ≤ 255

instance (part : Text) : Decidable (Numeral part) :=
  decidable_of_iff (part ≠ [] ∧ part.all Char.isDigit = true ∧ decimal part ≤ 255)
    ⟨fun ⟨hne, hdigits, hle⟩ => ⟨hne, List.all_eq_true.mp hdigits, hle⟩,
      fun ⟨hne, hdigits, hle⟩ => ⟨hne, List.all_eq_true.mpr hdigits, hle⟩⟩

/-- A numeral is read as the number it stands for. -/
theorem fromChars_numeral {part : Text} (h : Numeral part) :
    fromChars part = .ok (decimal part) := by
  have hdigits : part.takeWhile Char.isDigit = part := List.takeWhile_eq_self_iff.mpr h.isDigit
  have hne : part.isEmpty = false := List.isEmpty_eq_false_iff.mpr h.ne_nil
  simp only [fromChars, hdigits, hne, Bool.false_eq_true, if_false, if_pos h.le]

/-- There is no dot in a numeral. -/
theorem Numeral.dot_notMem {part : Text} (h : Numeral part) : '.' ∉ part := by
  intro hmem
  have hdigit := h.isDigit '.' hmem
  revert hdigit
  decide

/-- The comparator puts the larger numbers first: on addresses with equally many numerals it is
the lexicographic order of the numbers, turned round. -/
theorem comp_iff {first second : Address} (hlength : first.length = second.length)
    (hfirst : ∀ part ∈ first, Numeral part) (hsecond : ∀ part ∈ second, Numeral part) :
    comp first second = true ↔ second.map decimal < first.map decimal := by
  induction first generalizing second with
  | nil =>
      obtain rfl : second = [] := List.eq_nil_of_length_eq_zero hlength.symm
      simp [comp]
  | cons part first ih =>
      cases second with
      | nil => cases hlength
      | cons part' second =>
          rw [List.forall_mem_cons] at hfirst hsecond
          have hrest := ih (Nat.succ.inj hlength) hfirst.2 hsecond.2
          simp only [comp, fromChars_numeral hfirst.1, fromChars_numeral hsecond.1,
            List.map_cons, List.cons_lt_cons_iff]
          by_cases hsame : decimal part = decimal part'
          · rw [if_neg (not_not.mpr hsame), hrest]
            simp [hsame]
          · rw [if_pos hsame, decide_eq_true_eq]
            simp [Ne.symm hsame]

/-- For addresses of numerals the test of the octets is about the numbers. -/
theorem hasOctets_iff {octets : List ℕ} {ip : Address} (hip : ∀ part ∈ ip, Numeral part)
    (hlength : octets.length ≤ ip.length) :
    hasOctets (octets.map (↑)) ip = true ↔ (ip.map decimal).take octets.length = octets := by
  induction octets generalizing ip with
  | nil => simp [hasOctets]
  | cons octet octets ih =>
      cases ip with
      | nil => cases hlength
      | cons part ip =>
          rw [List.forall_mem_cons] at hip
          have hrest := ih hip.2 (Nat.le_of_succ_le_succ hlength)
          simp only [List.map_cons, hasOctets, fromChars_numeral hip.1, List.length_cons,
            List.take_succ_cons, List.cons.injEq]
          by_cases hsame : decimal part = octet
          · rw [if_neg (by simp [hsame]), hrest]
            simp [hsame]
          · rw [if_pos (by simpa using hsame)]
            simp [hsame]

/-- So is the test for any octet. -/
theorem hasAny_iff {ip : Address} (hip : ∀ part ∈ ip, Numeral part) (anyOctet : ℕ) :
    (ip.any fun part =>
        match fromChars part with
        | .ok value => value = anyOctet
        | .error _ => false) = true ↔ anyOctet ∈ ip.map decimal := by
  rw [List.any_eq_true, List.mem_map]
  constructor
  · rintro ⟨part, hpart, hfound⟩
    rw [fromChars_numeral (hip part hpart)] at hfound
    exact ⟨part, hpart, of_decide_eq_true hfound⟩
  · rintro ⟨part, hpart, hvalue⟩
    refine ⟨part, hpart, ?_⟩
    rw [fromChars_numeral (hip part hpart)]
    exact decide_eq_true hvalue

/-! ### Lines

A line is cut at its tabs, and the first piece is the address.  The rest of the line is
not looked at. -/

/-- The texts before the first tab of the lines. -/
def texts (input : Text) : List Text :=
  (getlines '\n' input).map fun line => line.takeWhile (· ≠ '\t')

/-- The first piece of a line. -/
theorem split_tab (line : Text) :
    ∃ rest, split line '\t' = line.takeWhile (· ≠ '\t') :: rest := by
  rw [split_eq_splitOn]
  induction line with
  | nil => exact ⟨[], rfl⟩
  | cons c line ih =>
      rw [List.splitOn_cons_eq_if_modifyHead]
      by_cases hc : c = '\t'
      · subst hc
        exact ⟨line.splitOn '\t', rfl⟩
      · obtain ⟨rest, hrest⟩ := ih
        refine ⟨rest, ?_⟩
        rw [if_neg (by simpa using hc), hrest, List.modifyHead_cons,
          List.takeWhile_cons_of_pos (by simpa using hc)]

/-- The program loads the addresses of its lines, up to the tabulator. -/
theorem stdinToVector_eq (input : Text) :
    stdinToVector input = .ok ((texts input).map (split · '.')) := by
  unfold stdinToVector texts
  induction getlines '\n' input with
  | nil => rfl
  | cons line lines ih =>
      obtain ⟨rest, hrest⟩ := split_tab line
      rw [List.mapM_cons, ih, hrest]
      rfl

/-! ### The program

The specification speaks of the numbers of the addresses, and the program of their
parts; they are connected once, for the four lists that are printed. -/

/-- Four decimal numerals up to 255, joined by dots. -/
def IsAddress (text : Text) : Prop :=
  ∃ parts : List Text, parts.length = 4 ∧ (∀ part ∈ parts, Numeral part) ∧
    text = List.intercalate ['.'] parts

/-- The numbers of an address. -/
def octets (text : Text) : List ℕ := (text.splitOn '.').map decimal

theorem join_split (text : Text) : join (split text '.') = text := by
  rw [split_eq_splitOn, join, List.intercalate_splitOn]

/-- An address has four parts, which are numerals. -/
theorem isAddress_iff {text : Text} :
    IsAddress text ↔ (text.splitOn '.').length = 4 ∧ ∀ part ∈ text.splitOn '.', Numeral part := by
  constructor
  · rintro ⟨parts, hlength, hparts, rfl⟩
    have hne : parts ≠ [] := by
      rintro rfl
      cases hlength
    rw [List.splitOn_intercalate '.' (fun part hpart => (hparts part hpart).dot_notMem) hne]
    exact ⟨hlength, hparts⟩
  · rintro ⟨hlength, hparts⟩
    exact ⟨text.splitOn '.', hlength, hparts, (List.intercalate_splitOn '.').symm⟩

instance (text : Text) : Decidable (IsAddress text) := decidable_of_iff _ isAddress_iff.symm

/-- An address has four parts as the program splits it. -/
theorem IsAddress.split {text : Text} (h : IsAddress text) :
    (split text '.').length = 4 ∧ ∀ part ∈ split text '.', Numeral part := by
  rw [split_eq_splitOn]
  exact isAddress_iff.mp h

section Addresses

variable {pool : List Text} (hpool : ∀ text ∈ pool, IsAddress text)

include hpool

/-- The comparator compares the numbers of addresses. -/
theorem comp_split :
    ∀ a ∈ pool.map (split · '.'), ∀ b ∈ pool.map (split · '.'),
      comp a b = true ↔ b.map decimal < a.map decimal := by
  intro a ha b hb
  obtain ⟨text, htext, rfl⟩ := List.mem_map.mp ha
  obtain ⟨text', htext', rfl⟩ := List.mem_map.mp hb
  obtain ⟨hlength, hparts⟩ := (hpool text htext).split
  obtain ⟨hlength', hparts'⟩ := (hpool text' htext').split
  exact comp_iff (hlength.trans hlength'.symm) hparts hparts'

/-- The addresses of a list that have the given first numbers. -/
theorem filter_split (first : List ℕ) (hlength : first.length ≤ 4)
    (hfirst : ∀ n ∈ first, n ≤ 255) :
    filter (pool.map (split · '.')) (first.map (↑)) =
      .ok ((pool.filter fun text => (octets text).take first.length = first).map
        (split · '.')) := by
  have hrange : ((first.map ((↑) : ℕ → ℤ)).any fun val => decide (val < 0) || decide (255 < val)) =
      false := by
    rw [List.any_eq_false]
    intro val hval
    obtain ⟨n, hn, rfl⟩ := List.mem_map.mp hval
    have hle := hfirst n hn
    simp only [Bool.or_eq_true, decide_eq_true_eq]
    omega
  rw [filter, hrange, if_neg Bool.false_ne_true, List.filter_map]
  congr 2
  refine List.filter_congr fun text htext => ?_
  obtain ⟨hparts, hnumerals⟩ := (hpool text htext).split
  have hiff := hasOctets_iff hnumerals (hlength.trans hparts.ge)
  rw [split_eq_splitOn] at hiff
  rw [Function.comp_apply, split_eq_splitOn, Bool.eq_iff_iff, decide_eq_true_iff]
  exact hiff

/-- The addresses of a list that have a given number. -/
theorem filterAny_split (anyOctet : ℕ) :
    filterAny (pool.map (split · '.')) anyOctet =
      .ok ((pool.filter fun text => anyOctet ∈ octets text).map (split · '.')) := by
  rw [filterAny, List.filter_map]
  congr 2
  refine List.filter_congr fun text htext => ?_
  obtain ⟨-, hnumerals⟩ := (hpool text htext).split
  have hiff := hasAny_iff hnumerals anyOctet
  rw [split_eq_splitOn] at hiff
  rw [Function.comp_apply, split_eq_splitOn, Bool.eq_iff_iff, decide_eq_true_iff]
  exact hiff

end Addresses

/-- Lines of text. -/
def unlines (lines : List Text) : Text := lines.flatMap fun line => line ++ ['\n']

/-- The addresses are printed as they were read. -/
theorem print_split (pool : List Text) :
    print (pool.map (split · '.')) = unlines pool := by
  rw [print, List.flatMap_map, unlines]
  simp only [join_split]

/-- **The program.**  For any sort that keeps the promise of the library, the output consists
of four lists: all addresses in descending order, and the ones with the given numbers in the
same order. -/
theorem main_sorted {sort : (Address → Address → Bool) → List Address → List Address}
    (hsort : Sorts sort) {input : Text} (hinput : ∀ text ∈ texts input, IsAddress text) :
    ∃ sorted : List Text, sorted.Perm (texts input) ∧
      sorted.Pairwise (fun a b => octets b ≤ octets a) ∧
      main sort input =
        ⟨0, unlines sorted ++ unlines (sorted.filter fun text => (octets text).take 1 = [1]) ++
          unlines (sorted.filter fun text => (octets text).take 2 = [46, 70]) ++
          unlines (sorted.filter fun text => 46 ∈ octets text), []⟩ := by
  have hcomp := comp_split hinput
  obtain ⟨hperm, hordered⟩ := hsort comp _ (strictWeakOn_of_key hcomp)
  have hmem {ip : Address} (hip : ip ∈ sort comp ((texts input).map (split · '.'))) :
      ip ∈ (texts input).map (split · '.') := hperm.subset hip
  -- the sorted addresses are the pieces of the sorted texts
  obtain ⟨sorted, hsorted⟩ : ∃ sorted : List Text,
      sort comp ((texts input).map (split · '.')) = sorted.map (split · '.') := by
    refine ⟨(sort comp ((texts input).map (split · '.'))).map join, ?_⟩
    have hsame : ∀ ip ∈ sort comp ((texts input).map (split · '.')),
        ((split · '.') ∘ join) ip = id ip := by
      intro ip hip
      obtain ⟨text, -, rfl⟩ := List.mem_map.mp (hmem hip)
      rw [Function.comp_apply, join_split, id_eq]
    rw [List.map_map, List.map_congr_left hsame, List.map_id]
  have htexts : sorted.Perm (texts input) := by
    have hjoin := hperm.map join
    rw [hsorted, List.map_map, List.map_map] at hjoin
    have hid : join ∘ (split · '.') = id := funext join_split
    rwa [hid, List.map_id, List.map_id] at hjoin
  have haddress (text : Text) (htext : text ∈ sorted) : IsAddress text :=
    hinput text (htexts.subset htext)
  refine ⟨sorted, htexts, ?_, ?_⟩
  · have hdescend := descending_of_ordered (fun a ha b hb => hcomp a (hmem ha) b (hmem hb)) hordered
    rw [hsorted, List.pairwise_map] at hdescend
    simp only [split_eq_splitOn] at hdescend
    exact hdescend
  · have hones : filter (sorted.map (split · '.')) [1] = _ :=
      filter_split haddress [1] (by decide) (by decide)
    have hpairs : filter (sorted.map (split · '.')) [46, 70] = _ :=
      filter_split haddress [46, 70] (by decide) (by decide)
    simp only [main, stdinToVector_eq, hsorted, hones, hpairs, filterAny_split haddress,
      print_split]
    rfl

/-- Two addresses, the second with text after a tab. -/
def twoAddresses : Text :=
  ['1', '.', '2', '.', '3', '.', '4', '\n', '4', '6', '.', '7', '0', '.', '0', '.', '9', '\t', 'x']

/-- Two addresses, of which the filters find one each. -/
theorem main_sorted_twoAddresses :
    ∃ sorted : List Text, sorted.Perm (texts twoAddresses) ∧
      sorted.Pairwise (fun a b => octets b ≤ octets a) ∧
      main mergeSorted twoAddresses =
        ⟨0, unlines sorted ++ unlines (sorted.filter fun text => (octets text).take 1 = [1]) ++
          unlines (sorted.filter fun text => (octets text).take 2 = [46, 70]) ++
          unlines (sorted.filter fun text => 46 ∈ octets text), []⟩ :=
  main_sorted sorts_mergeSorted (by decide)

end IpFilter
