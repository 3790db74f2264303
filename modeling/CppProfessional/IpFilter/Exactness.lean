import CppProfessional.IpFilter.Program
import Mathlib.Data.List.Forall2

/-!
# The filters on lines that are no addresses

A filter is to find the addresses whose first parts are numerals of given octets, and
`filter_any` those with a numeral of a given octet in some part.  Two things stand in the
way: `filter` compares as far as the address and the octets both go, so that an address
with too few parts passes, and `from_chars` stops at the first character that is no
digit, so that whatever follows a numeral is passed over.

* `Spells`, `Starts` — what the filters are for;
* `Reads` — what they go by;
* `filters_exact_iff` — they agree exactly on the pools in which no address that is read
  so is too short or has a character behind a numeral.
-/

namespace IpFilter

/-- The part as a whole is a decimal numeral of the octet. -/
structure Spells (octet : ℤ) (part : Text) : Prop where
  ne_nil : part ≠ []
  isDigit : ∀ c ∈ part, c.isDigit = true
  value : (decimal part : ℤ) = octet

instance (octet : ℤ) (part : Text) : Decidable (Spells octet part) :=
  decidable_of_iff (part ≠ [] ∧ part.all Char.isDigit = true ∧ (decimal part : ℤ) = octet)
    ⟨fun ⟨hne, hdigits, hvalue⟩ => ⟨hne, List.all_eq_true.mp hdigits, hvalue⟩,
      fun ⟨hne, hdigits, hvalue⟩ => ⟨hne, List.all_eq_true.mpr hdigits, hvalue⟩⟩

/-- The first parts of the address are numerals of the octets. -/
def Starts (octets : List ℤ) (ip : Address) : Prop :=
  List.Forall₂ Spells octets (ip.take octets.length)

instance (octets : List ℤ) (ip : Address) : Decidable (Starts octets ip) :=
  inferInstanceAs (Decidable (List.Forall₂ Spells octets (ip.take octets.length)))

/-- `from_chars` reads the octet in front of the part. -/
def Reads (octet : ℤ) (part : Text) : Prop :=
  ∃ value, fromChars part = .ok value ∧ (value : ℤ) = octet

/-- No octet is out of range. -/
def InRange (octets : List ℤ) : Prop := ∀ octet ∈ octets, 0 ≤ octet ∧ octet ≤ 255

/-- `filter` fails if an octet is out of range, and else finds what it is for. -/
structure FilterExact (pool : List Address) (octets : List ℤ) : Prop where
  fails : (∃ e, filter pool octets = .error e) ↔ ¬InRange octets
  finds : ∀ result, filter pool octets = .ok result →
    result = pool.filter fun ip => Starts octets ip

/-- `filter_any` finds what it is for. -/
def FilterAnyExact (pool : List Address) (anyOctet : UInt8) : Prop :=
  filterAny pool anyOctet.toNat =
    .ok (pool.filter fun ip => ∃ part ∈ ip, Spells anyOctet.toNat part)

section Parts

variable {octet : ℤ} {part : Text}

/-- A numeral of an octet is a part that reads so and consists of digits. -/
theorem spells_iff (hle : octet ≤ 255) :
    Spells octet part ↔ Reads octet part ∧ ∀ c ∈ part, c.isDigit = true := by
  constructor
  · rintro ⟨hne, hdigits, hvalue⟩
    have hnumeral : Numeral part := ⟨hne, hdigits, by omega⟩
    exact ⟨⟨decimal part, fromChars_numeral hnumeral, hvalue⟩, hdigits⟩
  · rintro ⟨⟨value, hreads, hvalue⟩, hdigits⟩
    have hall : part.takeWhile Char.isDigit = part := List.takeWhile_eq_self_iff.mpr hdigits
    rw [fromChars, hall] at hreads
    split at hreads
    · cases hreads
    · next hne =>
      split at hreads
      · cases hreads
        exact ⟨fun hnil => hne (List.isEmpty_iff.mpr hnil), hdigits, hvalue⟩
      · cases hreads

/-- A filter compares what is read. -/
theorem hasOctets_iff_reads {octets : List ℤ} {ip : Address} :
    hasOctets octets ip = true ↔ ∀ x ∈ octets.zip ip, Reads x.1 x.2 := by
  induction octets generalizing ip with
  | nil => simp [hasOctets]
  | cons octet octets ih =>
      cases ip with
      | nil => simp [hasOctets]
      | cons part ip =>
          rw [List.zip_cons_cons, List.forall_mem_cons, ← ih, hasOctets]
          cases hpart : fromChars part with
          | error e => simp [Reads, hpart]
          | ok value =>
              by_cases hvalue : (value : ℤ) = octet
              · simp [Reads, hpart, hvalue]
              · simp [Reads, hpart, hvalue]

/-- What the filter is for, in terms of what it goes by. -/
theorem starts_iff {octets : List ℤ} {ip : Address} (hrange : InRange octets) :
    Starts octets ip ↔ (∀ x ∈ octets.zip ip, Reads x.1 x.2) ∧ octets.length ≤ ip.length ∧
      ∀ part ∈ ip.take octets.length, ∀ c ∈ part, c.isDigit = true := by
  unfold Starts
  induction octets generalizing ip with
  | nil => simp
  | cons octet octets ih =>
      rw [InRange, List.forall_mem_cons] at hrange
      cases ip with
      | nil => simp
      | cons part ip =>
          rw [List.length_cons, List.take_succ_cons, List.forall₂_cons, ih hrange.2,
            spells_iff hrange.1.2, List.zip_cons_cons, List.forall_mem_cons,
            List.forall_mem_cons, List.length_cons, Nat.succ_le_succ_iff]
          tauto

end Parts

/-! ### The filters

What is read of a part is the number in front of it, what the filter is for is the part
as a whole.  The two differ in what may stand behind the digits, and in the number of
parts. -/

section Filters

variable {pool : List Address} {octets : List ℤ}

/-- Two filters of a list agree if they agree on its elements. -/
theorem filter_eq_filter_iff {α : Type*} {xs : List α} {p q : α → Bool}
    (himp : ∀ x ∈ xs, q x = true → p x = true) :
    xs.filter p = xs.filter q ↔ ∀ x ∈ xs, p x = true → q x = true := by
  constructor
  · intro heq x hx hp
    have hmem : x ∈ xs.filter q := heq ▸ List.mem_filter.mpr ⟨hx, hp⟩
    exact (List.mem_filter.mp hmem).2
  · intro h
    exact List.filter_congr fun x hx => Bool.eq_iff_iff.mpr ⟨h x hx, himp x hx⟩

/-- `filter` fails exactly if an octet is out of range. -/
theorem filter_eq (pool : List Address) (octets : List ℤ) :
    (InRange octets → filter pool octets = .ok (pool.filter (hasOctets octets))) ∧
      (¬InRange octets → filter pool octets = .error .valueTooLarge) := by
  have hrange : (octets.any fun val => decide (val < 0) || decide (255 < val)) = true ↔
      ¬InRange octets := by
    simp only [InRange, List.any_eq_true, Bool.or_eq_true, decide_eq_true_eq, not_forall]
    constructor
    · rintro ⟨octet, hmem, hout⟩
      exact ⟨octet, hmem, by omega⟩
    · rintro ⟨octet, hmem, hout⟩
      exact ⟨octet, hmem, by omega⟩
  constructor
  · intro hin
    rw [filter, if_neg (hrange.not.mpr (not_not.mpr hin))]
  · intro hout
    rw [filter, if_pos (hrange.mpr hout)]

/-- The filter of the first octets finds exactly what it should if no address that reads alike
is short or has other characters behind its digits. -/
theorem filterExact_iff : FilterExact pool octets ↔ (InRange octets → ∀ ip ∈ pool,
    (∀ x ∈ octets.zip ip, Reads x.1 x.2) → octets.length ≤ ip.length ∧
      ∀ part ∈ ip.take octets.length, ∀ c ∈ part, c.isDigit = true) := by
  obtain ⟨hin, hout⟩ := filter_eq pool octets
  by_cases hrange : InRange octets
  · have hsame : pool.filter (hasOctets octets) = pool.filter (fun ip => Starts octets ip) ↔
        ∀ ip ∈ pool, (∀ x ∈ octets.zip ip, Reads x.1 x.2) → octets.length ≤ ip.length ∧
          ∀ part ∈ ip.take octets.length, ∀ c ∈ part, c.isDigit = true := by
      rw [filter_eq_filter_iff]
      · refine forall₂_congr fun ip _ => ?_
        rw [hasOctets_iff_reads, decide_eq_true_iff, starts_iff hrange]
        exact ⟨fun h hreads => (h hreads).2, fun h hreads => ⟨hreads, h hreads⟩⟩
      · intro ip _ hstarts
        exact hasOctets_iff_reads.mpr ((starts_iff hrange).mp (of_decide_eq_true hstarts)).1
    rw [imp_iff_right hrange, ← hsame]
    constructor
    · intro h
      exact h.finds _ (hin hrange)
    · intro h
      refine ⟨iff_of_false ?_ (not_not.mpr hrange), fun result hresult => ?_⟩
      · rintro ⟨e, he⟩
        rw [hin hrange] at he
        cases he
      · rw [hin hrange] at hresult
        cases hresult
        exact h
  · refine iff_of_true ⟨iff_of_true ⟨_, hout hrange⟩ hrange, fun result hresult => ?_⟩
      fun h => absurd h hrange
    rw [hout hrange] at hresult
    cases hresult

/-- So does the filter of any octet: it has to find an address that some part spells out, and
may not find one in which a part only begins so. -/
theorem filterAnyExact_iff {anyOctet : UInt8} : FilterAnyExact pool anyOctet ↔ ∀ ip ∈ pool,
    (∃ part ∈ ip, Reads anyOctet.toNat part) →
      ∃ part ∈ ip, Reads anyOctet.toNat part ∧ ∀ c ∈ part, c.isDigit = true := by
  have hle : (anyOctet.toNat : ℤ) ≤ 255 := by
    have := anyOctet.toNat_lt
    omega
  obtain ⟨found, hfilter, hfound⟩ : ∃ found : Address → Bool,
      filterAny pool anyOctet.toNat = .ok (pool.filter found) ∧
        ∀ ip, found ip = true ↔ ∃ part ∈ ip, Reads anyOctet.toNat part := by
    refine ⟨_, rfl, fun ip => ?_⟩
    rw [List.any_eq_true]
    refine exists_congr fun part => and_congr_right fun _ => ?_
    cases hpart : fromChars part with
    | error e => simp [Reads, hpart]
    | ok value => simp [Reads, hpart]
  rw [FilterAnyExact, hfilter, Except.ok.injEq, filter_eq_filter_iff]
  · refine forall₂_congr fun ip _ => imp_congr (hfound ip) ?_
    rw [decide_eq_true_iff]
    simp only [spells_iff hle]
  · intro ip _ hspells
    obtain ⟨part, hpart, hspelled⟩ := of_decide_eq_true hspells
    exact (hfound ip).mpr ⟨part, hpart, ((spells_iff hle).mp hspelled).1⟩

/-- **When the filters are exact.**  `filter` fails as it should, and finds the addresses that
start with numerals of the octets exactly if no address that reads so has too few parts
or a character behind a numeral; and `filter_any` finds the addresses with a numeral of
the octet exactly if each address that reads so has a whole part that is one. -/
theorem filters_exact_iff (pool : List Address) (octets : List ℤ) (anyOctet : UInt8) :
    (FilterExact pool octets ↔ (InRange octets → ∀ ip ∈ pool,
      (∀ x ∈ octets.zip ip, Reads x.1 x.2) → octets.length ≤ ip.length ∧
        ∀ part ∈ ip.take octets.length, ∀ c ∈ part, c.isDigit = true)) ∧
    (FilterAnyExact pool anyOctet ↔ ∀ ip ∈ pool, (∃ part ∈ ip, Reads anyOctet.toNat part) →
      ∃ part ∈ ip, Reads anyOctet.toNat part ∧ ∀ c ∈ part, c.isDigit = true) :=
  ⟨filterExact_iff, filterAnyExact_iff⟩

/-- A line with one part, and one with letters behind the numerals. -/
def sloppyLines : Text := ['4', '6', '\n', '4', '6', 'x', '.', '7', '0', 'y', '\n']

/-- Neither line has the numerals 46 and 70 as its first parts, and both are found. -/
theorem sloppyLines_found :
    stdinToVector sloppyLines = .ok [[['4', '6']], [['4', '6', 'x'], ['7', '0', 'y']]] ∧
      filter [[['4', '6']], [['4', '6', 'x'], ['7', '0', 'y']]] [46, 70] =
        .ok [[['4', '6']], [['4', '6', 'x'], ['7', '0', 'y']]] ∧
      ([[['4', '6']], [['4', '6', 'x'], ['7', '0', 'y']]].filter
        fun ip => Starts [46, 70] ip) = [] ∧
      ¬FilterExact [[['4', '6']], [['4', '6', 'x'], ['7', '0', 'y']]] [46, 70] ∧
      filterAny [[['4', '6', 'x'], ['7', '0', 'y']]] 70 =
        .ok [[['4', '6', 'x'], ['7', '0', 'y']]] ∧
      ¬FilterAnyExact [[['4', '6', 'x'], ['7', '0', 'y']]] 70 := by
  have hfound : filter [[['4', '6']], [['4', '6', 'x'], ['7', '0', 'y']]] [46, 70] =
      .ok [[['4', '6']], [['4', '6', 'x'], ['7', '0', 'y']]] := rfl
  have hnone : ([[['4', '6']], [['4', '6', 'x'], ['7', '0', 'y']]].filter
      fun ip => Starts [46, 70] ip) = [] := by decide
  refine ⟨by simp only [stdinToVector_eq, split_eq_splitOn]; decide, hfound, hnone, fun h => ?_,
    rfl, fun h => ?_⟩
  · have hexact := h.finds _ hfound
    rw [hnone] at hexact
    cases hexact
  · -- the part that is read has a letter behind the numeral
    have hfalse : ¬∃ part ∈ [['4', '6', 'x'], ['7', '0', 'y']], Spells 70 part := by decide
    have hempty : [[['4', '6', 'x'], ['7', '0', 'y']]] =
        [[['4', '6', 'x'], ['7', '0', 'y']]].filter
          fun ip => ∃ part ∈ ip, Spells (70 : UInt8).toNat part := Except.ok.inj h
    have hmem : [['4', '6', 'x'], ['7', '0', 'y']] ∈ [[['4', '6', 'x'], ['7', '0', 'y']]].filter
        fun ip => ∃ part ∈ ip, Spells (70 : UInt8).toNat part := hempty ▸ List.mem_singleton_self _
    exact hfalse (of_decide_eq_true (List.mem_filter.mp hmem).2)

end Filters

end IpFilter
