import CppProfessional.IpFilter.Program
import CppProfessional.Commands.Framing
import Mathlib.Data.Finset.Max
import Mathlib.Data.Finset.Range
import Mathlib.Data.Set.Subsingleton

/-!
# The comparator on lines that are no addresses

`std::ranges::sort` may only be called with a strict weak order.  The loader validates
nothing, so the pool may hold texts with any parts, and the comparator passes over the
positions at which one of two addresses has no number.  It is decided by the first
position at which both have numbers, and different ones (`comp_iff`), which depends on
both addresses: the others may be incomparable with what decides them.

* `numbered` — the positions at which an address has a number;
* `Lawful` — what the sort asks of the comparator on a pool;
* `Aligned` — no position is passed over between two addresses of the pool: as long as
  no earlier position tells them apart, both have a number at a position or neither has;
* `comp_lawful` — on such a pool the comparator is lawful, on any other one it passes
  over a number, and two kinds of addresses that need passing over make a pool on which
  it is not lawful.
-/

namespace IpFilter

open Commands Containers

/-- The number at a position of an address. -/
def numberAt (ip : Address) (i : ℕ) : Option ℕ := ip[i]?.bind fun part => (fromChars part).toOption

/-- The positions at which an address has a number. -/
def numbered (ip : Address) : Finset ℕ :=
  (Finset.range ip.length).filter fun i => (numberAt ip i).isSome

/-- What `std::ranges::sort` asks of its comparator on a pool.  Asymmetry follows from
irreflexivity and transitivity; it is stated because the library names it. -/
structure Lawful (comp : Address → Address → Bool) (pool : List Address) : Prop
    extends StrictWeakOn comp pool where
  asymm : ∀ a ∈ pool, ∀ b ∈ pool, comp a b = true → comp b a = false

/-- Where both addresses have a number it is the same. -/
def Agree (a b : Address) (i : ℕ) : Prop :=
  ∀ x y, numberAt a i = some x → numberAt b i = some y → x = y

/-- The two addresses have numbers at the same positions, as far as a position has not
told them apart. -/
def Beside (a b : Address) : Prop :=
  ∀ i, (∀ j < i, Agree a b j) → (numberAt a i).isSome = (numberAt b i).isSome

/-- No address of the pool has a number where the comparator finds none beside it. -/
def Aligned (pool : List Address) : Prop := ∀ a ∈ pool, ∀ b ∈ pool, Beside a b

/-- Whether the comparator passes over a number of one of the addresses, beside which
the other one has none: by `continue`, or by the end of the shorter address. -/
def passesOver : Address → Address → Bool
  | first :: firstIp, second :: secondIp =>
      match fromChars first, fromChars second with
      | .ok a, .ok b => if a ≠ b then false else passesOver firstIp secondIp
      | .error _, .error _ => passesOver firstIp secondIp
      | _, _ => true
  | [], rest => rest.any fun part => (fromChars part).toOption.isSome
  | rest, [] => rest.any fun part => (fromChars part).toOption.isSome

/-! ### What decides

The comparator looks for the first position at which both addresses have numbers, and
different ones.  Positions at which one of them has no number are passed over. -/

section Comparison

variable {a b c : Address} {i : ℕ}

/-- The positions with numbers are those at which a number is read. -/
theorem mem_numbered {ip : Address} : i ∈ numbered ip ↔ (numberAt ip i).isSome = true := by
  rw [numbered, Finset.mem_filter, Finset.mem_range, and_iff_right_iff_imp]
  intro h
  by_contra hge
  rw [numberAt, List.getElem?_eq_none (Nat.le_of_not_lt hge)] at h
  cases h

theorem Agree.symm (h : Agree a b i) : Agree b a i := fun x y hx hy => (h y x hy hx).symm

/-- Addresses that agree at a position which is numbered in the middle one. -/
theorem Agree.trans (hab : Agree a b i) (hbc : Agree b c i) (hb : (numberAt b i).isSome = true) :
    Agree a c i := by
  obtain ⟨y, hy⟩ := Option.isSome_iff_exists.mp hb
  intro x z hx hz
  exact (hab x y hx hy).trans (hbc y z hy hz)

/-- The first parts decide, unless they agree. -/
theorem comp_cons (part part' : Text) (a b : Address) :
    comp (part :: a) (part' :: b) = true ↔
      (∃ x y, fromChars part = .ok x ∧ fromChars part' = .ok y ∧ y < x) ∨
      (∀ x y, fromChars part = .ok x → fromChars part' = .ok y → x = y) ∧ comp a b = true := by
  rw [comp]
  cases hpart : fromChars part with
  | error e => simp
  | ok x =>
      cases hpart' : fromChars part' with
      | error e => simp
      | ok y =>
          by_cases hxy : x = y
          · simp [hxy]
          · simp [hxy]

/-- The number at the first position is that of the first part. -/
theorem numberAt_cons_zero (part : Text) (ip : Address) (x : ℕ) :
    numberAt (part :: ip) 0 = some x ↔ fromChars part = .ok x := by
  show (fromChars part).toOption = some x ↔ _
  cases fromChars part <;> simp [Except.toOption]

/-- **What the comparator does.**  The first position at which the addresses do not agree
decides. -/
theorem comp_iff_exists : comp a b = true ↔
    ∃ i x y, numberAt a i = some x ∧ numberAt b i = some y ∧ y < x ∧ ∀ j < i, Agree a b j := by
  induction a generalizing b with
  | nil =>
      constructor
      · intro h
        cases h
      · rintro ⟨i, x, y, hx, -⟩
        cases hx
  | cons part a ih =>
      cases b with
      | nil =>
          constructor
          · intro h
            cases h
          · rintro ⟨i, x, y, -, hy, -⟩
            cases hy
      | cons part' b =>
          rw [comp_cons, ih]
          constructor
          · rintro (⟨x, y, hx, hy, hlt⟩ | ⟨hsame, i, x, y, hx, hy, hlt, hbefore⟩)
            · exact ⟨0, x, y, (numberAt_cons_zero ..).mpr hx, (numberAt_cons_zero ..).mpr hy, hlt,
                fun j hj => absurd hj (Nat.not_lt_zero j)⟩
            · refine ⟨i + 1, x, y, hx, hy, hlt, fun j hj => ?_⟩
              cases j with
              | zero =>
                  intro x y hx hy
                  exact hsame x y ((numberAt_cons_zero ..).mp hx) ((numberAt_cons_zero ..).mp hy)
              | succ j => exact hbefore j (Nat.lt_of_succ_lt_succ hj)
          · rintro ⟨i, x, y, hx, hy, hlt, hbefore⟩
            cases i with
            | zero =>
                exact Or.inl ⟨x, y, (numberAt_cons_zero ..).mp hx, (numberAt_cons_zero ..).mp hy,
                  hlt⟩
            | succ i =>
                refine Or.inr ⟨fun x y hx hy => ?_, i, x, y, hx, hy, hlt, fun j hj => ?_⟩
                · exact hbefore 0 (Nat.zero_lt_succ i) x y ((numberAt_cons_zero ..).mpr hx)
                    ((numberAt_cons_zero ..).mpr hy)
                · exact hbefore (j + 1) (Nat.succ_lt_succ hj)

/-- Addresses that agree everywhere are incomparable. -/
theorem comp_eq_false_of_agree (h : ∀ i, Agree a b i) : comp a b = false := by
  by_contra hab
  obtain ⟨i, x, y, hx, hy, hlt, -⟩ := comp_iff_exists.mp (eq_true_of_ne_false hab)
  exact absurd (h i x y hx hy) hlt.ne'

/-- Incomparable addresses agree everywhere: at the first position where they did not, the
comparator would decide one way or the other. -/
theorem agree_of_comp_eq_false (hab : comp a b = false) (hba : comp b a = false) (i : ℕ) :
    Agree a b i := by
  classical
  by_contra hi
  -- the first position at which they do not agree
  have hex : ∃ i, ¬Agree a b i := ⟨i, hi⟩
  have hbefore (j : ℕ) (hj : j < Nat.find hex) : Agree a b j := not_not.mp (Nat.find_min hex hj)
  obtain ⟨x, y, hx, hy, hne⟩ : ∃ x y, numberAt a (Nat.find hex) = some x ∧
      numberAt b (Nat.find hex) = some y ∧ x ≠ y := by
    by_contra hnone
    exact Nat.find_spec hex fun x y hx hy => by
      by_contra hne
      exact hnone ⟨x, y, hx, hy, hne⟩
  rcases Nat.lt_or_gt_of_ne hne with hlt | hgt
  · have htrue := comp_iff_exists.mpr ⟨_, y, x, hy, hx, hlt, fun j hj => (hbefore j hj).symm⟩
    rw [hba] at htrue
    cases htrue
  · have htrue := comp_iff_exists.mpr ⟨_, x, y, hx, hy, hgt, hbefore⟩
    rw [hab] at htrue
    cases htrue

/-- The comparator is asymmetric on all addresses, and so irreflexive. -/
theorem comp_asymm (hab : comp a b = true) : comp b a = false := by
  by_contra hba
  obtain ⟨i, x, y, hx, hy, hlt, hbefore⟩ := comp_iff_exists.mp hab
  obtain ⟨j, y', x', hy', hx', hlt', hbefore'⟩ := comp_iff_exists.mp (eq_true_of_ne_false hba)
  rcases Nat.lt_trichotomy i j with hij | rfl | hji
  · exact absurd (hbefore' i hij y x hy hx) hlt.ne
  · rw [hx] at hx'
    rw [hy] at hy'
    cases hx'
    cases hy'
    exact absurd hlt hlt'.asymm
  · exact absurd (hbefore j hji x' y' hx' hy') hlt'.ne

end Comparison

/-! ### Aligned pools

In an aligned pool nothing is passed over that could matter: up to the deciding position
two addresses have numbers at the same places.  The comparator is then a lexicographic
order on these numbers. -/

section Aligned

variable {pool : List Address}

/-- Addresses with numbers at the same positions make an aligned pool. -/
theorem aligned_of_numbered (hpool : ∀ a ∈ pool, ∀ b ∈ pool, numbered a = numbered b) :
    Aligned pool := by
  intro a ha b hb i _
  rw [Bool.eq_iff_iff, ← mem_numbered, ← mem_numbered, hpool a ha b hb]

/-- A number beside which another address of an aligned pool has to have one. -/
theorem Aligned.isSome (h : Aligned pool) {a b : Address} (ha : a ∈ pool) (hb : b ∈ pool)
    {i x : ℕ} (hbefore : ∀ j < i, Agree a b j) (hx : numberAt a i = some x) :
    (numberAt b i).isSome = true := by
  rw [← h a ha b hb i hbefore, hx]
  rfl

/-- The middle address carries an agreement on, as it has a number wherever one of the
others has one and nothing before told them apart. -/
theorem Aligned.agree_trans (h : Aligned pool) {a b c : Address} (ha : a ∈ pool) (hb : b ∈ pool)
    {i : ℕ} (hab : ∀ j ≤ i, Agree a b j) (hbc : Agree b c i) : Agree a c i := by
  intro x z hx hz
  have hnumber := h.isSome ha hb (fun j hj => hab j hj.le) hx
  exact (hab i le_rfl).trans hbc hnumber x z hx hz

/-- The earlier of the two deciding positions decides between the outer addresses.  In front of
it all three agree, and as the pool is aligned all three have a number there or none has. -/
theorem Aligned.comp_trans (h : Aligned pool) {a b c : Address} (ha : a ∈ pool) (hb : b ∈ pool)
    (hc : c ∈ pool) (hab : comp a b = true) (hbc : comp b c = true) : comp a c = true := by
  obtain ⟨i, x, y, hx, hy, hlt, hbefore⟩ := comp_iff_exists.mp hab
  obtain ⟨j, y', z, hy', hz, hlt', hbefore'⟩ := comp_iff_exists.mp hbc
  have hagree (k : ℕ) (hki : k < i) (hkj : k < j) : Agree a c k :=
    h.agree_trans ha hb (fun l hl => hbefore l (hl.trans_lt hki)) (hbefore' k hkj)
  refine comp_iff_exists.mpr ?_
  rcases Nat.lt_trichotomy i j with hij | rfl | hji
  · -- the first position decides, and there the last two are equal
    obtain ⟨z', hz'⟩ := Option.isSome_iff_exists.mp
      (h.isSome hb hc (fun k hk => hbefore' k (hk.trans hij)) hy)
    obtain rfl := hbefore' i hij y z' hy hz'
    exact ⟨i, x, y, hx, hz', hlt, fun k hk => hagree k hk (hk.trans hij)⟩
  · rw [hy] at hy'
    cases hy'
    exact ⟨i, x, z, hx, hz, hlt'.trans hlt, fun k hk => hagree k hk hk⟩
  · obtain ⟨x', hx'⟩ := Option.isSome_iff_exists.mp
      (h.isSome hb ha (fun k hk => (hbefore k (hk.trans hji)).symm) hy')
    obtain rfl := hbefore j hji x' y' hx' hy'
    exact ⟨j, x', z, hx', hz, hlt', fun k hk => hagree k (hk.trans hji) hk⟩

/-- **Aligned pools.**  The comparator is a strict weak order on them. -/
theorem Aligned.lawful (h : Aligned pool) : Lawful comp pool where
  irrefl a _ := comp_eq_false_of_agree fun i x y hx hy => Option.some.inj (hx.symm.trans hy)
  trans a ha b hb c hc hab hbc := h.comp_trans ha hb hc hab hbc
  incomparable a ha b hb c hc hab hba hbc hcb := by
    have hagree (i : ℕ) : Agree a c i :=
      h.agree_trans ha hb (fun j _ => agree_of_comp_eq_false hab hba j)
        (agree_of_comp_eq_false hbc hcb i)
    exact ⟨comp_eq_false_of_agree hagree, comp_eq_false_of_agree fun i => (hagree i).symm⟩
  asymm _ _ _ _ hab := comp_asymm hab

end Aligned

/-! ### Numbers that are passed over

Outside aligned pools the branch is reached: there are two addresses, and a number of
one of them that the comparator skips because the other has none there. -/

section PassedOver

variable {a b : Address}

/-- Beside an address without parts, any number is passed over. -/
theorem any_eq_false_iff_beside_nil (b : Address) :
    b.any (fun part => (fromChars part).toOption.isSome) = false ↔ Beside [] b := by
  rw [List.any_eq_false]
  constructor
  · intro hnone i _
    symm
    rw [show numberAt [] i = none from rfl, Option.isSome_none, numberAt]
    cases hpart : b[i]? with
    | none => rfl
    | some part => exact eq_false_of_ne_true (hnone part (List.mem_of_getElem? hpart))
  · intro hbeside part hpart
    obtain ⟨i, hi⟩ := List.mem_iff_getElem?.mp hpart
    have hnone := hbeside i fun j _ x y hx => by cases hx
    rw [show numberAt [] i = none from rfl, numberAt, hi] at hnone
    exact Bool.eq_false_iff.mp hnone.symm

theorem Beside.symm (h : Beside a b) : Beside b a :=
  fun i hbefore => (h i fun j hj => (hbefore j hj).symm).symm

/-- The first parts of addresses that stand beside each other, and what is left of them
unless the first parts tell them apart. -/
theorem beside_cons (part part' : Text) (a b : Address) :
    Beside (part :: a) (part' :: b) ↔
      (fromChars part).toOption.isSome = (fromChars part').toOption.isSome ∧
      ((∀ x y, fromChars part = .ok x → fromChars part' = .ok y → x = y) → Beside a b) := by
  have hzero : Agree (part :: a) (part' :: b) 0 ↔
      ∀ x y, fromChars part = .ok x → fromChars part' = .ok y → x = y := by
    simp only [Agree, numberAt_cons_zero]
  constructor
  · intro h
    refine ⟨h 0 fun j hj => absurd hj (Nat.not_lt_zero j), fun hsame i hbefore => ?_⟩
    refine h (i + 1) fun j hj => ?_
    cases j with
    | zero => exact hzero.mpr hsame
    | succ j => exact hbefore j (Nat.lt_of_succ_lt_succ hj)
  · rintro ⟨hfirst, hrest⟩ i hbefore
    cases i with
    | zero => exact hfirst
    | succ i =>
        exact hrest (hzero.mp (hbefore 0 (Nat.zero_lt_succ i))) i fun j hj =>
          hbefore (j + 1) (Nat.succ_lt_succ hj)

/-- **What the comparator passes over.**  It passes over nothing exactly if the
addresses have numbers at the same positions as far as it looks. -/
theorem passesOver_eq_false_iff : passesOver a b = false ↔ Beside a b := by
  induction a generalizing b with
  | nil =>
      rw [← any_eq_false_iff_beside_nil]
      cases b <;> rfl
  | cons part a ih =>
      cases b with
      | nil =>
          rw [passesOver, any_eq_false_iff_beside_nil]
          · exact ⟨Beside.symm, Beside.symm⟩
          · rintro ⟨⟩
      | cons part' b =>
          rw [beside_cons, passesOver, ← ih]
          cases hpart : fromChars part with
          | error e =>
              cases hpart' : fromChars part' with
              | error e => simp [Except.toOption]
              | ok y => simp [Except.toOption]
          | ok x =>
              cases hpart' : fromChars part' with
              | error e => simp [Except.toOption]
              | ok y =>
                  by_cases hxy : x = y
                  · simp [hxy, Except.toOption]
                  · simp [hxy, Except.toOption]

/-- A pool that is not aligned has two addresses between which a number is passed over. -/
theorem exists_passesOver {pool : List Address} (h : ¬Aligned pool) :
    ∃ a ∈ pool, ∃ b ∈ pool, passesOver a b = true := by
  by_contra hnone
  refine h fun a ha b hb => passesOver_eq_false_iff.mp (eq_false_of_ne_true fun hpasses => ?_)
  exact hnone ⟨a, ha, b, hb, hpasses⟩

end PassedOver

/-! ### What the loader returns

That the branch does harm is shown on pools which the program really loads.  For any two
different kinds of addresses there are numbers with which the comparator is not
transitive on them. -/

/-- The parts of an address as the loader makes them. -/
def Loadable (ip : Address) : Prop :=
  ip ≠ [] ∧ ∀ part ∈ ip, '.' ∉ part ∧ '\t' ∉ part ∧ '\n' ∉ part

/-- A character other than the dot is in an address only if it is in one of its parts. -/
theorem notMem_join {c : Char} (hc : c ≠ '.') {ip : Address} (hip : ∀ part ∈ ip, c ∉ part) :
    c ∉ join ip := by
  induction ip with
  | nil => exact List.not_mem_nil
  | cons part rest ih =>
      rw [List.forall_mem_cons] at hip
      by_cases hrest : rest = []
      · rw [hrest, join, List.intercalate_singleton]
        exact hip.1
      · have hsplit : join (part :: rest) = part ++ ['.'] ++ join rest := by
          rw [join, List.intercalate_cons_of_ne_nil hrest]
          rfl
        rw [hsplit]
        simp [hip.1, hc, ih hip.2]

/-- A pool that the loader can return: each address is a line of its own, if none of its parts
has a dot, a tab or a line break in it. -/
theorem exists_input {pool : List Address} (hpool : ∀ ip ∈ pool, Loadable ip) :
    ∃ input, stdinToVector input = .ok pool := by
  refine ⟨unlines (pool.map join), ?_⟩
  have hlines : getlines '\n' (unlines (pool.map join)) = pool.map join := by
    induction pool with
    | nil => rfl
    | cons ip pool ih =>
        rw [List.forall_mem_cons] at hpool
        have hline : '\n' ∉ join ip :=
          notMem_join (by decide) fun part hpart => (hpool.1.2 part hpart).2.2
        rw [List.map_cons, unlines, List.flatMap_cons, List.append_assoc]
        exact (getlines_line hline _).trans (congrArg _ (ih hpool.2))
  have hsame : ∀ ip ∈ pool, split ((join ip).takeWhile (· ≠ '\t')) '.' = ip := by
    intro ip hip
    obtain ⟨hne, hparts⟩ := hpool ip hip
    have htab : '\t' ∉ join ip := notMem_join (by decide) fun part hpart => (hparts part hpart).2.1
    have hwhole : (join ip).takeWhile (· ≠ '\t') = join ip := by
      refine List.takeWhile_eq_self_iff.mpr fun c hc => decide_eq_true ?_
      rintro rfl
      exact htab hc
    rw [hwhole, split_eq_splitOn, join,
      List.splitOn_intercalate '.' (fun part hpart => (hparts part hpart).1) hne]
  rw [stdinToVector_eq, texts, hlines, List.map_map, List.map_map]
  exact congrArg Except.ok ((List.map_congr_left hsame).trans (List.map_id pool))

/-- An address with ones and zeros at given positions and letters at the others. -/
def written (n : ℕ) (P ones : Finset ℕ) : Address :=
  (List.range n).map fun i => if i ∈ P then if i ∈ ones then ['1'] else ['0'] else ['x']

section Written

variable {n : ℕ} {P Q ones : Finset ℕ}

/-- The address has numbers at the positions it is to have, with the values it is to have. -/
theorem numberAt_written (hP : ∀ i ∈ P, i < n) (i : ℕ) :
    numberAt (written n P ones) i =
      if i ∈ P then if i ∈ ones then some 1 else some 0 else none := by
  rw [numberAt, written, List.getElem?_map]
  by_cases hi : i < n
  · rw [List.getElem?_range hi]
    by_cases hmem : i ∈ P <;> by_cases hone : i ∈ ones <;> simp [hmem, hone] <;> rfl
  · rw [List.getElem?_eq_none (by simpa using hi), if_neg fun hmem => hi (hP i hmem)]
    rfl

/-- So it has them at no other. -/
theorem numbered_written (hP : ∀ i ∈ P, i < n) : numbered (written n P ones) = P := by
  ext i
  rw [mem_numbered, numberAt_written hP]
  by_cases hmem : i ∈ P <;> by_cases hone : i ∈ ones <;> simp [hmem, hone]

/-- It is one that the program can load. -/
theorem loadable_written (hn : 0 < n) : Loadable (written n P ones) := by
  constructor
  · rw [written, ne_eq, List.map_eq_nil_iff, List.range_eq_nil]
    exact hn.ne'
  · intro part hpart
    obtain ⟨i, -, rfl⟩ := List.mem_map.mp hpart
    split
    · split <;> decide
    · decide

/-- Addresses of two kinds: the ones with a number at `i` are told apart there, and none
of them from the other kind. -/
theorem not_lawful_written (hP : ∀ j ∈ P, j < n) (hQ : ∀ j ∈ Q, j < n) {i : ℕ} (hi : i ∈ P)
    (hne : i ∉ Q) :
    ¬Lawful comp [written n P {i}, written n Q ∅, written n P ∅] := by
  intro h
  have hagree (ones : Finset ℕ) (hones : ones ⊆ {i}) (j : ℕ) :
      Agree (written n P ones) (written n Q ∅) j := by
    intro x y hx hy
    rw [numberAt_written hP] at hx
    rw [numberAt_written hQ] at hy
    by_cases hj : j ∈ ones
    · obtain rfl := Finset.mem_singleton.mp (hones hj)
      rw [if_neg hne] at hy
      cases hy
    · simp only [hj, if_false, Finset.notMem_empty] at hx hy
      split at hx <;> cases hx
      split at hy <;> cases hy
      rfl
  have hone := hagree {i} (Finset.Subset.refl _)
  have hzero := hagree ∅ (Finset.empty_subset _)
  obtain ⟨hfalse, -⟩ := h.incomparable _ (by simp) (written n Q ∅) (by simp) (written n P ∅)
    (by simp) (comp_eq_false_of_agree hone) (comp_eq_false_of_agree fun j => (hone j).symm)
    (comp_eq_false_of_agree fun j => (hzero j).symm) (comp_eq_false_of_agree hzero)
  have htrue : comp (written n P {i}) (written n P ∅) = true := by
    refine comp_iff_exists.mpr ⟨i, 1, 0, ?_, ?_, Nat.one_pos, fun j hj => ?_⟩
    · simp [numberAt_written hP, hi]
    · simp [numberAt_written hP, hi]
    · intro x y hx hy
      rw [numberAt_written hP] at hx hy
      simp only [Finset.mem_singleton, hj.ne, Finset.notMem_empty, if_false] at hx hy
      exact Option.some.inj (hx.symm.trans hy)
  rw [htrue] at hfalse
  cases hfalse

end Written

/-- **Kinds of addresses.**  For a set of kinds, a kind being the positions with numbers,
the comparator is lawful on all pools of these kinds exactly if there is one at most. -/
theorem lawful_kinds_iff (kinds : Set (Finset ℕ)) :
    (∀ input pool, stdinToVector input = .ok pool → (∀ ip ∈ pool, numbered ip ∈ kinds) →
      Lawful comp pool) ↔ kinds.Subsingleton := by
  constructor
  · intro h P hP Q hQ
    by_contra hne
    -- a position at which one kind has a number and the other has none
    wlog hex : ∃ i ∈ P, i ∉ Q generalizing P Q
    · refine this hQ hP (Ne.symm hne) ?_
      by_contra hnone
      refine hne (Finset.Subset.antisymm (fun i hi => ?_) fun i hi => ?_)
      · by_contra hi'
        exact hex ⟨i, hi, hi'⟩
      · by_contra hi'
        exact hnone ⟨i, hi, hi'⟩
    obtain ⟨i, hi, hi'⟩ := hex
    have hbound (j : ℕ) (hj : j ∈ P ∪ Q) : j < (P ∪ Q).sup id + 1 :=
      Nat.lt_succ_of_le (Finset.le_sup (f := id) hj)
    have hboundP (j : ℕ) (hj : j ∈ P) := hbound j (Finset.mem_union_left _ hj)
    have hboundQ (j : ℕ) (hj : j ∈ Q) := hbound j (Finset.mem_union_right _ hj)
    have hload (R ones : Finset ℕ) : Loadable (written ((P ∪ Q).sup id + 1) R ones) :=
      loadable_written (Nat.succ_pos _)
    have hpool : ∀ ip ∈ [written ((P ∪ Q).sup id + 1) P {i},
        written ((P ∪ Q).sup id + 1) Q ∅, written ((P ∪ Q).sup id + 1) P ∅], Loadable ip := by
      simp [hload]
    obtain ⟨input, hinput⟩ := exists_input hpool
    refine not_lawful_written hboundP hboundQ hi hi' (h input _ hinput fun ip hip => ?_)
    simp only [List.mem_cons, List.not_mem_nil, or_false] at hip
    rcases hip with rfl | rfl | rfl
    · rwa [numbered_written hboundP]
    · rwa [numbered_written hboundQ]
    · rwa [numbered_written hboundP]
  · intro hone input pool _ hkinds
    exact (aligned_of_numbered fun a ha b hb => hone (hkinds a ha) (hkinds b hb)).lawful

/-- **When the comparator is lawful.**  On every pool, and so on every one that the loader
returns, it is lawful if the pool is aligned, and passes over a number of one of two
addresses otherwise; and addresses of two kinds make a pool of the loader on which it is
not lawful. -/
theorem comp_lawful (pool : List Address) :
    (Aligned pool → Lawful comp pool) ∧
      (¬Aligned pool → ∃ a ∈ pool, ∃ b ∈ pool, passesOver a b = true ∧
        ∃ input' pool', stdinToVector input' = .ok pool' ∧
          (∀ ip ∈ pool', numbered ip = numbered a ∨ numbered ip = numbered b) ∧
          ¬Lawful comp pool') ∧
      ∀ kinds : Set (Finset ℕ),
        (∀ input pool, stdinToVector input = .ok pool → (∀ ip ∈ pool, numbered ip ∈ kinds) →
          Lawful comp pool) ↔ kinds.Subsingleton := by
  refine ⟨Aligned.lawful, fun hnot => ?_, lawful_kinds_iff⟩
  obtain ⟨a, ha, b, hb, hpasses⟩ := exists_passesOver hnot
  refine ⟨a, ha, b, hb, hpasses, ?_⟩
  -- the two addresses are of different kinds, as the same kinds never pass over a number
  have hkinds : ¬({numbered a, numbered b} : Set (Finset ℕ)).Subsingleton := by
    intro hone
    have hbeside : Beside a b := fun i _ => by
      rw [Bool.eq_iff_iff, ← mem_numbered, ← mem_numbered,
        hone (Set.mem_insert _ _) (Set.mem_insert_of_mem _ rfl)]
    rw [passesOver_eq_false_iff.mpr hbeside] at hpasses
    cases hpasses
  rw [← lawful_kinds_iff] at hkinds
  by_contra hnone
  refine hkinds fun input' pool' hinput' hpool' => ?_
  by_contra hlawful
  exact hnone ⟨input', pool', hinput', hpool', hlawful⟩

/-- Two lines with numbers at different positions, which the first position tells
apart. -/
def twoLengths : Text := ['1', '\n', '2', '.', '3', '\n']

/-- The comparator is lawful on them: it never looks at the second position. -/
theorem comp_lawful_twoLengths :
    stdinToVector twoLengths = .ok [[['1']], [['2'], ['3']]] ∧
    numbered [['1']] ≠ numbered [['2'], ['3']] ∧
    Lawful comp [[['1']], [['2'], ['3']]] := by
  have hinput : stdinToVector twoLengths = .ok [[['1']], [['2'], ['3']]] := by
    simp only [stdinToVector_eq, split_eq_splitOn]
    decide
  refine ⟨hinput, by decide, (comp_lawful [[['1']], [['2'], ['3']]]).1 ?_⟩
  have hpasses : ∀ a ∈ [[['1']], [['2'], ['3']]], ∀ b ∈ [[['1']], [['2'], ['3']]],
      passesOver a b = false := by decide
  exact fun a ha b hb => passesOver_eq_false_iff.mp (hpasses a ha b hb)

/-- Three lines, one of them without a number. -/
def threeLines : Text := ['2', '\n', 'x', '\n', '1', '\n']

/-- The line without a number is incomparable with both numbers, which are comparable. -/
theorem threeLines_not_lawful : stdinToVector threeLines = .ok [[['2']], [['x']], [['1']]] ∧
    comp [['2']] [['x']] = false ∧ comp [['x']] [['2']] = false ∧
    comp [['x']] [['1']] = false ∧ comp [['1']] [['x']] = false ∧
    comp [['2']] [['1']] = true ∧ ¬Lawful comp [[['2']], [['x']], [['1']]] := by
  have hcomp : comp [['2']] [['x']] = false ∧ comp [['x']] [['2']] = false ∧
      comp [['x']] [['1']] = false ∧ comp [['1']] [['x']] = false ∧
      comp [['2']] [['1']] = true := by decide
  obtain ⟨hab, hba, hbc, hcb, hac⟩ := hcomp
  refine ⟨by simp only [stdinToVector_eq, split_eq_splitOn]; decide, hab, hba, hbc, hcb, hac,
    fun h => ?_⟩
  have hfalse := (h.incomparable [['2']] (by simp) [['x']] (by simp) [['1']] (by simp)
    hab hba hbc hcb).1
  rw [hac] at hfalse
  cases hfalse

end IpFilter
