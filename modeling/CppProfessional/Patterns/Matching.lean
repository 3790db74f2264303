import CppProfessional.Patterns.Regex
import Mathlib.Computability.Language
import Mathlib.Logic.Relation

/-!
# Matching

An expression is matched by trying, from a place in a text, everything that it can take; the
places where it can end are listed in the order in which they are tried.  Characters are
compared in either case.

* `State` — a place in a text, and what the groups have captured;
* `ends`, `accepts` — where an expression can end, and if it takes a whole text;
* `mem_upTo` — the turns of a loop: each takes something, so there are no more of them than
  characters, and `upTo` finds all places that they lead to;
* `Node.Plain`, `Node.language`, `ends_iff_language` — expressions without assertions and
  captures have a language, and match the words of it;
* `Node.Blind`, `ends_map` — expressions that do not tell two characters apart.
-/

namespace Patterns

/-- A place in a text: what comes before, the nearest first, and what comes after. -/
structure State where
  past : List Char
  rest : List Char
  captures : List (ℕ × List Char)

/-- The end of a line, which the dot does not match. -/
def isTerminator (c : Char) : Bool := c ∈ ['\n', '\r', '\u2028', '\u2029']

def sameLetter (c d : Char) : Bool := c.toLower = d.toLower

def Item.has (c : Char) : Item → Bool
  | .range low high => [c, c.toLower, c.toUpper].any fun d => low ≤ d && d ≤ high
  | .members p => [c, c.toLower, c.toUpper].any p

/-- The groups in an expression. -/
def Node.groups : Node → List ℕ
  | .group index body => index :: body.groups
  | .seq first second => first.groups ++ second.groups
  | .alt first second => first.groups ++ second.groups
  | .loop _ _ body => body.groups
  | _ => []

namespace State

def init (text : List Char) : State := ⟨[], text, []⟩

/-- Takes a character. -/
def take (p : Char → Bool) (s : State) : List State :=
  match s.rest with
  | c :: rest => if p c then [⟨c :: s.past, rest, s.captures⟩] else []
  | [] => []

/-- A word begins or ends here. -/
def atBoundary (s : State) : Bool := s.past.head?.any isWord != s.rest.head?.any isWord

/-- Takes what a group has captured, if it has captured anything. -/
def repeatCapture (index : ℕ) (s : State) : List State :=
  match s.captures.lookup index with
  | none => [s]
  | some captured =>
      let next := s.rest.take captured.length
      if next.map Char.toLower = captured.map Char.toLower then
        [⟨next.reverse ++ s.past, s.rest.drop captured.length, s.captures⟩]
      else []

/-- A group that began at a place `from` captures what was taken since. -/
def capture (index : ℕ) (origin s : State) : State :=
  let captured := (s.past.take (s.past.length - origin.past.length)).reverse
  { s with captures := (index, captured) :: s.captures }

def forget (groups : List ℕ) (s : State) : State :=
  { s with captures := s.captures.filter fun captured => captured.1 ∉ groups }

end State

/-- So many turns of a loop. -/
def iterate (turn : State → List State) : ℕ → State → List State
  | 0, s => [s]
  | n + 1, s => (turn s).flatMap (iterate turn n)

/-- Up to so many turns, each of which takes something; more are tried before fewer. -/
def upTo (turn : State → List State) : ℕ → State → List State
  | 0, s => [s]
  | n + 1, s =>
      ((turn s).filter fun t => t.rest.length < s.rest.length).flatMap (upTo turn n) ++ [s]

/-- The places where an expression can end. -/
def ends : Node → State → List State
  | .empty, s => [s]
  | .char c, s => s.take (sameLetter c)
  | .any, s => s.take fun d => !isTerminator d
  | .set negated items, s => s.take fun d => items.any (Item.has d) != negated
  | .start, s => if s.past.isEmpty then [s] else []
  | .stop, s => if s.rest.isEmpty then [s] else []
  | .boundary negated, s => if s.atBoundary != negated then [s] else []
  | .back index, s => s.repeatCapture index
  | .group index body, s => (ends body s).map (State.capture index s)
  | .seq first second, s => (ends first s).flatMap (ends second)
  | .alt first second, s => ends first s ++ ends second s
  | .loop min max body, s =>
      let turn := fun s => ends body (s.forget body.groups)
      (iterate turn min s).flatMap fun t =>
        upTo turn (max.elim t.rest.length fun max => Nat.min (max - min) t.rest.length) t

/-- `std::regex_match` -/
def accepts (node : Node) (text : List Char) : Bool :=
  (ends node (.init text)).any fun s => s.rest.isEmpty

/-- `regex_match`: an end of the expression that leaves nothing of the text. -/
theorem accepts_iff {node : Node} {text : List Char} :
    accepts node text = true ↔ ∃ s ∈ ends node (.init text), s.rest = [] := by
  simp [accepts]

/-! ### Turns

A loop is tried with more turns before fewer, and a turn has to take something.  So the
number of turns is bounded by the length of the text, and all ends are found. -/

section Turns

variable {turn : State → List State}

/-- A turn that takes something. -/
def Turn (turn : State → List State) (s t : State) : Prop :=
  t ∈ turn s ∧ t.rest.length < s.rest.length

/-- **The turns of a loop.**  As many as there are characters are enough to get wherever any
number of turns leads. -/
theorem mem_upTo {n : ℕ} {s t : State} (hn : s.rest.length ≤ n) :
    t ∈ upTo turn n s ↔ Relation.ReflTransGen (Turn turn) s t := by
  induction n generalizing s with
  | zero =>
      -- no turn can take anything from a text that is empty
      have hrest : s.rest.length = 0 := Nat.le_zero.mp hn
      rw [upTo, List.mem_singleton]
      constructor
      · rintro rfl
        exact .refl
      · intro h
        rcases h.cases_head with rfl | ⟨u, hturn, -⟩
        · rfl
        · have hless := hturn.2
          omega
  | succ n ih =>
      have hless {u : State} (hu : u.rest.length < s.rest.length) : u.rest.length ≤ n :=
        Nat.le_of_lt_succ (hu.trans_le hn)
      rw [upTo, List.mem_append, List.mem_singleton, List.mem_flatMap]
      constructor
      · rintro (⟨u, hu, ht⟩ | rfl)
        · obtain ⟨hmem, hlt⟩ := List.mem_filter.mp hu
          have hlt := of_decide_eq_true hlt
          exact .head ⟨hmem, hlt⟩ ((ih (hless hlt)).mp ht)
        · exact .refl
      · intro h
        rcases h.cases_head with rfl | ⟨u, hturn, ht⟩
        · exact Or.inr rfl
        · refine Or.inl ⟨u, List.mem_filter.mpr ⟨hturn.1, decide_eq_true hturn.2⟩, ?_⟩
          exact (ih (hless hturn.2)).mpr ht

end Turns

/-! ### Languages

For expressions that only take characters the list of ends can be forgotten: what can be
taken is a word of a language, whichever way the matcher finds it. -/

/-- The words of one letter. -/
def letters (p : Char → Bool) : Language Char := {w | ∃ c, p c = true ∧ w = [c]}

theorem mem_letters {p : Char → Bool} {w : List Char} :
    w ∈ letters p ↔ ∃ c, p c = true ∧ w = [c] :=
  Iff.rfl

/-- The words that a star of letters takes: all of its letters belong to the set. -/
theorem mem_kstar_letters {p : Char → Bool} {w : List Char} :
    w ∈ KStar.kstar (letters p) ↔ ∀ c ∈ w, p c = true := by
  rw [Language.mem_kstar]
  constructor
  · rintro ⟨words, rfl, hwords⟩ c hc
    obtain ⟨word, hword, hc⟩ := List.mem_flatten.mp hc
    obtain ⟨d, hd, rfl⟩ := hwords word hword
    rwa [List.mem_singleton.mp hc]
  · intro h
    refine ⟨w.map fun c => [c], by rw [← List.flatMap_def, List.flatMap_singleton'], ?_⟩
    intro word hword
    obtain ⟨c, hc, rfl⟩ := List.mem_map.mp hword
    exact ⟨c, h c hc, rfl⟩

/-- From every place the words of a language are taken, and no others. -/
def Takes (f : State → List State) (L : Language Char) : Prop :=
  ∀ s rest, (∃ t ∈ f s, t.rest = rest) ↔ ∃ w ∈ L, s.rest = w ++ rest

namespace Takes

variable {f g : State → List State} {L M : Language Char}

theorem nothing : Takes (fun s => [s]) 1 := by
  intro s rest
  simp [Language.mem_one]

/-- Taking a letter takes the words of one letter. -/
theorem letter (p : Char → Bool) : Takes (State.take p) (letters p) := by
  intro s rest
  unfold State.take
  constructor
  · rintro ⟨t, ht, rfl⟩
    split at ht
    · next c after hrest =>
        split at ht
        · next hc =>
            obtain rfl := List.mem_singleton.mp ht
            exact ⟨[c], ⟨c, hc, rfl⟩, hrest⟩
        · simp at ht
    · simp at ht
  · rintro ⟨w, ⟨c, hc, rfl⟩, hrest⟩
    rw [hrest]
    exact ⟨⟨c :: s.past, rest, s.captures⟩, by simp [hc], rfl⟩

/-- One after the other takes the products of the two languages. -/
theorem seq (hf : Takes f L) (hg : Takes g M) :
    Takes (fun s => (f s).flatMap g) (L * M) := by
  intro s rest
  constructor
  · rintro ⟨t, ht, hrest⟩
    obtain ⟨u, hu, ht⟩ := List.mem_flatMap.mp ht
    obtain ⟨w, hw, hu'⟩ := (hg u rest).mp ⟨t, ht, hrest⟩
    obtain ⟨v, hv, hs⟩ := (hf s (w ++ rest)).mp ⟨u, hu, hu'⟩
    exact ⟨v ++ w, Language.mem_mul.mpr ⟨v, hv, w, hw, rfl⟩, by rw [hs, List.append_assoc]⟩
  · rintro ⟨_, hvw, hs⟩
    obtain ⟨v, hv, w, hw, rfl⟩ := Language.mem_mul.mp hvw
    rw [List.append_assoc] at hs
    obtain ⟨u, hu, hu'⟩ := (hf s (w ++ rest)).mpr ⟨v, hv, hs⟩
    obtain ⟨t, ht, hrest⟩ := (hg u rest).mpr ⟨w, hw, hu'⟩
    exact ⟨t, List.mem_flatMap.mpr ⟨u, hu, ht⟩, hrest⟩

/-- Either of two takes the words of both languages. -/
theorem alt (hf : Takes f L) (hg : Takes g M) : Takes (fun s => f s ++ g s) (L + M) := by
  intro s rest
  simp only [List.mem_append, Language.mem_add, or_and_right, exists_or]
  exact or_congr (hf s rest) (hg s rest)

/-- What a state has captured makes no difference. -/
theorem comp (hf : Takes f L) {e : State → State} (he : ∀ s, (e s).rest = s.rest) :
    Takes (fun s => f (e s)) L := by
  intro s rest
  rw [hf (e s) rest, he s]

theorem iterate (hf : Takes f L) (n : ℕ) : Takes (iterate f n) (L ^ n) := by
  induction n with
  | zero => exact nothing
  | succ n ih =>
      rw [pow_succ']
      exact hf.seq ih

/-- Turns of a loop take words of the star. -/
theorem of_turns (hf : Takes f L) {s t : State}
    (h : Relation.ReflTransGen (Turn f) s t) : ∃ w ∈ KStar.kstar L, s.rest = w ++ t.rest := by
  induction h using Relation.ReflTransGen.head_induction_on with
  | refl => exact ⟨[], Language.nil_mem_kstar L, rfl⟩
  | head hturn _ ih =>
      obtain ⟨w, hw, hrest⟩ := ih
      obtain ⟨v, hv, hs⟩ := (hf _ _).mp ⟨_, hturn.1, rfl⟩
      refine ⟨v ++ w, ?_, by rw [hs, hrest, List.append_assoc]⟩
      rw [← Language.one_add_self_mul_kstar_eq_kstar]
      exact Or.inr (Language.mem_mul.mpr ⟨v, hv, w, hw, rfl⟩)

/-- Words of the star are taken by turns of the loop.  An empty word is not a turn, which is
why the words have to be non-empty. -/
theorem turns (hf : Takes f L) {words : List (List Char)} {s : State} {rest : List Char}
    (hwords : ∀ w ∈ words, w ∈ L ∧ w ≠ []) (hs : s.rest = words.flatten ++ rest) :
    ∃ t, Relation.ReflTransGen (Turn f) s t ∧ t.rest = rest := by
  induction words generalizing s with
  | nil => exact ⟨s, .refl, hs⟩
  | cons w words ih =>
      obtain ⟨hw, hne⟩ := hwords w List.mem_cons_self
      rw [List.flatten_cons, List.append_assoc] at hs
      obtain ⟨u, hu, hrest⟩ := (hf s _).mpr ⟨w, hw, hs⟩
      obtain ⟨t, hturns, ht⟩ := ih (fun v hv => hwords v (List.mem_cons_of_mem w hv)) hrest
      refine ⟨t, .head ⟨hu, ?_⟩ hturns, ht⟩
      have hlength : (w ++ (words.flatten ++ rest)).length =
          w.length + (words.flatten ++ rest).length := List.length_append
      rw [hrest, hs, hlength]
      exact Nat.lt_add_of_pos_left (List.length_pos_iff.mpr hne)

/-- A loop takes the words of the star. -/
theorem star (hf : Takes f L) : Takes (fun s => upTo f s.rest.length s) (KStar.kstar L) := by
  intro s rest
  constructor
  · rintro ⟨t, ht, rfl⟩
    exact hf.of_turns ((mem_upTo le_rfl).mp ht)
  · rintro ⟨w, hw, hs⟩
    rw [Language.kstar_def_nonempty] at hw
    obtain ⟨words, rfl, hwords⟩ := hw
    obtain ⟨t, hturns, ht⟩ := hf.turns hwords hs
    exact ⟨t, (mem_upTo le_rfl).mpr hturns, ht⟩

end Takes

/-- Expressions that look at nothing but the characters that they take. -/
def Node.Plain : Node → Prop
  | .empty | .char _ | .any | .set _ _ => True
  | .seq first second => first.Plain ∧ second.Plain
  | .alt first second => first.Plain ∧ second.Plain
  | .loop _ max body => max = none ∧ body.Plain
  | _ => False

/-- The words of an expression. -/
def Node.language : Node → Language Char
  | .empty => 1
  | .char c => letters (sameLetter c)
  | .any => letters fun d => !isTerminator d
  | .set negated items => letters fun d => items.any (Item.has d) != negated
  | .seq first second => first.language * second.language
  | .alt first second => first.language + second.language
  | .loop min _ body => body.language ^ min * KStar.kstar body.language
  | _ => 0

/-- **Plain expressions** match the words of their languages.  By induction on the expression,
with one rule for each operator; a group takes what its body takes. -/
theorem Node.Plain.takes {node : Node} (h : node.Plain) : Takes (ends node) node.language := by
  induction node with
  | empty => exact .nothing
  | char c => exact .letter _
  | any => exact .letter _
  | set negated items => exact .letter _
  | seq first second ihf ihs => exact (ihf h.1).seq (ihs h.2)
  | alt first second ihf ihs => exact (ihf h.1).alt (ihs h.2)
  | loop min max body ih =>
      obtain ⟨rfl, hbody⟩ := h
      have hturn := (ih hbody).comp (e := State.forget body.groups) fun _ => rfl
      exact (hturn.iterate min).seq hturn.star
  | start => exact h.elim
  | stop => exact h.elim
  | boundary negated => exact h.elim
  | back index => exact h.elim
  | group index body ih => exact h.elim

/-! ### One after the other

An expression that the parser has read is a chain.  Its language is a product, and the
anchors at its two ends add nothing to a match of the whole text. -/

/-- A chain of two parts ends where the second part ends from an end of the first. -/
theorem ends_chain_append (front back : List Node) (s : State) :
    ends (chain (front ++ back)) s = (ends (chain front) s).flatMap (ends (chain back)) := by
  induction front generalizing s with
  | nil => exact (List.flatMap_singleton _ s).symm
  | cons node front ih =>
      show (ends node s).flatMap (ends (chain (front ++ back))) =
        ((ends node s).flatMap (ends (chain front))).flatMap (ends (chain back))
      rw [List.flatMap_assoc, funext ih]

/-- The language of a chain is the product of its parts. -/
theorem language_chain (nodes : List Node) :
    (chain nodes).language = (nodes.map Node.language).prod := by
  induction nodes with
  | nil => rfl
  | cons node nodes ih =>
      rw [List.map_cons, List.prod_cons, ← ih]
      rfl

/-- At the beginning and at the end of the expression the anchors make no difference, since
`regex_match` asks for the whole text anyway. -/
theorem accepts_anchored {nodes : List Node} {text : List Char} :
    accepts (chain (.start :: (nodes ++ [.stop]))) text = true ↔
      ∃ s ∈ ends (chain nodes) (.init text), s.rest = [] := by
  have hends : ends (chain (.start :: (nodes ++ [.stop]))) (.init text) =
      (ends (chain nodes) (.init text)).flatMap (ends (chain [.stop])) := by
    rw [← ends_chain_append]
    exact List.flatMap_singleton _ _
  have hstop (s : State) : ends (chain [.stop]) s = if s.rest.isEmpty then [s] else [] := by
    show (if s.rest.isEmpty then [s] else []).flatMap (fun s => [s]) = _
    exact List.flatMap_singleton' _
  rw [accepts_iff, hends]
  constructor
  · rintro ⟨t, ht, hrest⟩
    obtain ⟨s, hs, ht⟩ := List.mem_flatMap.mp ht
    rw [hstop] at ht
    split at ht
    · obtain rfl := List.mem_singleton.mp ht
      exact ⟨t, hs, hrest⟩
    · simp at ht
  · rintro ⟨s, hs, hrest⟩
    refine ⟨s, List.mem_flatMap.mpr ⟨s, hs, ?_⟩, hrest⟩
    rw [hstop, hrest]
    exact List.mem_singleton_self s

/-- **An anchored expression.** With `^` before and `$` behind it, a plain expression accepts
the words of its language and nothing else. -/
theorem accepts_anchored_plain {nodes : List Node} {text : List Char}
    (h : ∀ node ∈ nodes, node.Plain) :
    accepts (chain (.start :: (nodes ++ [.stop]))) text = true ↔
      text ∈ (nodes.map Node.language).prod := by
  have hplain : (chain nodes).Plain := chain_induction trivial (fun _ _ => And.intro) h
  rw [accepts_anchored, hplain.takes, language_chain]
  simp [State.init]

/-! ### Characters that are not told apart

Some facts about an expression do not need its meaning.  If nothing in it tells a
character from another one, a match stays a match when the one is put in place of the
other. -/

section Blind

variable (σ : Char → Char)

/-- What the expression takes it also takes after `σ`; nothing in it compares characters
of the text with each other. -/
def Node.Blind : Node → Prop
  | .empty | .start | .stop => True
  | .char c => ∀ d, sameLetter c d = true → sameLetter c (σ d) = true
  | .any => ∀ d, isTerminator d = false → isTerminator (σ d) = false
  | .set negated items => ∀ d, (items.any (Item.has d) != negated) = true →
      (items.any (Item.has (σ d)) != negated) = true
  | .boundary _ | .back _ => False
  | .group _ body => body.Blind
  | .seq first second => first.Blind ∧ second.Blind
  | .alt first second => first.Blind ∧ second.Blind
  | .loop _ _ body => body.Blind

/-- Expressions that do not tell letters apart are closed under the operators of the parser. -/
theorem Node.Blind.closed : Node.Closed (Node.Blind σ) :=
  ⟨trivial, fun _ _ => And.intro, fun _ _ => And.intro, fun _ _ _ => id, fun _ _ => id⟩

namespace State

def map (s : State) : State :=
  ⟨s.past.map σ, s.rest.map σ, s.captures.map (Prod.map id (List.map σ))⟩

/-- A letter that is taken is taken after the change too. -/
theorem map_take {p : Char → Bool} (hp : ∀ d, p d = true → p (σ d) = true) {s t : State}
    (h : t ∈ s.take p) : t.map σ ∈ (s.map σ).take p := by
  unfold take at h
  split at h
  · next c rest hrest =>
      split at h
      · next hc =>
          obtain rfl := List.mem_singleton.mp h
          simp [take, map, hrest, hp c hc]
      · simp at h
  · simp at h

theorem map_forget (groups : List ℕ) (s : State) :
    (s.forget groups).map σ = (s.map σ).forget groups := by
  simp [map, forget, List.filter_map, Function.comp_def]

/-- A group that is captured holds the changed letters after the change. -/
theorem map_capture (index : ℕ) (origin s : State) :
    (capture index origin s).map σ = capture index (origin.map σ) (s.map σ) := by
  simp [map, capture, List.map_reverse, List.map_take]

end State

variable {σ}

/-- What can be taken can be taken after `σ`. -/
def Carries (σ : Char → Char) (f : State → List State) : Prop :=
  ∀ s, ∀ t ∈ f s, t.map σ ∈ f (s.map σ)

/-- Doing nothing takes no letter. -/
theorem Carries.here : Carries σ fun s => [s] := by
  intro s t ht
  obtain rfl := List.mem_singleton.mp ht
  exact List.mem_singleton_self _

/-- A test of the place that the change does not turn false. -/
theorem Carries.check {p : State → Bool} (hp : ∀ s, p s = true → p (s.map σ) = true) :
    Carries σ fun s => if p s then [s] else [] := by
  intro s t ht
  dsimp only at ht ⊢
  split at ht
  · next hs =>
      obtain rfl := List.mem_singleton.mp ht
      rw [if_pos (hp t hs)]
      exact List.mem_singleton_self _
  · simp at ht

/-- Either of two parts. -/
theorem Carries.alt {f g : State → List State} (hf : Carries σ f) (hg : Carries σ g) :
    Carries σ fun s => f s ++ g s := by
  intro s t ht
  rcases List.mem_append.mp ht with ht | ht
  · exact List.mem_append_left _ (hf s t ht)
  · exact List.mem_append_right _ (hg s t ht)

/-- One part after the other. -/
theorem Carries.seq {f g : State → List State} (hf : Carries σ f) (hg : Carries σ g) :
    Carries σ fun s => (f s).flatMap g := by
  intro s t ht
  obtain ⟨u, hu, ht⟩ := List.mem_flatMap.mp ht
  exact List.mem_flatMap.mpr ⟨u.map σ, hf s u hu, hg u t ht⟩

/-- Any number of turns. -/
theorem Carries.iterate {turn : State → List State} (h : Carries σ turn) (n : ℕ) :
    Carries σ (iterate turn n) := by
  induction n with
  | zero => exact .here
  | succ n ih => exact h.seq ih

/-- The turns of a loop; the change keeps the length of what is left, so a turn that takes
something still does. -/
theorem Carries.upTo {turn : State → List State} (h : Carries σ turn) (n : ℕ) :
    Carries σ (upTo turn n) := by
  induction n with
  | zero => exact .here
  | succ n ih =>
      intro s t ht
      rw [Patterns.upTo, List.mem_append, List.mem_singleton, List.mem_flatMap] at ht ⊢
      rcases ht with ⟨u, hu, ht⟩ | rfl
      · obtain ⟨hmem, hlt⟩ := List.mem_filter.mp hu
        have hlt' := of_decide_eq_true hlt
        refine Or.inl ⟨u.map σ, List.mem_filter.mpr ⟨h s u hmem, decide_eq_true ?_⟩, ih u t ht⟩
        simpa [State.map] using hlt'
      · exact Or.inr rfl

/-- **Blind expressions** carry on what they take: each step that they make on a text they make
on the changed text too. -/
theorem Node.Blind.carries {node : Node} (h : node.Blind σ) : Carries σ (ends node) := by
  induction node with
  | empty => exact .here
  | char c => exact fun s t => State.map_take σ h
  | any =>
      refine fun s t => State.map_take σ fun d hd => ?_
      simp only [Bool.not_eq_true'] at hd ⊢
      exact h d hd
  | set negated items => exact fun s t => State.map_take σ h
  | start => exact .check fun s hs => by simpa [State.map] using hs
  | stop => exact .check fun s hs => by simpa [State.map] using hs
  | boundary negated => exact h.elim
  | back index => exact h.elim
  | group index body ih =>
      intro s t ht
      obtain ⟨u, hu, rfl⟩ := List.mem_map.mp ht
      rw [State.map_capture]
      exact List.mem_map.mpr ⟨u.map σ, ih h s u hu, rfl⟩
  | seq first second ihf ihs => exact (ihf h.1).seq (ihs h.2)
  | alt first second ihf ihs => exact (ihf h.1).alt (ihs h.2)
  | loop min max body ih =>
      have hturn : Carries σ fun s => ends body (s.forget body.groups) := by
        intro s t ht
        show t.map σ ∈ ends body ((s.map σ).forget body.groups)
        rw [← State.map_forget]
        exact ih h _ t ht
      intro s t ht
      obtain ⟨u, hu, ht⟩ := List.mem_flatMap.mp ht
      refine List.mem_flatMap.mpr ⟨u.map σ, hturn.iterate min s u hu, ?_⟩
      have hlength : (u.map σ).rest.length = u.rest.length := List.length_map _
      rw [hlength]
      exact hturn.upTo _ u t ht

/-- **What an expression cannot see.** A text stays accepted when its letters are changed in a
way that no part of the expression tells apart. -/
theorem Node.Blind.accepts {node : Node} (h : node.Blind σ) {text : List Char}
    (haccepts : accepts node text = true) : accepts node (text.map σ) = true := by
  obtain ⟨s, hs, hrest⟩ := accepts_iff.mp haccepts
  exact accepts_iff.mpr ⟨s.map σ, h.carries _ s hs, by simp [State.map, hrest]⟩

end Blind

end Patterns
