import CppProfessional.Bayan.Scanner
import CppProfessional.Patterns.Glob

/-!
# Masks

A mask is to be a glob.  The constructor of the scanner writes it as a regular expression,
but of the characters that mean something there it escapes only the dot.

* `maskRegexes`, `regexMatch` — the expressions, and the match of a name;
* `MeanGlobs` — the scanner takes masks for globs, and can be made;
* `unescaped`, `Clean` — the characters that keep a meaning, and the masks that have none and
  no wildcard that would have to match the end of a line;
* `compile_maskRegex` — the expression of a clean mask;
* `MeanGlobs.escaped`, `MeanGlobs.wildcards` — why no other mask is a glob;
* `meanGlobs_iff` — clean masks are globs; any other is not, nor are the masks from a kind of
  characters if one of them is not clean.
-/

namespace Bayan

open Patterns

section Masks

variable (dialect : Dialect)

/-- The expressions that `FileScanner::FileScanner` makes; none is an exception. -/
def maskRegexes (fileMasks : List Text) : Option (List Node) :=
  fileMasks.mapM fun mask => compile dialect (maskRegex mask)

/-- `std::regex_match` of a text and an expression in either case. -/
def regexMatch (expression text : Text) : Bool :=
  (compile dialect expression).any fun node => accepts node text

/-- The names of files whose ends of lines, if they have any, are in a set. -/
def fileNames (terminators : Set Char) : Set Text :=
  {name | IsName name ∧ ∀ c ∈ name, isTerminator c = true → c ∈ terminators}

/-- A scanner with the masks can be made, and accepts the names that match one of them as a
glob, or all if there is none. -/
structure MeanGlobs (terminators : Set Char) (masks : List Text) : Prop where
  constructs : ∃ regexes, maskRegexes dialect masks = some regexes
  exact : ∀ (platform : Platform) (scanner : FileScanner) (path : Text),
    platform.regexMatch = regexMatch dialect → scanner.fileMasks = masks →
    platform.filename path ∈ fileNames terminators →
    (matchesMasks platform scanner path = true ↔
      masks = [] ∨ ∃ mask ∈ masks, globMatches mask (platform.filename path) = true)

/-- The characters that mean something in a regular expression and get there as they are. -/
def unescaped : List Char := (syntaxCharacters dialect).filter (· ∉ ['.', '*', '?'])

/-- Nothing in the mask has another meaning, and its wildcards need not match the end of a
line.  The second clause is only about masks with wildcards, because nothing else in a
translated mask takes an arbitrary character. -/
structure Clean (terminators : Set Char) (mask : Text) : Prop where
  escaped : ∀ c ∈ mask, c ∉ unescaped dialect
  wildcards : '*' ∈ mask ∨ '?' ∈ mask → ∀ c ∈ terminators, isTerminator c = false

end Masks

variable {dialect : Dialect} {terminators : Set Char}

/-! ### The expression of a clean mask

The translation goes character by character, and so does the reading of its result: a
character of a clean mask becomes one token, or two where it is a star.  The parser then
has nothing to decide. -/

/-- What the constructor writes for a character. -/
def translated (c : Char) : Text :=
  if c = '.' then ['\\', '.'] else if c = '*' then ['.', '*'] else if c = '?' then ['.'] else [c]

/-- The expression of a mask, character by character, between the two ends. -/
theorem maskRegex_eq (mask : Text) :
    maskRegex mask = '^' :: (mask.flatMap translated ++ ['$']) :=
  rfl

/-- No question mark is left, so nothing is left out of the grammar that a mask could use. -/
theorem question_not_mem_maskRegex (mask : Text) : '?' ∉ maskRegex mask := by
  have hchar (c : Char) : '?' ∉ translated c := by
    unfold translated
    split
    · decide
    split
    · decide
    split
    · decide
    · next hquestion => simpa using Ne.symm hquestion
  simp [maskRegex_eq, hchar]

/-- What is read of it. -/
def maskTokens (c : Char) : List Token :=
  if c = '*' then [.atom .any, .quantifier 0 none] else if c = '?' then [.atom .any]
  else [.atom (.char c)]

def maskNode (c : Char) : Node :=
  if c = '*' then .loop 0 none .any else if c = '?' then .any else .char c

/-- The characters with a meaning in every dialect. -/
theorem mem_syntaxCharacters {c : Char}
    (h : c ∈ ['^', '$', '\\', '.', '*', '+', '?', '(', ')', '[', '{', '|']) :
    c ∈ syntaxCharacters dialect :=
  List.mem_append_left _ h

theorem readToken_dot (text : Text) :
    readToken dialect '.' text = some (.atom .any, 0) :=
  if_pos (mem_syntaxCharacters (by simp))

theorem readToken_star (text : Text) :
    readToken dialect '*' text = some (.quantifier 0 none, 0) :=
  if_pos (mem_syntaxCharacters (by simp))

/-- A dot behind a backslash is a dot. -/
theorem readToken_escaped_dot (text : Text) :
    readToken dialect '\\' ('.' :: text) = some (.atom (.char '.'), 1) := by
  have hchar : charEscape dialect '.' text = some ('.', 0) := by
    show (if dialect.lenient || !isWord '.' then some ('.', 0) else none) = _
    rw [if_pos (by simp [isWord])]
  have hescape : escape dialect '.' text = some (.atom (.char '.'), 0) := by
    show (charEscape dialect '.' text).map _ = _
    rw [hchar]
    rfl
  rw [readToken, if_pos (mem_syntaxCharacters (by simp))]
  show (escape dialect '.' text).map _ = _
  rw [hescape]
  rfl

/-- A character of a mask that is escaped where it has to be is read as the tokens it is meant
to be. -/
theorem read_translated {c : Char} (hc : c ∉ unescaped dialect) (text : Text) :
    readItems (readToken dialect) 0 (translated c ++ text) =
      (readItems (readToken dialect) 0 text).map (maskTokens c ++ ·) := by
  by_cases hdot : c = '.'
  · subst hdot
    show readItems (readToken dialect) 0 ('\\' :: (['.'] ++ text)) = _
    exact readItems_append (readToken_escaped_dot text)
  by_cases hstar : c = '*'
  · subst hstar
    show readItems (readToken dialect) 0 ('.' :: '*' :: text) = _
    rw [readItems_cons (readToken_dot _), readItems_cons (readToken_star _), Option.map_map]
    rfl
  by_cases hquestion : c = '?'
  · subst hquestion
    exact readItems_cons (readToken_dot text)
  have hordinary : c ∉ syntaxCharacters dialect := fun hmem =>
    hc (List.mem_filter.mpr ⟨hmem, by simp [hdot, hstar, hquestion]⟩)
  have htranslated : translated c = [c] := by simp [translated, hdot, hstar, hquestion]
  have htokens : maskTokens c = [.atom (.char c)] := by simp [maskTokens, hstar, hquestion]
  rw [htranslated, htokens]
  exact readItems_cons (if_neg hordinary)

/-- So is the whole mask, if none of its characters keeps a meaning. -/
theorem read_maskRegex {mask : Text} (hmask : ∀ c ∈ mask, c ∉ unescaped dialect) :
    readItems (readToken dialect) 0 (maskRegex mask) =
      some (.assertion .start :: (mask.flatMap maskTokens ++ [.assertion .stop])) := by
  have hstart (text : Text) : readToken dialect '^' text = some (.assertion .start, 0) :=
    if_pos (mem_syntaxCharacters (by simp))
  have hstop (text : Text) : readToken dialect '$' text = some (.assertion .stop, 0) :=
    if_pos (mem_syntaxCharacters (by simp))
  have hbody : readItems (readToken dialect) 0 (mask.flatMap translated ++ ['$']) =
      some (mask.flatMap maskTokens ++ [.assertion .stop]) := by
    induction mask with
    | nil => exact readItems_cons (hstop [])
    | cons c mask ih =>
        rw [List.flatMap_cons, List.append_assoc,
          read_translated (hmask c List.mem_cons_self),
          ih fun d hd => hmask d (List.mem_cons_of_mem c hd), List.flatMap_cons,
          List.append_assoc]
        rfl
  rw [maskRegex_eq, readItems_cons (hstart _), hbody]
  rfl

/-- The parser makes one term of each character; a quantifier may follow the term of a wildcard
only in a dialect that stacks quantifiers, but none follows. -/
theorem foldlM_maskTokens (mask : Text) (parser : Parser) :
    (mask.flatMap maskTokens).foldlM (Parser.step dialect) parser =
      some { parser with level := { parser.level with
        terms := (mask.map fun c => (maskNode c, decide (c ≠ '*') || dialect.stacked)).reverse ++
          parser.level.terms } } := by
  induction mask generalizing parser with
  | nil => rfl
  | cons c mask ih =>
      have hstep : (maskTokens c).foldlM (Parser.step dialect) parser =
          some { parser with
            level := parser.level.push (maskNode c) (decide (c ≠ '*') || dialect.stacked) } := by
        unfold maskTokens maskNode
        split
        · next hstar =>
            subst hstar
            rfl
        · next hstar =>
            rw [decide_eq_true hstar, Bool.true_or]
            split
            · rfl
            · rfl
      rw [List.flatMap_cons, List.foldlM_append, hstep]
      show (mask.flatMap maskTokens).foldlM (Parser.step dialect) _ = _
      rw [ih]
      simp [Level.push]

/-- **The expression of a clean mask** is the chain of the expressions of its characters
between `^` and `$`.  The parser reads the translated mask token by token, one or two for each
character. -/
theorem compile_maskRegex {mask : Text} (hmask : ∀ c ∈ mask, c ∉ unescaped dialect) :
    compile dialect (maskRegex mask) =
      some (chain (.start :: (mask.map maskNode ++ [.stop]))) := by
  have hbacks : (chain (.start :: (mask.map maskNode ++ [.stop]))).backs = [] := by
    refine chain_induction (P := fun node => node.backs = []) rfl ?_ ?_
    · intro first second hfirst hsecond
      rw [Node.backs, hfirst, hsecond]
      rfl
    · intro node hnode
      simp only [List.mem_cons, List.mem_append, List.mem_map, List.not_mem_nil,
        or_false] at hnode
      rcases hnode with rfl | ⟨c, -, rfl⟩ | rfl
      · rfl
      · unfold maskNode
        split
        · rfl
        · split
          · rfl
          · rfl
      · rfl
  have hrun : (Token.assertion .start :: (mask.flatMap maskTokens ++ [.assertion .stop])).foldlM
      (Parser.step dialect) {} = some { level := { terms := (Node.stop, false) ::
        ((mask.map fun c => (maskNode c, decide (c ≠ '*') || dialect.stacked)).reverse ++
          [(Node.start, false)]) } } := by
    show (mask.flatMap maskTokens ++ [Token.assertion .stop]).foldlM (Parser.step dialect)
      { level := { terms := [(Node.start, false)] } } = _
    rw [List.foldlM_append, foldlM_maskTokens]
    rfl
  have hnode : Level.node { terms := (Node.stop, false) ::
      ((mask.map fun c => (maskNode c, decide (c ≠ '*') || dialect.stacked)).reverse ++
        [(Node.start, false)]) } =
        chain (.start :: (mask.map maskNode ++ [.stop])) := by
    show Level.last _ = _
    rw [Level.last_eq_chain]
    simp [Function.comp_def]
  rw [compile, read_maskRegex hmask, Option.bind_some, parse, hrun, Option.bind_some, hnode,
    hbacks, if_pos ⟨rfl, by simp⟩]

/-! ### The names that it matches

The terms of a clean mask neither look around nor refer back, so what the matcher finds
is a language, and the languages of the terms are multiplied. -/

/-- The terms of a mask look neither around nor back. -/
theorem maskNode_plain (c : Char) : (maskNode c).Plain := by
  unfold maskNode
  split
  · exact ⟨rfl, trivial⟩
  · split
    · trivial
    · trivial

/-- So do all terms of a mask. -/
theorem plain_of_mem_map {mask : Text} : ∀ node ∈ mask.map maskNode, node.Plain := by
  intro node hnode
  obtain ⟨c, -, rfl⟩ := List.mem_map.mp hnode
  exact maskNode_plain c

/-- A star of a mask is any text within a line. -/
theorem mem_language_star {w : Text} :
    w ∈ (maskNode '*').language ↔ ∀ d ∈ w, isTerminator d = false := by
  show w ∈ (letters fun d => !isTerminator d) ^ 0 *
    KStar.kstar (letters fun d => !isTerminator d) ↔ _
  rw [pow_zero, one_mul, mem_kstar_letters]
  simp

/-- A question mark is one character that does not end a line. -/
theorem mem_language_question {w : Text} :
    w ∈ (maskNode '?').language ↔ ∃ d, isTerminator d = false ∧ w = [d] := by
  show w ∈ (letters fun d => !isTerminator d) ↔ _
  simp [mem_letters]

theorem maskNode_char {c : Char} (hstar : c ≠ '*') (hquestion : c ≠ '?') :
    maskNode c = .char c := by
  rw [maskNode, if_neg hstar, if_neg hquestion]

/-- The node of a wildcard matches what the wildcard stands for, but for the ends of lines. -/
theorem mem_language_maskNode {c : Char} {w : Text}
    (h : c = '*' ∨ c = '?' → ∀ d ∈ w, isTerminator d = false) :
    w ∈ (maskNode c).language ↔ w ∈ globPiece c := by
  by_cases hstar : c = '*'
  · subst hstar
    exact iff_of_true (mem_language_star.mpr (h (Or.inl rfl))) trivial
  by_cases hquestion : c = '?'
  · subst hquestion
    rw [mem_language_question, globPiece, if_neg (by decide), if_pos rfl, mem_letters]
    constructor
    · rintro ⟨d, -, rfl⟩
      exact ⟨d, rfl, rfl⟩
    · rintro ⟨d, -, rfl⟩
      exact ⟨d, h (Or.inr rfl) d (List.mem_singleton_self d), rfl⟩
  · rw [maskNode_char hstar hquestion, globPiece, if_neg hstar, if_neg hquestion]
    rfl

/-- **A clean mask is a glob.** -/
theorem Clean.accepts_iff {mask name : Text} (h : Clean dialect terminators mask)
    (hname : name ∈ fileNames terminators) :
    accepts (chain (.start :: (mask.map maskNode ++ [.stop]))) name = true ↔
      globMatches mask name = true := by
  rw [accepts_anchored_plain plain_of_mem_map, globMatches_iff, List.map_map]
  refine mem_prod_congr (P := fun w => '*' ∈ mask ∨ '?' ∈ mask → ∀ d ∈ w, isTerminator d = false)
    ?_ ?_ ?_
  · intro v w hvw
    exact ⟨fun hwild d hd => hvw hwild d (List.mem_append_left w hd),
      fun hwild d hd => hvw hwild d (List.mem_append_right v hd)⟩
  · intro c hc w hw
    refine mem_language_maskNode fun hwild => hw ?_
    rcases hwild with rfl | rfl
    · exact Or.inl hc
    · exact Or.inr hc
  · intro hwild d hd
    by_contra hd'
    have hterm : isTerminator d = true := by simpa using hd'
    have hmem := hname.2 d hd hterm
    rw [h.wildcards hwild d hmem] at hterm
    cases hterm

/-- A name is accepted if there are no masks, or if one of them accepts it. -/
theorem matchesMasks_iff {platform : Platform} {scanner : FileScanner} {path : Text}
    (hregex : platform.regexMatch = regexMatch dialect) :
    matchesMasks platform scanner path = true ↔ scanner.fileMasks = [] ∨
      ∃ mask ∈ scanner.fileMasks,
        regexMatch dialect (maskRegex mask) (platform.filename path) = true := by
  rw [matchesMasks, hregex]
  simp

/-- Clean masks are compiled, and their expressions match what they match as globs. -/
theorem meanGlobs_of_clean {masks : List Text}
    (h : ∀ mask ∈ masks, Clean dialect terminators mask) :
    MeanGlobs dialect terminators masks where
  constructs := by
    refine ⟨masks.map fun mask => chain (.start :: (mask.map maskNode ++ [.stop])), ?_⟩
    unfold maskRegexes
    induction masks with
    | nil => rfl
    | cons mask masks ih =>
        rw [List.mapM_cons, compile_maskRegex (h mask List.mem_cons_self).escaped,
          ih fun other hother => h other (List.mem_cons_of_mem mask hother)]
        rfl
  exact := by
    rintro platform scanner path hregex rfl hname
    rw [matchesMasks_iff hregex]
    refine or_congr_right (exists_congr fun mask => and_congr_right fun hmask => ?_)
    rw [regexMatch, compile_maskRegex (h mask hmask).escaped, Option.any_some]
    exact (h mask hmask).accepts_iff hname

/-! ### What other masks match

For a mask that is not clean one name is enough that is treated differently, and it has
to be found for every mask and every dialect.  What such an expression means is left
open as far as possible.

A metacharacter stands for something else than itself, whatever it stands for; so the
expression cannot tell a name from the same name with these characters replaced.  A
wildcard does not match the end of a line.  Brackets and backslashes are treated by
examples, since a mask with one of them may be many things. -/

/-- The name of an entry has no slash, so that it is its own file name. -/
theorem filename_posix {name : Text} (hname : IsName name) : posix.filename name = name := by
  show (name.reverse.takeWhile (· ≠ '/')).reverse = name
  rw [List.takeWhile_eq_self_iff.mpr, List.reverse_reverse]
  intro c hc
  exact decide_eq_true fun heq => hname.2 (heq ▸ List.mem_reverse.mp hc)

/-- A single mask. -/
theorem MeanGlobs.single {mask : Text} (h : MeanGlobs dialect terminators [mask]) :
    ∃ node, compile dialect (maskRegex mask) = some node ∧ ∀ name ∈ fileNames terminators,
      (accepts node name = true ↔ globMatches mask name = true) := by
  obtain ⟨regexes, hregexes⟩ := h.constructs
  cases hnode : compile dialect (maskRegex mask) with
  | none =>
      rw [maskRegexes, List.mapM_cons, hnode] at hregexes
      cases hregexes
  | some node =>
      refine ⟨node, rfl, ?_⟩
      intro name hname
      have hexact := h.exact { posix with regexMatch := regexMatch dialect }
        ⟨true, 1, 1, [], [mask], []⟩ name rfl rfl
      have hfile : Platform.filename { posix with regexMatch := regexMatch dialect } name = name :=
        filename_posix hname.1
      rw [hfile, matchesMasks_iff (show _ = regexMatch dialect from rfl)] at hexact
      have hsingle := hexact hname
      rw [hfile] at hsingle
      simpa [regexMatch, hnode] using hsingle

/-- What holds of each of these characters holds of those that are not escaped. -/
theorem unescaped_all {p : Char → Bool}
    (hall : ['^', '$', '\\', '+', '(', ')', '[', '{', '|', ']', '}'].all p = true) {c : Char}
    (hc : c ∈ unescaped dialect) : p c = true := by
  refine List.all_eq_true.mp hall c ?_
  obtain ⟨hmem, hpassed⟩ := List.mem_filter.mp hc
  have hpassed := of_decide_eq_true hpassed
  rcases List.mem_append.mp hmem with hfirst | hlast
  · simp only [List.mem_cons, List.not_mem_nil, or_false] at hfirst hpassed ⊢
    tauto
  · split at hlast
    · simp at hlast
    · simp only [List.mem_cons, List.not_mem_nil, or_false] at hlast ⊢
      tauto

theorem unescaped_not_alpha {c : Char} (hc : c ∈ unescaped dialect) : ¬ c.isAlpha = true := by
  simpa using unescaped_all (p := fun c => !c.isAlpha) rfl hc

theorem unescaped_not_terminator {c : Char} (hc : c ∈ unescaped dialect) :
    isTerminator c = false := by
  simpa using unescaped_all (p := fun c => !isTerminator c) rfl hc

theorem unescaped_ne {c : Char} (hc : c ∈ unescaped dialect) : c ≠ '/' ∧ c ≠ '*' ∧ c ≠ '?' := by
  simpa using unescaped_all (p := fun c => c ≠ '/' ∧ c ≠ '*' ∧ c ≠ '?') rfl hc

/-- The text without the characters that mean something. -/
def plainChar (dialect : Dialect) (c : Char) : Char := if c ∈ unescaped dialect then 'x' else c

/-- The character that stands in for the others has no meaning. -/
theorem plainChar_not_mem (c : Char) : plainChar dialect c ∉ unescaped dialect := by
  unfold plainChar
  split
  · intro hx
    exact unescaped_not_alpha hx (by decide)
  · assumption

/-- A character without a meaning is matched alike before and after the others are replaced. -/
theorem blind_char {c : Char} (hc : c ∉ unescaped dialect) :
    (Node.char c).Blind (plainChar dialect) := by
  intro d hd
  unfold plainChar
  split
  · next hmem =>
      have hsymm : sameLetter d c = true := decide_eq_true (of_decide_eq_true hd).symm
      exact absurd (eq_of_sameLetter (unescaped_not_alpha hmem) hsymm ▸ hmem) hc
  · exact hd

/-- A dot matches the stand-in as it matches any character. -/
theorem blind_any : Node.any.Blind (plainChar dialect) := by
  intro d hd
  unfold plainChar
  split
  · decide
  · exact hd

/-- Numbers in braces are a quantifier. -/
theorem interval_node {text : Text} {read : Token × ℕ} (h : interval text = some read) :
    read.1.node = none := by
  unfold interval at h
  dsimp only at h
  split at h
  · cases h
  · split at h
    · cases h
      rfl
    · split at h
      · split at h
        · cases h
          rfl
        · split at h
          · cases h
            rfl
          · cases h
      · cases h
    · cases h

/-- Of a text without brackets and with no escapes but of dots, all that is read is blind.
Brackets would open a set of characters and an escape might refer back to a group; both could
tell apart what `plainChar` makes equal. -/
theorem blind_readToken {c : Char} {rest : Text} {read : Token × ℕ} (hbracket : c ≠ '[')
    (hdot : c = '\\' → rest.head? = some '.') (h : readToken dialect c rest = some read)
    (node : Node) (hnode : read.1.node = some node) : node.Blind (plainChar dialect) := by
  unfold readToken at h
  split at h
  · split at h
    · cases h
      cases hnode
      trivial
    · cases h
      cases hnode
      trivial
    · obtain ⟨rest, rfl⟩ : ∃ tail, rest = '.' :: tail :=
        ⟨_, List.eq_cons_of_mem_head? (hdot rfl)⟩
      obtain rfl : read = (.atom (.char '.'), 1) :=
        Option.some.inj (h.symm.trans (readToken_escaped_dot rest))
      cases hnode
      exact blind_char (by simp [unescaped])
    · cases h
      cases hnode
      exact blind_any
    · cases h
      cases hnode
    · cases h
      cases hnode
    · cases h
      cases hnode
    · cases h
      cases hnode
    · exact absurd rfl hbracket
    · rw [interval_node h] at hnode
      cases hnode
    · cases h
      cases hnode
    · cases h
  · next hmem =>
      cases h
      cases hnode
      exact blind_char fun hc => hmem (List.mem_filter.mp hc).1

/-- A text without brackets, in which a backslash stands before a dot. -/
def Tame (text : Text) : Prop :=
  ∀ c rest, c :: rest <:+ text → c ≠ '[' ∧ (c = '\\' → rest.head? = some '.')

/-- A text stays tame behind a character that opens no bracket, and behind a backslash that
escapes a dot. -/
theorem Tame.cons {c : Char} {text : Text} (h : Tame text) (hbracket : c ≠ '[')
    (hdot : c = '\\' → text.head? = some '.') : Tame (c :: text) := by
  intro d rest hsuffix
  rcases List.suffix_cons_iff.mp hsuffix with heq | hsuffix
  · cases heq
    exact ⟨hbracket, hdot⟩
  · exact h d rest hsuffix

theorem Tame.cons_ordinary {c : Char} {text : Text} (h : Tame text) (hbracket : c ≠ '[')
    (hback : c ≠ '\\') : Tame (c :: text) :=
  h.cons hbracket fun hc => absurd hc hback

/-- The only backslashes in the expression of such a mask are those that the translation puts
before dots. -/
theorem tame_maskRegex {mask : Text} (hback : '\\' ∉ mask) (hbracket : '[' ∉ mask) :
    Tame (maskRegex mask) := by
  have hnil : Tame [] := by
    intro c rest hsuffix
    exact absurd (List.suffix_nil.mp hsuffix) (List.cons_ne_nil c rest)
  have hbody : Tame (mask.flatMap translated ++ ['$']) := by
    induction mask with
    | nil => exact hnil.cons_ordinary (by decide) (by decide)
    | cons c mask ih =>
        have hrest := ih (fun h => hback (List.mem_cons_of_mem c h))
          (fun h => hbracket (List.mem_cons_of_mem c h))
        have hc : c ≠ '\\' := fun h => hback (h ▸ List.mem_cons_self)
        have hc' : c ≠ '[' := fun h => hbracket (h ▸ List.mem_cons_self)
        rw [List.flatMap_cons, List.append_assoc, translated]
        split
        · exact (hrest.cons_ordinary (by decide) (by decide)).cons (by decide) fun _ => rfl
        split
        · exact (hrest.cons_ordinary (by decide) (by decide)).cons_ordinary (by decide) (by decide)
        split
        · exact hrest.cons_ordinary (by decide) (by decide)
        · exact hrest.cons_ordinary hc' hc
  rw [maskRegex_eq]
  exact hbody.cons_ordinary (by decide) (by decide)

/-- Whatever the expression of a mask without backslashes and brackets turns out to be, it does
not tell its metacharacters from the stand-in.  The induction is on the way in which the
expression is put together, so that no case looks at what the metacharacters mean. -/
theorem blind_maskRegex {mask : Text} (hback : '\\' ∉ mask) (hbracket : '[' ∉ mask)
    {node : Node} (h : compile dialect (maskRegex mask) = some node) :
    node.Blind (plainChar dialect) := by
  refine compile_induction (Node.Blind.closed _) h ?_
  intro c rest read hsuffix hread node hnode
  obtain ⟨hc, hdot⟩ := tame_maskRegex hback hbracket c rest hsuffix
  exact blind_readToken hc hdot hread node hnode

/-- The names that a mask makes of itself. -/
theorem fill_mem_fileNames {mask star : Text} {question : Char}
    (hslash : '/' ∉ mask) (hmask : ∀ c ∈ mask, isTerminator c = true → c ∈ terminators)
    (hfill : ∀ c ∈ question :: star, c ≠ '/' ∧ (isTerminator c = true → c ∈ terminators))
    (hne : fill star question mask ≠ []) : fill star question mask ∈ fileNames terminators := by
  have hall : ∀ c ∈ fill star question mask,
      c ≠ '/' ∧ (isTerminator c = true → c ∈ terminators) := by
    intro c hc
    obtain ⟨d, hd, hc⟩ := List.mem_flatMap.mp hc
    split at hc
    · exact hfill c (List.mem_cons_of_mem question hc)
    · split at hc
      · rw [List.mem_singleton.mp hc]
        exact hfill question List.mem_cons_self
      · rw [List.mem_singleton.mp hc]
        exact ⟨fun heq => hslash (heq ▸ hd), hmask d hd⟩
  exact ⟨⟨hne, fun hmem => (hall '/' hmem).1 rfl⟩, fun c hc => (hall c hc).2⟩

/-- A character of a mask that is no wildcard is in every name that the mask is filled up
to. -/
theorem mem_fill {mask star : Text} {question c : Char} (hc : c ∈ mask) (hstar : c ≠ '*')
    (hquestion : c ≠ '?') : c ∈ fill star question mask := by
  refine List.mem_flatMap.mpr ⟨c, hc, ?_⟩
  rw [if_neg hstar, if_neg hquestion]
  exact List.mem_singleton_self c

/-- **Metacharacters.**  The mask matches itself as a glob.  What its expression matches of
that, it also matches without the metacharacters, and so not as a glob. -/
theorem MeanGlobs.escaped {mask : Text} (h : MeanGlobs dialect terminators [mask])
    (hback : '\\' ∉ mask) (hbracket : '[' ∉ mask) (hslash : '/' ∉ mask)
    (hmask : ∀ c ∈ mask, isTerminator c = true → c ∈ terminators) :
    ∀ c ∈ mask, c ∉ unescaped dialect := by
  intro c hc hmeta
  obtain ⟨node, hnode, hexact⟩ := h.single
  obtain ⟨-, hstar, hquestion⟩ := unescaped_ne hmeta
  let name := fill [] 'x' mask
  have hname : name ∈ fileNames terminators := by
    refine fill_mem_fileNames hslash hmask ?_
      (List.ne_nil_of_mem (mem_fill hc hstar hquestion))
    intro d hd
    rw [List.mem_singleton.mp hd]
    exact ⟨by decide, fun hx => absurd hx (by decide)⟩
  have hplain : name.map (plainChar dialect) ∈ fileNames terminators := by
    have hall : ∀ d ∈ name.map (plainChar dialect), d = 'x' ∨ d ∈ name := by
      intro d hd
      obtain ⟨e, he, rfl⟩ := List.mem_map.mp hd
      unfold plainChar
      split
      · exact Or.inl rfl
      · exact Or.inr he
    refine ⟨⟨by simpa using hname.1.1, ?_⟩, ?_⟩
    · intro hmem
      rcases hall '/' hmem with heq | hmem
      · exact absurd heq (by decide)
      · exact hname.1.2 hmem
    · intro d hd hterminator
      rcases hall d hd with rfl | hd
      · exact absurd hterminator (by decide)
      · exact hname.2 d hd hterminator
  have hself : accepts node name = true := (hexact name hname).mpr (globMatches_fill [] 'x' mask)
  have hother := (hexact _ hplain).mp ((blind_maskRegex hback hbracket hnode).accepts hself)
  obtain ⟨d, hd, hsame⟩ := exists_sameLetter hc hstar hquestion hother
  obtain rfl := eq_of_sameLetter (unescaped_not_alpha hmeta) hsame
  obtain ⟨e, -, heq⟩ := List.mem_map.mp hd
  exact plainChar_not_mem e (heq ▸ hmeta)

/-- The expression of a clean mask matches no other ends of lines than the mask has, since a
dot does not match one and a literal only itself. -/
theorem countP_of_mem_language {mask name : Text}
    (h : name ∈ (mask.map fun c => (maskNode c).language).prod) :
    name.countP isTerminator = mask.countP isTerminator := by
  have hwild : isTerminator '*' = false ∧ isTerminator '?' = false := by decide
  induction mask generalizing name with
  | nil =>
      rw [(Language.mem_one name).mp h]
  | cons c mask ih =>
      rw [List.map_cons, List.prod_cons, Language.mem_mul] at h
      obtain ⟨v, hv, w, hw, rfl⟩ := h
      have hfirst : v.countP isTerminator = [c].countP isTerminator := by
        by_cases hstar : c = '*'
        · subst hstar
          rw [List.countP_eq_zero.mpr, List.countP_singleton, hwild.1]
          · rfl
          · intro d hd
            rw [mem_language_star.mp hv d hd]
            exact Bool.false_ne_true
        by_cases hquestion : c = '?'
        · subst hquestion
          obtain ⟨d, hd, rfl⟩ := mem_language_question.mp hv
          rw [List.countP_singleton, List.countP_singleton, hd, hwild.2]
        · rw [maskNode_char hstar hquestion] at hv
          obtain ⟨d, hd, rfl⟩ := hv
          rw [List.countP_singleton, List.countP_singleton, isTerminator_eq_of_sameLetter hd]
      rw [List.countP_append, ih hw, hfirst, ← List.countP_append]
      rfl

def isWildcard (c : Char) : Bool := c = '*' || c = '?'

/-- Filled with an end of a line, each wildcard adds one to the name. -/
theorem countP_fill {c : Char} (hc : isTerminator c = true) (mask : Text) :
    (fill [c] c mask).countP isTerminator =
      mask.countP isTerminator + mask.countP isWildcard := by
  have hwild : isTerminator '*' = false ∧ isTerminator '?' = false := by decide
  induction mask with
  | nil => rfl
  | cons d mask ih =>
      have hfirst : (fill [c] c [d]).countP isTerminator =
          [d].countP isTerminator + [d].countP isWildcard := by
        by_cases hstar : d = '*'
        · simp [fill, isWildcard, hstar, hc, hwild]
        by_cases hquestion : d = '?'
        · simp [fill, isWildcard, hquestion, hc, hwild]
        · simp [fill, isWildcard, hstar, hquestion]
      have hfill : fill [c] c (d :: mask) = fill [c] c [d] ++ fill [c] c mask := by
        rw [fill, fill, fill, ← List.flatMap_append]
        rfl
      have hcons (p : Char → Bool) : (d :: mask).countP p = [d].countP p + mask.countP p := by
        rw [← List.countP_append]
        rfl
      rw [hfill, List.countP_append, hfirst, ih, hcons, hcons]
      omega

/-- **Wildcards.**  The mask with the end of a line in place of each wildcard matches the mask
as a glob, but not its expression. -/
theorem MeanGlobs.wildcards {mask : Text} (h : MeanGlobs dialect terminators [mask])
    (hclean : ∀ c ∈ mask, c ∉ unescaped dialect) (hslash : '/' ∉ mask)
    (hmask : ∀ c ∈ mask, isTerminator c = true → c ∈ terminators)
    (hwild : '*' ∈ mask ∨ '?' ∈ mask) : ∀ c ∈ terminators, isTerminator c = false := by
  intro c hc
  by_contra hnot
  have hterminator : isTerminator c = true := by simpa using hnot
  obtain ⟨node, hnode, hexact⟩ := h.single
  obtain rfl := Option.some.inj ((compile_maskRegex hclean).symm.trans hnode)
  have hpositive : 0 < mask.countP isWildcard := by
    rw [List.countP_pos_iff]
    rcases hwild with hstar | hquestion
    · exact ⟨'*', hstar, by decide⟩
    · exact ⟨'?', hquestion, by decide⟩
  have hcount := countP_fill hterminator mask
  have hname : fill [c] c mask ∈ fileNames terminators := by
    refine fill_mem_fileNames hslash hmask ?_ ?_
    · intro d hd
      obtain rfl : d = c := by simpa using hd
      refine ⟨?_, fun _ => hc⟩
      rintro rfl
      exact absurd hterminator (by decide)
    · intro hnil
      rw [hnil, List.countP_nil] at hcount
      omega
  have haccepts := (hexact _ hname).mpr (globMatches_fill [c] c mask)
  rw [accepts_anchored_plain plain_of_mem_map, List.map_map] at haccepts
  have hsame := countP_of_mem_language haccepts
  omega

/-- A single mask without backslashes and brackets. -/
theorem meanGlobs_singleton_iff {mask : Text} (hback : '\\' ∉ mask) (hbracket : '[' ∉ mask)
    (hslash : '/' ∉ mask) (hmask : ∀ c ∈ mask, isTerminator c = true → c ∈ terminators) :
    MeanGlobs dialect terminators [mask] ↔ Clean dialect terminators mask := by
  constructor
  · intro h
    have hescaped := h.escaped hback hbracket hslash hmask
    exact ⟨hescaped, h.wildcards hescaped hslash hmask⟩
  · intro h
    exact meanGlobs_of_clean (by simpa using h)

/-- An opening bracket alone is no expression. -/
theorem compile_bracket : compile dialect (maskRegex ['[']) = none := by
  cases dialect with
  | mk lenient stacked collating named =>
      cases lenient
      · rfl
      · rfl

/-- A backslash escapes the end of the expression. -/
theorem compile_backslash : compile dialect (maskRegex ['\\']) =
    some (chain [.start, .char '$']) := by
  cases dialect with
  | mk lenient stacked collating named =>
      cases lenient
      · rfl
      · rfl

/-- A single bracket makes the constructor throw. -/
theorem not_meanGlobs_bracket : ¬ MeanGlobs dialect terminators [['[']] := by
  intro h
  obtain ⟨node, hnode, -⟩ := h.single
  rw [compile_bracket] at hnode
  cases hnode

/-- A single backslash escapes the end of the expression, and so does not match itself. -/
theorem not_meanGlobs_backslash : ¬ MeanGlobs dialect terminators [['\\']] := by
  intro h
  obtain ⟨node, hnode, hexact⟩ := h.single
  obtain rfl := Option.some.inj (compile_backslash.symm.trans hnode)
  have hname : ['\\'] ∈ fileNames terminators := by
    refine ⟨by decide, ?_⟩
    intro c hc hterminator
    rw [List.mem_singleton.mp hc] at hterminator
    exact absurd hterminator (by decide)
  have haccepts := (hexact _ hname).mpr (by decide)
  exact absurd haccepts (by decide)

/-- **Masks and globs.**  Clean masks are globs.  A mask without backslashes and brackets is
one only if it is clean; and if all masks from a kind of characters are globs, they are all
clean. -/
theorem meanGlobs_iff (dialect : Dialect) (terminators : Set Char) :
    (∀ masks, (∀ mask ∈ masks, Clean dialect terminators mask) →
      MeanGlobs dialect terminators masks) ∧
    (∀ mask, '\\' ∉ mask ∧ '[' ∉ mask ∧ '/' ∉ mask →
      (∀ c ∈ mask, isTerminator c = true → c ∈ terminators) →
      (MeanGlobs dialect terminators [mask] ↔ Clean dialect terminators mask)) ∧
    ∀ kind : Set Char,
      (∀ masks : List Text, (∀ mask ∈ masks, ∀ c ∈ mask, c ∈ kind) →
        MeanGlobs dialect terminators masks) ↔
      ∀ mask : Text, (∀ c ∈ mask, c ∈ kind) → Clean dialect terminators mask := by
  refine ⟨fun _ => meanGlobs_of_clean, ?_, ?_⟩
  · rintro mask ⟨hback, hbracket, hslash⟩ hmask
    exact meanGlobs_singleton_iff hback hbracket hslash hmask
  · intro kind
    constructor
    · intro h mask hkind
      have hsingle {c : Char} (hc : c ∈ mask) : MeanGlobs dialect terminators [[c]] :=
        h [[c]] (by simpa using hkind c hc)
      have hclean {c : Char} (hc : c ∈ mask) (hslash : c ≠ '/')
          (hterminator : isTerminator c = false) : Clean dialect terminators [c] := by
        have hback : c ≠ '\\' := fun heq => not_meanGlobs_backslash (heq ▸ hsingle hc)
        have hbracket : c ≠ '[' := fun heq => not_meanGlobs_bracket (heq ▸ hsingle hc)
        refine (meanGlobs_singleton_iff ?_ ?_ ?_ ?_).mp (hsingle hc)
        · exact fun hmem => hback (List.mem_singleton.mp hmem).symm
        · exact fun hmem => hbracket (List.mem_singleton.mp hmem).symm
        · exact fun hmem => hslash (List.mem_singleton.mp hmem).symm
        · intro d hd hd'
          rw [List.mem_singleton.mp hd, hterminator] at hd'
          cases hd'
      refine ⟨?_, ?_⟩
      · intro c hc hmeta
        exact (hclean hc (unescaped_ne hmeta).1 (unescaped_not_terminator hmeta)).escaped c
          List.mem_cons_self hmeta
      · rintro (hstar | hquestion)
        · exact (hclean hstar (by decide) (by decide)).wildcards (Or.inl List.mem_cons_self)
        · exact (hclean hquestion (by decide) (by decide)).wildcards (Or.inr List.mem_cons_self)
    · intro h masks hmasks
      exact meanGlobs_of_clean fun mask hmask => h mask (hmasks mask hmask)

/-- A dialect that knows no names of classes and collating elements. -/
def nameless : Dialect := ⟨true, true, fun _ => none, fun _ => none⟩

/-- With the mask `(` the scanner cannot be made, and with the mask `a+` it does not accept the
file `a+`. -/
theorem plus_not_glob : maskRegexes nameless [['(']] = none ∧
    matchesMasks { posix with regexMatch := regexMatch nameless }
      ⟨true, 1, 1, [], [['a', '+']], []⟩ ['a', '+'] = false ∧
    globMatches ['a', '+'] ['a', '+'] = true ∧
    ¬ MeanGlobs nameless Set.univ [['(']] ∧ ¬ MeanGlobs nameless Set.univ [['a', '+']] := by
  have hnot {mask : Text} {c : Char} (hc : c ∈ mask) (hmeta : c ∈ unescaped nameless)
      (hback : '\\' ∉ mask) (hbracket : '[' ∉ mask) (hslash : '/' ∉ mask) :
      ¬ MeanGlobs nameless Set.univ [mask] := fun h =>
    h.escaped hback hbracket hslash (fun _ _ _ => trivial) c hc hmeta
  refine ⟨rfl, rfl, rfl, ?_, ?_⟩
  · exact hnot (c := '(') (by decide) (by decide) (by decide) (by decide) (by decide)
  · exact hnot (c := '+') (by decide) (by decide) (by decide) (by decide) (by decide)

end Bayan
