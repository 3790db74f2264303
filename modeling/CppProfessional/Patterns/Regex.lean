import Mathlib.Data.List.Basic
import Mathlib.Data.Option.Basic
import Mathlib.Data.Nat.Notation

/-!
# Regular expressions

The grammar of ECMAScript's regular expressions as the library of C++ reads it, less all
that a question mark introduces: the optional term, the lazy quantifiers, the groups that
capture nothing and the lookahead.

* `Dialect` — what the grammar leaves to the implementation and the locale;
* `Node` — the expressions;
* `readItems`, `readToken` — a text as tokens;
* `Parser`, `parse`, `compile` — the expression that a text denotes, if it denotes one;
* `mem_readItems`, `compile_induction` — what holds of all that is read, and of all that is
  put together from it.
-/

namespace Patterns

/-- What the grammar leaves to the implementation and the locale. -/
structure Dialect where
  /-- A closing bracket or brace that closes nothing stands for itself, and so does an
  escaped letter without a meaning of its own. -/
  lenient : Bool
  /-- A quantifier may follow a quantifier. -/
  stacked : Bool
  /-- The collating element of a name. -/
  collating : List Char → Option Char
  /-- The characters, in either case, of a class with a name. -/
  named : List Char → Option (Char → Bool)

/-- What stands between brackets. -/
inductive Item
  | range (low high : Char)
  | members (p : Char → Bool)

inductive Node
  | empty
  | char (c : Char)
  | any
  | set (negated : Bool) (items : List Item)
  | start
  | stop
  | boundary (negated : Bool)
  | back (index : ℕ)
  | group (index : ℕ) (body : Node)
  | seq (first second : Node)
  | alt (first second : Node)
  | loop (min : ℕ) (max : Option ℕ) (body : Node)

inductive Token
  | atom (node : Node)
  | assertion (node : Node)
  | quantifier (min : ℕ) (max : Option ℕ)
  | opening
  | closing
  | bar

/-! ### Reading

An item may take several characters.  The text is read character by character, with a
count of those that an item has taken already, so that the recursion is on the text. -/

section Reading

variable {α : Type*}

/-- Reads a text item by item.  An item takes its first character and some `more`, which are
passed over before the next. -/
def readItems (item : Char → List Char → Option (α × ℕ)) : ℕ → List Char → Option (List α)
  | 0, [] => some []
  | _ + 1, [] => none
  | more + 1, _ :: text => readItems item more text
  | 0, c :: text =>
      (item c text).bind fun read => (readItems item read.2 text).map (read.1 :: ·)

/-- Reads a text item by item up to a closing bracket, and counts the characters. -/
def readBracketed (item : Char → List Char → Option (α × ℕ)) :
    ℕ → List Char → Option (List α × ℕ)
  | _, [] => none
  | more + 1, _ :: text => (readBracketed item more text).map (Prod.map id (· + 1))
  | 0, c :: text =>
      if c = ']' then some ([], 1)
      else (item c text).bind fun read =>
        (readBracketed item read.2 text).map (Prod.map (read.1 :: ·) (· + 1))

/-- What holds of every item that some part of a text starts with holds of all that are read.
By induction on the text; the items that are passed over because an earlier one has taken their
characters are not asked about. -/
theorem mem_readItems {item : Char → List Char → Option (α × ℕ)} {P : α → Prop}
    {more : ℕ} {text : List Char} {items : List α}
    (hitem : ∀ c rest read, c :: rest <:+ text → item c rest = some read → P read.1)
    (h : readItems item more text = some items) : ∀ a ∈ items, P a := by
  induction text generalizing more items with
  | nil =>
      cases more with
      | zero =>
          obtain rfl := Option.some.inj h
          simp
      | succ more => cases h
  | cons c text ih =>
      have htext : ∀ d rest read, d :: rest <:+ text → item d rest = some read → P read.1 :=
        fun d rest read hsuffix => hitem d rest read (hsuffix.trans (List.suffix_cons c text))
      cases more with
      | succ more => exact ih htext h
      | zero =>
          rw [readItems] at h
          obtain ⟨read, hread, h⟩ := Option.bind_eq_some_iff.mp h
          obtain ⟨others, hothers, rfl⟩ := Option.map_eq_some_iff.mp h
          intro a ha
          rcases List.mem_cons.mp ha with rfl | ha
          · exact hitem c text read List.suffix_rfl hread
          · exact ih htext hothers a ha

/-- An item in front that takes one character. -/
theorem readItems_cons {item : Char → List Char → Option (α × ℕ)} {c : Char} {a : α}
    {text : List Char} (h : item c text = some (a, 0)) :
    readItems item 0 (c :: text) = (readItems item 0 text).map (a :: ·) := by
  rw [readItems, h, Option.bind_some]

/-- An item in front that takes some more. -/
theorem readItems_append {item : Char → List Char → Option (α × ℕ)} {c : Char} {a : α}
    {front text : List Char} (h : item c (front ++ text) = some (a, front.length)) :
    readItems item 0 (c :: (front ++ text)) = (readItems item 0 text).map (a :: ·) := by
  have hskip : readItems item front.length (front ++ text) = readItems item 0 text := by
    clear h
    induction front with
    | nil => rfl
    | cons d front ih => exact ih
  rw [readItems, h, Option.bind_some, hskip]

end Reading

/-! ### Numbers and escapes -/

def decimal (digits : List Char) : ℕ := Nat.ofDigitChars 10 digits 0

def hexDigit (c : Char) : Option ℕ :=
  if c.isDigit then some (c.toNat - '0'.toNat)
  else if 'a' ≤ c.toLower ∧ c.toLower ≤ 'f' then some (c.toLower.toNat - 'a'.toNat + 10)
  else none

/-- The character with a hexadecimal number of so many digits. -/
def hexChar (digits : ℕ) (text : List Char) : Option (Char × ℕ) :=
  if digits ≤ text.length then
    ((text.take digits).foldlM (fun n d => (hexDigit d).map (16 * n + ·)) 0).map fun n =>
      (Char.ofNat n, digits)
  else none

def isSpace (c : Char) : Bool := c = ' ' || ('\t' ≤ c && c ≤ '\r')

def isWord (c : Char) : Bool := c.isAlphanum || c = '_'

/-- The escapes that stand for a class of characters. -/
def classEscape (c : Char) : Option (Char → Bool) :=
  match c with
  | 'd' => some Char.isDigit
  | 'D' => some fun d => !d.isDigit
  | 's' => some isSpace
  | 'S' => some fun d => !isSpace d
  | 'w' => some isWord
  | 'W' => some fun d => !isWord d
  | _ => none

/-- The escapes that stand for one character, by the character after the backslash. -/
def charEscape (dialect : Dialect) (c : Char) (text : List Char) : Option (Char × ℕ) :=
  match c with
  | 't' => some ('\t', 0)
  | 'n' => some ('\n', 0)
  | 'v' => some ('\x0b', 0)
  | 'f' => some ('\x0c', 0)
  | 'r' => some ('\r', 0)
  | 'x' => hexChar 2 text
  | 'u' => hexChar 4 text
  | 'c' => text.head?.bind fun letter =>
      if letter.isAlpha then some (Char.ofNat (letter.toNat % 32), 1) else none
  | '0' => if text.head?.any Char.isDigit then none else some (Char.ofNat 0, 0)
  | _ =>
      if c.isDigit then none
      else if dialect.lenient || !isWord c then some (c, 0)
      else none

/-- An escape outside of brackets. -/
def escape (dialect : Dialect) (c : Char) (text : List Char) : Option (Token × ℕ) :=
  match classEscape c with
  | some p => some (.atom (.set false [.members p]), 0)
  | none =>
      if c = 'b' then some (.assertion (.boundary false), 0)
      else if c = 'B' then some (.assertion (.boundary true), 0)
      else if c.isDigit && c ≠ '0' then
        let digits := text.takeWhile Char.isDigit
        some (.atom (.back (decimal (c :: digits))), digits.length)
      else (charEscape dialect c text).map (Prod.map (fun d => .atom (.char d)) id)

/-! ### Brackets -/

/-- An item between brackets, before the ranges are put together. -/
inductive Part
  | char (c : Char)
  | dash
  | members (p : Char → Bool)

def Part.asChar : Part → Option Char
  | .char c => some c
  | .dash => some '-'
  | .members _ => none

def Part.item : Part → Item
  | .char c => .range c c
  | .dash => .range '-' '-'
  | .members p => .members p

/-- A name between two `mark`s, the last before a closing bracket. -/
def bracketName (mark : Char) (text : List Char) : Option (List Char) :=
  let name := text.takeWhile (· ≠ mark)
  if [mark, ']'].isPrefixOf (text.drop name.length) then some name else none

def readPart (dialect : Dialect) (c : Char) (text : List Char) : Option (Part × ℕ) :=
  match c, text with
  | '-', _ => some (.dash, 0)
  | '\\', [] => none
  | '\\', d :: text =>
      match classEscape d with
      | some p => some (.members p, 1)
      | none =>
          if d = 'b' then some (.char '\x08', 1)
          else (charEscape dialect d text).map (Prod.map .char (· + 1))
  | '[', ':' :: text => (bracketName ':' text).bind fun name =>
      (dialect.named name).map fun p => (.members p, name.length + 3)
  | '[', '.' :: text => (bracketName '.' text).bind fun name =>
      (dialect.collating name).map fun d => (.char d, name.length + 3)
  | '[', '=' :: text => (bracketName '=' text).bind fun name =>
      (dialect.collating name).map fun d => (.members (· = d), name.length + 3)
  | c, _ => some (.char c, 0)

/-- The items of brackets; a dash between two others makes a range. -/
def classItems : List Part → Option (List Item)
  | [] => some []
  | low :: .dash :: high :: parts =>
      low.asChar.bind fun low => high.asChar.bind fun high =>
        if low ≤ high then (classItems parts).map (.range low high :: ·) else none
  | part :: parts => (classItems parts).map (part.item :: ·)

def bracket (dialect : Dialect) (text : List Char) : Option (Token × ℕ) :=
  let negated := text.head? = some '^'
  let skipped := if negated then 1 else 0
  (readBracketed (readPart dialect) 0 (text.drop skipped)).bind fun read =>
    (classItems read.1).map fun items => (.atom (.set negated items), read.2 + skipped)

/-! ### Tokens

What a brace or a bracket means depends on what follows, and a part of it on the
dialect. -/

/-- A quantifier with numbers, after the brace. -/
def interval (text : List Char) : Option (Token × ℕ) :=
  let min := text.takeWhile Char.isDigit
  if min = [] then none
  else
    match text.drop min.length with
    | '}' :: _ => some (.quantifier (decimal min) (some (decimal min)), min.length + 1)
    | ',' :: text =>
        let max := text.takeWhile Char.isDigit
        if (text.drop max.length).head? = some '}' then
          if max = [] then some (.quantifier (decimal min) none, min.length + 2)
          else if decimal min ≤ decimal max then
            some (.quantifier (decimal min) (some (decimal max)), min.length + max.length + 2)
          else none
        else none
    | _ => none

/-- The characters that do not stand for themselves. -/
def syntaxCharacters (dialect : Dialect) : List Char :=
  ['^', '$', '\\', '.', '*', '+', '?', '(', ')', '[', '{', '|'] ++
    if dialect.lenient then [] else [']', '}']

def readToken (dialect : Dialect) (c : Char) (text : List Char) : Option (Token × ℕ) :=
  if c ∈ syntaxCharacters dialect then
    match c with
    | '^' => some (.assertion .start, 0)
    | '$' => some (.assertion .stop, 0)
    | '\\' => text.head?.bind fun d =>
        (escape dialect d text.tail).map (Prod.map id (· + 1))
    | '.' => some (.atom .any, 0)
    | '*' => some (.quantifier 0 none, 0)
    | '+' => some (.quantifier 1 none, 0)
    | '(' => some (.opening, 0)
    | ')' => some (.closing, 0)
    | '[' => bracket dialect text
    | '{' => interval text
    | '|' => some (.bar, 0)
    -- the closing bracket and brace, and the question mark, which is not part of the model
    | _ => none
  else some (.atom (.char c), 0)

/-! ### Parsing

A group is opened by keeping what surrounds it, and closed by making it a term of that.
The expression is complete when no group is open. -/

/-- What has been read of a group: the alternatives before the last, and the terms of the
last, the newest first; a quantifier may follow some of them. -/
structure Level where
  before : Option Node := none
  terms : List (Node × Bool) := []

def Level.push (level : Level) (node : Node) (quantifiable : Bool) : Level :=
  { level with terms := (node, quantifiable) :: level.terms }

def Level.last (level : Level) : Node :=
  level.terms.foldl (fun rest term => .seq term.1 rest) .empty

def Level.node (level : Level) : Node :=
  match level.before with
  | none => level.last
  | some before => .alt before level.last

/-- The groups that are open, with their numbers and what surrounds each, and the number of
groups up to here. -/
structure Parser where
  level : Level := {}
  outer : List (ℕ × Level) := []
  groups : ℕ := 0

def Parser.step (dialect : Dialect) (parser : Parser) : Token → Option Parser
  | .atom node => some { parser with level := parser.level.push node true }
  | .assertion node => some { parser with level := parser.level.push node false }
  | .quantifier min max =>
      match parser.level.terms with
      | (node, true) :: terms =>
          some { parser with
            level := { parser.level with
              terms := (.loop min max node, dialect.stacked) :: terms } }
      | _ => none
  | .bar => some { parser with level := { before := some parser.level.node } }
  | .opening =>
      some ⟨{}, (parser.groups + 1, parser.level) :: parser.outer, parser.groups + 1⟩
  | .closing =>
      match parser.outer with
      | (index, level) :: outer =>
          some { parser with level := level.push (.group index parser.level.node) true, outer }
      | [] => none

/-- The back references of an expression. -/
def Node.backs : Node → List ℕ
  | .back index => [index]
  | .group _ body => body.backs
  | .seq first second => first.backs ++ second.backs
  | .alt first second => first.backs ++ second.backs
  | .loop _ _ body => body.backs
  | _ => []

def parse (dialect : Dialect) (tokens : List Token) : Option Node :=
  (tokens.foldlM (Parser.step dialect) {}).bind fun parser =>
    if parser.outer = [] ∧ ∀ index ∈ parser.level.node.backs, index ≤ parser.groups then
      some parser.level.node
    else none

/-- The constructor of an expression, which throws if there is none. -/
def compile (dialect : Dialect) (text : List Char) : Option Node :=
  (readItems (readToken dialect) 0 text).bind (parse dialect)

/-! ### What holds of all nodes

The parser only puts nodes together.  A property that survives this and holds of the
nodes of all tokens holds of the expression, and one need not know which expression it
is. -/

/-- Nodes one after the other. -/
def chain (nodes : List Node) : Node := nodes.foldr .seq .empty

/-- The last alternative is the chain of its terms, in the order in which they were read. -/
theorem Level.last_eq_chain (level : Level) :
    level.last = chain (level.terms.reverse.map Prod.fst) := by
  rw [Level.last, chain, List.foldr_map, List.foldr_reverse]

/-- A property of the parts that sequences keep holds of a chain. -/
theorem chain_induction {P : Node → Prop} (hempty : P .empty)
    (hseq : ∀ first second, P first → P second → P (.seq first second)) {nodes : List Node}
    (h : ∀ node ∈ nodes, P node) : P (chain nodes) := by
  induction nodes with
  | nil => exact hempty
  | cons node nodes ih =>
      exact hseq _ _ (h node List.mem_cons_self)
        (ih fun other hother => h other (List.mem_cons_of_mem node hother))

/-- Putting nodes together keeps the property. -/
structure Node.Closed (P : Node → Prop) : Prop where
  empty : P .empty
  seq : ∀ first second, P first → P second → P (.seq first second)
  alt : ∀ first second, P first → P second → P (.alt first second)
  loop : ∀ min max body, P body → P (.loop min max body)
  group : ∀ index body, P body → P (.group index body)

def Token.node : Token → Option Node
  | .atom node => some node
  | .assertion node => some node
  | _ => none

/-- The property of every expression that a level holds: of the alternatives before the last
bar and of the terms behind it. -/
structure Level.All (P : Node → Prop) (level : Level) : Prop where
  before : ∀ node, level.before = some node → P node
  terms : ∀ term ∈ level.terms, P term.1

/-- The property of every expression in the parser, those of the groups that are still open
included. -/
structure Parser.All (P : Node → Prop) (parser : Parser) : Prop where
  level : parser.level.All P
  outer : ∀ entry ∈ parser.outer, entry.2.All P

section All

variable {P : Node → Prop} {dialect : Dialect}

theorem Level.All.init : Level.All P {} := ⟨by simp, by simp⟩

/-- A part is added to those there are. -/
theorem Level.All.push {level : Level} (h : level.All P) {node : Node} (hnode : P node)
    (quantifiable : Bool) : (level.push node quantifiable).All P := by
  refine ⟨h.before, ?_⟩
  intro term hterm
  rcases List.mem_cons.mp hterm with rfl | hterm
  · exact hnode
  · exact h.terms term hterm

/-- The expression of a level is made of its parts by operators that keep the property. -/
theorem Level.All.node (hP : Node.Closed P) {level : Level} (h : level.All P) :
    P level.node := by
  have hlast : P level.last := by
    rw [level.last_eq_chain]
    refine chain_induction hP.empty hP.seq ?_
    intro node hnode
    obtain ⟨term, hterm, rfl⟩ := List.mem_map.mp hnode
    exact h.terms term (List.mem_reverse.mp hterm)
  unfold Level.node
  split
  · exact hlast
  · next before hbefore => exact hP.alt _ _ (h.before before hbefore) hlast

/-- A step of the parser keeps the property: it adds a term, applies an operator to the last
one, opens a group or closes one. -/
theorem Parser.All.step (hP : Node.Closed P) {parser next : Parser} (h : parser.All P)
    {token : Token} (htoken : ∀ node, token.node = some node → P node)
    (hstep : parser.step dialect token = some next) : next.All P := by
  cases token with
  | atom node =>
      cases hstep
      exact ⟨h.level.push (htoken node rfl) true, h.outer⟩
  | assertion node =>
      cases hstep
      exact ⟨h.level.push (htoken node rfl) false, h.outer⟩
  | quantifier min max =>
      rw [Parser.step] at hstep
      split at hstep
      · next node terms hterms =>
          cases hstep
          have hall := h.level.terms
          rw [hterms] at hall
          refine ⟨⟨h.level.before, ?_⟩, h.outer⟩
          intro term hterm
          rcases List.mem_cons.mp hterm with rfl | hterm
          · exact hP.loop min max node (hall _ List.mem_cons_self)
          · exact hall term (List.mem_cons_of_mem _ hterm)
      · cases hstep
  | opening =>
      cases hstep
      refine ⟨.init, ?_⟩
      intro entry hentry
      rcases List.mem_cons.mp hentry with rfl | hentry
      · exact h.level
      · exact h.outer entry hentry
  | closing =>
      rw [Parser.step] at hstep
      split at hstep
      · next index level outer houter =>
          cases hstep
          have hall := h.outer
          rw [houter] at hall
          exact ⟨(hall _ List.mem_cons_self).push (hP.group index _ (h.level.node hP)) true,
            fun entry hentry => hall entry (List.mem_cons_of_mem _ hentry)⟩
      · cases hstep
  | bar =>
      cases hstep
      refine ⟨⟨?_, by simp⟩, h.outer⟩
      intro node hnode
      obtain rfl := Option.some.inj hnode
      exact h.level.node hP

/-- Reading token after token keeps the property for every part read so far, in all open
groups. -/
theorem Parser.All.foldlM (hP : Node.Closed P) {tokens : List Token} {parser last : Parser}
    (h : parser.All P) (htokens : ∀ token ∈ tokens, ∀ node, token.node = some node → P node)
    (hrun : tokens.foldlM (Parser.step dialect) parser = some last) : last.All P := by
  induction tokens generalizing parser with
  | nil =>
      cases hrun
      exact h
  | cons token tokens ih =>
      rw [List.foldlM_cons] at hrun
      obtain ⟨next, hstep, hrun⟩ := Option.bind_eq_some_iff.mp hrun
      exact ih (h.step hP (htokens token List.mem_cons_self) hstep)
        (fun other hother => htokens other (List.mem_cons_of_mem token hother)) hrun

/-- **All nodes of an expression.**  A property of the nodes of all tokens that putting nodes
together keeps is one of the expression. -/
theorem compile_induction (hP : Node.Closed P) {text : List Char} {node : Node}
    (h : compile dialect text = some node)
    (htoken : ∀ c rest read, c :: rest <:+ text → readToken dialect c rest = some read →
      ∀ node, read.1.node = some node → P node) : P node := by
  obtain ⟨tokens, htokens, h⟩ := Option.bind_eq_some_iff.mp h
  obtain ⟨parser, hparser, h⟩ := Option.bind_eq_some_iff.mp h
  have hall : parser.All P := by
    refine Parser.All.foldlM hP ⟨.init, by simp⟩ ?_ hparser
    exact mem_readItems (P := fun token => ∀ node, token.node = some node → P node) htoken htokens
  split at h
  · obtain rfl := Option.some.inj h
    exact hall.level.node hP
  · cases h

end All

end Patterns
