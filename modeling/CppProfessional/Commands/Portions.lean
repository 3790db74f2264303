import CppProfessional.Commands.Blocks

/-!
# A command stream in portions

A reader that takes each portion of a text for a text of its own sees a line that two
portions share as two lines.  What it makes of the text is stated here for any alphabet
and any marks.

## Main definitions

* `seamed portion` — the characters of a portion, with its end marked as a seam;
* `pieces delim text` — the non-empty lines that are left when every seam ends a line;
* `tears delim text` — the seams between two characters of one line;
* `Clear delim brace text` — no line is torn next to a brace.

The pieces depend on the tears alone (`pieces_congr`), and determine them
(`tears_congr`).  The blocks of the pieces determine the tears if these are clear of
braces and every block is closed (`tears_eq_of_group_eq`): what is then missing from
the blocks are the braces, and those are the same lines in both texts.
-/

namespace Commands

universe u

variable {α : Type u}

/-! ### Seams

A text with seams is a list of characters with marks.  Reading it in portions is then
one function of this list, and two ways to cut a text are two markings of the same
characters. -/

/-- The characters of a portion, each with whether the portion ends after it. -/
def seamed : List α → List (α × Bool)
  | [] => []
  | [c] => [(c, true)]
  | c :: d :: rest => (c, false) :: seamed (d :: rest)

/-- The text of a sequence of portions, with its seams. -/
def inPortions (portions : List (List α)) : List (α × Bool) := portions.flatMap seamed

@[simp] theorem map_fst_seamed (portion : List α) : (seamed portion).map Prod.fst = portion := by
  induction portion using seamed.induct with
  | case1 => rfl
  | case2 c => rfl
  | case3 c d rest ih => rw [seamed, List.map_cons, ih]

/-- The characters of the portions are those of the text; only the seams are new. -/
theorem map_fst_inPortions (portions : List (List α)) :
    (inPortions portions).map Prod.fst = portions.flatten := by
  induction portions with
  | nil => rfl
  | cons portion portions ih =>
      rw [inPortions, List.flatMap_cons, List.map_append, map_fst_seamed, List.flatten_cons]
      exact congrArg _ ih

section Pieces

variable [DecidableEq α] {delim : α}

/-- The non-empty lines of a text in which every seam ends a line. -/
def pieces (delim : α) : List (α × Bool) → List (List α)
  | [] => []
  | [(c, _)] => if c = delim then [] else [[c]]
  | (c, seam) :: (d, seam') :: rest =>
      if c = delim then pieces delim ((d, seam') :: rest)
      else if seam ∨ d = delim then [c] :: pieces delim ((d, seam') :: rest)
      else consHead c (pieces delim ((d, seam') :: rest))

/-- The seams that tear a line. -/
def tears (delim : α) : List (α × Bool) → List Bool
  | [] | [_] => []
  | (c, seam) :: (d, seam') :: rest =>
      (seam && decide (c ≠ delim ∧ d ≠ delim)) :: tears delim ((d, seam') :: rest)

/-- The lines that are not empty. -/
def nonEmpty (lines : List (List α)) : List (List α) := lines.filter fun line => !line.isEmpty

/-- A character that ends no line is the first of a piece. -/
theorem exists_pieces_cons {d : α} (seam : Bool) (hd : d ≠ delim) (rest : List (α × Bool)) :
    ∃ tail others, pieces delim ((d, seam) :: rest) = (d :: tail) :: others := by
  cases rest with
  | nil => exact ⟨[], [], by rw [pieces, if_neg hd]⟩
  | cons next rest =>
      rw [pieces, if_neg hd]
      split
      · exact ⟨[], _, rfl⟩
      · cases pieces delim ((next.1, next.2) :: rest) with
        | nil => exact ⟨[], [], rfl⟩
        | cons line others => exact ⟨line, others, rfl⟩

/-- A portion is read as a text of its own: its last line ends with it, and an empty one counts
for nothing. -/
theorem pieces_seamed_append (portion : List α) (rest : List (α × Bool)) :
    pieces delim (seamed portion ++ rest) =
      nonEmpty (getlines delim portion) ++ pieces delim rest := by
  induction portion using seamed.induct with
  | case1 => rfl
  | case2 c =>
      by_cases hc : c = delim
      · cases rest <;> simp [seamed, pieces, getlines, nonEmpty, hc]
      · cases rest <;> simp [seamed, pieces, getlines, consHead, nonEmpty, hc]
  | case3 c d portion ih =>
      obtain ⟨seam, others, hnext⟩ : ∃ seam others,
          seamed (d :: portion) ++ rest = (d, seam) :: others := by
        cases portion with
        | nil => exact ⟨_, _, rfl⟩
        | cons e portion => exact ⟨_, _, rfl⟩
      have hlines : getlines delim (c :: d :: portion) = if c = delim then
          [] :: getlines delim (d :: portion) else consHead c (getlines delim (d :: portion)) := rfl
      rw [seamed, List.cons_append, hnext, pieces, ← hnext, ih, hlines]
      by_cases hc : c = delim
      · rw [if_pos hc, if_pos hc]
        rfl
      · rw [if_neg hc, if_neg hc]
        by_cases hd : d = delim
        · -- the line ends here, and what follows on the next one is empty so far
          rw [if_pos (Or.inr hd), getlines, if_pos hd]
          rfl
        · rw [if_neg (by simp [hd]), getlines, if_neg hd]
          cases getlines delim portion <;> rfl

/-- **Portions are read one by one.** -/
theorem pieces_inPortions (portions : List (List α)) :
    pieces delim (inPortions portions) =
      nonEmpty (portions.flatMap (getlines delim)) := by
  induction portions with
  | nil => rfl
  | cons portion portions ih =>
      have happend (lines lines' : List (List α)) :
          nonEmpty (lines ++ lines') = nonEmpty lines ++ nonEmpty lines' := List.filter_append ..
      rw [inPortions, List.flatMap_cons, pieces_seamed_append, List.flatMap_cons, happend]
      exact congrArg _ ih

/-! ### Tears

Most seams do no harm: at the end of a line, or where a line is empty, nothing is torn.
A tear is a seam with characters of one line on both sides, and the pieces depend on
nothing else. -/

/-- Two texts of the same characters, with seams of their own. -/
inductive SameText : List (α × Bool) → List (α × Bool) → Prop
  | nil : SameText [] []
  | one (c : α) (s s' : Bool) : SameText [(c, s)] [(c, s')]
  | more (c d : α) (s t s' t' : Bool) {rest rest' : List (α × Bool)} :
      SameText ((d, t) :: rest) ((d, t') :: rest') →
      SameText ((c, s) :: (d, t) :: rest) ((c, s') :: (d, t') :: rest')

omit [DecidableEq α] in
/-- What has the same characters is the same text, wherever the seams are. -/
theorem sameText_of_map_fst {text text' : List (α × Bool)}
    (h : text.map Prod.fst = text'.map Prod.fst) : SameText text text' := by
  induction text generalizing text' with
  | nil =>
      obtain rfl := List.map_eq_nil_iff.mp h.symm
      exact .nil
  | cons first rest ih =>
      obtain ⟨first', rest', rfl, hfirst, hrest⟩ := List.map_eq_cons_iff.mp h.symm
      have hsame := ih hrest.symm
      obtain ⟨c, s⟩ := first
      obtain ⟨c', s'⟩ := first'
      obtain rfl : c' = c := hfirst
      cases hsame with
      | nil => exact .one c' s s'
      | one d t t' => exact .more c' d s t s' t' (.one d t t')
      | more d e t u t' u' hnext => exact .more c' d s t s' t' (.more d e t u t' u' hnext)

/-- **The pieces depend on the tears alone.** -/
theorem pieces_congr {text text' : List (α × Bool)} (hsame : SameText text text')
    (h : tears delim text = tears delim text') : pieces delim text = pieces delim text' := by
  induction hsame with
  | nil => rfl
  | one c s s' => rfl
  | more c d s t s' t' hnext ih =>
      obtain ⟨htear, hrest⟩ := List.cons_eq_cons.mp h
      rw [pieces, pieces, ih hrest]
      by_cases hc : c = delim
      · rw [if_pos hc, if_pos hc]
      · by_cases hd : d = delim
        · rw [if_pos (Or.inr hd), if_pos (Or.inr hd)]
        · obtain rfl : s = s' := by simpa [hc, hd] using htear
          rfl

omit [DecidableEq α] in
/-- The first line and the others can be read off again. -/
theorem consHead_injective {c : α} {line line' : List α} {lines lines' : List (List α)}
    (h : consHead c (line :: lines) = consHead c (line' :: lines')) :
    line :: lines = line' :: lines' := by
  obtain ⟨hline, hlines⟩ := List.cons_eq_cons.mp h
  rw [(List.cons_eq_cons.mp hline).2, hlines]

/-- **The pieces determine the tears.**  Two texts with the same characters that are read
as the same pieces are torn in the same places, because the pieces say how long each of
them is. -/
theorem tears_congr {text text' : List (α × Bool)} (hsame : SameText text text')
    (h : pieces delim text = pieces delim text') : tears delim text = tears delim text' := by
  induction hsame with
  | nil => rfl
  | one c s s' => rfl
  | @more c d s t s' t' rest rest' hnext ih =>
      rw [tears, tears]
      rw [pieces, pieces] at h
      by_cases hc : c = delim
      · rw [if_pos hc, if_pos hc] at h
        rw [ih h]
        simp [hc]
      · rw [if_neg hc, if_neg hc] at h
        by_cases hd : d = delim
        · rw [if_pos (Or.inr hd), if_pos (Or.inr hd)] at h
          rw [ih (List.cons_eq_cons.mp h).2]
          simp [hd]
        · obtain ⟨tail, others, heq⟩ := exists_pieces_cons t hd rest
          obtain ⟨tail', others', heq'⟩ := exists_pieces_cons t' hd rest'
          -- a torn line starts with a piece of one character, any other with a longer one
          simp only [hd, or_false] at h
          cases s <;> cases s' <;> simp only [Bool.false_eq_true, if_true, if_false] at h
          · rw [heq, heq'] at h
            rw [ih (by rw [heq, heq']; exact consHead_injective h)]
          · rw [heq, consHead] at h
            cases h
          · rw [heq', consHead] at h
            cases h
          · rw [ih (List.cons_eq_cons.mp h).2]

/-! ### Tears and blocks

A torn line that is no brace gives two commands in place of one; a tear next to a brace
may make a brace or destroy one, and then the blocks have little to do with each other.
So tears are considered away from braces. -/

/-- No line is torn next to a brace. -/
def Clear (delim : α) (braces : List α) : List (α × Bool) → Prop
  | [] | [_] => True
  | (c, seam) :: (d, seam') :: rest =>
      (seam = true → c ≠ delim → d ≠ delim → c ∉ braces ∧ d ∉ braces) ∧
        Clear delim braces ((d, seam') :: rest)

instance Clear.instDecidable (braces : List α) :
    (text : List (α × Bool)) → Decidable (Clear delim braces text)
  | [] | [_] => isTrue trivial
  | (_, _) :: (d, seam') :: rest =>
      have := Clear.instDecidable braces ((d, seam') :: rest)
      inferInstanceAs (Decidable (_ ∧ _))

end Pieces

section Blocks

variable {mark : List α → Mark} {bulk : ℕ}

/-- A list of plain lines. -/
def Plain (mark : List α → Mark) (lines : List (List α)) : Prop :=
  ∀ line ∈ lines, line ≠ [] ∧ mark line = .plain

/-- Two lists of lines that differ only in how lines without a role are torn. -/
inductive Retorn (mark : List α → Mark) : List (List α) → List (List α) → Prop
  | nil : Retorn mark [] []
  | same (line : List α) {lines lines' : List (List α)} : Retorn mark lines lines' →
      Retorn mark (line :: lines) (line :: lines')
  | torn {part part' : List α} {parts parts' lines lines' : List (List α)} :
      Plain mark (part :: parts) → Plain mark (part' :: parts') →
      (part :: parts).flatten = (part' :: parts').flatten → Retorn mark lines lines' →
      Retorn mark (part :: (parts ++ lines)) (part' :: (parts' ++ lines'))

/-- What is torn in another way is torn in another way. -/
theorem Retorn.symm {lines lines' : List (List α)} (h : Retorn mark lines lines') :
    Retorn mark lines' lines := by
  induction h with
  | nil => exact .nil
  | same line _ ih => exact .same line ih
  | torn hparts hparts' heq _ ih => exact .torn hparts' hparts heq.symm ih

/-- Only a brace on a line of its own has a role. -/
def OnlyBraces (mark : List α → Mark) (braces : List α) : Prop :=
  ∀ line, mark line ≠ .plain → ∃ c ∈ braces, line = [c]

section Braces

variable {braces : List α} (hmark : OnlyBraces mark braces)
include hmark

/-- A line of two characters or more is no brace. -/
theorem OnlyBraces.plain_long (c d : α) (line : List α) : mark (c :: d :: line) = .plain := by
  by_contra hne
  obtain ⟨_, _, heq⟩ := hmark _ hne
  cases heq

/-- Neither is one that begins with another character. -/
theorem OnlyBraces.plain_of_head {c : α} (hc : c ∉ braces) (line : List α) :
    mark (c :: line) = .plain := by
  by_contra hne
  obtain ⟨d, hd, heq⟩ := hmark _ hne
  cases heq
  exact hc hd

/-- A character in front of a line that may be torn further on. -/
theorem Retorn.joined {c d d' : α} {tail tail' : List α} {lines lines' : List (List α)}
    (h : Retorn mark ((d :: tail) :: lines) ((d' :: tail') :: lines')) :
    Retorn mark ((c :: d :: tail) :: lines) ((c :: d' :: tail') :: lines') := by
  cases h with
  | same _ hlines => exact .same _ hlines
  | torn hparts hparts' heq hlines =>
      have hplain {e : α} {part : List α} {parts : List (List α)}
          (h : Plain mark ((e :: part) :: parts)) : Plain mark ((c :: e :: part) :: parts) :=
        List.forall_mem_cons.mpr ⟨⟨List.cons_ne_nil _ _, hmark.plain_long c e part⟩,
          (List.forall_mem_cons.mp h).2⟩
      exact .torn (hplain hparts) (hplain hparts') (congrArg (List.cons c) heq) hlines

/-- A character that one of the two lists tears off. -/
theorem Retorn.split {c d d' : α} {tail tail' : List α} {lines lines' : List (List α)}
    (hc : c ∉ braces) (hd : d ∉ braces)
    (h : Retorn mark ((d :: tail) :: lines) ((d' :: tail') :: lines')) :
    Retorn mark ([c] :: (d :: tail) :: lines) ((c :: d' :: tail') :: lines') := by
  have hfirst : [c] ≠ [] ∧ mark [c] = .plain :=
    ⟨List.cons_ne_nil _ _, hmark.plain_of_head hc []⟩
  cases h with
  | same _ hlines =>
      have hparts : Plain mark [[c], d :: tail] := by
        intro line hline
        rcases List.mem_pair.mp hline with rfl | rfl
        · exact hfirst
        · exact ⟨List.cons_ne_nil _ _, hmark.plain_of_head hd tail⟩
      have hwhole : Plain mark [c :: d :: tail] := by
        intro line hline
        obtain rfl := List.mem_singleton.mp hline
        exact ⟨List.cons_ne_nil _ _, hmark.plain_long c d tail⟩
      have htorn := Retorn.torn hparts hwhole (by simp) hlines
      exact htorn
  | @torn _ _ parts parts' lines lines' hparts hparts' heq hlines =>
      have hfront : Plain mark ([c] :: (d :: tail) :: parts) :=
        List.forall_mem_cons.mpr ⟨hfirst, hparts⟩
      have hback : Plain mark ((c :: d' :: tail') :: parts') :=
        List.forall_mem_cons.mpr ⟨⟨List.cons_ne_nil _ _, hmark.plain_long c d' tail'⟩,
          (List.forall_mem_cons.mp hparts').2⟩
      have htorn := Retorn.torn hfront hback (congrArg (List.cons c) heq) hlines
      exact htorn

variable [DecidableEq α] {delim : α}

/-- Tears that are clear of braces leave the lines with a role alone: a brace stands in its
line by itself or it is no brace, however the text around it is torn. -/
theorem retorn_pieces {text text' : List (α × Bool)} (hsame : SameText text text')
    (hclear : Clear delim braces text) (hclear' : Clear delim braces text') :
    Retorn mark (pieces delim text) (pieces delim text') := by
  induction hsame with
  | nil => exact .nil
  | one c s s' =>
      rw [pieces, pieces]
      split
      · exact .nil
      · exact .same [c] .nil
  | @more c d s t s' t' rest rest' hnext ih =>
      obtain ⟨hhead, hrest⟩ := hclear
      obtain ⟨hhead', hrest'⟩ := hclear'
      have hlines := ih hrest hrest'
      rw [pieces, pieces]
      by_cases hc : c = delim
      · rw [if_pos hc, if_pos hc]
        exact hlines
      · rw [if_neg hc, if_neg hc]
        by_cases hd : d = delim
        · rw [if_pos (Or.inr hd), if_pos (Or.inr hd)]
          exact .same [c] hlines
        · obtain ⟨tail, others, heq⟩ := exists_pieces_cons t hd rest
          obtain ⟨tail', others', heq'⟩ := exists_pieces_cons t' hd rest'
          simp only [hd, or_false]
          rw [heq, heq'] at hlines ⊢
          cases s <;> cases s' <;> simp only [Bool.false_eq_true, if_true, if_false]
          · exact hlines.joined hmark
          · obtain ⟨hc', hd'⟩ := hhead' rfl hc hd
            exact (hlines.symm.split hmark hc' hd').symm
          · obtain ⟨hc', hd'⟩ := hhead rfl hc hd
            exact hlines.split hmark hc' hd'
          · exact .same [c] hlines

end Braces

/-! ### What the blocks keep

If every block is closed the blocks contain every command but the braces.  Which
commands there were can then be read off the blocks, whatever the block size is. -/

/-- The number of open braces after some commands; a closing mark outside braces is a
command. -/
def nesting (mark : List α → Mark) : ℕ → List (List α) → ℕ
  | depth, [] => depth
  | depth, command :: rest =>
      match mark command with
      | .opens => nesting mark (depth + 1) rest
      | .closes => nesting mark (depth - 1) rest
      | .plain => nesting mark depth rest

/-- The commands without the marks that open and close blocks. -/
def kept (mark : List α → Mark) : ℕ → List (List α) → List (List α)
  | _, [] => []
  | depth, command :: rest =>
      match mark command, depth with
      | .opens, depth => kept mark (depth + 1) rest
      | .closes, 0 => command :: kept mark 0 rest
      | .closes, depth + 1 => kept mark depth rest
      | .plain, depth => command :: kept mark depth rest

/-- The commands of the block in progress. -/
def Grouping.held : Grouping (List α) → List (List α)
  | .outside pending => pending
  | .inside _ collected => collected

/-- A block that is put out has its commands, and an empty one has none. -/
theorem flatten_emit (block : List (List α)) : (emit block).flatten = block := by
  unfold emit
  split <;> simp [*]

/-- One command: the blocks and the block in progress gain what is kept of it. -/
theorem Grouping.kept_feed (mark : List α → Mark) (bulk : ℕ) (g : Grouping (List α))
    (command : List α) :
    (g.feed mark bulk command).1.flatten ++ (g.feed mark bulk command).2.held =
        g.held ++ kept mark g.depth [command] ∧
      (g.feed mark bulk command).2.depth = nesting mark g.depth [command] := by
  cases g with
  | outside pending =>
      cases hmark : mark command with
      | opens => simp [Grouping.feed, Grouping.held, Grouping.depth, kept, nesting, hmark,
          flatten_emit]
      | closes | plain =>
          simp only [Grouping.feed, hmark]
          split <;> simp [Grouping.held, Grouping.depth, kept, nesting, hmark]
  | inside nested collected =>
      cases hmark : mark command with
      | opens => simp [Grouping.feed, Grouping.held, Grouping.depth, kept, nesting, hmark]
      | closes =>
          cases nested <;>
            simp [Grouping.feed, Grouping.held, Grouping.depth, kept, nesting, hmark,
              flatten_emit]
      | plain => simp [Grouping.feed, Grouping.held, Grouping.depth, kept, nesting, hmark]

/-- The depth after commands one after the other. -/
theorem nesting_append (depth : ℕ) (commands rest : List (List α)) :
    nesting mark depth (commands ++ rest) = nesting mark (nesting mark depth commands) rest := by
  induction commands generalizing depth with
  | nil => rfl
  | cons command commands ih =>
      rw [List.cons_append, nesting, nesting]
      cases mark command <;> exact ih _

/-- The commands that are kept, of commands one after the other, the later ones at the depth
where the others have left it. -/
theorem kept_append (depth : ℕ) (commands rest : List (List α)) :
    kept mark depth (commands ++ rest) =
      kept mark depth commands ++ kept mark (nesting mark depth commands) rest := by
  induction commands generalizing depth with
  | nil => rfl
  | cons command commands ih =>
      cases hmark : mark command with
      | opens => simp [kept, nesting, hmark, ih]
      | closes => cases depth <;> simp [kept, nesting, hmark, ih]
      | plain => simp [kept, nesting, hmark, ih]

/-- What the grammar has put out and what it still holds are the commands that are kept, in
their order. -/
theorem Grouping.kept_run (mark : List α → Mark) (bulk : ℕ) (commands : List (List α)) :
    (Grouping.run mark bulk commands).1.flatten ++ (Grouping.run mark bulk commands).2.held =
        kept mark 0 commands ∧
      (Grouping.run mark bulk commands).2.depth = nesting mark 0 commands := by
  induction commands using List.reverseRecOn with
  | nil => exact ⟨rfl, rfl⟩
  | append_singleton commands command ih =>
      obtain ⟨hkept, hdepth⟩ := ih
      have hfeed := (Grouping.run mark bulk commands).2.kept_feed mark bulk command
      rw [Grouping.run_concat, kept_append, nesting_append, ← hkept, ← hdepth]
      refine ⟨?_, hfeed.2⟩
      rw [List.flatten_append, List.append_assoc, hfeed.1, List.append_assoc]

/-- Of a stream with every block closed, the blocks keep everything but the marks. -/
theorem flatten_group (bulk : ℕ) {commands : List (List α)}
    (hclosed : nesting mark 0 commands = 0) :
    (group mark bulk commands).flatten = kept mark 0 commands := by
  obtain ⟨hkept, hdepth⟩ := Grouping.kept_run mark bulk commands
  rw [group, List.flatten_append, ← hkept]
  refine congrArg _ ?_
  rw [hclosed] at hdepth
  cases hstate : (Grouping.run mark bulk commands).2 with
  | outside pending => exact flatten_emit pending
  | inside nested collected =>
      rw [hstate] at hdepth
      cases hdepth

/-! ### From the blocks to the tears

The way back: equal blocks have equal commands in them, equal commands are equal pieces
between the braces, and equal pieces mean equal tears. -/

/-- Commands that are no braces are all kept, and leave the depth alone. -/
theorem kept_append_plain {lines : List (List α)} (hplain : Plain mark lines) (depth : ℕ)
    (rest : List (List α)) :
    kept mark depth (lines ++ rest) = lines ++ kept mark depth rest ∧
      nesting mark depth (lines ++ rest) = nesting mark depth rest := by
  induction lines with
  | nil => exact ⟨rfl, rfl⟩
  | cons line lines ih =>
      obtain ⟨⟨-, hline⟩, hlines⟩ := List.forall_mem_cons.mp hplain
      obtain ⟨hkept, hnesting⟩ := ih hlines
      simp [kept, nesting, hline, hkept, hnesting]

/-- Two ways to tear the same characters, with something after each: what follows has to begin
at the same place in both. -/
theorem append_inj_of_flatten {lines lines' rest rest' : List (List α)}
    (hplain : Plain mark lines) (hplain' : Plain mark lines')
    (hflatten : lines.flatten = lines'.flatten) (h : lines ++ rest = lines' ++ rest') :
    lines = lines' ∧ rest = rest' := by
  induction lines generalizing lines' with
  | nil =>
      cases lines' with
      | nil => exact ⟨rfl, h⟩
      | cons line' lines' =>
          have hnil : line' = [] := (List.append_eq_nil_iff.mp hflatten.symm).1
          exact absurd hnil (List.forall_mem_cons.mp hplain').1.1
  | cons line lines ih =>
      cases lines' with
      | nil =>
          have hnil : line = [] := (List.append_eq_nil_iff.mp hflatten).1
          exact absurd hnil (List.forall_mem_cons.mp hplain).1.1
      | cons line' lines' =>
          obtain ⟨rfl, hrest⟩ := List.cons_eq_cons.mp h
          rw [List.flatten_cons, List.flatten_cons, List.append_cancel_left_eq] at hflatten
          obtain ⟨rfl, rfl⟩ := ih (List.forall_mem_cons.mp hplain).2
            (List.forall_mem_cons.mp hplain').2 hflatten hrest
          exact ⟨rfl, rfl⟩

/-- Tears away from braces leave the depth alone. -/
theorem Retorn.nesting_eq {lines lines' : List (List α)} (h : Retorn mark lines lines')
    (depth : ℕ) : nesting mark depth lines = nesting mark depth lines' := by
  induction h generalizing depth with
  | nil => rfl
  | same line _ ih =>
      rw [nesting, nesting]
      cases mark line <;> exact ih _
  | @torn part part' parts parts' lines lines' hparts hparts' _ _ ih =>
      rw [← List.cons_append, ← List.cons_append, (kept_append_plain hparts depth lines).2,
        (kept_append_plain hparts' depth lines').2]
      exact ih depth

/-- What is kept tells where the lines without a role are torn, since every one of them is in a
block. -/
theorem Retorn.eq_of_kept_eq {lines lines' : List (List α)} (h : Retorn mark lines lines')
    {depth : ℕ} (hkept : kept mark depth lines = kept mark depth lines') : lines = lines' := by
  induction h generalizing depth with
  | nil => rfl
  | same line _ ih =>
      refine congrArg (List.cons line) ?_
      cases hmark : mark line with
      | opens =>
          simp only [kept, hmark] at hkept
          exact ih hkept
      | closes =>
          cases depth with
          | zero =>
              simp only [kept, hmark, List.cons.injEq, true_and] at hkept
              exact ih hkept
          | succ depth =>
              simp only [kept, hmark] at hkept
              exact ih hkept
      | plain =>
          simp only [kept, hmark, List.cons.injEq, true_and] at hkept
          exact ih hkept
  | @torn part part' parts parts' lines lines' hparts hparts' hflatten _ ih =>
      rw [← List.cons_append, ← List.cons_append] at hkept ⊢
      rw [(kept_append_plain hparts depth lines).1, (kept_append_plain hparts' depth lines').1]
        at hkept
      obtain ⟨heq, hrest⟩ := append_inj_of_flatten hparts hparts' hflatten hkept
      rw [heq, ih hrest]

/-- **The blocks determine the tears**, if these are clear of braces and every block is
closed. -/
theorem tears_eq_of_group_eq [DecidableEq α] {delim : α} {braces : List α}
    (hmark : OnlyBraces mark braces) {text text' : List (α × Bool)} (hsame : SameText text text')
    (hclear : Clear delim braces text) (hclear' : Clear delim braces text')
    (hclosed : nesting mark 0 (pieces delim text) = 0)
    (h : group mark bulk (pieces delim text) = group mark bulk (pieces delim text')) :
    tears delim text = tears delim text' := by
  have hretorn := retorn_pieces hmark hsame hclear hclear'
  have hclosed' : nesting mark 0 (pieces delim text') = 0 :=
    (hretorn.nesting_eq 0).symm.trans hclosed
  have hkept : kept mark 0 (pieces delim text) = kept mark 0 (pieces delim text') := by
    rw [← flatten_group bulk hclosed, ← flatten_group bulk hclosed', h]
  exact tears_congr hsame (hretorn.eq_of_kept_eq hkept)

end Blocks

end Commands
