import Mathlib.Data.Int.Notation
import Mathlib.Data.List.Basic
import Mathlib.Data.List.Induction
import Mathlib.Data.List.Infix

/-!
# Lines and blocks of a command stream

A command interpreter that reads lines and groups them into blocks does two
things to its input, and both are stated here for any alphabet and any type of
commands.

## Main definitions

* `getlines delim data` — the lines that a loop over `std::getline` extracts:
  the pieces between delimiters, where a last piece without delimiter counts
  only if it is not empty;
* `WholeLines delim data` — the data is empty or ends with the delimiter;
* `Grouping.feed`, `Grouping.finish` — one step and the end of the block grammar:
  commands outside braces are grouped into blocks of a fixed size, commands
  inside an outermost pair of braces form one block of their own;
* `group mark bulk commands` — the blocks of a whole stream;
* `Matched mark commands` — every closing mark of a stream closes an opening one.

A closing mark that closes nothing is a command, so it is found in the blocks of its
stream (`exists_closes_mem_group`).

`Grouping` has one constructor for each side of the outermost brace, so a pending
block of the one kind together with a pending block of the other cannot be
written down.
-/

namespace Commands

universe u

/-! ### Lines

`std::getline` takes a line up to a delimiter or to the end of the data, and the end of
the data ends a line only if there is something in it.  So a stream may be cut anywhere
behind a delimiter, and nowhere else. -/

section Lines

variable {α : Type u} [DecidableEq α] {delim : α}

/-- Put a character in front of the first line. -/
def consHead (c : α) : List (List α) → List (List α)
  | [] => [[c]]
  | line :: rest => (c :: line) :: rest

/-- The lines extracted by `while (std::getline(stream, line, delim))`. -/
def getlines (delim : α) : List α → List (List α)
  | [] => []
  | c :: rest =>
      if c = delim then [] :: getlines delim rest else consHead c (getlines delim rest)

/-- The data consists of terminated lines. -/
def WholeLines (delim : α) (data : List α) : Prop :=
  data = [] ∨ data.getLast? = some delim

instance WholeLines.instDecidable (data : List α) : Decidable (WholeLines delim data) :=
  inferInstanceAs (Decidable (_ ∨ _))

omit [DecidableEq α] in
/-- A character goes to the first line, whatever comes behind. -/
theorem consHead_append (c : α) {lines : List (List α)} (hne : lines ≠ [])
    (tail : List (List α)) : consHead c (lines ++ tail) = consHead c lines ++ tail := by
  cases lines with
  | nil => exact absurd rfl hne
  | cons line rest => rfl

/-- Where there is a character there is a line. -/
theorem getlines_ne_nil {data : List α} (hne : data ≠ []) : getlines delim data ≠ [] := by
  cases data with
  | nil => exact absurd rfl hne
  | cons c rest =>
      rw [getlines]
      split
      · exact List.cons_ne_nil _ _
      · cases getlines delim rest <;> exact List.cons_ne_nil _ _

/-- Lines are read one buffer after the other, provided the first buffer ends
with a delimiter. -/
theorem getlines_append {data : List α} (hdata : WholeLines delim data) (rest : List α) :
    getlines delim (data ++ rest) = getlines delim data ++ getlines delim rest := by
  induction data with
  | nil => rfl
  | cons c data ih =>
      rcases hdata with hnil | hlast
      · cases hnil
      · rw [List.cons_append, getlines, getlines]
        by_cases hc : c = delim
        · have hwhole : WholeLines delim data := by
            rcases List.eq_nil_or_concat data with hnil | ⟨front, x, hx⟩
            · exact Or.inl hnil
            · right
              rw [hx, List.concat_eq_append, List.getLast?_concat]
              rw [hx, List.concat_eq_append, ← List.cons_append, List.getLast?_concat] at hlast
              exact hlast
          rw [if_pos hc, if_pos hc, ih hwhole, List.cons_append]
        · -- the character goes to the front of the first line, which the rest already has
          have hne : data ≠ [] := by
            rintro rfl
            exact hc (by simpa using hlast)
          have hwhole : WholeLines delim data := by
            right
            rw [← hlast, List.getLast?_cons_of_ne_nil hne]
          rw [if_neg hc, if_neg hc, ih hwhole, consHead_append c (getlines_ne_nil hne)]

/-- The lines of a stream that arrives in whole-line chunks. -/
theorem getlines_flatten {chunks : List (List α)}
    (hchunks : ∀ chunk ∈ chunks, WholeLines delim chunk) :
    getlines delim chunks.flatten = chunks.flatMap (getlines delim) := by
  induction chunks with
  | nil => rfl
  | cons chunk chunks ih =>
      have hchunk : WholeLines delim chunk := hchunks chunk (List.mem_cons_self ..)
      rw [List.flatten_cons, getlines_append hchunk, List.flatMap_cons,
        ih fun other hother => hchunks other (List.mem_cons_of_mem _ hother)]

end Lines

/-! ### Blocks

A grouping is fed one command after another.  Its states say how deep the braces are and
what has been collected; a block is put out when it is full, when a brace is opened, or
when the outermost brace is closed. -/

/-- The role of a command in the block grammar. -/
inductive Mark
  | opens
  | closes
  | plain
  deriving DecidableEq, Repr

/-- The state of the grouping: outside all braces, with the commands of the block
in progress, or inside `nested + 1` braces, with the commands since the outermost
one. -/
inductive Grouping (α : Type u)
  | outside (pending : List α)
  | inside (nested : ℕ) (collected : List α)
  deriving DecidableEq, Repr

variable {α : Type u} {mark : α → Mark} {bulk : ℕ}

/-- A block is put out unless it is empty. -/
def emit (block : List α) : List (List α) :=
  if block = [] then [] else [block]

theorem emit_of_ne_nil {block : List α} (hne : block ≠ []) : emit block = [block] :=
  if_neg hne

/-- One command: the blocks it completes, and the new state.  A closing mark
outside braces is a command like any other. -/
def Grouping.feed (mark : α → Mark) (bulk : ℕ) (command : α) :
    Grouping α → List (List α) × Grouping α
  | .outside pending =>
      match mark command with
      | .opens => (emit pending, .inside 0 [])
      | .closes | .plain =>
          if bulk ≤ (pending ++ [command]).length then
            ([pending ++ [command]], .outside [])
          else ([], .outside (pending ++ [command]))
  | .inside nested collected =>
      match mark command, nested with
      | .opens, _ => ([], .inside (nested + 1) collected)
      | .closes, 0 => (emit collected, .outside [])
      | .closes, nested + 1 => ([], .inside nested collected)
      | .plain, _ => ([], .inside nested (collected ++ [command]))

/-- The end of the stream puts out the block in progress; an unclosed brace
discards its commands. -/
def Grouping.finish : Grouping α → List (List α)
  | .outside pending => emit pending
  | .inside _ _ => []

/-- The blocks and the state after a sequence of commands. -/
def Grouping.run (mark : α → Mark) (bulk : ℕ) (commands : List α) :
    List (List α) × Grouping α :=
  commands.foldl
    (fun (blocks, state) command =>
      (blocks ++ (state.feed mark bulk command).1, (state.feed mark bulk command).2))
    ([], .outside [])

/-- The blocks of a whole stream. -/
def group (mark : α → Mark) (bulk : ℕ) (commands : List α) : List (List α) :=
  (Grouping.run mark bulk commands).1 ++ (Grouping.run mark bulk commands).2.finish

/-- The blocks of one more command are the last. -/
theorem Grouping.run_concat (commands : List α) (command : α) :
    Grouping.run mark bulk (commands ++ [command]) =
      ((Grouping.run mark bulk commands).1 ++
          ((Grouping.run mark bulk commands).2.feed mark bulk command).1,
        ((Grouping.run mark bulk commands).2.feed mark bulk command).2) := by
  simp only [Grouping.run, List.foldl_append, List.foldl_cons, List.foldl_nil]

/-! ### Closing marks that close nothing

The grammar takes a closing mark outside braces for a command.  An interpreter that
counts braces down instead agrees with it as long as there is no such mark. -/

/-- The opening marks of a stream minus its closing ones. -/
def depth (mark : α → Mark) (commands : List α) : ℤ :=
  commands.countP (fun c => mark c = .opens) - commands.countP fun c => mark c = .closes

/-- Every closing mark closes an opening one. -/
def Matched (mark : α → Mark) (commands : List α) : Prop :=
  ∀ front, front <+: commands → 0 ≤ depth mark front

instance (mark : α → Mark) (commands : List α) : Decidable (Matched mark commands) :=
  decidable_of_iff (∀ front ∈ commands.inits, 0 ≤ depth mark front) <|
    forall_congr' fun front => imp_congr_left (List.mem_inits front commands)

/-- The number of open braces. -/
def Grouping.depth : Grouping α → ℕ
  | .outside _ => 0
  | .inside nested _ => nested + 1

/-- One more command changes the depth by what it is. -/
theorem depth_concat (commands : List α) (command : α) :
    depth mark (commands ++ [command]) = depth mark commands +
      match mark command with
      | .opens => 1
      | .closes => -1
      | .plain => 0 := by
  unfold depth
  cases hmark : mark command <;> simp [List.countP_append, hmark] <;> omega

/-- No commands are matched. -/
theorem matched_nil : Matched mark [] := by
  intro front hfront
  obtain rfl := List.prefix_nil.mp hfront
  exact Int.le_refl 0

/-- One more command keeps the braces matched unless it closes one that is not open. -/
theorem matched_concat {commands : List α} {command : α} :
    Matched mark (commands ++ [command]) ↔
      Matched mark commands ∧ 0 ≤ depth mark (commands ++ [command]) := by
  constructor
  · intro h
    exact ⟨fun front hfront => h front (hfront.trans (List.prefix_append _ _)),
      h _ (List.prefix_refl _)⟩
  · rintro ⟨hbefore, hlast⟩ front hfront
    rcases List.prefix_concat_iff.mp hfront with rfl | hshort
    · exact hlast
    · exact hbefore front hshort

/-- The grammar counts the braces, as long as it closes none that is not open: there it takes
the brace for a command and stays at zero. -/
theorem Grouping.depth_feed (g : Grouping α) (command : α)
    (h : mark command = .closes → g.depth ≠ 0) :
    ((g.feed mark bulk command).2.depth : ℤ) = g.depth +
      match mark command with
      | .opens => 1
      | .closes => -1
      | .plain => 0 := by
  cases g with
  | outside pending =>
      cases hmark : mark command with
      | opens => simp [Grouping.feed, Grouping.depth, hmark]
      | closes => exact absurd rfl (h hmark)
      | plain =>
          simp only [Grouping.feed, hmark]
          split <;> simp [Grouping.depth]
  | inside nested collected =>
      cases hmark : mark command with
      | opens => simp [Grouping.feed, Grouping.depth, hmark]
      | closes =>
          cases nested with
          | zero => simp [Grouping.feed, Grouping.depth, hmark]
          | succ nested =>
              simp only [Grouping.feed, Grouping.depth, hmark]
              omega
      | plain => simp [Grouping.feed, Grouping.depth, hmark]

/-- As long as everything is matched, the grammar counts the open braces. -/
theorem Grouping.depth_run (bulk : ℕ) {commands : List α} (h : Matched mark commands) :
    ((Grouping.run mark bulk commands).2.depth : ℤ) = Commands.depth mark commands := by
  induction commands using List.reverseRecOn with
  | nil => rfl
  | append_singleton commands command ih =>
      obtain ⟨hbefore, hlast⟩ := matched_concat.mp h
      have hdepth := ih hbefore
      rw [Grouping.run_concat, Grouping.depth_feed, depth_concat, hdepth]
      intro hcloses hzero
      rw [depth_concat, ← hdepth, hzero, hcloses] at hlast
      revert hlast
      decide

/-- The commands outside braces that are still to be put out. -/
def Grouping.pending : Grouping α → List α
  | .outside pending => pending
  | .inside _ _ => []

/-- The commands of a block that is put out are those of the block. -/
theorem mem_emit {block : List α} {command : α} : command ∈ (emit block).flatten ↔
    command ∈ block := by
  unfold emit
  split <;> simp [*]

/-- A command outside braces stays in the blocks: it is put out with its block, or it is in the
block that is still open. -/
theorem Grouping.mem_feed {g : Grouping α} {command c : α}
    (h : c ∈ g.pending ∨ command = c ∧ g.depth = 0 ∧ mark c ≠ .opens) :
    c ∈ (g.feed mark bulk command).1.flatten ++ (g.feed mark bulk command).2.pending := by
  cases g with
  | outside pending =>
      have hmem (hne : mark command ≠ .opens) : c ∈ pending ++ [command] := by
        rcases h with hpending | ⟨rfl, -, -⟩
        · exact List.mem_append_left _ hpending
        · exact List.mem_append_right _ (List.mem_singleton_self _)
      cases hmark : mark command with
      | opens =>
          have hpending : c ∈ pending := h.resolve_right fun ⟨hc, _, hne⟩ => hne (hc ▸ hmark)
          simp only [Grouping.feed, hmark]
          exact List.mem_append_left _ (mem_emit.mpr hpending)
      | closes | plain =>
          have hmem := hmem (by simp [hmark])
          simp only [Grouping.feed, hmark]
          split
          · exact List.mem_append_left _ (by simpa using hmem)
          · exact List.mem_append_right _ hmem
  | inside nested collected =>
      rcases h with hpending | ⟨-, hdepth, -⟩
      · cases hpending
      · cases hdepth

/-- **A closing mark that closes nothing is found in the blocks.**  It is a command of the
static block when it comes, and a command once taken is never lost. -/
theorem exists_closes_mem_group {commands : List α} (h : ¬ Matched mark commands) :
    ∃ c ∈ (group mark bulk commands).flatten, mark c = .closes := by
  have hrun : ∃ c ∈ (Grouping.run mark bulk commands).1.flatten ++
      (Grouping.run mark bulk commands).2.pending, mark c = .closes := by
    induction commands using List.reverseRecOn with
    | nil => exact absurd matched_nil h
    | append_singleton commands command ih =>
        rw [Grouping.run_concat, List.flatten_append]
        by_cases hbefore : Matched mark commands
        · -- this is the first closing mark that closes nothing
          have hlast : depth mark (commands ++ [command]) < 0 := by
            by_contra hge
            exact h (matched_concat.mpr ⟨hbefore, Int.not_lt.mp hge⟩)
          have hdepth := Grouping.depth_run bulk hbefore
          rw [depth_concat, ← hdepth] at hlast
          have hcloses : mark command = .closes := by
            cases hmark : mark command <;> simp [hmark] at hlast ⊢ <;> omega
          have hzero : (Grouping.run mark bulk commands).2.depth = 0 := by
            rw [hcloses] at hlast
            simp only at hlast
            omega
          refine ⟨command, ?_, hcloses⟩
          rw [List.append_assoc]
          exact List.mem_append_right _
            (Grouping.mem_feed (Or.inr ⟨rfl, hzero, by simp [hcloses]⟩))
        · obtain ⟨c, hc, hcloses⟩ := ih hbefore
          refine ⟨c, ?_, hcloses⟩
          rw [List.append_assoc]
          rcases List.mem_append.mp hc with hblocks | hpending
          · exact List.mem_append_left _ hblocks
          · exact List.mem_append_right _ (Grouping.mem_feed (Or.inl hpending))
  obtain ⟨c, hc, hcloses⟩ := hrun
  refine ⟨c, ?_, hcloses⟩
  rw [group, List.flatten_append]
  rcases List.mem_append.mp hc with hblocks | hpending
  · exact List.mem_append_left _ hblocks
  · refine List.mem_append_right _ ?_
    cases hstate : (Grouping.run mark bulk commands).2 with
    | outside pending =>
        rw [hstate] at hpending
        exact mem_emit.mpr hpending
    | inside nested collected =>
        rw [hstate] at hpending
        cases hpending

end Commands
