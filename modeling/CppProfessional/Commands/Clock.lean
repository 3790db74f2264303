import CppProfessional.Commands.Blocks

/-!
# When a block began

A command stream whose commands come with the time of their arrival, and the
block grammar of `Commands.Grouping` with a clock beside it: every block is put
out together with the time at which it began.

* A block of braces begins at its outermost opening brace.
* A block of commands outside braces begins at its first command.  A time may be
  `unset`, the value of a clock that was never read; a block whose commands so far
  all came at that time begins at the next one.

The clock only looks on: `blocks_clocked` says that the blocks are those of `group`.
-/

namespace Commands

universe u v

variable {α : Type u} {τ : Type v} [DecidableEq τ] {mark : α → Mark} {bulk : ℕ} {unset : τ}

/-- A state of the grammar, and the time at which its block began. -/
structure Clocked (α : Type u) (τ : Type v) where
  grouping : Grouping α
  begun : τ
  deriving DecidableEq, Repr

/-- One command that arrives at the time `now`. -/
def Clocked.feed (mark : α → Mark) (bulk : ℕ) (unset : τ) (c : Clocked α τ) (now : τ)
    (command : α) : List (τ × List α) × Clocked α τ :=
  let fed := c.grouping.feed mark bulk command
  match c.grouping, mark command with
  | .outside _, .opens => (fed.1.map (c.begun, ·), ⟨fed.2, now⟩)
  | .outside _, .closes | .outside _, .plain =>
      let begun := if c.begun = unset then now else c.begun
      (fed.1.map (begun, ·), ⟨fed.2, if fed.1.isEmpty then begun else unset⟩)
  | .inside _ _, _ =>
      (fed.1.map (c.begun, ·),
        ⟨fed.2, match fed.2 with
          | .outside _ => unset
          | .inside _ _ => c.begun⟩)

/-- The end of the stream. -/
def Clocked.finish (c : Clocked α τ) : List (τ × List α) :=
  c.grouping.finish.map (c.begun, ·)

/-- The blocks and the state after a sequence of commands. -/
def Clocked.run (mark : α → Mark) (bulk : ℕ) (unset : τ) (commands : List (τ × α)) :
    List (τ × List α) × Clocked α τ :=
  commands.foldl
    (fun (blocks, state) (now, command) =>
      (blocks ++ (state.feed mark bulk unset now command).1,
        (state.feed mark bulk unset now command).2))
    ([], ⟨.outside [], unset⟩)

/-- The blocks of a whole stream, with the times at which they began. -/
def clocked (mark : α → Mark) (bulk : ℕ) (unset : τ) (commands : List (τ × α)) :
    List (τ × List α) :=
  (Clocked.run mark bulk unset commands).1 ++ (Clocked.run mark bulk unset commands).2.finish

/-- The blocks of one more command are the last, with the clock read at it. -/
theorem Clocked.run_concat (commands : List (τ × α)) (now : τ) (command : α) :
    Clocked.run mark bulk unset (commands ++ [(now, command)]) =
      ((Clocked.run mark bulk unset commands).1 ++
          ((Clocked.run mark bulk unset commands).2.feed mark bulk unset now command).1,
        ((Clocked.run mark bulk unset commands).2.feed mark bulk unset now command).2) := by
  simp only [Clocked.run, List.foldl_append, List.foldl_cons, List.foldl_nil]

/-- A command outside braces. -/
theorem Clocked.feed_outside {pending : List α} {begun now : τ} {command : α}
    (hmark : mark command ≠ .opens) :
    (⟨.outside pending, begun⟩ : Clocked α τ).feed mark bulk unset now command =
      let begun := if begun = unset then now else begun
      if bulk ≤ (pending ++ [command]).length then
        ([(begun, pending ++ [command])], ⟨.outside [], unset⟩)
      else ([], ⟨.outside (pending ++ [command]), begun⟩) := by
  cases hkind : mark command with
  | opens => exact absurd hkind hmark
  | closes | plain =>
      simp only [Clocked.feed, Grouping.feed, hkind]
      by_cases hfull : bulk ≤ (pending ++ [command]).length
      · rw [if_pos hfull, if_pos hfull]
        rfl
      · rw [if_neg hfull, if_neg hfull]
        rfl

/-- Forgetting the times of one command gives the grammar. -/
theorem Clocked.feed_grouping (c : Clocked α τ) (now : τ) (command : α) :
    (c.feed mark bulk unset now command).1.map Prod.snd =
        (c.grouping.feed mark bulk command).1 ∧
      (c.feed mark bulk unset now command).2.grouping =
        (c.grouping.feed mark bulk command).2 := by
  have hforget (begun : τ) (blocks : List (List α)) :
      (blocks.map (begun, ·)).map Prod.snd = blocks := by
    rw [List.map_map]
    exact List.map_id _
  unfold Clocked.feed
  dsimp only
  split
  all_goals exact ⟨hforget _ _, rfl⟩

/-- Without the times this is the grammar of the blocks. -/
theorem Clocked.run_grouping (commands : List (τ × α)) :
    (Clocked.run mark bulk unset commands).1.map Prod.snd =
        (Grouping.run mark bulk (commands.map Prod.snd)).1 ∧
      (Clocked.run mark bulk unset commands).2.grouping =
        (Grouping.run mark bulk (commands.map Prod.snd)).2 := by
  induction commands using List.reverseRecOn with
  | nil => exact ⟨rfl, rfl⟩
  | append_singleton commands call ih =>
      obtain ⟨now, command⟩ := call
      obtain ⟨hblocks, hstate⟩ := ih
      obtain ⟨hfed, hnext⟩ :=
        Clocked.feed_grouping (Clocked.run mark bulk unset commands).2 now command
      rw [List.map_append, List.map_singleton, Clocked.run_concat, Grouping.run_concat,
        List.map_append, hfed, hnext, hblocks, hstate]
      exact ⟨rfl, rfl⟩

/-- **The clock changes no block.** -/
theorem blocks_clocked (commands : List (τ × α)) :
    (clocked mark bulk unset commands).map Prod.snd =
      group mark bulk (commands.map Prod.snd) := by
  obtain ⟨hblocks, hstate⟩ := Clocked.run_grouping commands
  rw [clocked, group, List.map_append, hblocks, ← hstate, Clocked.finish, List.map_map]
  exact congrArg _ (List.map_id _)

end Commands
