import CppProfessional.Commands.Clock
import Mathlib.Data.List.Forall2

/-!
# The times of the commands in a block

The block grammar of `Commands.Grouping` over commands that come with the time of their
arrival, where every block keeps these times, and a block of braces also the time of its
outermost opening brace.

* `Timing.feed`, `Timing.finish`, `timedBlocks` — the grammar;
* `TimedBlock.begun` — when a clock as in `Commands.Clocked` says that a block began;
* `clocked_timedBlocks` — the grammar with a clock puts out these blocks with these times;
* `Arrivals` — blocks that are put out with the time of their first command;
  `arrivals_started_iff` and `arrivals_stamp_iff` say when the times above are these.
-/

namespace Commands

universe u v

variable {α : Type u} {τ : Type v} {mark : α → Mark} {bulk : ℕ}

/-- A block of either kind. -/
inductive TimedBlock (α : Type u) (τ : Type v)
  | outside (commands : List (τ × α))
  | inside (opened : τ) (commands : List (τ × α))
  deriving DecidableEq, Repr

/-- The commands of a block with their times. -/
def TimedBlock.timed : TimedBlock α τ → List (τ × α)
  | .outside commands => commands
  | .inside _ commands => commands

def TimedBlock.commands (block : TimedBlock α τ) : List α := block.timed.map Prod.snd

/-- A state of the grammar. -/
inductive Timing (α : Type u) (τ : Type v)
  | outside (pending : List (τ × α))
  | inside (nested : ℕ) (opened : τ) (collected : List (τ × α))
  deriving DecidableEq, Repr

/-- One command that arrives at the time `now`. -/
def Timing.feed (mark : α → Mark) (bulk : ℕ) (now : τ) (command : α) :
    Timing α τ → List (TimedBlock α τ) × Timing α τ
  | .outside pending =>
      match mark command with
      | .opens => ((emit pending).map .outside, .inside 0 now [])
      | .closes | .plain =>
          if bulk ≤ (pending ++ [(now, command)]).length then
            ([.outside (pending ++ [(now, command)])], .outside [])
          else ([], .outside (pending ++ [(now, command)]))
  | .inside nested opened collected =>
      match mark command, nested with
      | .opens, _ => ([], .inside (nested + 1) opened collected)
      | .closes, 0 => ((emit collected).map (.inside opened), .outside [])
      | .closes, nested + 1 => ([], .inside nested opened collected)
      | .plain, _ => ([], .inside nested opened (collected ++ [(now, command)]))

/-- The end of the stream. -/
def Timing.finish : Timing α τ → List (TimedBlock α τ)
  | .outside pending => (emit pending).map .outside
  | .inside _ _ _ => []

/-- The blocks and the state after a sequence of commands. -/
def Timing.run (mark : α → Mark) (bulk : ℕ) (commands : List (τ × α)) :
    List (TimedBlock α τ) × Timing α τ :=
  commands.foldl
    (fun (blocks, state) (now, command) =>
      (blocks ++ (state.feed mark bulk now command).1, (state.feed mark bulk now command).2))
    ([], .outside [])

/-- The blocks of a whole stream. -/
def timedBlocks (mark : α → Mark) (bulk : ℕ) (commands : List (τ × α)) :
    List (TimedBlock α τ) :=
  (Timing.run mark bulk commands).1 ++ (Timing.run mark bulk commands).2.finish

/-- The blocks of one more command are the last, with the times of their commands. -/
theorem Timing.run_concat (commands : List (τ × α)) (now : τ) (command : α) :
    Timing.run mark bulk (commands ++ [(now, command)]) =
      ((Timing.run mark bulk commands).1 ++
          ((Timing.run mark bulk commands).2.feed mark bulk now command).1,
        ((Timing.run mark bulk commands).2.feed mark bulk now command).2) := by
  simp only [Timing.run, List.foldl_append, List.foldl_cons, List.foldl_nil]

/-- A command outside braces. -/
theorem Timing.feed_outside {pending : List (τ × α)} {now : τ} {command : α}
    (hmark : mark command ≠ .opens) :
    (Timing.outside pending).feed mark bulk now command =
      if bulk ≤ (pending ++ [(now, command)]).length then
        ([.outside (pending ++ [(now, command)])], .outside [])
      else ([], .outside (pending ++ [(now, command)])) := by
  cases hkind : mark command with
  | opens => exact absurd hkind hmark
  | closes | plain => simp only [Timing.feed, hkind]

/-! ### The clock

A program keeps one time for a block, and may use a value of the clock for a time that
has not been taken.  What it then shows is a function of all the times; it is the first
one as long as the clock does not read that value. -/

section Clock

variable [DecidableEq τ] {unset : τ}

/-- The first time that is set. -/
def firstSet (unset : τ) (commands : List (τ × α)) : τ :=
  ((commands.map Prod.fst).find? fun time => time ≠ unset).getD unset

/-- When a block began, by a clock that may be unset. -/
def TimedBlock.begun (unset : τ) : TimedBlock α τ → τ
  | .outside commands => firstSet unset commands
  | .inside opened _ => opened

/-- A block with the time at which it began. -/
def TimedBlock.stamp (unset : τ) (block : TimedBlock α τ) : τ × List α :=
  (block.begun unset, block.commands)

/-- The first time that is set, with one more reading of the clock. -/
theorem firstSet_concat (commands : List (τ × α)) (now : τ) (command : α) :
    firstSet unset (commands ++ [(now, command)]) =
      if firstSet unset commands = unset then now else firstSet unset commands := by
  have hsingle : ([now].find? fun time => time ≠ unset).getD unset = now := by
    by_cases hnow : now = unset <;> simp [hnow]
  rw [firstSet, List.map_append, List.map_singleton, List.find?_append]
  cases hfind : (commands.map Prod.fst).find? (fun time => time ≠ unset) with
  | none =>
      rw [Option.none_or, hsingle, firstSet, hfind, Option.getD_none, if_pos rfl]
  | some time =>
      have hset : time ≠ unset := by simpa using List.find?_some hfind
      rw [Option.some_or, firstSet, hfind, Option.getD_some, if_neg hset]

/-- A block outside braces has a time as soon as it has a command. -/
def Clocked.IsSet (unset : τ) (c : Clocked α τ) : Prop :=
  ∀ pending, c.grouping = .outside pending → pending ≠ [] → c.begun ≠ unset

/-- A clock that does not read as unset leaves no block with a time that is not set.  The value
that stands for no time is a time as well, and a clock that reads it would be overwritten. -/
theorem Clocked.IsSet.feed {c : Clocked α τ} (h : c.IsSet unset) {now : τ} (hnow : now ≠ unset)
    (command : α) : (c.feed mark bulk unset now command).2.IsSet unset := by
  obtain ⟨g, begun⟩ := c
  cases g with
  | outside pending =>
      by_cases hopens : mark command = .opens
      · intro later hlater
        simp only [Clocked.feed, Grouping.feed, hopens] at hlater
        cases hlater
      · rw [Clocked.feed_outside hopens]
        dsimp only
        split
        · intro later hlater hne
          cases hlater
          exact absurd rfl hne
        · intro later _ _
          show (if begun = unset then now else begun) ≠ unset
          split
          · exact hnow
          · next hbegun => exact hbegun
  | inside nested collected =>
      intro later hlater hne
      have hnil : later = [] := by
        cases hkind : mark command <;> cases nested <;>
          simp only [Clocked.feed, Grouping.feed, hkind] at hlater <;> cases hlater
        rfl
      exact absurd hnil hne

/-- So it is over a whole run. -/
theorem Clocked.isSet_run {commands : List (τ × α)} (h : ∀ x ∈ commands, x.1 ≠ unset) :
    (Clocked.run mark bulk unset commands).2.IsSet unset := by
  induction commands using List.reverseRecOn with
  | nil =>
      intro pending hpending hne
      cases hpending
      exact absurd rfl hne
  | append_singleton commands call ih =>
      obtain ⟨now, command⟩ := call
      rw [Clocked.run_concat]
      refine (ih fun x hx => h x (List.mem_append_left _ hx)).feed ?_ command
      exact h (now, command) (List.mem_append_right _ (List.mem_singleton_self _))

/-- A clock that may be unset shows the first time, unless it is unset and a later one is
not. -/
theorem firstSet_cons_eq_iff {first : τ × α} {rest : List (τ × α)} :
    firstSet unset (first :: rest) = first.1 ↔
      (first.1 = unset → ∀ x ∈ first :: rest, x.1 = unset) := by
  by_cases hfirst : first.1 = unset
  · have hskip : firstSet unset (first :: rest) = firstSet unset rest := by
      simp [firstSet, hfirst]
    rw [hskip, imp_iff_right hfirst, List.forall_mem_cons, and_iff_right hfirst, hfirst]
    constructor
    · intro h x hx
      by_contra hne
      cases hfind : (rest.map Prod.fst).find? (fun time => time ≠ unset) with
      | none =>
          have hall := List.find?_eq_none.mp hfind x.1 (List.mem_map_of_mem hx)
          exact hall (decide_eq_true hne)
      | some time =>
          rw [firstSet, hfind, Option.getD_some] at h
          have hset : time ≠ unset := by simpa using List.find?_some hfind
          exact hset h
    · intro h
      have hnone : (rest.map Prod.fst).find? (fun time => time ≠ unset) = none := by
        refine List.find?_eq_none.mpr fun time htime => ?_
        obtain ⟨x, hx, rfl⟩ := List.mem_map.mp htime
        simpa using h x hx
      rw [firstSet, hnone, Option.getD_none]
  · refine iff_of_true ?_ fun h => absurd h hfirst
    simp [firstSet, hfirst]

/-- A state of the grammar as the clock sees it. -/
def Timing.clock (unset : τ) : Timing α τ → Clocked α τ
  | .outside pending => ⟨.outside (pending.map Prod.snd), firstSet unset pending⟩
  | .inside nested opened collected => ⟨.inside nested (collected.map Prod.snd), opened⟩

/-- An empty block stays empty under a renaming of its commands. -/
theorem emit_map {β : Type*} (f : α → β) (block : List α) :
    emit (block.map f) = (emit block).map (·.map f) := by
  cases block <;> rfl

/-- One command: the grammar with all times says what the one with a clock does.  The one with
a clock keeps two of the times, and these are functions of all of them. -/
theorem feed_clock (t : Timing α τ) (now : τ) (command : α) :
    (t.clock unset).feed mark bulk unset now command =
      ((t.feed mark bulk now command).1.map (TimedBlock.stamp unset),
        (t.feed mark bulk now command).2.clock unset) := by
  cases t with
  | outside pending =>
      by_cases hopens : mark command = .opens
      · simp only [Timing.clock, Clocked.feed, Grouping.feed, Timing.feed, hopens]
        cases pending <;> rfl
      · have hcommands : pending.map Prod.snd ++ [command] =
            (pending ++ [(now, command)]).map Prod.snd := by
          rw [List.map_append]
          rfl
        rw [Timing.clock, Clocked.feed_outside hopens, Timing.feed_outside hopens]
        simp only [hcommands, List.length_map, ← firstSet_concat pending now command]
        split <;> rfl
  | inside nested opened collected =>
      cases hkind : mark command with
      | opens => simp only [Timing.clock, Clocked.feed, Grouping.feed, Timing.feed, hkind]; rfl
      | plain =>
          simp only [Timing.clock, Clocked.feed, Grouping.feed, Timing.feed, hkind,
            List.map_append]
          rfl
      | closes =>
          cases nested with
          | zero =>
              simp only [Timing.clock, Clocked.feed, Grouping.feed, Timing.feed, hkind, emit_map,
                List.map_map]
              rfl
          | succ nested =>
              simp only [Timing.clock, Clocked.feed, Grouping.feed, Timing.feed, hkind]
              rfl

/-- So it does over a whole run. -/
theorem run_clock (commands : List (τ × α)) :
    Clocked.run mark bulk unset commands =
      ((Timing.run mark bulk commands).1.map (TimedBlock.stamp unset),
        (Timing.run mark bulk commands).2.clock unset) := by
  induction commands using List.reverseRecOn with
  | nil => rfl
  | append_singleton commands call ih =>
      obtain ⟨now, command⟩ := call
      rw [Clocked.run_concat, Timing.run_concat, ih, feed_clock, List.map_append]

/-- **The grammar with a clock puts out these blocks.** -/
theorem clocked_timedBlocks (commands : List (τ × α)) :
    clocked mark bulk unset commands =
      (timedBlocks mark bulk commands).map (TimedBlock.stamp unset) := by
  rw [clocked, timedBlocks, run_clock, List.map_append]
  congr 1
  cases (Timing.run mark bulk commands).2 with
  | outside pending =>
      simp only [Timing.clock, Clocked.finish, Grouping.finish, Timing.finish]
      cases pending <;> rfl
  | inside nested opened collected => rfl

end Clock

/-! ### The time of the first command

Both kinds of stamps are compared with the times of the first commands, block by block. -/

/-- The time of the outermost opening brace, or else of the first command. -/
def TimedBlock.started (unset : τ) : TimedBlock α τ → τ
  | .outside commands => (commands.head?.map Prod.fst).getD unset
  | .inside opened _ => opened

/-- The blocks are put out with the times at which their first commands arrived. -/
def Arrivals (stamped : List (τ × List α)) (blocks : List (TimedBlock α τ)) : Prop :=
  List.Forall₂ (fun stamp block => stamp.2 = block.commands ∧
    ∀ first ∈ block.timed.head?, stamp.1 = first.1) stamped blocks

/-- Blocks of which every one is put out with a time of its own. -/
theorem arrivals_map_iff {time : TimedBlock α τ → τ} {blocks : List (TimedBlock α τ)} :
    Arrivals (blocks.map fun block => (time block, block.commands)) blocks ↔
      ∀ block ∈ blocks, ∀ first ∈ block.timed.head?, time block = first.1 := by
  rw [Arrivals, List.forall₂_map_left_iff, List.forall₂_same]
  exact forall₂_congr fun block _ => and_iff_right rfl

/-- Every block of braces has its first command when its outermost brace is opened. -/
def Prompt (blocks : List (TimedBlock α τ)) : Prop :=
  ∀ opened commands, .inside opened commands ∈ blocks → ∀ first ∈ commands.head?,
    opened = first.1

/-- No block outside braces has a first command whose time is unset, unless all its times
are. -/
def ClockSet (unset : τ) (blocks : List (TimedBlock α τ)) : Prop :=
  ∀ commands, .outside commands ∈ blocks → ∀ first ∈ commands.head?,
    first.1 = unset → ∀ x ∈ commands, x.1 = unset

/-- Blocks with the times at which they started. -/
theorem arrivals_started_iff {unset : τ} {blocks : List (TimedBlock α τ)} :
    Arrivals (blocks.map fun block => (block.started unset, block.commands)) blocks ↔
      Prompt blocks := by
  rw [arrivals_map_iff]
  constructor
  · intro h opened commands hmem
    exact h _ hmem
  · intro h block hmem first hfirst
    cases block with
    | outside commands =>
        have hhead : commands.head? = some first := hfirst
        show (commands.head?.map Prod.fst).getD unset = first.1
        rw [hhead]
        rfl
    | inside opened commands => exact h opened commands hmem first hfirst

/-- Blocks with the times that a clock shows. -/
theorem arrivals_stamp_iff [DecidableEq τ] {unset : τ} {blocks : List (TimedBlock α τ)} :
    Arrivals (blocks.map (TimedBlock.stamp unset)) blocks ↔
      Prompt blocks ∧ ClockSet unset blocks := by
  have hfirstSet (commands : List (τ × α)) (first : τ × α) (hfirst : first ∈ commands.head?) :
      firstSet unset commands = first.1 ↔
        (first.1 = unset → ∀ x ∈ commands, x.1 = unset) := by
    rw [List.eq_cons_of_mem_head? hfirst]
    exact firstSet_cons_eq_iff
  rw [show TimedBlock.stamp (α := α) unset = fun block => (block.begun unset, block.commands)
    from rfl, arrivals_map_iff]
  constructor
  · intro h
    refine ⟨fun opened commands hmem => h _ hmem, fun commands hmem first hfirst => ?_⟩
    exact (hfirstSet commands first hfirst).mp (h _ hmem first hfirst)
  · rintro ⟨hprompt, hset⟩ block hmem first hfirst
    cases block with
    | outside commands =>
        exact (hfirstSet commands first hfirst).mpr (hset commands hmem first hfirst)
    | inside opened commands => exact hprompt opened commands hmem first hfirst

end Commands
