import CppProfessional.Bulk.TaskManager

/-!
# The two task managers

The manager of the asynchronous library and the console manager, given the same
strings, put out the same blocks: both follow the block grammar, the one with the
length of its vector and a guard on closing braces, the other with counters that
it resets and repairs.

## Main results

* `counters_run` — the counters of the console manager stay between zero and the
  number of strings, whether files open or not, so that `int` does not overflow;
* `blocks_pushed` — the blocks that the asynchronous manager pushes;
* `same_blocks` — the console manager prints these blocks.
-/

namespace Bulk

open Commands
open Async (Line Block mark commandsOf)

/-! ### The counters

`task_count` and the nesting level are of type `int`.  Every line adds at most one to
either, so neither overflows as long as fewer than 2^31 lines are read. -/

/-- The counters are between zero and `bound`.  Each line adds at most one to either, so a
bound on the lines is one on the counters. -/
structure Counters (bound : ℤ) (m : TaskManager) : Prop where
  level_nonneg : 0 ≤ m.dynamicBlockNestingLevel
  level_le : m.dynamicBlockNestingLevel ≤ bound
  count_nonneg : 0 ≤ m.taskCount
  count_le : m.taskCount ≤ bound

section Counters

variable {bound : ℤ} {m : TaskManager} {opens : Line → Bool}

/-- Putting out a block keeps the nesting level, and the count or resets it. -/
theorem counters_processTasks (m : TaskManager) (opens : Line → Bool) (which : Block) :
    (m.processTasks opens which).2.dynamicBlockNestingLevel = m.dynamicBlockNestingLevel ∧
      ((m.processTasks opens which).2.taskCount = m.taskCount ∨
        (m.processTasks opens which).2.taskCount = 0) := by
  unfold TaskManager.processTasks
  split
  · exact ⟨rfl, Or.inl rfl⟩
  · dsimp only
    split
    · exact ⟨rfl, Or.inl rfl⟩
    · unfold TaskManager.reset
      split <;> cases which <;> exact ⟨rfl, Or.inr rfl⟩

/-- A closing brace lowers the level by one, and leaves the count or resets it. -/
theorem counters_close (m : TaskManager) (opens : Line → Bool) :
    (m.close opens).2.dynamicBlockNestingLevel = m.dynamicBlockNestingLevel - 1 ∧
      ((m.close opens).2.taskCount = m.taskCount ∨ (m.close opens).2.taskCount = 0) := by
  unfold TaskManager.close
  dsimp only
  split
  · exact counters_processTasks
      { m with dynamicBlockNestingLevel := m.dynamicBlockNestingLevel - 1 } opens .dynamic
  · exact ⟨rfl, Or.inl rfl⟩

/-- Putting out a block keeps the counters within their bound. -/
theorem Counters.processTasks (h : Counters bound m) (opens : Line → Bool) (which : Block) :
    Counters bound (m.processTasks opens which).2 := by
  obtain ⟨hlevel, hcount⟩ := counters_processTasks m opens which
  obtain ⟨hnonneg, hle, hzero, hbound⟩ := h
  constructor <;> omega

/-- A command raises the bound by one. -/
theorem Counters.emplaceStatic (h : Counters bound m) (now : ℤ) (task : Line) :
    Counters (bound + 1) (m.emplaceStatic now task) := by
  obtain ⟨hlevel, hbound, hcount, hle⟩ := h
  unfold TaskManager.emplaceStatic
  split <;> constructor <;> dsimp only <;> omega

/-- So it does when it fills the block. -/
theorem Counters.append (h : Counters bound m) (ret now : ℤ) (opens : Line → Bool)
    (task : Line) : Counters (bound + 1) (m.append ret now opens task).2 := by
  unfold TaskManager.append
  split
  · obtain ⟨hlevel, hbound, hcount, hle⟩ := h
    constructor <;> dsimp only <;> omega
  · dsimp only
    split
    · exact (h.emplaceStatic now task).processTasks opens .static
    · exact h.emplaceStatic now task

/-- One command moves each counter by at most one. -/
theorem Counters.addTask (h : Counters bound m) (now : ℤ) (opens : Block → Line → Bool)
    (task : Line) : Counters (bound + 1) (m.addTask now opens task).2 := by
  unfold TaskManager.addTask
  split
  · split
    · obtain ⟨hlevel, hbound, hcount, hle⟩ := Counters.processTasks
        (m := { m with dynamicBlockTimestamp := now }) ⟨h.1, h.2, h.3, h.4⟩ (opens .static) .static
      constructor <;> dsimp only <;> omega
    · obtain ⟨hlevel, hbound, hcount, hle⟩ := h
      constructor <;> dsimp only <;> omega
  · split
    · obtain ⟨hlevel, hcount⟩ := counters_close m (opens .dynamic)
      obtain ⟨hnonneg, hle, hzero, hbound⟩ := h
      dsimp only
      split
      · -- the level is repaired before the brace is appended
        have hrepaired : Counters bound
            { (m.close (opens .dynamic)).2 with dynamicBlockNestingLevel := 0 } := by
          constructor <;> dsimp only <;> omega
        exact hrepaired.append _ now (opens .static) task
      · constructor <;> dsimp only at * <;> omega
    · exact h.append 0 now (opens .static) task

/-- **The counters are bounded by the number of strings.** -/
theorem counters_run (maxTaskCount : ℤ) (name : Line) (calls : List Call) :
    Counters calls.length ((TaskManager.create maxTaskCount name).run calls).2 := by
  induction calls using List.reverseRecOn with
  | nil => constructor <;> exact le_refl 0
  | append_singleton calls call ih =>
      obtain ⟨-, hafter⟩ := round_eq ((TaskManager.create maxTaskCount name).run calls).2 call
      rw [TaskManager.run_concat, hafter, List.length_append, List.length_singleton,
        Nat.cast_add, Nat.cast_one]
      exact ih.addTask call.now call.opens call.line

end Counters

/-! ### The asynchronous manager

The manager of the library returns what it puts out instead of printing it.  Fed with
the same strings it is another implementation of the block grammar. -/

/-- The blocks that `add_task` pushes for the strings of one context, and the manager
afterwards. -/
def feedAsync (m : Async.TaskManager) (received : List (ℤ × Line)) :
    List (List Line) × Async.TaskManager :=
  received.foldl
    (fun (blocks, m) (now, task) =>
      (blocks ++ commandsOf (m.addTask now task).1, (m.addTask now task).2)) ([], m)

/-- The blocks pushed through `add_task` and `finish`. -/
def pushed (maxTaskCount : ℕ) (managerId : Line) (received : List (ℤ × Line)) :
    List (List Line) :=
  let (blocks, m) := feedAsync (Async.TaskManager.create maxTaskCount managerId) received
  blocks ++ commandsOf m.finish.1

/-- The asynchronous manager after a sequence of calls stands where the grammar does, and has
pushed its blocks. -/
theorem feedAsync_represents (maxTaskCount : ℕ) (managerId : Line)
    (received : List (ℤ × Line)) :
    let start := Async.TaskManager.create maxTaskCount managerId
    (feedAsync start received).1 =
        (Grouping.run mark (max maxTaskCount 1) (received.map Prod.snd)).1 ∧
      Async.Represents (feedAsync start received).2
        (Grouping.run mark (max maxTaskCount 1) (received.map Prod.snd)).2 ∧
      (feedAsync start received).2.maxStaticTaskCount = maxTaskCount := by
  intro start
  induction received using List.reverseRecOn with
  | nil => exact ⟨rfl, Async.represents_create maxTaskCount managerId, rfl⟩
  | append_singleton received call ih =>
      obtain ⟨now, task⟩ := call
      obtain ⟨hblocks, hstate, hmax⟩ := ih
      obtain ⟨hfed, hnext⟩ := Async.addTask_represents hstate now task
      have hbulk : (feedAsync start received).2.bulk = max maxTaskCount 1 := by
        rw [Async.TaskManager.bulk, hmax]
      have hsame := (Async.sameContext_addTask (feedAsync start received).2 now task).bulk
      have hconcat : feedAsync start (received ++ [(now, task)]) =
          ((feedAsync start received).1 ++
              commandsOf ((feedAsync start received).2.addTask now task).1,
            ((feedAsync start received).2.addTask now task).2) := by
        simp only [feedAsync, List.foldl_append, List.foldl_cons, List.foldl_nil]
      rw [hbulk] at hfed hnext
      rw [hconcat, List.map_append, List.map_singleton, Grouping.run_concat, hblocks, hfed]
      exact ⟨rfl, hnext, hsame.trans hmax⟩

/-- The asynchronous manager pushes the blocks of the grammar. -/
theorem blocks_pushed (maxTaskCount : ℕ) (managerId : Line) (received : List (ℤ × Line)) :
    pushed maxTaskCount managerId received =
      group mark (max maxTaskCount 1) (received.map Prod.snd) := by
  obtain ⟨hblocks, hstate, -⟩ :=
    feedAsync_represents maxTaskCount managerId received
  rw [group, ← hblocks, ← Async.finish_represents hstate]
  rfl

/-! ### The refinement

The two managers are not compared with each other step by step: each follows the
grammar, the one with counters, the other with the length of its vector. -/

/-- The console manager prints the blocks of the grammar. -/
theorem blocks_session {bulk : ℕ} (hbulk : 1 ≤ bulk) (name : Line) {calls : List Call}
    (hcalls : AllOpen calls) {opens : Line → Bool} (hopens : ∀ path, opens path = true) :
    (session bulk name calls opens).map Printed.commands =
      group mark bulk (calls.map Call.line) := by
  have htimed : (timed calls).map Prod.snd = calls.map Call.line := by
    rw [timed, List.map_map]
    rfl
  rw [session_clocked hbulk name hcalls hopens, List.map_map, ← htimed, ← blocks_clocked]
  rfl

/-- **The console manager prints the blocks that the asynchronous manager pushes.**
Along the way its counters stay far below the bound of `int`. -/
theorem same_blocks {bulk : ℕ} (hbulk : 1 ≤ bulk) (name managerId : Line) {calls : List Call}
    {received : List (ℤ × Line)} (hsame : received.map Prod.snd = calls.map Call.line)
    (hlength : calls.length < 2 ^ 31) (hcalls : AllOpen calls) {opens : Line → Bool}
    (hopens : ∀ path, opens path = true) :
    (session bulk name calls opens).map Printed.commands = pushed bulk managerId received ∧
      ∀ front, front <+: calls →
        Counters (2 ^ 31 - 1) ((TaskManager.create bulk name).run front).2 := by
  constructor
  · rw [blocks_session hbulk name hcalls hopens, blocks_pushed, hsame, max_eq_left hbulk]
  · intro front hfront
    have hle := hfront.length_le
    obtain ⟨hnonneg, hlevel, hzero, hcount⟩ := counters_run bulk name front
    constructor <;> omega

/-- A command, a block of braces and a closing brace that closes nothing. -/
def bracedStream : List Call :=
  [['a'], ['{'], ['b'], ['}'], ['}']].map fun line => ⟨1, fun _ _ => true, line⟩

/-- Both managers make three blocks of the stream, with the stray brace as a command. -/
theorem same_blocks_bracedStream :
    (session 2 ['b'] bracedStream fun _ => true).map Printed.commands =
        pushed 2 ['1'] (timed bracedStream) ∧
      pushed 2 ['1'] (timed bracedStream) = [[['a']], [['b']], [['}']]] := by
  refine ⟨(same_blocks (by decide) ['b'] ['1'] rfl (by decide) ?_ fun _ => rfl).1, by decide⟩
  intro call hcall which path
  obtain ⟨line, -, rfl⟩ := List.mem_map.mp hcall
  rfl

end Bulk
