import CppProfessional.Bulk.Refinement
import CppProfessional.Commands.Timing

/-!
# The calls of `process_tasks`

`process_tasks` is given a block by its address and is not told which of the two it is:
it takes the time stamp of the static block if there are static commands by the count,
and that of the dynamic block otherwise.

* `Flush` — a call of `process_tasks`; `addTaskFlushes` and `destroyFlushes` are the calls
  that `add_task` and the destructor make, and `addTask_printed` connects them to the model;
* `Bookkeeping` — the facts about the members that every command restores;
* `bookkeeping` — they hold between any two commands, so that every call takes the time
  stamp of the block it is given.
-/

namespace Bulk

open Commands
open Async (Line Block mark)

/-- A call of `process_tasks`: the manager at that moment, and the block it is given. -/
structure Flush where
  manager : TaskManager
  which : Block
  deriving DecidableEq, Repr

/-- The block that the call is given. -/
def Flush.block (f : Flush) : List Line := f.manager.block f.which

/-- The block with its time stamp, if it is put out. -/
def Flush.putOut (opens : Block → Line → Bool) (f : Flush) : List (ℤ × List Line) :=
  if f.block.isEmpty then []
  else if !opens f.which (logPath f.manager.taskManagerName f.manager.timestamp) then []
  else [(f.manager.timestamp, f.block)]

/-- The test `task_count != 0` takes the time stamp of the block that the call is given. -/
def Flush.Selects (f : Flush) : Prop := f.manager.taskCount ≠ 0 ↔ f.which = .static

/-- The call at the end of `add_task`. -/
def TaskManager.appendFlushes (m : TaskManager) (now : ℤ) (task : Line) : List Flush :=
  if m.isDynamicBlockActive then []
  else
    let m := m.emplaceStatic now task
    if m.taskCount.tmod m.maxStaticTaskCount = 0 then [⟨m, .static⟩] else []

/-- The call for a closing brace. -/
def TaskManager.closeFlushes (m : TaskManager) : List Flush :=
  let m := { m with dynamicBlockNestingLevel := m.dynamicBlockNestingLevel - 1 }
  if !m.isDynamicBlockActive then [⟨m, .dynamic⟩] else []

/-- The calls of `process_tasks` in `add_task`. -/
def TaskManager.addTaskFlushes (m : TaskManager) (now : ℤ) (opens : Block → Line → Bool)
    (task : Line) : List Flush :=
  if task = ['{'] then
    if !m.isDynamicBlockActive then [⟨{ m with dynamicBlockTimestamp := now }, .static⟩] else []
  else if task = ['}'] then
    let closed := (m.close (opens .dynamic)).2
    m.closeFlushes ++
      if closed.dynamicBlockNestingLevel < 0 then
        { closed with dynamicBlockNestingLevel := 0 }.appendFlushes now task
      else []
  else m.appendFlushes now task

/-- The call of `process_tasks` in `~taskmanager`. -/
def TaskManager.destroyFlushes (m : TaskManager) : List Flush :=
  if !m.isDynamicBlockActive then [⟨m, .static⟩] else []

section Printed

variable (m : TaskManager) (opens : Block → Line → Bool) (now : ℤ) (task : Line) (which : Block)

/-- What a call of `process_tasks` prints is its flush, under the name of the manager. -/
theorem printed_processTasks : (m.processTasks (opens which) which).1.printed =
    (Flush.putOut opens ⟨m, which⟩).map (printed m.taskManagerName) := by
  unfold TaskManager.processTasks Flush.putOut Flush.block
  split
  · rfl
  · show (if (!opens which (logPath m.taskManagerName m.timestamp)) = true then _ else _ :
      Output × TaskManager).1.printed = _
    split <;> rfl

/-- The name of the manager stays. -/
theorem name_processTasks :
    (m.processTasks (opens which) which).2.taskManagerName = m.taskManagerName := by
  unfold TaskManager.processTasks
  split
  · rfl
  · dsimp only
    split
    · rfl
    · unfold TaskManager.reset
      cases which <;> split <;> rfl

/-- So it does at a closing brace, -/
theorem name_close : (m.close (opens .dynamic)).2.taskManagerName = m.taskManagerName := by
  unfold TaskManager.close
  dsimp only
  split
  · exact name_processTasks _ opens .dynamic
  · rfl

theorem name_emplaceStatic : (m.emplaceStatic now task).taskManagerName = m.taskManagerName := by
  unfold TaskManager.emplaceStatic
  split <;> rfl

/-- and when this fills the block. -/
theorem name_append (ret : ℤ) :
    (m.append ret now (opens .static) task).2.taskManagerName = m.taskManagerName := by
  unfold TaskManager.append
  split
  · rfl
  · dsimp only
    split
    · exact (name_processTasks _ opens .static).trans (name_emplaceStatic m now task)
    · exact name_emplaceStatic m now task

/-- A command does not change the name of the manager. -/
theorem name_addTask : (m.addTask now opens task).2.taskManagerName = m.taskManagerName := by
  unfold TaskManager.addTask
  split
  · split
    · exact name_processTasks { m with dynamicBlockTimestamp := now } opens .static
    · rfl
  · split
    · dsimp only
      split
      · exact (name_append _ opens now task _).trans (name_close m opens)
      · exact name_close m opens
    · exact name_append m opens now task 0

/-- What a closing brace prints are its flushes. -/
theorem close_printed : (m.close (opens .dynamic)).1.printed =
    (m.closeFlushes.flatMap (Flush.putOut opens)).map (printed m.taskManagerName) := by
  unfold TaskManager.close TaskManager.closeFlushes
  dsimp only
  split
  · rw [List.flatMap_singleton]
    exact printed_processTasks _ opens .dynamic
  · rfl

/-- What a command prints are its flushes. -/
theorem append_printed (ret : ℤ) : (m.append ret now (opens .static) task).1.printed =
    ((m.appendFlushes now task).flatMap (Flush.putOut opens)).map (printed m.taskManagerName) := by
  unfold TaskManager.append TaskManager.appendFlushes
  split
  · rfl
  · dsimp only
    split
    · rw [List.flatMap_singleton, ← name_emplaceStatic m now task]
      exact printed_processTasks _ opens .static
    · rfl

/-- **These are the calls.**  What `add_task` puts out is what they put out. -/
theorem addTask_printed : (m.addTask now opens task).1.printed =
    ((m.addTaskFlushes now opens task).flatMap (Flush.putOut opens)).map
      (printed m.taskManagerName) := by
  unfold TaskManager.addTask TaskManager.addTaskFlushes
  split
  · split
    · rw [List.flatMap_singleton]
      exact printed_processTasks { m with dynamicBlockTimestamp := now } opens .static
    · rfl
  · split
    · dsimp only
      split
      · rw [List.flatMap_append, List.map_append, ← close_printed, ← name_close m opens]
        exact congrArg _ (append_printed
          { (m.close (opens .dynamic)).2 with dynamicBlockNestingLevel := 0 } opens now task _)
      · rw [List.append_nil]
        exact close_printed m opens
    · exact append_printed m opens now task 0

/-- What the destructor prints are its flushes. -/
theorem destroy_printed : (m.destroy (opens .static)).1.printed =
    (m.destroyFlushes.flatMap (Flush.putOut opens)).map (printed m.taskManagerName) := by
  unfold TaskManager.destroy TaskManager.destroyFlushes
  split
  · rw [List.flatMap_singleton]
    exact printed_processTasks m opens .static
  · rfl

end Printed

/-! ### The members between two commands

`process_tasks` picks a time stamp by a counter that belongs to the static block.  This
is right as long as no static command is there when a dynamic block is put out, which
the grammar sees to: an opening brace puts the static block out first. -/

/-- The facts about the members that every command restores.  `outside` and `inside` leave only
one of the blocks to be looked at, and `count` is why `add_task` may compare the counter with
the bound instead of the length of the block. -/
structure Bookkeeping (bulk : ℕ) (m : TaskManager) : Prop where
  count : m.taskCount = m.staticBlockTask.length
  count_lt : m.taskCount < bulk
  level : 0 ≤ m.dynamicBlockNestingLevel
  outside : m.dynamicBlockNestingLevel = 0 → m.dynamicBlockTask = []
  inside : 0 < m.dynamicBlockNestingLevel → m.staticBlockTask = []
  timestamp : m.staticBlockTimestamp = 0 ↔ m.staticBlockTask = []

/-- Every call of `process_tasks` that the manager may make next, with a block that is not
empty, takes the time stamp of this block. -/
def Selective (m : TaskManager) : Prop :=
  (∀ call : Call, ∀ f ∈ m.addTaskFlushes call.now call.opens call.line, f.block ≠ [] →
    f.Selects) ∧
  ∀ f ∈ m.destroyFlushes, f.block ≠ [] → f.Selects

section Members

variable {bulk : ℕ} {name : Line} {m : TaskManager} {c : Clocked Line ℤ} {f : Flush}

/-- A manager that follows the grammar keeps its books, unless the clock is read as unset: the
epoch stands for a time that has not been taken. -/
theorem Represents.keepsBooks (hbulk : 1 ≤ bulk) (h : Represents bulk name m c)
    (hset : c.IsSet 0) : Bookkeeping bulk m := by
  cases h with
  | @outside pending timestamp begun hempty hlt =>
      refine ⟨rfl, Int.ofNat_lt.mpr hlt, le_rfl, fun _ => rfl,
        fun hpos => absurd hpos (lt_irrefl 0), fun hzero => ?_, hempty⟩
      by_contra hne
      exact hset pending rfl hne hzero
  | @inside nested collected begun =>
      refine ⟨rfl, Int.ofNat_lt.mpr hbulk, ?_, fun hzero => ?_, fun _ => rfl, iff_of_true rfl rfl⟩
      · show (0 : ℤ) ≤ nested + 1
        omega
      · have hlevel : (nested : ℤ) + 1 = 0 := hzero
        omega

/-- The call at the end of `add_task` comes after a command was counted. -/
theorem selects_append {now : ℤ} {task : Line} (hcount : 0 ≤ m.taskCount)
    (hf : f ∈ m.appendFlushes now task) : f.Selects := by
  have hadded : (m.emplaceStatic now task).taskCount = m.taskCount + 1 := by
    unfold TaskManager.emplaceStatic
    split <;> rfl
  unfold TaskManager.appendFlushes at hf
  split at hf
  · cases hf
  · dsimp only at hf
    split at hf
    · obtain rfl := List.mem_singleton.mp hf
      refine iff_of_true ?_ rfl
      show (m.emplaceStatic now task).taskCount ≠ 0
      omega
    · cases hf

namespace Bookkeeping

variable (h : Bookkeeping bulk m)

include h

/-- A call with the static block as it is. -/
theorem selects_static (hcount : f.manager.taskCount = m.taskCount)
    (hblock : f.block = m.staticBlockTask) (hwhich : f.which = .static) (hne : f.block ≠ []) :
    f.Selects := by
  refine iff_of_true ?_ hwhich
  rw [hcount, h.count, Int.natCast_ne_zero, ← hblock]
  exact fun hzero => hne (List.eq_nil_of_length_eq_zero hzero)

/-- A call with the dynamic block comes when there is no static command. -/
theorem selects_close (hf : f ∈ m.closeFlushes) (hne : f.block ≠ []) : f.Selects := by
  unfold TaskManager.closeFlushes at hf
  dsimp only at hf
  split at hf
  · obtain rfl := List.mem_singleton.mp hf
    have hpos : 0 < m.dynamicBlockNestingLevel :=
      lt_of_le_of_ne h.level fun hzero => hne (h.outside hzero.symm)
    refine iff_of_false ?_ nofun
    show ¬m.taskCount ≠ 0
    rw [h.count, h.inside hpos]
    exact not_not.mpr rfl
  · cases hf

/-- The books decide which time stamp a flush takes, since only one of the two blocks can be
nonempty. -/
theorem selective : Selective m := by
  have hnonneg : 0 ≤ m.taskCount := by
    rw [h.count]
    exact Int.natCast_nonneg _
  constructor
  · intro call f hf hne
    unfold TaskManager.addTaskFlushes at hf
    split at hf
    · split at hf
      · obtain rfl := List.mem_singleton.mp hf
        exact h.selects_static rfl rfl rfl hne
      · cases hf
    · split at hf
      · dsimp only at hf
        rcases List.mem_append.mp hf with hclose | hlast
        · exact h.selects_close hclose hne
        · split at hlast
          · refine selects_append ?_ hlast
            obtain ⟨-, hsame | hzero⟩ := counters_close m (call.opens .dynamic)
            · exact hsame ▸ hnonneg
            · exact hzero ▸ le_rfl
          · cases hlast
      · exact selects_append hnonneg hf
  · intro f hf hne
    unfold TaskManager.destroyFlushes at hf
    split at hf
    · obtain rfl := List.mem_singleton.mp hf
      exact h.selects_static rfl rfl rfl hne
    · cases hf

end Bookkeeping

/-- **The bookkeeping.**  Between any two commands the members are linked as they should be,
the counters are far below the bound of `int`, and `process_tasks` takes the time stamp of
the block that it is given. -/
theorem bookkeeping (hbulk : 1 ≤ bulk) (name : Line) {calls : List Call}
    (hlength : calls.length < 2 ^ 31) (hcalls : AllOpen calls)
    (hclock : ∀ call ∈ calls, call.now ≠ 0) :
    ∀ front, front <+: calls →
      Bookkeeping bulk ((TaskManager.create bulk name).run front).2 ∧
        Counters (2 ^ 31 - 1) ((TaskManager.create bulk name).run front).2 ∧
        Selective ((TaskManager.create bulk name).run front).2 := by
  intro front hfront
  obtain ⟨-, hstate⟩ :=
    run_represents hbulk name fun call hcall => hcalls call (hfront.subset hcall)
  have hset : (Clocked.run mark bulk 0 (timed front)).2.IsSet 0 := by
    refine Clocked.isSet_run fun x hx => ?_
    obtain ⟨call, hcall, rfl⟩ := List.mem_map.mp hx
    exact hclock call (hfront.subset hcall)
  have hbooks := hstate.keepsBooks hbulk hset
  have hle := hfront.length_le
  obtain ⟨hnonneg, hlevel, hzero, hcount⟩ := counters_run bulk name front
  refine ⟨hbooks, ?_, hbooks.selective⟩
  constructor <;> omega

/-- Braces that close nothing are commands like any other. -/
theorem bookkeeping_bracedStream :
    Bookkeeping 2 ((TaskManager.create 2 ['b']).run bracedStream).2 ∧
      ((TaskManager.create 2 ['b']).run bracedStream).2.staticBlockTask = [['}']] := by
  refine ⟨(bookkeeping (by decide) ['b'] (by decide) (fun call hcall which path => ?_)
    (fun call hcall => ?_) bracedStream (List.prefix_refl _)).1, by decide⟩
  · obtain ⟨line, -, rfl⟩ := List.mem_map.mp hcall
    rfl
  · obtain ⟨line, -, rfl⟩ := List.mem_map.mp hcall
    exact one_ne_zero

end Members

end Bulk
