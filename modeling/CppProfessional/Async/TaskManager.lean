import CppProfessional.Async.Workers
import CppProfessional.Commands.Blocks

/-!
# The command grouping of one context

`taskmanager` keeps the static block, the dynamic block and the nesting level of
one context in separate members and tells the two blocks apart by their address.
The functions below follow it member by member; a call that puts a block out
returns it, and the caller pushes it to the queues.

`Represents` connects a manager to the block grammar of `Commands.Grouping`, where
the two kinds of block exclude each other, and `addTask_represents` and
`finish_represents` are the simulation: the manager puts out the blocks of the
grammar.

The nesting level is a natural number, because it is decremented only when it is
positive, and it has no bound: the `int` of the source does not overflow as long as
fewer than `2 ^ 31` lines are sent.  The clock is an argument of `addTask`.
-/

namespace Async

open Commands

/-- The two blocks of a manager. -/
inductive Block
  | static
  | dynamic
  deriving DecidableEq, Repr

/-- `taskmanager`. -/
structure TaskManager where
  dynamicBlockNestingLevel : ℕ
  dynamicBlockTimestamp : ℤ
  staticBlockTimestamp : ℤ
  maxStaticTaskCount : ℕ
  taskManagerId : Line
  dynamicBlockTask : List Line
  staticBlockTask : List Line
  deriving DecidableEq, Repr

/-- `taskmanager(max_task_count, manager_id)`. -/
def TaskManager.create (maxTaskCount : ℕ) (managerId : Line) : TaskManager where
  dynamicBlockNestingLevel := 0
  dynamicBlockTimestamp := 0
  staticBlockTimestamp := 0
  maxStaticTaskCount := maxTaskCount
  taskManagerId := managerId
  dynamicBlockTask := []
  staticBlockTask := []

def TaskManager.isDynamicBlockActive (m : TaskManager) : Bool :=
  decide (0 < m.dynamicBlockNestingLevel)

/-- The block behind an address. -/
def TaskManager.block (m : TaskManager) : Block → List Line
  | .static => m.staticBlockTask
  | .dynamic => m.dynamicBlockTask

/-- `block_task.clear()` and the reset of its time stamp. -/
def TaskManager.clear (m : TaskManager) : Block → TaskManager
  | .static => { m with staticBlockTask := [], staticBlockTimestamp := 0 }
  | .dynamic => { m with dynamicBlockTask := [], dynamicBlockTimestamp := 0 }

/-- `process_tasks`: the block it puts out, and the manager afterwards. -/
def TaskManager.processTasks (m : TaskManager) (which : Block) :
    Option OutputTask × TaskManager :=
  if (m.block which).isEmpty then (none, m)
  else
    let timestamp := if which = .static then m.staticBlockTimestamp else m.dynamicBlockTimestamp
    (some ⟨timestamp, m.taskManagerId, m.block which⟩, m.clear which)

/-- The append to the static block; its first command sets the time stamp. -/
def TaskManager.emplaceStatic (m : TaskManager) (now : ℤ) (task : Line) : TaskManager :=
  let m := if m.staticBlockTask.isEmpty then { m with staticBlockTimestamp := now } else m
  { m with staticBlockTask := m.staticBlockTask ++ [task] }

/-- `add_task`; `now` is the reading of the clock. -/
def TaskManager.addTask (m : TaskManager) (now : ℤ) (task : Line) :
    Option OutputTask × TaskManager :=
  if task = ['{'] then
    if !m.isDynamicBlockActive then
      let (output, m) := { m with dynamicBlockTimestamp := now }.processTasks .static
      (output, { m with dynamicBlockNestingLevel := m.dynamicBlockNestingLevel + 1 })
    else (none, { m with dynamicBlockNestingLevel := m.dynamicBlockNestingLevel + 1 })
  else if task = ['}'] ∧ 0 < m.dynamicBlockNestingLevel then
    let m := { m with dynamicBlockNestingLevel := m.dynamicBlockNestingLevel - 1 }
    if !m.isDynamicBlockActive then m.processTasks .dynamic else (none, m)
  else if m.isDynamicBlockActive then
    (none, { m with dynamicBlockTask := m.dynamicBlockTask ++ [task] })
  else
    let m := m.emplaceStatic now task
    if m.maxStaticTaskCount ≤ m.staticBlockTask.length then m.processTasks .static
    else (none, m)

/-- `finish`. -/
def TaskManager.finish (m : TaskManager) : Option OutputTask × TaskManager :=
  if !m.isDynamicBlockActive && !m.staticBlockTask.isEmpty then m.processTasks .static
  else (none, m)

/-! ### The block grammar

The manager has two blocks and a level, the grammar one open block and a depth.  They
mean the same because one of the two blocks is always empty: the static one inside
braces, the dynamic one outside. -/

/-- The role of a line in the block grammar. -/
def mark (line : Line) : Mark :=
  if line = ['{'] then .opens else if line = ['}'] then .closes else .plain

/-- The block size of the grammar: a size of zero puts out every command at once,
like a size of one. -/
def TaskManager.bulk (m : TaskManager) : ℕ := max m.maxStaticTaskCount 1

/-- A manager and a state of the grammar that mean the same. -/
inductive Represents (m : TaskManager) : Grouping Line → Prop
  | outside {pending : List Line} : m.dynamicBlockNestingLevel = 0 → m.dynamicBlockTask = [] →
      m.staticBlockTask = pending → Represents m (.outside pending)
  | inside {nested : ℕ} {collected : List Line} : m.dynamicBlockNestingLevel = nested + 1 →
      m.staticBlockTask = [] → m.dynamicBlockTask = collected →
      Represents m (.inside nested collected)

/-- What stays the same, and whose blocks these are. -/
structure SameContext (m m' : TaskManager) (output : Option OutputTask) : Prop where
  id : m'.taskManagerId = m.taskManagerId
  bulk : m'.maxStaticTaskCount = m.maxStaticTaskCount
  output : ∀ task ∈ output, task.contextId = m.taskManagerId ∧ task.commands ≠ []

/-- The commands of what was put out. -/
def commandsOf (output : Option OutputTask) : List (List Line) :=
  output.toList.map OutputTask.commands

theorem represents_create (maxTaskCount : ℕ) (managerId : Line) :
    Represents (TaskManager.create maxTaskCount managerId) (.outside []) :=
  .outside rfl rfl rfl

theorem mark_eq_opens {line : Line} : mark line = .opens ↔ line = ['{'] := by
  unfold mark
  split <;> [simp [*]; split <;> simp [*]]

/-- The only line that closes one is a single brace too. -/
theorem mark_eq_closes {line : Line} : mark line = .closes ↔ line = ['}'] := by
  unfold mark
  split
  · next h => simp [h]
  · split <;> simp [*]

section ProcessTasks

variable (m : TaskManager) (which : Block)

/-- A flush puts out the block that it is asked for, unless it is empty. -/
theorem commandsOf_processTasks :
    commandsOf (m.processTasks which).1 = emit (m.block which) := by
  unfold TaskManager.processTasks
  split
  · next hempty =>
    rw [List.isEmpty_iff.mp hempty]
    rfl
  · next hne =>
    rw [emit_of_ne_nil fun hnil => hne (List.isEmpty_iff.mpr hnil)]
    rfl

/-- It leaves the name and the block size of the manager alone, and puts the name on the
block. -/
theorem sameContext_processTasks :
    SameContext m (m.processTasks which).2 (m.processTasks which).1 := by
  unfold TaskManager.processTasks
  split
  · exact ⟨rfl, rfl, fun task htask => by cases htask⟩
  · next hne =>
    refine ⟨by cases which <;> rfl, by cases which <;> rfl, fun task htask => ?_⟩
    cases htask
    exact ⟨rfl, fun hnil => hne (List.isEmpty_iff.mpr hnil)⟩

@[simp] theorem static_processTasks_static :
    (m.processTasks .static).2.staticBlockTask = [] := by
  unfold TaskManager.processTasks
  split
  · next hempty => exact List.isEmpty_iff.mp hempty
  · rfl

@[simp] theorem dynamic_processTasks_static :
    (m.processTasks .static).2.dynamicBlockTask = m.dynamicBlockTask := by
  unfold TaskManager.processTasks
  split <;> rfl

@[simp] theorem dynamic_processTasks_dynamic :
    (m.processTasks .dynamic).2.dynamicBlockTask = [] := by
  unfold TaskManager.processTasks
  split
  · next hempty => exact List.isEmpty_iff.mp hempty
  · rfl

@[simp] theorem static_processTasks_dynamic :
    (m.processTasks .dynamic).2.staticBlockTask = m.staticBlockTask := by
  unfold TaskManager.processTasks
  split <;> rfl

@[simp] theorem dynamicTimestamp_processTasks_static :
    (m.processTasks .static).2.dynamicBlockTimestamp = m.dynamicBlockTimestamp := by
  unfold TaskManager.processTasks
  split <;> rfl

@[simp] theorem level_processTasks :
    (m.processTasks which).2.dynamicBlockNestingLevel = m.dynamicBlockNestingLevel := by
  unfold TaskManager.processTasks
  split
  · rfl
  · cases which <;> rfl

end ProcessTasks

/-! ### The append to the static block -/

section Emplace

variable (m : TaskManager) (now : ℤ) (task : Line)

@[simp] theorem static_emplaceStatic :
    (m.emplaceStatic now task).staticBlockTask = m.staticBlockTask ++ [task] := by
  unfold TaskManager.emplaceStatic
  split <;> rfl

@[simp] theorem dynamic_emplaceStatic :
    (m.emplaceStatic now task).dynamicBlockTask = m.dynamicBlockTask := by
  unfold TaskManager.emplaceStatic
  split <;> rfl

@[simp] theorem level_emplaceStatic :
    (m.emplaceStatic now task).dynamicBlockNestingLevel = m.dynamicBlockNestingLevel := by
  unfold TaskManager.emplaceStatic
  split <;> rfl

@[simp] theorem max_emplaceStatic :
    (m.emplaceStatic now task).maxStaticTaskCount = m.maxStaticTaskCount := by
  unfold TaskManager.emplaceStatic
  split <;> rfl

@[simp] theorem id_emplaceStatic :
    (m.emplaceStatic now task).taskManagerId = m.taskManagerId := by
  unfold TaskManager.emplaceStatic
  split <;> rfl

end Emplace

/-! ### The simulation

One line of input on both sides puts out the same blocks.  The source decides by the
level before and after the line, the grammar by the role of the line, and the cases of
the proof are those of the grammar. -/

/-- **One command.**  The manager puts out what the grammar puts out, and goes on
representing it. -/
theorem addTask_represents {m : TaskManager} {g : Grouping Line} (h : Represents m g) (now : ℤ)
    (task : Line) :
    commandsOf (m.addTask now task).1 = (g.feed mark m.bulk task).1 ∧
      Represents (m.addTask now task).2 (g.feed mark m.bulk task).2 := by
  cases h with
  | @outside pending hlevel hdynamic hstatic =>
      have hidle : m.isDynamicBlockActive = false := by
        simp [TaskManager.isDynamicBlockActive, hlevel]
      by_cases hopen : task = ['{']
      · have hfeed : (Grouping.outside pending).feed mark m.bulk task =
            (emit pending, .inside 0 []) := by
          simp only [Grouping.feed, mark_eq_opens.mpr hopen]
        rw [hfeed]
        simp only [TaskManager.addTask, hopen, if_true, hidle, Bool.not_false]
        refine ⟨?_, .inside (by simp [hlevel]) (by simp) (by simpa using hdynamic)⟩
        rw [commandsOf_processTasks, ← hstatic]
        rfl
      · -- a closing brace is a command here
        have hplain : (Grouping.outside pending).feed mark m.bulk task =
            if m.bulk ≤ (pending ++ [task]).length then ([pending ++ [task]], .outside [])
            else ([], .outside (pending ++ [task])) := by
          cases hmark : mark task with
          | opens => exact absurd (mark_eq_opens.mp hmark) hopen
          | closes | plain => simp only [Grouping.feed, hmark]
        have hclose : ¬(task = ['}'] ∧ 0 < m.dynamicBlockNestingLevel) := by
          simp [hlevel]
        -- one command is enough to reach a bulk size of zero, as of one
        have hfull : m.maxStaticTaskCount ≤ (pending ++ [task]).length ↔
            m.bulk ≤ (pending ++ [task]).length := by
          simp [TaskManager.bulk]
        rw [hplain]
        simp only [TaskManager.addTask, hopen, hclose, if_false, hidle, Bool.false_eq_true,
          max_emplaceStatic, static_emplaceStatic, hstatic, hfull]
        split
        · refine ⟨?_, .outside (by simp [hlevel]) (by simp [hdynamic]) (by simp)⟩
          rw [commandsOf_processTasks, TaskManager.block, static_emplaceStatic, hstatic,
            emit_of_ne_nil (by simp)]
        · exact ⟨rfl, .outside (by simp [hlevel]) (by simp [hdynamic]) (by simp [hstatic])⟩
  | @inside nested collected hlevel hstatic hdynamic =>
      have hactive : m.isDynamicBlockActive = true := by
        simp [TaskManager.isDynamicBlockActive, hlevel]
      by_cases hopen : task = ['{']
      · have hfeed : (Grouping.inside nested collected).feed mark m.bulk task =
            ([], .inside (nested + 1) collected) := by
          simp only [Grouping.feed, mark_eq_opens.mpr hopen]
        rw [hfeed]
        simp only [TaskManager.addTask, hopen, if_true, hactive, Bool.not_true,
          Bool.false_eq_true, if_false]
        exact ⟨rfl, .inside (by simp [hlevel]) hstatic hdynamic⟩
      · by_cases hclose : task = ['}']
        · have hmark : mark task = .closes := mark_eq_closes.mpr hclose
          have hpositive : 0 < m.dynamicBlockNestingLevel := by omega
          have hadd : m.addTask now task =
              let m := { m with dynamicBlockNestingLevel := nested }
              if !m.isDynamicBlockActive then m.processTasks .dynamic else (none, m) := by
            rw [TaskManager.addTask, if_neg hopen, if_pos ⟨hclose, hpositive⟩, hlevel,
              Nat.add_sub_cancel]
          rw [hadd]
          cases nested with
          | zero =>
              simp only [TaskManager.isDynamicBlockActive, lt_self_iff_false, decide_false,
                Bool.not_false, if_true, Grouping.feed, hmark]
              refine ⟨?_, .outside (by simp) (by simp) (by simpa using hstatic)⟩
              rw [commandsOf_processTasks, ← hdynamic]
              rfl
          | succ nested =>
              simp only [TaskManager.isDynamicBlockActive, Nat.zero_lt_succ, decide_true,
                Bool.not_true, Bool.false_eq_true, if_false, Grouping.feed, hmark]
              exact ⟨rfl, .inside rfl hstatic hdynamic⟩
        · have hmark : mark task = .plain := by
            simp [mark, hopen, hclose]
          simp only [TaskManager.addTask, Grouping.feed, hmark, hopen, hclose, false_and, if_false,
            hactive, if_true]
          exact ⟨rfl, .inside hlevel hstatic (by rw [hdynamic])⟩

/-- At the end of the data only a static block is put out; an open block of braces is
dropped. -/
theorem finish_represents {m : TaskManager} {g : Grouping Line} (h : Represents m g) :
    commandsOf m.finish.1 = g.finish := by
  cases h with
  | outside hlevel hdynamic hstatic =>
      have hidle : m.isDynamicBlockActive = false := by
        simp [TaskManager.isDynamicBlockActive, hlevel]
      simp only [TaskManager.finish, hidle, Bool.not_false, Bool.true_and, Grouping.finish]
      split
      · rw [commandsOf_processTasks, ← hstatic]
        rfl
      · next hempty =>
        have hnil : m.staticBlockTask = [] := by simpa using hempty
        rw [← hstatic, hnil]
        rfl
  | inside hlevel hstatic hdynamic =>
      have hactive : m.isDynamicBlockActive = true := by
        simp [TaskManager.isDynamicBlockActive, hlevel]
      simp only [TaskManager.finish, hactive, Bool.not_true, Bool.false_and, Grouping.finish]
      rfl

/-- A command stays within its context, and only non-empty blocks come out.  `process_tasks` is
called with an empty block in several places and returns nothing there. -/
theorem sameContext_addTask (m : TaskManager) (now : ℤ) (task : Line) :
    SameContext m (m.addTask now task).2 (m.addTask now task).1 := by
  have hsilent {m' : TaskManager} (hid : m'.taskManagerId = m.taskManagerId)
      (hbulk : m'.maxStaticTaskCount = m.maxStaticTaskCount) : SameContext m m' none :=
    ⟨hid, hbulk, fun task htask => by cases htask⟩
  unfold TaskManager.addTask
  split
  · split
    · have hflush := sameContext_processTasks { m with dynamicBlockTimestamp := now } .static
      exact ⟨hflush.id, hflush.bulk, hflush.output⟩
    · exact hsilent rfl rfl
  · split
    · dsimp only
      split
      · have hflush := sameContext_processTasks
          { m with dynamicBlockNestingLevel := m.dynamicBlockNestingLevel - 1 } .dynamic
        exact ⟨hflush.id, hflush.bulk, hflush.output⟩
      · exact hsilent rfl rfl
    · split
      · exact hsilent rfl rfl
      · dsimp only
        split
        · have hflush := sameContext_processTasks (m.emplaceStatic now task) .static
          refine ⟨hflush.id.trans (id_emplaceStatic m now task),
            hflush.bulk.trans (max_emplaceStatic m now task), fun output houtput => ?_⟩
          rw [← id_emplaceStatic m now task]
          exact hflush.output output houtput
        · exact hsilent (id_emplaceStatic m now task) (max_emplaceStatic m now task)

/-- The end of the data leaves the name alone. -/
theorem sameContext_finish (m : TaskManager) : SameContext m m.finish.2 m.finish.1 := by
  unfold TaskManager.finish
  split
  · exact sameContext_processTasks m .static
  · exact ⟨rfl, rfl, fun task htask => by cases htask⟩

end Async
