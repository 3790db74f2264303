import CppProfessional.Async.TaskManager

/-!
# The commands of the bulk server

The network rework splits the grouping of commands in two: one `taskmanager`,
shared by all connections, collects the commands outside braces, and each
`ConnectionContext` has the nesting level and the dynamic block of its connection.
`processCommand` follows `process_command` and says which of the two blocks it puts
out.

The nesting level is an integer, because a closing brace lowers it unconditionally.
It has no bound here: the `int` of the source does not overflow as long as a
connection sends fewer than `2 ^ 31` lines.  The clock is an argument.

`CommandMove` lists what one command can do while the shared manager exists, and
`processCommand_move` is the inversion of `processCommand`.
-/

namespace BulkServer

open Async (OutputTask Line Block)

/-- `ConnectionContext`. -/
structure ConnectionContext where
  dynamicBlockNestingLevel : ℤ
  dynamicBlockTimestamp : ℤ
  id : Line
  dynamicBlockTask : List Line
  deriving DecidableEq, Repr

/-- A new context. -/
def ConnectionContext.create (id : Line) : ConnectionContext where
  dynamicBlockNestingLevel := 0
  dynamicBlockTimestamp := 0
  id := id
  dynamicBlockTask := []

/-- `taskmanager`: what is left of it is the static block. -/
structure TaskManager where
  staticBlockTimestamp : ℤ
  maxStaticTaskCount : ℕ
  staticBlockTask : List Line
  deriving DecidableEq, Repr

/-- `taskmanager(max_task_count)`. -/
def TaskManager.create (maxTaskCount : ℕ) : TaskManager where
  staticBlockTimestamp := 0
  maxStaticTaskCount := maxTaskCount
  staticBlockTask := []

/-- The context id of the static blocks. -/
def staticContextId : Line := ['0']

/-- `process_tasks(block_task, timestamp, context_id)`: the block it puts out, and
what it leaves in `block_task`. -/
def processTasks (blockTask : List Line) (timestamp : ℤ) (contextId : Line) :
    Option OutputTask × List Line :=
  if blockTask.isEmpty then (none, blockTask)
  else (some ⟨timestamp, contextId, blockTask⟩, [])

/-- `process_tasks(static_block_task, static_block_timestamp)`. -/
def TaskManager.processStatic (m : TaskManager) : Option OutputTask × TaskManager :=
  let (output, blockTask) :=
    processTasks m.staticBlockTask m.staticBlockTimestamp staticContextId
  (output, { m with staticBlockTask := blockTask })

/-- `add_task`; `now` is the reading of the clock. -/
def TaskManager.addTask (m : TaskManager) (now : ℤ) (task : Line) :
    Option OutputTask × TaskManager :=
  let m := if m.staticBlockTask.isEmpty then { m with staticBlockTimestamp := now } else m
  let m := { m with staticBlockTask := m.staticBlockTask ++ [task] }
  if m.maxStaticTaskCount ≤ m.staticBlockTask.length then m.processStatic else (none, m)

/-- `finish`. -/
def TaskManager.finish (m : TaskManager) : Option OutputTask × TaskManager :=
  if !m.staticBlockTask.isEmpty then m.processStatic else (none, m)

/-- `if (shared_task_manager()) shared_task_manager()->finish()`. -/
def finishShared : Option TaskManager → Option OutputTask × Option TaskManager
  | none => (none, none)
  | some m => (m.finish.1, some m.finish.2)

/-- What a command leaves behind: the block it puts out, of which kind, the shared
manager and the context. -/
structure Processed where
  output : Option (Block × OutputTask)
  manager : Option TaskManager
  context : ConnectionContext

/-- A block with its kind. -/
def tagged (kind : Block) (output : Option OutputTask) : Option (Block × OutputTask) :=
  output.map fun task => (kind, task)

/-- `process_command`. -/
def processCommand (manager : Option TaskManager) (context : ConnectionContext) (now : ℤ)
    (command : Line) : Processed :=
  if command = ['{'] then
    let level := context.dynamicBlockNestingLevel
    if level = 0 then
      let (output, manager) := finishShared manager
      ⟨tagged .static output, manager,
        { context with dynamicBlockTimestamp := now, dynamicBlockNestingLevel := level + 1 }⟩
    else ⟨none, manager, { context with dynamicBlockNestingLevel := level + 1 }⟩
  else if command = ['}'] then
    let context : ConnectionContext :=
      { context with dynamicBlockNestingLevel := context.dynamicBlockNestingLevel - 1 }
    -- the level falls without a guard, but only from one does it reach zero here
    if context.dynamicBlockNestingLevel = 0 ∧ manager.isSome then
      let (output, blockTask) :=
        processTasks context.dynamicBlockTask context.dynamicBlockTimestamp context.id
      ⟨tagged .dynamic output, manager, { context with dynamicBlockTask := blockTask }⟩
    else ⟨none, manager, context⟩
  else if !command.isEmpty then
    if 0 < context.dynamicBlockNestingLevel then
      ⟨none, manager,
        { context with dynamicBlockTask := context.dynamicBlockTask ++ [command] }⟩
    else
      match manager with
      -- without a manager the command is lost
      | none => ⟨none, none, context⟩
      | some m => ⟨tagged .static (m.addTask now command).1, (m.addTask now command).2, context⟩
  else ⟨none, manager, context⟩

/-! ### Blocks that are put out -/

/-- `output` is `block` put out under the given kind and id; nothing, if it is empty. -/
inductive PutsOut (kind : Block) (contextId : Line) (block : List Line) :
    Option (Block × OutputTask) → Prop
  | nothing : block = [] → PutsOut kind contextId block none
  | block (timestamp : ℤ) : block ≠ [] →
      PutsOut kind contextId block (some (kind, ⟨timestamp, contextId, block⟩))

/-- A block that is not empty is put out, with its time and the id of its context, and nothing
is left of it. -/
theorem putsOut_processTasks (kind : Block) (blockTask : List Line) (timestamp : ℤ)
    (contextId : Line) :
    PutsOut kind contextId blockTask
        (tagged kind (processTasks blockTask timestamp contextId).1) ∧
      (processTasks blockTask timestamp contextId).2 = [] := by
  unfold processTasks
  by_cases hempty : blockTask = []
  · rw [hempty]
    exact ⟨.nothing rfl, rfl⟩
  · have hfalse : blockTask.isEmpty = false := by simpa using hempty
    rw [hfalse]
    exact ⟨.block timestamp hempty, rfl⟩

namespace TaskManager

variable (m : TaskManager)

/-- The manager after its static block was put out. -/
def flushed : TaskManager := { m with staticBlockTask := [] }

/-- The static block is put out, under the id of the manager. -/
theorem putsOut_processStatic :
    PutsOut .static staticContextId m.staticBlockTask (tagged .static m.processStatic.1) ∧
      m.processStatic.2 = m.flushed := by
  obtain ⟨hout, hnil⟩ :=
    putsOut_processTasks .static m.staticBlockTask m.staticBlockTimestamp staticContextId
  refine ⟨hout, ?_⟩
  unfold processStatic flushed
  rw [← hnil]

/-- So it is when the last client has left. -/
theorem putsOut_finish :
    PutsOut .static staticContextId m.staticBlockTask (tagged .static m.finish.1) ∧
      m.finish.2 = m.flushed := by
  unfold finish
  by_cases hempty : m.staticBlockTask = []
  · have htrue : m.staticBlockTask.isEmpty = true := by simpa using hempty
    rw [htrue]
    refine ⟨.nothing hempty, ?_⟩
    unfold flushed
    rw [← hempty]
    rfl
  · have hfalse : m.staticBlockTask.isEmpty = false := by simpa using hempty
    rw [hfalse]
    exact m.putsOut_processStatic

/-- The manager after a command was appended to its static block. -/
def appended (now : ℤ) (task : Line) : TaskManager where
  staticBlockTimestamp := if m.staticBlockTask.isEmpty then now else m.staticBlockTimestamp
  maxStaticTaskCount := m.maxStaticTaskCount
  staticBlockTask := m.staticBlockTask ++ [task]

/-- A command is appended, and the block put out once it is full. -/
theorem addTask_eq (now : ℤ) (task : Line) :
    m.addTask now task =
      if m.maxStaticTaskCount ≤ (m.staticBlockTask ++ [task]).length then
        (m.appended now task).processStatic
      else (none, m.appended now task) := by
  unfold addTask appended
  cases m.staticBlockTask.isEmpty <;> rfl

end TaskManager

/-! ### What a command can do -/

/-- Everything one command can do while the shared manager exists. -/
inductive CommandMove (m : TaskManager) (context : ConnectionContext) : Line → Processed → Prop
  | opens {now : ℤ} {output : Option (Block × OutputTask)} :
      context.dynamicBlockNestingLevel = 0 →
      PutsOut .static staticContextId m.staticBlockTask output →
      CommandMove m context ['{'] ⟨output, some m.flushed,
        { context with dynamicBlockTimestamp := now, dynamicBlockNestingLevel := 1 }⟩
  | nests : context.dynamicBlockNestingLevel ≠ 0 →
      CommandMove m context ['{'] ⟨none, some m,
        { context with dynamicBlockNestingLevel := context.dynamicBlockNestingLevel + 1 }⟩
  | closes {output : Option (Block × OutputTask)} : context.dynamicBlockNestingLevel = 1 →
      PutsOut .dynamic context.id context.dynamicBlockTask output →
      CommandMove m context ['}'] ⟨output, some m,
        { context with dynamicBlockNestingLevel := 0, dynamicBlockTask := [] }⟩
  | unnests : context.dynamicBlockNestingLevel ≠ 1 →
      CommandMove m context ['}'] ⟨none, some m,
        { context with dynamicBlockNestingLevel := context.dynamicBlockNestingLevel - 1 }⟩
  | skips : CommandMove m context [] ⟨none, some m, context⟩
  | collects {command : Line} : command ≠ [] → command ≠ ['{'] → command ≠ ['}'] →
      0 < context.dynamicBlockNestingLevel →
      CommandMove m context command ⟨none, some m,
        { context with dynamicBlockTask := context.dynamicBlockTask ++ [command] }⟩
  | appends {command : Line} {now : ℤ} : command ≠ [] → command ≠ ['{'] → command ≠ ['}'] →
      context.dynamicBlockNestingLevel ≤ 0 →
      (m.staticBlockTask ++ [command]).length < m.maxStaticTaskCount →
      CommandMove m context command ⟨none, m.appended now command, context⟩
  | fills {command : Line} {now : ℤ} {output : Option (Block × OutputTask)} :
      command ≠ [] → command ≠ ['{'] → command ≠ ['}'] →
      context.dynamicBlockNestingLevel ≤ 0 →
      m.maxStaticTaskCount ≤ (m.staticBlockTask ++ [command]).length →
      PutsOut .static staticContextId (m.staticBlockTask ++ [command]) output →
      CommandMove m context command ⟨output, (m.appended now command).flushed, context⟩

/-- **Inversion of a command.**  The cases are those of the source: an opening brace, a
closing one at the last level or above it, one too many, and a plain line inside or
outside of braces. -/
theorem processCommand_move (m : TaskManager) (context : ConnectionContext) (now : ℤ)
    (command : Line) :
    CommandMove m context command (processCommand (some m) context now command) := by
  unfold processCommand
  split
  · next hopen =>
    subst hopen
    by_cases hlevel : context.dynamicBlockNestingLevel = 0
    · obtain ⟨hout, hflushed⟩ := m.putsOut_finish
      simp only [hlevel, if_true, finishShared, hflushed, zero_add]
      exact .opens hlevel hout
    · simp only [hlevel, if_false]
      exact .nests hlevel
  · next hopen =>
    split
    · next hclose =>
      subst hclose
      by_cases hlevel : context.dynamicBlockNestingLevel = 1
      · obtain ⟨hout, hnil⟩ := putsOut_processTasks .dynamic context.dynamicBlockTask
          context.dynamicBlockTimestamp context.id
        simp only [hlevel, sub_self, Option.isSome_some, and_self, if_true, hnil]
        exact .closes hlevel hout
      · have hne : context.dynamicBlockNestingLevel - 1 ≠ 0 := by omega
        simp only [hne, false_and, if_false]
        exact .unnests hlevel
    · next hclose =>
      split
      · next hcommand =>
        have hne : command ≠ [] := by simpa using hcommand
        split
        · next hlevel => exact .collects hne hopen hclose hlevel
        · next hlevel =>
          have hlevel : context.dynamicBlockNestingLevel ≤ 0 := not_lt.mp hlevel
          show CommandMove m context command
            ⟨tagged .static (m.addTask now command).1, (m.addTask now command).2, context⟩
          rw [m.addTask_eq]
          by_cases hfull : m.maxStaticTaskCount ≤ (m.staticBlockTask ++ [command]).length
          · obtain ⟨hout, hflushed⟩ := (m.appended now command).putsOut_processStatic
            rw [if_pos hfull, hflushed]
            exact .fills hne hopen hclose hlevel hfull hout
          · rw [if_neg hfull]
            exact .appends hne hopen hclose hlevel (not_le.mp hfull)
      · next hcommand =>
        have hnil : command = [] := by simpa using hcommand
        subst hnil
        exact .skips

end BulkServer
