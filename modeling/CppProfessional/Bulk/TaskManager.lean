import CppProfessional.Async.TaskManager
import CppProfessional.Commands.Clock

/-!
# The console task manager

`bulk::taskmanager` groups the lines of one stream into blocks like the
`taskmanager` of the asynchronous library, but it keeps its own counts: the
number of static commands, which a block put out resets to zero, and a nesting
level that an unmatched closing brace takes below zero for a moment.

A block goes to `std::cout` and to a file of its own, whose name is made of the
name of the program and the second at which the block began.  A file that cannot
be opened leaves the block where it is.

## Main definitions

* `TaskManager.addTask`, `TaskManager.processTasks`, `TaskManager.destroy` — the
  member functions and the destructor;
* `TaskManager.run` — the loop over the lines;
* `session` — the blocks put out in the life of a manager.

`Represents` connects a manager to the block grammar with a clock,
`addTask_represents` and `destroy_represents` are the simulation, and
`session_clocked` is its result for a whole life.

The counters are integers without a bound: `counters_le` keeps them between zero
and the number of commands.
-/

namespace Bulk

open Commands
open Async (Line Block toText ticksPerSecond mark mark_eq_opens mark_eq_closes)

/-- `bulk::taskmanager`. -/
structure TaskManager where
  dynamicBlockNestingLevel : ℤ
  taskCount : ℤ
  maxStaticTaskCount : ℤ
  dynamicBlockTimestamp : ℤ
  staticBlockTimestamp : ℤ
  taskManagerName : Line
  dynamicBlockTask : List Line
  staticBlockTask : List Line
  deriving DecidableEq, Repr

/-- `taskmanager(max_task_count, name)`. -/
def TaskManager.create (maxTaskCount : ℤ) (name : Line) : TaskManager where
  dynamicBlockNestingLevel := 0
  taskCount := 0
  maxStaticTaskCount := maxTaskCount
  dynamicBlockTimestamp := 0
  staticBlockTimestamp := 0
  taskManagerName := name
  dynamicBlockTask := []
  staticBlockTask := []

def TaskManager.isDynamicBlockActive (m : TaskManager) : Bool :=
  decide (0 < m.dynamicBlockNestingLevel)

/-- `std::filesystem::path(name).filename()`: what follows the last slash. -/
def filename (name : Line) : Line :=
  (name.reverse.takeWhile fun c => c ≠ '/').reverse

/-- A block that is put out: the file it goes to, the name in front of it, and its
commands. -/
structure Printed where
  logPath : Line
  name : Line
  commands : List Line
  deriving DecidableEq, Repr

/-- The line that `std::cout` and the file receive. -/
def Printed.text (p : Printed) : Line :=
  p.name ++ [':', ' '] ++ List.intercalate [',', ' '] p.commands ++ ['\n']

/-- What a call returns and puts out. -/
structure Output where
  ret : ℤ
  printed : List Printed
  stderr : List Line
  deriving DecidableEq, Repr

/-- A call that returns zero and puts out nothing. -/
def Output.quiet : Output := ⟨0, [], []⟩

/-- `log_path`: the name of the program, the whole seconds of the time stamp and the
extension. -/
def logPath (name : Line) (timestamp : ℤ) : Line :=
  filename name ++ toText (timestamp / ticksPerSecond) ++ ['.', 'l', 'o', 'g']

/-- A block as the manager called `name` puts it out. -/
def printed (name : Line) (block : ℤ × List Line) : Printed where
  logPath := logPath name block.1
  name := filename name
  commands := block.2

/-- The block behind an address. -/
def TaskManager.block (m : TaskManager) : Block → List Line
  | .static => m.staticBlockTask
  | .dynamic => m.dynamicBlockTask

/-- `block_task.clear()`. -/
def TaskManager.clear (m : TaskManager) : Block → TaskManager
  | .static => { m with staticBlockTask := [] }
  | .dynamic => { m with dynamicBlockTask := [] }

/-- `timestamp`: the time stamp of the static block if it has commands, whichever
block is put out. -/
def TaskManager.timestamp (m : TaskManager) : ℤ :=
  if m.taskCount ≠ 0 then m.staticBlockTimestamp else m.dynamicBlockTimestamp

/-- `*timestamp = time_point{}` and `task_count = 0`. -/
def TaskManager.reset (m : TaskManager) : TaskManager :=
  if m.taskCount ≠ 0 then { m with staticBlockTimestamp := 0, taskCount := 0 }
  else { m with dynamicBlockTimestamp := 0, taskCount := 0 }

/-- `process_tasks`; `opens` are the paths that can be opened for writing. -/
def TaskManager.processTasks (m : TaskManager) (opens : Line → Bool) (which : Block) :
    Output × TaskManager :=
  if (m.block which).isEmpty then (.quiet, m)
  else
    let block := printed m.taskManagerName (m.timestamp, m.block which)
    if !opens block.logPath then (⟨-1, [], ["Failed to open file".toList]⟩, m)
    else (⟨0, [block], []⟩, (m.clear which).reset)

/-- The append to the static block, which sets a time stamp that is zero. -/
def TaskManager.emplaceStatic (m : TaskManager) (now : ℤ) (task : Line) : TaskManager :=
  let m := if m.staticBlockTimestamp = 0 then { m with staticBlockTimestamp := now } else m
  { m with staticBlockTask := m.staticBlockTask ++ [task], taskCount := m.taskCount + 1 }

/-- The end of `add_task`: the command is appended to the block in progress.  `ret`
is the value that `add_task` returns if no block is put out here. -/
def TaskManager.append (m : TaskManager) (ret now : ℤ) (opens : Line → Bool) (task : Line) :
    Output × TaskManager :=
  if m.isDynamicBlockActive then
    (⟨ret, [], []⟩, { m with dynamicBlockTask := m.dynamicBlockTask ++ [task] })
  else
    let m := m.emplaceStatic now task
    if m.taskCount.tmod m.maxStaticTaskCount = 0 then m.processTasks opens .static
    else (⟨ret, [], []⟩, m)

/-- A closing brace: the nesting level, and the block that ends at level zero. -/
def TaskManager.close (m : TaskManager) (opens : Line → Bool) : Output × TaskManager :=
  let m := { m with dynamicBlockNestingLevel := m.dynamicBlockNestingLevel - 1 }
  if !m.isDynamicBlockActive then m.processTasks opens .dynamic else (.quiet, m)

/-- `add_task`; `now` is the reading of the clock, and `opens` are the paths that can be
opened when `process_tasks` is called with the one or the other block. -/
def TaskManager.addTask (m : TaskManager) (now : ℤ) (opens : Block → Line → Bool) (task : Line) :
    Output × TaskManager :=
  if task = ['{'] then
    if !m.isDynamicBlockActive then
      let (output, m) :=
        { m with dynamicBlockTimestamp := now }.processTasks (opens .static) .static
      (output, { m with dynamicBlockNestingLevel := m.dynamicBlockNestingLevel + 1 })
    else (.quiet, { m with dynamicBlockNestingLevel := m.dynamicBlockNestingLevel + 1 })
  else if task = ['}'] then
    let (output, m) := m.close (opens .dynamic)
    -- a closing brace without an opening one is a command
    if m.dynamicBlockNestingLevel < 0 then
      let (last, m) :=
        { m with dynamicBlockNestingLevel := 0 }.append output.ret now (opens .static) task
      (⟨last.ret, output.printed ++ last.printed, output.stderr ++ last.stderr⟩, m)
    else (output, m)
  else m.append 0 now (opens .static) task

/-- `~taskmanager`. -/
def TaskManager.destroy (m : TaskManager) (opens : Line → Bool) : Output × TaskManager :=
  if !m.isDynamicBlockActive then m.processTasks opens .static else (.quiet, m)

/-- A line that `run` reads, with the clock and the file system at that moment. -/
structure Call where
  now : ℤ
  opens : Block → Line → Bool
  line : Line

/-- One round of the loop of `run`. -/
def TaskManager.round (m : TaskManager) (call : Call) : Output × TaskManager :=
  let (output, m) := m.addTask call.now call.opens call.line
  if output.ret ≠ 0 then
    (⟨0, output.printed,
      output.stderr ++ ["Error processing command: ".toList ++ call.line]⟩, m)
  else (output, m)

/-- `run`: the blocks put out, and the manager afterwards.  The signal handler ends
the loop between two lines, so a run that is stopped is a run over fewer lines. -/
def TaskManager.run (m : TaskManager) (calls : List Call) : List Printed × TaskManager :=
  calls.foldl
    (fun (printed, m) call => (printed ++ (m.round call).1.printed, (m.round call).2)) ([], m)

/-- The blocks put out in the life of a manager; `opens` are the paths that can be
opened when it ends. -/
def session (maxTaskCount : ℤ) (name : Line) (calls : List Call) (opens : Line → Bool) :
    List Printed :=
  let (printed, m) := (TaskManager.create maxTaskCount name).run calls
  printed ++ (m.destroy opens).1.printed

/-! ### The block grammar

The grammar is taken with a clock, so that the time stamps are part of what is compared.
A block outside braces has the time of its first command, one inside braces that of the
outermost brace. -/

/-- A manager and a state of the grammar with a clock that mean the same. -/
inductive Represents (bulk : ℕ) (name : Line) : TaskManager → Clocked Line ℤ → Prop
  | outside {pending : List Line} {timestamp begun : ℤ} :
      (pending = [] → begun = 0) → pending.length < bulk →
      Represents bulk name ⟨0, pending.length, bulk, timestamp, begun, name, [], pending⟩
        ⟨.outside pending, begun⟩
  | inside {nested : ℕ} {collected : List Line} {begun : ℤ} :
      Represents bulk name ⟨nested + 1, 0, bulk, begun, 0, name, collected, []⟩
        ⟨.inside nested collected, begun⟩

theorem represents_create {bulk : ℕ} (hbulk : 1 ≤ bulk) (name : Line) :
    Represents bulk name (TaskManager.create bulk name) ⟨.outside [], 0⟩ :=
  @Represents.outside bulk name [] 0 0 (fun _ => rfl) hbulk

section ProcessTasks

variable {bulk : ℕ} {name : Line} {opens : Line → Bool} {m : TaskManager}

/-- The static block is put out with its own time stamp. -/
theorem processTasks_static (hopens : ∀ path, opens path = true)
    (hcount : m.taskCount = m.staticBlockTask.length)
    (hempty : m.staticBlockTask = [] → m.staticBlockTimestamp = 0) :
    m.processTasks opens .static =
      (⟨0, (emit m.staticBlockTask).map fun block =>
          printed m.taskManagerName (m.staticBlockTimestamp, block), []⟩,
        { m with staticBlockTask := [], staticBlockTimestamp := 0, taskCount := 0 }) := by
  obtain ⟨level, count, max, dynamicTime, staticTime, id, dynamic, static⟩ := m
  cases static with
  | nil =>
      obtain rfl : staticTime = 0 := hempty rfl
      obtain rfl : count = 0 := hcount
      rfl
  | cons task rest =>
      have hne : count ≠ 0 := by
        rw [show count = _ from hcount]
        exact Int.natCast_ne_zero.mpr (Nat.succ_ne_zero _)
      simp [TaskManager.processTasks, TaskManager.block, TaskManager.clear, TaskManager.reset,
        TaskManager.timestamp, hopens, hne, emit]

/-- The dynamic block is put out with its own time stamp if there is no static
command. -/
theorem processTasks_dynamic (hopens : ∀ path, opens path = true) (hcount : m.taskCount = 0) :
    ∃ timestamp, m.processTasks opens .dynamic =
      (⟨0, (emit m.dynamicBlockTask).map fun block =>
          printed m.taskManagerName (m.dynamicBlockTimestamp, block), []⟩,
        { m with dynamicBlockTask := [], dynamicBlockTimestamp := timestamp }) := by
  obtain ⟨level, count, max, dynamicTime, staticTime, id, dynamic, static⟩ := m
  obtain rfl : count = 0 := hcount
  cases dynamic with
  | nil => exact ⟨dynamicTime, rfl⟩
  | cons task rest =>
      refine ⟨0, ?_⟩
      simp [TaskManager.processTasks, TaskManager.block, TaskManager.clear, TaskManager.reset,
        TaskManager.timestamp, hopens, emit]

/-- A block whose file cannot be opened stays where it is. -/
theorem processTasks_of_not_open (hopens : ∀ path, opens path = false) (which : Block) :
    (m.processTasks opens which).2 = m ∧ (m.processTasks opens which).1.printed = [] := by
  unfold TaskManager.processTasks
  split
  · exact ⟨rfl, rfl⟩
  · simp [hopens]

end ProcessTasks

/-! ### The simulation

Only runs in which every log file opens are considered here; what a file that does not
open does to the members is another matter. -/

section Simulation

variable {bulk : ℕ} {name : Line} {opens : Line → Bool} {m : TaskManager} {c : Clocked Line ℤ}

/-- The count of static commands reaches a multiple of the block size when the block
is full. -/
theorem tmod_count {count : ℕ} (hlt : count < bulk) :
    ((count + 1 : ℤ)).tmod bulk = 0 ↔ bulk ≤ count + 1 := by
  rw [← Nat.cast_succ, ← Int.ofNat_tmod, Int.natCast_eq_zero]
  constructor
  · intro hzero
    by_contra hgt
    rw [Nat.mod_eq_of_lt (Nat.lt_of_not_le hgt)] at hzero
    exact Nat.succ_ne_zero _ hzero
  · intro hle
    rw [show count.succ = bulk from Nat.le_antisymm hlt hle, Nat.mod_self]

/-- A command outside braces, which may be a closing one.  It fills the block, or completes it,
and then the block is put out with the time of its first command. -/
theorem append_represents (hopens : ∀ path, opens path = true) {pending : List Line}
    {timestamp begun : ℤ} (hlt : pending.length < bulk) (ret now : ℤ) {task : Line}
    (hmark : mark task ≠ .opens) :
    let m : TaskManager := ⟨0, pending.length, bulk, timestamp, begun, name, [], pending⟩
    let c : Clocked Line ℤ := ⟨.outside pending, begun⟩
    (m.append ret now opens task).1.printed =
        (c.feed mark bulk 0 now task).1.map (printed name) ∧
      Represents bulk name (m.append ret now opens task).2 (c.feed mark bulk 0 now task).2 := by
  intro m c
  have hstatic : m.emplaceStatic now task =
      ⟨0, pending.length + 1, bulk, timestamp, if begun = 0 then now else begun, name, [],
        pending ++ [task]⟩ := by
    unfold TaskManager.emplaceStatic
    split <;> simp [m, *]
  have happend : m.append ret now opens task =
      if bulk ≤ (pending ++ [task]).length then
        (m.emplaceStatic now task).processTasks opens .static
      else (⟨ret, [], []⟩, m.emplaceStatic now task) := by
    simp only [TaskManager.append, hstatic, tmod_count hlt, List.length_append,
      List.length_singleton]
    rfl
  have hempty' (hnil : pending ++ [task] = []) : (if begun = 0 then now else begun) = 0 :=
    absurd hnil (List.append_ne_nil_of_right_ne_nil _ (List.cons_ne_nil _ _))
  rw [happend, Clocked.feed_outside hmark, hstatic]
  by_cases hfull : bulk ≤ (pending ++ [task]).length
  · rw [if_pos hfull, processTasks_static hopens (by simp) hempty']
    simp only [if_pos hfull]
    refine ⟨?_, @Represents.outside bulk name [] _ 0 (fun _ => rfl) (Nat.zero_lt_of_lt hlt)⟩
    rw [emit_of_ne_nil (by simp)]
    rfl
  · simp only [if_neg hfull]
    refine ⟨rfl, ?_⟩
    have hlength : ((pending.length : ℤ) + 1) = (pending ++ [task]).length := by simp
    rw [hlength]
    exact .outside hempty' (Nat.lt_of_not_le hfull)

/-- **One command.**  The manager puts out the blocks of the grammar with their times,
and goes on representing it. -/
theorem addTask_represents (hbulk : 1 ≤ bulk) {opens : Block → Line → Bool}
    (hopens : ∀ which path, opens which path = true) (h : Represents bulk name m c)
    (now : ℤ) (task : Line) :
    (m.addTask now opens task).1.printed = (c.feed mark bulk 0 now task).1.map (printed name) ∧
      Represents bulk name (m.addTask now opens task).2 (c.feed mark bulk 0 now task).2 := by
  cases h with
  | @outside pending timestamp begun hempty hlt =>
      by_cases hopen : task = ['{']
      · have hmark : mark task = .opens := mark_eq_opens.mpr hopen
        have hadd : (⟨0, pending.length, bulk, timestamp, begun, name, [], pending⟩ :
            TaskManager).addTask now opens task =
            (⟨0, (emit pending).map fun block => printed name (begun, block), []⟩,
              ⟨1, 0, bulk, now, 0, name, [], []⟩) := by
          simp only [TaskManager.addTask, if_pos hopen]
          rw [processTasks_static (hopens .static) rfl hempty]
          rfl
        rw [hadd]
        simp only [Clocked.feed, Grouping.feed, hmark, List.map_map]
        exact ⟨rfl, .inside⟩
      · by_cases hclose : task = ['}']
        · -- the dynamic block is empty, and the brace is appended like any command
          have hadd : (⟨0, pending.length, bulk, timestamp, begun, name, [], pending⟩ :
              TaskManager).addTask now opens task =
              (⟨0, pending.length, bulk, timestamp, begun, name, [], pending⟩ :
                TaskManager).append 0 now (opens .static) task := by
            simp only [TaskManager.addTask, if_neg hopen, if_pos hclose]
            rfl
          rw [hadd]
          exact append_represents (hopens .static) hlt 0 now fun hmark =>
            hopen (mark_eq_opens.mp hmark)
        · simp only [TaskManager.addTask, if_neg hopen, if_neg hclose]
          exact append_represents (hopens .static) hlt 0 now fun hmark =>
            hopen (mark_eq_opens.mp hmark)
  | @inside nested collected begun =>
      have hactive : decide ((0 : ℤ) < nested + 1) = true := decide_eq_true (by omega)
      by_cases hopen : task = ['{']
      · have hmark : mark task = .opens := mark_eq_opens.mpr hopen
        simp only [TaskManager.addTask, if_pos hopen, TaskManager.isDynamicBlockActive, hactive,
          Bool.not_true, Bool.false_eq_true, if_false, Clocked.feed, Grouping.feed, hmark]
        exact ⟨rfl, .inside⟩
      · by_cases hclose : task = ['}']
        · have hmark : mark task = .closes := mark_eq_closes.mpr hclose
          cases nested with
          | zero =>
              -- the outermost brace is closed
              obtain ⟨timestamp, hflush⟩ := processTasks_dynamic (hopens .dynamic)
                (m := ⟨0, 0, bulk, begun, 0, name, collected, []⟩) rfl
              have hlevel : ((0 : ℕ) : ℤ) + 1 - 1 = 0 := rfl
              simp only [TaskManager.addTask, if_neg hopen, if_pos hclose,
                TaskManager.close, hlevel, TaskManager.isDynamicBlockActive, lt_self_iff_false,
                decide_false, Bool.not_false,
                if_true, if_false, hflush, Clocked.feed, Grouping.feed, hmark, List.map_map]
              exact ⟨rfl, @Represents.outside bulk name [] timestamp 0 (fun _ => rfl) hbulk⟩
          | succ nested =>
              have hlevel : ((nested + 1 : ℕ) : ℤ) + 1 - 1 = nested + 1 := by omega
              have hpositive : decide ((0 : ℤ) < nested + 1) = true := decide_eq_true (by omega)
              have hnonneg : ¬((nested : ℤ) + 1 < 0) := by omega
              simp only [TaskManager.addTask, if_neg hopen, if_pos hclose,
                TaskManager.close, hlevel, TaskManager.isDynamicBlockActive, hpositive,
                Bool.not_true, Bool.false_eq_true,
                if_false, if_neg hnonneg, Clocked.feed, Grouping.feed, hmark]
              exact ⟨rfl, .inside⟩
        · have hmark : mark task = .plain := by
            simp [mark, hopen, hclose]
          simp only [TaskManager.addTask, if_neg hopen, if_neg hclose, TaskManager.append,
            TaskManager.isDynamicBlockActive, hactive, if_true, Clocked.feed, Grouping.feed,
            hmark]
          exact ⟨rfl, .inside⟩

/-- The destructor puts out what the grammar has left. -/
theorem destroy_represents (hopens : ∀ path, opens path = true) (h : Represents bulk name m c) :
    (m.destroy opens).1.printed = c.finish.map (printed name) := by
  cases h with
  | @outside pending timestamp begun hempty hlt =>
      have hidle : decide ((0 : ℤ) < 0) = false := rfl
      simp only [TaskManager.destroy, TaskManager.isDynamicBlockActive, hidle, Bool.not_false,
        if_true, Clocked.finish, Grouping.finish, List.map_map]
      rw [processTasks_static hopens rfl hempty]
      rfl
  | @inside nested collected begun =>
      have hactive : decide ((0 : ℤ) < nested + 1) = true := decide_eq_true (by omega)
      simp only [TaskManager.destroy, TaskManager.isDynamicBlockActive, hactive, Bool.not_true,
        Bool.false_eq_true, if_false, Clocked.finish, Grouping.finish]
      rfl

/-- One round of `run` puts out what `add_task` does. -/
theorem round_eq (m : TaskManager) (call : Call) :
    (m.round call).1.printed = (m.addTask call.now call.opens call.line).1.printed ∧
      (m.round call).2 = (m.addTask call.now call.opens call.line).2 := by
  unfold TaskManager.round
  dsimp only
  split
  all_goals exact ⟨rfl, rfl⟩

/-- A run in which every log file opens. -/
def AllOpen (calls : List Call) : Prop :=
  ∀ call ∈ calls, ∀ which path, call.opens which path = true

/-- The commands of a run, with the readings of the clock. -/
def timed (calls : List Call) : List (ℤ × Line) := calls.map fun call => (call.now, call.line)

/-- What one more call prints, and where it leaves the manager. -/
theorem TaskManager.run_concat (m : TaskManager) (calls : List Call) (call : Call) :
    m.run (calls ++ [call]) =
      ((m.run calls).1 ++ ((m.run calls).2.round call).1.printed,
        ((m.run calls).2.round call).2) := by
  simp only [TaskManager.run, List.foldl_append, List.foldl_cons, List.foldl_nil]

/-- Over a whole run the manager prints the blocks of the grammar and stands where it does, as
long as all files open. -/
theorem run_represents (hbulk : 1 ≤ bulk) (name : Line) {calls : List Call}
    (hcalls : AllOpen calls) :
    ((TaskManager.create bulk name).run calls).1 =
        (Clocked.run mark bulk 0 (timed calls)).1.map (printed name) ∧
      Represents bulk name ((TaskManager.create bulk name).run calls).2
        (Clocked.run mark bulk 0 (timed calls)).2 := by
  induction calls using List.reverseRecOn with
  | nil => exact ⟨rfl, represents_create hbulk name⟩
  | append_singleton calls call ih =>
      obtain ⟨hprinted, hstate⟩ :=
        ih fun other hother => hcalls other (List.mem_append_left _ hother)
      have hopens := hcalls call (List.mem_append_right _ (List.mem_singleton_self _))
      obtain ⟨hblocks, hnext⟩ := addTask_represents hbulk hopens hstate call.now call.line
      obtain ⟨hround, hafter⟩ := round_eq ((TaskManager.create bulk name).run calls).2 call
      have htimed : timed (calls ++ [call]) = timed calls ++ [(call.now, call.line)] := by
        simp only [timed, List.map_append, List.map_singleton]
      rw [htimed, Clocked.run_concat, TaskManager.run_concat, hround, hafter, hblocks, hprinted,
        List.map_append]
      exact ⟨rfl, hnext⟩

/-- **The blocks of a life are those of the grammar with a clock.** -/
theorem session_clocked (hbulk : 1 ≤ bulk) (name : Line) {calls : List Call}
    (hcalls : AllOpen calls) (hopens : ∀ path, opens path = true) :
    session bulk name calls opens =
      (clocked mark bulk 0 (timed calls)).map (printed name) := by
  obtain ⟨hprinted, hstate⟩ := run_represents hbulk name hcalls
  rw [clocked, List.map_append, ← hprinted, ← destroy_represents hopens hstate]
  rfl

end Simulation

end Bulk
