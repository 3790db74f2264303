import CppProfessional.Bulk.Flushes

/-!
# The time of a block

A block is to carry the time at which its first command was received.  Both managers keep
a time stamp for each kind of block: that of the static block is set with its first
command, that of the dynamic block with the opening brace in front of it.

* `stamps` — the blocks that the console manager puts out, with their time stamps;
* `pushedStamps` — the blocks that the asynchronous manager pushes, with theirs;
* `stamps_eq`, `pushedStamps_eq` — when the blocks of the grammar began, by these stamps;
* `timestamps_iff` — the stamps are the times of the first commands exactly if every block of
  braces has its first command when the brace is opened, and the clock of the console
  manager does not start at the epoch.
-/

namespace Bulk

open Commands
open Async (Line Block mark OutputTask mark_eq_opens mark_eq_closes)

/-! ### The console manager

`process_tasks` takes its time stamp as the value of a pointer and resets it, so zero
stands for a time that has not been taken.  A clock that reads zero is therefore the
exception in everything below. -/

/-- The blocks that `run` puts out, with their time stamps. -/
def TaskManager.runStamps (m : TaskManager) (calls : List Call) :
    List (ℤ × List Line) × TaskManager :=
  calls.foldl
    (fun (stamps, m) call =>
      (stamps ++ (m.addTaskFlushes call.now call.opens call.line).flatMap
        (Flush.putOut call.opens), (m.round call).2)) ([], m)

/-- The blocks put out in the life of a manager, with their time stamps. -/
def stamps (maxTaskCount : ℤ) (name : Line) (calls : List Call) (opens : Line → Bool) :
    List (ℤ × List Line) :=
  let (stamps, m) := (TaskManager.create maxTaskCount name).runStamps calls
  stamps ++ m.destroyFlushes.flatMap (Flush.putOut fun _ => opens)

section Console

variable {bulk : ℕ} {name : Line} {opens : Block → Line → Bool} {m : TaskManager}
  {c : Clocked Line ℤ}

/-- The time stamps that one more call puts out. -/
theorem TaskManager.runStamps_concat (m : TaskManager) (calls : List Call) (call : Call) :
    m.runStamps (calls ++ [call]) =
      ((m.runStamps calls).1 ++ ((m.runStamps calls).2.addTaskFlushes call.now call.opens
          call.line).flatMap (Flush.putOut call.opens),
        ((m.runStamps calls).2.round call).2) := by
  simp only [TaskManager.runStamps, List.foldl_append, List.foldl_cons, List.foldl_nil]

/-- Looking at the time stamps does not change the run. -/
theorem runStamps_snd (m : TaskManager) (calls : List Call) :
    (m.runStamps calls).2 = (m.run calls).2 := by
  induction calls using List.reverseRecOn with
  | nil => rfl
  | append_singleton calls call ih => rw [m.runStamps_concat, m.run_concat, ih]

/-- A flush whose file opens puts out its block with its time, unless the block is empty. -/
theorem putOut_of_opens (hopens : ∀ which path, opens which path = true) (f : Flush) :
    f.putOut opens = (emit f.block).map (f.manager.timestamp, ·) := by
  unfold Flush.putOut
  split
  · next hempty =>
      rw [List.isEmpty_iff.mp hempty]
      rfl
  · next hne =>
      rw [hopens, emit_of_ne_nil fun hnil => hne (List.isEmpty_iff.mpr hnil)]
      rfl

/-- The call at the end of `add_task`, outside braces. -/
theorem appendFlushes_represents (hopens : ∀ which path, opens which path = true)
    {pending : List Line} {timestamp begun : ℤ} (hlt : pending.length < bulk) (now : ℤ)
    {task : Line} (hmark : mark task ≠ .opens) :
    ((⟨0, pending.length, bulk, timestamp, begun, name, [], pending⟩ :
        TaskManager).appendFlushes now task).flatMap (Flush.putOut opens) =
      ((⟨.outside pending, begun⟩ : Clocked Line ℤ).feed mark bulk 0 now task).1 := by
  have hstatic : (⟨0, pending.length, bulk, timestamp, begun, name, [], pending⟩ :
      TaskManager).emplaceStatic now task =
      ⟨0, pending.length + 1, bulk, timestamp, if begun = 0 then now else begun, name, [],
        pending ++ [task]⟩ := by
    unfold TaskManager.emplaceStatic
    split <;> simp [*]
  have hidle : decide ((0 : ℤ) < 0) = false := rfl
  rw [Clocked.feed_outside hmark]
  simp only [TaskManager.appendFlushes, TaskManager.isDynamicBlockActive, hidle,
    Bool.false_eq_true, if_false, hstatic, tmod_count hlt, List.length_append,
    List.length_singleton]
  by_cases hfull : bulk ≤ pending.length + 1
  · have hcount : (pending.length + 1 : ℤ) ≠ 0 := by omega
    have htime : (⟨0, pending.length + 1, bulk, timestamp, if begun = 0 then now else begun, name,
        [], pending ++ [task]⟩ : TaskManager).timestamp = if begun = 0 then now else begun :=
      if_pos hcount
    rw [if_pos hfull, if_pos hfull, List.flatMap_singleton, putOut_of_opens hopens, htime]
    show (emit (pending ++ [task])).map _ = _
    rw [emit_of_ne_nil (by simp)]
    rfl
  · rw [if_neg hfull, if_neg hfull]
    rfl

/-- **One command.**  The time stamps are those of the clock: each flush is compared with what
the grammar with a clock puts out for the same command. -/
theorem addTaskFlushes_represents (hopens : ∀ which path, opens which path = true)
    (h : Represents bulk name m c) (now : ℤ) (task : Line) :
    (m.addTaskFlushes now opens task).flatMap (Flush.putOut opens) =
      (c.feed mark bulk 0 now task).1 := by
  cases h with
  | @outside pending timestamp begun hempty hlt =>
      have hidle : decide ((0 : ℤ) < 0) = false := rfl
      by_cases hopen : task = ['{']
      · have hmark : mark task = .opens := mark_eq_opens.mpr hopen
        simp only [TaskManager.addTaskFlushes, if_pos hopen, TaskManager.isDynamicBlockActive,
          hidle, Bool.not_false, if_true, List.flatMap_singleton, putOut_of_opens hopens,
          Clocked.feed, Grouping.feed, hmark]
        -- the time stamp is that of the static block if the block is not empty
        cases pending <;> rfl
      · by_cases hclose : task = ['}']
        · have hflushes : (⟨0, pending.length, bulk, timestamp, begun, name, [], pending⟩ :
              TaskManager).addTaskFlushes now opens task =
              (⟨0, pending.length, bulk, timestamp, begun, name, [], pending⟩ :
                TaskManager).closeFlushes ++
              (⟨0, pending.length, bulk, timestamp, begun, name, [], pending⟩ :
                TaskManager).appendFlushes now task := by
            simp only [TaskManager.addTaskFlushes, if_neg hopen, if_pos hclose]
            rfl
          rw [hflushes, List.flatMap_append, appendFlushes_represents hopens hlt now fun hmark =>
            hopen (mark_eq_opens.mp hmark)]
          rfl
        · simp only [TaskManager.addTaskFlushes, if_neg hopen, if_neg hclose]
          exact appendFlushes_represents hopens hlt now fun hmark =>
            hopen (mark_eq_opens.mp hmark)
  | @inside nested collected begun =>
      have hactive : decide ((0 : ℤ) < nested + 1) = true := decide_eq_true (by omega)
      by_cases hopen : task = ['{']
      · have hmark : mark task = .opens := mark_eq_opens.mpr hopen
        simp only [TaskManager.addTaskFlushes, if_pos hopen, TaskManager.isDynamicBlockActive,
          hactive, Bool.not_true, Bool.false_eq_true, if_false, Clocked.feed, Grouping.feed, hmark]
        rfl
      · by_cases hclose : task = ['}']
        · have hmark : mark task = .closes := mark_eq_closes.mpr hclose
          -- the level does not go below zero
          have hlast : ¬((⟨nested + 1, 0, bulk, begun, 0, name, collected, []⟩ :
              TaskManager).close (opens .dynamic)).2.dynamicBlockNestingLevel < 0 := by
            rw [(counters_close _ (opens .dynamic)).1]
            show ¬(nested : ℤ) + 1 - 1 < 0
            omega
          simp only [TaskManager.addTaskFlushes, if_neg hopen, if_pos hclose, if_neg hlast,
            List.append_nil, TaskManager.closeFlushes, TaskManager.isDynamicBlockActive]
          cases nested with
          | zero =>
              simp only [Nat.cast_zero, zero_add, sub_self, lt_self_iff_false, decide_false,
                Bool.not_false, if_true, List.flatMap_singleton, putOut_of_opens hopens,
                Clocked.feed, Grouping.feed, hmark]
              rfl
          | succ nested =>
              have hlevel : ((nested + 1 : ℕ) : ℤ) + 1 - 1 = nested + 1 := by omega
              have hpositive : decide ((0 : ℤ) < nested + 1) = true := decide_eq_true (by omega)
              simp only [hlevel, hpositive, Bool.not_true, Bool.false_eq_true, if_false,
                Clocked.feed, Grouping.feed, hmark]
              rfl
        · have hmark : mark task = .plain := by
            simp [mark, hopen, hclose]
          simp only [TaskManager.addTaskFlushes, if_neg hopen, if_neg hclose,
            TaskManager.appendFlushes, TaskManager.isDynamicBlockActive, hactive, if_true,
            Clocked.feed, Grouping.feed, hmark]
          rfl

/-- The stamps of the calls are the times that the grammar with a clock gives to the blocks. -/
theorem runStamps_represents (hbulk : 1 ≤ bulk) (name : Line) {calls : List Call}
    (hcalls : AllOpen calls) :
    ((TaskManager.create bulk name).runStamps calls).1 =
      (Clocked.run mark bulk 0 (timed calls)).1 := by
  induction calls using List.reverseRecOn with
  | nil => rfl
  | append_singleton calls call ih =>
      have hbefore : AllOpen calls := fun other hother =>
        hcalls other (List.mem_append_left _ hother)
      have hopens := hcalls call (List.mem_append_right _ (List.mem_singleton_self _))
      obtain ⟨-, hstate⟩ := run_represents hbulk name hbefore
      have htimed : timed (calls ++ [call]) = timed calls ++ [(call.now, call.line)] := by
        simp only [timed, List.map_append, List.map_singleton]
      rw [TaskManager.runStamps_concat, htimed, Clocked.run_concat, ih hbefore, runStamps_snd,
        addTaskFlushes_represents hopens hstate]

/-- So are those of the destructor. -/
theorem destroyFlushes_represents (hopens : ∀ which path, opens which path = true)
    (h : Represents bulk name m c) :
    m.destroyFlushes.flatMap (Flush.putOut opens) = c.finish := by
  cases h with
  | @outside pending timestamp begun hempty hlt =>
      have hidle : decide ((0 : ℤ) < 0) = false := rfl
      simp only [TaskManager.destroyFlushes, TaskManager.isDynamicBlockActive, hidle,
        Bool.not_false, if_true, List.flatMap_singleton, putOut_of_opens hopens, Clocked.finish,
        Grouping.finish]
      cases pending <;> rfl
  | @inside nested collected begun =>
      have hactive : decide ((0 : ℤ) < nested + 1) = true := decide_eq_true (by omega)
      simp only [TaskManager.destroyFlushes, TaskManager.isDynamicBlockActive, hactive,
        Bool.not_true, Bool.false_eq_true, if_false, Clocked.finish, Grouping.finish]
      rfl

/-- **The stamps of the console manager** are those of a clock that may be unset. -/
theorem stamps_eq (hbulk : 1 ≤ bulk) (name : Line) {calls : List Call} (hcalls : AllOpen calls)
    {opens : Line → Bool} (hopens : ∀ path, opens path = true) :
    stamps bulk name calls opens =
      (timedBlocks mark bulk (timed calls)).map (TimedBlock.stamp 0) := by
  obtain ⟨-, hstate⟩ := run_represents hbulk name hcalls
  rw [← clocked_timedBlocks, clocked, ← runStamps_represents hbulk name hcalls,
    ← destroyFlushes_represents (fun _ => hopens) hstate, ← runStamps_snd]
  rfl

/-- What is printed are the blocks with these stamps.  It ties the stamps, which the results
are about, to the text that the program writes. -/
theorem session_stamps (maxTaskCount : ℤ) (name : Line) (calls : List Call)
    (opens : Line → Bool) : session maxTaskCount name calls opens =
      (stamps maxTaskCount name calls opens).map (printed name) := by
  have hrun : ((TaskManager.create maxTaskCount name).run calls).1 =
      ((TaskManager.create maxTaskCount name).runStamps calls).1.map (printed name) ∧
        ((TaskManager.create maxTaskCount name).run calls).2.taskManagerName = name := by
    induction calls using List.reverseRecOn with
    | nil => exact ⟨rfl, rfl⟩
    | append_singleton calls call ih =>
        obtain ⟨hprinted, hname⟩ := ih
        obtain ⟨hround, hafter⟩ :=
          round_eq ((TaskManager.create maxTaskCount name).run calls).2 call
        have hadd := addTask_printed ((TaskManager.create maxTaskCount name).run calls).2 call.opens
          call.now call.line
        rw [hname] at hadd
        rw [TaskManager.run_concat, TaskManager.runStamps_concat, runStamps_snd, hround, hafter,
          hprinted, hadd, List.map_append]
        exact ⟨rfl, (name_addTask _ call.opens call.now call.line).trans hname⟩
  obtain ⟨hprinted, hname⟩ := hrun
  have hdestroy :=
    destroy_printed ((TaskManager.create maxTaskCount name).run calls).2 fun _ => opens
  rw [hname] at hdestroy
  rw [stamps, List.map_append, ← hprinted, runStamps_snd, ← hdestroy]
  rfl

end Console

/-! ### The asynchronous manager

The other manager looks at the block and not at the time stamp to see if a block begins,
so a clock that reads zero does it no harm. -/

/-- What is pushed, with its time stamp. -/
def stamped (output : Option OutputTask) : List (ℤ × List Line) :=
  output.toList.map fun task => (task.timestamp, task.commands)

/-- The blocks that `add_task` pushes for the strings of one context, with their time
stamps. -/
def feedStamps (m : Async.TaskManager) (received : List (ℤ × Line)) :
    List (ℤ × List Line) × Async.TaskManager :=
  received.foldl
    (fun (stamps, m) (now, task) =>
      (stamps ++ stamped (m.addTask now task).1, (m.addTask now task).2)) ([], m)

/-- The blocks pushed through `add_task` and `finish`, with their time stamps. -/
def pushedStamps (maxTaskCount : ℕ) (managerId : Line) (received : List (ℤ × Line)) :
    List (ℤ × List Line) :=
  let (stamps, m) := feedStamps (Async.TaskManager.create maxTaskCount managerId) received
  stamps ++ stamped m.finish.1

/-- A manager and a state of the grammar that hold the same commands, where the static
block has the time of its first command and the dynamic block that of its brace. -/
inductive Holds (m : Async.TaskManager) : Timing Line ℤ → Prop
  | outside {pending : List (ℤ × Line)} : m.dynamicBlockNestingLevel = 0 →
      m.dynamicBlockTask = [] → m.staticBlockTask = pending.map Prod.snd →
      (∀ first ∈ pending.head?, m.staticBlockTimestamp = first.1) → Holds m (.outside pending)
  | inside {nested : ℕ} {opened : ℤ} {collected : List (ℤ × Line)} :
      m.dynamicBlockNestingLevel = nested + 1 → m.staticBlockTask = [] →
      m.dynamicBlockTask = collected.map Prod.snd → m.dynamicBlockTimestamp = opened →
      Holds m (.inside nested opened collected)

section Asynchronous

variable {m : Async.TaskManager} {t : Timing Line ℤ}

/-- A block with the time at which it started. -/
def startStamp (block : TimedBlock Line ℤ) : ℤ × List Line := (block.started 0, block.commands)

/-- A block is pushed with the time stamp of its kind. -/
theorem stamped_processTasks (m : Async.TaskManager) (which : Async.Block) :
    stamped (m.processTasks which).1 = (emit (m.block which)).map
      ((if which = .static then m.staticBlockTimestamp else m.dynamicBlockTimestamp), ·) := by
  unfold Async.TaskManager.processTasks
  split
  · next hempty =>
      rw [List.isEmpty_iff.mp hempty]
      rfl
  · next hne =>
      rw [emit_of_ne_nil fun hnil => hne (List.isEmpty_iff.mpr hnil)]
      rfl

/-- The static block is pushed with the time of its first command. -/
theorem stamped_static {pending : List (ℤ × Line)}
    (hstatic : m.staticBlockTask = pending.map Prod.snd)
    (hfirst : ∀ first ∈ pending.head?, m.staticBlockTimestamp = first.1) :
    stamped (m.processTasks .static).1 =
      ((emit pending).map TimedBlock.outside).map startStamp := by
  rw [stamped_processTasks, if_pos rfl, Async.TaskManager.block, hstatic]
  cases pending with
  | nil => rfl
  | cons first rest =>
      rw [hfirst first rfl]
      rfl

/-- The time stamp of the static block after an append. -/
theorem timestamp_emplaceStatic {pending : List (ℤ × Line)}
    (hstatic : m.staticBlockTask = pending.map Prod.snd)
    (hfirst : ∀ first ∈ pending.head?, m.staticBlockTimestamp = first.1) (now : ℤ) (task : Line) :
    ∀ first ∈ (pending ++ [(now, task)]).head?,
      (m.emplaceStatic now task).staticBlockTimestamp = first.1 := by
  intro first hmem
  cases pending with
  | nil =>
      cases hmem
      rw [Async.TaskManager.emplaceStatic, hstatic]
      rfl
  | cons first' rest =>
      cases hmem
      rw [Async.TaskManager.emplaceStatic, hstatic]
      exact hfirst first rfl

/-- A command of the manager follows the grammar: it pushes the blocks with the times at which
they started, and goes on holding the same commands. -/
def Follows (m : Async.TaskManager) (t : Timing Line ℤ) (now : ℤ) (task : Line) : Prop :=
  stamped (m.addTask now task).1 = (t.feed mark m.bulk now task).1.map startStamp ∧
    Holds (m.addTask now task).2 (t.feed mark m.bulk now task).2

/-- Outside braces every line but an opening brace is a command. -/
theorem follows_outside {pending : List (ℤ × Line)} (hlevel : m.dynamicBlockNestingLevel = 0)
    (hdynamic : m.dynamicBlockTask = []) (hstatic : m.staticBlockTask = pending.map Prod.snd)
    (hfirst : ∀ first ∈ pending.head?, m.staticBlockTimestamp = first.1) (now : ℤ) {task : Line}
    (hopen : task ≠ ['{']) : Follows m (.outside pending) now task := by
  have hidle : m.isDynamicBlockActive = false := by
    simp [Async.TaskManager.isDynamicBlockActive, hlevel]
  have hplain : (Timing.outside pending).feed mark m.bulk now task =
      if m.bulk ≤ (pending ++ [(now, task)]).length then
        ([.outside (pending ++ [(now, task)])], .outside [])
      else ([], .outside (pending ++ [(now, task)])) :=
    Timing.feed_outside fun hmark => hopen (mark_eq_opens.mp hmark)
  have hclose : ¬(task = ['}'] ∧ 0 < m.dynamicBlockNestingLevel) := by
    simp [hlevel]
  have hfull : m.maxStaticTaskCount ≤ (pending.map Prod.snd ++ [task]).length ↔
      m.bulk ≤ (pending ++ [(now, task)]).length := by
    simp [Async.TaskManager.bulk]
  have hcommands : (m.emplaceStatic now task).staticBlockTask =
      (pending ++ [(now, task)]).map Prod.snd := by
    rw [Async.static_emplaceStatic, hstatic, List.map_append]
    rfl
  have htime := timestamp_emplaceStatic hstatic hfirst now task
  rw [Follows, hplain]
  simp only [Async.TaskManager.addTask, hopen, hclose, if_false, hidle, Bool.false_eq_true,
    Async.max_emplaceStatic, Async.static_emplaceStatic, hstatic, hfull]
  split
  · refine ⟨?_, .outside (by simp [hlevel]) (by simp [hdynamic]) (by simp) (by simp)⟩
    rw [stamped_static hcommands htime, emit_of_ne_nil (by simp)]
    rfl
  · exact ⟨rfl, .outside (by simp [hlevel]) (by simp [hdynamic]) hcommands htime⟩

/-- A closing brace inside braces. -/
theorem follows_closes {nested : ℕ} {opened : ℤ} {collected : List (ℤ × Line)}
    (hlevel : m.dynamicBlockNestingLevel = nested + 1) (hstatic : m.staticBlockTask = [])
    (hdynamic : m.dynamicBlockTask = collected.map Prod.snd)
    (hopened : m.dynamicBlockTimestamp = opened) (now : ℤ) {task : Line} (hclose : task = ['}']) :
    Follows m (.inside nested opened collected) now task := by
  have hopen : task ≠ ['{'] := by simp [hclose]
  have hmark : mark task = .closes := mark_eq_closes.mpr hclose
  have hpositive : 0 < m.dynamicBlockNestingLevel := by omega
  have hadd : m.addTask now task =
      let m := { m with dynamicBlockNestingLevel := nested }
      if !m.isDynamicBlockActive then m.processTasks .dynamic else (none, m) := by
    rw [Async.TaskManager.addTask, if_neg hopen, if_pos ⟨hclose, hpositive⟩, hlevel,
      Nat.add_sub_cancel]
  rw [Follows, hadd]
  cases nested with
  | zero =>
      simp only [Async.TaskManager.isDynamicBlockActive, lt_self_iff_false, decide_false,
        Bool.not_false, if_true, Timing.feed, hmark]
      refine ⟨?_, .outside (by simp) (by simp) (by simpa using hstatic) (by simp)⟩
      rw [stamped_processTasks]
      show (emit m.dynamicBlockTask).map (m.dynamicBlockTimestamp, ·) = _
      rw [hdynamic, hopened]
      cases collected <;> rfl
  | succ nested =>
      simp only [Async.TaskManager.isDynamicBlockActive, Nat.zero_lt_succ, decide_true,
        Bool.not_true, Bool.false_eq_true, if_false, Timing.feed, hmark]
      exact ⟨rfl, .inside rfl hstatic hdynamic hopened⟩

/-- **One command** has the same effect on the manager and on the blocks with their times,
whether it is a brace or not. -/
theorem addTask_follows (h : Holds m t) (now : ℤ) (task : Line) : Follows m t now task := by
  cases h with
  | @outside pending hlevel hdynamic hstatic hfirst =>
      by_cases hopen : task = ['{']
      · have hidle : m.isDynamicBlockActive = false := by
          simp [Async.TaskManager.isDynamicBlockActive, hlevel]
        have hfeed : (Timing.outside pending).feed mark m.bulk now task =
            ((emit pending).map .outside, .inside 0 now []) := by
          simp only [Timing.feed, mark_eq_opens.mpr hopen]
        rw [Follows, hfeed]
        simp only [Async.TaskManager.addTask, hopen, if_true, hidle, Bool.not_false]
        exact ⟨stamped_static hstatic hfirst, .inside (by simp [hlevel]) (by simp)
          (by simpa using hdynamic) (by simp)⟩
      · exact follows_outside hlevel hdynamic hstatic hfirst now hopen
  | @inside nested opened collected hlevel hstatic hdynamic hopened =>
      have hactive : m.isDynamicBlockActive = true := by
        simp [Async.TaskManager.isDynamicBlockActive, hlevel]
      by_cases hopen : task = ['{']
      · have hfeed : (Timing.inside nested opened collected).feed mark m.bulk now task =
            ([], .inside (nested + 1) opened collected) := by
          simp only [Timing.feed, mark_eq_opens.mpr hopen]
        rw [Follows, hfeed]
        simp only [Async.TaskManager.addTask, hopen, if_true, hactive, Bool.not_true,
          Bool.false_eq_true, if_false]
        exact ⟨rfl, .inside (by simp [hlevel]) hstatic hdynamic hopened⟩
      by_cases hclose : task = ['}']
      · exact follows_closes hlevel hstatic hdynamic hopened now hclose
      · have hmark : mark task = .plain := by
          simp [mark, hopen, hclose]
        rw [Follows]
        simp only [Async.TaskManager.addTask, Timing.feed, hmark, hopen, hclose, false_and,
          if_false, hactive, if_true]
        exact ⟨rfl, .inside hlevel hstatic (by rw [hdynamic, List.map_append]; rfl) hopened⟩

/-- At the end the last block is pushed with the time of its start. -/
theorem finish_holds (h : Holds m t) : stamped m.finish.1 = t.finish.map startStamp := by
  cases h with
  | @outside pending hlevel hdynamic hstatic hfirst =>
      have hidle : m.isDynamicBlockActive = false := by
        simp [Async.TaskManager.isDynamicBlockActive, hlevel]
      simp only [Async.TaskManager.finish, hidle, Bool.not_false, Bool.true_and, Timing.finish]
      split
      · exact stamped_static hstatic hfirst
      · next hempty =>
          have hnil : pending = [] := by simpa [hstatic] using hempty
          rw [hnil]
          rfl
  | inside hlevel hstatic hdynamic hopened =>
      have hactive : m.isDynamicBlockActive = true := by
        simp [Async.TaskManager.isDynamicBlockActive, hlevel]
      simp only [Async.TaskManager.finish, hactive, Bool.not_true, Bool.false_and, Timing.finish]
      rfl

/-- **The stamps of the asynchronous manager** are the times at which the blocks started, by
induction on the lines from the last one. -/
theorem pushedStamps_eq {bulk : ℕ} (hbulk : 1 ≤ bulk) (managerId : Line)
    (received : List (ℤ × Line)) :
    pushedStamps bulk managerId received = (timedBlocks mark bulk received).map startStamp := by
  have hrun : (feedStamps (Async.TaskManager.create bulk managerId) received).1 =
        (Timing.run mark bulk received).1.map startStamp ∧
      Holds (feedStamps (Async.TaskManager.create bulk managerId) received).2
        (Timing.run mark bulk received).2 ∧
      (feedStamps (Async.TaskManager.create bulk managerId) received).2.bulk = bulk := by
    induction received using List.reverseRecOn with
    | nil => exact ⟨rfl, .outside rfl rfl rfl nofun, max_eq_left hbulk⟩
    | append_singleton received call ih =>
        obtain ⟨now, task⟩ := call
        obtain ⟨hstamps, hstate, hmax⟩ := ih
        have hconcat : feedStamps (Async.TaskManager.create bulk managerId)
            (received ++ [(now, task)]) =
            ((feedStamps (Async.TaskManager.create bulk managerId) received).1 ++ stamped
                ((feedStamps (Async.TaskManager.create bulk managerId) received).2.addTask now
                  task).1,
              ((feedStamps (Async.TaskManager.create bulk managerId) received).2.addTask now
                task).2) := by
          simp only [feedStamps, List.foldl_append, List.foldl_cons, List.foldl_nil]
        have hsame := (Async.sameContext_addTask
          (feedStamps (Async.TaskManager.create bulk managerId) received).2 now task).bulk
        obtain ⟨hfed, hnext⟩ := addTask_follows hstate now task
        rw [hmax] at hfed hnext
        rw [hconcat, Timing.run_concat, List.map_append, hstamps, hfed]
        refine ⟨rfl, hnext, ?_⟩
        rw [Async.TaskManager.bulk] at hmax ⊢
        rw [hsame]
        exact hmax
  obtain ⟨hstamps, hstate, -⟩ := hrun
  rw [timedBlocks, List.map_append, ← hstamps, ← finish_holds hstate]
  rfl

end Asynchronous

/-! ### The time of the first command

The two kinds of blocks are asked about apart.  Outside braces the first command sets
the time stamp, inside braces the opening brace has set it before; so it is the second
kind that has to arrive in one moment. -/

/-- **When the time of a block is that of its first command.**  For the console manager: if
every block of braces has its first command when its outermost brace is opened, and no
block outside braces starts at the epoch while its clock goes on.  For the asynchronous
manager the first is enough. -/
theorem timestamps_iff {bulk : ℕ} (hbulk : 1 ≤ bulk) (name managerId : Line) {calls : List Call}
    (hcalls : AllOpen calls) {opens : Line → Bool} (hopens : ∀ path, opens path = true) :
    (Arrivals (stamps bulk name calls opens) (timedBlocks mark bulk (timed calls)) ↔
      Prompt (timedBlocks mark bulk (timed calls)) ∧
        ClockSet 0 (timedBlocks mark bulk (timed calls))) ∧
    (Arrivals (pushedStamps bulk managerId (timed calls)) (timedBlocks mark bulk (timed calls)) ↔
      Prompt (timedBlocks mark bulk (timed calls))) := by
  rw [stamps_eq hbulk name hcalls hopens, pushedStamps_eq hbulk]
  exact ⟨arrivals_stamp_iff, arrivals_started_iff⟩

/-- A block of braces whose first command arrives with its brace, and a command behind it. -/
def promptBraces : List Call :=
  [⟨1000000000, fun _ _ => true, ['{']⟩, ⟨1000000000, fun _ _ => true, ['a']⟩,
    ⟨2000000000, fun _ _ => true, ['b']⟩, ⟨3000000000, fun _ _ => true, ['}']⟩,
    ⟨4000000000, fun _ _ => true, ['c']⟩]

/-- A block of braces whose first command comes with its brace, and a block outside of braces,
are put out with the times of their first commands. -/
theorem timestamps_iff_promptBraces :
    timedBlocks mark 1 (timed promptBraces) =
        [.inside 1000000000 [(1000000000, ['a']), (2000000000, ['b'])],
          .outside [(4000000000, ['c'])]] ∧
      Arrivals (stamps 1 ['m'] promptBraces fun _ => true)
        (timedBlocks mark 1 (timed promptBraces)) ∧
      Arrivals (pushedStamps 1 ['1'] (timed promptBraces))
        (timedBlocks mark 1 (timed promptBraces)) := by
  have hblocks : timedBlocks mark 1 (timed promptBraces) =
      [.inside 1000000000 [(1000000000, ['a']), (2000000000, ['b'])],
        .outside [(4000000000, ['c'])]] := by decide
  have hprompt : Prompt (timedBlocks mark 1 (timed promptBraces)) := by
    intro opened commands hmem first hfirst
    rw [hblocks] at hmem
    simp only [List.mem_cons, List.not_mem_nil, or_false, TimedBlock.inside.injEq,
      reduceCtorEq] at hmem
    obtain ⟨rfl, rfl⟩ := hmem
    cases hfirst
    rfl
  have hset : ClockSet 0 (timedBlocks mark 1 (timed promptBraces)) := by
    intro commands hmem first hfirst hzero
    rw [hblocks] at hmem
    simp only [List.mem_cons, List.not_mem_nil, or_false, TimedBlock.outside.injEq,
      reduceCtorEq, false_or] at hmem
    subst hmem
    cases hfirst
    cases hzero
  have hopen : AllOpen promptBraces := by
    intro call hcall which path
    simp only [promptBraces, List.mem_cons, List.not_mem_nil, or_false] at hcall
    rcases hcall with rfl | rfl | rfl | rfl | rfl <;> rfl
  obtain ⟨hconsole, hasync⟩ :=
    timestamps_iff (Nat.le_refl 1) ['m'] ['1'] hopen fun (_ : Line) => Eq.refl true
  exact ⟨hblocks, hconsole.mpr ⟨hprompt, hset⟩, hasync.mpr hprompt⟩

/-- A block of braces, one line a second. -/
def slowBraces : List Call :=
  [⟨1000000000, fun _ _ => true, ['{']⟩, ⟨2000000000, fun _ _ => true, ['a']⟩,
    ⟨3000000000, fun _ _ => true, ['}']⟩]

/-- The block carries the time of its brace, and its first command came a second later. -/
theorem slowBraces_early :
    AllOpen slowBraces ∧ (slowBraces.map Call.now).Pairwise (· ≤ ·) ∧
      stamps 1 ['m'] slowBraces (fun _ => true) = [(1000000000, [['a']])] ∧
      pushedStamps 1 ['1'] (timed slowBraces) = [(1000000000, [['a']])] ∧
      timedBlocks mark 1 (timed slowBraces) =
        [.inside 1000000000 [(2000000000, ['a'])]] ∧
      ¬Arrivals (stamps 1 ['m'] slowBraces fun _ => true)
        (timedBlocks mark 1 (timed slowBraces)) ∧
      ¬Arrivals (pushedStamps 1 ['1'] (timed slowBraces))
        (timedBlocks mark 1 (timed slowBraces)) := by
  have hstamps : stamps 1 ['m'] slowBraces (fun _ => true) = [(1000000000, [['a']])] := by decide
  have hpushed : pushedStamps 1 ['1'] (timed slowBraces) = [(1000000000, [['a']])] := by decide
  have hblocks : timedBlocks mark 1 (timed slowBraces) =
      [.inside 1000000000 [(2000000000, ['a'])]] := by decide
  have hlate : ¬Arrivals [((1000000000 : ℤ), [['a']])]
      [TimedBlock.inside 1000000000 [(2000000000, ['a'])]] := by
    intro h
    obtain ⟨⟨-, hfirst⟩, -⟩ := List.forall₂_cons.mp h
    exact absurd (hfirst (2000000000, ['a']) rfl) (by decide)
  refine ⟨?_, by decide, hstamps, hpushed, hblocks, ?_, ?_⟩
  · intro call hcall which path
    simp only [slowBraces, List.mem_cons, List.not_mem_nil, or_false] at hcall
    rcases hcall with rfl | rfl | rfl <;> rfl
  · rw [hstamps, hblocks]
    exact hlate
  · rw [hpushed, hblocks]
    exact hlate

end Bulk
