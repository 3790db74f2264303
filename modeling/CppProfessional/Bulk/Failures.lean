import CppProfessional.Bulk.Flushes

/-!
# Log files that cannot be opened

A block whose log file cannot be opened stays where it is, and the commands that follow are
read all the same.  So static commands may wait inside braces, and the commands of a pair
of braces may wait outside; `process_tasks` then picks the time stamp by a count that is
not of the block it is given, and an opening brace finds the dynamic block in use.

* `Account` — what a stream of lines says, whatever becomes of the log files;
  `Account.Owns` are the blocks with the times that are their own;
* `CarefulStep` — neither of the two happens with the next line;
* `Sound` — the members against the account; `addTask_sound` is the step;
* `failures_harmless` — in runs of such steps the count is right and every block is put out
  under its own time, whichever files fail to open;
* `pending_corrupted` — what happens otherwise.
-/

namespace Bulk

open Commands
open Async (Line Block mark mark_eq_opens mark_eq_closes)

/-- What the lines say: how deep the braces are, the commands outside braces with their
times, and the last outermost pair of braces, with the time of its opening brace. -/
structure Account where
  nested : ℕ
  statics : List (ℤ × Line)
  pair : ℤ × List Line
  deriving DecidableEq, Repr

def Account.feed (a : Account) (now : ℤ) (line : Line) : Account :=
  match mark line, a.nested with
  | .opens, 0 => { a with nested := 1, pair := (now, []) }
  | .opens, nested + 1 => { a with nested := nested + 2 }
  | .closes, 0 | .plain, 0 => { a with statics := a.statics ++ [(now, line)] }
  | .closes, nested + 1 => { a with nested := nested }
  | .plain, _ + 1 => { a with pair := (a.pair.1, a.pair.2 ++ [line]) }

/-- The account of the lines of a run. -/
def account (calls : List Call) : Account :=
  calls.foldl (fun a call => a.feed call.now call.line) ⟨0, [], (0, [])⟩

/-- A static block is made of the last commands outside braces and has the time of the
first of them; a dynamic block is the last pair of braces with its time. -/
def Account.Owns (a : Account) : Block → ℤ × List Line → Prop
  | .static, stamp => ∃ commands, commands <:+ a.statics ∧
      stamp = (firstSet 0 commands, commands.map Prod.snd)
  | .dynamic, stamp => stamp = a.pair

/-- The next line opens no pair of braces while the commands of an earlier pair wait, and
does not put out a pair while static commands wait. -/
def CarefulStep (m : TaskManager) (call : Call) : Prop :=
  (call.line = ['{'] → m.dynamicBlockNestingLevel ≤ 0 → m.dynamicBlockTask = []) ∧
  (call.line = ['}'] → m.dynamicBlockNestingLevel ≤ 1 → m.dynamicBlockTask ≠ [] →
    m.staticBlockTask ≠ [] →
      call.opens .dynamic (logPath m.taskManagerName m.staticBlockTimestamp) = false)

instance (m : TaskManager) (call : Call) : Decidable (CarefulStep m call) :=
  inferInstanceAs (Decidable (_ ∧ _))

/-- A run of such steps. -/
def Careful : TaskManager → List Call → Prop
  | _, [] => True
  | m, call :: calls => CarefulStep m call ∧ Careful (m.round call).2 calls

instance decidableCareful : (m : TaskManager) → (calls : List Call) → Decidable (Careful m calls)
  | _, [] => .isTrue trivial
  | m, call :: calls =>
      have := decidableCareful (m.round call).2 calls
      inferInstanceAs (Decidable (_ ∧ _))

/-- The members against what the lines say.  The static block has to be right even inside
braces, where it is empty, since the next line outside of them goes on from there; a dynamic
block is only spoken of while there is one. -/
structure Sound (a : Account) (m : TaskManager) : Prop where
  level : m.dynamicBlockNestingLevel = a.nested
  count : m.taskCount = m.staticBlockTask.length
  static : a.Owns .static (m.staticBlockTimestamp, m.staticBlockTask)
  dynamic : 0 < a.nested ∨ m.dynamicBlockTask ≠ [] →
    a.Owns .dynamic (m.dynamicBlockTimestamp, m.dynamicBlockTask)

section Flushes

variable {a : Account} {m : TaskManager} {which : Block} {stamp : ℤ × List Line}

/-- A call of `process_tasks` that fails leaves everything as it is. -/
theorem processTasks_of_failed (opens : Line → Bool)
    (hfailed : (m.processTasks opens which).1.ret ≠ 0) : (m.processTasks opens which).2 = m := by
  unfold TaskManager.processTasks at *
  split at hfailed
  · exact absurd rfl hfailed
  · next hne =>
      rw [if_neg hne]
      dsimp only at *
      split at hfailed
      · next hclosed => rw [if_pos hclosed]
      · exact absurd rfl hfailed

/-- What is put out is the block, under the time stamp that was picked. -/
theorem of_mem_putOut {opens : Block → Line → Bool} {f : Flush} (h : stamp ∈ f.putOut opens) :
    stamp = (f.manager.timestamp, f.block) ∧ f.block ≠ [] ∧
      opens f.which (logPath f.manager.taskManagerName f.manager.timestamp) = true := by
  unfold Flush.putOut at h
  split at h
  · cases h
  · next hne =>
      split at h
      · cases h
      · next hopen =>
          rw [Bool.not_eq_true, Bool.not_eq_false'] at hopen
          exact ⟨List.mem_singleton.mp h, fun hnil => hne (by rw [hnil]; rfl), hopen⟩

/-- A count that is right picks the time stamp of the static block for its commands. -/
theorem timestamp_of_static (hcount : m.taskCount = m.staticBlockTask.length)
    (hne : m.staticBlockTask ≠ []) : m.timestamp = m.staticBlockTimestamp := by
  refine if_pos ?_
  rw [hcount, Int.natCast_ne_zero]
  exact fun hzero => hne (List.eq_nil_of_length_eq_zero hzero)

/-- Without static commands it picks the other. -/
theorem timestamp_of_no_static (hcount : m.taskCount = m.staticBlockTask.length)
    (hnil : m.staticBlockTask = []) : m.timestamp = m.dynamicBlockTimestamp := by
  refine if_neg ?_
  rw [hcount, hnil]
  exact not_not.mpr rfl

/-- A call with the static block either changes nothing or empties it. -/
theorem processTasks_static_cases (hcount : m.taskCount = m.staticBlockTask.length)
    (opens : Line → Bool) :
    (m.processTasks opens .static).2 = m ∨
      (m.processTasks opens .static).2 =
        { m with staticBlockTask := [], staticBlockTimestamp := 0, taskCount := 0 } := by
  unfold TaskManager.processTasks
  split
  · exact .inl rfl
  · next hne =>
      dsimp only
      split
      · exact .inl rfl
      · right
        have hcounted : m.taskCount ≠ 0 := by
          rw [hcount, Int.natCast_ne_zero]
          exact fun hzero => hne (List.isEmpty_iff.mpr (List.eq_nil_of_length_eq_zero hzero))
        exact if_pos hcounted

/-- A call with the dynamic block either changes nothing or empties it, if it fails while
static commands wait. -/
theorem processTasks_dynamic_cases (hcount : m.taskCount = m.staticBlockTask.length)
    {opens : Line → Bool} (hcareful : m.dynamicBlockTask ≠ [] → m.staticBlockTask ≠ [] →
      opens (logPath m.taskManagerName m.staticBlockTimestamp) = false) :
    (m.processTasks opens .dynamic).2 = m ∨
      (m.processTasks opens .dynamic).2 =
        { m with dynamicBlockTask := [], dynamicBlockTimestamp := 0 } := by
  unfold TaskManager.processTasks
  split
  · exact .inl rfl
  · next hne =>
      dsimp only
      split
      · exact .inl rfl
      · next hopen =>
          right
          have hnil : m.staticBlockTask = [] := by
            by_contra hstatic
            refine hopen ?_
            show (!opens (logPath m.taskManagerName m.timestamp)) = true
            rw [timestamp_of_static hcount hstatic,
              hcareful (fun hnil => hne (List.isEmpty_iff.mpr hnil)) hstatic]
            rfl
          have hzero : m.taskCount = 0 := by rw [hcount, hnil]; rfl
          obtain ⟨level, count, max, dynamicTime, staticTime, id, dynamic, static⟩ := m
          obtain rfl : count = 0 := hzero
          rfl

/-- A static block that is put out. -/
theorem Sound.owns_static (h : Sound a m) {opens : Block → Line → Bool}
    (hstamp : stamp ∈ Flush.putOut opens ⟨m, .static⟩) : a.Owns .static stamp := by
  obtain ⟨rfl, hne, -⟩ := of_mem_putOut hstamp
  have htime := timestamp_of_static h.count hne
  show a.Owns .static (m.timestamp, m.staticBlockTask)
  rw [htime]
  exact h.static

/-- The static block may be put out at any time, whether its file opens or not. -/
theorem Sound.processStatic (h : Sound a m) (opens : Line → Bool) :
    Sound a (m.processTasks opens .static).2 := by
  rcases processTasks_static_cases h.count opens with hsame | hflushed
  · rw [hsame]
    exact h
  · rw [hflushed]
    exact ⟨h.level, rfl, ⟨[], List.nil_suffix, rfl⟩, h.dynamic⟩

/-- The end of `add_task` outside braces: the command is appended, and the first one of a block
brings its time. -/
theorem Sound.emplaceStatic (h : Sound a m) (now : ℤ) (task : Line) :
    Sound { a with statics := a.statics ++ [(now, task)] } (m.emplaceStatic now task) := by
  obtain ⟨commands, ⟨front, hfront⟩, hstamp⟩ := h.static
  obtain ⟨htime, hcommands⟩ := Prod.mk.injEq .. ▸ hstamp
  have htime' : (m.emplaceStatic now task).staticBlockTimestamp =
      firstSet 0 (commands ++ [(now, task)]) := by
    rw [firstSet_concat, ← htime]
    unfold TaskManager.emplaceStatic
    split <;> rfl
  have hcommands' : (m.emplaceStatic now task).staticBlockTask =
      (commands ++ [(now, task)]).map Prod.snd := by
    rw [List.map_append, ← hcommands]
    unfold TaskManager.emplaceStatic
    split <;> rfl
  have hcount : (m.emplaceStatic now task).taskCount = m.taskCount + 1 := by
    unfold TaskManager.emplaceStatic
    split <;> rfl
  have hother : (m.emplaceStatic now task).dynamicBlockNestingLevel = m.dynamicBlockNestingLevel ∧
      (m.emplaceStatic now task).dynamicBlockTimestamp = m.dynamicBlockTimestamp ∧
      (m.emplaceStatic now task).dynamicBlockTask = m.dynamicBlockTask := by
    unfold TaskManager.emplaceStatic
    split <;> exact ⟨rfl, rfl, rfl⟩
  obtain ⟨hlevel, hdynamicTime, hdynamic⟩ := hother
  refine ⟨hlevel.trans h.level, ?_, ⟨commands ++ [(now, task)], ?_, ?_⟩, ?_⟩
  · rw [hcount, h.count, hcommands', hcommands]
    simp
  · exact ⟨front, by rw [← List.append_assoc, hfront]⟩
  · rw [htime', hcommands']
  · rw [hdynamic, hdynamicTime]
    exact h.dynamic

/-- A command outside braces. -/
theorem Sound.append (h : Sound a m) (houtside : a.nested = 0) (ret now : ℤ)
    (opens : Block → Line → Bool) (task : Line) :
    let a := { a with statics := a.statics ++ [(now, task)] }
    Sound a (m.append ret now (opens .static) task).2 ∧
      ∀ f ∈ m.appendFlushes now task, ∀ stamp ∈ f.putOut opens, a.Owns f.which stamp := by
  intro a
  have hidle : m.isDynamicBlockActive = false := by
    simp [TaskManager.isDynamicBlockActive, h.level, houtside]
  have hadded := h.emplaceStatic now task
  unfold TaskManager.append TaskManager.appendFlushes
  simp only [hidle, Bool.false_eq_true, if_false]
  split
  · refine ⟨hadded.processStatic (opens .static), fun f hf stamp hstamp => ?_⟩
    obtain rfl := List.mem_singleton.mp hf
    exact hadded.owns_static hstamp
  · exact ⟨hadded, fun f hf => absurd hf List.not_mem_nil⟩

/-- A closing brace, as far as the level and the dynamic block. -/
theorem Sound.close_cases (h : Sound a m) {opens : Line → Bool}
    (hcareful : m.dynamicBlockNestingLevel ≤ 1 → m.dynamicBlockTask ≠ [] →
      m.staticBlockTask ≠ [] →
        opens (logPath m.taskManagerName m.staticBlockTimestamp) = false) :
    (m.close opens).2 =
        { m with dynamicBlockNestingLevel := m.dynamicBlockNestingLevel - 1 } ∨
      m.dynamicBlockNestingLevel ≤ 1 ∧ (m.close opens).2 =
        { m with
          dynamicBlockNestingLevel := m.dynamicBlockNestingLevel - 1
          dynamicBlockTask := []
          dynamicBlockTimestamp := 0 } := by
  unfold TaskManager.close TaskManager.isDynamicBlockActive
  dsimp only
  split
  · next hidle =>
      have hlevel : m.dynamicBlockNestingLevel ≤ 1 := by
        simpa using hidle
      rcases processTasks_dynamic_cases
          (m := { m with dynamicBlockNestingLevel := m.dynamicBlockNestingLevel - 1 })
          h.count (hcareful hlevel) with hsame | hflushed
      · exact .inl hsame
      · exact .inr ⟨hlevel, hflushed⟩
  · exact .inl rfl

/-- What a closing brace puts out is the last pair, provided that a static block which is still
there is not put out with it. -/
theorem Sound.owns_dynamic (h : Sound a m) {opens : Block → Line → Bool}
    (hcareful : m.dynamicBlockNestingLevel ≤ 1 → m.dynamicBlockTask ≠ [] →
      m.staticBlockTask ≠ [] →
        opens .dynamic (logPath m.taskManagerName m.staticBlockTimestamp) = false) :
    ∀ f ∈ m.closeFlushes, ∀ stamp ∈ f.putOut opens, f.which = .dynamic ∧ stamp = a.pair := by
  intro f hf stamp hstamp
  unfold TaskManager.closeFlushes TaskManager.isDynamicBlockActive at hf
  dsimp only at hf
  split at hf
  · next hidle =>
      have hlevel : m.dynamicBlockNestingLevel ≤ 1 := by
        simpa using hidle
      obtain rfl := List.mem_singleton.mp hf
      obtain ⟨rfl, hne, hopen⟩ := of_mem_putOut hstamp
      have hnil : m.staticBlockTask = [] := by
        by_contra hstatic
        have htime := timestamp_of_static h.count hstatic
        have hclosed := hcareful hlevel hne hstatic
        rw [← htime] at hclosed
        exact Bool.false_ne_true (hclosed.symm.trans hopen)
      have htime := timestamp_of_no_static h.count hnil
      refine ⟨rfl, ?_⟩
      show (m.timestamp, m.dynamicBlockTask) = a.pair
      rw [htime]
      exact h.dynamic (.inr hne)
  · cases hf

end Flushes

/-! ### One line

A line is an outermost opening brace, an inner one, a closing brace of one of three
kinds, or a command inside or outside braces.  Each has its lemma, and a careful step is
needed in two of them only: where a pair begins and where one is put out. -/

section AddTask

variable {a : Account} {m : TaskManager} {nested : ℕ} {statics : List (ℤ × Line)}
  {pair : ℤ × List Line} {now : ℤ} {opens : Block → Line → Bool} {line : Line}

/-- After the line the members are again as the lines say, and what was put out on the way
had its own time. -/
def StaysSound (a : Account) (m : TaskManager) (call : Call) : Prop :=
  Sound (a.feed call.now call.line) (m.addTask call.now call.opens call.line).2 ∧
    ∀ f ∈ m.addTaskFlushes call.now call.opens call.line, ∀ stamp ∈ f.putOut call.opens,
      (a.feed call.now call.line).Owns f.which stamp

/-- An outermost opening brace: the static block is put out if its log file opens, and stays
otherwise; the dynamic block begins anew. -/
theorem Sound.opens_first (h : Sound ⟨0, statics, pair⟩ m) (hopen : line = ['{'])
    (hdynamic : m.dynamicBlockTask = []) :
    StaysSound ⟨0, statics, pair⟩ m ⟨now, opens, line⟩ := by
  have hlevel : m.dynamicBlockNestingLevel = (0 : ℕ) := h.level
  have hidle : m.isDynamicBlockActive = false := by
    simp [TaskManager.isDynamicBlockActive, hlevel]
  -- the time of the pair is set before the static block is put out
  have hopened : Sound ⟨0, statics, (now, [])⟩ { m with dynamicBlockTimestamp := now } :=
    ⟨h.level, h.count, h.static, fun _ => Prod.ext rfl hdynamic⟩
  have hfeed : (⟨0, statics, pair⟩ : Account).feed now line = ⟨1, statics, (now, [])⟩ := by
    simp only [Account.feed, mark_eq_opens.mpr hopen]
  unfold StaysSound
  dsimp only
  rw [hfeed, TaskManager.addTask, TaskManager.addTaskFlushes, if_pos hopen, if_pos hopen]
  simp only [hidle, Bool.not_false, if_true]
  constructor
  · rcases processTasks_static_cases (m := { m with dynamicBlockTimestamp := now })
        h.count (opens .static) with hsame | hflushed
    · rw [hsame]
      exact ⟨congrArg (· + 1) hlevel, h.count, h.static, fun _ => Prod.ext rfl hdynamic⟩
    · rw [hflushed]
      exact ⟨congrArg (· + 1) hlevel, rfl, ⟨[], List.nil_suffix, rfl⟩,
        fun _ => Prod.ext rfl hdynamic⟩
  · intro f hf stamp hstamp
    obtain rfl := List.mem_singleton.mp hf
    exact hopened.owns_static hstamp

/-- An opening brace inside braces. -/
theorem Sound.opens_inner (h : Sound ⟨nested + 1, statics, pair⟩ m) (hopen : line = ['{']) :
    StaysSound ⟨nested + 1, statics, pair⟩ m ⟨now, opens, line⟩ := by
  have hlevel : m.dynamicBlockNestingLevel = (nested + 1 : ℕ) := h.level
  have hactive : m.isDynamicBlockActive = true := decide_eq_true (by omega)
  have hfeed : (⟨nested + 1, statics, pair⟩ : Account).feed now line =
      ⟨nested + 2, statics, pair⟩ := by
    simp only [Account.feed, mark_eq_opens.mpr hopen]
  unfold StaysSound
  dsimp only
  rw [hfeed, TaskManager.addTask, TaskManager.addTaskFlushes, if_pos hopen, if_pos hopen]
  simp only [hactive, Bool.not_true, Bool.false_eq_true, if_false]
  refine ⟨⟨?_, h.count, h.static, fun _ => h.dynamic (.inl (Nat.succ_pos _))⟩,
    fun f hf => absurd hf List.not_mem_nil⟩
  show m.dynamicBlockNestingLevel + 1 = ((nested + 2 : ℕ) : ℤ)
  omega

/-- A brace that closes nothing is a command of the static block; the level, which has been
counted down before, is put back to zero. -/
theorem Sound.closes_nothing (h : Sound ⟨0, statics, pair⟩ m) (hclose : line = ['}'])
    (hcareful : m.dynamicBlockNestingLevel ≤ 1 → m.dynamicBlockTask ≠ [] →
      m.staticBlockTask ≠ [] →
        opens .dynamic (logPath m.taskManagerName m.staticBlockTimestamp) = false) :
    StaysSound ⟨0, statics, pair⟩ m ⟨now, opens, line⟩ := by
  have hopen : line ≠ ['{'] := by simp [hclose]
  have hrepaired : Sound ⟨0, statics, pair⟩
      { (m.close (opens .dynamic)).2 with dynamicBlockNestingLevel := 0 } := by
    rcases h.close_cases hcareful with hsame | ⟨-, hflushed⟩
    · rw [hsame]
      exact ⟨rfl, h.count, h.static, h.dynamic⟩
    · rw [hflushed]
      refine ⟨rfl, h.count, h.static, fun hany => ?_⟩
      rcases hany with hpos | hne
      · exact absurd hpos (lt_irrefl 0)
      · exact absurd rfl hne
  have hnegative : (m.close (opens .dynamic)).2.dynamicBlockNestingLevel < 0 := by
    rw [(counters_close m (opens .dynamic)).1, h.level]
    exact Int.negSucc_lt_zero 0
  have hfeed : (⟨0, statics, pair⟩ : Account).feed now line =
      ⟨0, statics ++ [(now, line)], pair⟩ := by
    simp only [Account.feed, mark_eq_closes.mpr hclose]
  unfold StaysSound
  dsimp only
  rw [hfeed, TaskManager.addTask, TaskManager.addTaskFlushes, if_neg hopen, if_neg hopen,
    if_pos hclose, if_pos hclose]
  dsimp only
  rw [if_pos hnegative, if_pos hnegative]
  obtain ⟨hsound, howns⟩ := hrepaired.append rfl (m.close (opens .dynamic)).1.ret now opens line
  refine ⟨hsound, fun f hf stamp hstamp => ?_⟩
  rcases List.mem_append.mp hf with hclosed | hlast
  · obtain ⟨hwhich, rfl⟩ := h.owns_dynamic hcareful f hclosed stamp hstamp
    rw [hwhich]
    exact rfl
  · exact howns f hlast stamp hstamp

/-- A brace that closes another: at the last level the block is put out, at every other one
nothing happens. -/
theorem Sound.closes (h : Sound ⟨nested + 1, statics, pair⟩ m) (hclose : line = ['}'])
    (hcareful : m.dynamicBlockNestingLevel ≤ 1 → m.dynamicBlockTask ≠ [] →
      m.staticBlockTask ≠ [] →
        opens .dynamic (logPath m.taskManagerName m.staticBlockTimestamp) = false) :
    StaysSound ⟨nested + 1, statics, pair⟩ m ⟨now, opens, line⟩ := by
  have hopen : line ≠ ['{'] := by simp [hclose]
  have hlevel : m.dynamicBlockNestingLevel = (nested + 1 : ℕ) := h.level
  have hlower : m.dynamicBlockNestingLevel - 1 = nested := by omega
  have hnonnegative : ¬(m.close (opens .dynamic)).2.dynamicBlockNestingLevel < 0 := by
    rw [(counters_close m (opens .dynamic)).1, hlevel]
    omega
  have hfeed : (⟨nested + 1, statics, pair⟩ : Account).feed now line =
      ⟨nested, statics, pair⟩ := by
    simp only [Account.feed, mark_eq_closes.mpr hclose]
  unfold StaysSound
  dsimp only
  rw [hfeed, TaskManager.addTask, TaskManager.addTaskFlushes, if_neg hopen, if_neg hopen,
    if_pos hclose, if_pos hclose]
  dsimp only
  rw [if_neg hnonnegative, if_neg hnonnegative, List.append_nil]
  constructor
  · rcases h.close_cases hcareful with hsame | ⟨hone, hflushed⟩
    · rw [hsame]
      exact ⟨hlower, h.count, h.static, fun _ => h.dynamic (.inl (Nat.succ_pos _))⟩
    · rw [hflushed]
      refine ⟨hlower, h.count, h.static, fun hany => ?_⟩
      rcases hany with hpos | hne
      · have hdeep : 0 < nested := hpos
        omega
      · exact absurd rfl hne
  · intro f hf stamp hstamp
    obtain ⟨hwhich, rfl⟩ := h.owns_dynamic hcareful f hf stamp hstamp
    rw [hwhich]
    exact rfl

/-- A command outside braces. -/
theorem Sound.plain_outside (h : Sound ⟨0, statics, pair⟩ m) (hopen : line ≠ ['{'])
    (hclose : line ≠ ['}']) : StaysSound ⟨0, statics, pair⟩ m ⟨now, opens, line⟩ := by
  have hmark : mark line = .plain := by
    simp [mark, hopen, hclose]
  have hfeed : (⟨0, statics, pair⟩ : Account).feed now line =
      ⟨0, statics ++ [(now, line)], pair⟩ := by
    simp only [Account.feed, hmark]
  unfold StaysSound
  dsimp only
  rw [TaskManager.addTask, TaskManager.addTaskFlushes, if_neg hopen, if_neg hopen,
    if_neg hclose, if_neg hclose, hfeed]
  exact h.append rfl 0 now opens line

/-- A command inside braces. -/
theorem Sound.plain_inside (h : Sound ⟨nested + 1, statics, pair⟩ m) (hopen : line ≠ ['{'])
    (hclose : line ≠ ['}']) : StaysSound ⟨nested + 1, statics, pair⟩ m ⟨now, opens, line⟩ := by
  have hmark : mark line = .plain := by
    simp [mark, hopen, hclose]
  have hlevel : m.dynamicBlockNestingLevel = (nested + 1 : ℕ) := h.level
  have hactive : m.isDynamicBlockActive = true := decide_eq_true (by omega)
  have hfeed : (⟨nested + 1, statics, pair⟩ : Account).feed now line =
      ⟨nested + 1, statics, (pair.1, pair.2 ++ [line])⟩ := by
    simp only [Account.feed, hmark]
  have hcollected : (m.dynamicBlockTimestamp, m.dynamicBlockTask) = pair :=
    h.dynamic (.inl (Nat.succ_pos _))
  unfold StaysSound
  dsimp only
  rw [TaskManager.addTask, TaskManager.addTaskFlushes, if_neg hopen, if_neg hopen,
    if_neg hclose, if_neg hclose, hfeed, TaskManager.append, TaskManager.appendFlushes]
  simp only [hactive, if_true]
  refine ⟨⟨h.level, h.count, h.static, fun _ => ?_⟩, fun f hf => absurd hf List.not_mem_nil⟩
  show (m.dynamicBlockTimestamp, m.dynamicBlockTask ++ [line]) = _
  rw [← hcollected]

/-- **One line.**  A careful step keeps the members sound. -/
theorem addTask_sound (h : Sound a m) {call : Call} (hcareful : CarefulStep m call) :
    StaysSound a m call := by
  obtain ⟨now, opens, line⟩ := call
  obtain ⟨hopening, hclosing⟩ := hcareful
  obtain ⟨nested, statics, pair⟩ := a
  by_cases hopen : line = ['{']
  · cases nested with
    | zero => exact h.opens_first hopen (hopening hopen (le_of_eq h.level))
    | succ nested => exact h.opens_inner hopen
  · by_cases hclose : line = ['}']
    · cases nested with
      | zero => exact h.closes_nothing hclose (hclosing hclose)
      | succ nested => exact h.closes hclose (hclosing hclose)
    · cases nested with
      | zero => exact h.plain_outside hopen hclose
      | succ nested => exact h.plain_inside hopen hclose

end AddTask

/-! ### A run

Careful runs are cut and joined like runs.  `account` is a function of the lines alone,
so what a run is compared with does not depend on which files failed. -/

section Run

variable {m : TaskManager}

theorem account_concat (calls : List Call) (call : Call) :
    account (calls ++ [call]) = (account calls).feed call.now call.line := by
  simp only [account, List.foldl_append, List.foldl_cons, List.foldl_nil]

/-- The first call of a run, and the rest of it. -/
theorem TaskManager.run_cons_snd (m : TaskManager) (call : Call) (calls : List Call) :
    (m.run (call :: calls)).2 = ((m.round call).2.run calls).2 := by
  induction calls using List.reverseRecOn with
  | nil => rfl
  | append_singleton calls last ih =>
      rw [← List.cons_append, m.run_concat, ih, TaskManager.run_concat]

/-- A run is careful if its parts are, the second one from where the first has left the
manager. -/
theorem careful_append {front back : List Call} :
    Careful m (front ++ back) ↔ Careful m front ∧ Careful (m.run front).2 back := by
  induction front generalizing m with
  | nil => exact (iff_of_eq (true_and (Careful m back))).symm
  | cons call front ih =>
      rw [List.cons_append, Careful, Careful, ih, m.run_cons_snd, and_assoc]

theorem sound_create (maxTaskCount : ℤ) (name : Line) :
    Sound (account []) (TaskManager.create maxTaskCount name) :=
  ⟨rfl, rfl, ⟨[], List.nil_suffix, rfl⟩, fun _ => rfl⟩

/-- After every careful run the members are as the lines say, by induction on the run. -/
theorem sound_run {maxTaskCount : ℤ} {name : Line} {calls : List Call}
    (hcareful : Careful (TaskManager.create maxTaskCount name) calls) :
    Sound (account calls) ((TaskManager.create maxTaskCount name).run calls).2 := by
  induction calls using List.reverseRecOn with
  | nil => exact sound_create maxTaskCount name
  | append_singleton calls call ih =>
      obtain ⟨hbefore, hstep, -⟩ := careful_append.mp hcareful
      rw [TaskManager.run_concat, account_concat, (round_eq _ call).2]
      exact (addTask_sound (ih hbefore) hstep).1

/-- A failed log file leaves no trace: between any two lines the count is that of the static
commands, and each block is put out under its own time and with the commands of one pair of
braces. -/
structure Uncorrupted (maxTaskCount : ℤ) (name : Line) (calls : List Call) : Prop where
  failed : ∀ (m : TaskManager) (opens : Line → Bool) (which : Block),
    (m.processTasks opens which).1.ret ≠ 0 → (m.processTasks opens which).2 = m
  count : ∀ front, front <+: calls →
    ((TaskManager.create maxTaskCount name).run front).2.taskCount =
      ((TaskManager.create maxTaskCount name).run front).2.staticBlockTask.length
  line : ∀ front call, front ++ [call] <+: calls →
    ∀ f ∈ ((TaskManager.create maxTaskCount name).run front).2.addTaskFlushes
      call.now call.opens call.line, ∀ stamp ∈ f.putOut call.opens,
        (account (front ++ [call])).Owns f.which stamp
  finish : ∀ front, front <+: calls → ∀ opens,
    ∀ f ∈ ((TaskManager.create maxTaskCount name).run front).2.destroyFlushes,
      ∀ stamp ∈ f.putOut opens, (account front).Owns f.which stamp

/-- **Failures do no harm in careful runs**, whichever calls of `process_tasks` fail. -/
theorem failures_harmless (maxTaskCount : ℤ) (name : Line) {calls : List Call}
    (hcareful : Careful (TaskManager.create maxTaskCount name) calls) :
    Uncorrupted maxTaskCount name calls := by
  have hfront {front : List Call} (h : front <+: calls) :
      Careful (TaskManager.create maxTaskCount name) front := by
    obtain ⟨back, rfl⟩ := h
    exact (careful_append.mp hcareful).1
  refine ⟨fun m opens which => processTasks_of_failed opens, fun front h =>
    (sound_run (hfront h)).count, fun front call h => ?_, fun front h opens f hf stamp hstamp => ?_⟩
  · obtain ⟨hbefore, hstep, -⟩ := careful_append.mp (hfront h)
    rw [account_concat]
    exact (addTask_sound (sound_run hbefore) hstep).2
  · unfold TaskManager.destroyFlushes at hf
    split at hf
    · obtain rfl := List.mem_singleton.mp hf
      exact (sound_run (hfront h)).owns_static hstamp
    · cases hf

/-- A static command is kept by a failure, and put out with the next one. -/
def keptCommand : List Call :=
  [⟨1000000000, fun _ _ => true, ['a']⟩, ⟨2000000000, fun _ _ => false, ['{']⟩,
    ⟨3000000000, fun _ _ => true, ['}']⟩, ⟨4000000000, fun _ _ => true, ['b']⟩]

/-- A file that does not open, with the commands of its block kept for the next one. -/
theorem failures_harmless_keptCommand :
    Uncorrupted 2 ['m'] keptCommand ∧
      ((TaskManager.create 2 ['m']).run keptCommand).1 =
        [⟨['m', '1', '.', 'l', 'o', 'g'], ['m'], [['a'], ['b']]⟩] :=
  ⟨failures_harmless 2 ['m'] (by decide), by decide⟩

/-- A static command waits inside braces, whose own command is put out. -/
def pendingStatic : List Call :=
  [⟨1000000000, fun _ _ => true, ['a']⟩, ⟨2000000000, fun _ _ => false, ['{']⟩,
    ⟨3000000000, fun _ _ => true, ['b']⟩, ⟨4000000000, fun _ _ => true, ['}']⟩]

/-- The commands of a pair wait outside braces, and another pair is opened. -/
def pendingDynamic : List Call :=
  [⟨1000000000, fun _ _ => true, ['{']⟩, ⟨2000000000, fun _ _ => true, ['a']⟩,
    ⟨3000000000, fun _ _ => false, ['}']⟩, ⟨4000000000, fun _ _ => true, ['{']⟩,
    ⟨5000000000, fun _ _ => true, ['b']⟩, ⟨6000000000, fun _ _ => true, ['}']⟩]

/-- **A failure corrupts the manager.**  The pair that was opened in second 2 goes to the
file of second 1, and the static command that waits is no longer counted; and two pairs are
put out as one block. -/
theorem pending_corrupted :
    ((TaskManager.create 3 ['m']).run pendingStatic).1 =
        [⟨['m', '1', '.', 'l', 'o', 'g'], ['m'], [['b']]⟩] ∧
      ((TaskManager.create 3 ['m']).run pendingStatic).2.taskCount = 0 ∧
      ((TaskManager.create 3 ['m']).run pendingStatic).2.staticBlockTask = [['a']] ∧
      ¬Uncorrupted 3 ['m'] pendingStatic ∧
      ((TaskManager.create 3 ['m']).run pendingDynamic).1 =
        [⟨['m', '4', '.', 'l', 'o', 'g'], ['m'], [['a'], ['b']]⟩] ∧
      ¬Uncorrupted 3 ['m'] pendingDynamic := by
  refine ⟨by decide, by decide, by decide, fun h => ?_, by decide, fun h => ?_⟩
  · exact absurd (h.count pendingStatic (List.prefix_refl _)) (by decide)
  · -- the last brace puts out the commands of both pairs
    have howns : ((4000000000 : ℤ), [['a'], ['b']]) = (4000000000, [['b']]) :=
      h.line (pendingDynamic.take 5) ⟨6000000000, fun _ _ => true, ['}']⟩ (List.prefix_refl _)
        ⟨⟨0, 0, 3, 4000000000, 0, ['m'], [['a'], ['b']], []⟩, .dynamic⟩ (by decide)
        (4000000000, [['a'], ['b']]) (by decide)
    exact absurd howns (by decide)

end Run

end Bulk
