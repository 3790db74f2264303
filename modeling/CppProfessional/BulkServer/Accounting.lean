import CppProfessional.Async.Ownership
import CppProfessional.BulkServer.Books
import CppProfessional.BulkServer.Library

/-!
# No command is lost

For any number of connections and any interleaving of their lines, `accounted`
says where every command is in every reachable state of the bulk server's library,
and in which order.

What was received is read off the calls (`sentLines`); the nesting level of a
command is the number of opening braces minus the number of closing ones that its
connection sent before it (`balance`), and `arrivals` pairs the two.  The blocks
are the ones the steps put out.
-/

namespace BulkServer

open Transition Commands
open Async (OutputTask Line Block Handle toText)

/-! ### What was received

What is accounted for is read off the calls and not off the state: the lines in the
data, with the id of their connection, and for each line the depth of the braces of this
connection before it.  A command is outside braces if that depth is zero or less. -/

/-- What a line does to the nesting level. -/
def delta (command : Line) : ℤ := if command = ['{'] then 1 else if command = ['}'] then -1 else 0

/-- The nesting level of connection `id` after the given lines of all connections. -/
def balance (id : Line) (lines : List (Line × Line)) : ℤ :=
  ((lines.filter fun x => x.1 = id).map fun x => delta x.2).sum

/-- The command in a line, if there is one, after the lines `seen`. -/
def arrival (seen : List (Line × Line)) (x : Line × Line) : List Arrival :=
  if x.2 = [] ∨ x.2 = ['{'] ∨ x.2 = ['}'] then [] else [⟨x.1, balance x.1 seen, x.2⟩]

/-- The commands in the lines that follow the lines `seen`. -/
def arrivalsAfter (seen : List (Line × Line)) : List (Line × Line) → List Arrival
  | [] => []
  | x :: lines => arrival seen x ++ arrivalsAfter (seen ++ [x]) lines

/-- The commands in all lines. -/
def arrivals (lines : List (Line × Line)) : List Arrival := arrivalsAfter [] lines

/-- The commands outside braces. -/
def staticArrivals (lines : List (Line × Line)) : List Line :=
  ((arrivals lines).filter fun a => a.level ≤ 0).map Arrival.command

/-- The lines in the data of the calls of `receive`, with the id of their connection. -/
def sentLines (trace : List (Event × Effect)) : List (Line × Line) :=
  trace.flatMap fun
    | (.receive _ data, .accepted id) => (getlines '\n' data).map fun line => (id, line)
    | _ => []

/-- The line a step processed. -/
def Effect.lines : Effect → List (Line × Line)
  | .processed id command _ => [(id, command)]
  | .silent | .connected _ | .accepted _ | .disconnected _ _ => []

/-- The block a step put out. -/
def Effect.outputs : Effect → List (Block × OutputTask)
  | .processed _ _ output | .disconnected _ output => output.toList
  | .silent | .connected _ | .accepted _ => []

/-- The dynamic block a step threw away. -/
def Effect.discards : Effect → List (Line × List Line)
  | .disconnected discarded _ => discarded.toList
  | .silent | .connected _ | .accepted _ | .processed _ _ _ => []

/-- The id a step gave out. -/
def Effect.ids : Effect → List Line
  | .connected id => [id]
  | .silent | .accepted _ | .processed _ _ _ | .disconnected _ _ => []

/-- The lines the `receive` in progress has still to process. -/
def Library.inProgress (s : Library) : List (Line × Line) :=
  match s.receiving with
  | none => []
  | some (handle, lines) =>
      (s.contexts.lookup handle).elim [] fun context => lines.map fun line => (context.id, line)

/-- The static block of the shared manager. -/
def Library.pending (s : Library) : List Line :=
  s.sharedTaskManager.elim [] TaskManager.staticBlockTask

/-- The commands of the static blocks. -/
def staticCommands (blocks : List (Block × OutputTask)) : List Line :=
  (blocks.filter fun block => block.1 = .static).flatMap fun block => block.2.commands

/-- One more line arrives behind the others. -/
theorem arrivalsAfter_concat (seen lines : List (Line × Line)) (x : Line × Line) :
    arrivalsAfter seen (lines ++ [x]) = arrivalsAfter seen lines ++ arrival (seen ++ lines) x := by
  induction lines generalizing seen with
  | nil => simp [arrivalsAfter]
  | cons y lines ih =>
      rw [List.cons_append, arrivalsAfter, ih, arrivalsAfter, List.append_assoc,
        List.append_assoc, List.singleton_append]

theorem arrivals_concat (lines : List (Line × Line)) (x : Line × Line) :
    arrivals (lines ++ [x]) = arrivals lines ++ arrival lines x :=
  arrivalsAfter_concat [] lines x

/-- A line counts for the connection that has sent it, and for no other. -/
theorem balance_concat (id : Line) (lines : List (Line × Line)) (x : Line × Line) :
    balance id (lines ++ [x]) = balance id lines + if x.1 = id then delta x.2 else 0 := by
  unfold balance
  rw [List.filter_append, List.map_append, List.sum_append]
  by_cases hid : x.1 = id <;> simp [hid]

/-- A connection without lines. -/
theorem balance_eq_zero {id : Line} {lines : List (Line × Line)}
    (h : ∀ x ∈ lines, x.1 ≠ id) : balance id lines = 0 := by
  have hnone : lines.filter (fun x => x.1 = id) = [] := by
    rw [List.filter_eq_nil_iff]
    intro x hx
    simpa using h x hx
  rw [balance, hnone]
  rfl

/-- A line that is no brace and not empty arrives as a command, at the depth of the braces
before it. -/
theorem arrival_of_command {seen : List (Line × Line)} {id command : Line} (hnil : command ≠ [])
    (hopen : command ≠ ['{']) (hclose : command ≠ ['}']) :
    arrival seen (id, command) = [⟨id, balance id seen, command⟩] := by
  simp [arrival, hnil, hopen, hclose]

theorem staticCommands_append (blocks blocks' : List (Block × OutputTask)) :
    staticCommands (blocks ++ blocks') = staticCommands blocks ++ staticCommands blocks' := by
  simp [staticCommands]

/-- Putting out the static block does not change the static commands. -/
theorem PutsOut.staticCommands {id : Line} {block : List Line}
    {output : Option (Block × OutputTask)} (h : PutsOut .static id block output) :
    staticCommands output.toList = block := by
  cases h with
  | nothing hnil => rw [hnil]; rfl
  | block timestamp _ => simp [BulkServer.staticCommands]

/-- A dynamic block has no static commands. -/
theorem PutsOut.staticCommands_dynamic {id : Line} {block : List Line}
    {output : Option (Block × OutputTask)} (h : PutsOut .dynamic id block output) :
    BulkServer.staticCommands output.toList = [] := by
  cases h <;> rfl

/-! ### One command

Each lemma follows one member of the accounts through a single line.  The branches of
`add_task` come from its inversion, so a change of the code concerns the inversion and
at most the lemma about the member in question. -/

section Command

variable {m m' : TaskManager} {context : ConnectionContext} {command : Line} {r : Processed}

theorem CommandMove.manager (h : CommandMove m context command r) :
    ∃ m', r.manager = some m' := by
  cases h <;> exact ⟨_, rfl⟩

theorem CommandMove.id_eq (h : CommandMove m context command r) : r.context.id = context.id := by
  cases h <;> rfl

/-- A dynamic block is put out by the closing brace of its own connection. -/
theorem CommandMove.dynamic {task : OutputTask} (h : CommandMove m context command r)
    (hr : r.output = some (.dynamic, task)) : command = ['}'] ∧ task.contextId = context.id := by
  cases h with
  | closes _ hout =>
      cases hr
      cases hout
      exact ⟨rfl, rfl⟩
  | opens _ hout | fills _ _ _ _ _ hout =>
      cases hr
      cases hout
  | nests _ | unnests _ | skips | collects _ _ _ _ | appends _ _ _ _ _ => cases hr

/-- The bulk size is that of the call of `connect` that made the manager. -/
theorem CommandMove.max_eq (h : CommandMove m context command r) (hr : r.manager = some m') :
    m'.maxStaticTaskCount = m.maxStaticTaskCount := by
  cases h <;> cases hr <;> rfl

/-- The level changes by what the line is worth, also below zero: nothing stops a brace that
closes nothing. -/
theorem CommandMove.level (h : CommandMove m context command r) :
    r.context.dynamicBlockNestingLevel = context.dynamicBlockNestingLevel + delta command := by
  cases h with
  | opens hlevel _ => simp [delta, hlevel]
  | nests _ => simp [delta]
  | closes hlevel _ => simp [delta, hlevel]
  | unnests _ => simp [delta, sub_eq_add_neg]
  | skips => simp [delta]
  | collects _ hopen hclose _ => simp [delta, hopen, hclose]
  | appends _ hopen hclose _ _ => simp [delta, hopen, hclose]
  | fills _ hopen hclose _ _ _ => simp [delta, hopen, hclose]

/-- Outside braces a connection has no dynamic block. -/
theorem CommandMove.empty (h : CommandMove m context command r)
    (hempty : context.dynamicBlockNestingLevel ≤ 0 → context.dynamicBlockTask = [])
    (hlevel : r.context.dynamicBlockNestingLevel ≤ 0) : r.context.dynamicBlockTask = [] := by
  cases h with
  | opens _ _ =>
      have hfalse : (1 : ℤ) ≤ 0 := hlevel
      exact absurd hfalse (by decide)
  | nests hne =>
      -- a level that is not positive after it went up was negative
      apply hempty
      have : context.dynamicBlockNestingLevel + 1 ≤ 0 := hlevel
      omega
  | closes _ _ => rfl
  | unnests hne =>
      apply hempty
      have : context.dynamicBlockNestingLevel - 1 ≤ 0 := hlevel
      omega
  | collects _ _ _ hpositive => exact absurd hlevel (not_le.mpr hpositive)
  | skips | appends _ _ _ _ _ | fills _ _ _ _ _ _ => exact hempty hlevel

/-- The static block stays shorter than the bulk size. -/
theorem CommandMove.bounded (h : CommandMove m context command r) (hr : r.manager = some m')
    (hm : m.staticBlockTask.length < max m.maxStaticTaskCount 1) :
    m'.staticBlockTask.length < max m'.maxStaticTaskCount 1 := by
  cases h with
  | opens _ _ | fills _ _ _ _ _ _ =>
      cases hr
      simp [TaskManager.flushed]
  | appends _ _ _ _ hlt =>
      cases hr
      exact lt_max_of_lt_left hlt
  | nests _ | closes _ _ | unnests _ | skips | collects _ _ _ _ =>
      cases hr
      exact hm

/-- The static blocks take the commands outside braces in their order.  What is put out
and what stays behind are together what was there and the command, if it was sent outside
braces. -/
theorem CommandMove.ordered {lines : List (Line × Line)} (h : CommandMove m context command r)
    (hr : r.manager = some m')
    (hlevel : context.dynamicBlockNestingLevel = balance context.id lines) :
    staticCommands r.output.toList ++ m'.staticBlockTask =
      m.staticBlockTask ++
        ((arrival lines (context.id, command)).filter fun a => a.level ≤ 0).map
          Arrival.command := by
  cases h with
  | opens _ hout =>
      cases hr
      rw [hout.staticCommands]
      simp [arrival, TaskManager.flushed]
  | nests _ | unnests _ | skips =>
      cases hr
      simp [arrival, staticCommands]
  | closes _ hout =>
      cases hr
      rw [hout.staticCommands_dynamic]
      simp [arrival]
  | collects hnil hopen hclose hpositive =>
      cases hr
      rw [hlevel] at hpositive
      simp [arrival_of_command hnil hopen hclose, staticCommands, hpositive]
  | appends hnil hopen hclose hle _ =>
      cases hr
      rw [hlevel] at hle
      simp [arrival_of_command hnil hopen hclose, staticCommands, hle, TaskManager.appended]
  | fills hnil hopen hclose hle _ hout =>
      cases hr
      rw [hlevel] at hle
      rw [hout.staticCommands]
      simp [arrival_of_command hnil hopen hclose, hle, TaskManager.flushed]

/-- The books after a command.  The ledger changes by one entry for the command, and by one
move if a block is put out; which of the two comes first is a matter of the branch. -/
theorem CommandMove.books {pushed : List (Block × OutputTask)}
    {discards : List (Line × List Line)} {opened : Line → Option (List Line)}
    {ledger : Ledger Arrival Place} {lines : List (Line × Line)}
    (h : CommandMove m context command r) (hr : r.manager = some m')
    (hbooks : Books pushed discards m.staticBlockTask opened ledger)
    (hopened : opened context.id = some context.dynamicBlockTask)
    (hlevel : context.dynamicBlockNestingLevel = balance context.id lines) :
    ∃ ledger' : Ledger Arrival Place,
      ledger'.items = ledger.items ++ arrival lines (context.id, command) ∧
        Books (pushed ++ r.output.toList) discards m'.staticBlockTask
          (Function.update opened context.id (some r.context.dynamicBlockTask)) ledger' := by
  have hsame : Function.update opened context.id (some context.dynamicBlockTask) = opened := by
    rw [← hopened, Function.update_eq_self]
  cases h with
  | opens _ hout =>
      cases hr
      obtain ⟨ledger', hitems, hbooks'⟩ := hbooks.flush hout
      refine ⟨ledger', by simpa [arrival] using hitems, ?_⟩
      rw [hsame]
      exact hbooks'
  | nests _ | unnests _ | skips =>
      cases hr
      refine ⟨ledger, by simp [arrival], ?_⟩
      rw [hsame]
      simpa using hbooks
  | closes _ hout =>
      cases hr
      obtain ⟨ledger', hitems, hbooks'⟩ := hbooks.close hopened hout
      exact ⟨ledger', by simpa [arrival] using hitems, hbooks'⟩
  | collects hnil hopen hclose hpositive =>
      cases hr
      refine ⟨ledger.record ⟨context.id, balance context.id lines, command⟩
        (.collected context.id), ?_, ?_⟩
      · rw [Ledger.items_record, arrival_of_command hnil hopen hclose]
      · have hcollect := hbooks.collect (a := ⟨context.id, balance context.id lines, command⟩)
          hopened (hlevel ▸ hpositive)
        simpa using hcollect
  | appends hnil hopen hclose hle _ =>
      cases hr
      refine ⟨ledger.record ⟨context.id, balance context.id lines, command⟩ .pending, ?_, ?_⟩
      · rw [Ledger.items_record, arrival_of_command hnil hopen hclose]
      · have happend := hbooks.append (a := ⟨context.id, balance context.id lines, command⟩)
          (hlevel ▸ hle)
        rw [hsame]
        simpa [TaskManager.appended] using happend
  | fills hnil hopen hclose hle _ hout =>
      cases hr
      have happend := hbooks.append (a := ⟨context.id, balance context.id lines, command⟩)
        (hlevel ▸ hle)
      obtain ⟨ledger', hitems, hbooks'⟩ := happend.flush hout
      refine ⟨ledger', ?_, ?_⟩
      · rw [hitems, Ledger.items_record, arrival_of_command hnil hopen hclose]
      · rw [hsame]
        exact hbooks'

end Command

end BulkServer
