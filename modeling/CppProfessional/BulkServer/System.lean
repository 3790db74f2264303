import CppProfessional.BulkServer.Delivery
import CppProfessional.BulkServer.Segments
import CppProfessional.BulkServer.Sessions

/-!
# The bulk server as a whole

The sessions, the library they call, and the workers that put out its blocks.  The server's
thread makes a step only when the instructions of the call before it have run.  A run of the
whole is a run of the sessions (`execution_server`) and a run of the library with its
workers (`execution_process`), so what is known of each of them holds in it.

* `system` — the sessions and the workers;
* `execution_outgoing` — the blocks that are pushed are those that the library puts out;
* `execution_closed`, `execution_discards` — a client that closes is disconnected, and its
  unfinished block has commands only if it has left a brace open;
* `streams_written` — from the bytes of the clients to what is printed and written.
-/

namespace BulkServer

open Transition Commands
open Async (OutputTask Line Output Shared Worker Instr InstrMove WorkerMove publishing shutdown
  toText writtenTasks)

/-! ### The model

The server and the workers share the state of the library.  A call of the server leaves
a list of instructions behind, and the thread goes on with its handlers only when the
list is empty. -/

/-- The server, the state it shares with the workers, and the rest of the call in progress. -/
structure System where
  server : Server
  shared : Shared
  program : List Instr

/-- The server's thread makes a step, or runs an instruction; or a worker moves. -/
inductive SystemEvent
  | serve (e : ServerEvent)
  | advance
  | worker (w : Worker) (opened : Bool)
  | spurious (w : Worker)
  deriving DecidableEq, Repr

/-- What a step lets the outside see. -/
inductive SystemEffect
  | served (effect : ServerEffect)
  | output (output : Output)
  deriving DecidableEq, Repr

/-- The library with its workers. -/
def System.process (s : System) : Process := ⟨s.server.library, s.shared, s.program⟩

/-- A step of the server has been made; the instructions of its call are still to run. -/
def System.after (s : System) (server : Server) : ServerEffect → System
  | .call _ effect =>
      ⟨server, (s.process.after server.library effect).shared,
        (s.process.after server.library effect).program⟩
  | .silent | .printed _ => { s with server := server }

/-- A step that the server has no part in. -/
def System.run (s : System) (e : ProcessEvent) : Option (SystemEffect × System) :=
  match s.process.step e with
  | some (.output output, process) =>
      some (.output output, { s with shared := process.shared, program := process.program })
  | some (.called _, _) | none => none

/-- One step. -/
def System.step (bulk : ℕ) (s : System) : SystemEvent → Option (SystemEffect × System)
  | .serve e =>
      if s.program = [] then
        (serverStep bulk s.server e).map fun (effect, server) =>
          (.served effect, s.after server effect)
      else none
  | .advance => s.run .advance
  | .worker w opened => s.run (.worker w opened)
  | .spurious w => s.run (.spurious w)

/-- The state before the first client. -/
def System.initial : System := ⟨initialServer, Process.initial.shared, []⟩

/-- The bulk server. -/
def system (bulk : ℕ) : Machine System SystemEvent SystemEffect where
  init := (· = .initial)
  step := System.step bulk

/-! ### The parts of a run

The system is not analysed anew.  Its runs are projected to runs of the sessions and to
runs of the library with its workers, and the results about these are used as they are. -/

/-- What the server does in a step. -/
def serverView : SystemEvent × SystemEffect → List (ServerEvent × ServerEffect)
  | (.serve e, .served effect) => [(e, effect)]
  | _ => []

/-- What the library and its workers do in a step. -/
def processView : SystemEvent × SystemEffect → List (ProcessEvent × ProcessEffect)
  | (.serve _, .served (.call e effect)) => [(.call e, .called effect)]
  | (.advance, .output output) => [(.advance, .output output)]
  | (.worker w opened, .output output) => [(.worker w opened, .output output)]
  | (.spurious w, .output output) => [(.spurious w, .output output)]
  | _ => []

/-- The run of the sessions. -/
def serverTrace (trace : List (SystemEvent × SystemEffect)) : List (ServerEvent × ServerEffect) :=
  trace.flatMap serverView

/-- The run of the library with its workers. -/
def processTrace (trace : List (SystemEvent × SystemEffect)) :
    List (ProcessEvent × ProcessEffect) :=
  trace.flatMap processView

/-- The files of the workers open. -/
def SystemEvent.opens : SystemEvent → Bool
  | .worker _ opened => opened
  | .serve _ | .advance | .spurious _ => true

/-- The bulk server with every log file opened. -/
def openingSystem (bulk : ℕ) : Machine System SystemEvent SystemEffect :=
  (system bulk).restrict fun _ e => e.opens = true

variable {bulk : ℕ} {s s' : System} {e : SystemEvent} {effect : SystemEffect}
  {trace : List (SystemEvent × SystemEffect)}

/-- Only a call changes the library; instructions and workers touch the shared state. -/
theorem Process.library_of_output {s s' : Process} {e : ProcessEvent} {output : Output}
    (h : s.step e = some (.output output, s')) : s'.library = s.library := by
  cases e with
  | call e =>
      obtain ⟨-, h⟩ := Option.ite_none_right_eq_some.mp h
      obtain ⟨r, -, heq⟩ := Option.map_eq_some_iff.mp h
      cases heq
  | advance =>
      simp only [Process.step] at h
      split at h
      · cases h
      · obtain ⟨r, -, heq⟩ := Option.map_eq_some_iff.mp h
        cases heq
        rfl
  | worker w opened =>
      obtain ⟨r, -, heq⟩ := Option.map_eq_some_iff.mp h
      cases heq
      rfl
  | spurious w =>
      obtain ⟨r, -, heq⟩ := Option.map_eq_some_iff.mp h
      cases heq
      rfl

/-- A step of the threads does not touch the server. -/
theorem System.run_eq_some {e : ProcessEvent} (h : s.run e = some (effect, s')) :
    ∃ output, effect = .output output ∧ s'.server = s.server ∧
      s.process.step e = some (.output output, s'.process) := by
  unfold System.run at h
  split at h
  · next output process hstep =>
      cases h
      refine ⟨output, rfl, rfl, ?_⟩
      rw [hstep, System.process, ← show process.library = s.server.library from
        Process.library_of_output hstep]
  · cases h
  · cases h

/-- **Inversion of a step**: the server makes a step of its own, the server makes a call, or
the library and its workers go on. -/
inductive SystemMove (bulk : ℕ) (s : System) (x : SystemEvent × SystemEffect) (s' : System) : Prop
  | serves {e : ServerEvent} {effect : ServerEffect} :
      serverStep bulk s.server e = some (effect, s'.server) → serverView x = [(e, effect)] →
      processView x = [] → effect.calls = [] → s'.process = s.process → SystemMove bulk s x s'
  | calls {e : ServerEvent} {event : Event} {effect : Effect} :
      serverStep bulk s.server e = some (.call event effect, s'.server) →
      serverView x = [(e, .call event effect)] → processView x = [(.call event, .called effect)] →
      s.process.step (.call event) = some (.called effect, s'.process) → SystemMove bulk s x s'
  | works {e : ProcessEvent} {output : Output} : s'.server = s.server → serverView x = [] →
      processView x = [(e, .output output)] → (x.1.opens = e.opens) →
      s.process.step e = some (.output output, s'.process) → SystemMove bulk s x s'

/-- A step of the system is one of the server, or one of the threads.  A step of the server
hands its calls over to the library of the process, whose workers are not concerned. -/
theorem System.step_move (hs : s.server.Valid) (h : s.step bulk e = some (effect, s')) :
    SystemMove bulk s (e, effect) s' := by
  cases e with
  | serve e =>
      obtain ⟨hprogram, h⟩ := Option.ite_none_right_eq_some.mp h
      obtain ⟨⟨effect', server⟩, hstep, heq⟩ := Option.map_eq_some_iff.mp h
      cases heq
      have hlibrary := (serverStep_move hs hstep).library
      cases effect' with
      | call event effect =>
          rcases hlibrary with ⟨hcalls, -⟩ | ⟨_, _, hcalls, hcall⟩
          · cases hcalls
          · cases hcalls
            refine .calls hstep rfl rfl ?_
            exact Option.ite_none_right_eq_some.mpr
              ⟨hprogram, Option.map_eq_some_iff.mpr ⟨_, hcall, rfl⟩⟩
      | silent | printed _ =>
          rcases hlibrary with ⟨-, hsame⟩ | ⟨_, _, hcalls, -⟩
          · refine .serves hstep rfl rfl rfl ?_
            show (⟨server.library, s.shared, s.program⟩ : Process) = _
            rw [hsame]
            rfl
          · cases hcalls
  | advance | worker _ _ | spurious _ =>
      obtain ⟨output, rfl, hserver, hstep⟩ := System.run_eq_some h
      exact .works hserver rfl rfl rfl hstep

/-- **The sessions.** -/
theorem execution_server (h : (system bulk).Execution trace s) :
    (server bulk).Execution (serverTrace trace) s.server := by
  refine h.project System.server serverView (fun s hs => ?_) fun s e effect s' _ hreach hs => ?_
  · rw [show s = .initial from hs]
    rfl
  · obtain ⟨trace, hexec⟩ := hreach
    cases System.step_move (execution_library hexec).1 hs with
    | serves hstep hview _ _ _ | calls hstep hview _ _ =>
        rw [hview]
        exact .single hstep
    | works hserver hview _ _ _ =>
        rw [hview, hserver]
        exact .refl

/-- **The library with its workers.** -/
theorem execution_process (h : (openingSystem bulk).Execution trace s) :
    openingMachine.Execution (processTrace trace) s.process := by
  refine h.project System.process processView (fun s hs => ?_) fun s e effect s' hreach _ hs => ?_
  · rw [show s = .initial from hs]
    rfl
  · obtain ⟨trace, hexec⟩ := hreach
    obtain ⟨hopens, hs⟩ := Machine.restrict_step_eq_some.mp hs
    have hvalid := (execution_library (execution_server hexec.of_restrict)).1
    cases System.step_move hvalid hs with
    | serves _ _ hview _ hsame =>
        rw [hview, hsame]
        exact .refl
    | calls _ _ hview hstep =>
        rw [hview]
        exact .single (Machine.restrict_step_eq_some.mpr ⟨rfl, hstep⟩)
    | works _ _ hview hsame hstep =>
        rw [hview]
        exact .single (Machine.restrict_step_eq_some.mpr ⟨hsame ▸ hopens, hstep⟩)

/-! ### The blocks on their way

A block that the library has put out is not pushed at once, but by an instruction of the
same call.  The two parts of a run differ by these blocks. -/

/-- The block that an instruction pushes. -/
def pushed : Instr → Option OutputTask
  | .push task => some task
  | .notifyAll | .terminate _ | .start _ | .join _ => none

/-- The blocks that the rest of a call is going to push. -/
def outgoing (program : List Instr) : List OutputTask := program.filterMap pushed

/-- The blocks that a call puts out. -/
def ProcessEffect.putOut : ProcessEffect → List OutputTask
  | .called effect => effect.outputs.map Prod.snd
  | .output _ => []

theorem outgoing_publishing (output : Option (Async.Block × OutputTask)) :
    outgoing (publishing (output.map Prod.snd)) = output.toList.map Prod.snd := by
  cases output <;> rfl

theorem outgoing_shutdown (output : Option (Async.Block × OutputTask)) :
    outgoing (shutdown (output.map Prod.snd)) = output.toList.map Prod.snd := by
  cases output <;> rfl

/-- A call leaves the blocks it puts out to be pushed. -/
theorem Move.outgoing {s s' : Library} {e : Event} {effect : Effect} (h : Move s e effect s')
    (hs : s.Consistent) :
    BulkServer.outgoing (instructions s s' effect) = effect.outputs.map Prod.snd := by
  cases h with
  | connects _ _ _ =>
      simp only [instructions]
      split <;> rfl
  | processes _ _ _ _ => exact outgoing_publishing _
  | stops _ _ _ hmanager _ =>
      have hflag : s.threadsInitialized = true := by
        rw [hs.initialized, hmanager, Option.isSome_some]
      simp only [instructions, hflag, Bool.not_false, Bool.and_self, if_true]
      exact outgoing_shutdown _
  | misses _ _ | leaves _ _ _ =>
      simp only [instructions]
      split <;> rfl
  | ignores _ _ | ignoresNull _ | accepts _ _ | returns _ => rfl

/-- **One step.**  A block that is put out is on its way, and then pushed. -/
theorem ProcessMove.outgoing {s s' : Process} {e : ProcessEvent} {effect : ProcessEffect}
    (h : ProcessMove s e effect s') (hs : s.library.Consistent) :
    BulkServer.outgoing s.program ++ effect.putOut =
      effect.through Output.pushes ++ BulkServer.outgoing s'.program := by
  cases h with
  | calls hprogram hmove =>
      rw [hprogram]
      exact (hmove.outgoing hs).symm
  | @advances instr rest output shared hprogram hmove =>
      rw [hprogram]
      cases hmove <;> exact List.append_nil _
  | @works _ _ output _ _ hmove | @wakes _ output _ _ hmove =>
      have hnone : output.pushes = [] := by
        cases hmove with
        | writes _ _ _ hwrites => rcases hwrites with rfl | rfl <;> rfl
        | _ => rfl
      simp only [ProcessEffect.putOut, ProcessEffect.through, hnone, List.append_nil,
        List.nil_append]

/-- **What is pushed is what the library puts out**, up to the blocks of the call in
progress. -/
theorem execution_outgoing (h : (openingSystem bulk).Execution trace s) :
    pushes (processTrace trace) ++ outgoing s.program =
      (Machine.history Effect.outputs (libraryCalls (serverTrace trace))).map Prod.snd := by
  have hputOut : Machine.history ProcessEffect.putOut (processTrace trace) =
      (Machine.history Effect.outputs (libraryCalls (serverTrace trace))).map Prod.snd := by
    refine h.induct (I := fun trace _ => Machine.history ProcessEffect.putOut (processTrace trace) =
      (Machine.history Effect.outputs (libraryCalls (serverTrace trace))).map Prod.snd)
      (fun _ _ => rfl) fun trace s e effect s' hexec ih hs => ?_
    obtain ⟨-, hs⟩ := Machine.restrict_step_eq_some.mp hs
    have hvalid := (execution_library (execution_server hexec.of_restrict)).1
    have hprocess : processTrace (trace ++ [(e, effect)]) =
        processTrace trace ++ processView (e, effect) := by
      rw [processTrace, List.flatMap_append, List.flatMap_singleton, processTrace]
    have hserver : libraryCalls (serverTrace (trace ++ [(e, effect)])) =
        libraryCalls (serverTrace trace) ++ libraryCalls (serverView (e, effect)) := by
      rw [serverTrace, List.flatMap_append, List.flatMap_singleton, libraryCalls,
        Machine.history_append, serverTrace, libraryCalls, libraryCalls]
    rw [hprocess, hserver, Machine.history_append, Machine.history_append, List.map_append, ih]
    refine congrArg _ ?_
    cases System.step_move hvalid hs with
    | serves _ hview hview' hcalls _ =>
        rw [hview, hview', libraryCalls, Machine.history_singleton, hcalls]
        rfl
    | calls _ hview hview' _ =>
        rw [hview, hview', libraryCalls, Machine.history_singleton, Machine.history_singleton]
        exact congrArg (List.map Prod.snd) (List.append_nil _).symm
    | works _ hview hview' _ _ =>
        rw [hview, hview']
        rfl
  obtain ⟨s₀, h0, hrun⟩ := execution_process h
  obtain rfl : s₀ = .initial := h0
  have hfifo : outgoing Process.initial.program ++
      Machine.history ProcessEffect.putOut (processTrace trace) =
        pushes (processTrace trace) ++ outgoing s.program := by
    refine hrun.fifo (fun s : Process => outgoing s.program) fun front s e effect s' hfront hs => ?_
    obtain ⟨-, hs⟩ := Machine.restrict_step_eq_some.mp hs
    have hconsistent := (execution_delivering ⟨_, rfl, hfront⟩).consistent
    exact (Process.step_move hconsistent hs).outgoing hconsistent
  rw [← hputOut]
  exact hfifo.symm

/-! ### Clients that close

The handler that reads the end of a stream gives the handle back, which may be some
steps later, when its `receive` has returned. -/

section Closing

variable {s s' : Server} {e : ServerEvent} {effect : ServerEffect} {id : ℕ}
  {trace : List (ServerEvent × ServerEffect)}

/-- The session has no handle any more, or its handler is about to give it back. -/
def Server.Leaves (s : Server) (id : ℕ) : Prop :=
  (s.session id).handle = 0 ∨ s.handler = some (id, .leave)

/-- A session whose stream is closed gives its handle back, with this step or before: the end
of the stream is handled by the branch that leaves. -/
theorem ServerMove.leaves_closed (h : ServerMove bulk s e effect s') (hs : s.Valid)
    (hdelivery : Delivery id trace s) (hinv : Closed id trace → s.Leaves id)
    (hclosed : Closed id (trace ++ [(e, effect)])) : s'.Leaves id := by
  rw [closed_concat] at hclosed
  by_cases hsubject : s.subject e = some id
  · have hopen (hactive : (s.session id).reading = true ∨ s.handler = some (id, .readAgain)) :
        ¬ Closed id trace := (hdelivery.framed hs hactive).2.1
    cases h with
    | rejects _ | processes _ => cases hsubject
    | accepts _ _ =>
        cases hsubject
        rcases hclosed with hclosed | hcloses
        · cases hdelivery with
          | unborn _ _ _ hopen => exact absurd hclosed hopen
          | reading hborn _ _ | closed hborn _ _ _ _ => exact absurd hborn (Nat.lt_irrefl _)
        · cases hcloses
    | arrives _ hreading _ | takes _ hreading _ _ _ | fails _ hreading =>
        cases hsubject
        rcases hclosed with hclosed | hcloses
        · exact absurd hclosed (hopen (Or.inl hreading))
        · cases hcloses
    | takesRest _ _ _ _ _ | ends _ _ _ =>
        cases hsubject
        exact Or.inr rfl
    | rereads hhandler _ =>
        rw [Server.subject, hhandler] at hsubject
        cases hsubject
        rcases hclosed with hclosed | hcloses
        · exact absurd hclosed (hopen (Or.inr hhandler))
        · cases hcloses
    | leaves hhandler _ _ =>
        rw [Server.subject, hhandler] at hsubject
        cases hsubject
        exact Or.inl (by rw [session_update_self])
  · obtain ⟨hsession, -, hhandler⟩ := h.frame hsubject
    have hclosed := hclosed.resolve_right (bytes_of_other effect hsubject).2.2
    exact (hinv hclosed).imp (by rw [hsession]; exact fun hnull => hnull) (hhandler .leave).mpr

/-- **A client that has closed is disconnected.** -/
theorem execution_closed (h : (server bulk).Execution trace s) (id : ℕ) :
    Closed id trace → s.Leaves id := by
  refine h.induct (I := fun trace s => Closed id trace → s.Leaves id) ?_ ?_
  · rintro s rfl ⟨x, hx, -⟩
    cases hx
  · intro trace s e effect s' hexec hinv hs
    have hvalid := (execution_library hexec).1
    exact (serverStep_move hvalid hs).leaves_closed hvalid (execution_delivery hexec id).1 hinv

end Closing

/-! ### Braces left open

A disconnect throws the dynamic block of its connection away.  It is empty unless the
lines of the client have left a brace open. -/

/-- **What a disconnect throws away.**  A connection that leaves no brace open leaves no
command behind. -/
theorem execution_discards {trace : List (Event × Effect)} {s : Library}
    (h : machine.Execution trace s) : ∀ x ∈ Machine.history Effect.discards trace,
      balance x.1 (Machine.history Effect.lines trace) ≤ 0 → x.2 = [] := by
  refine h.induct (I := fun trace _ => ∀ x ∈ Machine.history Effect.discards trace,
    balance x.1 (Machine.history Effect.lines trace) ≤ 0 → x.2 = []) ?_ ?_
  · rintro s - x hx
    cases hx
  · intro trace s e effect s' hexec ih hs
    obtain ⟨ledger, opened, hinv⟩ := execution_invariant hexec
    have hsame (hlines : effect.lines = []) (hdiscards : effect.discards = []) :
        ∀ x ∈ Machine.history Effect.discards (trace ++ [(e, effect)]),
          balance x.1 (Machine.history Effect.lines (trace ++ [(e, effect)])) ≤ 0 → x.2 = [] := by
      rw [Machine.history_append, Machine.history_append, Machine.history_singleton,
        Machine.history_singleton, hlines, hdiscards, List.append_nil, List.append_nil]
      exact ih
    have hgone {handle : Async.Handle} {context : ConnectionContext}
        {output : Option (Async.Block × OutputTask)}
        (hlookup : s.contexts.lookup handle = some context)
        (heffect : effect = .disconnected (some (context.id, context.dynamicBlockTask)) output) :
        ∀ x ∈ Machine.history Effect.discards (trace ++ [(e, effect)]),
          balance x.1 (Machine.history Effect.lines (trace ++ [(e, effect)])) ≤ 0 → x.2 = [] := by
      subst heffect
      rw [Machine.history_append, Machine.history_append, Machine.history_singleton,
        Machine.history_singleton]
      simp only [Effect.lines, Effect.discards, List.append_nil, Option.toList_some,
        List.mem_append, List.mem_singleton]
      rintro x (hx | rfl) hbalance
      · exact ih x hx hbalance
      · obtain ⟨hlevel, hempty⟩ := hinv.level handle context hlookup
        exact hempty (hlevel ▸ hbalance)
    cases step_move hinv.consistent hs with
    | leaves _ hlookup _ | stops _ hlookup _ _ _ => exact hgone hlookup rfl
    | @processes now handle command lines m context r _ _ hlookup _ =>
        -- a connection that is gone does not send lines any more
        rw [Machine.history_append, Machine.history_append, Machine.history_singleton,
          Machine.history_singleton]
        simp only [Effect.lines, Effect.discards, List.append_nil]
        intro x hx hbalance
        refine ih x hx ?_
        have hne : context.id ≠ x.1 := by
          intro heq
          have hopened := hinv.contexts.block handle context hlookup
          rw [heq, hinv.books.gone x hx] at hopened
          cases hopened
        rw [balance_concat, if_neg hne, add_zero] at hbalance
        exact hbalance
    | connects _ _ _ | ignores _ _ | ignoresNull _ | accepts _ _ | returns _ | misses _ _ =>
        exact hsame rfl rfl

/-! ### From the streams to the output

The chain is put together: the streams give the lines of the calls, the calls the
commands in the books, the books the blocks, and the blocks are printed and written
once. -/

/-- Every client has closed, and the server has nothing left to do.  The last clause is about
the calls that the last handler has made: until its program is run, blocks may be missing from
the queues. -/
structure System.AllClosed (s : System) (trace : List (SystemEvent × SystemEffect)) : Prop where
  closed : ∀ id < s.server.created, Closed id (serverTrace trace)
  handler : s.server.handler = none
  program : s.program = []

/-- The lines that were processed, with the id of their session. -/
def linesOf (trace : List (SystemEvent × SystemEffect)) : List (Line × Line) :=
  Machine.history Effect.lines (libraryCalls (serverTrace trace))

/-- The blocks that the library has put out. -/
def blocksOf (trace : List (SystemEvent × SystemEffect)) : List (Async.Block × OutputTask) :=
  Machine.history Effect.outputs (libraryCalls (serverTrace trace))

/-- The dynamic blocks that were thrown away, with the id of their session. -/
def discardsOf (trace : List (SystemEvent × SystemEffect)) : List (Line × List Line) :=
  Machine.history Effect.discards (libraryCalls (serverTrace trace))

/-- Where the commands of all streams are: each one in one block that is printed, or in the
block that its client has left open and that was thrown away. -/
structure Placed (trace : List (SystemEvent × SystemEffect))
    (ledger : Ledger Arrival Place) : Prop where
  items : ledger.items = arrivals (linesOf trace)
  block : ∀ k, commandsAt ledger (.pushed k) =
    ((blocksOf trace)[k]?).elim [] fun block => block.2.commands
  place : ∀ x ∈ ledger.entries, (∃ k, x.2 = .pushed k) ∨
    x.2 = .discarded x.1.connection ∧ 0 < balance x.1.connection (linesOf trace)
  admits : ∀ x ∈ ledger.entries, ∀ k, x.2 = .pushed k →
    ∃ kind task, (blocksOf trace)[k]? = some (kind, task) ∧
      match kind with
      | .static => x.1.level ≤ 0
      | .dynamic => x.1.connection = task.contextId ∧ 0 < x.1.level
  discarded : ∀ id, commandsAt ledger (.discarded id) ≠ [] →
    (id, commandsAt ledger (.discarded id)) ∈ discardsOf trace
  closed : ClosedBySender (libraryCalls (serverTrace trace))

/-- All lines of a client that has closed are processed before it is disconnected. -/
theorem processedBy_of_closed {s : Server} {id : ℕ} {trace : List (ServerEvent × ServerEffect)}
    (h : (server bulk).Execution trace s) (hclosed : Closed id trace)
    (hdone : s.handler.map Prod.fst ≠ some id) :
    processedBy id trace = getlines '\n' (stream id trace) := by
  obtain ⟨hdelivery, hsent⟩ := execution_delivery h id
  obtain ⟨hvalid, hlibrary⟩ := execution_library h
  obtain ⟨ledger, opened, hinv⟩ := execution_invariant hlibrary
  cases hdelivery with
  | unborn _ _ _ hopen => exact absurd hclosed hopen
  | reading _ hopen _ => exact absurd hclosed hopen
  | closed _ _ _ _ hcalls =>
      have hprocessed := congrArg (List.filter fun x => x.1 = toText id) hinv.received
      rw [List.filter_append, hvalid.inProgress id (Or.inl hdone), List.append_nil, hsent, hcalls,
        flatMap_getlines_frames fun line hline => notMem_of_mem_getlines hline] at hprocessed
      rw [processedBy, ← hprocessed, List.map_map]
      exact List.map_id _

/-- An item at a place has its command there. -/
theorem commandsAt_ne_nil {ledger : Ledger Arrival Place} {x : Arrival × Place}
    (hx : x ∈ ledger.entries) : commandsAt ledger x.2 ≠ [] := by
  have hmem : x.1 ∈ ledger.itemsAt x.2 :=
    List.mem_map_of_mem (List.mem_filter.mpr ⟨hx, decide_eq_true rfl⟩)
  exact fun hnil => List.not_mem_nil (List.map_eq_nil_iff.mp hnil ▸ hmem)

/-- When every client has closed, no context is left. -/
theorem System.AllClosed.contexts (h : (system bulk).Execution trace s)
    (hclosed : s.AllClosed trace) : s.server.library.contexts.entries = [] := by
  have hserver := execution_server h
  have hvalid := (execution_library hserver).1
  rw [hvalid.contexts_eq_nil_iff]
  intro id
  by_cases hid : id < s.server.created
  · refine (execution_closed hserver id (hclosed.closed id hid)).resolve_right ?_
    rw [hclosed.handler]
    exact fun hnone => by cases hnone
  · exact hvalid.registry.fresh id (Nat.not_lt.mp hid)

/-- Every command has its place.  The books of the library have a place for each command that
it has received; once nothing is in progress these are all that were sent, and only blocks that
were put out or discarded are left. -/
theorem exists_placed (h : (system bulk).Execution trace s) (hclosed : s.AllClosed trace) :
    ∃ ledger, Placed trace ledger := by
  have hlibrary := (execution_library (execution_server h)).2
  have hempty := hclosed.contexts h
  obtain ⟨ledger, opened, hinv⟩ := execution_invariant hlibrary
  have hpending : s.server.library.pending = [] := by
    rw [Library.pending, hinv.consistent.shared.mpr hempty]
    rfl
  have hnone (id : Line) : opened id = none := by
    by_contra hsome
    obtain ⟨handle, context, hlookup, -⟩ := hinv.contexts.live id hsome
    rw [show s.server.library.contexts = ∅ from AList.ext hempty] at hlookup
    cases hlookup
  refine ⟨ledger, hinv.items, hinv.books.atPushed, ?_, ?_, ?_,
    execution_closedBySender hlibrary⟩
  · rintro ⟨a, p⟩ hx
    have hadmits := hinv.books.admits _ hx
    have hne := commandsAt_ne_nil hx
    cases p with
    | pushed k => exact Or.inl ⟨k, rfl⟩
    | pending => exact absurd (hinv.books.atPending.trans hpending) hne
    | collected id => exact absurd (hnone id) hadmits.2.2
    | discarded id =>
        obtain ⟨hid, -, hmem⟩ := hadmits
        obtain ⟨discard, hdiscard, rfl⟩ := List.mem_map.mp hmem
        refine Or.inr ⟨congrArg _ hid.symm, Int.not_le.mp fun hbalance => hne ?_⟩
        rw [hid] at hbalance
        exact (hinv.books.atDiscarded discard hdiscard).trans
          (execution_discards hlibrary discard hdiscard hbalance)
  · rintro ⟨a, p⟩ hx k rfl
    exact hinv.books.admits _ hx
  · intro id hne
    obtain ⟨command, hcommand⟩ := List.exists_mem_of_ne_nil _ hne
    obtain ⟨a, ha, -⟩ := List.mem_map.mp hcommand
    obtain ⟨⟨a, p⟩, hx, rfl⟩ := List.mem_map.mp ha
    obtain ⟨hentry, hplace⟩ := List.mem_filter.mp hx
    obtain rfl : p = .discarded id := of_decide_eq_true hplace
    obtain ⟨-, -, hmem⟩ := hinv.books.admits _ hentry
    obtain ⟨discard, hdiscard, rfl⟩ := List.mem_map.mp hmem
    rw [hinv.books.atDiscarded discard hdiscard]
    exact hdiscard

/-- **From the streams to the output.**  When every client has closed and the server has
nothing left to do, the lines processed for each client are the lines of its stream; every
command is in one block, of its own connection if it was sent inside braces, or else in the
block that its client left open; the commands outside braces are in the blocks in the order
in which they came; and every block has been printed once, in order, and written once. -/
theorem streams_written (h : (openingSystem bulk).Execution trace s) (hclosed : s.AllClosed trace) :
    (∀ id < s.server.created, processedBy id (serverTrace trace) =
      getlines '\n' (stream id (serverTrace trace))) ∧
    (∃ ledger, Placed trace ledger) ∧
    staticCommands (blocksOf trace) = staticArrivals (linesOf trace) ∧
    prints (processTrace trace) = (blocksOf trace).map Prod.snd ∧
    (writtenTasks (writes (processTrace trace))).Perm ((blocksOf trace).map Prod.snd) ∧
    ((blocksOf trace).length < 2 ^ 32 →
      ((writes (processTrace trace)).map fun x => x.2.2).Nodup) := by
  have hexec := h.of_restrict
  have hserver := execution_server hexec
  have hempty := hclosed.contexts hexec
  refine ⟨fun id hid => ?_, exists_placed hexec hclosed, ?_, ?_⟩
  · refine processedBy_of_closed hserver (hclosed.closed id hid) ?_
    rw [hclosed.handler]
    exact fun hnone => by cases hnone
  · obtain ⟨ledger, opened, hinv⟩ := execution_invariant (execution_library hserver).2
    have hordered := hinv.ordered
    rw [Library.pending, hinv.consistent.shared.mpr hempty] at hordered
    exact (List.append_nil _).symm.trans hordered
  · have houtgoing := execution_outgoing h
    rw [hclosed.program] at houtgoing
    have hpushes : pushes (processTrace trace) = (blocksOf trace).map Prod.snd :=
      (List.append_nil _).symm.trans houtgoing
    have hinv := execution_delivering (execution_process h)
    have hflag : s.server.library.threadsInitialized = false := by
      have hconsistent := hinv.consistent
      exact hconsistent.initialized.trans (by rw [hconsistent.shared.mpr hempty]; rfl)
    have hworkers := hinv.staffed.free hflag hclosed.program
    have hqueues (q : Async.Queue) : s.shared.get q = [] :=
      hinv.drained q fun w _ => by rw [hworkers w]; rfl
    obtain ⟨hprinted, hwritten⟩ := hinv.all hqueues fun w => by rw [hworkers w]; rfl
    rw [hpushes] at hprinted hwritten
    refine ⟨hprinted, hwritten, fun hfew => hinv.named.nodup ?_⟩
    have hlength := hwritten.length_eq
    simp only [writtenTasks, List.length_map] at hlength
    omega

/-- One client that ends its stream within a line, up to the end of the workers. -/
def oneClient : List (SystemEvent × SystemEffect) × System :=
  (openingSystem 1).play .initial
    (List.flatten
      [[.serve (.accept none 1)], List.replicate 4 .advance,
        [.serve (.arrive 0 ['a']), .serve (.complete 0 (some .eof) 0), .serve (.line 0)],
        List.replicate 2 .advance,
        [.worker .log true, .worker .log true, .worker .file1 true, .serve (.line 0),
          .serve .resume], List.replicate 2 .advance,
        [.worker .file1 true, .worker .log true, .worker .file1 true, .worker .file2 true],
        List.replicate 3 .advance]) (by decide +kernel)

/-- One client with one command. -/
theorem streams_written_oneClient :
    processedBy 0 (serverTrace oneClient.1) = [['a']] ∧
      prints (processTrace oneClient.1) = [⟨0, ['0'], [['a']]⟩] := by
  have hexec : (openingSystem 1).Execution oneClient.1 oneClient.2 := Machine.execution_play rfl _
  have hcreated : oneClient.2.server.created = 1 := by decide +kernel
  have hclosed : oneClient.2.AllClosed oneClient.1 := by
    refine ⟨fun id hid => ?_, by decide +kernel, by decide +kernel⟩
    obtain rfl : id = 0 := by omega
    decide +kernel
  obtain ⟨hprocessed, -, -, hprinted, -⟩ := streams_written hexec hclosed
  rw [hprocessed 0 (by omega), hprinted]
  exact ⟨by decide +kernel, by decide +kernel⟩

end BulkServer
