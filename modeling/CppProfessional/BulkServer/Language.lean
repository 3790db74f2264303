import CppProfessional.Async.Connections
import CppProfessional.BulkServer.Conservation

/-!
# The command language of the bulk server

On one connection the bulk server groups commands as the asynchronous library does,
except for a closing brace that closes nothing: for the library it is a command, and
the bulk server drops it and lowers its nesting level below zero, so that later braces
are counted wrong.  `same_blocks_iff_matched` says that these are the only streams of
lines on which the two differ.

* `session` — what a run of the bulk server's library is, if it is one connection;
* `Mirrors` — the shared manager and the context together mean a state of the block
  grammar, which they do until the first unmatched brace;
* `Clean` — a closing brace never gets into a block.
-/

namespace BulkServer

open Transition Commands
open Async (OutputTask Line Block Handle mark commandsIn sentCommands)

/-! ### One connection

The two servers are compared on what a single client can see: one connection, its lines,
and the blocks made of them. -/

/-- A run with a single connection. -/
inductive Session
  | absent
  | opened (bulk : ℕ) (handle : Handle) (chunks : List Line)
  | closed (bulk : ℕ) (chunks : List Line)
  | mixed
  deriving DecidableEq, Repr

/-- What a step does to it; a call with another handle makes it something else. -/
def Session.observe : Session → Event × Effect → Session
  | session, (.line _, _) => session
  | .absent, (.connect bulk address, _) => .opened bulk address []
  | .opened bulk handle chunks, (.receive other data, _) =>
      if other = handle then .opened bulk handle (chunks ++ [data]) else .mixed
  | .opened bulk handle chunks, (.disconnect other, _) =>
      if other = handle then .closed bulk chunks else .mixed
  | _, _ => .mixed

/-- The single connection of a run. -/
def session (trace : List (Event × Effect)) : Session := trace.foldl Session.observe .absent

theorem session_concat (trace : List (Event × Effect)) (x : Event × Effect) :
    session (trace ++ [x]) = (session trace).observe x := by
  simp only [session, List.foldl_append, List.foldl_cons, List.foldl_nil]

/-- The command lists of the blocks that a run put out. -/
def blocksOut (trace : List (Event × Effect)) : List (List Line) :=
  (Machine.history Effect.outputs trace).map fun block => block.2.commands

/-- The command lists of the blocks that a step put out. -/
def outBlocks (effect : Effect) : List (List Line) :=
  effect.outputs.map fun block => block.2.commands

/-- The blocks of one more event are the last. -/
theorem blocksOut_concat (trace : List (Event × Effect)) (x : Event × Effect) :
    blocksOut (trace ++ [x]) = blocksOut trace ++ outBlocks x.2 := by
  rw [blocksOut, Machine.history_append, Machine.history_singleton, List.map_append]
  rfl

/-- The command list of a block, if there is one. -/
def outBlock (output : Option (Block × OutputTask)) : List (List Line) :=
  output.toList.map fun block => block.2.commands

/-! ### The state of the grammar

The bulk server has its static block in the shared manager and its dynamic block in the
context.  With one connection the two together are a state of the grammar. -/

/-- The shared manager and the context mean a state of the block grammar. -/
inductive Mirrors (m : TaskManager) (context : ConnectionContext) : Grouping Line → Prop
  | outside {pending : List Line} : context.dynamicBlockNestingLevel = 0 →
      context.dynamicBlockTask = [] → m.staticBlockTask = pending →
      Mirrors m context (.outside pending)
  | inside {nested : ℕ} {collected : List Line} :
      context.dynamicBlockNestingLevel = nested + 1 → m.staticBlockTask = [] →
      context.dynamicBlockTask = collected → Mirrors m context (.inside nested collected)

variable {m : TaskManager} {context : ConnectionContext} {command : Line} {r : Processed}

/-- What is left in a dynamic block at the end is lost. -/
theorem Mirrors.finish {g : Grouping Line} (h : Mirrors m context g) :
    emit m.staticBlockTask = g.finish := by
  cases h with
  | outside _ _ hstatic =>
      rw [hstatic]
      rfl
  | inside _ hstatic _ =>
      rw [hstatic]
      rfl

/-- A block is put out unless it is empty. -/
theorem PutsOut.outBlock {kind : Block} {contextId : Line} {block : List Line}
    {output : Option (Block × OutputTask)} (h : PutsOut kind contextId block output) :
    outBlock output = emit block := by
  cases h with
  | nothing hnil =>
      rw [hnil]
      rfl
  | block timestamp hne =>
      rw [emit_of_ne_nil hne]
      rfl

/-- **One matched command.**  The bulk server puts out what the grammar puts out, and
goes on meaning its state. -/
theorem CommandMove.mirrors (h : CommandMove m context command r) {g : Grouping Line}
    (hg : Mirrors m context g) (hne : command ≠ [])
    (hmatched : mark command = .closes → g.depth ≠ 0) :
    outBlock r.output = (g.feed mark (max m.maxStaticTaskCount 1) command).1 ∧
      ∃ m', r.manager = some m' ∧ m'.maxStaticTaskCount = m.maxStaticTaskCount ∧
        Mirrors m' r.context (g.feed mark (max m.maxStaticTaskCount 1) command).2 := by
  have hplain (hopen : command ≠ ['{']) (hclose : command ≠ ['}']) : mark command = .plain := by
    simp [mark, hopen, hclose]
  cases h with
  | opens hlevel hout =>
      cases hg with
      | outside _ hdynamic hstatic =>
          refine ⟨?_, _, rfl, rfl, .inside rfl rfl hdynamic⟩
          rw [hout.outBlock, hstatic]
          rfl
      | inside hinside _ _ => omega
  | nests hlevel =>
      cases hg with
      | outside hzero _ _ => exact absurd hzero hlevel
      | inside hinside hstatic hdynamic =>
          refine ⟨rfl, _, rfl, rfl, .inside ?_ hstatic hdynamic⟩
          simp [hinside]
  | closes hlevel hout =>
      cases hg with
      | outside hzero _ _ => omega
      | @inside nested collected hinside hstatic hdynamic =>
          obtain rfl : nested = 0 := by omega
          refine ⟨?_, _, rfl, rfl, .outside rfl rfl hstatic⟩
          rw [hout.outBlock, hdynamic]
          rfl
  | unnests hlevel =>
      cases hg with
      | outside _ _ _ => exact absurd rfl (hmatched rfl)
      | @inside nested collected hinside hstatic hdynamic =>
          cases nested with
          | zero => exact absurd hinside hlevel
          | succ nested =>
              refine ⟨rfl, _, rfl, rfl, .inside ?_ hstatic hdynamic⟩
              simp [hinside]
  | skips => exact absurd rfl hne
  | collects _ hopen hclose hlevel =>
      cases hg with
      | outside hzero _ _ => omega
      | inside hinside hstatic hdynamic =>
          have hfeed := hplain hopen hclose
          simp only [Grouping.feed, hfeed]
          exact ⟨rfl, _, rfl, rfl, .inside hinside hstatic (by rw [hdynamic])⟩
  | appends _ hopen hclose hlevel hshort =>
      cases hg with
      | inside hinside _ _ => omega
      | @outside pending hzero hdynamic hstatic =>
          have hfeed := hplain hopen hclose
          have hroom : ¬ max m.maxStaticTaskCount 1 ≤ (pending ++ [command]).length := by
            rw [← hstatic]
            simp at hshort ⊢
            omega
          simp only [Grouping.feed, hfeed, hroom, if_false]
          exact ⟨rfl, _, rfl, rfl, .outside hzero hdynamic (by rw [TaskManager.appended, hstatic])⟩
  | fills _ hopen hclose hlevel hfull hout =>
      cases hg with
      | inside hinside _ _ => omega
      | @outside pending hzero hdynamic hstatic =>
          have hfeed := hplain hopen hclose
          have hroom : max m.maxStaticTaskCount 1 ≤ (pending ++ [command]).length := by
            rw [← hstatic]
            simp at hfull ⊢
            omega
          simp only [Grouping.feed, hfeed, hroom, if_true]
          refine ⟨?_, _, rfl, rfl, .outside hzero hdynamic rfl⟩
          rw [hout.outBlock, hstatic, emit_of_ne_nil (by simp)]

/-! ### Closing braces

Where the languages differ this is how to see it: the library puts a stray brace into a
block, the bulk server never has one in any block. -/

/-- There is no closing brace among the commands. -/
def Clean (commands : List Line) : Prop := ∀ command ∈ commands, mark command ≠ .closes

theorem clean_nil : Clean [] := fun _ hc => by cases hc

theorem Clean.append {commands commands' : List Line} (h : Clean commands)
    (h' : Clean commands') : Clean (commands ++ commands') := fun c hc =>
  (List.mem_append.mp hc).elim (h c) (h' c)

/-- What is put out is as clean as the block was. -/
theorem PutsOut.clean {kind : Block} {contextId : Line} {block : List Line}
    {output : Option (Block × OutputTask)} (h : PutsOut kind contextId block output)
    (hblock : Clean block) : Clean (BulkServer.outBlock output).flatten := by
  rw [h.outBlock]
  exact fun c hc => hblock c (mem_emit.mp hc)

/-- **A closing brace never gets into a block.** -/
theorem CommandMove.clean (h : CommandMove m context command r) (hstatic : Clean m.staticBlockTask)
    (hdynamic : Clean context.dynamicBlockTask) :
    Clean (outBlock r.output).flatten ∧ Clean r.context.dynamicBlockTask ∧
      ∃ m', r.manager = some m' ∧ m'.maxStaticTaskCount = m.maxStaticTaskCount ∧
        Clean m'.staticBlockTask := by
  have hplain (hclose : command ≠ ['}']) : Clean [command] := by
    intro c hc
    rw [List.mem_singleton.mp hc]
    exact fun hmark => hclose (Async.mark_eq_closes.mp hmark)
  cases h with
  | opens _ hout => exact ⟨hout.clean hstatic, hdynamic, _, rfl, rfl, clean_nil⟩
  | closes _ hout => exact ⟨hout.clean hdynamic, clean_nil, _, rfl, rfl, hstatic⟩
  | nests _ | unnests _ | skips => exact ⟨clean_nil, hdynamic, _, rfl, rfl, hstatic⟩
  | collects _ _ hclose _ =>
      exact ⟨clean_nil, hdynamic.append (hplain hclose), _, rfl, rfl, hstatic⟩
  | appends _ _ hclose _ _ =>
      exact ⟨clean_nil, hdynamic, _, rfl, rfl, hstatic.append (hplain hclose)⟩
  | fills _ _ hclose _ _ hout =>
      exact ⟨hout.clean (hstatic.append (hplain hclose)), hdynamic, _, rfl, rfl, clean_nil⟩

/-! ### One step of the connection

A stray brace leaves the level of the context below zero, and what the bulk server does
from then on is no longer described by the grammar.  The clauses that are still kept are
the ones that show the difference in the end. -/

/-- The manager and the context after the lines `fed`, when `blocks` were put out.  That the
grammar and the server agree is only claimed while the braces match; that no brace becomes a
command holds in any case, and is what tells the server apart from the older one when they do
not. -/
structure Tracks (fed : List Line) (m : TaskManager) (context : ConnectionContext)
    (blocks : List (List Line)) : Prop where
  clean : Clean blocks.flatten
  static : Clean m.staticBlockTask
  dynamic : Clean context.dynamicBlockTask
  agrees : Matched mark (commandsIn fed) →
    blocks = (Grouping.run mark (max m.maxStaticTaskCount 1) (commandsIn fed)).1 ∧
      Mirrors m context (Grouping.run mark (max m.maxStaticTaskCount 1) (commandsIn fed)).2

theorem commandsIn_concat (fed : List Line) (hne : command ≠ []) :
    commandsIn (fed ++ [command]) = commandsIn fed ++ [command] := by
  simp [commandsIn, hne]

/-- One command keeps all of this.  Where the braces match the grammar and the server do the
same; a closing brace without an opening one ends the agreement, and from then on only the
clauses about braces are left. -/
theorem Tracks.step {fed : List Line} {blocks : List (List Line)}
    (h : Tracks fed m context blocks) (hmove : CommandMove m context command r) :
    ∃ m', r.manager = some m' ∧ m'.maxStaticTaskCount = m.maxStaticTaskCount ∧
      Tracks (fed ++ [command]) m' r.context (blocks ++ outBlock r.output) := by
  obtain ⟨hout, hdynamic, m', hm', hmax, hstatic⟩ := hmove.clean h.static h.dynamic
  refine ⟨m', hm', hmax, ?_, hstatic, hdynamic, fun hmatched => ?_⟩
  · rw [List.flatten_append]
    exact h.clean.append hout
  · rw [hmax]
    by_cases hne : command = []
    · -- an empty line is no command
      subst hne
      have hsame : commandsIn (fed ++ [[]]) = commandsIn fed := by simp [commandsIn]
      rw [hsame] at hmatched ⊢
      cases hmove with
      | skips =>
          cases hm'
          rw [outBlock, Option.toList_none, List.map_nil, List.append_nil]
          exact h.agrees hmatched
      | collects hne _ _ _ | appends hne _ _ _ _ | fills hne _ _ _ _ _ => exact absurd rfl hne
    · rw [commandsIn_concat fed hne] at hmatched ⊢
      obtain ⟨hbefore, hdepth⟩ := matched_concat.mp hmatched
      obtain ⟨hblocks, hmirrors⟩ := h.agrees hbefore
      have hrun := Grouping.depth_run (max m.maxStaticTaskCount 1) hbefore
      obtain ⟨hfeed, m'', hm'', -, hmirrors'⟩ := hmove.mirrors hmirrors hne fun hcloses hzero => by
        rw [depth_concat, ← hrun, hzero, hcloses] at hdepth
        revert hdepth
        decide
      obtain rfl : m' = m'' := Option.some.inj (hm'.symm.trans hm'')
      rw [Grouping.run_concat, hfeed]
      exact ⟨by rw [← hblocks], hmirrors'⟩

/-- The lines that the `receive` in progress has still to process. -/
def Library.linesLeft (s : Library) : List Line := (s.receiving.map Prod.snd).getD []

/-- The library in a run with a single connection, when `blocks` were put out. -/
inductive Conducts (s : Library) (blocks : List (List Line)) : Session → Prop
  | absent : s = initial → blocks = [] → Conducts s blocks .absent
  | opened {bulk : ℕ} {handle : Handle} {chunks : List Line} {m : TaskManager}
      {context : ConnectionContext} (fed : List Line) : s.sharedTaskManager = some m →
      s.contexts.lookup handle = some context → handle ≠ 0 →
      (s.contexts.erase handle).entries = [] → m.maxStaticTaskCount = bulk →
      chunks.flatMap (getlines '\n') = fed ++ s.linesLeft →
      (∀ other lines, s.receiving = some (other, lines) → other = handle) →
      Tracks fed m context blocks → Conducts s blocks (.opened bulk handle chunks)
  | closed {bulk : ℕ} {chunks : List Line} : s.receiving = none → Clean blocks.flatten →
      (Matched mark (sentCommands chunks) →
        blocks = group mark (max bulk 1) (sentCommands chunks)) →
      Conducts s blocks (.closed bulk chunks)
  | mixed : Conducts s blocks .mixed

theorem observe_mixed (x : Event × Effect) : Session.mixed.observe x = .mixed := by
  obtain ⟨e, effect⟩ := x
  cases e <;> rfl

variable {s s' : Library} {e : Event} {effect : Effect} {blocks : List (List Line)}

/-- What is erased again has changed nothing for the others. -/
theorem erase_insert_entries {β : Type} (contexts : AList fun _ : Handle => β) (handle : Handle)
    (context : β) :
    ((contexts.insert handle context).erase handle).entries =
      (contexts.erase handle).entries := by
  show List.kerase handle ((contexts.insert handle context).entries) = _
  rw [AList.entries_insert]
  exact List.kerase_cons_eq rfl

/-- The first step of the connection. -/
theorem Move.conducts_absent (h : Move initial e effect s') :
    Conducts s' (outBlocks effect) (Session.absent.observe (e, effect)) := by
  cases h with
  | @connects bulk address _ hnull _ =>
      refine .opened [] rfl (AList.lookup_insert _) hnull (erase_insert_entries _ _ _) rfl rfl
        (fun _ _ hreceiving => by cases hreceiving) ⟨clean_nil, clean_nil, clean_nil, fun _ => ?_⟩
      exact ⟨rfl, .outside rfl rfl rfl⟩
  | ignores _ _ | ignoresNull _ | accepts _ _ | misses _ _ | leaves _ _ _ | stops _ _ _ _ _ =>
      exact .mixed
  | returns hreceiving | processes hreceiving _ _ _ => cases hreceiving

/-- A step while the connection is open: a line of its own is processed, or it ends; other
connections there are none. -/
theorem Move.conducts_opened {bulk : ℕ} {handle : Handle} {chunks : List Line}
    (h : Move s e effect s') (hinv : Conducts s blocks (.opened bulk handle chunks)) :
    Conducts s' (blocks ++ outBlocks effect)
      ((Session.opened bulk handle chunks).observe (e, effect)) := by
  obtain _ | ⟨fed, hmanager, hlookup, hnull, hsingle, hbulk, hlines, hreceiving, htracks⟩ := hinv
  have hother {P : Prop} [Decidable P] {session : Session} (hne : ¬ P) :
      Conducts s' (blocks ++ outBlocks effect) (if P then session else .mixed) := by
    rw [if_neg hne]
    exact .mixed
  cases h with
  | connects _ _ _ => exact .mixed
  | @ignores other data _ hnone =>
      refine hother fun hsame => ?_
      subst hsame
      rcases hnone with hzero | hmissing
      · exact hnull hzero
      · rw [hmissing] at hlookup
        cases hlookup
  | ignoresNull _ => exact hother (Ne.symm hnull)
  | @accepts other data context' hidle hcontext =>
      by_cases hsame : other = handle
      · subst hsame
        simp only [Session.observe, if_true, outBlocks, Effect.outputs, List.map_nil,
          List.append_nil]
        refine .opened fed hmanager hlookup hnull hsingle hbulk ?_ ?_ htracks
        · rw [List.flatMap_append, hlines, Library.linesLeft, hidle]
          simp [Library.linesLeft]
        · intro other lines hnow
          cases hnow
          rfl
      · exact hother hsame
  | returns hdone =>
      simp only [Session.observe, outBlocks, Effect.outputs, List.map_nil, List.append_nil]
      refine .opened fed hmanager hlookup hnull hsingle hbulk ?_ (fun _ _ hnow => by cases hnow)
        htracks
      rw [hlines, Library.linesLeft, hdone]
      rfl
  | @processes now other command lines m' context' r hbusy hmanager' hcontext hmove =>
      obtain rfl : other = handle := hreceiving _ _ hbusy
      obtain rfl := Option.some.inj (hmanager.symm.trans hmanager')
      obtain rfl := Option.some.inj (hlookup.symm.trans hcontext)
      obtain ⟨m'', hm'', hmax, htracks'⟩ := htracks.step hmove
      refine .opened (fed ++ [command]) hm'' (AList.lookup_insert _) hnull ?_ (hmax.trans hbulk) ?_
        (fun _ _ hnow => by cases hnow; rfl) htracks'
      · rw [erase_insert_entries]
        exact hsingle
      · rw [hlines, Library.linesLeft, hbusy]
        simp [Library.linesLeft]
  | @misses other _ hnone =>
      refine hother fun hsame => ?_
      rw [← hsame, hnone] at hlookup
      cases hlookup
  | @leaves other _ _ _ hne =>
      refine hother fun hsame => ?_
      exact hne (hsame ▸ hsingle)
  | @stops other m' context' output hidle hcontext _ hmanager' hout =>
      by_cases hsame : other = handle
      · subst hsame
        obtain rfl := Option.some.inj (hmanager.symm.trans hmanager')
        simp only [Session.observe, if_true]
        have hleft : chunks.flatMap (getlines '\n') = fed := by
          rw [hlines, Library.linesLeft, hidle]
          simp
        refine .closed hidle ?_ fun hmatched => ?_
        · rw [List.flatten_append]
          exact htracks.clean.append (hout.clean htracks.static)
        · -- what is left in a dynamic block is lost on both sides
          rw [sentCommands, hleft] at hmatched ⊢
          obtain ⟨hblocks, hmirrors⟩ := htracks.agrees hmatched
          rw [group, ← hbulk, ← hblocks]
          show blocks ++ outBlock output = _
          rw [hout.outBlock, hmirrors.finish]
      · exact hother hsame

/-- **One step of a run with a single connection.** -/
theorem Move.conducts {c : Session} (h : Move s e effect s') (hinv : Conducts s blocks c) :
    Conducts s' (blocks ++ outBlocks effect) (c.observe (e, effect)) := by
  cases hinv with
  | absent hinitial hnil =>
      subst hinitial hnil
      exact h.conducts_absent
  | opened fed hmanager hlookup hnull hsingle hbulk hlines hreceiving htracks =>
      exact h.conducts_opened
        (.opened fed hmanager hlookup hnull hsingle hbulk hlines hreceiving htracks)
  | closed hidle hclean hblocks =>
      cases h with
      | connects _ _ _ | ignores _ _ | ignoresNull _ | accepts _ _ | misses _ _ | leaves _ _ _
        | stops _ _ _ _ _ => exact .mixed
      | returns hreceiving | processes hreceiving _ _ _ =>
          rw [hidle] at hreceiving
          cases hreceiving
  | mixed =>
      rw [observe_mixed]
      exact .mixed

/-- Whatever a run is, the library conducts it. -/
theorem execution_conducts {trace : List (Event × Effect)} (h : machine.Execution trace s) :
    Conducts s (blocksOut trace) (session trace) := by
  have hinv : s.Consistent ∧ Conducts s (blocksOut trace) (session trace) := by
    refine h.induct (I := fun trace s => s.Consistent ∧
      Conducts s (blocksOut trace) (session trace)) ?_ ?_
    · rintro s rfl
      exact ⟨consistent_initial, .absent rfl rfl⟩
    · intro trace s e effect s' _ hinv hs
      obtain ⟨hconsistent, hconducts⟩ := hinv
      have hmove := step_move hconsistent hs
      rw [session_concat, blocksOut_concat]
      exact ⟨move_consistent hmove hconsistent, hmove.conducts hconducts⟩
  exact hinv.2

/-! ### Both libraries

If all braces match, both put out the blocks of the grammar.  If not, the blocks of the
library contain a brace, and those of the bulk server do not. -/

/-- **Where the two command languages agree.**  On one connection the bulk server puts
out the blocks that the asynchronous library puts out exactly when every closing brace
among the commands closes an earlier one. -/
theorem same_blocks_iff_matched {ι : Type*} [Fintype ι] [DecidableEq ι]
    {trace : List (Event × Effect)} {trace₉ : List (Async.Event ι × Async.Effect)}
    {s₉ : Async.Library ι} {bulk id : ℕ} {chunks : List Line}
    (h : machine.Execution trace s) (hclosed : session trace = .closed bulk chunks)
    (h₉ : (Async.machine ι (· = Async.initial)).Execution trace₉ s₉)
    (hclosed₉ : Async.connection id trace₉ = .closed bulk chunks) :
    blocksOut trace = (Async.pushedBy id trace₉).map OutputTask.commands ↔
      Matched mark (sentCommands chunks) := by
  have hconducts := execution_conducts h
  rw [hclosed] at hconducts
  have hfollows := Async.execution_follows id h₉
  rw [hclosed₉] at hfollows
  obtain _ | _ | ⟨-, hclean, hagrees⟩ := hconducts
  cases hfollows with
  | closed hblocks =>
      rw [← hblocks]
      refine ⟨fun hsame => ?_, hagrees⟩
      by_contra hunmatched
      -- the library has put out a closing brace, which the bulk server never does
      obtain ⟨c, hc, hcloses⟩ := exists_closes_mem_group hunmatched
      rw [← hsame] at hc
      exact hclean c hc hcloses

/-- The calls of a single connection to the bulk server that sends `data`. -/
def alone (bulk : ℕ) (data : Line) : List Event :=
  [.connect bulk 1, .receive 1 data] ++
    List.replicate ((getlines '\n' data).length + 1) (.line 0) ++ [.disconnect 1]

/-- The same calls to the asynchronous library, `moves` of them for the data. -/
def alone₉ (bulk moves : ℕ) (data : Line) : List (Async.Event Bool) :=
  [.call false (.connect bulk)] ++ List.replicate 5 (.advance false 0 1) ++
    [.call false (.receive 1 data)] ++ List.replicate moves (.advance false 0 0) ++
    [.call false (.disconnect 1)] ++ List.replicate 5 (.advance false 0 0)

/-- A block in a block, after a command. -/
def nestedLines : Line := ['a', '\n', '{', '\n', 'b', '\n', '{', '\n', '}', '\n', '}', '\n']

/-- A stray brace before a block. -/
def strayLines : Line := ['}', '\n', '{', '\n', 'a', '\n', 'b', '\n', '}', '\n']

/-- On nested braces both servers make the same blocks. -/
theorem same_blocks_iff_matched_nested :
    blocksOut (machine.play initial (alone 3 nestedLines) (by decide +kernel)).1 =
      (Async.pushedBy 0 ((Async.machine Bool (· = Async.initial)).play Async.initial
        (alone₉ 3 11 nestedLines) (by decide +kernel)).1).map OutputTask.commands := by
  have hclosed : session (machine.play initial (alone 3 nestedLines) (by decide +kernel)).1 =
      .closed 3 [nestedLines] := by
    decide +kernel
  exact (same_blocks_iff_matched (Machine.execution_play rfl _) hclosed
    (Machine.execution_play rfl _) (by decide +kernel)).mpr (by decide +kernel)

/-- A stray brace makes the bulk server split the block that follows it. -/
theorem strayLines_blocks :
    session (machine.play initial (alone 1 strayLines) (by decide +kernel)).1 =
        .closed 1 [strayLines] ∧
      blocksOut (machine.play initial (alone 1 strayLines) (by decide +kernel)).1 =
        [[['a']], [['b']]] ∧
      Async.connection 0 ((Async.machine Bool (· = Async.initial)).play Async.initial
        (alone₉ 1 10 strayLines) (by decide +kernel)).1 = .closed 1 [strayLines] ∧
      (Async.pushedBy 0 ((Async.machine Bool (· = Async.initial)).play Async.initial
        (alone₉ 1 10 strayLines) (by decide +kernel)).1).map OutputTask.commands =
          [[['}']], [['a'], ['b']]] := by
  decide +kernel

end BulkServer
