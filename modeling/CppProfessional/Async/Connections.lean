import CppProfessional.Async.Ownership

/-!
# The blocks of one connection

For any number of calling threads and any interleaving of their calls with each
other and with the workers, the blocks of one connection are those of the block
grammar applied to the lines that its client sent: `blocks_of_connection`.

`Follows id s pushed c` is the invariant behind it.  While connection `c` is open,
the lines sent are the ones its context has been fed followed by the ones the call
in progress has still to feed, and the blocks of the fed lines are the ones pushed
followed by the ones this call has still to push.
-/

namespace Async

open Transition Commands

universe u

variable {ι : Type u}

/-- The lines that are commands. -/
def commandsIn (lines : List Line) : List Line := lines.filter fun line => !line.isEmpty

/-- The commands in the data of `receive` calls. -/
def sentCommands (chunks : List Line) : List Line :=
  commandsIn (chunks.flatMap (getlines '\n'))

/-- The blocks with the id of connection `id` that were pushed to the queues. -/
def pushedBy (id : ℕ) (trace : List (Event ι × Effect)) : List OutputTask :=
  (Machine.history (Effect.through Output.pushes) trace).filter
    fun task => decide (task.contextId = toText id)

/-- The lines a call has still to feed. -/
def Pc.lines : Pc → List Line
  | .receiving _ lines => lines
  | .idle | .starting _ | .inserting _ _ | .erasing _ | .testing | .stopping | .joining => []

/-- The block an instruction pushes. -/
def Instr.block : Instr → Option OutputTask
  | .push task => some task
  | .notifyAll | .terminate _ | .start _ | .join _ => none

/-- The blocks a program has still to push. -/
def blocksOf (program : List Instr) : List OutputTask := program.filterMap Instr.block

@[simp] theorem blocksOf_nil : blocksOf [] = [] := rfl

/-- The blocks of a program, instruction by instruction. -/
theorem blocksOf_cons (instr : Instr) (rest : List Instr) :
    blocksOf (instr :: rest) = instr.block.toList ++ blocksOf rest := by
  unfold blocksOf
  rw [List.filterMap_cons]
  cases instr.block <;> rfl

@[simp] theorem blocksOf_publishing (block : Option OutputTask) :
    blocksOf (publishing block) = block.toList := by
  cases block <;> rfl

@[simp] theorem commandsIn_nil : commandsIn [] = [] := rfl

/-- Commands are counted line by line, so lines one after the other add theirs. -/
theorem commandsIn_append (lines lines' : List Line) :
    commandsIn (lines ++ lines') = commandsIn lines ++ commandsIn lines' :=
  List.filter_append ..

/-- A further buffer is cut into lines of its own: the end of a buffer ends a line. -/
theorem sentCommands_concat (chunks : List Line) (data : Line) :
    sentCommands (chunks ++ [data]) = sentCommands chunks ++ commandsIn (getlines '\n' data) := by
  simp only [sentCommands, List.flatMap_append, List.flatMap_singleton, commandsIn_append]

/-- The call that uses the handle, if there is one. -/
inductive Serving (s : Library ι) (handle : Handle) : Pc → List Instr → Prop
  | busy {u : ι} {pc : Pc} {program : List Instr} : s.callers u = ⟨pc, program⟩ →
      pc.handle = some handle → Serving s handle pc program
  | free : s.Unused handle → Serving s handle .idle []

/-- Connection `c` with id `id` in state `s`, when `pushed` are its blocks so far. -/
inductive Follows (id : ℕ) (s : Library ι) (pushed : List OutputTask) : Connection → Prop
  | absent : pushed = [] → Follows id s pushed .absent
  | opened {handle : Handle} {bulk : ℕ} {chunks : List Line} {context : TaskManager}
      {pc : Pc} {program : List Instr} (fed : List Line) :
      s.contexts.lookup handle = some context → handle ≠ 0 →
      context.taskManagerId = toText id → context.maxStaticTaskCount = bulk →
      Serving s handle pc program → pc ≠ .erasing handle →
      sentCommands chunks = fed ++ commandsIn pc.lines →
      (Grouping.run mark (max bulk 1) fed).1 =
        (pushed ++ blocksOf program).map OutputTask.commands →
      Represents context (Grouping.run mark (max bulk 1) fed).2 →
      Follows id s pushed (.opened handle bulk chunks)
  | closing {handle : Handle} {bulk : ℕ} {chunks : List Line} {context : TaskManager}
      {program : List Instr} :
      s.contexts.lookup handle = some context → context.taskManagerId = toText id →
      Serving s handle (.erasing handle) program →
      group mark (max bulk 1) (sentCommands chunks) =
        (pushed ++ blocksOf program).map OutputTask.commands →
      Follows id s pushed (.closing handle bulk chunks)
  | closed {bulk : ℕ} {chunks : List Line} :
      group mark (max bulk 1) (sentCommands chunks) = pushed.map OutputTask.commands →
      Follows id s pushed (.closed bulk chunks)

variable {s s' : Library ι} {id : ℕ} {pushed : List OutputTask} {c : Connection}

/-- A step that touches neither the context of the connection nor the call that uses
its handle. -/
theorem Follows.frame (h : Follows id s pushed c)
    (hlookup : ∀ handle, c.handle = some handle →
      s'.contexts.lookup handle = s.contexts.lookup handle)
    (hserving : ∀ handle pc program, c.handle = some handle → Serving s handle pc program →
      Serving s' handle pc program) : Follows id s' pushed c := by
  cases h with
  | absent hnil => exact .absent hnil
  | opened fed hcontext hnull hid hbulk hbusy hpc hsent hblocks hrep =>
      exact .opened fed ((hlookup _ rfl).trans hcontext) hnull hid hbulk (hserving _ _ _ rfl hbusy)
        hpc hsent hblocks hrep
  | closing hcontext hid hbusy hblocks =>
      exact .closing ((hlookup _ rfl).trans hcontext) hid (hserving _ _ _ rfl hbusy) hblocks
  | closed hblocks => exact .closed hblocks

/-- The call that uses a handle is the one of thread `t`. -/
theorem Serving.eq_of_busy {t : ι} {pc pc' : Pc} {program program' : List Instr}
    {handle : Handle} (h : Serving s handle pc program) (hs : Consistent s)
    (ht : s.callers t = ⟨pc', program'⟩) (hhandle : pc'.handle = some handle) :
    pc = pc' ∧ program = program' := by
  cases h with
  | @busy u _ _ hu hhandle' =>
      have hut : u = t := hs.exclusive u t handle (by rw [hu]; exact hhandle')
        (by rw [ht]; exact hhandle)
      rw [hut, ht] at hu
      cases hu
      exact ⟨rfl, rfl⟩
  | free hunused =>
      have hused : (s.callers t).pc.handle = some handle := by rw [ht]; exact hhandle
      exact absurd hused (hunused t)

/-- Nobody uses the handle. -/
theorem Serving.eq_of_unused {pc : Pc} {program : List Instr} {handle : Handle}
    (h : Serving s handle pc program) (hunused : s.Unused handle) :
    pc = .idle ∧ program = [] := by
  cases h with
  | @busy u _ _ hu hhandle =>
      have hused : (s.callers u).pc.handle = some handle := by rw [hu]; exact hhandle
      exact absurd hused (hunused u)
  | free _ => exact ⟨rfl, rfl⟩

/-! ### What a step pushes for the connection

Blocks are told apart by the name of the manager that pushed them.  A push belongs to
the connection exactly if its block has the id of the connection, which is why the ids
have to be different. -/

variable {e : Event ι} {effect : Effect}

/-- The blocks of connection `id` that a step pushed. -/
def ownPushes (id : ℕ) (effect : Effect) : List OutputTask :=
  (effect.through Output.pushes).filter fun task => decide (task.contextId = toText id)

/-- What one more event adds to the blocks of a connection is what it pushes under its
number. -/
theorem pushedBy_concat (trace : List (Event ι × Effect)) :
    pushedBy id (trace ++ [(e, effect)]) = pushedBy id trace ++ ownPushes id effect := by
  simp only [pushedBy, ownPushes, Machine.history_append, Machine.history_singleton,
    List.filter_append]

/-- What other calls push has another id. -/
theorem ownPushes_of_other {t : ι} {pc : Pc} {instr : Instr} {rest : List Instr} {output : Output}
    {shared : Shared} (hs : Consistent s) (hid : Identified id s c)
    (ht : s.callers t = ⟨pc, instr :: rest⟩)
    (hother : ∀ handle, c.handle = some handle → pc.handle ≠ some handle)
    (hmove : InstrMove s.shared instr output shared) : ownPushes id (.output output) = [] := by
  cases hmove with
  | @pushes task _ =>
      have hmem : .push task ∈ (s.callers t).program := by
        rw [ht]
        exact List.mem_cons_self ..
      have hne : task.contextId ≠ toText id := by
        intro hown
        cases hpc : pc.handle with
        | none => exact hs.unserved t (by rw [ht]; exact hpc) task hmem
        | some handle =>
            obtain ⟨context, hlookup, htasks⟩ := hs.served t handle (by rw [ht]; exact hpc)
            have hcontext := (htasks task hmem).symm.trans hown
            exact hother handle (hid.owner handle context hlookup hcontext) hpc
      simp [ownPushes, Effect.through, Output.pushes, hne]
  | _ => rfl

/-! ### Steps of other threads

A thread that does not use the handle neither changes the context of the connection nor
pushes a block with its id.  That it has no such block left to push is part of
`Consistent`. -/

variable [DecidableEq ι]

/-- No other thread uses the handle, and thread `t` goes where it does not use it. -/
theorem unused_goTo {r : Library ι} {t : ι} {pc : Pc} {program : List Instr} {handle : Handle}
    (hcallers : r.callers = s.callers)
    (hothers : ∀ u, u ≠ t → (s.callers u).pc.handle ≠ some handle)
    (hpc : pc.handle ≠ some handle) : (r.goTo t pc program).Unused handle := by
  intro u
  by_cases hut : u = t
  · rw [hut, callers_goTo_self]
    exact hpc
  · rw [callers_goTo_of_ne _ hut, hcallers]
    exact hothers u hut

/-- A call in progress is not disturbed by a step of another thread, as long as that thread
neither had nor gets the handle: with it, it would be inside the context itself. -/
theorem Serving.goTo {r : Library ι} {t : ι} {pc pc' : Pc} {program program' : List Instr}
    {handle : Handle} (h : Serving s handle pc program) (hcallers : r.callers = s.callers)
    (hbefore : (s.callers t).pc.handle ≠ some handle) (hafter : pc'.handle ≠ some handle) :
    Serving (r.goTo t pc' program') handle pc program := by
  cases h with
  | @busy u _ _ hu hhandle =>
      have hut : u ≠ t := by
        rintro rfl
        rw [hu] at hbefore
        exact hbefore hhandle
      exact .busy (by rw [callers_goTo_of_ne _ hut, hcallers, hu]) hhandle
  | free hunused => exact .free (unused_goTo hcallers (fun u _ => hunused u) hafter)

/-- A step of a thread that does not use the handle of the connection. -/
theorem Follows.goTo {r : Library ι} {t : ι} {pc : Pc} {program : List Instr}
    (h : Follows id s pushed c) (hcallers : r.callers = s.callers)
    (hlookup : ∀ handle, c.handle = some handle →
      r.contexts.lookup handle = s.contexts.lookup handle)
    (hbefore : ∀ handle, c.handle = some handle → (s.callers t).pc.handle ≠ some handle)
    (hafter : ∀ handle, c.handle = some handle → pc.handle ≠ some handle) :
    Follows id (r.goTo t pc program) pushed c :=
  h.frame hlookup fun _ _ _ hc hserving =>
    hserving.goTo hcallers (hbefore _ hc) (hafter _ hc)

/-- A step of a thread that uses no handle. -/
theorem Follows.idle {r : Library ι} {t : ι} {pc : Pc} {program : List Instr}
    (h : Follows id s pushed c) (hcallers : r.callers = s.callers)
    (hcontexts : r.contexts = s.contexts) (hbefore : (s.callers t).pc.handle = none)
    (hafter : pc.handle = none) : Follows id (r.goTo t pc program) pushed c :=
  h.goTo hcallers (fun _ _ => by rw [hcontexts]) (fun _ _ => by rw [hbefore]; simp)
    fun _ _ => by rw [hafter]; simp

/-- A step of a call with another handle. -/
theorem Follows.foreign {r : Library ι} {t : ι} {pc : Pc} {program : List Instr} {handle : Handle}
    (h : Follows id s pushed c) (hc : c.handle ≠ some handle) (hcallers : r.callers = s.callers)
    (hlookup : ∀ other, other ≠ handle → r.contexts.lookup other = s.contexts.lookup other)
    (hbefore : ∀ other ∈ (s.callers t).pc.handle, other = handle)
    (hafter : ∀ other ∈ pc.handle, other = handle) : Follows id (r.goTo t pc program) pushed c := by
  have hother (other : Handle) (hown : c.handle = some other) : other ≠ handle := by
    rintro rfl
    exact hc hown
  exact h.goTo hcallers (fun other hown => hlookup other (hother other hown))
    (fun other hown hused => hother other hown (hbefore other hused))
    fun other hown hused => hother other hown (hafter other hused)

/-! ### Steps of the call that uses the handle

Here the work is done: a line is fed to the context, and what the grammar puts out for
it becomes what the call has to push.  The sum of what was pushed, what is to be pushed
and what the context holds stays that of the lines sent so far. -/

omit [DecidableEq ι] in
/-- The context of an open connection is registered under its handle. -/
theorem Follows.lookup (h : Follows id s pushed c) {handle : Handle}
    (hc : c.handle = some handle) : ∃ context, s.contexts.lookup handle = some context ∧
      context.taskManagerId = toText id := by
  cases h with
  | absent _ => cases hc
  | closed _ => cases hc
  | opened _ hcontext _ hid _ _ _ _ _ _ =>
      cases hc
      exact ⟨_, hcontext, hid⟩
  | closing hcontext hid _ _ =>
      cases hc
      exact ⟨_, hcontext, hid⟩

/-- `connect` registers the context of connection `id`. -/
theorem opens {t : ι} {address : Handle} {bulk : ℕ} (hs : Consistent s) (hnil : pushed = [])
    (hnull : address ≠ 0)
    (hfresh : s.contexts.lookup address = none) :
    Follows id
      ({ s with contexts := s.contexts.insert address (.create bulk (toText id)) }.goTo t .idle [])
      pushed (.opened address bulk []) := by
  have hothers (u : ι) : (s.callers u).pc.handle ≠ some address := by
    intro hu
    obtain ⟨context, hcontext, -⟩ := hs.served u address hu
    rw [hfresh] at hcontext
    cases hcontext
  refine .opened [] (AList.lookup_insert _) hnull rfl rfl
    (.free (unused_goTo rfl (fun u _ => hothers u) (by simp [Pc.handle]))) (by simp) rfl ?_
    (represents_create _ _)
  rw [hnil]
  rfl

/-- `receive` is called with the handle of connection `id`. -/
theorem Follows.receives {t : ι} {handle : Handle} {data : Line} {bulk : ℕ} {chunks : List Line}
    (h : Follows id s pushed (.opened handle bulk chunks)) (hunused : s.Unused handle) :
    Follows id (s.goTo t (.receiving handle (getlines '\n' data)) []) pushed
      (.opened handle bulk (chunks ++ [data])) := by
  cases h with
  | opened fed hcontext hnull hid hbulk hserving _ hsent hblocks hrep =>
      obtain ⟨rfl, rfl⟩ := hserving.eq_of_unused hunused
      refine .opened fed hcontext hnull hid hbulk (.busy (callers_goTo_self ..) rfl) (by simp) ?_
        hblocks hrep
      rw [sentCommands_concat, hsent]
      simp [Pc.lines]

/-- `disconnect` is called with the handle of connection `id`. -/
theorem Follows.finishes {t : ι} {handle : Handle} {bulk : ℕ} {chunks : List Line}
    {context : TaskManager} (h : Follows id s pushed (.opened handle bulk chunks))
    (hunused : s.Unused handle) (hlookup : s.contexts.lookup handle = some context) :
    Follows id
      ({ s with contexts := s.contexts.insert handle context.finish.2 }.goTo t
        (.erasing handle) (publishing context.finish.1)) pushed
      (.closing handle bulk chunks) := by
  cases h with
  | opened fed hcontext _ hid _ hserving _ hsent hblocks hrep =>
      obtain ⟨rfl, rfl⟩ := hserving.eq_of_unused hunused
      rw [hlookup] at hcontext
      cases hcontext
      refine .closing (AList.lookup_insert _) ((sameContext_finish context).id.trans hid)
        (.busy (callers_goTo_self ..) rfl) ?_
      have hfed : sentCommands chunks = fed := by
        rw [hsent]
        simp [Pc.lines]
      have hfinish := finish_represents hrep
      rw [hfed, group, hblocks, ← hfinish]
      simp [commandsOf]

/-- `receive` returns. -/
theorem Follows.received {t : ι} {handle : Handle} {bulk : ℕ} {chunks : List Line}
    (h : Follows id s pushed (.opened handle bulk chunks)) (hs : Consistent s)
    (ht : s.callers t = ⟨.receiving handle [], []⟩) :
    Follows id (s.goTo t .idle []) pushed (.opened handle bulk chunks) := by
  cases h with
  | opened fed hcontext hnull hid hbulk hserving _ hsent hblocks hrep =>
      obtain ⟨rfl, rfl⟩ := hserving.eq_of_busy hs ht rfl
      have hothers (u : ι) (hut : u ≠ t) : (s.callers u).pc.handle ≠ some handle :=
        fun hu => hut (hs.exclusive u t handle hu (by rw [ht]; rfl))
      exact .opened fed hcontext hnull hid hbulk
        (.free (unused_goTo rfl hothers (by simp [Pc.handle]))) (by simp) hsent hblocks hrep

/-- An empty line is passed over. -/
theorem Follows.skips {t : ι} {handle : Handle} {lines : List Line} {bulk : ℕ}
    {chunks : List Line} (h : Follows id s pushed (.opened handle bulk chunks))
    (hs : Consistent s) (ht : s.callers t = ⟨.receiving handle ([] :: lines), []⟩) :
    Follows id (s.goTo t (.receiving handle lines) []) pushed (.opened handle bulk chunks) := by
  cases h with
  | opened fed hcontext hnull hid hbulk hserving _ hsent hblocks hrep =>
      obtain ⟨rfl, rfl⟩ := hserving.eq_of_busy hs ht rfl
      exact .opened fed hcontext hnull hid hbulk (.busy (callers_goTo_self ..) rfl) (by simp)
        hsent hblocks hrep

/-- A command is fed to the context of connection `id`.  What the grammar puts out for it is
what the call has to push next, so the blocks that are still to come are the same before and
after. -/
theorem Follows.adds {t : ι} {now : ℤ} {handle : Handle} {command : Line} {lines : List Line}
    {bulk : ℕ} {chunks : List Line} {context : TaskManager}
    (h : Follows id s pushed (.opened handle bulk chunks)) (hs : Consistent s)
    (ht : s.callers t = ⟨.receiving handle (command :: lines), []⟩) (hcommand : command ≠ [])
    (hlookup : s.contexts.lookup handle = some context) :
    Follows id
      ({ s with contexts := s.contexts.insert handle (context.addTask now command).2 }.goTo t
        (.receiving handle lines) (publishing (context.addTask now command).1)) pushed
      (.opened handle bulk chunks) := by
  cases h with
  | opened fed hcontext hnull hid hbulk hserving _ hsent hblocks hrep =>
      obtain ⟨rfl, rfl⟩ := hserving.eq_of_busy hs ht rfl
      rw [hlookup] at hcontext
      cases hcontext
      have hsame := sameContext_addTask context now command
      obtain ⟨hput, hnext⟩ := addTask_represents hrep now command
      have hbulk' : context.bulk = max bulk 1 := by rw [TaskManager.bulk, hbulk]
      rw [hbulk'] at hput hnext
      have hrun : Grouping.run mark (max bulk 1) (fed ++ [command]) = _ :=
        Grouping.run_concat fed command
      refine .opened (fed ++ [command]) (AList.lookup_insert _) hnull
        (hsame.id.trans hid) (hsame.bulk.trans hbulk) (.busy (callers_goTo_self ..) rfl)
        (by simp) ?_ ?_ ?_
      · rw [hsent]
        have hkeep : (!command.isEmpty) = true := by simpa using hcommand
        simp [Pc.lines, commandsIn, hkeep]
      · rw [hrun, hblocks, ← hput]
        simp [commandsOf]
      · rw [hrun]
        exact hnext

/-- An instruction of the call that uses the handle of connection `id`.  A push moves one block
from the program to the queues; every other instruction leaves both alone. -/
theorem Follows.executes {t : ι} {handle : Handle} {pc : Pc} {instr : Instr}
    {rest : List Instr} {output : Output} {shared : Shared} (h : Follows id s pushed c)
    (hs : Consistent s) (ht : s.callers t = ⟨pc, instr :: rest⟩)
    (hpc : pc.handle = some handle) (hc : c.handle = some handle)
    (hmove : InstrMove s.shared instr output shared) :
    Follows id ({ s with shared := shared }.goTo t pc rest)
      (pushed ++ ownPushes id (.output output)) c := by
  have hown : ownPushes id (.output output) = instr.block.toList := by
    obtain ⟨context, hlookup, hcontext⟩ := h.lookup hc
    obtain ⟨context', hlookup', htasks⟩ := hs.served t handle (by rw [ht]; exact hpc)
    rw [hlookup] at hlookup'
    cases hlookup'
    cases hmove with
    | @pushes task _ =>
        have hid : task.contextId = toText id :=
          (htasks task (by rw [ht]; exact List.mem_cons_self ..)).trans hcontext
        simp [ownPushes, Effect.through, Output.pushes, Instr.block, hid]
    | _ => rfl
  have hblocks : pushed ++ ownPushes id (.output output) ++ blocksOf rest =
      pushed ++ blocksOf (instr :: rest) := by
    rw [hown, blocksOf_cons, List.append_assoc]
  cases h with
  | absent _ => cases hc
  | closed _ => cases hc
  | opened fed hcontext hnull hid hbulk hserving hnot hsent hput hrep =>
      cases hc
      obtain ⟨rfl, rfl⟩ := hserving.eq_of_busy hs ht hpc
      exact .opened fed hcontext hnull hid hbulk (.busy (callers_goTo_self ..) hpc) hnot hsent
        (by rw [hput, hblocks]) hrep
  | closing hcontext hid hserving hput =>
      cases hc
      obtain ⟨rfl, rfl⟩ := hserving.eq_of_busy hs ht hpc
      exact .closing hcontext hid (.busy (callers_goTo_self ..) hpc) (by rw [hput, hblocks])

omit [DecidableEq ι] in
/-- `disconnect` erases the context of connection `id`. -/
theorem Follows.erased {t : ι} {handle : Handle} {bulk : ℕ} {chunks : List Line}
    (h : Follows id s pushed (.closing handle bulk chunks)) (hs : Consistent s)
    (ht : s.callers t = ⟨.erasing handle, []⟩) : Follows id s' pushed (.closed bulk chunks) := by
  cases h with
  | closing _ _ hserving hblocks =>
      obtain ⟨-, rfl⟩ := hserving.eq_of_busy hs ht rfl
      exact .closed (by rw [hblocks, blocksOf_nil, List.append_nil])

/-! ### Every step

The cases of `Move` are sorted into the two groups above, and into those that open or
close the connection.  What a client observes depends on the effect alone, so most steps
are silent for him. -/

omit [DecidableEq ι] in
/-- A step without meaning for the connection. -/
theorem Follows.silent (h : Follows id s' pushed c) (hpush : ownPushes id effect = [])
    (hc : c.observe id (e, effect) = c) :
    Follows id s' (pushed ++ ownPushes id effect) (c.observe id (e, effect)) := by
  rw [hc, hpush, List.append_nil]
  exact h

omit [DecidableEq ι] in
/-- A step that changes the connection and pushes nothing. -/
theorem Follows.change {c' : Connection} (h : Follows id s' pushed c')
    (hpush : ownPushes id effect = []) (hc : c.observe id (e, effect) = c') :
    Follows id s' (pushed ++ ownPushes id effect) (c.observe id (e, effect)) := by
  rw [hc, hpush, List.append_nil]
  exact h

/-- A connection that was not opened under a handle is not found under it. -/
theorem handle_ne_of_not_opened {handle other : Handle} {bulk : ℕ} {chunks : List Line}
    (hne : ∀ bulk' chunks', Connection.opened other bulk chunks ≠ .opened handle bulk' chunks') :
    handle ≠ other := by
  rintro rfl
  exact hne bulk chunks rfl

omit [DecidableEq ι] in
/-- Data that arrives for another handle is none of this connection's. -/
theorem observe_receive_of_ne {t : ι} {handle : Handle} {data : Line} {output : Output}
    (hne : ∀ bulk chunks, c ≠ .opened handle bulk chunks) :
    c.observe id (.call t (.receive handle data), .output output) = c := by
  cases c with
  | opened other bulk chunks =>
      simp only [Connection.observe, handle_ne_of_not_opened hne, if_false]
  | absent | closing _ _ _ | closed _ _ => rfl

omit [DecidableEq ι] in
/-- Neither is the end of another connection. -/
theorem observe_disconnect_of_ne {t : ι} {handle : Handle} (hplain : effect.plain = true)
    (hne : ∀ bulk chunks, c ≠ .opened handle bulk chunks) :
    c.observe id (.call t (.disconnect handle), effect) = c := by
  cases c with
  | opened other bulk chunks =>
      simp only [Connection.observe, handle_ne_of_not_opened hne, if_false]
  | absent | closing _ _ _ | closed _ _ =>
      rcases Effect.eq_of_plain hplain with ⟨o, rfl⟩ | rfl <;> rfl

omit [DecidableEq ι] in
/-- A step inside a call changes nothing for the client, as long as it has no effect that he
sees. -/
theorem observe_advance {t : ι} {now : ℤ} {address : Handle} (hplain : effect.plain = true) :
    c.observe id (.advance t now address, effect) = c := by
  rcases Effect.eq_of_plain hplain with ⟨o, rfl⟩ | rfl <;> cases c <;> rfl

omit [DecidableEq ι] in
/-- What the workers do is not seen by a client. -/
theorem observe_worker (hcaller : e.caller = none) (hplain : effect.plain = true) :
    c.observe id (e, effect) = c := by
  cases e with
  | call t call => cases hcaller
  | advance t now address => cases hcaller
  | worker w opened => rcases Effect.eq_of_plain hplain with ⟨o, rfl⟩ | rfl <;> cases c <;> rfl
  | spurious w => rcases Effect.eq_of_plain hplain with ⟨o, rfl⟩ | rfl <;> cases c <;> rfl

omit [DecidableEq ι] in
/-- The erasure of another context is none of this connection's. -/
theorem observe_erased_of_ne {t : ι} {now : ℤ} {address handle : Handle}
    (hne : c.handle ≠ some handle) :
    c.observe id (.advance t now address, .erased handle) = c := by
  cases c with
  | closing other bulk chunks =>
      have hother : handle ≠ other := fun heq => hne (by rw [heq]; rfl)
      simp only [Connection.observe, hother, if_false]
  | absent | opened _ _ _ | closed _ _ => rfl

omit [DecidableEq ι] in
/-- A connection with a handle is open, or a call is erasing its context. -/
theorem Follows.opened_or_closing {handle : Handle} (h : Follows id s pushed c)
    (hc : c.handle = some handle) :
    ∃ bulk chunks pc program, Serving s handle pc program ∧
      (c = .opened handle bulk chunks ∧ pc ≠ .erasing handle ∨
        c = .closing handle bulk chunks ∧ pc = .erasing handle) := by
  cases h with
  | absent _ => cases hc
  | closed _ => cases hc
  | opened _ _ _ _ _ hserving hnot _ _ _ =>
      cases hc
      exact ⟨_, _, _, _, hserving, Or.inl ⟨rfl, hnot⟩⟩
  | closing _ _ hserving _ =>
      cases hc
      exact ⟨_, _, _, _, hserving, Or.inr ⟨rfl, rfl⟩⟩

omit [DecidableEq ι] in
/-- Nobody uses the handle of an open connection: it is not being closed. -/
theorem Follows.opened_of_unused {handle : Handle} (h : Follows id s pushed c)
    (hc : c.handle = some handle) (hunused : s.Unused handle) :
    ∃ bulk chunks, c = .opened handle bulk chunks := by
  obtain ⟨bulk, chunks, pc, program, hserving, ⟨hopened, -⟩ | ⟨-, rfl⟩⟩ := h.opened_or_closing hc
  · exact ⟨bulk, chunks, hopened⟩
  · cases (hserving.eq_of_unused hunused).1

omit [DecidableEq ι] in
/-- The call that uses the handle is a `receive`: the connection is not being closed. -/
theorem Follows.opened_of_receiving {t : ι} {handle : Handle} {lines : List Line}
    {program : List Instr} (h : Follows id s pushed c) (hs : Consistent s)
    (hc : c.handle = some handle) (ht : s.callers t = ⟨.receiving handle lines, program⟩) :
    ∃ bulk chunks, c = .opened handle bulk chunks := by
  obtain ⟨bulk, chunks, pc, _, hserving, ⟨hopened, -⟩ | ⟨-, rfl⟩⟩ := h.opened_or_closing hc
  · exact ⟨bulk, chunks, hopened⟩
  · cases (hserving.eq_of_busy hs ht rfl).1

omit [DecidableEq ι] in
/-- The call that uses the handle erases its context: the connection is being closed. -/
theorem Follows.closing_of_erasing {t : ι} {handle : Handle} {program : List Instr}
    (h : Follows id s pushed c) (hs : Consistent s) (hc : c.handle = some handle)
    (ht : s.callers t = ⟨.erasing handle, program⟩) :
    ∃ bulk chunks, c = .closing handle bulk chunks := by
  obtain ⟨bulk, chunks, pc, _, hserving, ⟨-, hnot⟩ | ⟨hclosing, -⟩⟩ := h.opened_or_closing hc
  · exact absurd (hserving.eq_of_busy hs ht rfl).1 hnot
  · exact ⟨bulk, chunks, hclosing⟩

/-- **The step lemma.**  A step is one of the calls of this connection, a step of another call,
which leaves the context and the program of this one alone, or a step of a worker, which takes
from the queues and pushes nothing. -/
theorem move_follows (h : Move s e effect s') (hs : Consistent s) (hid : Identified id s c)
    (hinv : Follows id s pushed c) :
    Follows id s' (pushed ++ ownPushes id effect) (c.observe id (e, effect)) := by
  cases h with
  | connects ht =>
      refine Follows.silent (hinv.idle rfl rfl (by rw [ht]; rfl) rfl) rfl ?_
      cases c <;> rfl
  | @ignores t handle data _ hmiss =>
      refine Follows.silent hinv rfl (observe_receive_of_ne ?_)
      rintro bulk chunks rfl
      -- the handle of an open connection is not null and is registered
      cases hinv with
      | opened _ hcontext hnull _ _ _ _ _ _ _ =>
          rcases hmiss with hzero | hnone
          · exact hnull hzero
          · rw [hnone] at hcontext
            cases hcontext
  | ignoresNull _ =>
      refine Follows.silent hinv rfl (observe_disconnect_of_ne rfl ?_)
      rintro bulk chunks rfl
      cases hinv with
      | opened _ _ hnull _ _ _ _ _ _ _ => exact hnull rfl
  | @receives t handle data context ht _ hunused hlookup =>
      by_cases hc : c.handle = some handle
      · obtain ⟨bulk, chunks, rfl⟩ := hinv.opened_of_unused hc hunused
        exact Follows.change (hinv.receives hunused) rfl (by simp [Connection.observe])
      · refine Follows.silent ?_ rfl (observe_receive_of_ne ?_)
        · exact hinv.foreign hc rfl (fun _ _ => rfl) (by simp [ht, Caller.idle, Pc.handle])
            (by simp [Pc.handle])
        · rintro bulk chunks rfl
          exact hc rfl
  | @misses t handle ht hlookup =>
      refine Follows.silent (hinv.idle rfl rfl (by rw [ht]; rfl) rfl) rfl
        (observe_disconnect_of_ne rfl ?_)
      rintro bulk chunks rfl
      obtain ⟨context, hregistered, -⟩ := hinv.lookup rfl
      rw [hlookup] at hregistered
      cases hregistered
  | @finishes t handle context ht _ hunused hlookup =>
      by_cases hc : c.handle = some handle
      · obtain ⟨bulk, chunks, rfl⟩ := hinv.opened_of_unused hc hunused
        exact Follows.change (hinv.finishes hunused hlookup) rfl (by simp [Connection.observe])
      · refine Follows.silent ?_ rfl (observe_disconnect_of_ne rfl ?_)
        · exact hinv.foreign hc rfl (fun _ hother => AList.lookup_insert_ne hother)
            (by simp [ht, Caller.idle, Pc.handle]) (by simp [Pc.handle])
        · rintro bulk chunks rfl
          exact hc rfl
  | @executes t now address pc instr rest output shared ht hmove =>
      -- the call is one with the handle of the connection, or what it pushes is foreign
      by_cases hown : ∃ handle, c.handle = some handle ∧ pc.handle = some handle
      · obtain ⟨handle, hc, hpc⟩ := hown
        rw [observe_advance rfl]
        exact hinv.executes hs ht hpc hc hmove
      · have hother (handle : Handle) (hc : c.handle = some handle) : pc.handle ≠ some handle :=
          fun hpc => hown ⟨handle, hc, hpc⟩
        refine Follows.silent ?_ (ownPushes_of_other hs hid ht hother hmove) (observe_advance rfl)
        exact hinv.goTo rfl (fun _ _ => rfl) (fun handle hc => by rw [ht]; exact hother handle hc)
          hother
  | numbers ht =>
      exact Follows.silent (hinv.idle rfl rfl (by rw [ht]; rfl) rfl) rfl (observe_advance rfl)
  | @inserts t now address bulk id' ht _ hnull hfresh =>
      by_cases hown : id' = id
      · subst hown
        obtain ⟨rfl, -⟩ := hid.inserting t bulk (by rw [ht])
        cases hinv with
        | absent hnil =>
            refine Follows.change (opens hs hnil hnull hfresh) rfl
              (by simp [Connection.observe])
      · refine Follows.silent ?_ rfl ?_
        · refine hinv.goTo rfl (fun handle hc => AList.lookup_insert_ne ?_)
            (fun _ _ => by rw [ht]; simp [Pc.handle]) (fun _ _ => by simp [Pc.handle])
          -- the allocation does not return an address in use
          rintro rfl
          obtain ⟨context, hcontext, -⟩ := hinv.lookup hc
          rw [hfresh] at hcontext
          cases hcontext
        · cases c <;> simp [Connection.observe, hown]
  | @received t now address handle ht =>
      refine Follows.silent ?_ rfl (observe_advance rfl)
      by_cases hc : c.handle = some handle
      · obtain ⟨bulk, chunks, rfl⟩ := hinv.opened_of_receiving hs hc ht
        exact hinv.received hs ht
      · exact hinv.foreign hc rfl (fun _ _ => rfl) (by simp [ht, Pc.handle])
          (by simp [Pc.handle])
  | @skips t now address handle lines ht =>
      refine Follows.silent ?_ rfl (observe_advance rfl)
      by_cases hc : c.handle = some handle
      · obtain ⟨bulk, chunks, rfl⟩ := hinv.opened_of_receiving hs hc ht
        exact hinv.skips hs ht
      · exact hinv.foreign hc rfl (fun _ _ => rfl) (by simp [ht, Pc.handle])
          (by simp [Pc.handle])
  | @adds t now address handle command lines context ht hcommand hlookup =>
      refine Follows.silent ?_ rfl (observe_advance rfl)
      by_cases hc : c.handle = some handle
      · obtain ⟨bulk, chunks, rfl⟩ := hinv.opened_of_receiving hs hc ht
        exact hinv.adds hs ht hcommand hlookup
      · exact hinv.foreign hc rfl (fun _ hother => AList.lookup_insert_ne hother)
          (by simp [ht, Pc.handle]) (by simp [Pc.handle])
  | @erases t now address handle ht =>
      by_cases hc : c.handle = some handle
      · obtain ⟨bulk, chunks, rfl⟩ := hinv.closing_of_erasing hs hc ht
        exact Follows.change (hinv.erased hs ht) rfl (by simp [Connection.observe])
      · refine Follows.silent ?_ rfl (observe_erased_of_ne hc)
        exact hinv.foreign hc rfl (fun _ hother => AList.lookup_erase_ne hother)
          (by simp [ht, Pc.handle]) (by simp [Pc.handle])
  | findsEmpty ht _ =>
      exact Follows.silent (hinv.idle rfl rfl (by rw [ht]; rfl) rfl) rfl (observe_advance rfl)
  | findsContexts ht _ =>
      exact Follows.silent (hinv.idle rfl rfl (by rw [ht]; rfl) rfl) rfl (observe_advance rfl)
  | stops ht =>
      exact Follows.silent (hinv.idle rfl rfl (by rw [ht]; rfl) rfl) rfl (observe_advance rfl)
  | joined ht =>
      exact Follows.silent (hinv.idle rfl rfl (by rw [ht]; rfl) rfl) rfl (observe_advance rfl)
  | @works e w output shared hcaller hmove =>
      refine Follows.silent ?_ ?_ (observe_worker hcaller rfl)
      · refine hinv.frame (fun _ _ => rfl) fun handle pc program _ hserving => ?_
        cases hserving with
        | busy hu hhandle => exact .busy hu hhandle
        | free hunused => exact .free hunused
      · cases hmove with
        | writes _ _ _ houtput => rcases houtput with rfl | rfl <;> rfl
        | _ => rfl

/-! ### Every run

The trace determines the state of the client, and with `Follows` the blocks of the
connection are a function of it. -/

variable [Fintype ι]

/-- The invariant over whole runs, by induction on the run.  It carries the state of the client
along, because the blocks of a connection are a function of the buffers it has sent and not of
the state of the library alone. -/
theorem execution_follows {trace : List (Event ι × Effect)} (id : ℕ)
    (h : (machine ι (· = initial)).Execution trace s) :
    Follows id s (pushedBy id trace) (connection id trace) := by
  have hinv : Consistent s ∧ Identified id s (connection id trace) ∧
      Follows id s (pushedBy id trace) (connection id trace) := by
    refine h.induct (I := fun trace s => Consistent s ∧ Identified id s (connection id trace) ∧
      Follows id s (pushedBy id trace) (connection id trace)) ?_ ?_
    · rintro s rfl
      exact ⟨consistent_initial, identified_initial id, .absent rfl⟩
    · intro trace s e effect s' _ hinv hs
      obtain ⟨hconsistent, hidentified, hfollows⟩ := hinv
      have hmove := step_move hs
      rw [pushedBy_concat, connection_concat]
      exact ⟨move_consistent hmove hconsistent, move_identified hmove hidentified,
        move_follows hmove hconsistent hidentified hfollows⟩
  exact hinv.2.2

/-- **The blocks of a connection.**  However the calls interleave, the blocks with the
id of a closed connection are those of the block grammar for the commands sent over
it, and both queues receive the same blocks in the same order.

The ids are counted without a bound here, where the source has a `std::atomic<int>`,
so this is about runs that call `connect` at most `2 ^ 31` times. -/
theorem blocks_of_connection {trace : List (Event ι × Effect)} {bulk : ℕ} {chunks : List Line}
    (h : (machine ι (· = initial)).Execution trace s)
    (hclosed : connection id trace = .closed bulk chunks)
    (hwhole : ∀ chunk ∈ chunks, WholeLines '\n' chunk) :
    (pushedBy id trace).map OutputTask.commands =
        group mark (max bulk 1) (commandsIn (getlines '\n' chunks.flatten)) ∧
      ∀ q, Machine.history (Effect.through (Output.takes q)) trace ++ s.shared.get q =
        Machine.history (Effect.through Output.pushes) trace := by
  constructor
  · have hfollows := execution_follows id h
    rw [hclosed] at hfollows
    cases hfollows with
    | closed hblocks =>
        rw [getlines_flatten hwhole]
        exact hblocks.symm
  · intro q
    obtain ⟨s₀, rfl, hrun⟩ := h
    have hlaw := run_queue hrun q
    rw [← hlaw]
    cases q <;> rfl

/-- Two clients with their lines interleaved; the first one has a nested block, sends a
stray brace, and leaves with a block in progress. -/
def twoClients : List (Event Bool × Effect) × Library Bool :=
  (machine Bool (· = initial)).play initial
    (List.flatten
      [[.call false (.connect 2)], List.replicate 5 (.advance false 0 1),
        [.call true (.connect 1)], List.replicate 2 (.advance true 0 2),
        [.call false (.receive 1 ['a', '\n', '{', '\n', 'b', '\n']),
          .call true (.receive 2 ['x', '\n', 'y', '\n'])],
        List.flatten (List.replicate 5 [.advance false 0 0, .advance true 0 0]),
        [.advance true 0 0, .advance true 0 0, .advance false 0 0],
        [.call false (.receive 1 ['{', '\n', 'c', '\n', '}', '\n', '}', '\n', '}', '\n'])],
        List.replicate 8 (.advance false 0 0),
        [.call false (.disconnect 1)], List.replicate 4 (.advance false 0 0)])
    (by decide +kernel)

/-- Two clients with block sizes one and two, whose buffers take turns. -/
theorem blocks_of_connection_twoClients :
    (pushedBy 0 twoClients.1).map OutputTask.commands =
      [[['a']], [['b'], ['c']], [['}']]] := by
  have hclosed : connection 0 twoClients.1 = .closed 2
      [['a', '\n', '{', '\n', 'b', '\n'],
        ['{', '\n', 'c', '\n', '}', '\n', '}', '\n', '}', '\n']] := by
    decide +kernel
  have hexec : (machine Bool (· = initial)).Execution twoClients.1 twoClients.2 :=
    Machine.execution_play rfl _
  have hblocks := (blocks_of_connection hexec hclosed (by decide)).1
  rw [hblocks]
  decide

end Async
