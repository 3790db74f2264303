import CppProfessional.Async.Steps

/-!
# Who owns a context and its blocks

Two invariants of the library under any number of calling threads.

* `Consistent` — a handle is used by one call at a time, its context is registered
  while it is used, and the blocks a call has left to push carry the id of that
  context;
* `Identified id` — seen from one connection, followed through the calls that are
  made with its handle (`Connection`): no other context has its id, and the id is
  given out once.
-/

namespace Async

open Transition Commands

universe u

/-! ### A connection as its client sees it

Nothing here looks into the library: a connection is opened by the `connect` that
returns its handle and closed when its `disconnect` has erased it, and the data in
between is what its client has sent. -/

/-- The life of a connection: the handle and the bulk size from the `connect` that
returned it, and the data sent, up to the end of its `disconnect`. -/
inductive Connection
  | absent
  | opened (handle : Handle) (bulk : ℕ) (chunks : List Line)
  | closing (handle : Handle) (bulk : ℕ) (chunks : List Line)
  | closed (bulk : ℕ) (chunks : List Line)
  deriving DecidableEq, Repr

/-- The handle of a connection that is open. -/
def Connection.handle : Connection → Option Handle
  | .opened handle _ _ | .closing handle _ _ => some handle
  | .absent | .closed _ _ => none

section Observe

variable {ι : Type u}

/-- What a step means for connection `id`: its `connect` returns, its client sends
data or disconnects, or the context is erased. -/
def Connection.observe (id : ℕ) : Connection → Event ι × Effect → Connection
  | .absent, (_, .connected handle id' bulk) =>
      if id' = id then .opened handle bulk [] else .absent
  | .opened handle bulk chunks, (.call _ (.receive handle' data), _) =>
      if handle' = handle then .opened handle bulk (chunks ++ [data])
      else .opened handle bulk chunks
  | .opened handle bulk chunks, (.call _ (.disconnect handle'), _) =>
      if handle' = handle then .closing handle bulk chunks else .opened handle bulk chunks
  | .closing handle bulk chunks, (_, .erased handle') =>
      if handle' = handle then .closed bulk chunks else .closing handle bulk chunks
  | connection, _ => connection

/-- Connection `id` at the end of a trace. -/
def connection (id : ℕ) (trace : List (Event ι × Effect)) : Connection :=
  trace.foldl (Connection.observe id) .absent

theorem connection_concat (id : ℕ) (trace : List (Event ι × Effect)) (x : Event ι × Effect) :
    connection id (trace ++ [x]) = (connection id trace).observe id x := by
  simp only [connection, List.foldl_append, List.foldl_cons, List.foldl_nil]

end Observe

/-- The text of a number determines it, so that a manager's name identifies its connection. -/
theorem toText_injective {id id' : ℕ} (h : toText id = toText id') : id = id' := by
  have hdigits : Nat.toDigits 10 id = Nat.toDigits 10 id' := h
  have hread (n : ℕ) : Nat.ofDigitChars 10 (Nat.toDigits 10 n) 0 = n :=
    Nat.ofDigitChars_toDigits (by decide) (by decide)
  rw [← hread id, hdigits, hread id']

/-! ### Handles in use

That a client uses its handle in one call at a time is a guard of the step.  From it
follows what the library itself relies on, that the context of a call is not changed
under it. -/

variable {ι : Type u}

/-- A handle is used by one call, which has the blocks of its context to push.  The parts need
each other: that what a call pushes has the name of its context is kept only because no other
call uses the handle meanwhile, and a call without a handle must have nothing to push. -/
structure Consistent (s : Library ι) : Prop where
  exclusive : ∀ u v handle, (s.callers u).pc.handle = some handle →
    (s.callers v).pc.handle = some handle → u = v
  served : ∀ u handle, (s.callers u).pc.handle = some handle →
    ∃ context, s.contexts.lookup handle = some context ∧
      ∀ task, .push task ∈ (s.callers u).program → task.contextId = context.taskManagerId
  unserved : ∀ u, (s.callers u).pc.handle = none →
    ∀ task, .push task ∉ (s.callers u).program

variable [DecidableEq ι] {s s' : Library ι} {e : Event ι} {effect : Effect}

theorem callers_goTo_self (s : Library ι) (t : ι) (pc : Pc) (program : List Instr) :
    (s.goTo t pc program).callers t = ⟨pc, program⟩ := Function.update_self ..

theorem callers_goTo_of_ne (s : Library ι) {t u : ι} (hut : u ≠ t) (pc : Pc)
    (program : List Instr) : (s.goTo t pc program).callers u = s.callers u :=
  Function.update_of_ne hut ..

/-- One thread moves: the contexts used by the others keep their ids, and what the
thread itself uses is its own. -/
theorem Consistent.goTo {r : Library ι} {t : ι} {pc : Pc} {program : List Instr}
    (h : Consistent s) (hcallers : r.callers = s.callers)
    (hothers : ∀ u handle context, u ≠ t → (s.callers u).pc.handle = some handle →
      s.contexts.lookup handle = some context →
      ∃ context', r.contexts.lookup handle = some context' ∧
        context'.taskManagerId = context.taskManagerId)
    (hself : ∀ handle, pc.handle = some handle →
      (∀ u, u ≠ t → (s.callers u).pc.handle ≠ some handle) ∧
      ∃ context, r.contexts.lookup handle = some context ∧
        ∀ task, .push task ∈ program → task.contextId = context.taskManagerId)
    (hnone : pc.handle = none → ∀ task, .push task ∉ program) :
    Consistent (r.goTo t pc program) where
  exclusive u v handle hu hv := by
    by_cases hut : u = t
    · by_cases hvt : v = t
      · rw [hut, hvt]
      · rw [hut, callers_goTo_self] at hu
        rw [callers_goTo_of_ne _ hvt, hcallers] at hv
        exact absurd hv ((hself handle hu).1 v hvt)
    · rw [callers_goTo_of_ne _ hut, hcallers] at hu
      by_cases hvt : v = t
      · rw [hvt, callers_goTo_self] at hv
        exact absurd hu ((hself handle hv).1 u hut)
      · rw [callers_goTo_of_ne _ hvt, hcallers] at hv
        exact h.exclusive u v handle hu hv
  served u handle hu := by
    by_cases hut : u = t
    · rw [hut, callers_goTo_self] at hu ⊢
      exact (hself handle hu).2
    · rw [callers_goTo_of_ne _ hut, hcallers] at hu ⊢
      obtain ⟨context, hlookup, htasks⟩ := h.served u handle hu
      obtain ⟨context', hlookup', hid⟩ := hothers u handle context hut hu hlookup
      exact ⟨context', hlookup', fun task htask => (htasks task htask).trans hid.symm⟩
  unserved u hu := by
    by_cases hut : u = t
    · rw [hut, callers_goTo_self] at hu ⊢
      exact hnone hu
    · rw [callers_goTo_of_ne _ hut, hcallers] at hu ⊢
      exact h.unserved u hu

/-- A thread goes to a position that uses no handle, with nothing to push. -/
theorem Consistent.leave {r : Library ι} {t : ι} {pc : Pc} {program : List Instr}
    (h : Consistent s) (hcallers : r.callers = s.callers)
    (hothers : ∀ u handle context, u ≠ t → (s.callers u).pc.handle = some handle →
      s.contexts.lookup handle = some context → r.contexts.lookup handle = some context)
    (hpc : pc.handle = none) (hprogram : ∀ task, .push task ∉ program) :
    Consistent (r.goTo t pc program) := by
  refine h.goTo hcallers (fun u handle context hut hu hlookup => ?_) (fun handle hhandle => ?_)
    fun _ => hprogram
  · exact ⟨context, hothers u handle context hut hu hlookup, rfl⟩
  · rw [hpc] at hhandle
    cases hhandle

/-- ... and the contexts stay as they are. -/
theorem Consistent.settle {r : Library ι} {t : ι} {pc : Pc} {program : List Instr}
    (h : Consistent s) (hcallers : r.callers = s.callers) (hcontexts : r.contexts = s.contexts)
    (hpc : pc.handle = none) (hprogram : ∀ task, .push task ∉ program) :
    Consistent (r.goTo t pc program) := by
  refine h.leave hcallers (fun u handle context _ _ hlookup => ?_) hpc hprogram
  rw [hcontexts]
  exact hlookup

/-- Under every handle there is a context of the same manager after a context has been replaced
by one of the same manager. -/
theorem lookup_insert_same {contexts : Contexts} {handle handle' : Handle}
    {context context' other : TaskManager} (hlookup : contexts.lookup handle = some context)
    (hid : context'.taskManagerId = context.taskManagerId)
    (hother : contexts.lookup handle' = some other) :
    ∃ other', (contexts.insert handle context').lookup handle' = some other' ∧
      other'.taskManagerId = other.taskManagerId := by
  by_cases hhandle : handle' = handle
  · subst hhandle
    rw [hlookup] at hother
    cases hother
    exact ⟨context', AList.lookup_insert _, hid⟩
  · exact ⟨other, by rw [AList.lookup_insert_ne hhandle, hother], rfl⟩

/-- A thread stores another state of its own context, whose commands it is to push. -/
theorem Consistent.stores {r : Library ι} {t : ι} {pc : Pc} {program : List Instr}
    {handle : Handle} {context context' : TaskManager} (h : Consistent s)
    (hcallers : r.callers = s.callers) (hcontexts : r.contexts = s.contexts.insert handle context')
    (hlookup : s.contexts.lookup handle = some context)
    (hid : context'.taskManagerId = context.taskManagerId)
    (hown : ∀ u, u ≠ t → (s.callers u).pc.handle ≠ some handle) (hpc : pc.handle = some handle)
    (hprogram : ∀ task, .push task ∈ program → task.contextId = context.taskManagerId) :
    Consistent (r.goTo t pc program) := by
  refine h.goTo hcallers (fun u other _ _ _ hother => ?_) (fun other hother => ?_) fun hnone => ?_
  · rw [hcontexts]
    exact lookup_insert_same hlookup hid hother
  · have hsame : other = handle := Option.some.inj (hother.symm.trans hpc)
    subst hsame
    refine ⟨hown, context', ?_, fun task htask => (hprogram task htask).trans hid.symm⟩
    rw [hcontexts]
    exact AList.lookup_insert _
  · rw [hpc] at hnone
    cases hnone

/-- One step keeps the handles, the contexts and the blocks on their way together.  A call gets
its handle only when no other one has it, gives it back at its end, and changes no context but
its own. -/
theorem move_consistent (h : Move s e effect s') (hinv : Consistent s) : Consistent s' := by
  cases h with
  | connects _ =>
      exact hinv.settle rfl rfl rfl (push_not_mem_initThreads s.shared)
  | ignores _ _ => exact hinv
  | ignoresNull _ => exact hinv
  | @receives t handle data context _ _ hunused hlookup =>
      refine hinv.goTo rfl (fun _ _ context _ _ hlookup => ⟨context, hlookup, rfl⟩)
        (fun other hother => ?_) (fun hnone => by cases hnone)
      cases hother
      exact ⟨fun u _ => hunused u, context, hlookup, fun task htask => by cases htask⟩
  | misses _ _ =>
      exact hinv.settle rfl rfl rfl fun task htask => by cases htask
  | @finishes t handle context _ _ hunused hlookup =>
      have hsame := sameContext_finish context
      exact hinv.stores rfl rfl hlookup hsame.id (fun u _ => hunused u) rfl
        fun task htask => (hsame.output task (push_mem_publishing htask)).1
  | @executes t now address pc instr rest output shared ht _ =>
      have hpc : (s.callers t).pc = pc := by rw [ht]
      refine hinv.goTo rfl (fun _ _ context _ _ hlookup => ⟨context, hlookup, rfl⟩)
        (fun handle hhandle => ⟨fun u hut hu => ?_, ?_⟩) (fun hnone task htask => ?_)
      · exact hut (hinv.exclusive u t handle hu (by rw [hpc, hhandle]))
      · obtain ⟨context, hlookup, htasks⟩ := hinv.served t handle (by rw [hpc, hhandle])
        refine ⟨context, hlookup, fun task htask => htasks task ?_⟩
        rw [ht]
        exact List.mem_cons_of_mem _ htask
      · refine hinv.unserved t (by rw [hpc, hnone]) task ?_
        rw [ht]
        exact List.mem_cons_of_mem _ htask
  | numbers _ =>
      exact hinv.settle rfl rfl rfl fun task htask => by cases htask
  | @inserts t now address bulk id _ _ _ hfresh =>
      refine hinv.leave rfl (fun u handle context _ _ hlookup => ?_) rfl
        fun task htask => by cases htask
      have hne : handle ≠ address := by
        rintro rfl
        rw [hfresh] at hlookup
        cases hlookup
      exact (AList.lookup_insert_ne hne).trans hlookup
  | received _ =>
      exact hinv.settle rfl rfl rfl fun task htask => by cases htask
  | @skips t now address handle lines ht =>
      refine hinv.goTo rfl (fun _ _ context _ _ hlookup => ⟨context, hlookup, rfl⟩)
        (fun other hother => ?_) (fun hnone => by cases hnone)
      have hbefore : (s.callers t).pc.handle = some other := by rw [ht]; exact hother
      obtain ⟨context, hlookup, -⟩ := hinv.served t other hbefore
      exact ⟨fun u hut hu => hut (hinv.exclusive u t other hu hbefore), context, hlookup,
        fun task htask => by cases htask⟩
  | @adds t now address handle command lines context ht _ hlookup =>
      have hsame := sameContext_addTask context now command
      have hbefore : (s.callers t).pc.handle = some handle := by rw [ht]; rfl
      exact hinv.stores rfl rfl hlookup hsame.id
        (fun u hut hu => hut (hinv.exclusive u t handle hu hbefore)) rfl
        fun task htask => (hsame.output task (push_mem_publishing htask)).1
  | @erases t now address handle ht =>
      have hbefore : (s.callers t).pc.handle = some handle := by rw [ht]; rfl
      refine hinv.leave rfl (fun u other context hut hu hlookup => ?_) rfl
        fun task htask => by cases htask
      have hne : other ≠ handle := by
        rintro rfl
        exact hut (hinv.exclusive u t other hu hbefore)
      exact (AList.lookup_erase_ne hne).trans hlookup
  | findsEmpty _ _ =>
      exact hinv.settle rfl rfl rfl fun task htask => by cases htask
  | findsContexts _ _ =>
      exact hinv.settle rfl rfl rfl fun task htask => by cases htask
  | stops _ =>
      exact hinv.settle rfl rfl rfl (push_not_mem_stopThreads s.shared)
  | joined _ =>
      exact hinv.settle rfl rfl rfl fun task htask => by cases htask
  | works _ _ => exact ⟨hinv.exclusive, hinv.served, hinv.unserved⟩

omit [DecidableEq ι] in
/-- There are no contexts at the start. -/
theorem consistent_initial : Consistent (initial : Library ι) where
  exclusive _ _ _ hu := by cases hu
  served _ _ hu := by cases hu
  unserved _ _ _ hmem := by cases hmem

/-! ### The id of a connection

`next_id` gives every manager a number of its own, but the number becomes visible only
with the context that carries it.  In between it is the secret of one call, and the
invariant has a clause for this time. -/

/-- Connection `id` is the only one with its id, which is given out once.  Between the moment
the id is given out and the insertion of the context there is neither, and `inserting` carries
the connection over: it is still absent, and one thread is about to open it. -/
structure Identified (id : ℕ) (s : Library ι) (c : Connection) : Prop where
  owner : ∀ handle context, s.contexts.lookup handle = some context →
    context.taskManagerId = toText id → c.handle = some handle
  inserting : ∀ u bulk, (s.callers u).pc = .inserting bulk id →
    c = .absent ∧ id < s.nextId ∧ ∀ v bulk', (s.callers v).pc = .inserting bulk' id → v = u
  numbered : c ≠ .absent → id < s.nextId

/-- The effects that neither open nor close a connection. -/
def Effect.plain : Effect → Bool
  | .output _ | .disconnected => true
  | .connected _ _ _ | .erased _ => false

variable {id : ℕ} {c : Connection}

/-- A plain effect is an output, or the end of a connection. -/
theorem Effect.eq_of_plain (heffect : effect.plain = true) :
    (∃ o, effect = .output o) ∨ effect = .disconnected := by
  cases effect with
  | output o => exact Or.inl ⟨o, rfl⟩
  | disconnected => exact Or.inr rfl
  | connected handle id bulk => cases heffect
  | erased handle => cases heffect

omit [DecidableEq ι] in
/-- A plain effect neither opens a connection nor closes its handle. -/
theorem observe_plain (heffect : effect.plain = true) :
    (c.observe id (e, effect)).handle = c.handle ∧
      (c.observe id (e, effect) = .absent ↔ c = .absent) := by
  cases c with
  | absent => rcases Effect.eq_of_plain heffect with ⟨o, rfl⟩ | rfl <;> exact ⟨rfl, Iff.rfl⟩
  | closed bulk chunks => exact ⟨rfl, Iff.rfl⟩
  | closing handle bulk chunks =>
      rcases Effect.eq_of_plain heffect with ⟨o, rfl⟩ | rfl <;> exact ⟨rfl, Iff.rfl⟩
  | opened handle bulk chunks =>
      cases e with
      | call t call =>
          cases call with
          | connect bulk' => exact ⟨rfl, Iff.rfl⟩
          | receive handle' data =>
              simp only [Connection.observe]
              split <;> simp [Connection.handle]
          | disconnect handle' =>
              simp only [Connection.observe]
              split <;> simp [Connection.handle]
      | advance t now address => exact ⟨rfl, Iff.rfl⟩
      | worker w opened => exact ⟨rfl, Iff.rfl⟩
      | spurious w => exact ⟨rfl, Iff.rfl⟩

omit [DecidableEq ι] in
/-- A step that leaves contexts, ids and callers alone. -/
theorem Identified.stay {r : Library ι} {c' : Connection} (h : Identified id s c)
    (hcallers : r.callers = s.callers) (hnext : r.nextId = s.nextId)
    (hcontexts : r.contexts = s.contexts)
    (hc : c'.handle = c.handle ∧ (c' = .absent ↔ c = .absent)) : Identified id r c' := by
  refine ⟨fun handle context hcontext hid => ?_, fun u bulk hu => ?_, fun hne => ?_⟩
  · rw [hc.1]
    exact h.owner handle context (hcontexts ▸ hcontext) hid
  · rw [hcallers] at hu ⊢
    rw [hnext, hc.2]
    exact h.inserting u bulk hu
  · rw [hnext]
    exact h.numbered fun habsent => hne (hc.2.mpr habsent)

/-- A step that leaves the ids of the contexts alone. -/
theorem Identified.goTo {r : Library ι} {t : ι} {pc : Pc} {program : List Instr}
    {c' : Connection} (h : Identified id s c) (hcallers : r.callers = s.callers)
    (hnext : r.nextId = s.nextId)
    (hlookup : ∀ handle context, r.contexts.lookup handle = some context →
      ∃ context', s.contexts.lookup handle = some context' ∧
        context'.taskManagerId = context.taskManagerId)
    (hpc : ∀ bulk, pc = .inserting bulk id → (s.callers t).pc = pc)
    (hc : c'.handle = c.handle ∧ (c' = .absent ↔ c = .absent)) :
    Identified id (r.goTo t pc program) c' := by
  have hbefore (u : ι) (bulk : ℕ)
      (hu : ((r.goTo t pc program).callers u).pc = .inserting bulk id) :
      (s.callers u).pc = .inserting bulk id := by
    by_cases hut : u = t
    · rw [hut, callers_goTo_self] at hu
      rw [hut, hpc bulk hu]
      exact hu
    · rwa [callers_goTo_of_ne _ hut, hcallers] at hu
  refine ⟨fun handle context hcontext hid => ?_, fun u bulk hu => ?_, fun hne => ?_⟩
  · obtain ⟨context', hcontext', hsame⟩ := hlookup handle context hcontext
    rw [hc.1]
    exact h.owner handle context' hcontext' (hsame.trans hid)
  · obtain ⟨habsent, hlt, hunique⟩ := h.inserting u bulk (hbefore u bulk hu)
    exact ⟨hc.2.mpr habsent, hnext ▸ hlt, fun v bulk' hv => hunique v bulk' (hbefore v bulk' hv)⟩
  · show id < r.nextId
    rw [hnext]
    exact h.numbered fun habsent => hne (hc.2.mpr habsent)

/-- An insertion in place of a context with the same id. -/
theorem lookup_of_insert_same {contexts : Contexts} {handle handle' : Handle}
    {context context' other : TaskManager} (hlookup : contexts.lookup handle = some context)
    (hid : context'.taskManagerId = context.taskManagerId)
    (hother : (contexts.insert handle context').lookup handle' = some other) :
    ∃ other', contexts.lookup handle' = some other' ∧
      other'.taskManagerId = other.taskManagerId := by
  by_cases hhandle : handle' = handle
  · subst hhandle
    rw [AList.lookup_insert] at hother
    cases hother
    exact ⟨context, hlookup, hid.symm⟩
  · exact ⟨other, by rw [← hother, AList.lookup_insert_ne hhandle], rfl⟩

/-- A thread that is inserting after `t` went elsewhere was inserting before. -/
theorem inserting_of_goTo {r : Library ι} {t u : ι} {pc : Pc} {program : List Instr} {bulk : ℕ}
    (hcallers : r.callers = s.callers) (hpc : pc ≠ .inserting bulk id)
    (hu : ((r.goTo t pc program).callers u).pc = .inserting bulk id) :
    u ≠ t ∧ (s.callers u).pc = .inserting bulk id := by
  by_cases hut : u = t
  · rw [hut, callers_goTo_self] at hu
    exact absurd hu hpc
  · rw [callers_goTo_of_ne _ hut, hcallers] at hu
    exact ⟨hut, hu⟩

/-- An id is given out, to this connection or to another one; in either case the next one is
larger, so it is not given out again. -/
theorem Identified.numbers {t : ι} {bulk : ℕ} (h : Identified id s c) :
    Identified id (({ s with nextId := s.nextId + 1 } : Library ι).goTo t
      (.inserting bulk s.nextId) []) c := by
  have hold (u : ι) (hut : u ≠ t) (bulk' : ℕ)
      (hu : (((({ s with nextId := s.nextId + 1 } : Library ι).goTo t
        (.inserting bulk s.nextId) []).callers u).pc = .inserting bulk' id)) :
      (s.callers u).pc = .inserting bulk' id := by
    rwa [callers_goTo_of_ne _ hut] at hu
  refine ⟨h.owner, fun u bulk' hu => ?_, fun hne => ?_⟩
  · by_cases hut : u = t
    · rw [hut, callers_goTo_self] at hu
      cases hu
      -- the counter was above every id given out before
      refine ⟨?_, Nat.lt_succ_self _, fun v bulk'' hv => ?_⟩
      · by_contra hne
        exact absurd (h.numbered hne) (lt_irrefl _)
      · by_contra hvu
        have hlt := (h.inserting v bulk'' (hold v (hut ▸ hvu) bulk'' hv)).2.1
        exact absurd hlt (lt_irrefl _)
    · obtain ⟨habsent, hlt, hunique⟩ := h.inserting u bulk' (hold u hut bulk' hu)
      refine ⟨habsent, Nat.lt_succ_of_lt hlt, fun v bulk'' hv => ?_⟩
      by_cases hvt : v = t
      · rw [hvt, callers_goTo_self] at hv
        cases hv
        exact absurd hlt (lt_irrefl _)
      · exact hunique v bulk'' (hold v hvt bulk'' hv)
  · exact Nat.lt_succ_of_lt (h.numbered hne)

/-- The connection is registered. -/
theorem Identified.inserts_self {t : ι} {address : Handle} {bulk : ℕ} {context : TaskManager}
    (h : Identified id s c) (ht : (s.callers t).pc = .inserting bulk id) :
    Identified id (({ s with contexts := s.contexts.insert address context } : Library ι).goTo t
      .idle []) (.opened address bulk []) := by
  obtain ⟨rfl, hlt, hunique⟩ := h.inserting t bulk ht
  refine ⟨fun handle context' hcontext hown => ?_, fun u bulk' hu => ?_, fun _ => hlt⟩
  · by_cases hhandle : handle = address
    · rw [hhandle]
      rfl
    · have hcontext' : s.contexts.lookup handle = some context' := by
        rw [← hcontext]
        exact (AList.lookup_insert_ne hhandle).symm
      cases h.owner handle context' hcontext' hown
  · obtain ⟨hut, hu⟩ := inserting_of_goTo rfl (by simp) hu
    exact absurd (hunique u bulk' hu) hut

/-- Another connection is registered. -/
theorem Identified.inserts_other {t : ι} {address : Handle} {context : TaskManager}
    (h : Identified id s c) (hid : context.taskManagerId ≠ toText id) :
    Identified id (({ s with contexts := s.contexts.insert address context } : Library ι).goTo t
      .idle []) c := by
  refine ⟨fun handle context' hcontext hown => ?_, fun u bulk' hu => ?_, h.numbered⟩
  · by_cases hhandle : handle = address
    · rw [hhandle] at hcontext
      have hnew : context = context' :=
        Option.some.inj ((AList.lookup_insert _).symm.trans hcontext)
      exact absurd (hnew ▸ hown) hid
    · have hcontext' : s.contexts.lookup handle = some context' := by
        rw [← hcontext]
        exact (AList.lookup_insert_ne hhandle).symm
      exact h.owner handle context' hcontext' hown
  · obtain ⟨habsent, hlt, hunique⟩ :=
      h.inserting u bulk' (inserting_of_goTo rfl (by simp) hu).2
    exact ⟨habsent, hlt, fun v bulk'' hv =>
      hunique v bulk'' (inserting_of_goTo rfl (by simp) hv).2⟩

/-- A context is erased, of this connection or of another one. -/
theorem Identified.erases {t : ι} {handle : Handle} {c' : Connection} (h : Identified id s c)
    (habsent : c' = .absent ↔ c = .absent)
    (hhandle : ∀ other, other ≠ handle → c.handle = some other → c'.handle = some other) :
    Identified id (({ s with contexts := s.contexts.erase handle } : Library ι).goTo t
      .testing []) c' := by
  refine ⟨fun other context hcontext hown => ?_, fun u bulk hu => ?_, fun hne => ?_⟩
  · have hne : other ≠ handle := by
      rintro rfl
      have hnone : some context = none := hcontext.symm.trans (AList.lookup_erase _ _)
      cases hnone
    have hcontext' : s.contexts.lookup other = some context := by
      rw [← hcontext]
      exact (AList.lookup_erase_ne hne).symm
    exact hhandle other hne (h.owner other context hcontext' hown)
  · obtain ⟨hc, hlt, hunique⟩ := h.inserting u bulk (inserting_of_goTo rfl (by simp) hu).2
    exact ⟨habsent.mpr hc, hlt, fun v bulk' hv =>
      hunique v bulk' (inserting_of_goTo rfl (by simp) hv).2⟩
  · exact h.numbered fun hc => hne (habsent.mpr hc)

/-- One step keeps the id, the handle and the context of a connection together.  The id moves
from the counter to the call that inserts the context, and from there to the context; at each
moment it is in one place. -/
theorem move_identified (h : Move s e effect s') (hinv : Identified id s c) :
    Identified id s' (c.observe id (e, effect)) := by
  have hsame (handle : Handle) (context : TaskManager)
      (hcontext : s.contexts.lookup handle = some context) :
      ∃ context', s.contexts.lookup handle = some context' ∧
        context'.taskManagerId = context.taskManagerId := ⟨context, hcontext, rfl⟩
  cases h with
  | connects _ => exact hinv.goTo rfl rfl hsame (fun _ hpc => by cases hpc) (observe_plain rfl)
  | ignores _ _ => exact hinv.stay rfl rfl rfl (observe_plain rfl)
  | ignoresNull _ => exact hinv.stay rfl rfl rfl (observe_plain rfl)
  | receives _ _ _ _ =>
      exact hinv.goTo rfl rfl hsame (fun _ hpc => by cases hpc) (observe_plain rfl)
  | misses _ _ => exact hinv.goTo rfl rfl hsame (fun _ hpc => by cases hpc) (observe_plain rfl)
  | @finishes t handle context _ _ _ hlookup =>
      exact hinv.goTo rfl rfl
        (fun _ _ hother => lookup_of_insert_same hlookup (sameContext_finish context).id hother)
        (fun _ hpc => by cases hpc) (observe_plain rfl)
  | executes ht _ =>
      exact hinv.goTo rfl rfl hsame (fun _ _ => by rw [ht]) (observe_plain rfl)
  | @numbers t now address bulk ht =>
      have hc : c.observe id (.advance t now address, .output .silent) = c := by
        cases c <;> rfl
      rw [hc]
      exact hinv.numbers
  | @inserts t now address bulk id' ht _ _ hfresh =>
      by_cases hid : id' = id
      · -- the id is given to this connection
        subst hid
        have ht' : (s.callers t).pc = .inserting bulk id' := by rw [ht]
        obtain ⟨rfl, -⟩ := hinv.inserting t bulk ht'
        have hc : Connection.absent.observe id' (.advance t now address,
            .connected address id' bulk) = .opened address bulk [] := by
          simp [Connection.observe]
        rw [hc]
        exact hinv.inserts_self ht'
      · have hc : c.observe id (.advance t now address, .connected address id' bulk) = c := by
          cases c <;> simp [Connection.observe, hid]
        rw [hc]
        exact hinv.inserts_other fun hown => hid (toText_injective hown)
  | received _ => exact hinv.goTo rfl rfl hsame (fun _ hpc => by cases hpc) (observe_plain rfl)
  | skips _ => exact hinv.goTo rfl rfl hsame (fun _ hpc => by cases hpc) (observe_plain rfl)
  | @adds t now address handle command lines context _ _ hlookup =>
      exact hinv.goTo rfl rfl
        (fun _ _ hother =>
          lookup_of_insert_same hlookup (sameContext_addTask context now command).id hother)
        (fun _ hpc => by cases hpc) (observe_plain rfl)
  | @erases t now address handle _ =>
      refine hinv.erases ?_ fun other hne hother => ?_
      · cases c with
        | closing handle' bulk chunks =>
            simp only [Connection.observe]
            split <;> simp
        | absent | opened _ _ _ | closed _ _ => simp [Connection.observe]
      · cases c with
        | absent | closed _ _ => cases hother
        | opened handle' bulk chunks => exact hother
        | closing handle' bulk chunks =>
            have hhandle : handle ≠ handle' := by
              rintro rfl
              exact hne (Option.some.inj hother).symm
            simp only [Connection.observe, hhandle, if_false]
            exact hother
  | findsEmpty _ _ => exact hinv.goTo rfl rfl hsame (fun _ hpc => by cases hpc) (observe_plain rfl)
  | findsContexts _ _ =>
      exact hinv.goTo rfl rfl hsame (fun _ hpc => by cases hpc) (observe_plain rfl)
  | stops _ => exact hinv.goTo rfl rfl hsame (fun _ hpc => by cases hpc) (observe_plain rfl)
  | joined _ => exact hinv.goTo rfl rfl hsame (fun _ hpc => by cases hpc) (observe_plain rfl)
  | works _ _ => exact hinv.stay rfl rfl rfl (observe_plain rfl)

omit [DecidableEq ι] in
/-- No number has been given out at the start. -/
theorem identified_initial (id : ℕ) : Identified id (initial : Library ι) .absent where
  owner _ _ hlookup := by cases hlookup
  inserting _ _ hu := by cases hu
  numbered hne := absurd rfl hne

end Async
