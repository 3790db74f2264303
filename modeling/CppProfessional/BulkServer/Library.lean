import CppProfessional.Async.Library
import CppProfessional.BulkServer.TaskManager

/-!
# `connect`, `receive` and `disconnect` of the bulk server

The library with its calls made one at a time, as the single thread of the server
makes them.  A `receive` takes one step for each of its lines, so that a state
between two lines is a state of its own; every other call is one step.

What a call puts out goes to both output queues before it goes on.  The workers
only take from the queues, so they do not appear here; `stop_threads` is its
`exchange`, the flush of the shared manager and the reset of the manager.

A handle is an address, zero for `nullptr`; an allocation takes any address that no
live context has.  Ids have no bound, so what is said of them is about runs with at
most `2 ^ 31` calls of `connect`.
-/

namespace BulkServer

open Transition Commands
open Async (OutputTask Line Block Handle toText)

/-- The library between two steps; `receiving` is the `receive` in progress, with
its handle and the lines it has still to process. -/
structure Library where
  contexts : AList fun _ : Handle => ConnectionContext
  sharedTaskManager : Option TaskManager
  threadsInitialized : Bool
  nextId : ℕ
  receiving : Option (Handle × List Line)

/-- A call, or the next line of a `receive`.  `address` is the address of an
allocation, `now` the clock. -/
inductive Event
  | connect (bulk : ℕ) (address : Handle)
  | receive (handle : Handle) (data : Line)
  | line (now : ℤ)
  | disconnect (handle : Handle)
  deriving DecidableEq, Repr

/-- What a step did: the connection it is about, by its id, the line it processed,
the block it put out, and the dynamic block it threw away. -/
inductive Effect
  | silent
  | connected (id : Line)
  | accepted (id : Line)
  | processed (id command : Line) (output : Option (Block × OutputTask))
  | disconnected (discarded : Option (Line × List Line)) (output : Option (Block × OutputTask))
  deriving DecidableEq, Repr

/-- `init_threads`, as far as it matters here. -/
def Library.initThreads (s : Library) : Library := { s with threadsInitialized := true }

/-- `stop_threads`: the flush of the shared manager, and its reset. -/
def Library.stopThreads (s : Library) : Option (Block × OutputTask) × Library :=
  if s.threadsInitialized then
    (tagged .static (finishShared s.sharedTaskManager).1,
      { s with threadsInitialized := false, sharedTaskManager := none })
  else (none, s)

/-- `connect`. -/
def connect (s : Library) (bulk : ℕ) (address : Handle) : Option (Effect × Library) :=
  if address ≠ 0 ∧ address ∉ s.contexts then
    let s :=
      if s.sharedTaskManager.isNone then
        { s with sharedTaskManager := some (.create bulk) }.initThreads
      else s
    let id := toText s.nextId
    some (.connected id,
      { s with nextId := s.nextId + 1, contexts := s.contexts.insert address (.create id) })
  else none

/-- The first step of `receive`. -/
def receive (s : Library) (handle : Handle) (data : Line) : Effect × Library :=
  if handle = 0 then (.silent, s)
  else
    match s.contexts.lookup handle with
    | none => (.silent, s)
    | some context =>
        (.accepted context.id, { s with receiving := some (handle, getlines '\n' data) })

/-- The next line of the `receive` in progress, or its return. -/
def nextLine (s : Library) (now : ℤ) : Option (Effect × Library) :=
  match s.receiving with
  | none => none
  | some (_, []) => some (.silent, { s with receiving := none })
  | some (handle, command :: lines) =>
      match s.contexts.lookup handle with
      | none => none
      | some context =>
          let r := processCommand s.sharedTaskManager context now command
          some (.processed context.id command r.output,
            { s with
              sharedTaskManager := r.manager
              contexts := s.contexts.insert handle r.context
              receiving := some (handle, lines) })

/-- `disconnect`. -/
def disconnect (s : Library) (handle : Handle) : Effect × Library :=
  if handle = 0 then (.silent, s)
  else
    let discarded := (s.contexts.lookup handle).map fun context =>
      (context.id, context.dynamicBlockTask)
    let s := { s with contexts := s.contexts.erase handle }
    if s.contexts.entries.isEmpty then
      let (output, s) := s.stopThreads
      (.disconnected discarded output, s)
    else (.disconnected discarded none, s)

/-- One step; a call is made only while no `receive` is in progress. -/
def step (s : Library) : Event → Option (Effect × Library)
  | .connect bulk address => if s.receiving = none then connect s bulk address else none
  | .receive handle data => if s.receiving = none then some (receive s handle data) else none
  | .line now => nextLine s now
  | .disconnect handle => if s.receiving = none then some (disconnect s handle) else none

/-- The state before the first call. -/
def initial : Library where
  contexts := ∅
  sharedTaskManager := none
  threadsInitialized := false
  nextId := 0
  receiving := none

/-- The bulk server's library. -/
def machine : Machine Library Event Effect where
  init := (· = initial)
  step := step

/-! ### What one step can do -/

/-- The shared manager belongs to the time between the first `connect` and the last
`disconnect`, and a `receive` in progress has a context.  Together they say that the tests of
the manager's pointer in the source succeed whenever a command is processed. -/
structure Library.Consistent (s : Library) : Prop where
  initialized : s.threadsInitialized = s.sharedTaskManager.isSome
  shared : s.sharedTaskManager = none ↔ s.contexts.entries = []
  receiving : ∀ handle lines, s.receiving = some (handle, lines) →
    ∃ context, s.contexts.lookup handle = some context

/-- Everything a step can do in a consistent state. -/
inductive Move (s : Library) : Event → Effect → Library → Prop
  | connects {bulk : ℕ} {address : Handle} : s.receiving = none → address ≠ 0 →
      s.contexts.lookup address = none →
      Move s (.connect bulk address) (.connected (toText s.nextId))
        { s with
          sharedTaskManager := some (s.sharedTaskManager.getD (.create bulk))
          threadsInitialized := true
          nextId := s.nextId + 1
          contexts := s.contexts.insert address (.create (toText s.nextId)) }
  | ignores {handle : Handle} {data : Line} : s.receiving = none →
      handle = 0 ∨ s.contexts.lookup handle = none →
      Move s (.receive handle data) .silent s
  | ignoresNull : s.receiving = none → Move s (.disconnect 0) .silent s
  | accepts {handle : Handle} {data : Line} {context : ConnectionContext} :
      s.receiving = none → s.contexts.lookup handle = some context →
      Move s (.receive handle data) (.accepted context.id)
        { s with receiving := some (handle, getlines '\n' data) }
  | returns {now : ℤ} {handle : Handle} : s.receiving = some (handle, []) →
      Move s (.line now) .silent { s with receiving := none }
  | processes {now : ℤ} {handle : Handle} {command : Line} {lines : List Line}
      {m : TaskManager} {context : ConnectionContext} {r : Processed} :
      s.receiving = some (handle, command :: lines) → s.sharedTaskManager = some m →
      s.contexts.lookup handle = some context → CommandMove m context command r →
      Move s (.line now) (.processed context.id command r.output)
        { s with
          sharedTaskManager := r.manager
          contexts := s.contexts.insert handle r.context
          receiving := some (handle, lines) }
  | misses {handle : Handle} : s.receiving = none → s.contexts.lookup handle = none →
      Move s (.disconnect handle) (.disconnected none none) s
  | leaves {handle : Handle} {context : ConnectionContext} : s.receiving = none →
      s.contexts.lookup handle = some context → (s.contexts.erase handle).entries ≠ [] →
      Move s (.disconnect handle)
        (.disconnected (some (context.id, context.dynamicBlockTask)) none)
        { s with contexts := s.contexts.erase handle }
  | stops {handle : Handle} {m : TaskManager} {context : ConnectionContext}
      {output : Option (Block × OutputTask)} : s.receiving = none →
      s.contexts.lookup handle = some context → (s.contexts.erase handle).entries = [] →
      s.sharedTaskManager = some m →
      PutsOut .static staticContextId m.staticBlockTask output →
      Move s (.disconnect handle)
        (.disconnected (some (context.id, context.dynamicBlockTask)) output)
        { s with
          contexts := s.contexts.erase handle
          threadsInitialized := false
          sharedTaskManager := none }

variable {s s' : Library} {e : Event} {effect : Effect}

/-- A registered context has the shared manager. -/
theorem Library.Consistent.manager (hs : s.Consistent) {handle : Handle}
    {context : ConnectionContext} (hlookup : s.contexts.lookup handle = some context) :
    ∃ m, s.sharedTaskManager = some m := by
  apply Option.ne_none_iff_exists'.mp
  intro hnone
  have hempty : s.contexts = ∅ := AList.ext (hs.shared.mp hnone)
  rw [hempty] at hlookup
  cases hlookup

/-- A call of `connect` is one of the moves, or is ignored. -/
theorem move_of_connect {bulk : ℕ} {address : Handle} (hs : s.Consistent)
    (hidle : s.receiving = none) (h : connect s bulk address = some (effect, s')) :
    Move s (.connect bulk address) effect s' := by
  obtain ⟨⟨hnull, hfresh⟩, h⟩ := Option.ite_none_right_eq_some.mp h
  have hmove : Move s (.connect bulk address) _ _ :=
    .connects hidle hnull (AList.lookup_eq_none.mpr hfresh)
  have hinit := hs.initialized
  cases hmanager : s.sharedTaskManager with
  | none =>
      simp only [hmanager, Option.isNone_none, if_true, Option.some.injEq, Prod.mk.injEq] at h
      obtain ⟨rfl, rfl⟩ := h
      rw [hmanager, Option.getD_none] at hmove
      exact hmove
  | some m =>
      simp only [hmanager, Option.isNone_some, Bool.false_eq_true, if_false, Option.some.injEq,
        Prod.mk.injEq] at h
      obtain ⟨rfl, rfl⟩ := h
      rw [hmanager, Option.isSome_some] at hinit
      simpa only [hmanager, Option.getD_some, hinit] using hmove

/-- A call of `receive` begins with one of the moves. -/
theorem move_of_receive {handle : Handle} {data : Line} (hidle : s.receiving = none)
    (h : receive s handle data = (effect, s')) : Move s (.receive handle data) effect s' := by
  unfold receive at h
  split at h
  · next hnull =>
    cases h
    exact .ignores hidle (Or.inl hnull)
  · split at h
    · next hlookup =>
      cases h
      exact .ignores hidle (Or.inr hlookup)
    · next context hlookup =>
      cases h
      exact .accepts hidle hlookup

/-- So does the treatment of its next line. -/
theorem move_of_nextLine {now : ℤ} (hs : s.Consistent)
    (h : nextLine s now = some (effect, s')) : Move s (.line now) effect s' := by
  unfold nextLine at h
  split at h
  · cases h
  · next handle hreceiving =>
    cases h
    exact .returns hreceiving
  · next handle command lines hreceiving =>
    split at h
    · cases h
    · next context hlookup =>
      obtain ⟨m, hmanager⟩ := hs.manager hlookup
      cases h
      rw [hmanager]
      exact .processes hreceiving hmanager hlookup (processCommand_move m context now command)

theorem erase_of_lookup_none {handle : Handle} (hlookup : s.contexts.lookup handle = none) :
    s.contexts.erase handle = s.contexts :=
  AList.ext (List.kerase_of_notMem_keys (AList.lookup_eq_none.mp hlookup))

/-- A call of `disconnect` is one of the moves: a null handle, an unknown one, a context that
is not the last, and the last one, which takes the manager with it. -/
theorem move_of_disconnect {handle : Handle} (hs : s.Consistent) (hidle : s.receiving = none)
    (h : disconnect s handle = (effect, s')) : Move s (.disconnect handle) effect s' := by
  unfold disconnect at h
  split at h
  · next hnull =>
    cases h
    rw [hnull]
    exact .ignoresNull hidle
  · cases hlookup : s.contexts.lookup handle with
    | none =>
        have hsame := erase_of_lookup_none hlookup
        simp only [hsame, hlookup, Option.map_none] at h
        -- with no context left, the threads have been stopped before
        split at h
        · next hempty =>
          have hfalse : s.threadsInitialized = false := by
            rw [hs.initialized, hs.shared.mpr (List.isEmpty_iff.mp hempty), Option.isSome_none]
          have hstop : s.stopThreads = (none, s) := by
            rw [Library.stopThreads, hfalse]
            rfl
          change (Effect.disconnected none s.stopThreads.1, s.stopThreads.2) = _ at h
          rw [hstop] at h
          cases h
          exact .misses hidle hlookup
        · cases h
          exact .misses hidle hlookup
    | some context =>
        obtain ⟨m, hmanager⟩ := hs.manager hlookup
        have hinit : s.threadsInitialized = true := by
          rw [hs.initialized, hmanager, Option.isSome_some]
        simp only [hlookup, Option.map_some] at h
        split at h
        · next hempty =>
          simp only [Library.stopThreads, hinit, if_true, hmanager] at h
          cases h
          exact .stops hidle hlookup (List.isEmpty_iff.mp hempty) hmanager m.putsOut_finish.1
        · next hne =>
          cases h
          exact .leaves hidle hlookup fun hnil => hne (List.isEmpty_iff.mpr hnil)

/-- **Inversion of a step.** -/
theorem step_move (hs : s.Consistent) (h : step s e = some (effect, s')) :
    Move s e effect s' := by
  cases e with
  | connect bulk address =>
      obtain ⟨hidle, h⟩ := Option.ite_none_right_eq_some.mp h
      exact move_of_connect hs hidle h
  | receive handle data =>
      obtain ⟨hidle, h⟩ := Option.ite_none_right_eq_some.mp h
      exact move_of_receive hidle (Option.some.inj h)
  | line now => exact move_of_nextLine hs h
  | disconnect handle =>
      obtain ⟨hidle, h⟩ := Option.ite_none_right_eq_some.mp h
      exact move_of_disconnect hs hidle (Option.some.inj h)

end BulkServer
