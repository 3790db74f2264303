import CppProfessional.BulkServer.Conservation

/-!
# Sessions of the bulk server

The server accepts clients and reads their lines over the library of `connect`, `receive`
and `disconnect`.  Its thread runs one completion handler at a time: the handler of an
accept, or `handle_read` of one session.  A handler that calls `receive` goes on when the
lines of that call have been processed, so it is a position of the server, `handler`, with
what is left to do.

`async_read_until` appends what arrives to the buffer of its session while the buffer has no
newline, and completes as `Completes` says; the handler of a completion does what
`handle_read` does with the error code.  Any other choice, such as the address that an
allocation returns, is in the event.

## Main results

* `execution_library` — the calls the server makes are a run of the library;
* `Registry` — the handles of the sessions are the contexts of the library;
* `Server.Valid` — the invariant of every reachable state, kept by every step
  (`serverMove_valid`);
* `ServerMove.frame` — a step is about one session at most and leaves the others alone;
* `Server.Valid.progress` — a handler always goes on.

A session is known by its number in the order of acceptance.  A session that has been
removed is destroyed with a null handle, so its destructor does nothing.
-/

namespace BulkServer

open Transition Commands
open Async (Line Handle toText toText_injective)

/-! ### The model

All handlers run on one thread.  A handler that is inside the library is kept as a
continuation, and until it goes on no other handler runs; what arrives meanwhile is
taken up afterwards. -/

/-- An error code other than success. -/
inductive ErrorCode
  | eof
  | other (message : Line)
  deriving DecidableEq, Repr

/-- `SessionImpl`; `reading` if an `async_read_until` has been started and has not
completed. -/
structure SessionImpl where
  handle : Handle
  buffer : Line
  reading : Bool
  deriving DecidableEq, Repr

/-- A session that has not been started. -/
def SessionImpl.create : SessionImpl := ⟨0, [], false⟩

/-- What `handle_read` does when its `receive` has returned. -/
inductive Continuation
  | readAgain
  | leave
  deriving DecidableEq, Repr

/-- `ServerImpl`, with the library and all the sessions it has ever created. -/
structure Server where
  library : Library
  sessions : List ℕ
  created : ℕ
  session : ℕ → SessionImpl
  handler : Option (ℕ × Continuation)

/-- An accept completes, bytes of a client arrive, an `async_read_until` completes, or the
handler goes on. -/
inductive ServerEvent
  | accept (error : Option Line) (address : Handle)
  | arrive (id : ℕ) (segment : Line)
  | complete (id : ℕ) (error : Option ErrorCode) (bytesTransferred : ℕ)
  | line (now : ℤ)
  | resume
  deriving DecidableEq, Repr

/-- A call of the library, a text on the error stream, or nothing to see. -/
inductive ServerEffect
  | silent
  | printed (text : Line)
  | call (event : Event) (effect : Effect)
  deriving DecidableEq, Repr

/-- How an `async_read_until` with this buffer may complete: with the length of the first
line, newline included; with the end of the stream if there is no such line; or with
another error. -/
def Completes (buffer : Line) : Option ErrorCode → ℕ → Prop
  | none, bytesTransferred => '\n' ∈ buffer ∧ bytesTransferred = buffer.idxOf '\n' + 1
  | some .eof, _ => '\n' ∉ buffer
  | some (.other _), _ => True

instance Completes.instDecidable (buffer : Line) (bytesTransferred : ℕ) :
    (error : Option ErrorCode) → Decidable (Completes buffer error bytesTransferred)
  | none => inferInstanceAs (Decidable (_ ∧ _))
  | some .eof => inferInstanceAs (Decidable ('\n' ∉ buffer))
  | some (.other _) => isTrue trivial

/-- Write the members of one session. -/
def Server.update (s : Server) (id : ℕ) (session : SessionImpl) : Server :=
  { s with session := Function.update s.session id session }

/-- A step of the library. -/
def Server.call (s : Server) (e : Event) : Option (ServerEffect × Server) :=
  (step s.library e).map fun (effect, library) => (.call e effect, { s with library := library })

/-- `SessionImpl::start`. -/
def start (bulk : ℕ) (s : Server) (id : ℕ) (address : Handle) : Option (ServerEffect × Server) :=
  (s.update id ⟨address, [], true⟩).call (.connect bulk address)

/-- The handler of an accept. -/
def handleAccept (bulk : ℕ) (s : Server) (error : Option Line) (address : Handle) :
    Option (ServerEffect × Server) :=
  match error with
  | none =>
      start bulk { s with sessions := s.sessions ++ [s.created], created := s.created + 1 }
        s.created address
  | some message => some (.printed ("Accept error: ".toList ++ message), s)

/-- `SessionImpl::handle_read`, up to the end of its `receive`. -/
def handleRead (s : Server) (id : ℕ) (error : Option ErrorCode) (bytesTransferred : ℕ) :
    Option (ServerEffect × Server) :=
  let session := s.session id
  match error with
  | none =>
      let data := session.buffer.take bytesTransferred
      let buffer := session.buffer.drop bytesTransferred
      ({ s with handler := some (id, .readAgain) }.update id ⟨session.handle, buffer, false⟩).call
        (.receive session.handle data)
  | some .eof =>
      let s := { s with handler := some (id, .leave) }.update id ⟨session.handle, [], false⟩
      if session.buffer.isEmpty then some (.silent, s)
      else
        let data := session.buffer
        let data := if !data.isEmpty && data.getLast? != some '\n' then data ++ ['\n'] else data
        s.call (.receive session.handle data)
  | some (.other message) =>
      some (.printed ("Error: ".toList ++ message),
        s.update id ⟨session.handle, session.buffer, false⟩)

/-- `remove_session`. -/
def removeSession (s : Server) (id : ℕ) : Server :=
  { s with sessions := s.sessions.filter (· ≠ id) }

/-- The rest of `handle_read`. -/
def resume (s : Server) (id : ℕ) (continuation : Continuation) :
    Option (ServerEffect × Server) :=
  let session := s.session id
  let s := { s with handler := none }
  match continuation with
  | .readAgain => some (.silent, s.update id ⟨session.handle, session.buffer, true⟩)
  | .leave =>
      let s := removeSession (s.update id ⟨0, session.buffer, session.reading⟩) id
      if session.handle ≠ 0 then s.call (.disconnect session.handle) else some (.silent, s)

/-- One step of the server. -/
def serverStep (bulk : ℕ) (s : Server) : ServerEvent → Option (ServerEffect × Server)
  | .accept error address =>
      if s.handler = none then handleAccept bulk s error address else none
  | .arrive id segment =>
      if s.handler = none ∧ (s.session id).reading = true ∧ '\n' ∉ (s.session id).buffer then
        some (.silent, s.update id
          ⟨(s.session id).handle, (s.session id).buffer ++ segment, (s.session id).reading⟩)
      else none
  | .complete id error bytesTransferred =>
      if s.handler = none ∧ (s.session id).reading = true ∧
          Completes (s.session id).buffer error bytesTransferred then
        handleRead s id error bytesTransferred
      else none
  | .line now => s.call (.line now)
  | .resume =>
      match s.handler with
      | none => none
      | some (id, continuation) =>
          if s.library.receiving = none then resume s id continuation else none

/-- The server before the first client. -/
def initialServer : Server where
  library := initial
  sessions := []
  created := 0
  session := fun _ => .create
  handler := none

/-- The bulk server. -/
def server (bulk : ℕ) : Machine Server ServerEvent ServerEffect where
  init := (· = initialServer)
  step := serverStep bulk

/-! ### The registry

Sessions are counted, contexts have ids, and handles connect the two.  Since a handle
can be used again, each statement is about the handles in use at the moment. -/

/-- The ids of the contexts, by handle. -/
def Library.contextIds (s : Library) (handle : Handle) : Option Line :=
  (s.contexts.lookup handle).map ConnectionContext.id

/-- The contexts are those of the sessions that have a handle, and these are the sessions in
`sessions_`.  `registered` and `owned` are the two directions; together they say that no
context is left behind by a session and none is shared by two. -/
structure Registry (ids : Handle → Option Line) (handles : ℕ → Handle) (sessions : List ℕ)
    (created : ℕ) : Prop where
  fresh : ∀ id, created ≤ id → handles id = 0
  registered : ∀ id, handles id ≠ 0 → ids (handles id) = some (toText id)
  owned : ∀ handle text, ids handle = some text →
    handle ≠ 0 ∧ ∃ id, handles id = handle ∧ text = toText id
  listed : ∀ id, id ∈ sessions ↔ handles id ≠ 0

section Registry

variable {ids : Handle → Option Line} {handles : ℕ → Handle} {sessions : List ℕ} {created : ℕ}

/-- No two sessions have one handle. -/
theorem Registry.injective (h : Registry ids handles sessions created) {id other : ℕ}
    (hid : handles id ≠ 0) (hsame : handles id = handles other) : id = other := by
  have hregistered := h.registered id hid
  rw [hsame, h.registered other (hsame ▸ hid)] at hregistered
  exact (toText_injective (Option.some.inj hregistered)).symm

/-- A session is accepted: the id, the handle and the session are new at the same moment, so
none of the three can be mistaken for an older one. -/
theorem Registry.accept (h : Registry ids handles sessions created) {address : Handle}
    (hnull : address ≠ 0) (hfree : ids address = none) :
    Registry (Function.update ids address (some (toText created)))
      (Function.update handles created address) (sessions ++ [created]) (created + 1) := by
  constructor
  · intro id hid
    rw [Function.update_of_ne (by omega)]
    exact h.fresh id (by omega)
  · intro id hid
    by_cases hnew : id = created
    · rw [hnew, Function.update_self, Function.update_self]
    · rw [Function.update_of_ne hnew] at hid ⊢
      have hother : handles id ≠ address := by
        intro hsame
        have hregistered := h.registered id hid
        rw [hsame, hfree] at hregistered
        cases hregistered
      rw [Function.update_of_ne hother]
      exact h.registered id hid
  · intro handle text htext
    by_cases hnew : handle = address
    · rw [hnew, Function.update_self] at htext
      cases htext
      exact ⟨hnew ▸ hnull, created, by rw [Function.update_self, hnew], rfl⟩
    · rw [Function.update_of_ne hnew] at htext
      obtain ⟨hhandle, id, hid, hid'⟩ := h.owned handle text htext
      have hold : id ≠ created := by
        rintro rfl
        rw [h.fresh id (Nat.le_refl id)] at hid
        exact hhandle hid.symm
      exact ⟨hhandle, id, by rw [Function.update_of_ne hold, hid], hid'⟩
  · intro id
    rw [List.mem_append, List.mem_singleton, h.listed id]
    by_cases hnew : id = created
    · rw [hnew, Function.update_self]
      exact ⟨fun _ => hnull, fun _ => Or.inr rfl⟩
    · rw [Function.update_of_ne hnew]
      exact ⟨fun hid => hid.resolve_right hnew, Or.inl⟩

/-- A session leaves, with its context and its handle.  The handle is free afterwards and may
be given out again. -/
theorem Registry.leave (h : Registry ids handles sessions created) {id : ℕ}
    (hid : handles id ≠ 0) :
    Registry (Function.update ids (handles id) none) (Function.update handles id 0)
      (sessions.filter (· ≠ id)) created := by
  constructor
  · intro other hother
    by_cases hsame : other = id
    · rw [hsame, Function.update_self]
    · rw [Function.update_of_ne hsame]
      exact h.fresh other hother
  · intro other hother
    by_cases hsame : other = id
    · rw [hsame, Function.update_self] at hother
      exact absurd rfl hother
    · rw [Function.update_of_ne hsame] at hother ⊢
      rw [Function.update_of_ne fun heq => hsame (h.injective hother heq)]
      exact h.registered other hother
  · intro handle text htext
    by_cases hgone : handle = handles id
    · rw [hgone, Function.update_self] at htext
      cases htext
    · rw [Function.update_of_ne hgone] at htext
      obtain ⟨hhandle, other, hother, hother'⟩ := h.owned handle text htext
      have hne : other ≠ id := by
        rintro rfl
        exact hgone hother.symm
      exact ⟨hhandle, other, by rw [Function.update_of_ne hne, hother], hother'⟩
  · intro other
    rw [List.mem_filter, h.listed other, decide_eq_true_iff]
    by_cases hsame : other = id
    · rw [hsame, Function.update_self]
      exact ⟨fun hboth => absurd rfl hboth.2, fun hnull => absurd rfl hnull⟩
    · rw [Function.update_of_ne hsame]
      exact ⟨And.left, fun hhandle => ⟨hhandle, hsame⟩⟩

end Registry

/-! ### What a call of the library does to the ids

Of the library the server needs to know only which handles have contexts, and under
which ids. -/

section Calls

variable {s s' : Library} {effect : Effect} {handle : Handle} {context : ConnectionContext}

/-- A new context adds its id under its handle. -/
theorem contextIds_insert (hcontexts : s'.contexts = s.contexts.insert handle context) :
    s'.contextIds = Function.update s.contextIds handle (some context.id) := by
  funext other
  rw [Library.contextIds, hcontexts]
  by_cases hsame : other = handle
  · rw [hsame, AList.lookup_insert, Function.update_self]
    rfl
  · rw [AList.lookup_insert_ne hsame, Function.update_of_ne hsame]
    rfl

/-- An erased one takes it away. -/
theorem contextIds_erase (hcontexts : s'.contexts = s.contexts.erase handle) :
    s'.contextIds = Function.update s.contextIds handle none := by
  funext other
  rw [Library.contextIds, hcontexts]
  by_cases hsame : other = handle
  · rw [hsame, AList.lookup_erase, Function.update_self]
    rfl
  · rw [AList.lookup_erase_ne hsame, Function.update_of_ne hsame]
    rfl

/-- `connect` registers a handle. -/
theorem connect_effect {bulk : ℕ} {address : Handle} (hs : s.Consistent)
    (h : step s (.connect bulk address) = some (effect, s')) :
    address ≠ 0 ∧ s.contextIds address = none ∧ s'.receiving = none ∧
      s'.nextId = s.nextId + 1 ∧
      s'.contextIds = Function.update s.contextIds address (some (toText s.nextId)) := by
  cases step_move hs h with
  | connects hidle hnull hfree =>
      refine ⟨hnull, ?_, hidle, rfl, ?_⟩
      · rw [Library.contextIds, hfree]
        rfl
      · rw [contextIds_insert rfl]
        rfl

/-- `receive` with a registered handle is accepted. -/
theorem receive_effect {id data : Line} (hs : s.Consistent)
    (h : step s (.receive handle data) = some (effect, s')) (hnull : handle ≠ 0)
    (hid : s.contextIds handle = some id) :
    effect = .accepted id ∧ s'.receiving = some (handle, getlines '\n' data) ∧
      s'.nextId = s.nextId ∧ s'.contextIds = s.contextIds := by
  rw [Library.contextIds] at hid
  cases step_move hs h with
  | ignores _ hignored =>
      rw [hignored.resolve_left hnull] at hid
      cases hid
  | accepts _ hlookup =>
      rw [hlookup] at hid
      cases hid
      exact ⟨rfl, rfl, rfl, rfl⟩

/-- A line belongs to the `receive` in progress. -/
theorem line_effect {now : ℤ} (hs : s.Consistent)
    (h : step s (.line now) = some (effect, s')) :
    (∃ handle lines, s.receiving = some (handle, lines)) ∧
      (∀ handle lines, s'.receiving = some (handle, lines) →
        ∃ lines, s.receiving = some (handle, lines)) ∧
      s'.nextId = s.nextId ∧ s'.contextIds = s.contextIds := by
  cases step_move hs h with
  | returns hreceiving =>
      exact ⟨⟨_, _, hreceiving⟩, fun _ _ hlines => (by cases hlines), rfl, rfl⟩
  | @processes _ handle _ _ _ context r hreceiving _ hlookup hmove =>
      refine ⟨⟨_, _, hreceiving⟩, fun _ _ hlines => ?_, rfl, ?_⟩
      · cases hlines
        exact ⟨_, hreceiving⟩
      · have hid : s.contextIds handle = some context.id := by
          rw [Library.contextIds, hlookup]
          rfl
        rw [contextIds_insert rfl, hmove.id_eq, ← hid, Function.update_eq_self]

/-- `disconnect` with a registered handle removes it. -/
theorem disconnect_effect {id : Line} (hs : s.Consistent)
    (h : step s (.disconnect handle) = some (effect, s')) (hnull : handle ≠ 0)
    (hid : s.contextIds handle = some id) :
    s'.receiving = none ∧ s'.nextId = s.nextId ∧
      s'.contextIds = Function.update s.contextIds handle none := by
  rw [Library.contextIds] at hid
  cases step_move hs h with
  | ignoresNull _ => exact absurd rfl hnull
  | misses _ hnone =>
      rw [hnone] at hid
      cases hid
  | leaves hidle _ _ => exact ⟨hidle, rfl, contextIds_erase rfl⟩
  | stops hidle _ _ _ _ => exact ⟨hidle, rfl, contextIds_erase rfl⟩

end Calls

/-! ### The invariant

`Valid` is what a handler relies on when it goes on: its session is still there, its
handle is registered, and the library has finished the call. -/

/-- What holds of the server between any two steps.  The sessions, the registry and the
contexts of the library name each other by handles, so none of the three could be followed
alone; and while a handler is inside the library, its session has a handle and no read of its
own. -/
structure Server.Valid (s : Server) : Prop where
  consistent : s.library.Consistent
  nextId : s.library.nextId = s.created
  registry : Registry s.library.contextIds (fun id => (s.session id).handle) s.sessions s.created
  reading : ∀ id, (s.session id).reading = true → (s.session id).handle ≠ 0
  handling : ∀ id continuation, s.handler = some (id, continuation) →
    (s.session id).handle ≠ 0 ∧ (s.session id).reading = false
  receiving : ∀ handle lines, s.library.receiving = some (handle, lines) →
    ∃ id continuation, s.handler = some (id, continuation) ∧ (s.session id).handle = handle

/-- Everything a step can do in a valid state. -/
inductive ServerMove (bulk : ℕ) (s : Server) : ServerEvent → ServerEffect → Server → Prop
  | rejects {message : Line} {address : Handle} : s.handler = none →
      ServerMove bulk s (.accept (some message) address)
        (.printed ("Accept error: ".toList ++ message)) s
  | accepts {address : Handle} {effect : Effect} {library : Library} : s.handler = none →
      step s.library (.connect bulk address) = some (effect, library) →
      ServerMove bulk s (.accept none address) (.call (.connect bulk address) effect)
        ({ s with
          library := library
          sessions := s.sessions ++ [s.created]
          created := s.created + 1 }.update s.created ⟨address, [], true⟩)
  | arrives {id : ℕ} {segment : Line} : s.handler = none → (s.session id).reading = true →
      '\n' ∉ (s.session id).buffer →
      ServerMove bulk s (.arrive id segment) .silent
        (s.update id ⟨(s.session id).handle, (s.session id).buffer ++ segment, true⟩)
  | takes {id bytesTransferred : ℕ} {effect : Effect} {library : Library} : s.handler = none →
      (s.session id).reading = true → '\n' ∈ (s.session id).buffer →
      bytesTransferred = (s.session id).buffer.idxOf '\n' + 1 →
      step s.library (.receive (s.session id).handle
        ((s.session id).buffer.take bytesTransferred)) = some (effect, library) →
      ServerMove bulk s (.complete id none bytesTransferred)
        (.call (.receive (s.session id).handle ((s.session id).buffer.take bytesTransferred))
          effect)
        ({ s with library := library, handler := some (id, .readAgain) }.update id
          ⟨(s.session id).handle, (s.session id).buffer.drop bytesTransferred, false⟩)
  | takesRest {id bytesTransferred : ℕ} {effect : Effect} {library : Library} :
      s.handler = none → (s.session id).reading = true → '\n' ∉ (s.session id).buffer →
      (s.session id).buffer ≠ [] →
      step s.library (.receive (s.session id).handle ((s.session id).buffer ++ ['\n'])) =
        some (effect, library) →
      ServerMove bulk s (.complete id (some .eof) bytesTransferred)
        (.call (.receive (s.session id).handle ((s.session id).buffer ++ ['\n'])) effect)
        ({ s with library := library, handler := some (id, .leave) }.update id
          ⟨(s.session id).handle, [], false⟩)
  | ends {id bytesTransferred : ℕ} : s.handler = none → (s.session id).reading = true →
      (s.session id).buffer = [] →
      ServerMove bulk s (.complete id (some .eof) bytesTransferred) .silent
        ({ s with handler := some (id, .leave) }.update id ⟨(s.session id).handle, [], false⟩)
  | fails {id bytesTransferred : ℕ} {message : Line} : s.handler = none →
      (s.session id).reading = true →
      ServerMove bulk s (.complete id (some (.other message)) bytesTransferred)
        (.printed ("Error: ".toList ++ message))
        (s.update id ⟨(s.session id).handle, (s.session id).buffer, false⟩)
  | processes {now : ℤ} {effect : Effect} {library : Library} :
      step s.library (.line now) = some (effect, library) →
      ServerMove bulk s (.line now) (.call (.line now) effect) { s with library := library }
  | rereads {id : ℕ} : s.handler = some (id, .readAgain) → s.library.receiving = none →
      ServerMove bulk s .resume .silent
        ({ s with handler := none }.update id
          ⟨(s.session id).handle, (s.session id).buffer, true⟩)
  | leaves {id : ℕ} {effect : Effect} {library : Library} : s.handler = some (id, .leave) →
      s.library.receiving = none →
      step s.library (.disconnect (s.session id).handle) = some (effect, library) →
      ServerMove bulk s .resume (.call (.disconnect (s.session id).handle) effect)
        ({ s with
          library := library
          sessions := s.sessions.filter (· ≠ id)
          handler := none }.update id ⟨0, (s.session id).buffer, false⟩)

variable {bulk : ℕ} {s s' : Server} {e : ServerEvent} {effect : ServerEffect}

/-- A call of the server into the library is a step of the library. -/
theorem Server.call_eq_some {e : Event} (h : s.call e = some (effect, s')) :
    ∃ effect' library, step s.library e = some (effect', library) ∧ effect = .call e effect' ∧
      s' = { s with library := library } := by
  obtain ⟨⟨effect', library⟩, hstep, hresult⟩ := Option.map_eq_some_iff.mp h
  cases hresult
  exact ⟨effect', library, hstep, rfl, rfl⟩

/-- The handler of a read does one of the things listed: it ends the session, waits for the
library, or sees an error. -/
theorem handleRead_move {id bytesTransferred : ℕ} {error : Option ErrorCode}
    (hidle : s.handler = none) (hreading : (s.session id).reading = true)
    (hcompletes : Completes (s.session id).buffer error bytesTransferred)
    (h : handleRead s id error bytesTransferred = some (effect, s')) :
    ServerMove bulk s (.complete id error bytesTransferred) effect s' := by
  match error with
  | none =>
      obtain ⟨hmem, hbytes⟩ := hcompletes
      obtain ⟨effect', library, hstep, rfl, rfl⟩ := Server.call_eq_some h
      exact .takes hidle hreading hmem hbytes hstep
  | some .eof =>
      by_cases hempty : (s.session id).buffer = []
      · simp only [handleRead, hempty, List.isEmpty_nil, if_true] at h
        cases h
        exact .ends hidle hreading hempty
      · -- without a newline in it, the rest does not end with one
        have hlast : (s.session id).buffer.getLast? ≠ some '\n' :=
          fun hlast => hcompletes (List.mem_of_getLast? hlast)
        have hfalse : (s.session id).buffer.isEmpty = false := by
          rw [List.isEmpty_eq_false_iff]
          exact hempty
        simp only [handleRead, hfalse, Bool.false_eq_true, if_false, Bool.not_false,
          Bool.true_and, bne_iff_ne, ne_eq, hlast, not_false_eq_true, if_true] at h
        obtain ⟨effect', library, hstep, rfl, rfl⟩ := Server.call_eq_some h
        exact .takesRest hidle hreading hcompletes hempty hstep
  | some (.other message) =>
      cases h
      exact .fails hidle hreading

/-- So does the rest of a handler that had called into the library. -/
theorem resume_move {id : ℕ} {continuation : Continuation} (hs : s.Valid)
    (hhandler : s.handler = some (id, continuation)) (hidle : s.library.receiving = none)
    (h : resume s id continuation = some (effect, s')) :
    ServerMove bulk s .resume effect s' := by
  obtain ⟨hhandle, hreading⟩ := hs.handling id continuation hhandler
  cases continuation with
  | readAgain =>
      cases h
      exact .rereads hhandler hidle
  | leave =>
      simp only [resume, ne_eq, hhandle, not_false_eq_true, if_true, hreading] at h
      obtain ⟨effect', library, hstep, rfl, rfl⟩ := Server.call_eq_some h
      exact .leaves hhandler hidle hstep

/-- **Inversion of a step.**  It needs that the state is valid: only then is a handler that
goes on the one whose call of the library has ended. -/
theorem serverStep_move (hs : s.Valid) (h : serverStep bulk s e = some (effect, s')) :
    ServerMove bulk s e effect s' := by
  cases e with
  | accept error address =>
      obtain ⟨hidle, h⟩ := Option.ite_none_right_eq_some.mp h
      cases error with
      | none =>
          obtain ⟨effect', library, hstep, rfl, rfl⟩ := Server.call_eq_some h
          exact .accepts hidle hstep
      | some message =>
          cases h
          exact .rejects hidle
  | arrive id segment =>
      obtain ⟨⟨hidle, hreading, hnone⟩, h⟩ := Option.ite_none_right_eq_some.mp h
      rw [hreading] at h
      cases h
      exact .arrives hidle hreading hnone
  | complete id error bytesTransferred =>
      obtain ⟨⟨hidle, hreading, hcompletes⟩, h⟩ := Option.ite_none_right_eq_some.mp h
      exact handleRead_move hidle hreading hcompletes h
  | line now =>
      obtain ⟨effect', library, hstep, rfl, rfl⟩ := Server.call_eq_some h
      exact .processes hstep
  | resume =>
      cases hhandler : s.handler with
      | none =>
          simp only [serverStep, hhandler] at h
          cases h
      | some next =>
          simp only [serverStep, hhandler] at h
          obtain ⟨hidle, h⟩ := Option.ite_none_right_eq_some.mp h
          exact resume_move hs hhandler hidle h

/-! ### The invariant is kept

A step writes one session, or registers one, or lets one leave.  The three lemmas say
what becomes of the invariant in each case; that two sessions never share a handle is
used in the last one. -/

@[simp] theorem session_update_self (s : Server) (id : ℕ) (session : SessionImpl) :
    (s.update id session).session id = session :=
  Function.update_self ..

theorem session_update_of_ne (s : Server) {id other : ℕ} (session : SessionImpl)
    (h : other ≠ id) : (s.update id session).session other = s.session other :=
  Function.update_of_ne h ..

/-- Only the handle of this session changes. -/
theorem handles_update (s : Server) (id : ℕ) (session : SessionImpl) :
    (fun other => ((s.update id session).session other).handle) =
      Function.update (fun other => (s.session other).handle) id session.handle := by
  funext other
  by_cases hsame : other = id
  · rw [hsame, session_update_self, Function.update_self]
  · rw [session_update_of_ne s session hsame, Function.update_of_ne hsame]

/-- A step that leaves the registry alone: session `id` is written, with its handle. -/
theorem Server.Valid.writes {r : Server} {id : ℕ} {buffer : Line} {reading : Bool} (hs : s.Valid)
    (hsession : r.session = s.session) (hsessions : r.sessions = s.sessions)
    (hcreated : r.created = s.created) (hconsistent : r.library.Consistent)
    (hnext : r.library.nextId = s.library.nextId)
    (hids : r.library.contextIds = s.library.contextIds)
    (hreading : reading = true → (s.session id).handle ≠ 0)
    (hhandling : ∀ other continuation, r.handler = some (other, continuation) →
      (s.session other).handle ≠ 0 ∧
        if other = id then reading = false else (s.session other).reading = false)
    (hreceiving : ∀ handle lines, r.library.receiving = some (handle, lines) →
      ∃ other continuation, r.handler = some (other, continuation) ∧
        (s.session other).handle = handle) :
    (r.update id ⟨(s.session id).handle, buffer, reading⟩).Valid := by
  have hhandle (other : ℕ) :
      ((r.update id ⟨(s.session id).handle, buffer, reading⟩).session other).handle =
        (s.session other).handle := by
    by_cases hsame : other = id
    · rw [hsame, session_update_self]
    · rw [session_update_of_ne r _ hsame, hsession]
  constructor
  · exact hconsistent
  · exact hnext.trans (hs.nextId.trans hcreated.symm)
  · simp only [hhandle]
    show Registry r.library.contextIds _ r.sessions r.created
    rw [hids, hsessions, hcreated]
    exact hs.registry
  · intro other hother
    rw [hhandle]
    by_cases hsame : other = id
    · rw [hsame, session_update_self] at hother
      rw [hsame]
      exact hreading hother
    · rw [session_update_of_ne r _ hsame, hsession] at hother
      exact hs.reading other hother
  · intro other continuation hhandler
    obtain ⟨hnull, hidle⟩ := hhandling other continuation hhandler
    refine ⟨by rwa [hhandle], ?_⟩
    by_cases hsame : other = id
    · rw [if_pos hsame] at hidle
      rw [hsame, session_update_self]
      exact hidle
    · rw [if_neg hsame] at hidle
      rw [session_update_of_ne r _ hsame, hsession]
      exact hidle
  · intro handle lines hlines
    obtain ⟨other, continuation, hhandler, hother⟩ := hreceiving handle lines hlines
    exact ⟨other, continuation, hhandler, by rw [hhandle, hother]⟩

/-- `receive` is called for session `id`, whose handler goes on afterwards. -/
theorem Server.Valid.takes {id : ℕ} {data buffer : Line} {continuation : Continuation}
    {effect : Effect} {library : Library} (hs : s.Valid)
    (hreading : (s.session id).reading = true)
    (hstep : step s.library (.receive (s.session id).handle data) = some (effect, library)) :
    ({ s with library := library, handler := some (id, continuation) }.update id
      ⟨(s.session id).handle, buffer, false⟩).Valid := by
  have hnull := hs.reading id hreading
  have hregistered := hs.registry.registered id hnull
  obtain ⟨-, hreceiving, hnext, hids⟩ := receive_effect hs.consistent hstep hnull hregistered
  refine hs.writes rfl rfl rfl (move_consistent (step_move hs.consistent hstep) hs.consistent)
    hnext hids (fun h => by cases h) ?_ ?_
  · rintro other _ ⟨⟩
    exact ⟨hnull, by rw [if_pos rfl]⟩
  · intro handle lines hlines
    rw [hreceiving] at hlines
    cases hlines
    exact ⟨id, continuation, rfl, rfl⟩

/-- A client is accepted.  The server counts its sessions and the library its contexts, and the
two counts are the same. -/
theorem Server.Valid.accepts {address : Handle} {effect : Effect} {library : Library}
    (hs : s.Valid) (hidle : s.handler = none)
    (hstep : step s.library (.connect bulk address) = some (effect, library)) :
    ({ s with
      library := library
      sessions := s.sessions ++ [s.created]
      created := s.created + 1 }.update s.created ⟨address, [], true⟩).Valid := by
  obtain ⟨hnull, hfree, hreceiving, hnext, hids⟩ := connect_effect hs.consistent hstep
  constructor
  · exact move_consistent (step_move hs.consistent hstep) hs.consistent
  · show library.nextId = s.created + 1
    rw [hnext, hs.nextId]
  · rw [handles_update]
    show Registry library.contextIds _ (s.sessions ++ [s.created]) (s.created + 1)
    rw [hids, hs.nextId]
    exact hs.registry.accept hnull hfree
  · intro other hother
    by_cases hnew : other = s.created
    · rw [hnew, session_update_self]
      exact hnull
    · rw [session_update_of_ne _ _ hnew] at hother ⊢
      exact hs.reading other hother
  · intro other continuation hhandler
    have hnone : none = some (other, continuation) := hidle.symm.trans hhandler
    cases hnone
  · intro handle lines hlines
    have hnone : none = some (handle, lines) := hreceiving.symm.trans hlines
    cases hnone

/-- A session leaves.  Its context is the one behind its handle, so the call of `disconnect`
removes this one and no other. -/
theorem Server.Valid.leaves {id : ℕ} {effect : Effect} {library : Library} (hs : s.Valid)
    (hhandler : s.handler = some (id, .leave))
    (hstep : step s.library (.disconnect (s.session id).handle) = some (effect, library)) :
    ({ s with
      library := library
      sessions := s.sessions.filter (· ≠ id)
      handler := none }.update id ⟨0, (s.session id).buffer, false⟩).Valid := by
  obtain ⟨hnull, -⟩ := hs.handling id .leave hhandler
  have hregistered := hs.registry.registered id hnull
  obtain ⟨hreceiving, hnext, hids⟩ := disconnect_effect hs.consistent hstep hnull hregistered
  constructor
  · exact move_consistent (step_move hs.consistent hstep) hs.consistent
  · exact hnext.trans hs.nextId
  · rw [handles_update]
    show Registry library.contextIds _ (s.sessions.filter (· ≠ id)) s.created
    rw [hids]
    exact hs.registry.leave hnull
  · intro other hother
    by_cases hsame : other = id
    · rw [hsame, session_update_self] at hother
      cases hother
    · rw [session_update_of_ne _ _ hsame] at hother ⊢
      exact hs.reading other hother
  · rintro other continuation ⟨⟩
  · intro handle lines hlines
    have hnone : none = some (handle, lines) := hreceiving.symm.trans hlines
    cases hnone

/-- **The step lemma.**  Registration and leaving change all three parts at once; every other
step changes one session, or only the library. -/
theorem serverMove_valid (h : ServerMove bulk s e effect s') (hs : s.Valid) : s'.Valid := by
  have hreceives (hidle : s.handler = none) : s.library.receiving = none := by
    by_contra hne
    obtain ⟨⟨handle, lines⟩, hlines⟩ := Option.ne_none_iff_exists'.mp hne
    obtain ⟨id, continuation, hhandler, -⟩ := hs.receiving handle lines hlines
    rw [hidle] at hhandler
    cases hhandler
  have hquiet (hnone : s.library.receiving = none) (handle : Handle) (lines : List Line)
      (hlines : s.library.receiving = some (handle, lines)) {P : Prop} : P := by
    rw [hnone] at hlines
    cases hlines
  cases h with
  | rejects _ => exact hs
  | accepts hidle hstep => exact hs.accepts hidle hstep
  | arrives hidle hreading _ =>
      refine hs.writes rfl rfl rfl hs.consistent rfl rfl (fun _ => hs.reading _ hreading) ?_
        fun _ _ hlines => hquiet (hreceives hidle) _ _ hlines
      intro other continuation hhandler
      rw [hidle] at hhandler
      cases hhandler
  | takes _ hreading _ _ hstep => exact hs.takes hreading hstep
  | takesRest _ hreading _ _ hstep => exact hs.takes hreading hstep
  | ends hidle hreading _ =>
      refine hs.writes rfl rfl rfl hs.consistent rfl rfl (fun h => by cases h) ?_
        fun _ _ hlines => hquiet (hreceives hidle) _ _ hlines
      rintro other _ ⟨⟩
      exact ⟨hs.reading _ hreading, by rw [if_pos rfl]⟩
  | fails hidle _ =>
      refine hs.writes rfl rfl rfl hs.consistent rfl rfl (fun h => by cases h) ?_
        fun _ _ hlines => hquiet (hreceives hidle) _ _ hlines
      intro other continuation hhandler
      rw [hidle] at hhandler
      cases hhandler
  | processes hstep =>
      obtain ⟨-, hreceiving, hnext, hids⟩ := line_effect hs.consistent hstep
      constructor
      · exact move_consistent (step_move hs.consistent hstep) hs.consistent
      · exact hnext.trans hs.nextId
      · show Registry _ _ s.sessions s.created
        rw [hids]
        exact hs.registry
      · exact hs.reading
      · exact hs.handling
      · intro handle lines hlines
        obtain ⟨before, hbefore⟩ := hreceiving handle lines hlines
        exact hs.receiving handle before hbefore
  | rereads hhandler hidle =>
      obtain ⟨hnull, -⟩ := hs.handling _ _ hhandler
      refine hs.writes rfl rfl rfl hs.consistent rfl rfl (fun _ => hnull) ?_
        fun _ _ hlines => hquiet hidle _ _ hlines
      rintro other _ ⟨⟩
  | leaves hhandler _ hstep => exact hs.leaves hhandler hstep

/-- At the start there is no session. -/
theorem valid_initialServer : initialServer.Valid where
  consistent := consistent_initial
  nextId := rfl
  registry :=
    { fresh := fun _ _ => rfl
      registered := fun _ hid => absurd rfl hid
      owned := fun _ _ htext => by cases htext
      listed := fun _ => ⟨fun hmem => (by cases hmem), fun hne => absurd rfl hne⟩ }
  reading _ hreading := by cases hreading
  handling _ _ hhandler := by cases hhandler
  receiving _ _ hlines := by cases hlines

/-! ### The session of a step

Every event is about one session, and a step leaves all the others as they are. -/

/-- The session an event is about. -/
def Server.subject (s : Server) : ServerEvent → Option ℕ
  | .accept none _ => some s.created
  | .accept (some _) _ | .line _ => none
  | .arrive id _ | .complete id _ _ => some id
  | .resume => s.handler.map Prod.fst

/-- A step leaves every other session alone, and whether a handler is inside the library for
it. -/
theorem ServerMove.frame (h : ServerMove bulk s e effect s') {id : ℕ}
    (hother : s.subject e ≠ some id) :
    s'.session id = s.session id ∧ (id < s'.created ↔ id < s.created) ∧
      ∀ continuation, s'.handler = some (id, continuation) ↔
        s.handler = some (id, continuation) := by
  have hupdate {r : Server} {subject : ℕ} {session : SessionImpl} (hne : some subject ≠ some id)
      (hsession : r.session = s.session) :
      (r.update subject session).session id = s.session id := by
    have hne' : id ≠ subject := fun heq => hne (congrArg some heq.symm)
    rw [session_update_of_ne r session hne', hsession]
  have hset {subject : ℕ} {continuation continuation' : Continuation}
      (hne : some subject ≠ some id) : some (subject, continuation) ≠ some (id, continuation') :=
    fun heq => hne (congrArg (Option.map Prod.fst) heq)
  cases h with
  | rejects _ | processes _ => exact ⟨rfl, Iff.rfl, fun _ => Iff.rfl⟩
  | accepts _ _ =>
      refine ⟨hupdate hother rfl, ?_, fun _ => Iff.rfl⟩
      have hne : id ≠ s.created := fun heq => hother (congrArg some heq.symm)
      show id < s.created + 1 ↔ id < s.created
      omega
  | arrives _ _ _ | fails _ _ => exact ⟨hupdate hother rfl, Iff.rfl, fun _ => Iff.rfl⟩
  | takes hidle _ _ _ _ | takesRest hidle _ _ _ _ | ends hidle _ _ =>
      refine ⟨hupdate hother rfl, Iff.rfl, fun _ => iff_of_false (hset hother) ?_⟩
      rw [hidle]
      exact fun h => by cases h
  | rereads hhandler _ | leaves hhandler _ _ =>
      rw [Server.subject, hhandler] at hother
      refine ⟨hupdate hother rfl, Iff.rfl, fun _ => iff_of_false (fun h => by cases h) ?_⟩
      rw [hhandler]
      exact hset hother

/-! ### Every run

The calls that the server makes are a run of the library of their own, so that
everything proved about the library in all its runs holds under the server. -/

/-- The calls of the library in a step. -/
def ServerEffect.calls : ServerEffect → List (Event × Effect)
  | .call e effect => [(e, effect)]
  | .silent | .printed _ => []

/-- The calls of the library in a run. -/
def libraryCalls (trace : List (ServerEvent × ServerEffect)) : List (Event × Effect) :=
  Machine.history ServerEffect.calls trace

/-- A step makes a step of the library, or leaves it alone. -/
theorem ServerMove.library (h : ServerMove bulk s e effect s') :
    (effect.calls = [] ∧ s'.library = s.library) ∨
      ∃ e' effect', effect.calls = [(e', effect')] ∧
        step s.library e' = some (effect', s'.library) := by
  cases h with
  | accepts _ hstep | takes _ _ _ _ hstep | takesRest _ _ _ _ hstep | processes hstep
  | leaves _ _ hstep => exact Or.inr ⟨_, _, rfl, hstep⟩
  | rejects _ | arrives _ _ _ | ends _ _ _ | fails _ _ | rereads _ _ => exact Or.inl ⟨rfl, rfl⟩

/-- **The server runs the library**, and every state it reaches is valid. -/
theorem execution_library {trace : List (ServerEvent × ServerEffect)}
    (h : (server bulk).Execution trace s) :
    s.Valid ∧ machine.Execution (libraryCalls trace) s.library := by
  refine h.induct (I := fun trace s => s.Valid ∧
    machine.Execution (libraryCalls trace) s.library) ?_ ?_
  · rintro s rfl
    exact ⟨valid_initialServer, initial, rfl, .refl⟩
  · rintro trace s e effect s' - ⟨hvalid, hlibrary⟩ hs
    have hmove := serverStep_move hvalid hs
    refine ⟨serverMove_valid hmove hvalid, ?_⟩
    rw [libraryCalls, Machine.history_append, Machine.history_singleton]
    rcases hmove.library with ⟨hcalls, hsame⟩ | ⟨e', effect', hcalls, hstep⟩
    · rw [hcalls, List.append_nil, hsame]
      exact hlibrary
    · rw [hcalls]
      exact hlibrary.snoc hstep

/-- A handler goes on: its `receive` has a line to process or returns, or it resumes. -/
theorem Server.Valid.progress (hs : s.Valid) {id : ℕ} {continuation : Continuation}
    (hhandler : s.handler = some (id, continuation)) (now : ℤ) :
    (serverStep bulk s (.line now)).isSome = true ∨ (serverStep bulk s .resume).isSome = true := by
  cases hreceiving : s.library.receiving with
  | none =>
      right
      simp only [serverStep, hhandler, hreceiving, if_true]
      cases continuation with
      | readAgain => rfl
      | leave =>
          obtain ⟨hnull, -⟩ := hs.handling id .leave hhandler
          simp only [resume, ne_eq, hnull, not_false_eq_true, if_true, Server.call, step,
            Server.update, removeSession, hreceiving, Option.map_some, Option.isSome_some]
  | some call =>
      left
      obtain ⟨handle, lines⟩ := call
      obtain ⟨context, hlookup⟩ := hs.consistent.receiving handle lines hreceiving
      cases lines <;>
        simp only [serverStep, Server.call, step, nextLine, hreceiving, hlookup, Option.map_some,
          Option.isSome_some]

end BulkServer
