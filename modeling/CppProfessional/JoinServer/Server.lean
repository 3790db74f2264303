import CppProfessional.BulkServer.Server
import CppProfessional.JoinServer.Replies
import CppProfessional.JoinServer.Writes

/-!
# Sessions of the join server

The server accepts clients, reads their lines with `async_read_until` and handles each line
before anything else happens.  Every session has its own buffer and its own outstanding
operations; the tables are shared.

* `server` — accepts, arriving bytes, completed reads, and bytes sent, of all sessions;
* `ServerMove`, `serverStep_move` — what a step can do;
* `execution_handled` — the commands that are handled are a run of `machine`;
* `execution_reads` — those of one session are the terminated lines of its stream, and
  nothing of them is left over at the end of the stream;
* `execution_writes` — what its client has received and what is outstanding are the answers
  to them;
* `served` — so the client reads back one answer for each line that it has terminated.

A read that ends with the end of the stream leaves the buffer as it is: a last line without
a newline is never handled.
-/

namespace JoinServer

open Transition Commands
open Async (Line)
open BulkServer (ErrorCode Completes)

/-! ### The model

A session has a buffer for what arrives and a list of the sends that are outstanding.
`async_write` of one message may be several sends on the socket, and several messages
may be under way. -/

/-- `SessionImpl`, with the bytes of the `write_some` operations outstanding on its socket;
`reading` if an `async_read_until` has been started and has not completed.  `do_write` hands
views of temporaries to `async_write`; it is assumed that their bytes stay as they are until
they have been sent. -/
structure SessionImpl where
  buffer : Line
  reading : Bool
  outstanding : List Line
  deriving DecidableEq, Repr

/-- A session that has not been accepted. -/
def SessionImpl.create : SessionImpl := ⟨[], false, []⟩

/-- `ServerImpl`, with all the sessions it has ever created. -/
structure Server where
  database : Database
  created : ℕ
  session : ℕ → SessionImpl

/-- An accept completes, bytes of a client arrive, an `async_read_until` completes, a
`write_some` operation sends bytes, or it fails. -/
inductive ServerEvent
  | accept (error : Option Line)
  | arrive (id : ℕ) (segment : Line)
  | complete (id : ℕ) (error : Option ErrorCode) (length : ℕ)
  | send (id : ℕ) (count : ℕ)
  | fail (id : ℕ) (message : Line)
  deriving DecidableEq, Repr

/-- A text on the error stream, a command with the messages that answer it, or bytes that
are sent. -/
inductive ServerEffect
  | silent
  | printed (text : Line)
  | handled (id : ℕ) (command : Line) (messages : List Line)
  | sent (id : ℕ) (bytes : Line)
  deriving DecidableEq, Repr

/-- Write the members of one session. -/
def Server.update (s : Server) (id : ℕ) (session : SessionImpl) : Server :=
  { s with session := Function.update s.session id session }

/-- The handler of `do_accept`; it says nothing about an error. -/
def handleAccept (s : Server) : Option Line → ServerEffect × Server
  | none => (.silent, { s with created := s.created + 1 }.update s.created ⟨[], true, []⟩)
  | some _ => (.silent, s)

/-- The text of an error. -/
def errorText (message : Line) : Line := "Error: ".toList ++ message

/-- The handler of `do_read`. -/
def handleRead (s : Server) (id : ℕ) (length : ℕ) : Option ErrorCode → ServerEffect × Server
  | none =>
      let session := s.session id
      let command := session.buffer.take length
      let (messages, database) := processCommand command s.database
      (.handled id command messages, { s with database := database }.update id
        ⟨session.buffer.drop length, true, session.outstanding ++ messages⟩)
  | some .eof =>
      (.silent, s.update id ⟨(s.session id).buffer, false, (s.session id).outstanding⟩)
  | some (.other message) =>
      (.printed (errorText message),
        s.update id ⟨(s.session id).buffer, false, (s.session id).outstanding⟩)

/-- One step of the server. -/
def serverStep (s : Server) : ServerEvent → Option (ServerEffect × Server)
  | .accept error => some (handleAccept s error)
  | .arrive id segment =>
      if (s.session id).reading = true ∧ '\n' ∉ (s.session id).buffer then
        some (.silent, s.update id
          ⟨(s.session id).buffer ++ segment, true, (s.session id).outstanding⟩)
      else none
  | .complete id error length =>
      if (s.session id).reading = true ∧ Completes (s.session id).buffer error length then
        some (handleRead s id length error)
      else none
  | .send id count =>
      (writeSome count (s.session id).outstanding).map fun (bytes, outstanding) =>
        (.sent id bytes, s.update id
          ⟨(s.session id).buffer, (s.session id).reading, outstanding⟩)
  | .fail id message =>
      match (s.session id).outstanding with
      | [] => none
      | _ :: waiting => some (.printed (errorText message), s.update id
          ⟨(s.session id).buffer, (s.session id).reading, waiting⟩)

/-- The server before the first client. -/
def initialServer : Server := ⟨.empty, 0, fun _ => .create⟩

/-- The join server. -/
def server : Machine Server ServerEvent ServerEffect where
  init := (· = initialServer)
  step := serverStep

/-! ### What a step can do

Every step is about one session at most.  The tables are shared, but only a handled
command touches them. -/

/-- The steps of the server. -/
inductive ServerMove (s : Server) : ServerEvent → ServerEffect → Server → Prop
  | accepts : ServerMove s (.accept none) .silent
      ({ s with created := s.created + 1 }.update s.created ⟨[], true, []⟩)
  | rejects {message : Line} : ServerMove s (.accept (some message)) .silent s
  | arrives {id : ℕ} {segment : Line} : (s.session id).reading = true →
      '\n' ∉ (s.session id).buffer →
      ServerMove s (.arrive id segment) .silent
        (s.update id ⟨(s.session id).buffer ++ segment, true, (s.session id).outstanding⟩)
  | handles {id length : ℕ} {command : Line} {messages : List Line} {database : Database} :
      (s.session id).reading = true → '\n' ∈ (s.session id).buffer →
      length = (s.session id).buffer.idxOf '\n' + 1 →
      command = (s.session id).buffer.take length →
      processCommand command s.database = (messages, database) →
      ServerMove s (.complete id none length) (.handled id command messages)
        ({ s with database := database }.update id
          ⟨(s.session id).buffer.drop length, true, (s.session id).outstanding ++ messages⟩)
  | ends {id length : ℕ} : (s.session id).reading = true → '\n' ∉ (s.session id).buffer →
      ServerMove s (.complete id (some .eof) length) .silent
        (s.update id ⟨(s.session id).buffer, false, (s.session id).outstanding⟩)
  | breaks {id length : ℕ} {message : Line} : (s.session id).reading = true →
      ServerMove s (.complete id (some (.other message)) length) (.printed (errorText message))
        (s.update id ⟨(s.session id).buffer, false, (s.session id).outstanding⟩)
  | sends {id count : ℕ} {bytes : Line} {outstanding : List Line} :
      writeSome count (s.session id).outstanding = some (bytes, outstanding) →
      ServerMove s (.send id count) (.sent id bytes)
        (s.update id ⟨(s.session id).buffer, (s.session id).reading, outstanding⟩)
  | fails {id : ℕ} {message buffer : Line} {waiting : List Line} :
      (s.session id).outstanding = buffer :: waiting →
      ServerMove s (.fail id message) (.printed (errorText message))
        (s.update id ⟨(s.session id).buffer, (s.session id).reading, waiting⟩)

variable {s s' : Server} {e : ServerEvent} {effect : ServerEffect} {id : ℕ}
  {trace : List (ServerEvent × ServerEffect)}

/-- **Inversion of a step.**  A connection, a segment, the end of a read with its line or its
error, and the end of a write. -/
theorem serverStep_move (h : serverStep s e = some (effect, s')) : ServerMove s e effect s' := by
  cases e with
  | accept error =>
      cases error with
      | none =>
          cases h
          exact .accepts
      | some message =>
          cases h
          exact .rejects
  | arrive id segment =>
      obtain ⟨⟨hreading, hnone⟩, h⟩ := Option.ite_none_right_eq_some.mp h
      cases h
      exact .arrives hreading hnone
  | complete id error length =>
      obtain ⟨⟨hreading, hcompletes⟩, h⟩ := Option.ite_none_right_eq_some.mp h
      match error with
      | none =>
          cases h
          exact .handles hreading hcompletes.1 hcompletes.2 rfl rfl
      | some .eof =>
          cases h
          exact .ends hreading hcompletes
      | some (.other message) =>
          cases h
          exact .breaks hreading
  | send id count =>
      obtain ⟨⟨bytes, outstanding⟩, hwrite, heq⟩ := Option.map_eq_some_iff.mp h
      cases heq
      exact .sends hwrite
  | fail id message =>
      cases hout : (s.session id).outstanding with
      | nil =>
          simp only [serverStep, hout] at h
          cases h
      | cons buffer waiting =>
          simp only [serverStep, hout] at h
          cases h
          exact .fails hout

@[simp] theorem session_update_self (s : Server) (id : ℕ) (session : SessionImpl) :
    (s.update id session).session id = session :=
  Function.update_self ..

theorem session_update_of_ne (s : Server) {id other : ℕ} (h : id ≠ other)
    (session : SessionImpl) : (s.update other session).session id = s.session id :=
  Function.update_of_ne h ..

/-- The session a step is about. -/
def Server.subject (s : Server) : ServerEvent → Option ℕ
  | .accept none => some s.created
  | .accept (some _) => none
  | .arrive id _ | .complete id _ _ | .send id _ | .fail id _ => some id

/-- Sessions that have not been accepted are as they were created. -/
def Server.Fresh (s : Server) : Prop := ∀ id, s.created ≤ id → s.session id = .create

/-- A session that is being served has been accepted. -/
theorem Server.Fresh.lt_created (h : s.Fresh) (hactive : s.session id ≠ .create) :
    id < s.created := by
  by_contra hid
  exact hactive (h id (Nat.not_lt.mp hid))

/-- A step leaves every session alone but the one it is about. -/
theorem ServerMove.session_eq (h : ServerMove s e effect s') (hother : s.subject e ≠ some id) :
    s'.session id = s.session id := by
  cases h with
  | rejects => rfl
  | _ => exact session_update_of_ne _ (fun heq => hother (congrArg some heq.symm)) _

/-- Sessions are only ever added. -/
theorem ServerMove.created_le (h : ServerMove s e effect s') : s.created ≤ s'.created := by
  cases h with
  | accepts => exact Nat.le_succ _
  | _ => exact Nat.le_refl _

/-- A step leaves the sessions fresh that have not been accepted: no handler runs for them,
because none of them reads or writes. -/
theorem ServerMove.fresh (h : ServerMove s e effect s') (hs : s.Fresh) : s'.Fresh := by
  intro id hid
  by_cases hsubject : s.subject e = some id
  · exfalso
    have hlt : s.session id ≠ .create → False := fun hactive =>
      absurd (hs.lt_created hactive) (Nat.not_lt.mpr (h.created_le.trans hid))
    cases h with
    | accepts =>
        cases hsubject
        exact absurd hid (Nat.not_succ_le_self _)
    | rejects => cases hsubject
    | arrives hreading _ | handles hreading _ _ _ _ | ends hreading _ | breaks hreading =>
        cases hsubject
        exact hlt fun heq => by
          rw [heq] at hreading
          cases hreading
    | sends hwrite =>
        cases hsubject
        exact hlt fun heq => by
          rw [heq] at hwrite
          cases hwrite
    | fails hout =>
        cases hsubject
        exact hlt fun heq => by
          rw [heq] at hout
          cases hout
  · rw [h.session_eq hsubject]
    exact hs id (h.created_le.trans hid)

/-- Sessions that have not been accepted are untouched in every run. -/
theorem execution_fresh (h : server.Execution trace s) : s.Fresh := by
  refine h.reachable.invariant (I := Server.Fresh) ?_ ?_
  · rintro s rfl id -
    rfl
  · rintro s e effect s' - hs hstep
    exact (serverStep_move hstep).fresh hs

/-! ### The commands that are handled

Taken together, the commands that the sessions handle are a run over the shared tables,
one after the other. -/

/-- The command that a step handles, with its session and its answer. -/
def ServerEffect.exchanges : ServerEffect → List ((ℕ × Line) × List Line)
  | .handled id command messages => [((id, command), messages)]
  | .silent | .printed _ | .sent _ _ => []

/-- The commands that have been handled. -/
def handled (trace : List (ServerEvent × ServerEffect)) : List ((ℕ × Line) × List Line) :=
  Machine.history ServerEffect.exchanges trace

theorem handled_concat :
    handled (trace ++ [(e, effect)]) = handled trace ++ effect.exchanges := by
  rw [handled, Machine.history_append, Machine.history_singleton, handled]

/-- **The tables are those of a run of commands.** -/
theorem execution_handled (h : server.Execution trace s) :
    (machine ℕ).Execution (handled trace) s.database := by
  refine h.project Server.database (fun x => x.2.exchanges) (fun s hs => ?_)
    fun s e effect s' _ _ hs => ?_
  · rw [show s = initialServer from hs]
    rfl
  · cases serverStep_move hs with
    | handles _ _ _ _ hcommand => exact .single (congrArg some hcommand)
    | _ => exact .refl

/-! ### What a session reads

`async_read_until` completes with a line, and only a line is ever taken from the buffer.
At the end of the stream a rest without newline stays there, and is not a command. -/

/-- The bytes that arrive at session `id`. -/
def ServerEvent.bytes (id : ℕ) : ServerEvent → Line
  | .arrive other segment => if other = id then segment else []
  | .accept _ | .complete _ _ _ | .send _ _ | .fail _ _ => []

/-- The stream of session `id`, as far as it has arrived. -/
def stream (id : ℕ) (trace : List (ServerEvent × ServerEffect)) : Line :=
  trace.flatMap fun x => x.1.bytes id

/-- The read of session `id` completes with the end of the stream. -/
def ServerEvent.Closes (id : ℕ) : ServerEvent → Prop
  | .complete other (some .eof) _ => other = id
  | .complete _ (some (.other _)) _ | .complete _ none _ | .accept _ | .arrive _ _ | .send _ _
    | .fail _ _ => False

/-- The stream of session `id` has ended. -/
def Ended (id : ℕ) (trace : List (ServerEvent × ServerEffect)) : Prop :=
  ∃ x ∈ trace, x.1.Closes id

/-- The commands of one session. -/
def commandsOf (id : ℕ) (trace : List ((ℕ × Line) × List Line)) : List Line :=
  (trace.filter fun x => x.1.1 = id).map fun x => x.1.2

theorem stream_concat : stream id (trace ++ [(e, effect)]) = stream id trace ++ e.bytes id := by
  simp only [stream, List.flatMap_append, List.flatMap_singleton]

/-- A session has ended when an earlier step or this one closed it. -/
theorem ended_concat : Ended id (trace ++ [(e, effect)]) ↔ Ended id trace ∨ e.Closes id := by
  simp [Ended, or_and_right, exists_or]

theorem commandsOf_append (first last : List ((ℕ × Line) × List Line)) :
    commandsOf id (first ++ last) = commandsOf id first ++ commandsOf id last := by
  rw [commandsOf, List.filter_append, List.map_append, commandsOf, commandsOf]

/-- Session `id`: its commands and its buffer are its stream, and at the end of the stream
there is no line left to read.  The second clause is needed for sessions that have ended: what
is left in their buffer is never looked at again, so it must not hide a command. -/
structure Reads (id : ℕ) (trace : List (ServerEvent × ServerEffect)) (s : Server) : Prop where
  framed : Framed '\n' (stream id trace) (commandsOf id (handled trace)) (s.session id).buffer
  ended : Ended id trace →
    id < s.created ∧ (s.session id).reading = false ∧ '\n' ∉ (s.session id).buffer

/-- A step that neither brings bytes to session `id` nor takes a line from it. -/
theorem Reads.frame (h : Reads id trace s) (hbytes : e.bytes id = [])
    (hcommands : commandsOf id effect.exchanges = [])
    (hbuffer : (s'.session id).buffer = (s.session id).buffer)
    (hended : Ended id trace ∨ e.Closes id →
      id < s'.created ∧ (s'.session id).reading = false ∧ '\n' ∉ (s'.session id).buffer) :
    Reads id (trace ++ [(e, effect)]) s' := by
  refine ⟨?_, fun hend => hended (ended_concat.mp hend)⟩
  rw [stream_concat, hbytes, List.append_nil, handled_concat, commandsOf_append, hcommands,
    List.append_nil, hbuffer]
  exact h.framed

/-- A step of a session that reads on. -/
theorem Reads.reads (h : Reads id trace s) (hreading : (s.session id).reading = true)
    (hcloses : ¬ e.Closes id)
    (hframed : Framed '\n' (stream id trace ++ e.bytes id)
      (commandsOf id (handled trace) ++ commandsOf id effect.exchanges) (s'.session id).buffer) :
    Reads id (trace ++ [(e, effect)]) s' := by
  refine ⟨?_, fun hend => ?_⟩
  · rw [stream_concat, handled_concat, commandsOf_append]
    exact hframed
  · obtain ⟨-, hidle, -⟩ := h.ended ((ended_concat.mp hend).resolve_right hcloses)
    rw [hreading] at hidle
    cases hidle

/-- A step of another session. -/
theorem ServerMove.silent (h : ServerMove s e effect s') (hother : s.subject e ≠ some id) :
    e.bytes id = [] ∧ effect.exchanges.filter (fun x => x.1.1 = id) = [] ∧ ¬ e.Closes id := by
  cases h with
  | accepts | rejects => exact ⟨rfl, rfl, fun hcloses => hcloses⟩
  | arrives _ _ => exact ⟨if_neg fun heq => hother (congrArg some heq), rfl, fun hcloses => hcloses⟩
  | @handles other _ _ _ _ _ _ _ _ _ =>
      have hne : other ≠ id := fun heq => hother (congrArg some heq)
      refine ⟨rfl, ?_, fun hcloses => hcloses⟩
      simp [ServerEffect.exchanges, hne]
  | ends _ _ => exact ⟨rfl, rfl, fun hcloses => hother (congrArg some hcloses)⟩
  | breaks _ | sends _ | fails _ => exact ⟨rfl, rfl, fun hcloses => hcloses⟩

/-- **The step lemma.**  A segment goes to the end of the buffer, a read takes the first line
of it; the end of the stream comes when there is no line left. -/
theorem ServerMove.reads (h : ServerMove s e effect s') (hs : s.Fresh) (hinv : Reads id trace s) :
    Reads id (trace ++ [(e, effect)]) s' := by
  by_cases hsubject : s.subject e = some id
  · cases h with
    | accepts =>
        cases hsubject
        have hcreated : s.session s.created = .create := hs _ (Nat.le_refl _)
        refine hinv.frame rfl rfl (by rw [session_update_self, hcreated]; rfl) fun hend => ?_
        rcases hend with hend | hcloses
        · exact absurd (hinv.ended hend).1 (Nat.lt_irrefl _)
        · exact absurd hcloses fun hcloses => hcloses
    | rejects => cases hsubject
    | arrives hreading _ =>
        cases hsubject
        refine hinv.reads hreading (fun hcloses => hcloses) ?_
        rw [session_update_self, ServerEvent.bytes, if_pos rfl]
        simpa [commandsOf, ServerEffect.exchanges] using hinv.framed.arrive _
    | handles hreading hmem hlength hcommand _ =>
        cases hsubject
        refine hinv.reads hreading (fun hcloses => hcloses) ?_
        rw [session_update_self, hcommand, hlength]
        simpa [commandsOf, ServerEffect.exchanges, ServerEvent.bytes] using hinv.framed.take hmem
    | ends hreading hrest =>
        cases hsubject
        refine hinv.frame rfl rfl (by rw [session_update_self]) fun _ => ?_
        rw [session_update_self]
        refine ⟨hs.lt_created fun heq => ?_, rfl, hrest⟩
        rw [heq] at hreading
        cases hreading
    | breaks hreading =>
        cases hsubject
        refine hinv.reads hreading (fun hcloses => hcloses) ?_
        rw [session_update_self]
        simpa [commandsOf, ServerEffect.exchanges, ServerEvent.bytes] using hinv.framed
    | sends _ | fails _ =>
        cases hsubject
        refine hinv.frame rfl rfl (by rw [session_update_self]) fun hend => ?_
        rw [session_update_self]
        exact hinv.ended (hend.resolve_right fun hcloses => hcloses)
  · obtain ⟨hbytes, hexchanges, hcloses⟩ := h.silent hsubject
    have hsame := h.session_eq hsubject
    refine hinv.frame hbytes (by rw [commandsOf, hexchanges]; rfl) (by rw [hsame]) fun hend => ?_
    obtain ⟨hcreated, hended⟩ := hinv.ended (hend.resolve_right hcloses)
    rw [hsame]
    exact ⟨hcreated.trans_le h.created_le, hended⟩

/-- **What a session has read.** In every run its bytes are its commands, each with its line
break, and then what is left in its buffer. -/
theorem execution_reads (h : server.Execution trace s) (id : ℕ) : Reads id trace s := by
  refine h.induct (I := Reads id) ?_ ?_
  · rintro s rfl
    refine ⟨.nil, ?_⟩
    rintro ⟨x, hx, -⟩
    cases hx
  · intro trace s e effect s' hexec hinv hstep
    exact (serverStep_move hstep).reads (execution_fresh hexec) hinv

/-! ### What a client receives

Bytes arrive in the order in which they are sent.  The order of two messages is kept as
long as none is divided while another one waits, and this is asked of the run. -/

/-- The bytes that a step sends to the client of session `id`. -/
def ServerEffect.bytes (id : ℕ) : ServerEffect → Line
  | .sent other bytes => if other = id then bytes else []
  | .silent | .printed _ | .handled _ _ _ => []

/-- The bytes that have arrived at the client of session `id`. -/
def receivedBy (id : ℕ) (trace : List (ServerEvent × ServerEffect)) : Line :=
  Machine.history (ServerEffect.bytes id) trace

/-- No operation of session `id` fails, and only the last one that is waiting is divided. -/
def Orderly (id : ℕ) (s : Server) : ServerEvent → Prop
  | .send other count =>
      other = id → Undivided ⟨s.database, (s.session id).outstanding⟩ (.send count)
  | .fail other _ => other ≠ id
  | .accept _ | .arrive _ _ | .complete _ _ _ => True

instance (id : ℕ) (s : Server) : (e : ServerEvent) → Decidable (Orderly id s e)
  | .send other _ => inferInstanceAs (Decidable (other = id → _))
  | .fail other _ => inferInstanceAs (Decidable (other ≠ id))
  | .accept _ | .arrive _ _ | .complete _ _ _ => isTrue trivial

theorem answersTo_append (first last : List ((ℕ × Line) × List Line)) :
    answersTo id (first ++ last) = answersTo id first ++ answersTo id last := by
  rw [answersTo, List.filter_append, List.map_append, answersTo, answersTo]

theorem bytesOf_append (first last : List (List Line)) :
    bytesOf (first ++ last) = bytesOf first ++ bytesOf last := by
  rw [bytesOf, List.flatten_append, List.flatten_append, bytesOf, bytesOf]

/-- **One step.**  What waits and what is answered comes out at the front, as long as the
session is orderly: an operation that fails or is divided in front of another one is what the
condition rules out. -/
theorem ServerMove.fifo (h : ServerMove s e effect s') (hs : s.Fresh) (horderly : Orderly id s e) :
    (s.session id).outstanding.flatten ++ bytesOf (answersTo id effect.exchanges) =
      effect.bytes id ++ (s'.session id).outstanding.flatten := by
  by_cases hsubject : s.subject e = some id
  · cases h with
    | accepts =>
        cases hsubject
        rw [session_update_self, hs _ (Nat.le_refl _)]
        rfl
    | rejects => cases hsubject
    | arrives _ _ | ends _ _ | breaks _ =>
        cases hsubject
        rw [session_update_self]
        exact List.append_nil _
    | handles _ _ _ _ _ =>
        cases hsubject
        rw [session_update_self]
        simp [answersTo, bytesOf, ServerEffect.exchanges, ServerEffect.bytes]
    | sends hwrite =>
        cases hsubject
        have hflatten := writeSome_flatten hwrite (horderly rfl)
        rw [session_update_self, ServerEffect.bytes, if_pos rfl]
        exact (List.append_nil _).trans hflatten
    | fails _ =>
        cases hsubject
        exact absurd rfl horderly
  · obtain ⟨-, hexchanges, -⟩ := h.silent hsubject
    have hbytes : effect.bytes id = [] := by
      cases h with
      | sends _ => exact if_neg fun heq => hsubject (congrArg some heq)
      | _ => rfl
    rw [h.session_eq hsubject, hbytes, answersTo, hexchanges]
    exact List.append_nil _

/-- **The answers arrive in order**, in a run in which session `id` is orderly: what has been
received and what waits are the answers to its lines, one after the other. -/
theorem execution_writes (h : (server.restrict (Orderly id)).Execution trace s) :
    receivedBy id trace ++ (s.session id).outstanding.flatten =
      bytesOf (answersTo id (handled trace)) := by
  obtain ⟨s₀, h0, hrun⟩ := h
  obtain rfl : s₀ = initialServer := h0
  have hfifo : (initialServer.session id).outstanding.flatten ++
      Machine.history (fun effect : ServerEffect => bytesOf (answersTo id effect.exchanges)) trace =
        receivedBy id trace ++ (s.session id).outstanding.flatten := by
    refine hrun.fifo (fun s : Server => (s.session id).outstanding.flatten) ?_
    intro front s e effect s' hfront hs
    obtain ⟨horderly, hstep⟩ := Machine.restrict_step_eq_some.mp hs
    exact (serverStep_move hstep).fifo (execution_fresh ⟨_, rfl, hfront.of_restrict⟩) horderly
  have hanswers (trace : List (ServerEvent × ServerEffect)) :
      Machine.history (fun effect : ServerEffect => bytesOf (answersTo id effect.exchanges)) trace =
        bytesOf (answersTo id (handled trace)) := by
    induction trace with
    | nil => rfl
    | cons x trace ih =>
        have hcons : handled (x :: trace) = x.2.exchanges ++ handled trace := rfl
        rw [hcons, answersTo_append, bytesOf_append, ← ih]
        rfl
  rw [← hfifo, hanswers]
  rfl

/-- **One answer for each terminated line.**  When nothing is outstanding for a session that
has been orderly, its client reads back the answers to its commands, in order; these are the
terminated lines of its stream, all of them once the stream has ended; and together with
the commands of the other sessions they are a run over the shared tables.  The buffers of the
writes are taken to stay intact until their bytes have been sent. -/
theorem served (h : (server.restrict (Orderly id)).Execution trace s)
    (hquiet : (s.session id).outstanding = []) :
    decode (receivedBy id trace) = (answersTo id (handled trace), []) ∧
      (machine ℕ).Execution (handled trace) s.database ∧
      Framed '\n' (stream id trace) (commandsOf id (handled trace)) (s.session id).buffer ∧
      (Ended id trace → '\n' ∉ (s.session id).buffer) := by
  have hwrites := execution_writes h
  rw [hquiet, List.flatten_nil, List.append_nil] at hwrites
  have hexec := h.of_restrict
  have hhandled := execution_handled hexec
  have hreads := execution_reads hexec id
  refine ⟨?_, hhandled, hreads.framed, fun hend => (hreads.ended hend).2.2⟩
  rw [hwrites]
  refine decode_bytesOf fun response hresponse => ?_
  obtain ⟨x, hx, rfl⟩ := List.mem_map.mp hresponse
  exact (execution_isAnswer hhandled).1 x (List.mem_filter.mp hx).1

/-- Session 0 inserts a row and begins another line, session 1 clears the table and is not
answered. -/
def twoClients : List (ServerEvent × ServerEffect) × Server :=
  (server.restrict (Orderly 0)).play initialServer
    [.accept none, .accept none,
      .arrive 0 (insertWord ++ [' ', 'A', ' ', '1', ' ', 'x', '\n', 'T']), .complete 0 none 13,
      .arrive 1 (truncateWord ++ [' ', 'A', '\n']), .complete 1 none 11,
      .send 0 1, .send 0 2, .fail 1 [], .complete 0 (some .eof) 0] (by decide +kernel)

theorem served_twoClients :
    decode (receivedBy 0 twoClients.1) = ([[message okText]], []) ∧
      '\n' ∉ (twoClients.2.session 0).buffer := by
  have hexec : (server.restrict (Orderly 0)).Execution twoClients.1 twoClients.2 :=
    Machine.execution_play rfl _
  obtain ⟨hdecode, -, -, hended⟩ := served hexec (by decide +kernel)
  have hanswers : answersTo 0 (handled twoClients.1) = [[message okText]] := by decide +kernel
  have hclosed : ∃ x ∈ twoClients.1, x.1 = .complete 0 (some .eof) 0 := by decide +kernel
  obtain ⟨x, hx, hcloses⟩ := hclosed
  rw [hanswers] at hdecode
  refine ⟨hdecode, hended ⟨x, hx, ?_⟩⟩
  rw [hcloses]
  rfl

end JoinServer
