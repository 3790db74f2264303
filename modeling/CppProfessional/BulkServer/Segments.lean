import CppProfessional.BulkServer.Server
import CppProfessional.Commands.Framing

/-!
# Streams that arrive in segments

Whatever the segments in which the bytes of a client arrive, `handle_read` calls `receive`
with the lines of its stream, each with a newline at its end, in their order and nothing
else, and these lines have all been processed before the session is disconnected:
`lines_received`.

`Delivery id trace s` is the invariant behind it.  Until the stream ends, the calls and the
buffer of session `id` are `Framed`; from then on, the calls are the lines of the stream.
-/

namespace BulkServer

open Transition Commands
open Async (Line Handle toText toText_injective)

/-! ### What a run did for one session

The stream is read off the segments that have arrived, the calls of `receive` off the
effects.  Everything below is an equation between the two. -/

/-- The bytes of session `id` that arrive with an event. -/
def ServerEvent.bytes (id : ℕ) : ServerEvent → Line
  | .arrive other segment => if other = id then segment else []
  | .accept _ _ | .complete _ _ _ | .line _ | .resume => []

/-- The stream of session `id`, as far as it has arrived. -/
def stream (id : ℕ) (trace : List (ServerEvent × ServerEffect)) : Line :=
  trace.flatMap fun x => x.1.bytes id

/-- The data of the `receive` that a step called for session `id`. -/
def receives (id : ℕ) : ServerEvent × ServerEffect → List Line
  | (.complete other _ _, .call (.receive _ data) _) => if other = id then [data] else []
  | _ => []

/-- The data of the calls of `receive` for session `id`. -/
def receivedBy (id : ℕ) (trace : List (ServerEvent × ServerEffect)) : List Line :=
  trace.flatMap (receives id)

/-- The lines of session `id` that were processed. -/
def processedBy (id : ℕ) (trace : List (ServerEvent × ServerEffect)) : List Line :=
  ((Machine.history Effect.lines (libraryCalls trace)).filter fun x => x.1 = toText id).map
    Prod.snd

/-- The read of session `id` completes with the end of the stream. -/
def ServerEvent.Closes (id : ℕ) : ServerEvent → Prop
  | .complete other (some .eof) _ => other = id
  | .complete _ (some (.other _)) _ | .complete _ none _ | .accept _ _ | .arrive _ _ | .line _
    | .resume => False

instance ServerEvent.instDecidableCloses (id : ℕ) :
    (e : ServerEvent) → Decidable (e.Closes id)
  | .complete other (some .eof) _ => inferInstanceAs (Decidable (other = id))
  | .complete _ (some (.other _)) _ | .complete _ none _ | .accept _ _ | .arrive _ _ | .line _
    | .resume => isFalse fun h => h

/-- The stream of session `id` has ended. -/
def Closed (id : ℕ) (trace : List (ServerEvent × ServerEffect)) : Prop :=
  ∃ x ∈ trace, x.1.Closes id

instance Closed.instDecidable (id : ℕ) (trace : List (ServerEvent × ServerEffect)) :
    Decidable (Closed id trace) :=
  inferInstanceAs (Decidable (∃ x ∈ trace, x.1.Closes id))

variable {bulk : ℕ} {s s' : Server} {e : ServerEvent} {effect : ServerEffect} {id : ℕ}
  {trace : List (ServerEvent × ServerEffect)}

theorem stream_concat : stream id (trace ++ [(e, effect)]) = stream id trace ++ e.bytes id := by
  simp only [stream, List.flatMap_append, List.flatMap_singleton]

theorem receivedBy_concat :
    receivedBy id (trace ++ [(e, effect)]) = receivedBy id trace ++ receives id (e, effect) := by
  simp only [receivedBy, List.flatMap_append, List.flatMap_singleton]

/-- A stream is closed by the event that closes it, and stays so. -/
theorem closed_concat : Closed id (trace ++ [(e, effect)]) ↔ Closed id trace ∨ e.Closes id := by
  simp [Closed, or_and_right, exists_or]

/-! ### The calls and the buffer

What has arrived is what was handed to `receive` followed by what is in the buffer; at
the end of the stream the buffer is handed over as well, even if its last line has no
newline. -/

/-- Session `id` in state `s`: not started, reading its stream, or at the end of it. -/
inductive Delivery (id : ℕ) (trace : List (ServerEvent × ServerEffect)) (s : Server) : Prop
  | unborn : s.created ≤ id → stream id trace = [] → receivedBy id trace = [] →
      ¬ Closed id trace → Delivery id trace s
  | reading : id < s.created → ¬ Closed id trace →
      Framed '\n' (stream id trace) (receivedBy id trace) (s.session id).buffer →
      Delivery id trace s
  | closed : id < s.created → Closed id trace → (s.session id).reading = false →
      s.handler ≠ some (id, .readAgain) →
      receivedBy id trace = (getlines '\n' (stream id trace)).map (· ++ ['\n']) →
      Delivery id trace s

/-- A step that is not about the stream of session `id` keeps what is said of it, as it touches
neither its buffer nor its calls. -/
theorem Delivery.frame (h : Delivery id trace s) (hcreated : id < s'.created ↔ id < s.created)
    (hbuffer : (s'.session id).buffer = (s.session id).buffer)
    (hreading : (s.session id).reading = false → (s'.session id).reading = false)
    (hhandler : s.handler ≠ some (id, .readAgain) → s'.handler ≠ some (id, .readAgain))
    (hbytes : e.bytes id = []) (hreceives : receives id (e, effect) = [])
    (hcloses : ¬ e.Closes id) : Delivery id (trace ++ [(e, effect)]) s' := by
  have hclosed : Closed id (trace ++ [(e, effect)]) ↔ Closed id trace := by
    rw [closed_concat, or_iff_left hcloses]
  have hstream : stream id (trace ++ [(e, effect)]) = stream id trace := by
    rw [stream_concat, hbytes, List.append_nil]
  have hreceived : receivedBy id (trace ++ [(e, effect)]) = receivedBy id trace := by
    rw [receivedBy_concat, hreceives, List.append_nil]
  cases h with
  | unborn hnew hnone hnothing hopen =>
      exact .unborn (Nat.not_lt.mp (mt hcreated.mp (Nat.not_lt.mpr hnew))) (hstream.trans hnone)
        (hreceived.trans hnothing) (mt hclosed.mp hopen)
  | reading hborn hopen hframed =>
      refine .reading (hcreated.mpr hborn) (mt hclosed.mp hopen) ?_
      rw [hstream, hreceived, hbuffer]
      exact hframed
  | closed hborn hend hidle hnext hlines =>
      refine .closed (hcreated.mpr hborn) (hclosed.mpr hend) (hreading hidle) (hhandler hnext) ?_
      rw [hreceived, hstream]
      exact hlines

/-- A session that is being served is reading its stream. -/
theorem Delivery.framed (h : Delivery id trace s) (hs : s.Valid)
    (hactive : (s.session id).reading = true ∨ s.handler = some (id, .readAgain)) :
    id < s.created ∧ ¬ Closed id trace ∧
      Framed '\n' (stream id trace) (receivedBy id trace) (s.session id).buffer := by
  cases h with
  | unborn hnew _ _ _ =>
      have hnull := hs.registry.fresh id hnew
      rcases hactive with hreading | hhandler
      · exact absurd hnull (hs.reading id hreading)
      · exact absurd hnull (hs.handling id _ hhandler).1
  | reading hborn hopen hframed => exact ⟨hborn, hopen, hframed⟩
  | closed _ _ hreading hnext _ =>
      rcases hactive with hreading' | hhandler
      · rw [hreading] at hreading'
        cases hreading'
      · exact absurd hhandler hnext

/-- The stream of session `id` ends: its calls are the lines of the stream. -/
theorem Delivery.ends {r : Server} {session : SessionImpl} {bytesTransferred : ℕ}
    (hborn : id < r.created)
    (hframed : Framed '\n' (stream id trace) (receivedBy id trace) (s.session id).buffer)
    (hrest : '\n' ∉ (s.session id).buffer)
    (hreceives : receives id (.complete id (some .eof) bytesTransferred, effect) =
      completed '\n' (s.session id).buffer)
    (hreading : session.reading = false) (hhandler : r.handler = some (id, .leave)) :
    Delivery id (trace ++ [(.complete id (some .eof) bytesTransferred, effect)])
      (r.update id session) := by
  refine .closed hborn (closed_concat.mpr (Or.inr rfl)) ?_ ?_ ?_
  · rw [session_update_self]
    exact hreading
  · intro hnext
    have hleave : some (id, Continuation.leave) = some (id, .readAgain) :=
      hhandler.symm.trans hnext
    cases hleave
  · rw [receivedBy_concat, hreceives, stream_concat, hframed.finish hrest]
    exact congrArg _ (congrArg _ (List.append_nil _).symm)

/-- The stream of session `id` goes on. -/
theorem Delivery.reads (hborn : id < s'.created) (hopen : ¬ Closed id trace)
    (hcloses : ¬ e.Closes id)
    (hframed : Framed '\n' (stream id trace ++ e.bytes id)
      (receivedBy id trace ++ receives id (e, effect)) (s'.session id).buffer) :
    Delivery id (trace ++ [(e, effect)]) s' := by
  refine .reading hborn ?_ ?_
  · rw [closed_concat]
    exact not_or.mpr ⟨hopen, hcloses⟩
  · rw [stream_concat, receivedBy_concat]
    exact hframed

/-- An event about another session. -/
theorem bytes_of_other (effect : ServerEffect) (h : s.subject e ≠ some id) :
    e.bytes id = [] ∧ receives id (e, effect) = [] ∧ ¬ e.Closes id := by
  match e with
  | .accept _ _ | .line _ | .resume => exact ⟨rfl, rfl, fun h => h⟩
  | .arrive other segment =>
      exact ⟨if_neg fun heq => h (congrArg some heq), rfl, fun h => h⟩
  | .complete other error bytesTransferred =>
      have hne : other ≠ id := fun heq => h (congrArg some heq)
      refine ⟨rfl, ?_, ?_⟩
      · unfold receives
        split
        · next heq =>
          cases heq
          exact if_neg hne
        · rfl
      · match error with
        | none | some (.other _) => exact fun h => h
        | some .eof => exact hne

/-- **The step lemma.**  A segment extends the stream and the buffer, a read takes a line from
the buffer and gives it to `receive`, and the end of the stream gives it the rest. -/
theorem ServerMove.delivery (h : ServerMove bulk s e effect s') (hs : s.Valid)
    (hinv : Delivery id trace s) : Delivery id (trace ++ [(e, effect)]) s' := by
  by_cases hother : s.subject e = some id
  · cases h with
    | rejects _ | processes _ => cases hother
    | accepts _ _ =>
        cases hother
        cases hinv with
        | unborn _ hnone hnothing hopen =>
            refine Delivery.reads (Nat.lt_succ_self _) hopen (fun h => h) ?_
            rw [hnone, hnothing, session_update_self]
            exact .nil
        | reading hborn _ _ => exact absurd hborn (Nat.lt_irrefl _)
        | closed hborn _ _ _ _ => exact absurd hborn (Nat.lt_irrefl _)
    | @arrives _ segment _ hreading _ =>
        cases hother
        obtain ⟨hborn, hopen, hframed⟩ := hinv.framed hs (Or.inl hreading)
        refine Delivery.reads hborn hopen (fun h => h) ?_
        rw [session_update_self, ServerEvent.bytes, if_pos rfl]
        simpa [receives] using hframed.arrive segment
    | takes _ hreading hmem hbytes _ =>
        cases hother
        obtain ⟨hborn, hopen, hframed⟩ := hinv.framed hs (Or.inl hreading)
        refine Delivery.reads hborn hopen (fun h => h) ?_
        rw [session_update_self, receives, if_pos rfl, hbytes]
        simpa [ServerEvent.bytes] using hframed.take hmem
    | takesRest _ hreading hrest hne _ =>
        cases hother
        obtain ⟨hborn, -, hframed⟩ := hinv.framed hs (Or.inl hreading)
        refine Delivery.ends hborn hframed hrest ?_ rfl rfl
        rw [receives, if_pos rfl, completed, if_neg hne]
    | ends _ hreading hempty =>
        cases hother
        obtain ⟨hborn, -, hframed⟩ := hinv.framed hs (Or.inl hreading)
        have hrest : '\n' ∉ (s.session id).buffer := by
          rw [hempty]
          exact List.not_mem_nil
        refine Delivery.ends hborn hframed hrest ?_ rfl rfl
        rw [completed, if_pos hempty]
        rfl
    | fails _ hreading =>
        cases hother
        obtain ⟨hborn, hopen, hframed⟩ := hinv.framed hs (Or.inl hreading)
        refine Delivery.reads hborn hopen (fun h => h) ?_
        rw [session_update_self]
        simpa [ServerEvent.bytes, receives] using hframed
    | rereads hhandler _ =>
        rw [Server.subject, hhandler] at hother
        cases hother
        obtain ⟨hborn, hopen, hframed⟩ := hinv.framed hs (Or.inr hhandler)
        refine Delivery.reads hborn hopen (fun h => h) ?_
        rw [session_update_self]
        simpa [ServerEvent.bytes, receives] using hframed
    | leaves hhandler _ _ =>
        -- its handle is gone, and its stream is as it was
        rw [Server.subject, hhandler] at hother
        cases hother
        exact hinv.frame Iff.rfl (by rw [session_update_self])
          (fun _ => by rw [session_update_self]) (fun _ h => by cases h) rfl rfl fun h => h
  · obtain ⟨hsession, hcreated, hhandler⟩ := h.frame hother
    obtain ⟨hbytes, hreceives, hcloses⟩ := bytes_of_other effect hother
    exact hinv.frame hcreated (by rw [hsession]) (by rw [hsession]; exact fun h => h)
      (mt (hhandler .readAgain).mp) hbytes hreceives hcloses

/-! ### The lines of the calls

The data of one call is a single line with its newline, so that `receive` cuts it into
just this line. -/

/-- The lines a step sends to the library are those of the `receive` that it calls, under the
id of the context behind the handle. -/
theorem ServerMove.sentLines (h : ServerMove bulk s e effect s') (hs : s.Valid) (id : ℕ) :
    (sentLines effect.calls).filter (fun x => x.1 = toText id) =
      ((receives id (e, effect)).flatMap (getlines '\n')).map fun line => (toText id, line) := by
  have hreceive {subject : ℕ} {data : Line} {effect : Effect} {library : Library}
      (hreading : (s.session subject).reading = true)
      (hstep : step s.library (.receive (s.session subject).handle data) =
        some (effect, library)) :
      (BulkServer.sentLines [(.receive (s.session subject).handle data, effect)]).filter
          (fun x => x.1 = toText id) =
        ((if subject = id then [data] else []).flatMap (getlines '\n')).map
          fun line => (toText id, line) := by
    have hnull := hs.reading subject hreading
    obtain ⟨rfl, -⟩ := receive_effect hs.consistent hstep hnull
      (hs.registry.registered subject hnull)
    by_cases hsame : subject = id
    · rw [if_pos hsame, hsame]
      simp [BulkServer.sentLines]
    · have htext : toText subject ≠ toText id := fun heq => hsame (toText_injective heq)
      rw [if_neg hsame]
      simp [BulkServer.sentLines, htext]
  cases h with
  | takes _ hreading _ _ hstep => exact hreceive hreading hstep
  | takesRest _ hreading _ _ hstep => exact hreceive hreading hstep
  | _ => rfl

/-! ### Every run

The lines of a call are processed one by one while the handler waits.  They are known to
have been processed when the handler goes on, and this is before the session can be
removed. -/

/-- In every state the stream is the lines that were received and what is still in the buffers,
and the library has got these lines under the id of the session. -/
theorem execution_delivery (h : (server bulk).Execution trace s) (id : ℕ) :
    Delivery id trace s ∧ (sentLines (libraryCalls trace)).filter (fun x => x.1 = toText id) =
      ((receivedBy id trace).flatMap (getlines '\n')).map fun line => (toText id, line) := by
  have hinv : s.Valid ∧ Delivery id trace s ∧
      (sentLines (libraryCalls trace)).filter (fun x => x.1 = toText id) =
        ((receivedBy id trace).flatMap (getlines '\n')).map fun line => (toText id, line) := by
    refine h.induct (I := fun trace s => s.Valid ∧ Delivery id trace s ∧
      (sentLines (libraryCalls trace)).filter (fun x => x.1 = toText id) =
        ((receivedBy id trace).flatMap (getlines '\n')).map fun line => (toText id, line)) ?_ ?_
    · rintro s rfl
      refine ⟨valid_initialServer, .unborn (Nat.zero_le _) rfl rfl ?_, rfl⟩
      rintro ⟨x, hx, -⟩
      cases hx
    · rintro trace s e effect s' - ⟨hvalid, hdelivery, hsent⟩ hs
      have hmove := serverStep_move hvalid hs
      refine ⟨serverMove_valid hmove hvalid, hmove.delivery hvalid hdelivery, ?_⟩
      have happend : sentLines (libraryCalls trace ++ effect.calls) =
          sentLines (libraryCalls trace) ++ sentLines effect.calls := List.flatMap_append ..
      rw [libraryCalls, Machine.history_append, Machine.history_singleton, ← libraryCalls, happend,
        List.filter_append, hsent, hmove.sentLines hvalid id, receivedBy_concat,
        List.flatMap_append, List.map_append]
  exact hinv.2

/-- The lines in progress are those of the session whose handler waits for them; if there is
none, nothing is in progress for any session. -/
theorem Server.Valid.inProgress (hs : s.Valid) (id : ℕ)
    (hdone : s.handler.map Prod.fst ≠ some id ∨ s.library.receiving = none) :
    s.library.inProgress.filter (fun x => x.1 = toText id) = [] := by
  unfold Library.inProgress
  cases hreceiving : s.library.receiving with
  | none => rfl
  | some call =>
      obtain ⟨handle, lines⟩ := call
      obtain ⟨other, continuation, hhandler, hother⟩ := hs.receiving handle lines hreceiving
      have hne : toText other ≠ toText id := by
        intro heq
        rcases hdone with hdone | hdone
        · exact hdone (by rw [hhandler, toText_injective heq]; rfl)
        · rw [hreceiving] at hdone
          cases hdone
      obtain ⟨hnull, -⟩ := hs.handling other continuation hhandler
      have hregistered := hs.registry.registered other hnull
      rw [hother, Library.contextIds] at hregistered
      obtain ⟨context, hlookup, hid⟩ := Option.map_eq_some_iff.mp hregistered
      simp only [hlookup, Option.elim_some, List.filter_map]
      rw [List.map_eq_nil_iff, List.filter_eq_nil_iff]
      intro line _ heq
      exact hne (hid.symm.trans (of_decide_eq_true heq))

/-- **Segmentation does not matter.**  The calls of `receive` for a client that has closed
are the lines of its stream, and when the session is about to be disconnected, these lines
have all been processed, in their order. -/
theorem lines_received (h : (server bulk).Execution trace s) (hclosed : Closed id trace) :
    receivedBy id trace = (getlines '\n' (stream id trace)).map (· ++ ['\n']) ∧
      (s.handler.map Prod.fst ≠ some id ∨ s.library.receiving = none →
        processedBy id trace = getlines '\n' (stream id trace)) := by
  obtain ⟨hdelivery, hsent⟩ := execution_delivery h id
  obtain ⟨hvalid, hlibrary⟩ := execution_library h
  have hcalls : receivedBy id trace = (getlines '\n' (stream id trace)).map (· ++ ['\n']) := by
    cases hdelivery with
    | unborn _ _ _ hopen => exact absurd hclosed hopen
    | reading _ hopen _ => exact absurd hclosed hopen
    | closed _ _ _ _ hcalls => exact hcalls
  refine ⟨hcalls, fun hdone => ?_⟩
  obtain ⟨ledger, opened, hinv⟩ := execution_invariant hlibrary
  have hprocessed := congrArg (List.filter fun x => x.1 = toText id) hinv.received
  rw [List.filter_append, hvalid.inProgress id hdone, List.append_nil, hsent, hcalls,
    flatMap_getlines_frames fun line hline => notMem_of_mem_getlines hline] at hprocessed
  rw [processedBy, ← hprocessed, List.map_map]
  exact List.map_id _

/-- A client whose stream arrives in three segments and ends within a line, up to the
`disconnect` of its session. -/
def threeSegments : List (ServerEvent × ServerEffect) × Server :=
  (server 2).play initialServer
    [.accept none 1, .arrive 0 ['a'], .arrive 0 ['b', '\n', '\n', '{'],
      .complete 0 none 3, .line 0, .line 0, .resume, .complete 0 none 1, .line 0, .line 0, .resume,
      .arrive 0 ['\n', 'c', 'd'], .complete 0 none 2, .line 0, .line 0, .resume,
      .complete 0 (some .eof) 0, .line 0, .line 0] (by decide +kernel)

/-- Three segments with four lines, one of them empty and one torn. -/
theorem lines_received_threeSegments :
    receivedBy 0 threeSegments.1 =
        [['a', 'b', '\n'], ['\n'], ['{', '\n'], ['c', 'd', '\n']] ∧
      processedBy 0 threeSegments.1 = [['a', 'b'], [], ['{'], ['c', 'd']] := by
  have hexec : (server 2).Execution threeSegments.1 threeSegments.2 := Machine.execution_play rfl _
  have hclosed : Closed 0 threeSegments.1 := by decide +kernel
  obtain ⟨hcalls, hprocessed⟩ := lines_received hexec hclosed
  rw [hcalls, hprocessed (Or.inr (by decide +kernel))]
  decide +kernel

end BulkServer
