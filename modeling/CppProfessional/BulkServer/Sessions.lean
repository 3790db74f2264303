import CppProfessional.BulkServer.Server

/-!
# The end of a session

A session has ended once its `handle_read` has returned without another read.  With the end
of the stream it is cleaned up; with any other error it keeps its handle and its place in
`sessions_` for the rest of the run, and the shared manager keeps its static block.

* `Server.Stuck` — a session that has a handle and is not going to be served again;
* `ServerMove.stuck_iff` — a step makes a session stuck only if its read fails;
* `ended_cleaned_iff` — an ended session is cleaned up if and only if its read has not
  failed, and when no client is connected any more, the library is back in its idle state
  if and only if no read has failed.
-/

namespace BulkServer

open Transition
open Async (Line Handle toText toText_injective)

/-! ### Served, ended, cleaned up -/

/-- A read of the session has been started, or its handler is not done. -/
def Server.Active (s : Server) (id : ℕ) : Prop :=
  (s.session id).reading = true ∨ s.handler.map Prod.fst = some id

instance Server.instDecidableActive (s : Server) (id : ℕ) : Decidable (s.Active id) :=
  inferInstanceAs (Decidable (_ ∨ _))

/-- The session has been started and is not going to be served again. -/
def Server.Ended (s : Server) (id : ℕ) : Prop := id < s.created ∧ ¬ s.Active id

instance Server.instDecidableEnded (s : Server) (id : ℕ) : Decidable (s.Ended id) :=
  inferInstanceAs (Decidable (_ ∧ _))

/-- The session is not in `sessions_`, and no context is its own. -/
def Server.CleanedUp (s : Server) (id : ℕ) : Prop :=
  id ∉ s.sessions ∧ ∀ handle, s.library.contextIds handle ≠ some (toText id)

/-- The session has a handle and is not going to be served again. -/
def Server.Stuck (s : Server) (id : ℕ) : Prop := (s.session id).handle ≠ 0 ∧ ¬ s.Active id

/-- A read of session `id` completes with an error that is not the end of the stream. -/
def ServerEvent.Fails (id : ℕ) : ServerEvent → Prop
  | .complete other (some (.other _)) _ => other = id
  | .complete _ (some .eof) _ | .complete _ none _ | .accept _ _ | .arrive _ _ | .line _
    | .resume => False

instance ServerEvent.instDecidableFails (id : ℕ) : (e : ServerEvent) → Decidable (e.Fails id)
  | .complete other (some (.other _)) _ => inferInstanceAs (Decidable (other = id))
  | .complete _ (some .eof) _ | .complete _ none _ | .accept _ _ | .arrive _ _ | .line _
    | .resume => isFalse fun h => h

/-- A read of session `id` has failed. -/
def Failed (id : ℕ) (trace : List (ServerEvent × ServerEffect)) : Prop :=
  ∃ x ∈ trace, x.1.Fails id

instance Failed.instDecidable (id : ℕ) (trace : List (ServerEvent × ServerEffect)) :
    Decidable (Failed id trace) :=
  inferInstanceAs (Decidable (∃ x ∈ trace, x.1.Fails id))

variable {bulk : ℕ} {s s' : Server} {e : ServerEvent} {effect : ServerEffect} {id : ℕ}
  {trace : List (ServerEvent × ServerEffect)}

theorem failed_concat : Failed id (trace ++ [(e, effect)]) ↔ Failed id trace ∨ e.Fails id := by
  simp [Failed, or_and_right, exists_or]

/-! ### Steps of one session -/

theorem not_stuck_of_reading (h : (s.session id).reading = true) : ¬ s.Stuck id :=
  fun hstuck => hstuck.2 (Or.inl h)

theorem not_stuck_of_handler {continuation : Continuation}
    (h : s.handler = some (id, continuation)) : ¬ s.Stuck id :=
  fun hstuck => hstuck.2 (Or.inr (by rw [h]; rfl))

theorem subject_of_fails (h : e.Fails id) : s.subject e = some id := by
  match e with
  | .complete _ (some (.other _)) _ => exact congrArg some h

/-- A step that is about another session. -/
theorem ServerMove.stuck_frame (h : ServerMove bulk s e effect s')
    (hother : s.subject e ≠ some id) : s'.Stuck id ↔ s.Stuck id := by
  obtain ⟨hsession, -, hhandler⟩ := h.frame hother
  simp only [Server.Stuck, Server.Active, hsession, Option.map_eq_some_iff, Prod.exists,
    exists_and_right, exists_eq_right, hhandler]

/-- **The step lemma.**  A session gets stuck when its read fails, and for no other
reason. -/
theorem ServerMove.stuck_iff (h : ServerMove bulk s e effect s') (hs : s.Valid) (id : ℕ) :
    s'.Stuck id ↔ s.Stuck id ∨ e.Fails id := by
  by_cases hother : s.subject e = some id
  · have hserved (hbefore : ¬ s.Stuck id) (hafter : ¬ s'.Stuck id) (hfails : ¬ e.Fails id) :
        s'.Stuck id ↔ s.Stuck id ∨ e.Fails id :=
      iff_of_false hafter (not_or.mpr ⟨hbefore, hfails⟩)
    cases h with
    | rejects _ | processes _ => cases hother
    | accepts _ _ =>
        cases hother
        refine hserved ?_ (not_stuck_of_reading (by rw [session_update_self])) fun h => h
        exact fun hstuck => hstuck.1 (hs.registry.fresh _ (Nat.le_refl _))
    | arrives _ hreading _ =>
        cases hother
        exact hserved (not_stuck_of_reading hreading)
          (not_stuck_of_reading (by rw [session_update_self])) fun h => h
    | takes _ hreading _ _ _ | takesRest _ hreading _ _ _ | ends _ hreading _ =>
        cases hother
        exact hserved (not_stuck_of_reading hreading) (not_stuck_of_handler rfl) fun h => h
    | fails hidle hreading =>
        -- the session keeps its handle, and nothing is left to serve it
        cases hother
        refine iff_of_true ⟨?_, ?_⟩ (Or.inr rfl)
        · rw [session_update_self]
          exact hs.reading id hreading
        · rintro (hreading' | hhandler)
          · rw [session_update_self] at hreading'
            cases hreading'
          · have hhandler' : s.handler.map Prod.fst = some id := hhandler
            rw [hidle] at hhandler'
            cases hhandler'
    | rereads hhandler _ =>
        rw [Server.subject, hhandler] at hother
        cases hother
        exact hserved (not_stuck_of_handler hhandler)
          (not_stuck_of_reading (by rw [session_update_self])) fun h => h
    | leaves hhandler _ _ =>
        rw [Server.subject, hhandler] at hother
        cases hother
        refine hserved (not_stuck_of_handler hhandler) ?_ fun h => h
        intro hstuck
        have hhandle := hstuck.1
        rw [session_update_self] at hhandle
        exact hhandle rfl
  · rw [or_iff_left fun hfails => hother (subject_of_fails hfails)]
    exact h.stuck_frame hother

/-! ### Every run -/

/-- In every state a session is stuck exactly if one of its reads has failed. -/
theorem execution_stuck (h : (server bulk).Execution trace s) (id : ℕ) :
    s.Stuck id ↔ Failed id trace := by
  have hinv : s.Valid ∧ (s.Stuck id ↔ Failed id trace) := by
    refine h.induct (I := fun trace s => s.Valid ∧ (s.Stuck id ↔ Failed id trace)) ?_ ?_
    · rintro s rfl
      refine ⟨valid_initialServer, iff_of_false (fun hstuck => hstuck.1 rfl) ?_⟩
      rintro ⟨x, hx, -⟩
      cases hx
    · rintro trace s e effect s' - ⟨hvalid, hstuck⟩ hs
      have hmove := serverStep_move hvalid hs
      refine ⟨serverMove_valid hmove hvalid, ?_⟩
      rw [hmove.stuck_iff hvalid id, hstuck, failed_concat]
  exact hinv.2

/-- A session is cleaned up once it has no handle. -/
theorem Server.Valid.cleanedUp_iff (hs : s.Valid) (id : ℕ) :
    s.CleanedUp id ↔ (s.session id).handle = 0 := by
  constructor
  · rintro ⟨hlisted, -⟩
    by_contra hne
    exact hlisted ((hs.registry.listed id).mpr hne)
  · intro hnull
    refine ⟨fun hlisted => (hs.registry.listed id).mp hlisted hnull, fun handle hid => ?_⟩
    obtain ⟨hne, other, hother, hsame⟩ := hs.registry.owned handle _ hid
    rw [← toText_injective hsame] at hother
    exact hne (hother.symm.trans hnull)

/-- No session has a handle if and only if there is no context. -/
theorem Server.Valid.contexts_eq_nil_iff (hs : s.Valid) :
    s.library.contexts.entries = [] ↔ ∀ id, (s.session id).handle = 0 := by
  constructor
  · intro hempty id
    by_contra hne
    have hregistered := hs.registry.registered id hne
    have hcontexts : s.library.contexts = ∅ := AList.ext hempty
    rw [Library.contextIds, hcontexts] at hregistered
    cases hregistered
  · intro hnull
    by_contra hne
    obtain ⟨⟨handle, context⟩, hmem⟩ := List.exists_mem_of_ne_nil _ hne
    have hlookup : s.library.contexts.lookup handle = some context :=
      AList.mem_lookup_iff.mpr hmem
    have hid : s.library.contextIds handle = some context.id := by
      rw [Library.contextIds, hlookup]
      rfl
    obtain ⟨hhandle, id, hid', -⟩ := hs.registry.owned handle _ hid
    exact hhandle (hid'.symm.trans (hnull id))

/-- **Cleaning up.**  An ended session is cleaned up if and only if its read has not
failed.  When no client is connected any more, there is no context, and every command
outside braces has been put out, if and only if no read has failed. -/
theorem ended_cleaned_iff (h : (server bulk).Execution trace s) :
    (∀ id, s.Ended id → (s.CleanedUp id ↔ ¬ Failed id trace)) ∧
      ((∀ id, ¬ s.Active id) →
        ((s.library.contexts.entries = [] ∧ s.library.sharedTaskManager = none ∧
            staticCommands (Machine.history Effect.outputs (libraryCalls trace)) =
              staticArrivals (Machine.history Effect.lines (libraryCalls trace))) ↔
          ∀ id, ¬ Failed id trace)) := by
  obtain ⟨hvalid, hlibrary⟩ := execution_library h
  have hhandle {id : ℕ} (hidle : ¬ s.Active id) :
      (s.session id).handle = 0 ↔ ¬ Failed id trace := by
    rw [← execution_stuck h id, Server.Stuck, and_iff_left hidle, not_not]
  constructor
  · intro id hended
    rw [hvalid.cleanedUp_iff, hhandle hended.2]
  · intro hidle
    have hcontexts : s.library.contexts.entries = [] ↔ ∀ id, ¬ Failed id trace := by
      rw [hvalid.contexts_eq_nil_iff]
      exact forall_congr' fun id => hhandle (hidle id)
    rw [← hcontexts]
    exact ⟨And.left, fun hempty => ⟨hempty, execution_flushed hlibrary hempty⟩⟩

/-- Two clients.  The first one sends a line in two segments and the beginning of another,
and then one of them or both end their streams. -/
def twoClients (endings : List ServerEvent) : List ServerEvent :=
  List.flatten
    [[.accept none 1, .accept none 2, .arrive 0 ['a'], .arrive 0 ['\n', 'b'],
        .complete 0 none 2, .line 0, .line 0, .resume], endings]

/-- Both end their streams. -/
def bothClose : List (ServerEvent × ServerEffect) × Server :=
  (server 3).play initialServer (twoClients
    [.complete 0 (some .eof) 0, .line 0, .line 0, .resume, .complete 1 (some .eof) 0, .resume])
    (by decide +kernel)

/-- Two sessions whose streams end are both cleaned up. -/
theorem ended_cleaned_iff_bothClose :
    bothClose.2.CleanedUp 0 ∧ bothClose.2.CleanedUp 1 := by
  have hexec : (server 3).Execution bothClose.1 bothClose.2 := Machine.execution_play rfl _
  obtain ⟨hended, -⟩ := ended_cleaned_iff hexec
  exact ⟨(hended 0 (by decide +kernel)).mpr (by decide +kernel),
    (hended 1 (by decide +kernel)).mpr (by decide +kernel)⟩

/-- The connection of one client is reset while the other one has closed. -/
def oneResets : List (ServerEvent × ServerEffect) × Server :=
  (server 3).play initialServer (twoClients
    [.complete 0 (some .eof) 0, .line 0, .line 0, .resume,
      .complete 1 (some (.other "Connection reset by peer".toList)) 0])
    (by decide +kernel)

/-- The session stays, and so does the static block of the other one. -/
theorem oneResets_not_cleanedUp :
    (server 3).Execution oneResets.1 oneResets.2 ∧ oneResets.2.created = 2 ∧
      oneResets.2.Ended 0 ∧ oneResets.2.Ended 1 ∧ 1 ∈ oneResets.2.sessions ∧
      oneResets.2.library.contextIds 2 = some (toText 1) ∧
      oneResets.2.library.pending = [['a'], ['b']] := by
  refine ⟨Machine.execution_play rfl _, ?_, ?_, ?_, ?_, ?_, ?_⟩ <;> decide +kernel

end BulkServer
