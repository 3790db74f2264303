import CppProfessional.BulkServer.Accounting

/-!
# Every run of the bulk server

`Accounted` collects what holds in every reachable state: the ledger of the
commands agrees with the library, static commands keep the order in which they were
received, a connection outside braces has no dynamic block, the static block stays
short, and nothing is pending once the last connection is gone.  `accounted` is the
run theorem, and `move_invariant` the step lemma under it.

The program keeps no ledger: a block is a list of commands, and where they came from is
forgotten.  The ledger is built along the run, and the step lemma has to find the next one: a
command that arrives is entered at the place where the library puts it, and a flush moves
everything at one place to another.
-/

namespace BulkServer

open Transition Commands
open Async (OutputTask Line Block Handle toText toText_injective entries_ne_nil_of_lookup)

/-! ### Consistency

The shared manager exists exactly while there are contexts.  So a line always has a
manager to go to, and the last `disconnect` finds the one that it puts out. -/

section Consistency

variable {s s' : Library} {e : Event} {effect : Effect}

theorem consistent_initial : initial.Consistent :=
  ⟨rfl, iff_of_true rfl rfl, fun _ _ hreceiving => (by cases hreceiving)⟩

/-- One step keeps the library consistent: the manager comes with the first context and goes
with the last. -/
theorem move_consistent (h : Move s e effect s') (hs : s.Consistent) : s'.Consistent := by
  cases h with
  | connects hidle _ _ =>
      refine ⟨rfl, ?_, fun handle lines hreceiving => ?_⟩
      · simp
      · rw [hidle] at hreceiving
        cases hreceiving
  | ignores _ _ | ignoresNull _ | misses _ _ => exact hs
  | accepts _ hlookup =>
      refine ⟨hs.initialized, hs.shared, fun handle lines hreceiving => ?_⟩
      cases hreceiving
      exact ⟨_, hlookup⟩
  | returns _ =>
      refine ⟨hs.initialized, hs.shared, fun handle lines hreceiving => ?_⟩
      cases hreceiving
  | processes _ hmanager hlookup hmove =>
      obtain ⟨m', hm'⟩ := hmove.manager
      have hinit := hs.initialized
      rw [hmanager] at hinit
      refine ⟨?_, ?_, fun handle lines hreceiving => ?_⟩
      · rw [hm']
        exact hinit
      · simp [hm']
      · cases hreceiving
        exact ⟨_, AList.lookup_insert _⟩
  | leaves hidle hlookup hne =>
      refine ⟨hs.initialized, ?_, fun handle lines hreceiving => ?_⟩
      · have hsome : s.sharedTaskManager ≠ none :=
          fun hnone => entries_ne_nil_of_lookup hlookup (hs.shared.mp hnone)
        exact iff_of_false hsome hne
      · rw [hidle] at hreceiving
        cases hreceiving
  | stops hidle _ hempty _ _ =>
      refine ⟨rfl, iff_of_true rfl hempty, fun handle lines hreceiving => ?_⟩
      rw [hidle] at hreceiving
      cases hreceiving

end Consistency

/-! ### The dynamic blocks by id

The ledger does not know handles, which may be given out again; an id is given out once. -/

/-- `opened` gives the dynamic block of each connection, by its id.  The library knows contexts
by their handles and the ledger by their ids, and it is `distinct` that allows to pass from one
to the other. -/
structure Opened (contexts : AList fun _ : Handle => ConnectionContext)
    (opened : Line → Option (List Line)) : Prop where
  block : ∀ handle context, contexts.lookup handle = some context →
    opened context.id = some context.dynamicBlockTask
  live : ∀ id, opened id ≠ none →
    ∃ handle context, contexts.lookup handle = some context ∧ context.id = id
  distinct : ∀ handle handle' context context', contexts.lookup handle = some context →
    contexts.lookup handle' = some context' → context.id = context'.id → handle = handle'

section Opened

variable {contexts : AList fun _ : Handle => ConnectionContext}
  {opened : Line → Option (List Line)} {handle handle' : Handle}
  {context context' : ConnectionContext}

/-- What is found after an insertion has been inserted or was there. -/
theorem lookup_insert_cases
    (h : (contexts.insert handle context).lookup handle' = some context') :
    (handle' = handle ∧ context' = context) ∨
      (handle' ≠ handle ∧ contexts.lookup handle' = some context') := by
  by_cases hhandle : handle' = handle
  · rw [hhandle, AList.lookup_insert] at h
    exact Or.inl ⟨hhandle, (Option.some.inj h).symm⟩
  · rw [AList.lookup_insert_ne hhandle] at h
    exact Or.inr ⟨hhandle, h⟩

/-- What is found after an erasure was there, under another handle. -/
theorem lookup_erase_cases
    (h : (contexts.erase handle).lookup handle' = some context') :
    handle' ≠ handle ∧ contexts.lookup handle' = some context' := by
  by_cases hhandle : handle' = handle
  · rw [hhandle, AList.lookup_erase] at h
    cases h
  · rw [AList.lookup_erase_ne hhandle] at h
    exact ⟨hhandle, h⟩

/-- A context changes and keeps its id, or a context with a new id comes.  In either case no
other context has the id, which is what `distinct` asks. -/
theorem Opened.insert (h : Opened contexts opened)
    (hnew : ∀ other context', other ≠ handle → contexts.lookup other = some context' →
      context'.id ≠ context.id)
    (hold : ∀ context', contexts.lookup handle = some context' → context'.id = context.id) :
    Opened (contexts.insert handle context)
      (Function.update opened context.id (some context.dynamicBlockTask)) where
  block other context' hlookup := by
    rcases lookup_insert_cases hlookup with ⟨-, rfl⟩ | ⟨hother, hlookup⟩
    · rw [Function.update_self]
    · rw [Function.update_of_ne (hnew other context' hother hlookup)]
      exact h.block other context' hlookup
  live id hid := by
    by_cases hsame : id = context.id
    · exact ⟨handle, context, AList.lookup_insert _, hsame.symm⟩
    · rw [Function.update_of_ne hsame] at hid
      obtain ⟨other, context', hlookup, rfl⟩ := h.live id hid
      have hother : other ≠ handle := by
        rintro rfl
        exact hsame (hold context' hlookup)
      exact ⟨other, context', by rw [AList.lookup_insert_ne hother, hlookup], rfl⟩
  distinct other other' context₁ context₂ h₁ h₂ hid := by
    rcases lookup_insert_cases h₁ with ⟨hsame, rfl⟩ | ⟨hother, h₁'⟩
    · rcases lookup_insert_cases h₂ with ⟨hsame', -⟩ | ⟨hother', h₂'⟩
      · rw [hsame, hsame']
      · exact absurd hid.symm (hnew other' context₂ hother' h₂')
    · rcases lookup_insert_cases h₂ with ⟨-, rfl⟩ | ⟨-, h₂'⟩
      · exact absurd hid (hnew other context₁ hother h₁')
      · exact h.distinct other other' context₁ context₂ h₁' h₂' hid

/-- A context goes, and with it the only one that has its id. -/
theorem Opened.erase (h : Opened contexts opened)
    (hlookup : contexts.lookup handle = some context) :
    Opened (contexts.erase handle) (Function.update opened context.id none) where
  block other context' hlookup' := by
    obtain ⟨hother, hlookup'⟩ := lookup_erase_cases hlookup'
    rw [Function.update_of_ne]
    · exact h.block other context' hlookup'
    · exact fun hid => hother (h.distinct other handle context' context hlookup' hlookup hid)
  live id hid := by
    have hsame : id ≠ context.id := by
      rintro rfl
      rw [Function.update_self] at hid
      exact hid rfl
    rw [Function.update_of_ne hsame] at hid
    obtain ⟨other, context', hlookup', rfl⟩ := h.live id hid
    have hother : other ≠ handle := by
      rintro rfl
      rw [hlookup] at hlookup'
      cases hlookup'
      exact hsame rfl
    exact ⟨other, context', by rw [AList.lookup_erase_ne hother, hlookup'], rfl⟩
  distinct other other' context₁ context₂ h₁ h₂ hid :=
    h.distinct other other' context₁ context₂ (lookup_erase_cases h₁).2 (lookup_erase_cases h₂).2
      hid

end Opened

/-! ### The accounts

The step lemma is put together from four kinds of steps.  That a line is taken from
those in progress and entered into the books at the same moment is why `received` is
about both together. -/

/-- The static block is shorter than the bulk size, which is one that a `connect` of
the run asked for. -/
def Library.Bounded (s : Library) (trace : List (Event × Effect)) : Prop :=
  ∀ m, s.sharedTaskManager = some m →
    m.staticBlockTask.length < max m.maxStaticTaskCount 1 ∧
      ∃ address, Event.connect m.maxStaticTaskCount address ∈ trace.map Prod.fst

/-- Every dynamic block of the run was put out by a closing brace that the connection sent
whose id it carries. -/
def ClosedBySender (trace : List (Event × Effect)) : Prop :=
  ∀ x ∈ trace, ∀ task, (Block.dynamic, task) ∈ x.2.outputs →
    x.2 = .processed task.contextId ['}'] (some (.dynamic, task))

/-- The accounts of a run that ends in state `s`.  They speak about the lines that have been
taken from the received data; what a `receive` in progress has not come to is `inProgress`, and
`received` puts the two together. -/
structure Accounted (trace : List (Event × Effect)) (s : Library)
    (ledger : Ledger Arrival Place) (opened : Line → Option (List Line)) : Prop where
  received : sentLines trace = Machine.history Effect.lines trace ++ s.inProgress
  items : ledger.items = arrivals (Machine.history Effect.lines trace)
  contexts : Opened s.contexts opened
  books : Books (Machine.history Effect.outputs trace) (Machine.history Effect.discards trace)
    s.pending opened ledger
  ordered : staticCommands (Machine.history Effect.outputs trace) ++ s.pending =
    staticArrivals (Machine.history Effect.lines trace)
  level : ∀ handle context, s.contexts.lookup handle = some context →
    context.dynamicBlockNestingLevel = balance context.id (Machine.history Effect.lines trace) ∧
      (context.dynamicBlockNestingLevel ≤ 0 → context.dynamicBlockTask = [])
  bounded : s.Bounded trace

/-- The accounts, and the ids given out so far.  The accounts alone are not kept by a new
connection: its id must not stand in the books yet, and that it does not is known only because
all ids in them have been given out, and the next one has not. -/
structure Invariant (trace : List (Event × Effect)) (s : Library)
    (ledger : Ledger Arrival Place) (opened : Line → Option (List Line)) : Prop
    extends Accounted trace s ledger opened where
  consistent : s.Consistent
  ids : Machine.history Effect.ids trace = (List.range s.nextId).map fun n : ℕ => toText n
  knownLines : ∀ x ∈ Machine.history Effect.lines trace, x.1 ∈ Machine.history Effect.ids trace
  knownOpened : ∀ id, opened id ≠ none → id ∈ Machine.history Effect.ids trace
  knownDiscards : ∀ x ∈ Machine.history Effect.discards trace,
    x.1 ∈ Machine.history Effect.ids trace

section Steps

variable {trace : List (Event × Effect)} {s s' : Library} {ledger : Ledger Arrival Place}
  {opened : Line → Option (List Line)} {e : Event} {effect : Effect}

theorem sentLines_concat (trace : List (Event × Effect)) (x : Event × Effect) :
    sentLines (trace ++ [x]) = sentLines trace ++ sentLines [x] := by
  simp [sentLines]

/-- The connections have known ids, and so has the one whose dynamic block changes. -/
theorem known_update {ids : List Line} {id : Line} {block : Option (List Line)}
    (h : ∀ other, opened other ≠ none → other ∈ ids) (hid : id ∈ ids) (other : Line)
    (hother : Function.update opened id block other ≠ none) : other ∈ ids := by
  by_cases hsame : other = id
  · rw [hsame]
    exact hid
  · rw [Function.update_of_ne hsame] at hother
    exact h other hother

/-- One more entry, of a known connection. -/
theorem known_concat {α : Type*} {ids : List Line} {entries : List (Line × α)} {entry : Line × α}
    (h : ∀ x ∈ entries, x.1 ∈ ids) (hentry : entry.1 ∈ ids) :
    ∀ x ∈ entries ++ [entry], x.1 ∈ ids := by
  intro x hx
  rcases List.mem_append.mp hx with hx | hx
  · exact h x hx
  · rw [List.mem_singleton.mp hx]
    exact hentry

/-- The dynamic block of a live context is open, and its id is known. -/
theorem Invariant.opened_known {handle : Handle} {context : ConnectionContext}
    (h : Invariant trace s ledger opened) (hlookup : s.contexts.lookup handle = some context) :
    opened context.id = some context.dynamicBlockTask ∧
      context.id ∈ Machine.history Effect.ids trace := by
  have hopened := h.contexts.block handle context hlookup
  refine ⟨hopened, h.knownOpened _ ?_⟩
  rw [hopened]
  exact Option.some_ne_none _

/-- The id of the next connection is new. -/
theorem Invariant.fresh (h : Invariant trace s ledger opened) :
    toText s.nextId ∉ Machine.history Effect.ids trace := by
  rw [h.ids]
  intro hmem
  obtain ⟨n, hn, hid⟩ := List.mem_map.mp hmem
  have hsame : n = s.nextId := toText_injective hid
  rw [hsame] at hn
  simp at hn

/-- A step that only changes which `receive` is in progress. -/
theorem Invariant.same (h : Invariant trace s ledger opened) (hs : s'.Consistent)
    (hcontexts : s'.contexts = s.contexts) (hmanager : s'.sharedTaskManager = s.sharedTaskManager)
    (hnext : s'.nextId = s.nextId) (hlines : effect.lines = []) (houtputs : effect.outputs = [])
    (hdiscards : effect.discards = []) (hids : effect.ids = [])
    (hreceived : s.inProgress ++ sentLines [(e, effect)] = s'.inProgress) :
    Invariant (trace ++ [(e, effect)]) s' ledger opened := by
  have hpending : s'.pending = s.pending := by rw [Library.pending, hmanager, Library.pending]
  have hbounded : s'.Bounded (trace ++ [(e, effect)]) := by
    intro m hm
    rw [hmanager] at hm
    obtain ⟨hlt, address, hmem⟩ := h.bounded m hm
    exact ⟨hlt, address, by simp [hmem]⟩
  refine ⟨⟨?_, ?_, ?_, ?_, ?_, ?_, hbounded⟩, hs, ?_, ?_, ?_, ?_⟩ <;>
    simp only [Machine.history_append, Machine.history_singleton, hlines, houtputs, hdiscards,
      hids, List.append_nil, hcontexts, hnext, hpending]
  · rw [sentLines_concat, h.received, List.append_assoc, hreceived]
  · exact h.items
  · exact h.contexts
  · exact h.books
  · exact h.ordered
  · exact h.level
  · exact h.ids
  · exact h.knownLines
  · exact h.knownOpened
  · exact h.knownDiscards

/-- A connection comes.  Its id is the next one, and all ids in the books have been given out
before, so the books say nothing about it. -/
theorem Invariant.connects {bulk : ℕ} {address : Handle} (h : Invariant trace s ledger opened)
    (hs : s'.Consistent) (hidle : s.receiving = none)
    (hfresh : s.contexts.lookup address = none)
    (hs' : s' = { s with
      sharedTaskManager := some (s.sharedTaskManager.getD (.create bulk))
      threadsInitialized := true
      nextId := s.nextId + 1
      contexts := s.contexts.insert address (.create (toText s.nextId)) }) :
    Invariant (trace ++ [(.connect bulk address, .connected (toText s.nextId))]) s' ledger
      (Function.update opened (toText s.nextId) (some [])) := by
  have hpending : s'.pending = s.pending := by
    rw [hs']
    unfold Library.pending
    cases s.sharedTaskManager <;> rfl
  have hprogress : s'.inProgress = s.inProgress := by
    rw [hs']
    simp only [Library.inProgress, hidle]
  have hfree : opened (toText s.nextId) = none := by
    by_contra hopen
    exact h.fresh (h.knownOpened _ hopen)
  have hcontexts : Opened s'.contexts (Function.update opened (toText s.nextId) (some [])) := by
    rw [hs']
    refine h.contexts.insert (fun other context' _ hlookup hid => ?_) fun context' hlookup => ?_
    · have hblock := h.contexts.block other context' hlookup
      rw [hid] at hblock
      exact Option.some_ne_none _ (hblock.symm.trans hfree)
    · rw [hfresh] at hlookup
      cases hlookup
  have hbounded :
      s'.Bounded (trace ++ [(.connect bulk address, .connected (toText s.nextId))]) := by
    intro m hm
    rw [hs'] at hm
    cases hmanager : s.sharedTaskManager with
    | none =>
        rw [hmanager] at hm
        cases hm
        exact ⟨by simp [TaskManager.create], address, by simp [TaskManager.create]⟩
    | some m' =>
        rw [hmanager] at hm
        cases hm
        obtain ⟨hlt, other, hmem⟩ := h.bounded m' hmanager
        exact ⟨hlt, other, by simp [hmem]⟩
  refine ⟨⟨?_, ?_, hcontexts, ?_, ?_, ?_, hbounded⟩, hs, ?_, ?_, ?_, ?_⟩ <;>
    simp only [Machine.history_append, Machine.history_singleton, Effect.lines, Effect.outputs,
      Effect.discards, Effect.ids, List.append_nil, hpending]
  · rw [sentLines_concat, h.received, hprogress]
    exact List.append_nil _
  · exact h.items
  · refine h.books.register hfree fun x hx hid => ?_
    exact h.fresh (hid ▸ h.knownDiscards x hx)
  · exact h.ordered
  · intro handle context hlookup
    rw [hs'] at hlookup
    rcases lookup_insert_cases hlookup with ⟨-, rfl⟩ | ⟨-, hlookup⟩
    · refine ⟨(balance_eq_zero fun x hx hid => h.fresh ?_).symm, fun _ => rfl⟩
      have hid : x.1 = toText s.nextId := hid
      rw [← hid]
      exact h.knownLines x hx
    · exact h.level handle context hlookup
  · rw [h.ids, hs', List.range_succ, List.map_append]
    rfl
  · exact fun x hx => List.mem_append_left _ (h.knownLines x hx)
  · exact known_update (fun id hid => List.mem_append_left _ (h.knownOpened id hid)) (by simp)
  · exact fun x hx => List.mem_append_left _ (h.knownDiscards x hx)

/-- A line is processed: the books follow the command, and the line goes from those in progress
to those received. -/
theorem Invariant.processes {now : ℤ} {handle : Handle} {command : Line} {lines : List Line}
    {m : TaskManager} {context : ConnectionContext} {r : Processed}
    (h : Invariant trace s ledger opened) (hs : s'.Consistent)
    (hreceiving : s.receiving = some (handle, command :: lines))
    (hmanager : s.sharedTaskManager = some m)
    (hlookup : s.contexts.lookup handle = some context) (hmove : CommandMove m context command r)
    (hs' : s' = { s with
      sharedTaskManager := r.manager
      contexts := s.contexts.insert handle r.context
      receiving := some (handle, lines) }) :
    ∃ ledger' : Ledger Arrival Place,
      Invariant (trace ++ [(.line now, .processed context.id command r.output)]) s' ledger'
        (Function.update opened context.id (some r.context.dynamicBlockTask)) := by
  obtain ⟨m', hm'⟩ := hmove.manager
  obtain ⟨hlevel, hempty⟩ := h.level handle context hlookup
  have hpending : s.pending = m.staticBlockTask := by
    rw [Library.pending, hmanager]
    rfl
  have hpending' : s'.pending = m'.staticBlockTask := by
    rw [hs', Library.pending, hm']
    rfl
  have hbooks := h.books
  rw [hpending] at hbooks
  obtain ⟨hopened, hknown⟩ := h.opened_known hlookup
  obtain ⟨ledger', hitems, hbooks'⟩ := hmove.books hm' hbooks hopened hlevel
  have hcontexts : Opened s'.contexts
      (Function.update opened context.id (some r.context.dynamicBlockTask)) := by
    rw [hs', ← hmove.id_eq]
    refine h.contexts.insert (fun other context' hother hlookup' hid => hother ?_)
      fun context' hlookup' => ?_
    · rw [hmove.id_eq] at hid
      exact h.contexts.distinct other handle context' context hlookup' hlookup hid
    · rw [hlookup] at hlookup'
      cases hlookup'
      exact hmove.id_eq.symm
  have hbounded :
      s'.Bounded (trace ++ [(.line now, .processed context.id command r.output)]) := by
    intro m'' hm''
    rw [hs'] at hm''
    obtain ⟨hlt, address, hmem⟩ := h.bounded m hmanager
    exact ⟨hmove.bounded hm'' hlt, address, by simp [hmove.max_eq hm'', hmem]⟩
  refine ⟨ledger', ⟨?_, ?_, hcontexts, ?_, ?_, ?_, hbounded⟩, hs, ?_, ?_, ?_, ?_⟩ <;>
    simp only [Machine.history_append, Machine.history_singleton, Effect.lines, Effect.outputs,
      Effect.discards, Effect.ids, List.append_nil]
  · have hbefore : s.inProgress =
        (context.id, command) :: lines.map fun line => (context.id, line) := by
      simp [Library.inProgress, hreceiving, hlookup]
    have hafter : s'.inProgress = lines.map fun line => (context.id, line) := by
      simp [Library.inProgress, hs', hmove.id_eq]
    rw [sentLines_concat, h.received, hbefore, hafter, List.append_assoc]
    simp [sentLines]
  · rw [hitems, h.items, arrivals_concat]
  · rw [hpending']
    exact hbooks'
  · have hordered := h.ordered
    rw [hpending] at hordered
    rw [staticCommands_append, List.append_assoc, hpending', hmove.ordered hm' hlevel,
      ← List.append_assoc, hordered, staticArrivals, staticArrivals, arrivals_concat,
      List.filter_append, List.map_append]
  · intro other context' hlookup'
    rw [hs'] at hlookup'
    rw [balance_concat]
    rcases lookup_insert_cases hlookup' with ⟨-, rfl⟩ | ⟨hother, hlookup'⟩
    · rw [hmove.id_eq, if_pos rfl, ← hlevel]
      exact ⟨hmove.level, hmove.empty hempty⟩
    · have hne : context.id ≠ context'.id := fun hid =>
        hother (h.contexts.distinct other handle context' context hlookup' hlookup hid.symm)
      -- the lines of one connection say nothing about the level of another
      rw [if_neg hne, add_zero]
      exact h.level other context' hlookup'
  · rw [h.ids, hs']
  · exact known_concat h.knownLines hknown
  · exact known_update h.knownOpened hknown
  · exact h.knownDiscards

/-- A connection goes.  Either the manager stays, or its static block is put out and
it goes too. -/
theorem Invariant.disconnects {handle : Handle} {context : ConnectionContext}
    {output : Option (Block × OutputTask)} (h : Invariant trace s ledger opened)
    (hs : s'.Consistent) (hidle : s.receiving = none) (hidle' : s'.receiving = none)
    (hlookup : s.contexts.lookup handle = some context)
    (herase : s'.contexts = s.contexts.erase handle) (hnext : s'.nextId = s.nextId)
    (hflush : (output = none ∧ s'.sharedTaskManager = s.sharedTaskManager) ∨
      (PutsOut .static staticContextId s.pending output ∧ s'.sharedTaskManager = none)) :
    ∃ ledger' : Ledger Arrival Place,
      Invariant (trace ++ [(.disconnect handle,
          .disconnected (some (context.id, context.dynamicBlockTask)) output)]) s' ledger'
        (Function.update opened context.id none) := by
  obtain ⟨hopened, hknown⟩ := h.opened_known hlookup
  have hcontexts : Opened s'.contexts (Function.update opened context.id none) := by
    rw [herase]
    exact h.contexts.erase hlookup
  have hdiscard := h.books.discard hopened
  have hbounded : s'.Bounded (trace ++ [(.disconnect handle,
      .disconnected (some (context.id, context.dynamicBlockTask)) output)]) := by
    intro m hm
    rcases hflush with ⟨-, hmanager⟩ | ⟨-, hmanager⟩
    · rw [hmanager] at hm
      obtain ⟨hlt, address, hmem⟩ := h.bounded m hm
      exact ⟨hlt, address, by simp [hmem]⟩
    · rw [hmanager] at hm
      cases hm
  have hpending : staticCommands output.toList ++ s'.pending = s.pending := by
    rcases hflush with ⟨rfl, hmanager⟩ | ⟨hout, hmanager⟩
    · rw [Library.pending, hmanager, Library.pending]
      rfl
    · have hnil : s'.pending = [] := by rw [Library.pending, hmanager]; rfl
      rw [hout.staticCommands, hnil, List.append_nil]
  obtain ⟨ledger', hitems, hbooks⟩ : ∃ ledger' : Ledger Arrival Place,
      ledger'.items = ledger.items ∧
        Books (Machine.history Effect.outputs trace ++ output.toList)
          (Machine.history Effect.discards trace ++ [(context.id, context.dynamicBlockTask)])
          s'.pending (Function.update opened context.id none) ledger' := by
    rcases hflush with ⟨rfl, hmanager⟩ | ⟨hout, hmanager⟩
    · have hsame : s'.pending = s.pending := by rw [Library.pending, hmanager, Library.pending]
      refine ⟨ledger.move (.collected context.id) (.discarded context.id),
        Ledger.items_move .., ?_⟩
      rw [Option.toList_none, List.append_nil, hsame]
      exact hdiscard
    · obtain ⟨ledger', hitems, hbooks⟩ := hdiscard.flush hout
      refine ⟨ledger', by rw [hitems, Ledger.items_move], ?_⟩
      rw [Library.pending, hmanager]
      exact hbooks
  refine ⟨ledger', ⟨?_, ?_, hcontexts, ?_, ?_, ?_, hbounded⟩, hs, ?_, ?_, ?_, ?_⟩ <;>
    simp only [Machine.history_append, Machine.history_singleton, Effect.lines, Effect.outputs,
      Effect.discards, Effect.ids, List.append_nil, Option.toList_some]
  · have hprogress : s'.inProgress = s.inProgress := by
      simp only [Library.inProgress, hidle, hidle']
    rw [sentLines_concat, h.received, hprogress]
    exact List.append_nil _
  · rw [hitems, h.items]
  · exact hbooks
  · rw [staticCommands_append, List.append_assoc, hpending]
    exact h.ordered
  · intro other context' hlookup'
    rw [herase] at hlookup'
    exact h.level other context' (lookup_erase_cases hlookup').2
  · rw [h.ids, hnext]
  · exact h.knownLines
  · exact known_update h.knownOpened hknown
  · exact known_concat h.knownDiscards hknown

/-- **The step lemma.**  Most steps change only which `receive` is in progress; a connection
that comes or goes and a line that is processed are the three that the books have to follow. -/
theorem move_invariant (h : Move s e effect s') (hinv : Invariant trace s ledger opened) :
    ∃ (ledger' : Ledger Arrival Place) (opened' : Line → Option (List Line)),
      Invariant (trace ++ [(e, effect)]) s' ledger' opened' := by
  have hs := move_consistent h hinv.consistent
  cases h with
  | connects hidle _ hfresh => exact ⟨_, _, hinv.connects hs hidle hfresh rfl⟩
  | ignores _ _ | ignoresNull _ =>
      refine ⟨_, _, hinv.same hs rfl rfl rfl rfl rfl rfl rfl ?_⟩
      exact List.append_nil _
  | accepts hidle hlookup =>
      refine ⟨_, _, hinv.same hs rfl rfl rfl rfl rfl rfl rfl ?_⟩
      simp [Library.inProgress, hidle, hlookup, sentLines]
  | returns hreceiving =>
      refine ⟨_, _, hinv.same hs rfl rfl rfl rfl rfl rfl rfl ?_⟩
      obtain ⟨context, hlookup⟩ := hinv.consistent.receiving _ _ hreceiving
      simp [Library.inProgress, hreceiving, hlookup, sentLines]
  | processes hreceiving hmanager hlookup hmove =>
      obtain ⟨ledger', hinv'⟩ := hinv.processes hs hreceiving hmanager hlookup hmove rfl
      exact ⟨ledger', _, hinv'⟩
  | misses _ _ =>
      refine ⟨_, _, hinv.same hs rfl rfl rfl rfl rfl rfl rfl ?_⟩
      exact List.append_nil _
  | leaves hidle hlookup _ =>
      obtain ⟨ledger', hinv'⟩ :=
        hinv.disconnects hs hidle hidle hlookup rfl rfl (Or.inl ⟨rfl, rfl⟩)
      exact ⟨ledger', _, hinv'⟩
  | @stops handle m context output hidle hlookup _ hmanager hout =>
      have hpending : s.pending = m.staticBlockTask := by
        rw [Library.pending, hmanager]
        rfl
      obtain ⟨ledger', hinv'⟩ := hinv.disconnects hs hidle hidle hlookup rfl rfl
        (Or.inr ⟨hpending ▸ hout, rfl⟩)
      exact ⟨ledger', _, hinv'⟩

end Steps

/-! ### Every run

What the accounts say about single blocks, that a dynamic block was closed by its own
connection and that the last disconnect leaves no static command, is proved from the
steps directly. -/

/-- The books of a new library are empty, and so are its contexts. -/
theorem invariant_initial :
    Invariant [] initial Ledger.empty fun _ => none where
  received := rfl
  items := rfl
  contexts :=
    { block := fun _ _ hlookup => by cases hlookup
      live := fun _ hid => absurd rfl hid
      distinct := fun _ _ _ _ hlookup => by cases hlookup }
  books :=
    { atPushed := fun _ => rfl
      atPending := rfl
      atCollected := fun _ => rfl
      atDiscarded := fun _ hx => by cases hx
      admits := fun _ hx => by cases hx
      gone := fun _ hx => by cases hx }
  ordered := rfl
  level _ _ hlookup := by cases hlookup
  bounded _ hm := by cases hm
  consistent := consistent_initial
  ids := rfl
  knownLines _ hx := by cases hx
  knownOpened _ hid := absurd rfl hid
  knownDiscards _ hx := by cases hx

/-- In every state that is reached there are books in which everything is accounted for, by
induction on the run. -/
theorem execution_invariant {trace : List (Event × Effect)} {s : Library}
    (h : machine.Execution trace s) :
    ∃ (ledger : Ledger Arrival Place) (opened : Line → Option (List Line)),
      Invariant trace s ledger opened := by
  refine h.induct (I := fun trace s => ∃ ledger opened, Invariant trace s ledger opened) ?_ ?_
  · rintro s rfl
    exact ⟨_, _, invariant_initial⟩
  · rintro trace s e effect s' - ⟨ledger, opened, hinv⟩ hs
    exact move_invariant (step_move hinv.consistent hs) hinv

/-- One step puts out a dynamic block for a closing brace of its connection, or none. -/
theorem Move.dynamic {s s' : Library} {e : Event} {effect : Effect} (h : Move s e effect s')
    {task : OutputTask} (htask : (Block.dynamic, task) ∈ effect.outputs) :
    effect = .processed task.contextId ['}'] (some (.dynamic, task)) := by
  cases h with
  | @processes now handle command lines m context r _ _ _ hmove =>
      have houtput : r.output = some (.dynamic, task) := Option.mem_toList.mp htask
      obtain ⟨rfl, hid⟩ := hmove.dynamic houtput
      rw [houtput, hid]
  | stops _ _ _ _ hout =>
      cases hout with
      | nothing _ => cases htask
      | block timestamp _ =>
          have hkind := congrArg Prod.fst (List.mem_singleton.mp htask)
          cases hkind
  | connects _ _ _ | ignores _ _ | ignoresNull _ | accepts _ _ | returns _ | misses _ _
  | leaves _ _ _ => cases htask

/-- **Dynamic blocks** are those of the senders of their closing braces. -/
theorem execution_closedBySender {trace : List (Event × Effect)} {s : Library}
    (h : machine.Execution trace s) : ClosedBySender trace := by
  refine h.induct (I := fun trace _ => ClosedBySender trace) ?_ ?_
  · rintro s - x hx
    cases hx
  · intro trace s e effect s' hexec ih hs x hx task htask
    rcases List.mem_append.mp hx with hx | hx
    · exact ih x hx task htask
    · obtain rfl := List.mem_singleton.mp hx
      obtain ⟨ledger, opened, hinv⟩ := execution_invariant hexec
      exact (step_move hinv.consistent hs).dynamic htask

/-- Once the last connection is gone nothing is left that was received outside braces. -/
theorem execution_flushed {trace : List (Event × Effect)} {s : Library}
    (h : machine.Execution trace s) (hempty : s.contexts.entries = []) :
    s.sharedTaskManager = none ∧
      staticCommands (Machine.history Effect.outputs trace) =
        staticArrivals (Machine.history Effect.lines trace) := by
  obtain ⟨ledger, opened, hinv⟩ := execution_invariant h
  have hnone := hinv.consistent.shared.mpr hempty
  have hordered := hinv.ordered
  rw [Library.pending, hnone] at hordered
  exact ⟨hnone, by simpa using hordered⟩

/-- **No command is lost, doubled, reordered or put into a foreign block.**  In every
reachable state the commands received are in the places that the ledger says, the
connections have ids of their own, a dynamic block carries the id of the connection
that sent its closing brace, and once the last connection is gone every command
received outside braces has been put out.

The ids are counted without a bound here, where the source has a `std::atomic<int>`,
so the ids are those of the source as long as `connect` is called at most `2 ^ 31` times. -/
theorem accounted {trace : List (Event × Effect)} {s : Library}
    (h : machine.Execution trace s) :
    (∃ ledger opened, Accounted trace s ledger opened) ∧
      (Machine.history Effect.ids trace).Nodup ∧
      ClosedBySender trace ∧
      (s.contexts.entries = [] → s.sharedTaskManager = none ∧
        staticCommands (Machine.history Effect.outputs trace) =
          staticArrivals (Machine.history Effect.lines trace)) := by
  obtain ⟨ledger, opened, hinv⟩ := execution_invariant h
  refine ⟨⟨ledger, opened, hinv.toAccounted⟩, ?_, execution_closedBySender h,
    execution_flushed h⟩
  rw [hinv.ids]
  exact List.nodup_range.map fun n n' hsame => toText_injective hsame

/-- Two connections: the first one has a block in braces, the second one sends a stray
brace, and leaves with a block in progress. -/
def twoConnections : List (Event × Effect) × Library :=
  machine.play initial
    (List.flatten
      [[.connect 2 1, .connect 5 2, .receive 1 ['a', '\n', '{', '\n', 'b', '\n']],
        List.replicate 4 (.line 0),
        [.receive 2 ['}', '\n', 'x', '\n', '{', '\n', 'y', '\n']], List.replicate 5 (.line 0),
        [.receive 1 ['}', '\n', 'q', '\n']], List.replicate 3 (.line 0),
        [.receive 2 ['{', '\n', 'w', '\n']], List.replicate 3 (.line 0),
        [.receive 1 ['z', '\n']], List.replicate 2 (.line 0),
        [.disconnect 2, .disconnect 1]]) (by decide +kernel)

/-- Two connections with static and dynamic commands, one of which leaves with a block open. -/
theorem accounted_twoConnections :
    (∃ ledger opened, Accounted twoConnections.1 twoConnections.2 ledger opened) ∧
      staticCommands (Machine.history Effect.outputs twoConnections.1) =
        [['a'], ['x'], ['y'], ['q'], ['z']] ∧
      Machine.history Effect.discards twoConnections.1 = [(['1'], [['w']]), (['0'], [])] := by
  have hexec : machine.Execution twoConnections.1 twoConnections.2 := Machine.execution_play rfl _
  obtain ⟨hledger, -, -, hflushed⟩ := accounted hexec
  refine ⟨hledger, ?_, by decide +kernel⟩
  rw [(hflushed (by decide +kernel)).2]
  decide +kernel

end BulkServer
