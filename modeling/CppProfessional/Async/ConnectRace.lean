import CppProfessional.Async.Steps

/-!
# Connecting while the last context goes away

`disconnect` tests `contexts().empty()` after it has released `contexts_mutex()`,
and stops the workers some steps later.  A `connect` of another thread in between
finds `threads_initialized` still set, starts nothing and inserts its context; the
stop then takes the workers away under it.

* `stopped_under_context` — the run, with two threads;
* `served_of_stopsAlone` — in every run in which an effective stop happens only
  while there is no context and no `connect` under way, the workers are never
  stopped under a context.
-/

namespace Async

open Transition

universe u

/-- Between the `exchange` of `init_threads` and the insertion. -/
def Pc.connecting : Pc → Bool
  | .starting _ | .inserting _ _ => true
  | .idle | .receiving _ _ | .erasing _ | .testing | .stopping | .joining => false

/-- In a call of `disconnect`. -/
def Pc.disconnecting : Pc → Bool
  | .erasing _ | .testing | .stopping | .joining => true
  | .idle | .receiving _ _ | .starting _ | .inserting _ _ => false

section Statement

variable {ι : Type u}

/-- A context is registered, the workers run, and nobody is in a call. -/
def Registered (s : Library ι) : Prop :=
  s.contexts.entries ≠ [] ∧ s.shared.threadsInitialized = true ∧
    (∀ w, ∃ c, s.shared.threads w = some c ∧ c ≠ .exited) ∧ ∀ u, s.callers u = .idle

/-- With no `connect` and no `disconnect` under way, a context has its workers. -/
def Library.Served (s : Library ι) : Prop :=
  (∀ u, (s.callers u).pc.connecting = false ∧ (s.callers u).pc.disconnecting = false) →
    s.contexts.entries ≠ [] → s.shared.threadsInitialized = true

/-- The stop takes effect only while there is no context, and no `connect` that has
already asked for the workers. -/
def Library.StopsAlone (s : Library ι) : Event ι → Prop
  | .advance t _ _ =>
      s.callers t = ⟨.stopping, []⟩ → s.shared.threadsInitialized = true →
        s.contexts.entries = [] ∧ ∀ u, (s.callers u).pc.connecting = false
  | .call _ _ | .worker _ _ | .spurious _ => True

instance Library.instDecidableStopsAlone [Fintype ι] (s : Library ι) (e : Event ι) :
    Decidable (s.StopsAlone e) :=
  match e with
  | .advance t _ _ =>
      inferInstanceAs (Decidable (s.callers t = ⟨.stopping, []⟩ →
        s.shared.threadsInitialized = true →
          s.contexts.entries = [] ∧ ∀ u, (s.callers u).pc.connecting = false))
  | .call _ _ | .worker _ _ | .spurious _ => isTrue trivial

end Statement

/-! ### The race -/

/-- One context, at address 1, and two threads. -/
def oneContext : Library Bool where
  shared :=
    { shouldTerminate := false, threadsInitialized := true, logQueue := [], fileQueue := [],
      threads := fun _ => some .ready, fileCounter := 0 }
  contexts := AList.singleton 1 (TaskManager.create 1 ['0'])
  nextId := 1
  callers := fun _ => .idle

/-- One registered context, workers that are ready, and nobody in a call. -/
theorem registered_oneContext : Registered oneContext := by
  refine ⟨?_, rfl, fun w => ⟨.ready, rfl, ?_⟩, fun _ => rfl⟩
  · exact List.cons_ne_nil _ _
  · simp

/-- Thread `false` disconnects the only context and finds the map empty; thread `true`
connects; then the first one stops the workers. -/
def connectRace : List (Event Bool × Effect) × Library Bool :=
  (machine Bool Registered).play oneContext
    [.call false (.disconnect 1), .advance false 0 0, .advance false 0 0,
      .call true (.connect 1), .advance true 0 0, .advance true 0 2,
      .advance false 0 0, .advance false 0 0, .advance false 0 0,
      .worker .log true, .worker .file1 true, .worker .file2 true,
      .advance false 0 0, .advance false 0 0, .advance false 0 0, .advance false 0 0] (by decide)

/-- **The workers are stopped under a new context.** -/
theorem stopped_under_context :
    ∃ s, (machine Bool Registered).Reachable s ∧ ¬ s.Served := by
  refine ⟨connectRace.2, (Machine.execution_play registered_oneContext _).reachable, ?_⟩
  intro hserved
  have hinitialized : connectRace.2.shared.threadsInitialized = true :=
    hserved (by decide) (by decide)
  exact absurd hinitialized (by decide)

/-! ### When the workers stay

A stop can only take workers away from somebody who needs them: a context in the map, or
a `connect` that has seen them running and has not inserted its context yet.  `Deserted`
says that neither is there while the workers are gone. -/

variable {ι : Type u} [DecidableEq ι] {s s' : Library ι} {e : Event ι} {effect : Effect}

/-- While the workers are not there, there is no context, and no `connect` that
relies on them. -/
def Library.Deserted (s : Library ι) : Prop :=
  s.shared.threadsInitialized = false →
    s.contexts.entries = [] ∧ ∀ u, (s.callers u).pc.connecting = false

/-- A thread that leaves a position that is not in `connect` for another one. -/
theorem connecting_goTo {t : ι} {pc : Pc} {program : List Instr}
    (h : ∀ u, (s.callers u).pc.connecting = false) (hpc : pc.connecting = false) (u : ι) :
    ((s.goTo t pc program).callers u).pc.connecting = false :=
  (Function.forall_update_iff s.callers fun _ caller => caller.pc.connecting = false).mpr
    ⟨hpc, fun u _ => h u⟩ u

/-- One step keeps the invariant.  A stop is the only step that takes the workers away, and the
condition says that there is nothing then that needs them; a `connect` that is under way
counts, since its `init_threads` lies behind it already. -/
theorem move_deserted (h : Move s e effect s') (hcond : s.StopsAlone e)
    (hinv : s.Deserted) : s'.Deserted := by
  intro hinit
  cases h with
  | connects _ => cases hinit
  | ignores _ _ => exact hinv hinit
  | ignoresNull _ => exact hinv hinit
  | receives _ _ _ _ =>
      exact ⟨(hinv hinit).1, connecting_goTo (hinv hinit).2 rfl⟩
  | misses _ _ => exact ⟨(hinv hinit).1, connecting_goTo (hinv hinit).2 rfl⟩
  | finishes _ _ _ hlookup =>
      -- a context to finish, but the workers are gone: the invariant excludes it
      exact absurd (hinv hinit).1 (entries_ne_nil_of_lookup hlookup)
  | @executes t now address pc instr rest output shared ht hmove =>
      have hbefore := hinv ((instrMove_threadsInitialized hmove).symm.trans hinit)
      have hpc := hbefore.2 t
      rw [ht] at hpc
      exact ⟨hbefore.1, connecting_goTo hbefore.2 hpc⟩
  | @numbers t now address bulk ht =>
      have hpc := (hinv hinit).2 t
      rw [ht] at hpc
      cases hpc
  | @inserts t now address bulk id ht _ _ _ =>
      have hpc := (hinv hinit).2 t
      rw [ht] at hpc
      cases hpc
  | received _ => exact ⟨(hinv hinit).1, connecting_goTo (hinv hinit).2 rfl⟩
  | skips _ => exact ⟨(hinv hinit).1, connecting_goTo (hinv hinit).2 rfl⟩
  | adds _ _ hlookup => exact absurd (hinv hinit).1 (entries_ne_nil_of_lookup hlookup)
  | @erases t now address handle _ =>
      have hempty : s.contexts = ∅ := AList.ext (hinv hinit).1
      refine ⟨?_, connecting_goTo (hinv hinit).2 rfl⟩
      simp [Library.goTo, hempty]
      rfl
  | findsEmpty _ _ => exact ⟨(hinv hinit).1, connecting_goTo (hinv hinit).2 rfl⟩
  | findsContexts _ _ => exact ⟨(hinv hinit).1, connecting_goTo (hinv hinit).2 rfl⟩
  | stops ht =>
      -- the condition is only about a stop that finds `threads_initialized` set
      cases hbefore : s.shared.threadsInitialized with
      | true =>
          obtain ⟨hempty, hnone⟩ := hcond ht hbefore
          exact ⟨hempty, connecting_goTo hnone rfl⟩
      | false => exact ⟨(hinv hbefore).1, connecting_goTo (hinv hbefore).2 rfl⟩
  | joined _ => exact ⟨(hinv hinit).1, connecting_goTo (hinv hinit).2 rfl⟩
  | works _ hmove =>
      exact hinv ((workerMove_threadsInitialized hmove).symm.trans hinit)

/-- **When the workers stay.**  If every stop that takes effect happens while there
is no context and no `connect` between its `init_threads` and its insertion, a
registered context never loses its workers. -/
theorem served_of_stopsAlone [Fintype ι]
    (h : ((machine ι Registered).restrict Library.StopsAlone).Reachable s) : s.Served := by
  have hinv : s.Deserted := by
    refine h.invariant (I := Library.Deserted) ?_ ?_
    · intro s hinit hfalse
      rw [hinit.2.1] at hfalse
      cases hfalse
    · intro s e effect s' _ hinv hs
      obtain ⟨hcond, hs⟩ := Machine.restrict_step_eq_some.mp hs
      exact move_deserted (step_move hs) hcond hinv
  intro _ hcontexts
  by_contra hfalse
  exact hcontexts (hinv (by simpa using hfalse)).1

/-- The same calls, with the new context inserted before the map is tested. -/
def connectInTime : List (Event Bool × Effect) × Library Bool :=
  ((machine Bool Registered).restrict Library.StopsAlone).play oneContext
    [.call false (.disconnect 1), .advance false 0 0, .call true (.connect 1), .advance true 0 0,
      .advance true 0 2, .advance false 0 0] (by decide)

/-- A client that connects before `stop_threads` runs keeps its workers, as the run meets the
condition. -/
theorem served_of_stopsAlone_connectInTime :
    connectInTime.2.contexts.keys = [2] ∧ connectInTime.2.shared.threadsInitialized = true :=
  have hserved : connectInTime.2.Served :=
    served_of_stopsAlone (Machine.execution_play registered_oneContext _).reachable
  ⟨by decide, hserved (by decide) (by decide)⟩

end Async
