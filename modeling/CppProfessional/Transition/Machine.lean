import Mathlib.Data.List.Basic
import Mathlib.Logic.Function.Basic

/-!
# Labelled machines, runs and invariants

A concurrent program is presented here as a **machine**: a set of initial states
and a computable step function `step s e`, where the event `e` fixes every
nondeterministic choice the environment makes (which thread moves, which waiter
a notification reaches, what the clock reads).  `step s e = none` says that `e`
is not enabled in `s`.  A step also returns an observation, so that histories
are read off the trace of a run and a state holds nothing but what the program
stores.

* `Machine.Run` — runs as an inductive relation, extended at the end, which is
  the shape every invariant proof follows;
* `Machine.Execution.induct` / `Machine.Reachable.invariant` — the invariant
  rules: a property of trace and state (of the state) that holds initially and
  is kept by one step holds of every execution;
* `history` and `Run.fifo`, `Run.conserves` — what entered and left a container
  along a run, as a list in order and as a multiset: a conservation law proved of
  one step holds of whole runs;
* `Execution.project` — the runs of a component of a system;
* `Machine.exec` — the executable counterpart, with `Machine.run_of_exec` to
  turn an evaluated schedule into a run;
* `Machine.IsBisim` — two machines that take the same steps with the same observations, and
  `IsBisim.run` and `IsBisim.exec`, which say so of runs and of schedules;
* `Machine.restrict` — the machine whose steps all meet a condition on the state
  before the step and the event;
* `Machine.Along` — what holds of every step of a schedule, and `Machine.along_congr`,
  which compares two such properties one step at a time.

## Design notes

The observation belongs to the step and not to the state.  A state that recorded its own
history would have to be kept consistent with it by every invariant; here the history is a
function of the trace, and a property of both is proved by `Execution.induct`, whose step case
is the single step that the program takes.

Since an event fixes every choice, a machine is deterministic once its events are given.  That
is what lets a schedule be evaluated, and it is the reading of "for every interleaving": for
every list of events.
-/

namespace Transition

universe u v w

variable {σ : Type u} {ε : Type v} {ω : Type w}

/-- Initial states and a step function; the event resolves every choice. -/
structure Machine (σ : Type u) (ε : Type v) (ω : Type w) where
  init : σ → Prop
  step : σ → ε → Option (ω × σ)

namespace Machine

variable (M : Machine σ ε ω)

/-- A run from `s₀`, with its trace of events and observations. -/
inductive Run (s₀ : σ) : List (ε × ω) → σ → Prop
  | refl : Run s₀ [] s₀
  | snoc {trace : List (ε × ω)} {s s' : σ} {e : ε} {o : ω} :
      Run s₀ trace s → M.step s e = some (o, s') → Run s₀ (trace ++ [(e, o)]) s'

/-- A run that starts in an initial state. -/
def Execution (trace : List (ε × ω)) (s : σ) : Prop :=
  ∃ s₀, M.init s₀ ∧ M.Run s₀ trace s

/-- Some execution ends in `s`. -/
def Reachable (s : σ) : Prop := ∃ trace, M.Execution trace s

variable {M}

theorem Execution.reachable {trace : List (ε × ω)} {s : σ}
    (h : M.Execution trace s) : M.Reachable s := ⟨trace, h⟩

theorem Reachable.of_init {s : σ} (h : M.init s) : M.Reachable s :=
  ⟨[], s, h, Run.refl⟩

/-- An execution goes on by one step. -/
theorem Execution.snoc {trace : List (ε × ω)} {s s' : σ} {e : ε} {o : ω}
    (h : M.Execution trace s) (hs : M.step s e = some (o, s')) :
    M.Execution (trace ++ [(e, o)]) s' := by
  obtain ⟨s₀, h0, hrun⟩ := h
  exact ⟨s₀, h0, hrun.snoc hs⟩

/-- What a reachable state steps to is reachable. -/
theorem Reachable.step {s s' : σ} {e : ε} {o : ω} (h : M.Reachable s)
    (hs : M.step s e = some (o, s')) : M.Reachable s' := by
  obtain ⟨trace, h⟩ := h
  exact (h.snoc hs).reachable

/-- A run with one step before it. -/
theorem Run.head {s₀ s₁ s : σ} {e : ε} {o : ω} {trace : List (ε × ω)}
    (hs : M.step s₀ e = some (o, s₁)) (h : M.Run s₁ trace s) :
    M.Run s₀ ((e, o) :: trace) s := by
  induction h with
  | refl => exact Run.refl.snoc hs
  | snoc _ hstep ih => exact ih.snoc hstep

/-- Two runs, the second from where the first one ends. -/
theorem Run.trans {s₀ s s' : σ} {trace trace' : List (ε × ω)} (h : M.Run s₀ trace s)
    (hrun : M.Run s trace' s') : M.Run s₀ (trace ++ trace') s' := by
  induction hrun with
  | refl => simpa using h
  | snoc _ hs ih =>
      rw [← List.append_assoc]
      exact ih.snoc hs

/-- A run continues an execution. -/
theorem Execution.append {trace trace' : List (ε × ω)} {s s' : σ}
    (h : M.Execution trace s) (hrun : M.Run s trace' s') :
    M.Execution (trace ++ trace') s' := by
  obtain ⟨s₀, hs₀, hbefore⟩ := h
  exact ⟨s₀, hs₀, hbefore.trans hrun⟩

/-- What a reachable state runs to is reachable. -/
theorem Reachable.run {s s' : σ} {trace : List (ε × ω)} (h : M.Reachable s)
    (hrun : M.Run s trace s') : M.Reachable s' := by
  obtain ⟨t, h⟩ := h
  exact (h.append hrun).reachable

/-! ### The invariant rules

Every invariant of a machine is proved by one of these rules: something holds at the
beginning, and a step keeps it. -/

/-- **Invariant rule for traces.**  The step case may use that the state before
the step ends an execution. -/
theorem Execution.induct {I : List (ε × ω) → σ → Prop}
    (hinit : ∀ s, M.init s → I [] s)
    (hstep : ∀ trace s e o s', M.Execution trace s → I trace s →
      M.step s e = some (o, s') → I (trace ++ [(e, o)]) s')
    {trace : List (ε × ω)} {s : σ} (h : M.Execution trace s) : I trace s := by
  obtain ⟨s₀, h0, hrun⟩ := h
  induction hrun with
  | refl => exact hinit _ h0
  | snoc hrun hs ih => exact hstep _ _ _ _ _ ⟨s₀, h0, hrun⟩ ih hs

/-- **Invariant rule for states.**  The step case may use that the state before the step is
reachable, so that invariants can be proved one after the other, the later ones with the help
of the earlier ones. -/
theorem Reachable.invariant {I : σ → Prop} (hinit : ∀ s, M.init s → I s)
    (hstep : ∀ s e o s', M.Reachable s → I s → M.step s e = some (o, s') → I s')
    {s : σ} (h : M.Reachable s) : I s := by
  obtain ⟨trace, h⟩ := h
  exact h.induct (I := fun _ s => I s) hinit
    fun _ _ _ _ _ hexec hI hs => hstep _ _ _ _ hexec.reachable hI hs

/-- **Stability.**  A property that every step keeps holds along a run, and so
does what it says about the observations. -/
theorem Run.stable {Q : σ → Prop} {R : ε × ω → Prop}
    (hstep : ∀ s e o s', Q s → M.step s e = some (o, s') → Q s' ∧ R (e, o))
    {s s' : σ} {trace : List (ε × ω)} (h : M.Run s trace s') (hs : Q s) :
    Q s' ∧ ∀ x ∈ trace, R x := by
  induction h with
  | refl => exact ⟨hs, by simp⟩
  | snoc _ hlast ih =>
      obtain ⟨hmid, hall⟩ := ih
      obtain ⟨hend, hobs⟩ := hstep _ _ _ _ hmid hlast
      refine ⟨hend, fun x hx => ?_⟩
      rcases List.mem_append.mp hx with hx | hx
      · exact hall x hx
      · rw [List.mem_singleton.mp hx]
        exact hobs

/-! ### Histories and conservation laws

What a run recorded is a list, read off its trace.  A law about one step, that something
before is something after, becomes a law about the histories of a run. -/

/-- What a run recorded, in order; `f` selects the part of an observation.  Within one step the
order is that of the list in the observation. -/
def history {α : Type*} (f : ω → List α) (trace : List (ε × ω)) : List α :=
  trace.flatMap fun x => f x.2

section History

variable {α : Type*} {f : ω → List α}

@[simp] theorem history_nil : history f ([] : List (ε × ω)) = [] := rfl

@[simp] theorem history_append (trace trace' : List (ε × ω)) :
    history f (trace ++ trace') = history f trace ++ history f trace' := by
  simp [history]

@[simp] theorem history_singleton (x : ε × ω) : history f [x] = f x.2 := by
  simp [history]

variable {entered left : ω → List α} (contents : σ → List α)

/-- **First in, first out.**  If every step along the run takes from the front and
adds at the end, the contents of the first state followed by all that entered is
all that left followed by the contents of the last state. -/
theorem Run.fifo {s s' : σ} {trace : List (ε × ω)} (h : M.Run s trace s')
    (hstep : ∀ trace s₁ e o s₂, M.Run s trace s₁ → M.step s₁ e = some (o, s₂) →
      contents s₁ ++ entered o = left o ++ contents s₂) :
    contents s ++ history entered trace = history left trace ++ contents s' := by
  induction h with
  | refl => simp
  | snoc hrun hs ih =>
      rw [history_append, history_append, history_singleton, history_singleton,
        ← List.append_assoc, ih, List.append_assoc, hstep _ _ _ _ _ hrun hs,
        List.append_assoc]

/-- **Conservation.**  The same law up to the order. -/
theorem Run.conserves {s s' : σ} {trace : List (ε × ω)} (h : M.Run s trace s')
    (hstep : ∀ trace s₁ e o s₂, M.Run s trace s₁ → M.step s₁ e = some (o, s₂) →
      (contents s₁ ++ entered o).Perm (left o ++ contents s₂)) :
    (contents s ++ history entered trace).Perm
      (history left trace ++ contents s') := by
  induction h with
  | refl => simp
  | snoc hrun hs ih =>
      rw [history_append, history_append, history_singleton, history_singleton,
        ← List.append_assoc, List.append_assoc (history left _)]
      refine (ih.append_right _).trans ?_
      rw [List.append_assoc]
      exact (hstep _ _ _ _ _ hrun hs).append_left _

end History

/-! ### Runs of a component

A part of a system makes some of its steps.  If each step of the system is one of the
part or leaves it alone, a run of the system is a run of the part as well. -/

/-- **Projection.**  If every step of a machine is a run of another one between the
projected states, every execution is an execution of the other one; `view` gives the part of
a trace that the other one sees. -/
theorem Execution.project {τ : Type*} {ε' : Type*} {ω' : Type*} {N : Machine τ ε' ω'}
    (component : σ → τ) (view : ε × ω → List (ε' × ω'))
    (hinit : ∀ s, M.init s → N.init (component s))
    (hstep : ∀ s e o s', M.Reachable s → N.Reachable (component s) →
      M.step s e = some (o, s') → N.Run (component s) (view (e, o)) (component s'))
    {trace : List (ε × ω)} {s : σ} (h : M.Execution trace s) :
    N.Execution (trace.flatMap view) (component s) := by
  refine h.induct (I := fun trace s => N.Execution (trace.flatMap view) (component s)) ?_ ?_
  · intro s hs
    exact ⟨_, hinit s hs, .refl⟩
  · intro trace s e o s' hwhole hexec hs
    rw [List.flatMap_append, List.flatMap_singleton]
    exact hexec.append (hstep s e o s' hwhole.reachable hexec.reachable hs)

theorem Run.single {s s' : σ} {e : ε} {o : ω} (h : M.step s e = some (o, s')) :
    M.Run s [(e, o)] s' :=
  Run.refl.snoc h

/-! ### Evaluating schedules

A schedule is a list of events.  Playing it is a computation, so that runs can be given
by their events and the rest is found by evaluation. -/

variable (M)

/-- Play a list of events. -/
def exec : σ → List ε → Option (List (ε × ω) × σ)
  | s, [] => some ([], s)
  | s, e :: events =>
      match M.step s e with
      | none => none
      | some (o, s') =>
          match exec s' events with
          | none => none
          | some (trace, s'') => some ((e, o) :: trace, s'')

variable {M}

/-- An evaluated schedule is a run.  Witnesses are built with it: a schedule is played by
evaluation, and what holds of all executions is then applied to the result. -/
theorem run_of_exec {events : List ε} {s s' : σ} {trace : List (ε × ω)}
    (h : M.exec s events = some (trace, s')) : M.Run s trace s' := by
  induction events generalizing s trace with
  | nil =>
      obtain ⟨rfl, rfl⟩ : [] = trace ∧ s = s' := by simpa [exec] using h
      exact Run.refl
  | cons e events ih =>
      rw [exec] at h
      split at h
      · cases h
      · next o s₁ hs =>
        split at h
        · cases h
        · next tail s₂ htail =>
          obtain ⟨rfl, rfl⟩ : (e, o) :: tail = trace ∧ s₂ = s' := by simpa using h
          exact Run.head hs (ih htail)

/-- The trace and the last state of a schedule that plays to its end. -/
def play (M : Machine σ ε ω) (s : σ) (events : List ε)
    (h : (M.exec s events).isSome = true) : List (ε × ω) × σ :=
  (M.exec s events).get h

theorem run_play {events : List ε} {s : σ} (h : (M.exec s events).isSome = true) :
    M.Run s (M.play s events h).1 (M.play s events h).2 :=
  run_of_exec (by rw [play, Prod.eta, Option.some_get])

/-- From an initial state they form an execution. -/
theorem execution_play {events : List ε} {s : σ} (h0 : M.init s)
    (h : (M.exec s events).isSome = true) :
    M.Execution (M.play s events h).1 (M.play s events h).2 :=
  ⟨s, h0, run_play h⟩

/-! ### Machines that cannot be told apart

A bisimulation relates states that take the same events and answer alike. -/

section Bisimulation

variable {τ : Type*} {N : Machine τ ε ω} {R : σ → τ → Prop}

variable (M N R) in
/-- In related states the same events are enabled, with the same observations, and lead to
related states. -/
def IsBisim : Prop :=
  ∀ s t e, R s t →
    Option.Rel (fun r r' => r.1 = r'.1 ∧ R r.2 r'.2) (M.step s e) (N.step t e)

/-- A step of one is a step of the other, with the same observation. -/
theorem IsBisim.step (h : IsBisim M N R) {s s' : σ} {t : τ} {e : ε} {o : ω}
    (hs : M.step s e = some (o, s')) (hR : R s t) : ∃ t', N.step t e = some (o, t') ∧ R s' t' := by
  have hstep := h s t e hR
  rw [hs] at hstep
  cases ht : N.step t e with
  | none =>
      rw [ht] at hstep
      cases hstep
  | some r =>
      rw [ht] at hstep
      obtain ⟨hout, hnext⟩ := Option.rel_some_some.mp hstep
      exact ⟨r.2, by rw [show r = (r.1, r.2) from rfl, ← hout], hnext⟩

/-- A run of one is a run of the other with the same trace, from related states to related
states. -/
theorem IsBisim.run (h : IsBisim M N R) {s s' : σ} {t : τ} {trace : List (ε × ω)}
    (hrun : M.Run s trace s') (hR : R s t) : ∃ t', N.Run t trace t' ∧ R s' t' := by
  induction hrun with
  | refl => exact ⟨t, .refl, hR⟩
  | snoc _ hs ih =>
      obtain ⟨t₁, hrun, hR₁⟩ := ih
      obtain ⟨t₂, hstep, hR₂⟩ := h.step hs hR₁
      exact ⟨t₂, hrun.snoc hstep, hR₂⟩

/-- **A schedule cannot tell them apart.**  It plays to the end in both or in neither, and with
the same trace. -/
theorem IsBisim.exec (h : IsBisim M N R) {s : σ} {t : τ} (hR : R s t) (events : List ε) :
    Option.Rel (fun r r' => r.1 = r'.1 ∧ R r.2 r'.2) (M.exec s events) (N.exec t events) := by
  induction events generalizing s t with
  | nil => exact .some ⟨rfl, hR⟩
  | cons e events ih =>
      rw [Machine.exec, Machine.exec]
      cases hs : M.step s e <;> cases ht : N.step t e <;> have hstep := h s t e hR <;>
        rw [hs, ht] at hstep
      · exact .none
      · cases hstep
      · cases hstep
      · next r r' =>
        obtain ⟨hout, hnext⟩ := Option.rel_some_some.mp hstep
        have hrest := ih hnext
        dsimp only
        cases hs' : M.exec r.2 events <;> cases ht' : N.exec r'.2 events <;>
          rw [hs', ht'] at hrest
        · exact .none
        · cases hrest
        · cases hrest
        · obtain ⟨htrace, hlast⟩ := Option.rel_some_some.mp hrest
          exact .some ⟨by rw [hout, htrace], hlast⟩

end Bisimulation

/-! ### Runs whose steps all meet a condition

A result about runs that meet a condition at every step is one about the runs of another
machine, and every rule for runs can be used for it. -/

variable (M)

/-- The machine that takes only the steps meeting `C`.  Its runs are the runs whose steps all
meet the condition, which is how a property that holds under a condition on each step is stated
of whole runs. -/
def restrict (C : σ → ε → Prop) [∀ s e, Decidable (C s e)] : Machine σ ε ω where
  init := M.init
  step s e := if C s e then M.step s e else none

variable {M} {C : σ → ε → Prop} [∀ s e, Decidable (C s e)]

/-- A step of the restricted machine is a step that meets the condition. -/
theorem restrict_step_eq_some {s : σ} {e : ε} {r : ω × σ} :
    (M.restrict C).step s e = some r ↔ C s e ∧ M.step s e = some r := by
  simp [restrict]

/-- A run of the restricted machine is a run. -/
theorem Run.of_restrict {trace : List (ε × ω)} {s s' : σ}
    (h : (M.restrict C).Run s trace s') : M.Run s trace s' := by
  induction h with
  | refl => exact Run.refl
  | snoc _ hs ih => exact ih.snoc (restrict_step_eq_some.mp hs).2

/-- An execution of the restricted machine is an execution. -/
theorem Execution.of_restrict {trace : List (ε × ω)} {s : σ}
    (h : (M.restrict C).Execution trace s) : M.Execution trace s := by
  obtain ⟨s₀, h0, hrun⟩ := h
  exact ⟨s₀, h0, hrun.of_restrict⟩

/-! ### Properties of all steps

The condition may also be asked of a given schedule.  This is a recursion on the
schedule; nothing is asked behind an event that is not enabled. -/

variable (M)

/-- `P` holds of every step of the schedule, up to the first event that is not enabled.
Nothing is asked of what would come after such an event, because a run ends there. -/
def Along (P : σ → ε → ω → σ → Prop) : σ → List ε → Prop
  | _, [] => True
  | s, e :: events => ∀ o s', M.step s e = some (o, s') → P s e o s' ∧ Along P s' events

variable {M}

/-- Two properties of steps that agree where an invariant holds, which each of them keeps.  It
is enough that either of the two keeps it: along a schedule on which they agree so far, both
have held. -/
theorem along_congr {I : σ → Prop} {P Q : σ → ε → ω → σ → Prop}
    (hiff : ∀ s e o s', I s → M.step s e = some (o, s') → (P s e o s' ↔ Q s e o s'))
    (hkeep : ∀ s e o s', I s → M.step s e = some (o, s') → P s e o s' → I s')
    {s : σ} (hs : I s) (events : List ε) : M.Along P s events ↔ M.Along Q s events := by
  induction events generalizing s with
  | nil => exact Iff.rfl
  | cons e events ih =>
      refine forall_congr' fun o => forall_congr' fun s' => forall_congr' fun hstep => ?_
      rw [hiff s e o s' hs hstep]
      refine and_congr_right fun hQ => ih (hkeep s e o s' hs hstep ?_)
      exact (hiff s e o s' hs hstep).mpr hQ

end Machine

end Transition
