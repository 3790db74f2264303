import CppProfessional.Async.Delivery
import CppProfessional.Async.Library

/-!
# What one step of the library can do

`Move s e effect s'` lists the steps of the library: the calls, what a caller does
at each position, an instruction of a caller, and the workers.  `step_move` is the
inversion of `step`; the invariants of the library are case analyses of `Move`.

The two queues obey one conservation law, `move_queue`: what a step pushes goes to
the end of both, and a worker takes from the front of its own.

A constructor has the guards that some invariant uses, the observation of the step and the
state after it.  What the step function decides by looking at several members at once is a
single constructor each time, so that a case analysis has the cases of the code and no more.
-/

namespace Async

open Transition Commands

universe u

variable {ι : Type u}

/-- The thread of an event; `none` for a step of a worker. -/
def Event.caller : Event ι → Option ι
  | .call t _ => some t
  | .advance t _ _ => some t
  | .worker _ _ | .spurious _ => none

variable [DecidableEq ι]

/-- Everything a step can do. -/
inductive Move (s : Library ι) : Event ι → Effect → Library ι → Prop
  | connects {t : ι} {bulk : ℕ} : s.callers t = .idle →
      Move s (.call t (.connect bulk)) (.output .silent)
        ({ s with shared := (initThreads s.shared).1 }.goTo t (.starting bulk)
          (initThreads s.shared).2)
  | ignores {t : ι} {handle : Handle} {data : Line} : s.callers t = .idle →
      handle = 0 ∨ s.contexts.lookup handle = none →
      Move s (.call t (.receive handle data)) (.output .silent) s
  | receives {t : ι} {handle : Handle} {data : Line} {context : TaskManager} :
      s.callers t = .idle → s.ContextsFree → s.Unused handle →
      s.contexts.lookup handle = some context →
      Move s (.call t (.receive handle data)) (.output .silent)
        (s.goTo t (.receiving handle (getlines '\n' data)) [])
  | ignoresNull {t : ι} : s.callers t = .idle →
      Move s (.call t (.disconnect 0)) .disconnected s
  | misses {t : ι} {handle : Handle} : s.callers t = .idle →
      s.contexts.lookup handle = none →
      Move s (.call t (.disconnect handle)) (.output .silent) (s.goTo t .testing [])
  | finishes {t : ι} {handle : Handle} {context : TaskManager} :
      s.callers t = .idle → s.ContextsFree → s.Unused handle →
      s.contexts.lookup handle = some context →
      Move s (.call t (.disconnect handle)) (.output .silent)
        ({ s with contexts := s.contexts.insert handle context.finish.2 }.goTo t
          (.erasing handle) (publishing context.finish.1))
  | executes {t : ι} {now : ℤ} {address : Handle} {pc : Pc} {instr : Instr}
      {rest : List Instr} {output : Output} {shared : Shared} :
      s.callers t = ⟨pc, instr :: rest⟩ → InstrMove s.shared instr output shared →
      Move s (.advance t now address) (.output output)
        ({ s with shared := shared }.goTo t pc rest)
  | numbers {t : ι} {now : ℤ} {address : Handle} {bulk : ℕ} :
      s.callers t = ⟨.starting bulk, []⟩ →
      Move s (.advance t now address) (.output .silent)
        ({ s with nextId := s.nextId + 1 }.goTo t (.inserting bulk s.nextId) [])
  | inserts {t : ι} {now : ℤ} {address : Handle} {bulk id : ℕ} :
      s.callers t = ⟨.inserting bulk id, []⟩ → s.ContextsFree → address ≠ 0 →
      s.contexts.lookup address = none →
      Move s (.advance t now address) (.connected address id bulk)
        ({ s with contexts := s.contexts.insert address (TaskManager.create bulk (toText id)) }.goTo
          t .idle [])
  | received {t : ι} {now : ℤ} {address handle : Handle} :
      s.callers t = ⟨.receiving handle [], []⟩ →
      Move s (.advance t now address) (.output .silent) (s.goTo t .idle [])
  | skips {t : ι} {now : ℤ} {address handle : Handle} {lines : List Line} :
      s.callers t = ⟨.receiving handle ([] :: lines), []⟩ →
      Move s (.advance t now address) (.output .silent) (s.goTo t (.receiving handle lines) [])
  | adds {t : ι} {now : ℤ} {address handle : Handle} {command : Line} {lines : List Line}
      {context : TaskManager} :
      s.callers t = ⟨.receiving handle (command :: lines), []⟩ → command ≠ [] →
      s.contexts.lookup handle = some context →
      Move s (.advance t now address) (.output .silent)
        ({ s with contexts := s.contexts.insert handle (context.addTask now command).2 }.goTo t
          (.receiving handle lines) (publishing (context.addTask now command).1))
  | erases {t : ι} {now : ℤ} {address handle : Handle} :
      s.callers t = ⟨.erasing handle, []⟩ →
      Move s (.advance t now address) (.erased handle)
        ({ s with contexts := s.contexts.erase handle }.goTo t .testing [])
  | findsEmpty {t : ι} {now : ℤ} {address : Handle} : s.callers t = ⟨.testing, []⟩ →
      s.contexts.entries = [] →
      Move s (.advance t now address) (.output .silent) (s.goTo t .stopping [])
  | findsContexts {t : ι} {now : ℤ} {address : Handle} : s.callers t = ⟨.testing, []⟩ →
      s.contexts.entries ≠ [] →
      Move s (.advance t now address) .disconnected (s.goTo t .idle [])
  | stops {t : ι} {now : ℤ} {address : Handle} : s.callers t = ⟨.stopping, []⟩ →
      Move s (.advance t now address) (.output .silent)
        ({ s with shared := (stopThreads s.shared).1 }.goTo t .joining (stopThreads s.shared).2)
  | joined {t : ι} {now : ℤ} {address : Handle} : s.callers t = ⟨.joining, []⟩ →
      Move s (.advance t now address) .disconnected (s.goTo t .idle [])
  | works {e : Event ι} {w : Worker} {output : Output} {shared : Shared} : e.caller = none →
      WorkerMove w s.shared output shared →
      Move s e (.output output) { s with shared := shared }

variable [Fintype ι] {s s' : Library ι} {t : ι} {e : Event ι} {effect : Effect}

/-- A call of `receive` begins with one of the moves. -/
theorem move_of_receive {handle : Handle} {data : Line} (ht : s.callers t = .idle)
    (h : receive s t handle data = some (effect, s')) :
    Move s (.call t (.receive handle data)) effect s' := by
  unfold receive at h
  split at h
  · next hnull =>
    cases h
    exact .ignores ht (Or.inl hnull)
  · split at h
    · next hguard =>
      split at h
      · next hlookup =>
        cases h
        exact .ignores ht (Or.inr hlookup)
      · next context hlookup =>
        cases h
        exact .receives ht hguard.1 hguard.2 hlookup
    · cases h

/-- So does a call of `disconnect`. -/
theorem move_of_disconnect {handle : Handle} (ht : s.callers t = .idle)
    (h : disconnect s t handle = some (effect, s')) :
    Move s (.call t (.disconnect handle)) effect s' := by
  unfold disconnect at h
  split at h
  · next hnull =>
    cases h
    rw [hnull]
    exact .ignoresNull ht
  · split at h
    · next hguard =>
      split at h
      · next hlookup =>
        cases h
        exact .misses ht hlookup
      · next context hlookup =>
        cases h
        exact .finishes ht hguard.1 hguard.2 hlookup
    · cases h

/-- Between two instructions a call goes on as its program counter says: one case for each
position. -/
theorem move_of_proceed {now : ℤ} {address : Handle} {pc : Pc}
    (ht : s.callers t = ⟨pc, []⟩) (h : proceed s t now address pc = some (effect, s')) :
    Move s (.advance t now address) effect s' := by
  unfold proceed at h
  split at h
  · cases h
  · cases h
    exact .numbers ht
  · next bulk id =>
    split at h
    · next hguard =>
      obtain ⟨hfree, hnull, hfresh⟩ := hguard
      cases h
      exact .inserts ht hfree hnull (AList.lookup_eq_none.mpr hfresh)
    · cases h
  · cases h
    exact .received ht
  · next handle command lines =>
    split at h
    · next hempty =>
      cases h
      rw [List.isEmpty_iff.mp hempty] at ht
      exact .skips ht
    · next hne =>
      split at h
      · cases h
      · next context hlookup =>
        cases h
        exact .adds ht (fun hnil => hne (List.isEmpty_iff.mpr hnil)) hlookup
  · cases h
    exact .erases ht
  · split at h
    · next hempty =>
      cases h
      exact .findsEmpty ht (List.isEmpty_iff.mp hempty)
    · next hne =>
      cases h
      exact .findsContexts ht fun hnil => hne (List.isEmpty_iff.mpr hnil)
  · cases h
    exact .stops ht
  · cases h
    exact .joined ht

/-- **Inversion of a step.**  Every event is one of the moves, and the guards are those that
the step function has tested. -/
theorem step_move (h : step s e = some (effect, s')) : Move s e effect s' := by
  cases e with
  | call t call =>
      obtain ⟨ht, h⟩ := Option.ite_none_right_eq_some.mp h
      cases call with
      | connect bulk =>
          cases h
          exact .connects ht
      | receive handle data => exact move_of_receive ht h
      | disconnect handle => exact move_of_disconnect ht h
  | advance t now address =>
      simp only [step] at h
      split at h
      · next hprogram =>
        exact move_of_proceed (by rw [← hprogram]) h
      · next instr rest hprogram =>
        obtain ⟨⟨output, shared⟩, hexec, hend⟩ := Option.map_eq_some_iff.mp h
        cases hend
        exact .executes (by rw [← hprogram]) (exec_move hexec)
  | worker w opened =>
      obtain ⟨⟨output, shared⟩, hwork, hend⟩ := Option.map_eq_some_iff.mp h
      cases hend
      exact .works rfl (workerStep_move hwork)
  | spurious w =>
      obtain ⟨⟨output, shared⟩, hwake, hend⟩ := Option.map_eq_some_iff.mp h
      cases hend
      exact .works rfl (spuriousStep_move hwake)

/-! ### What steps leave alone -/

/-- A table in which something is found is not empty. -/
theorem entries_ne_nil_of_lookup {β : Type} {contexts : AList fun _ : Handle => β}
    {handle : Handle} {context : β} (h : contexts.lookup handle = some context) :
    contexts.entries ≠ [] := by
  intro hnil
  have hempty : contexts = ∅ := AList.ext hnil
  rw [hempty] at h
  cases h

/-! ### What callers have left to push

Programs are lists of instructions.  What they contain of pushes is known from how they
were made: starting and stopping the workers pushes nothing, a flush pushes its block. -/

/-- The only block that a flush pushes is its own. -/
theorem push_mem_publishing {block : Option OutputTask} {task : OutputTask}
    (h : .push task ∈ publishing block) : block = some task := by
  cases block with
  | none => cases h
  | some block =>
      simp only [publishing, Option.elim, publish, List.mem_cons, Instr.push.injEq,
        reduceCtorEq, List.not_mem_nil, or_self, or_false] at h
      rw [h]

/-- Starting the workers pushes nothing. -/
theorem push_not_mem_initThreads (s : Shared) (task : OutputTask) :
    .push task ∉ (initThreads s).2 := by
  unfold initThreads
  cases s.threadsInitialized <;> simp [startThreads]

/-- Neither does stopping them. -/
theorem push_not_mem_stopThreads (s : Shared) (task : OutputTask) :
    .push task ∉ (stopThreads s).2 := by
  unfold stopThreads
  cases s.threadsInitialized <;> simp [shutdown, joinThreads]

omit [Fintype ι] in
/-- A property of the blocks in all programs, when one thread gets a new program. -/
theorem pushes_goTo {P : OutputTask → Prop}
    (h : ∀ u task, .push task ∈ (s.callers u).program → P task) {t : ι} {pc : Pc}
    {program : List Instr} (hprogram : ∀ task, .push task ∈ program → P task) (u : ι)
    (task : OutputTask) (htask : .push task ∈ ((s.goTo t pc program).callers u).program) :
    P task := by
  rcases of_update (P := fun caller : Caller => .push task ∈ caller.program) htask with hnew | hold
  · exact hprogram task hnew
  · exact h u task hold

/-! ### The two queues

Only workers take and only callers push, so the law of a queue is one fact about each of
them. -/

/-- What a step of the library put out. -/
def Effect.through {α : Type} (f : Output → List α) : Effect → List α
  | .output o => f o
  | .connected _ _ _ | .erased _ | .disconnected => []

omit [Fintype ι] in
/-- **The law of both queues.** -/
theorem move_queue (h : Move s e effect s') (q : Queue) :
    s.shared.get q ++ effect.through Output.pushes =
      effect.through (Output.takes q) ++ s'.shared.get q := by
  cases h with
  | executes _ hmove => exact instrMove_queue hmove q
  | works _ hmove => exact workerMove_queue hmove q
  | _ => cases q <;> simp [Effect.through, Output.pushes, Output.takes, Shared.get,
      Library.goTo, initThreads, stopThreads]

/-- Over a whole run: what was in a queue, with all that is pushed, is what leaves it in this
order, with what is in it at the end. -/
theorem run_queue {init : Library ι → Prop} {trace : List (Event ι × Effect)}
    (h : (machine ι init).Run s trace s') (q : Queue) :
    s.shared.get q ++ Machine.history (Effect.through Output.pushes) trace =
      Machine.history (Effect.through (Output.takes q)) trace ++ s'.shared.get q :=
  h.fifo (fun s => s.shared.get q) fun _ _ _ _ _ _ hs => move_queue (step_move hs) q

end Async
