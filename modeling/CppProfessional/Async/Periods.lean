import CppProfessional.Async.Steps

/-!
# Repeated connection periods

`disconnect` of the last context sets `should_terminate`, and no function of the
library clears it again.  In the next period the workers therefore leave their
loop as soon as they find their queue empty, and what is pushed afterwards stays
in the queues.

* `second_period_lost` — the run, with one calling thread;
* `delivered_of_attended` — in every run in which no block is pushed while the log
  worker, or both file workers, are out of their loop, the `disconnect` that leaves
  no context behind returns with both queues empty, every block printed once and
  in order, and every block taken once by a file worker.
-/

namespace Async

open Transition Commands

universe u

section Statement

variable {ι : Type u}

/-- Blocks are pushed only while each queue has a worker in its loop. -/
def Library.PushesAttended (s : Library ι) : Event ι → Prop
  | .advance t _ _ =>
      match (s.callers t).program with
      | .push _ :: _ => s.shared.Attended
      | _ => True
  | .call _ _ | .worker _ _ | .spurious _ => True

instance Library.instDecidablePushesAttended (s : Library ι) (e : Event ι) :
    Decidable (s.PushesAttended e) := by
  unfold Library.PushesAttended
  cases e with
  | advance t now address =>
      dsimp only
      split
      · exact inferInstanceAs (Decidable (_ ∧ _))
      · exact isTrue trivial
  | call t call => exact isTrue trivial
  | worker w opened => exact isTrue trivial
  | spurious w => exact isTrue trivial

/-- Everything pushed so far has been put out: both queues are empty, the log
worker has printed every block once and in order, and each block has been taken
once by a file worker. -/
def Delivered (trace : List (Event ι × Effect)) (s : Library ι) : Prop :=
  s.shared.logQueue = [] ∧ s.shared.fileQueue = [] ∧
    Machine.history (Effect.through Output.prints) trace =
      Machine.history (Effect.through Output.pushes) trace ∧
    Machine.history (Effect.through (Output.takes .file)) trace =
      Machine.history (Effect.through Output.pushes) trace

end Statement

/-! ### The second period

The flag that ends the first period is never cleared, so the workers of the second one
leave at once.  The run needs one calling thread only. -/

/-- The library with one calling thread. -/
abbrev sequential : Machine (Library Unit) (Event Unit) Effect := machine Unit (· = initial)

/-- Thread `()` takes its next steps. -/
def advances (n : ℕ) : List (Event Unit) := List.replicate n (.advance () 0 1)

/-- Every worker takes a step. -/
def workersMove : List (Event Unit) :=
  [.worker .log true, .worker .file1 true, .worker .file2 true]

/-- A context that sends nothing, and then one that sends the command `a`, up to the
return of its `disconnect`. -/
def secondPeriod : List (Event Unit × Effect) × Library Unit :=
  sequential.play initial
    (List.flatten
      [[.call () (.connect 1)], advances 5,
        [.call () (.disconnect 1)], advances 5, workersMove, advances 4,
        [.call () (.connect 1)], advances 5, workersMove,
        [.call () (.receive 1 ['a', '\n'])], advances 4,
        [.call () (.disconnect 1)], advances 8]) (by decide +kernel)

/-- **Output of the second period is lost.** -/
theorem second_period_lost :
    ¬ ∀ (trace : List (Event Unit × Effect)) (s s' : Library Unit) (e : Event Unit),
      sequential.Execution trace s → step s e = some (.disconnected, s') →
        s'.contexts.entries = [] → Delivered (trace ++ [(e, .disconnected)]) s' := by
  intro hdelivered
  have hreturns : step secondPeriod.2 (.advance () 0 1) =
      some (.disconnected, secondPeriod.2.goTo () .idle []) := by
    rfl
  have hlost := hdelivered _ _ _ _ (Machine.execution_play rfl _) hreturns (by decide)
  exact absurd hlost.1 (by decide)

/-! ### Every block has commands -/

structure Library.Substantial {ι : Type u} (s : Library ι) : Prop where
  shared : s.shared.Substantial
  program : ∀ u task, .push task ∈ (s.callers u).program → task.commands ≠ []

section Substantial

variable {ι : Type u} [DecidableEq ι] {s s' : Library ι} {e : Event ι} {effect : Effect}

/-- No step of the library pushes an empty block: a flush of nothing is not pushed at all. -/
theorem move_substantial (h : Move s e effect s') (hinv : s.Substantial) : s'.Substantial := by
  have hnone (t : ι) (pc : Pc) (u : ι) (task : OutputTask)
      (htask : .push task ∈ ((s.goTo t pc []).callers u).program) : task.commands ≠ [] :=
    pushes_goTo hinv.program (fun task htask => by cases htask) u task htask
  cases h with
  | connects _ =>
      exact ⟨hinv.shared.congr (fun q => by cases q <;> rfl) hinv.shared.working,
        pushes_goTo hinv.program fun task htask =>
          absurd htask (push_not_mem_initThreads s.shared task)⟩
  | ignores _ _ => exact hinv
  | ignoresNull _ => exact hinv
  | receives _ _ _ _ => exact ⟨hinv.shared, hnone _ _⟩
  | misses _ _ => exact ⟨hinv.shared, hnone _ _⟩
  | @finishes t handle context _ _ _ _ =>
      refine ⟨hinv.shared, pushes_goTo hinv.program fun task htask => ?_⟩
      exact ((sameContext_finish context).output task (push_mem_publishing htask)).2
  | @executes t now address pc instr rest output shared ht hmove =>
      have hprogram (task : OutputTask) (htask : .push task ∈ instr :: rest) :
          task.commands ≠ [] := hinv.program t task (by rw [ht]; exact htask)
      refine ⟨instrMove_substantial hmove ?_ hinv.shared, pushes_goTo hinv.program ?_⟩
      · rintro task rfl
        exact hprogram task (List.mem_cons_self ..)
      · intro task htask
        exact hprogram task (List.mem_cons_of_mem _ htask)
  | numbers _ => exact ⟨hinv.shared, hnone _ _⟩
  | inserts _ _ _ _ => exact ⟨hinv.shared, hnone _ _⟩
  | received _ => exact ⟨hinv.shared, hnone _ _⟩
  | skips _ => exact ⟨hinv.shared, hnone _ _⟩
  | @adds t now address handle command lines context _ _ _ =>
      refine ⟨hinv.shared, pushes_goTo hinv.program fun task htask => ?_⟩
      exact ((sameContext_addTask context now command).output task (push_mem_publishing htask)).2
  | erases _ => exact ⟨hinv.shared, hnone _ _⟩
  | findsEmpty _ _ => exact ⟨hinv.shared, hnone _ _⟩
  | findsContexts _ _ => exact ⟨hinv.shared, hnone _ _⟩
  | stops _ =>
      exact ⟨hinv.shared.congr (fun q => by cases q <;> rfl) hinv.shared.working,
        pushes_goTo hinv.program fun task htask =>
          absurd htask (push_not_mem_stopThreads s.shared task)⟩
  | joined _ => exact ⟨hinv.shared, hnone _ _⟩
  | works _ hmove => exact ⟨workerMove_substantial hmove hinv.shared, hinv.program⟩

end Substantial

/-! ### From the queue to the screen -/

/-- What the printer has in hand, with what it takes, is what it prints, with what it has in
hand then. -/
theorem move_prints {ι : Type u} [DecidableEq ι] {s s' : Library ι} {e : Event ι}
    {effect : Effect} (h : Move s e effect s') (hinv : s.Substantial) :
    inHand (s.shared.threads .log) ++ effect.through (Output.takes .log) =
      effect.through Output.prints ++ inHand (s'.shared.threads .log) := by
  cases h with
  | executes _ hmove => exact instrMove_prints hmove
  | works _ hmove => exact workerMove_prints hmove hinv.shared
  | _ => simp [Effect.through, Output.takes, Output.prints, Library.goTo, initThreads, stopThreads]

/-! ### One calling thread

With one calling thread a period begins with the `connect` that finds no context and
ends with the `disconnect` that leaves none, and the two do not overlap.  The invariant
says what the workers are doing at each position of the caller. -/

/-- The positions at which the workers are wanted although no context may be
registered. -/
def Pc.expecting : Pc → Bool
  | .starting _ | .inserting _ _ | .testing | .stopping => true
  | .idle | .receiving _ _ | .erasing _ | .joining => false

/-- The life of the workers under one calling thread.  Outside a period no thread object is
joinable, except those that `stop_threads` is about to join.  The program counter has to be
part of this: between `disconnect` and the stop there are workers without a context, and
between the stop and the joins there are thread objects without a period. -/
structure Lifecycle (s : Library Unit) : Prop where
  stopped : s.shared.threadsInitialized = false → ∀ w, s.shared.threads w ≠ none →
    (s.callers ()).pc = .joining ∧ .join w ∈ (s.callers ()).program
  wanted : s.shared.threadsInitialized = true → s.contexts.entries = [] →
    (s.callers ()).pc.expecting = true
  joining : (s.callers ()).pc = .joining → s.shared.threadsInitialized = false
  starting : ∀ w, .start w ∈ (s.callers ()).program → s.shared.threadsInitialized = true

@[simp] theorem callers_goTo (s : Library Unit) (t : Unit) (pc : Pc) (program : List Instr) :
    (s.goTo t pc program).callers () = ⟨pc, program⟩ := by
  show Function.update s.callers () ⟨pc, program⟩ () = ⟨pc, program⟩
  exact Function.update_self ..

/-- A table with a context in it is not empty, which is what `disconnect` asks for. -/
theorem entries_insert_ne_nil (contexts : Contexts) (handle : Handle) (context : TaskManager) :
    (contexts.insert handle context).entries ≠ [] := by
  rw [AList.entries_insert]
  exact List.cons_ne_nil _ _

theorem start_not_mem_publishing (block : Option OutputTask) (w : Worker) :
    .start w ∉ publishing block := by
  cases block <;> simp [publishing, publish]

/-- A step of the caller that is not part of starting or stopping the workers. -/
theorem Lifecycle.goTo {s s' : Library Unit} (h : Lifecycle s)
    (hnot : (s.callers ()).pc ≠ .joining) (hshared : s'.shared = s.shared) {pc : Pc}
    {program : List Instr} (hcallers : s'.callers () = ⟨pc, program⟩)
    (hwanted : s'.contexts.entries = [] →
      pc.expecting = true ∨ s.contexts.entries = [] ∧ (s.callers ()).pc.expecting = false)
    (hpc : pc ≠ .joining) (hprogram : ∀ w, .start w ∉ program) : Lifecycle s' where
  stopped hinit w hw := by
    rw [hshared] at hinit hw
    exact absurd (h.stopped hinit w hw).1 hnot
  wanted hinit hempty := by
    rw [hshared] at hinit
    rw [hcallers]
    rcases hwanted hempty with hexpecting | ⟨hbefore, hidle⟩
    · exact hexpecting
    · rw [h.wanted hinit hbefore] at hidle
      cases hidle
  joining hjoining := by
    rw [hcallers] at hjoining
    exact absurd hjoining hpc
  starting w hw := by
    rw [hcallers] at hw
    exact absurd hw (hprogram w)

/-- An instruction of the caller: what is left to join has its join ahead.  The instructions
come in the order of `stop_threads`, and none of them adds a join. -/
theorem Lifecycle.executes {s : Library Unit} {t : Unit} {pc : Pc} {instr : Instr}
    {rest : List Instr} {output : Output} {shared : Shared} (h : Lifecycle s)
    (ht : s.callers t = ⟨pc, instr :: rest⟩) (hmove : InstrMove s.shared instr output shared) :
    Lifecycle (({ s with shared := shared } : Library Unit).goTo t pc rest) := by
  have hinit := instrMove_threadsInitialized hmove
  have hpc : (s.callers ()).pc = pc := by rw [ht]
  have hmem {i : Instr} (hi : i ∈ rest) : i ∈ (s.callers ()).program := by
    rw [ht]
    exact List.mem_cons_of_mem _ hi
  refine ⟨fun hfalse w hw => ?_, fun htrue hempty => ?_, fun hjoining => ?_, fun w hw => ?_⟩
  · rw [callers_goTo]
    -- a thread object that is still joinable has its join ahead
    have hoff : s.shared.threadsInitialized = false := hinit.symm.trans hfalse
    have hleft (hw : s.shared.threads w ≠ none) (hne : .join w ≠ instr) :
        pc = .joining ∧ .join w ∈ rest := by
      obtain ⟨hjoining, hjoin⟩ := h.stopped hoff w hw
      rw [ht] at hjoining hjoin
      exact ⟨hjoining, List.mem_of_ne_of_mem hne hjoin⟩
    cases hmove with
    | pushes _ => exact hleft hw (by simp)
    | notifies =>
        refine hleft (fun hnone => hw ?_) (by simp)
        simp [Library.goTo, CondVar.notifyAll, hnone, queueCv]
    | terminates => exact hleft hw (by simp)
    | @starts v _ =>
        have htrue := h.starting v (by rw [ht]; exact List.mem_cons_self ..)
        rw [hoff] at htrue
        cases htrue
    | @skips v hnone =>
        refine hleft hw ?_
        rintro ⟨⟩
        exact hw hnone
    | @joins v _ =>
        have hwv : w ≠ v := by
          rintro rfl
          exact hw (Function.update_self ..)
        refine hleft (fun hnone => hw ?_) (by simpa using hwv)
        exact (Function.update_of_ne hwv _ _).trans hnone
  · rw [callers_goTo]
    exact hpc ▸ h.wanted (hinit.symm.trans htrue) hempty
  · rw [callers_goTo] at hjoining
    exact hinit.trans (h.joining (hpc.trans hjoining))
  · rw [callers_goTo] at hw
    exact hinit.trans (h.starting w (hmem hw))

/-- The exchange of `stop_threads`: every thread object has its join ahead. -/
theorem Lifecycle.stops {s : Library Unit} {t : Unit} (h : Lifecycle s)
    (ht : s.callers t = ⟨.stopping, []⟩) :
    Lifecycle (({ s with shared := (stopThreads s.shared).1 } : Library Unit).goTo t .joining
      (stopThreads s.shared).2) := by
  refine ⟨fun _ w hw => ?_, fun hinit => (by cases hinit), fun _ => rfl, fun w hw => ?_⟩
  · rw [callers_goTo]
    refine ⟨rfl, ?_⟩
    cases hinit : s.shared.threadsInitialized with
    | true => cases w <;> simp [stopThreads, hinit, shutdown, joinThreads]
    | false =>
        -- the exchange finds nothing to stop, and nothing is left to join
        have hjoining := (h.stopped hinit w hw).1
        rw [ht] at hjoining
        cases hjoining
  · rw [callers_goTo] at hw
    unfold stopThreads at hw
    cases hinit : s.shared.threadsInitialized <;>
      simp [hinit, shutdown, joinThreads] at hw

/-- All threads are joined. -/
theorem Lifecycle.joined {s : Library Unit} {t : Unit} (h : Lifecycle s)
    (ht : s.callers t = ⟨.joining, []⟩) : Lifecycle (s.goTo t .idle []) := by
  have hinit : s.shared.threadsInitialized = false := h.joining (by rw [ht])
  have hnone (w : Worker) : s.shared.threads w = none := by
    by_contra hw
    have hjoin := (h.stopped hinit w hw).2
    rw [ht] at hjoin
    cases hjoin
  refine ⟨fun _ w hw => absurd (hnone w) hw, fun htrue => ?_, fun hpc => ?_, fun w hw => ?_⟩
  · have hfalse : s.shared.threadsInitialized = true := htrue
    rw [hinit] at hfalse
    cases hfalse
  · rw [callers_goTo] at hpc
    cases hpc
  · rw [callers_goTo] at hw
    cases hw

/-- One step keeps the workers, the contexts and the place of the caller together.  Only the
two exchanges change whether the workers are wanted, and they do so at the positions that the
invariant names. -/
theorem move_lifecycle {s s' : Library Unit} {e : Event Unit} {effect : Effect}
    (h : Move s e effect s') (hinv : Lifecycle s) : Lifecycle s' := by
  cases h with
  | connects ht =>
      refine ⟨fun hinit => (by cases hinit), fun _ _ => by rw [callers_goTo]; rfl, fun hpc => ?_,
        fun _ _ => rfl⟩
      rw [callers_goTo] at hpc
      cases hpc
  | ignores _ _ => exact hinv
  | ignoresNull _ => exact hinv
  | receives ht _ _ hlookup =>
      refine hinv.goTo ?_ rfl (callers_goTo ..) ?_ (by simp) (by simp)
      · simp [ht, Caller.idle]
      · exact fun hempty => absurd hempty (entries_ne_nil_of_lookup hlookup)
  | misses ht _ =>
      refine hinv.goTo ?_ rfl (callers_goTo ..) ?_ (by simp) (by simp)
      · simp [ht, Caller.idle]
      · exact fun _ => Or.inl rfl
  | finishes ht _ _ hlookup =>
      refine hinv.goTo ?_ rfl (callers_goTo ..) ?_ (by simp) (start_not_mem_publishing _)
      · simp [ht, Caller.idle]
      · exact fun hempty => absurd hempty (entries_insert_ne_nil _ _ _)
  | executes ht hmove => exact hinv.executes ht hmove
  | numbers ht =>
      refine hinv.goTo ?_ rfl (callers_goTo ..) ?_ (by simp) (by simp)
      · simp [ht]
      · exact fun _ => Or.inl rfl
  | inserts ht _ _ _ =>
      refine hinv.goTo ?_ rfl (callers_goTo ..) ?_ (by simp) (by simp)
      · simp [ht]
      · exact fun hempty => absurd hempty (entries_insert_ne_nil _ _ _)
  | received ht =>
      refine hinv.goTo ?_ rfl (callers_goTo ..) ?_ (by simp) (by simp)
      · simp [ht]
      · exact fun hempty => Or.inr ⟨hempty, by rw [ht]; rfl⟩
  | skips ht =>
      refine hinv.goTo ?_ rfl (callers_goTo ..) ?_ (by simp) (by simp)
      · simp [ht]
      · exact fun hempty => Or.inr ⟨hempty, by rw [ht]; rfl⟩
  | adds ht _ hlookup =>
      refine hinv.goTo ?_ rfl (callers_goTo ..) ?_ (by simp) (start_not_mem_publishing _)
      · simp [ht]
      · exact fun hempty => absurd hempty (entries_insert_ne_nil _ _ _)
  | erases ht =>
      refine hinv.goTo ?_ rfl (callers_goTo ..) ?_ (by simp) (by simp)
      · simp [ht]
      · exact fun _ => Or.inl rfl
  | findsEmpty ht _ =>
      refine hinv.goTo ?_ rfl (callers_goTo ..) ?_ (by simp) (by simp)
      · simp [ht]
      · exact fun _ => Or.inl rfl
  | findsContexts ht hne =>
      refine hinv.goTo ?_ rfl (callers_goTo ..) ?_ (by simp) (by simp)
      · simp [ht]
      · exact fun hempty => absurd hempty hne
  | stops ht => exact hinv.stops ht
  | joined ht => exact hinv.joined ht
  | @works e w output shared _ hmove =>
      have hinit := workerMove_threadsInitialized hmove
      refine ⟨fun hfalse u hu => hinv.stopped (hinit.symm.trans hfalse) u ?_,
        fun htrue => hinv.wanted (hinit.symm.trans htrue),
        fun hpc => hinit.trans (hinv.joining hpc), fun u hu => hinit.trans (hinv.starting u hu)⟩
      exact workerMove_started hmove hu

/-- At the start no period has begun. -/
theorem lifecycle_initial : Lifecycle initial where
  stopped _ w hw := absurd rfl hw
  wanted hinit := by cases hinit
  joining hpc := by cases hpc
  starting w hw := by cases hw

theorem substantial_initial : (initial : Library Unit).Substantial where
  shared := ⟨fun q task htask => (by cases q <;> cases htask), fun w task htask => (by cases htask)⟩
  program u task htask := by cases htask

/-- When `disconnect` returns without a context left, the thread objects are free. -/
theorem threads_of_disconnected {s s' : Library Unit} {e : Event Unit}
    (h : Move s e .disconnected s') (hinv : Lifecycle s) (hempty : s'.contexts.entries = [])
    (w : Worker) : s'.shared.threads w = none := by
  have hnone (hinit : s.shared.threadsInitialized = false)
      (hprogram : .join w ∉ (s.callers ()).program) : s.shared.threads w = none := by
    by_contra hw
    exact hprogram (hinv.stopped hinit w hw).2
  cases h with
  | ignoresNull ht =>
      -- `disconnect(nullptr)` returns at once, outside a period
      refine hnone ?_ ?_
      · by_contra hinit
        have hexpecting := hinv.wanted (by simpa using hinit) hempty
        rw [ht] at hexpecting
        cases hexpecting
      · rw [ht]
        exact List.not_mem_nil
  | findsContexts _ hne => exact absurd hempty hne
  | joined ht => exact hnone (hinv.joining (by rw [ht])) (by rw [ht]; exact List.not_mem_nil)

/-- One step of a sequential client keeps the queues drained, if it pushes only while the
workers attend to them. -/
theorem move_drained {s s' : Library Unit} {e : Event Unit} {effect : Effect}
    (h : Move s e effect s') (hcond : s.PushesAttended e) (hinv : Drained s.shared) :
    Drained s'.shared := by
  cases h with
  | @executes t now address pc instr rest output shared ht hmove =>
      refine instrMove_drained hmove (fun task hpush => ?_) hinv
      simpa only [Library.PushesAttended, ht, hpush] using hcond
  | works _ hmove => exact workerMove_drained hmove hinv
  | connects _ | stops _ => exact hinv.mono (fun _ hu => hu) (fun q _ => by cases q <;> rfl)
  | _ => exact hinv

/-- In every state that such a client reaches the queues are drained wherever no worker is in
its loop. -/
theorem reachable_drained {s : Library Unit}
    (h : (sequential.restrict Library.PushesAttended).Reachable s) :
    Drained s.shared ∧ Lifecycle s := by
  refine h.invariant (I := fun s => Drained s.shared ∧ Lifecycle s) ?_ ?_
  · rintro s rfl
    exact ⟨fun q _ => by cases q <;> rfl, lifecycle_initial⟩
  · intro s e effect s' _ hinv hs
    obtain ⟨hcond, hs⟩ := Machine.restrict_step_eq_some.mp hs
    exact ⟨move_drained (step_move hs) hcond hinv.1, move_lifecycle (step_move hs) hinv.2⟩

/-- No block in a queue or in a worker's hands is empty. -/
theorem reachable_substantial {s : Library Unit} (h : sequential.Reachable s) :
    s.Substantial := by
  refine h.invariant (I := Library.Substantial) ?_ ?_
  · rintro s rfl
    exact substantial_initial
  · intro s e effect s' _ hinv hs
    exact move_substantial (step_move hs) hinv

/-- **When every block is put out.**  In a run that pushes only while each queue has
a worker in its loop, the `disconnect` that leaves no context behind returns with
everything delivered. -/
theorem delivered_of_attended {trace : List (Event Unit × Effect)} {s s' : Library Unit}
    {e : Event Unit}
    (h : (sequential.restrict Library.PushesAttended).Execution trace s)
    (hs : (sequential.restrict Library.PushesAttended).step s e = some (.disconnected, s'))
    (hempty : s'.contexts.entries = []) : Delivered (trace ++ [(e, .disconnected)]) s' := by
  obtain ⟨hdrained, -⟩ := reachable_drained (h.snoc hs).reachable
  have hfree := threads_of_disconnected (step_move (Machine.restrict_step_eq_some.mp hs).2)
    (reachable_drained h.reachable).2 hempty
  have hqueue (q : Queue) : s'.shared.get q = [] :=
    hdrained q fun w _ => by rw [hfree w]; rfl
  obtain ⟨s₀, rfl, hrun⟩ := (h.snoc hs).of_restrict
  have htaken (q : Queue) : Machine.history (Effect.through Output.pushes)
      (trace ++ [(e, .disconnected)]) = Machine.history (Effect.through (Output.takes q))
      (trace ++ [(e, .disconnected)]) := by
    have hlaw := run_queue hrun q
    rw [hqueue q, List.append_nil] at hlaw
    rw [← hlaw]
    cases q <;> rfl
  have hprinted : Machine.history (Effect.through (Output.takes .log))
      (trace ++ [(e, .disconnected)]) =
      Machine.history (Effect.through Output.prints) (trace ++ [(e, .disconnected)]) := by
    have hlaw := hrun.fifo (fun s => inHand (s.shared.threads .log))
      (fun _ _ _ _ _ hbefore hstep =>
        move_prints (step_move hstep) (reachable_substantial ⟨_, _, rfl, hbefore⟩))
    rw [hfree .log] at hlaw
    simpa [initial, inHand] using hlaw
  exact ⟨hqueue .log, hqueue .file, ((htaken .log).trans hprinted).symm, (htaken .file).symm⟩

/-- The first period, in which the command `a` is put out before the end. -/
def firstPeriod : List (Event Unit × Effect) × Library Unit :=
  (sequential.restrict Library.PushesAttended).play initial
    (List.flatten
      [[.call () (.connect 1)], advances 5,
        [.call () (.receive 1 ['a', '\n'])], advances 4,
        [.worker .log true, .worker .log true, .worker .file1 true, .worker .file1 true],
        [.call () (.disconnect 1)], advances 5, workersMove, advances 3]) (by decide +kernel)

/-- The first period of a client delivers its block. -/
theorem delivered_of_attended_firstPeriod :
    Machine.history (Effect.through Output.pushes) firstPeriod.1 = [⟨0, ['0'], [['a']]⟩] ∧
      Delivered (firstPeriod.1 ++ [(.advance () 0 1, .disconnected)])
        (firstPeriod.2.goTo () .idle []) :=
  ⟨by decide +kernel, delivered_of_attended (Machine.execution_play rfl _) rfl (by decide)⟩

end Async
