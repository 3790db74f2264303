import CppProfessional.Async.Workers
import CppProfessional.Transition.Machine

/-!
# The shutdown of the output threads

`stop_threads` writes `should_terminate` and calls `notify_all` without holding
`queue_mutex()`.  A worker that has found its predicate false and has not blocked
yet misses both, blocks afterwards, and is never notified again, so the join of
`stop_threads` does not return.

* `missed_notification` and `missed_notification_flush` — the run, for the
  `stop_threads` of the library and of the bulk server;
* `shutdown_joins` — in every run in which no worker is in that window at the
  notification that follows the write, the joins never wait for a sleeper, and
  the condition cannot be dropped anywhere: breaking it once leads to a sleeper
  under a join with the next step of the worker.
-/

namespace Async

open Transition

/-- The three workers and the rest of a call of `stop_threads`. -/
structure Stopping where
  shared : Shared
  program : List Instr

/-- Who moves: the stopping thread, or a worker. -/
inductive StopEvent
  | stop
  | worker (w : Worker) (opened : Bool)
  | spurious (w : Worker)

/-- One step of the stopping thread or of a worker. -/
def Stopping.step (s : Stopping) : StopEvent → Option (Output × Stopping)
  | .stop =>
      match s.program with
      | [] => none
      | instr :: rest =>
          (instr.exec s.shared).map fun (output, shared) => (output, ⟨shared, rest⟩)
  | .worker w opened =>
      (workerStep w opened s.shared).map fun (output, shared) => (output, ⟨shared, s.program⟩)
  | .spurious w =>
      (spuriousStep w s.shared).map fun (output, shared) => (output, ⟨shared, s.program⟩)

/-- The workers have been started, with anything in the queues, and `stop_threads`
has just found `threads_initialized` set. -/
def stopMachine (flush : Option OutputTask) : Machine Stopping StopEvent Output where
  init s := s.program = shutdown flush ∧ ∀ w, s.shared.threads w = some .ready
  step := Stopping.step

/-- The state the shutdown must not reach: the notification is over, the stopping
thread is at a join, and a worker sleeps un-notified. -/
def Stopping.Hangs (s : Stopping) : Prop :=
  s.shared.shouldTerminate = true ∧ (∃ w rest, s.program = .join w :: rest) ∧
    ∃ w, s.shared.threads w = some .blocked

/-! ### The missed notification

`should_terminate` is written and `notify_all` is called without the mutex.  Both can
therefore happen between a worker's look at its predicate and its going to sleep. -/

/-- Workers that have just been started, with empty queues. -/
def started (flush : Option OutputTask) : Stopping where
  shared :=
    { shouldTerminate := false, threadsInitialized := false, logQueue := [], fileQueue := [],
      threads := fun _ => some .ready, fileCounter := 0 }
  program := shutdown flush

/-- The log worker evaluates its predicate, `stop_threads` writes the flag and
notifies, and then the log worker blocks. -/
def missedNotification : List (StopEvent × Output) × Stopping :=
  (stopMachine none).play (started none)
    [.worker .log true, .stop, .stop, .worker .log true] (by decide)

/-- The same in the bulk server, after the pending static block `a` has been put
out and printed. -/
def missedNotificationFlush : List (StopEvent × Output) × Stopping :=
  (stopMachine (some ⟨0, ['0'], [['a']]⟩)).play (started (some ⟨0, ['0'], [['a']]⟩))
    [.stop, .stop, .worker .log true, .worker .log true, .worker .log true, .stop, .stop,
      .worker .log true] (by decide)

/-- **The shutdown can hang**, in the library and in the bulk server. -/
theorem missed_notification :
    (∃ s, (stopMachine none).Reachable s ∧ s.Hangs) ∧
      ∃ s, (stopMachine (some ⟨0, ['0'], [['a']]⟩)).Reachable s ∧ s.Hangs := by
  constructor
  · refine ⟨missedNotification.2, (Machine.execution_play ?_ _).reachable, ?_, ?_, .log, ?_⟩
    · exact ⟨rfl, fun _ => rfl⟩
    · decide
    · exact ⟨.log, [.join .file1, .join .file2], by decide⟩
    · decide
  · refine ⟨missedNotificationFlush.2, (Machine.execution_play ?_ _).reachable, ?_, ?_, .log, ?_⟩
    · exact ⟨rfl, fun _ => rfl⟩
    · decide
    · exact ⟨.log, [.join .file1, .join .file2], by decide⟩
    · decide

/-! ### When the shutdown does not hang

A worker that is asleep at the notification is woken, and one that has not looked at its
predicate yet will see the flag.  Only a worker between the two is missed.

`Progress` says where the stopping thread is, `Quiet` what this means for the workers,
from the notification on.  The condition on the run is needed at that one step. -/

/-- At the notification that the joins follow, no worker is between its predicate
and its block. -/
def Stopping.Settled (s : Stopping) : StopEvent → Prop
  | .stop =>
      match s.program with
      | .notifyAll :: .join _ :: _ => s.shared.MutexFree
      | _ => True
  | .worker _ _ | .spurious _ => True

instance Stopping.instDecidableSettled (s : Stopping) (e : StopEvent) :
    Decidable (s.Settled e) := by
  unfold Stopping.Settled
  cases e with
  | stop =>
      dsimp only
      split <;> infer_instance
  | worker w opened => exact isTrue trivial
  | spurious w => exact isTrue trivial

variable {flush : Option OutputTask}

/-- Where the stopping thread is, and what that says about the flag: it is set before the last
notification, which is what keeps a worker that is notified from going to sleep again. -/
structure Progress (flush : Option OutputTask) (s : Stopping) : Prop where
  suffix : s.program <:+ shutdown flush
  flagged : s.program <:+ .notifyAll :: joinThreads → s.shared.shouldTerminate = true

/-- No worker is asleep or about to be. -/
def Quiet (s : Shared) : Prop :=
  ∀ w, s.threads w ≠ some .blocked ∧ s.threads w ≠ some .window

/-- Whatever is flushed, the program of a shutdown ends with the flag, the notification and the
joins, in this order. -/
theorem shutdown_suffix (flush : Option OutputTask) :
    .terminate true :: .notifyAll :: joinThreads <:+ shutdown flush :=
  List.suffix_append _ _

/-- The instruction before the last notification writes the flag. -/
theorem eq_terminate_of_suffix {instr : Instr}
    (h : instr :: .notifyAll :: joinThreads <:+ shutdown flush) :
    instr = .terminate true := by
  have hsame := (List.suffix_of_suffix_length_le h (shutdown_suffix flush) (by simp)).eq_of_length
    (by simp)
  exact (List.cons.inj hsame).1

/-- What is left of the program once the joins have been reached, or the
notification before them. -/
theorem suffix_of_cons_suffix {instr : Instr} {rest : List Instr}
    (h : instr :: rest <:+ shutdown flush) (hrest : rest <:+ joinThreads) :
    instr :: rest <:+ .notifyAll :: joinThreads := by
  have hlast : .notifyAll :: joinThreads <:+ shutdown flush :=
    (List.suffix_cons _ _).trans (shutdown_suffix flush)
  exact List.suffix_of_suffix_length_le h hlast (by simpa using hrest.length_le)

/-- The joins come last. -/
theorem joins_of_join_suffix {w : Worker} {rest : List Instr}
    (h : .join w :: rest <:+ shutdown flush) : .join w :: rest <:+ joinThreads := by
  cases flush with
  | none =>
      simp only [shutdown, Option.elim, List.nil_append, List.suffix_cons_iff, List.cons.injEq,
        reduceCtorEq, false_and, false_or] at h
      exact h
  | some block =>
      simp only [shutdown, publish, Option.elim, List.cons_append, List.nil_append,
        List.suffix_cons_iff, List.cons.injEq, reduceCtorEq, false_and, false_or] at h
      exact h

/-- The instructions after the write leave the flag alone. -/
theorem exec_shouldTerminate {instr : Instr} {s s' : Shared} {output : Output}
    (h : InstrMove s instr output s') (hinstr : instr ∈ .notifyAll :: joinThreads) :
    s'.shouldTerminate = s.shouldTerminate := by
  cases h with
  | terminates => simp [joinThreads] at hinstr
  | _ => rfl

theorem workerMove_shouldTerminate {w : Worker} {s s' : Shared} {output : Output}
    (h : WorkerMove w s output s') : s'.shouldTerminate = s.shouldTerminate := by
  cases h <;> simp

/-- Nobody is asleep after a worker has moved on to a place where it does not sleep. -/
theorem Quiet.update {s s' : Shared} (h : Quiet s) {w : Worker} (c : Option Control)
    (hthreads : s'.threads = Function.update s.threads w c)
    (hc : c ≠ some .blocked ∧ c ≠ some .window) : Quiet s' := by
  intro u
  rw [hthreads]
  by_cases huw : u = w
  · rw [huw, Function.update_self]
    exact hc
  · rw [Function.update_of_ne huw]
    exact h u

/-- Once the flag is set, no worker starts to wait. -/
theorem workerMove_quiet {w : Worker} {s s' : Shared} {output : Output}
    (h : WorkerMove w s output s') (hterm : s.shouldTerminate = true) (hquiet : Quiet s) :
    Quiet s' := by
  cases h with
  | waits _ _ _ hopen => simp [hterm] at hopen
  | blocks hwindow => exact absurd hwindow (hquiet w).2
  | exits _ _ _ _ => exact hquiet.update (some .exited) rfl (by simp)
  | @takes task rest _ _ _ =>
      exact hquiet.update (w := w) (some (.working task)) (by simp) (by simp)
  | wakes _ => exact hquiet.update (some .ready) rfl (by simp)
  | skips _ _ => exact hquiet.update (some .ready) rfl (by simp)
  | prints _ _ _ => exact hquiet.update (some .ready) rfl (by simp)
  | writes _ _ _ _ => exact hquiet.update (some .ready) rfl (by simp)

/-- The notification wakes every sleeper; only a worker holding the mutex can
still fall asleep. -/
theorem quiet_notifyAll {s : Shared} (hfree : s.MutexFree) :
    Quiet { s with threads := queueCv.notifyAll s.threads } := by
  intro w
  constructor
  · have hawake : queueCv.asleep (queueCv.notifyAll s.threads w) = false :=
      queueCv.asleep_notifyAll w
    simpa [queueCv] using hawake
  · have hframe : decide (queueCv.notifyAll s.threads w = some .window) =
        decide (s.threads w = some .window) :=
      queueCv.apply_notifyAll (f := fun c => decide (c = some .window))
        (fun c hc => by
          rw [of_decide_eq_true hc]
          rfl) w
    intro hwindow
    exact hfree w (of_decide_eq_true (hframe.symm.trans (decide_eq_true hwindow)))

/-- A step is one of a worker, or carries out the next instruction of the shutdown. -/
theorem step_program {s s' : Stopping} {e : StopEvent} {output : Output}
    (h : s.step e = some (output, s')) :
    (∃ w, WorkerMove w s.shared output s'.shared ∧ s'.program = s.program) ∨
      e = .stop ∧ ∃ instr, s.program = instr :: s'.program ∧
        InstrMove s.shared instr output s'.shared := by
  cases e with
  | stop =>
      simp only [Stopping.step] at h
      split at h
      · cases h
      · next instr rest hprogram =>
        obtain ⟨⟨output', shared⟩, hexec, hend⟩ := Option.map_eq_some_iff.mp h
        cases hend
        exact Or.inr ⟨rfl, instr, hprogram, exec_move hexec⟩
  | worker w opened =>
      obtain ⟨⟨output', shared⟩, hstep, hend⟩ := Option.map_eq_some_iff.mp h
      cases hend
      exact Or.inl ⟨w, workerStep_move hstep, rfl⟩
  | spurious w =>
      obtain ⟨⟨output', shared⟩, hstep, hend⟩ := Option.map_eq_some_iff.mp h
      cases hend
      exact Or.inl ⟨w, spuriousStep_move hstep, rfl⟩

/-- One step keeps the place of the shutdown, since only the stopping thread writes the
flag. -/
theorem step_progress {s s' : Stopping} {e : StopEvent} {output : Output}
    (h : s.step e = some (output, s')) (hinv : Progress flush s) : Progress flush s' := by
  obtain ⟨shared', program'⟩ := s'
  rcases step_program h with ⟨w, hmove, hprogram⟩ | ⟨-, instr, hprogram, hmove⟩
  · refine ⟨?_, fun hlast => ?_⟩
    · rw [hprogram]
      exact hinv.suffix
    · rw [workerMove_shouldTerminate hmove]
      exact hinv.flagged (hprogram ▸ hlast)
  · have hsuffix : instr :: program' <:+ shutdown flush := hprogram ▸ hinv.suffix
    refine ⟨(List.suffix_cons _ _).trans hsuffix, fun hlast => ?_⟩
    -- either the notification comes next, and the flag has just been written, or it is over
    rcases List.suffix_cons_iff.mp hlast with hnotify | hjoins
    · rw [show program' = .notifyAll :: joinThreads from hnotify] at hsuffix
      have hinstr : instr = .terminate true := eq_terminate_of_suffix hsuffix
      subst hinstr
      cases hmove
      rfl
    · have hbefore := suffix_of_cons_suffix hsuffix hjoins
      rw [exec_shouldTerminate hmove (hbefore.subset (List.mem_cons_self ..))]
      exact hinv.flagged (hprogram ▸ hbefore)

/-- The invariant holds in every state of a shutdown. -/
theorem reachable_progress {s : Stopping} (h : (stopMachine flush).Reachable s) :
    Progress flush s := by
  refine h.invariant (I := Progress flush) ?_ ?_
  · rintro s ⟨hprogram, -⟩
    refine ⟨hprogram ▸ List.suffix_refl _, fun hlast => ?_⟩
    have hlong : (shutdown flush).length ≤ 4 := hprogram ▸ hlast.length_le
    simp [shutdown, joinThreads] at hlong
  · intro s e output s' _ hinv hs
    exact step_progress hs hinv

/-- From the notification on, nobody sleeps.  At the notification itself this is the condition
on the run; afterwards the flag keeps every worker from going to sleep again. -/
theorem step_quiet {s s' : Stopping} {e : StopEvent} {output : Output}
    (h : s.step e = some (output, s')) (hsettled : s.Settled e) (hprogress : Progress flush s)
    (hquiet : s.program <:+ joinThreads → Quiet s.shared) :
    s'.program <:+ joinThreads → Quiet s'.shared := by
  obtain ⟨shared', program'⟩ := s'
  intro hjoins
  rcases step_program h with ⟨w, hmove, hprogram⟩ | ⟨rfl, instr, hprogram, hmove⟩
  · dsimp only at hprogram hjoins
    rw [hprogram] at hjoins
    exact workerMove_quiet hmove
      (hprogress.flagged (hjoins.trans (List.suffix_cons _ _))) (hquiet hjoins)
  · have hsuffix : instr :: program' <:+ shutdown flush := hprogram ▸ hprogress.suffix
    rcases List.suffix_cons_iff.mp (suffix_of_cons_suffix hsuffix hjoins) with hnotify | hlater
    · -- the notification itself, the one step that the condition is about
      have hlast : s.program = .notifyAll :: joinThreads := hprogram.trans hnotify
      simp only [Stopping.Settled, hlast, joinThreads] at hsettled
      obtain ⟨rfl, -⟩ := List.cons.inj hnotify
      cases hmove
      exact quiet_notifyAll hsettled
    · have hbefore : Quiet s.shared := hquiet (hprogram ▸ hlater)
      have hjoin : instr ∈ joinThreads := hlater.subset (List.mem_cons_self ..)
      cases hmove with
      | skips _ => exact hbefore
      | joins _ => exact hbefore.update none rfl (by simp)
      | pushes _ | notifies | terminates | starts _ => simp [joinThreads] at hjoin

/-- **When the shutdown does not hang.**  If no worker holds the mutex between its
predicate and its block at the notification before the joins, no state of the run
has a sleeper under a join; and wherever that condition is broken, the next step
of a worker reaches such a state. -/
theorem shutdown_joins (flush : Option OutputTask) :
    (∀ s, ((stopMachine flush).restrict Stopping.Settled).Reachable s → ¬ s.Hangs) ∧
      ∀ s s' output, (stopMachine flush).Reachable s → ¬ s.Settled .stop →
        s.step .stop = some (output, s') →
          ∃ w output' s'', s'.step (.worker w true) = some (output', s'') ∧ s''.Hangs := by
  constructor
  · intro s h
    have hinv : Progress flush s ∧ (s.program <:+ joinThreads → Quiet s.shared) := by
      refine h.invariant
        (I := fun s => Progress flush s ∧ (s.program <:+ joinThreads → Quiet s.shared)) ?_ ?_
      · intro s hinit
        refine ⟨reachable_progress (.of_init hinit), fun _ w => ?_⟩
        simp [hinit.2 w]
      · intro s e output s' _ hinv hs
        obtain ⟨hsettled, hs⟩ := Machine.restrict_step_eq_some.mp hs
        exact ⟨step_progress hs hinv.1, step_quiet hs hsettled hinv.1 hinv.2⟩
    rintro ⟨-, ⟨w, rest, hprogram⟩, u, hblocked⟩
    have hjoins : s.program <:+ joinThreads := by
      rw [hprogram]
      exact joins_of_join_suffix (hprogram ▸ hinv.1.suffix)
    exact (hinv.2 hjoins u).1 hblocked
  · intro s s' output hreach hbroken hs
    have hprogress := reachable_progress hreach
    simp only [Stopping.Settled] at hbroken
    split at hbroken
    · next v rest hprogram =>
      obtain ⟨w, hwindow⟩ : ∃ w, s.shared.threads w = some .window := by
        simpa [Shared.MutexFree] using hbroken
      have hsuffix : .notifyAll :: .join v :: rest <:+ shutdown flush :=
        hprogram ▸ hprogress.suffix
      have hjoins : .join v :: rest <:+ joinThreads :=
        joins_of_join_suffix ((List.suffix_cons _ _).trans hsuffix)
      have hflag : s.shared.shouldTerminate = true :=
        hprogress.flagged (hprogram ▸ suffix_of_cons_suffix hsuffix hjoins)
      simp only [Stopping.step, hprogram, Instr.exec, Option.map_some, Option.some.injEq,
        Prod.mk.injEq] at hs
      obtain ⟨-, rfl⟩ := hs
      -- the worker in the window is not asleep, so the notification passes it by
      have hstill : queueCv.notifyAll s.shared.threads w = some .window := by
        rw [CondVar.notifyAll, hwindow]
        rfl
      refine ⟨w, .silent,
        ⟨{ s.shared with threads := queueCv.notifyAll s.shared.threads }.goTo w .blocked,
          .join v :: rest⟩, ?_, hflag, ⟨v, rest, rfl⟩, w, ?_⟩
      · simp only [Stopping.step, workerStep, hstill, Option.map_some]
      · rw [threads_goTo, Function.update_self]
    · exact absurd trivial hbroken

/-- The log worker falls asleep before `stop_threads` writes the flag, and the
notification finds it. -/
def settledShutdown : List (StopEvent × Output) × Stopping :=
  ((stopMachine none).restrict Stopping.Settled).play (started none)
    [.worker .log true, .worker .log true, .stop, .stop, .worker .log true, .stop] (by decide)

/-- A shutdown whose workers have all settled joins them, one after the other. -/
theorem shutdown_joins_settledShutdown :
    settledShutdown.2.program = [.join .file1, .join .file2] ∧ ¬ settledShutdown.2.Hangs :=
  have hinit : ((stopMachine none).restrict Stopping.Settled).init (started none) :=
    ⟨rfl, fun _ => rfl⟩
  ⟨by decide, (shutdown_joins none).1 _ (Machine.execution_play hinit _).reachable⟩

end Async
