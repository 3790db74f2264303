import CppProfessional.BulkServer.Process

/-!
# The workers of a connection period

A period of the bulk server begins with the `connect` that finds no shared manager
and ends with the `disconnect` that leaves no context.  Two invariants of the process
say how the workers live through it, and through every period after it.

* `Staffed` — where the instructions of a call can stand, and which workers exist
  and run there; outside a period there are none;
* `Heard` — a worker that sleeps over a block has a notification coming, so that a
  block on its way never waits for another call (`progress`).
-/

namespace BulkServer

open Transition
open Async (OutputTask Block Output Shared Worker Instr Control InstrMove WorkerMove publish
  publishing startThreads joinThreads shutdown inLoop inHand workerStep spuriousStep queueCv
  get_goTo get_set_of_ne Drained)

variable {s s' : Process} {e : ProcessEvent} {effect : ProcessEffect}

/-! ### Where a call stands

A call is a list of instructions that is worked off from the front, so where it stands
is a suffix of the list.  `Stage` lists the suffixes that occur. -/

/-- The instructions of a call, with the flag `threads_initialized`. -/
inductive Stage : Bool → List Instr → Prop
  | starting {program : List Instr} : program <:+ .terminate false :: startThreads →
      Stage true program
  | pushing {task : OutputTask} {program : List Instr} : program <:+ publish task →
      Stage true program
  | stopping {flush : Option OutputTask} {program : List Instr} : program <:+ shutdown flush →
      Stage false program

/-- What the next instruction says about the ones that follow it. -/
structure Follows (flag : Bool) (instr : Instr) (rest : List Instr) : Prop where
  start : ∀ w, instr = .start w → flag = true ∧ .start w ∉ rest
  join : ∀ w, instr = .join w → flag = false ∧ .join w ∉ rest
  push : ∀ task, instr = .push task → (∃ tail, rest = .notifyAll :: tail) ∧
    ∀ w, .start w ∉ rest ∧ (flag = false → .join w ∈ rest)
  reset : instr = .terminate false → flag = true ∧ ∀ w, .start w ∈ rest ∧ .join w ∉ rest
  terminate : instr = .terminate true → flag = false ∧ ∀ task, .push task ∉ rest
  late : .terminate false ∉ rest

/-- A call goes on to its next instruction. -/
theorem Stage.tail {flag : Bool} {instr : Instr} {rest : List Instr}
    (h : Stage flag (instr :: rest)) : Stage flag rest := by
  cases h with
  | starting hsuffix => exact .starting ((List.suffix_cons _ _).trans hsuffix)
  | pushing hsuffix => exact .pushing ((List.suffix_cons _ _).trans hsuffix)
  | stopping hsuffix => exact .stopping ((List.suffix_cons _ _).trans hsuffix)

/-- A call may be over. -/
theorem Stage.nil (flag : Bool) : Stage flag [] := by
  cases flag with
  | true => exact .starting List.nil_suffix
  | false => exact .stopping (List.nil_suffix : [] <:+ shutdown none)

/-- A flush is pushed while the workers are there. -/
theorem Stage.publishing (block : Option OutputTask) : Stage true (publishing block) := by
  cases block with
  | none => exact .nil _
  | some task => exact .pushing (List.suffix_refl _)

/-- What the next instruction says about the ones behind it, in the three kinds of calls: a
start, a push, and a shutdown with its last flush. -/
theorem Stage.follows {flag : Bool} {instr : Instr} {rest : List Instr}
    (h : Stage flag (instr :: rest)) : Follows flag instr rest := by
  cases h with
  | starting hsuffix =>
      simp only [startThreads, List.suffix_cons_iff, List.cons.injEq, List.suffix_nil,
        reduceCtorEq, or_false] at hsuffix
      rcases hsuffix with ⟨rfl, rfl⟩ | ⟨rfl, rfl⟩ | ⟨rfl, rfl⟩ | ⟨rfl, rfl⟩
      all_goals constructor <;> simp
      intro w
      cases w <;> simp
  | @pushing task _ hsuffix =>
      simp only [publish, List.suffix_cons_iff, List.cons.injEq, List.suffix_nil,
        reduceCtorEq, or_false] at hsuffix
      rcases hsuffix with ⟨rfl, rfl⟩ | ⟨rfl, rfl⟩
      all_goals constructor <;> simp
  | @stopping flush _ hsuffix =>
      cases flush with
      | none =>
          simp only [shutdown, joinThreads, Option.elim, List.nil_append, List.suffix_cons_iff,
            List.cons.injEq, List.suffix_nil, reduceCtorEq, or_false] at hsuffix
          rcases hsuffix with ⟨rfl, rfl⟩ | ⟨rfl, rfl⟩ | ⟨rfl, rfl⟩ | ⟨rfl, rfl⟩ | ⟨rfl, rfl⟩
          all_goals constructor <;> simp
      | some task =>
          simp only [shutdown, publish, joinThreads, Option.elim, List.cons_append,
            List.nil_append, List.suffix_cons_iff, List.cons.injEq, List.suffix_nil, reduceCtorEq,
            or_false] at hsuffix
          rcases hsuffix with ⟨rfl, rfl⟩ | ⟨rfl, rfl⟩ | ⟨rfl, rfl⟩ | ⟨rfl, rfl⟩ | ⟨rfl, rfl⟩ |
            ⟨rfl, rfl⟩ | ⟨rfl, rfl⟩
          all_goals constructor <;> simp
          intro w
          cases w <;> simp

/-! ### The workers of a period

Unlike in the library, `should_terminate` is reset when a period begins.  So the workers
of every period stay in their loops until its shutdown has set the flag, by which time
the last block has been pushed. -/

/-- A thread object is joinable from its start to its join; the flag `should_terminate` is down
while blocks may still come; and a worker has left its loop only when the flag was up.  The
instructions that are left decide which of the three applies, so the place of the call
(`stage`) belongs to the invariant. -/
structure Staffed (s : Process) : Prop where
  stage : Stage s.library.threadsInitialized s.program
  joinable : ∀ w, s.shared.threads w ≠ none ↔
    s.library.threadsInitialized = true ∧ .start w ∉ s.program ∨ .join w ∈ s.program
  running : (∃ task, .push task ∈ s.program) ∨
    s.library.threadsInitialized = true ∧ .terminate false ∉ s.program →
      s.shared.shouldTerminate = false
  exited : ∀ w, s.shared.threads w = some .exited → s.shared.shouldTerminate = true

/-- In front of a push every worker is in its loop, because the flag is down there and a worker
leaves its loop only when it is up. -/
theorem Staffed.attended (h : Staffed s) {task : OutputTask} {rest : List Instr}
    (hprogram : s.program = .push task :: rest) : s.shared.Attended := by
  have hfollows : Follows s.library.threadsInitialized (.push task) rest :=
    Stage.follows (hprogram ▸ h.stage)
  have hloop (w : Worker) : inLoop (s.shared.threads w) = true := by
    have hsome : s.shared.threads w ≠ none := by
      rw [h.joinable w, hprogram]
      obtain ⟨hstart, hjoin⟩ := (hfollows.push task rfl).2 w
      cases hflag : s.library.threadsInitialized with
      | true => exact Or.inl ⟨rfl, by simpa using hstart⟩
      | false => exact Or.inr (List.mem_cons_of_mem _ (hjoin hflag))
    have hterminate := h.running (Or.inl ⟨task, hprogram ▸ List.mem_cons_self ..⟩)
    cases hc : s.shared.threads w with
    | none => exact absurd hc hsome
    | some c =>
        cases c with
        | exited =>
            rw [h.exited w hc] at hterminate
            cases hterminate
        | ready | window | blocked | working _ => rfl
  exact ⟨hloop .log, Or.inl (hloop .file1)⟩

/-- Outside a period, with no call in progress, no thread object is joinable. -/
theorem Staffed.free (h : Staffed s) (hflag : s.library.threadsInitialized = false)
    (hprogram : s.program = []) (w : Worker) : s.shared.threads w = none := by
  by_contra hsome
  have hjoinable := (h.joinable w).mp hsome
  rw [hflag, hprogram] at hjoinable
  simp at hjoinable

/-- At the start there are no workers. -/
theorem staffed_initial : Staffed .initial where
  stage := .nil _
  joinable w := by simp [Process.initial, BulkServer.initial]
  running _ := rfl
  exited w hw := by cases hw

/-- A call is made. -/
theorem Staffed.call {library : Library} {effect : Effect} (h : Staffed s)
    (hprogram : s.program = []) (program : List Instr)
    (hinstr : instructions s.library library effect = program)
    (hstage : Stage library.threadsInitialized program)
    (hjoinable : ∀ w, s.library.threadsInitialized = true ↔
      library.threadsInitialized = true ∧ .start w ∉ program ∨ .join w ∈ program)
    (hrunning : (∃ task, .push task ∈ program) ∨
      library.threadsInitialized = true ∧ .terminate false ∉ program →
        s.library.threadsInitialized = true) :
    Staffed (s.after library effect) := by
  subst hinstr
  refine ⟨hstage, fun w => ?_, fun hrun => ?_, h.exited⟩
  · refine Iff.trans ?_ (hjoinable w)
    show s.shared.threads w ≠ none ↔ _
    rw [h.joinable w, hprogram]
    simp
  · refine h.running (Or.inr ⟨hrunning hrun, ?_⟩)
    rw [hprogram]
    exact List.not_mem_nil

/-- A call of the library begins: the workers it needs are started before anything is
pushed. -/
theorem Move.staffed {e : Event} {effect : Effect} {library : Library}
    (h : Move s.library e effect library) (hs : s.library.Consistent) (hprogram : s.program = [])
    (hinv : Staffed s) : Staffed (s.after library effect) := by
  have hquiet (hflag : library.threadsInitialized = s.library.threadsInitialized)
      (hinstr : instructions s.library library effect = []) :
      Staffed (s.after library effect) := by
    refine hinv.call hprogram [] hinstr (.nil _) (fun w => ?_) fun hrun => ?_
    · simp [hflag]
    · simpa [hflag] using hrun
  cases h with
  | @connects bulk address _ _ _ =>
      cases hflag : s.library.threadsInitialized with
      | true => exact hquiet hflag.symm (by simp [instructions, hflag])
      | false =>
          refine hinv.call hprogram (.terminate false :: startThreads) ?_
            (.starting (List.suffix_refl _)) (fun w => ?_) ?_
          · simp [instructions, hflag]
          · cases w <;> simp [hflag, startThreads]
          · simp [startThreads]
  | ignores _ _ | ignoresNull _ | accepts _ _ | returns _ => exact hquiet rfl rfl
  | misses _ _ => exact hquiet rfl (by simp [instructions])
  | leaves _ _ _ => exact hquiet rfl (by simp [instructions])
  | @processes now handle command lines m context r _ hmanager _ _ =>
      have hflag : s.library.threadsInitialized = true := by
        rw [hs.initialized, hmanager, Option.isSome_some]
      refine hinv.call hprogram (publishing (r.output.map Prod.snd)) rfl
        (by rw [hflag]; exact .publishing _) (fun w => ?_) (fun _ => hflag)
      cases r.output <;> simp [publishing, publish, hflag]
  | @stops handle m context output _ _ _ hmanager _ =>
      have hflag : s.library.threadsInitialized = true := by
        rw [hs.initialized, hmanager, Option.isSome_some]
      refine hinv.call hprogram (shutdown (output.map Prod.snd)) ?_
        (.stopping (List.suffix_refl _)) (fun w => ?_) (fun _ => hflag)
      · simp [instructions, hflag]
      · cases w <;> simp [hflag, shutdown, joinThreads]

/-- One instruction of a call.  The place of the call goes on by one, and what the invariant
says of the next place is what the instruction has just done. -/
theorem InstrMove.staffed {instr : Instr} {rest : List Instr} {output : Output} {shared : Shared}
    (h : InstrMove s.shared instr output shared) (hprogram : s.program = instr :: rest)
    (hinv : Staffed s) : Staffed { s with shared := shared, program := rest } := by
  have hfollows : Follows s.library.threadsInitialized instr rest :=
    Stage.follows (hprogram ▸ hinv.stage)
  -- what the invariant says about the thread objects, in terms of the rest of the program
  have hsame (w : Worker) (hstart : instr ≠ .start w) (hjoin : instr ≠ .join w) :
      s.shared.threads w ≠ none ↔
        s.library.threadsInitialized = true ∧ .start w ∉ rest ∨ .join w ∈ rest := by
    rw [hinv.joinable w, hprogram, List.mem_cons, List.mem_cons]
    simp [hstart.symm, hjoin.symm]
  have hrun (hne : ∀ value, instr ≠ .terminate value) (hrun : (∃ task, .push task ∈ rest) ∨
      s.library.threadsInitialized = true ∧ .terminate false ∉ rest) :
      s.shared.shouldTerminate = false := by
    refine hinv.running ?_
    rw [hprogram]
    rcases hrun with ⟨task, htask⟩ | ⟨hflag, hreset⟩
    · exact Or.inl ⟨task, List.mem_cons_of_mem _ htask⟩
    · exact Or.inr ⟨hflag, by simp [hreset, (hne false).symm]⟩
  have hstage : Stage s.library.threadsInitialized rest := Stage.tail (hprogram ▸ hinv.stage)
  have hexited {c : Option Control} {w : Worker} (hc : c ≠ some .exited) (u : Worker)
      (hu : Function.update s.shared.threads w c u = some .exited) :
      s.shared.shouldTerminate = true := by
    by_cases huw : u = w
    · rw [huw, Function.update_self] at hu
      exact absurd hu hc
    · exact hinv.exited u (by rwa [Function.update_of_ne huw] at hu)
  cases h with
  | pushes _ =>
      exact ⟨hstage, fun w => hsame w (by simp) (by simp), hrun (by simp), hinv.exited⟩
  | notifies =>
      refine ⟨hstage, fun w => ?_, hrun (by simp), fun w hw => hinv.exited w ?_⟩
      · have hsome : (queueCv.notifyAll s.shared.threads w).isSome =
            (s.shared.threads w).isSome :=
          queueCv.apply_notifyAll (fun c hc => by rw [of_decide_eq_true hc]; rfl) w
        rw [← Option.isSome_iff_ne_none, hsome, Option.isSome_iff_ne_none]
        exact hsame w (by simp) (by simp)
      · have hexited : decide (queueCv.notifyAll s.shared.threads w = some .exited) =
            decide (s.shared.threads w = some .exited) :=
          queueCv.apply_notifyAll (f := fun c => decide (c = some .exited))
            (fun c hc => by rw [of_decide_eq_true hc]; rfl) w
        exact of_decide_eq_true (hexited.symm.trans (decide_eq_true hw))
  | @terminates value =>
      refine ⟨hstage, fun w => hsame w (by simp) (by simp), fun hlater => ?_, fun w hw => ?_⟩
      · cases value with
        | false => rfl
        | true =>
            obtain ⟨hflag, hpush⟩ := hfollows.terminate rfl
            rcases hlater with ⟨task, htask⟩ | ⟨hon, -⟩
            · exact absurd htask (hpush task)
            · rw [hflag] at hon
              cases hon
      · cases value with
        | true => rfl
        | false =>
            -- the flag is reset before the first thread starts
            obtain ⟨hflag, hrest⟩ := hfollows.reset rfl
            have hnone := (hsame w (by simp) (by simp)).mp (by rw [hw]; simp)
            rcases hnone with ⟨-, hstart⟩ | hjoin
            · exact absurd (hrest w).1 hstart
            · exact absurd hjoin (hrest w).2
  | @starts w hnone =>
      obtain ⟨hflag, hstart⟩ := hfollows.start w rfl
      refine ⟨hstage, fun u => ?_, hrun (by simp), hexited (by simp)⟩
      by_cases huw : u = w
      · subst huw
        simp [hflag, hstart]
      · simpa [Function.update_of_ne huw] using hsame u (by simpa using Ne.symm huw) (by simp)
  | @skips w hnone =>
      have hjoin : .join w ∈ s.program := hprogram ▸ List.mem_cons_self ..
      exact absurd hnone ((hinv.joinable w).mpr (Or.inr hjoin))
  | @joins w _ =>
      obtain ⟨hflag, hjoin⟩ := hfollows.join w rfl
      refine ⟨hstage, fun u => ?_, hrun (by simp), hexited (by simp)⟩
      by_cases huw : u = w
      · subst huw
        simp [hflag, hjoin]
      · have hrest := hsame u (by simp) (by simpa using Ne.symm huw)
        simpa [Function.update_of_ne huw] using hrest

/-- One step of a worker, which leaves its loop only if the flag is up; it never changes the
flag or the instructions. -/
theorem WorkerMove.staffed {w : Worker} {output : Output} {shared : Shared}
    (h : WorkerMove w s.shared output shared) (hinv : Staffed s) :
    Staffed { s with shared := shared } := by
  have hmoves {c : Control} {shared : Shared} (hsome : s.shared.threads w ≠ none)
      (hthreads : shared.threads = Function.update s.shared.threads w (some c))
      (hterminate : shared.shouldTerminate = s.shared.shouldTerminate)
      (hexit : c = .exited → s.shared.shouldTerminate = true) :
      Staffed { s with shared := shared } := by
    refine ⟨hinv.stage, fun u => ?_, fun hrun => hterminate.trans (hinv.running hrun),
      fun u hu => hterminate.trans ?_⟩
    · refine Iff.trans ?_ (hinv.joinable u)
      by_cases huw : u = w
      · subst huw
        simpa [hthreads] using hsome
      · simp [hthreads, Function.update_of_ne huw]
    · by_cases huw : u = w
      · subst huw
        exact hexit (by simpa [hthreads] using hu)
      · exact hinv.exited u (by simpa [hthreads, Function.update_of_ne huw] using hu)
  cases h with
  | waits hready _ _ _ => exact hmoves (by simp [hready]) rfl rfl (by simp)
  | exits hready _ _ hterminate => exact hmoves (by simp [hready]) rfl rfl (fun _ => hterminate)
  | @takes task rest hready _ _ =>
      exact hmoves (c := .working task) (by simp [hready]) (by simp) (by simp) (by simp)
  | blocks hwindow => exact hmoves (by simp [hwindow]) rfl rfl (by simp)
  | wakes hblocked => exact hmoves (by simp [hblocked]) rfl rfl (by simp)
  | skips hworking _ => exact hmoves (by simp [hworking]) rfl rfl (by simp)
  | prints hworking _ _ => exact hmoves (by simp [hworking]) rfl rfl (by simp)
  | writes hworking _ _ _ => exact hmoves (by simp [hworking]) rfl rfl (by simp)

/-- One step of the process. -/
theorem ProcessMove.staffed (h : ProcessMove s e effect s') (hs : s.library.Consistent)
    (hinv : Staffed s) : Staffed s' := by
  cases h with
  | calls hprogram hmove => exact hmove.staffed hs hprogram hinv
  | advances hprogram hmove => exact InstrMove.staffed hmove hprogram hinv
  | works _ hmove | wakes _ hmove => exact WorkerMove.staffed hmove hinv

/-! ### No block is slept over

The mutex is held over the look at the predicate and the going to sleep, and a push
needs the mutex.  What comes after the push is the notification, and until then the
invariant remembers that it is still to come. -/

/-- A worker that is about to sleep has an empty queue, and if blocks came since, the
notification is the next instruction.  The first clause leads to the second: between the
predicate and the release of the mutex nothing can be pushed. -/
structure Heard (s : Process) : Prop where
  window : ∀ w, s.shared.threads w = some .window → s.shared.get w.queue = []
  blocked : ∀ w, s.shared.threads w = some .blocked → s.shared.get w.queue ≠ [] →
    ∃ rest, s.program = .notifyAll :: rest

/-- The queues stay, no worker falls asleep, and the program was not at a notification. -/
theorem Heard.keep (h : Heard s) (hget : ∀ q, s'.shared.get q = s.shared.get q)
    (hwindow : ∀ w, s'.shared.threads w = some .window → s.shared.threads w = some .window)
    (hblocked : ∀ w, s'.shared.threads w = some .blocked → s.shared.threads w = some .blocked)
    (hprogram : ∀ rest, s.program ≠ .notifyAll :: rest) : Heard s' where
  window w hw := (hget w.queue).trans (h.window w (hwindow w hw))
  blocked w hw hne := by
    obtain ⟨rest, hrest⟩ := h.blocked w (hblocked w hw) (hget w.queue ▸ hne)
    exact absurd hrest (hprogram rest)

/-- An instruction that pushes is followed by the notification, so a worker that sleeps over
the new block is about to be woken; the notification itself leaves nobody asleep. -/
theorem InstrMove.heard {instr : Instr} {rest : List Instr} {output : Output} {shared : Shared}
    (h : InstrMove s.shared instr output shared) (hprogram : s.program = instr :: rest)
    (hstage : Stage s.library.threadsInitialized s.program) (hinv : Heard s) :
    Heard { s with shared := shared, program := rest } := by
  have hother (hne : instr ≠ .notifyAll) (tail : List Instr) : s.program ≠ .notifyAll :: tail := by
    rw [hprogram]
    exact fun hsame => hne (List.cons.inj hsame).1
  have hslot {w : Worker} {c : Option Control} (hwindow : c ≠ some .window)
      (hblocked : c ≠ some .blocked) (u : Worker) (c' : Control)
      (hc' : c' = .window ∨ c' = .blocked)
      (hu : Function.update s.shared.threads w c u = some c') :
      s.shared.threads u = some c' := by
    by_cases huw : u = w
    · subst huw
      rw [Function.update_self] at hu
      rcases hc' with rfl | rfl
      · exact absurd hu hwindow
      · exact absurd hu hblocked
    · rwa [Function.update_of_ne huw] at hu
  cases h with
  | @pushes task hfree =>
      -- nobody is between its predicate and its block, and the notification comes next
      have hfollows : Follows s.library.threadsInitialized (.push task) rest :=
        Stage.follows (hprogram ▸ hstage)
      refine ⟨fun w hw => absurd hw (hfree w), fun w _ _ => ?_⟩
      exact (hfollows.push task rfl).1
  | notifies =>
      refine ⟨fun w hw => ?_, fun w hw => ?_⟩
      · have hframe : decide (queueCv.notifyAll s.shared.threads w = some .window) =
            decide (s.shared.threads w = some .window) :=
          queueCv.apply_notifyAll (f := fun c => decide (c = some .window))
            (fun c hc => by rw [of_decide_eq_true hc]; rfl) w
        have hbefore := hinv.window w (of_decide_eq_true (hframe.symm.trans (decide_eq_true hw)))
        cases w <;> exact hbefore
      · have hawake : queueCv.asleep (queueCv.notifyAll s.shared.threads w) = false :=
          queueCv.asleep_notifyAll w
        rw [show queueCv.notifyAll s.shared.threads w = some .blocked from hw] at hawake
        cases hawake
  | terminates =>
      exact hinv.keep (fun q => by cases q <;> rfl) (fun _ hw => hw) (fun _ hw => hw)
        (hother (by simp))
  | starts _ =>
      exact hinv.keep (fun q => by cases q <;> rfl)
        (fun w => hslot (by simp) (by simp) w .window (Or.inl rfl))
        (fun w => hslot (by simp) (by simp) w .blocked (Or.inr rfl)) (hother (by simp))
  | skips _ =>
      exact hinv.keep (fun _ => rfl) (fun _ hw => hw) (fun _ hw => hw) (hother (by simp))
  | joins _ =>
      exact hinv.keep (fun q => by cases q <;> rfl)
        (fun w => hslot (by simp) (by simp) w .window (Or.inl rfl))
        (fun w => hslot (by simp) (by simp) w .blocked (Or.inr rfl)) (hother (by simp))

/-- A worker goes to sleep with the mutex in hand, so that no push comes between its look at
the queue and its sleep. -/
theorem WorkerMove.heard {w : Worker} {output : Output} {shared : Shared}
    (h : WorkerMove w s.shared output shared) (hinv : Heard s) :
    Heard { s with shared := shared } := by
  have hidle {shared : Shared} {c : Control} (hget : ∀ q, shared.get q = s.shared.get q)
      (hthreads : shared.threads = Function.update s.shared.threads w (some c))
      (hc : c = .window ∨ c = .blocked → s.shared.get w.queue = []) :
      Heard { s with shared := shared } := by
    refine ⟨fun u hu => ?_, fun u hu hne => ?_⟩
    · refine (hget u.queue).trans ?_
      by_cases huw : u = w
      · subst huw
        exact hc (Or.inl (by simpa [hthreads] using hu))
      · exact hinv.window u (by simpa [hthreads, Function.update_of_ne huw] using hu)
    · have hne' : s.shared.get u.queue ≠ [] := fun hnil => hne ((hget u.queue).trans hnil)
      by_cases huw : u = w
      · subst huw
        exact absurd (hc (Or.inr (by simpa [hthreads] using hu))) hne'
      · exact hinv.blocked u (by simpa [hthreads, Function.update_of_ne huw] using hu) hne'
  cases h with
  | waits _ _ hqueue _ => exact hidle (fun _ => get_goTo ..) rfl (fun _ => hqueue)
  | exits _ _ _ _ => exact hidle (fun _ => get_goTo ..) rfl (by simp)
  | blocks hwindow => exact hidle (fun _ => get_goTo ..) rfl (fun _ => hinv.window w hwindow)
  | wakes _ => exact hidle (fun _ => get_goTo ..) rfl (by simp)
  | skips _ _ => exact hidle (fun _ => get_goTo ..) rfl (by simp)
  | prints _ _ _ => exact hidle (fun _ => get_goTo ..) rfl (by simp)
  | writes _ _ _ _ => exact hidle (fun q => by cases q <;> rfl) rfl (by simp)
  | @takes task rest hready hfree hqueue =>
      refine ⟨fun u hu => ?_, fun u hu hne => ?_⟩
      · by_cases huw : u = w
        · subst huw
          simp at hu
        · exact absurd (by simpa [Function.update_of_ne huw] using hu) (hfree u)
      · by_cases huw : u = w
        · subst huw
          simp at hu
        · -- what is left in the queue was there before
          refine hinv.blocked u (by simpa [Function.update_of_ne huw] using hu) ?_
          by_cases hq : u.queue = w.queue
          · rw [hq, hqueue]
            exact List.cons_ne_nil _ _
          · simpa [get_set_of_ne _ _ _ hq] using hne

/-- One step of the process keeps every block from being slept over. -/
theorem ProcessMove.heard (h : ProcessMove s e effect s')
    (hstage : Stage s.library.threadsInitialized s.program) (hinv : Heard s) : Heard s' := by
  cases h with
  | calls hprogram _ =>
      refine hinv.keep (fun q => by cases q <;> rfl) (fun _ hw => hw) (fun _ hw => hw)
        fun rest => ?_
      rw [hprogram]
      exact (List.cons_ne_nil _ _).symm
  | advances hprogram hmove => exact InstrMove.heard hmove hprogram hstage hinv
  | works _ hmove | wakes _ hmove => exact WorkerMove.heard hmove hinv

/-- The steps that the process takes without a further call. -/
def ProcessEvent.continues : ProcessEvent → Bool
  | .advance | .worker _ _ => true
  | .call _ | .spurious _ => false

/-- **No block waits for a call.**  As long as a block is in a queue or in a worker's
hand, the server's thread or a worker can take a step. -/
theorem progress (hdrained : Drained s.shared) (hheard : Heard s) :
    (∃ e, e.continues = true ∧ (s.step e).isSome = true) ∨
      (∀ q, s.shared.get q = []) ∧ ∀ w, inHand (s.shared.threads w) = [] := by
  have hworks {w : Worker} (hstep : (workerStep w true s.shared).isSome = true) :
      ∃ e, e.continues = true ∧ (s.step e).isSome = true :=
    ⟨.worker w true, rfl, by simpa [Process.step] using hstep⟩
  by_cases hwindow : ∃ w, s.shared.threads w = some .window
  · obtain ⟨w, hw⟩ := hwindow
    exact Or.inl (hworks (w := w) (by simp [workerStep, hw]))
  · by_cases hworking : ∃ w task, s.shared.threads w = some (.working task)
    · obtain ⟨w, task, hw⟩ := hworking
      exact Or.inl (hworks (w := w) (by simp [workerStep, hw]))
    · have hfree : s.shared.MutexFree := fun w hw => hwindow ⟨w, hw⟩
      have hhands (w : Worker) : inHand (s.shared.threads w) = [] := by
        cases hc : s.shared.threads w with
        | none => rfl
        | some c =>
            cases c with
            | working task => exact absurd ⟨w, task, hc⟩ hworking
            | ready | window | blocked | exited => rfl
      by_cases hqueues : ∀ q, s.shared.get q = []
      · exact Or.inr ⟨hqueues, hhands⟩
      · obtain ⟨q, hq⟩ := not_forall.mp hqueues
        -- somebody attends the queue: either ready, or asleep with a notification due
        obtain ⟨w, hwq, hloop⟩ : ∃ w, w.queue = q ∧ inLoop (s.shared.threads w) = true := by
          by_contra hnobody
          refine hq (hdrained q fun w hw => ?_)
          by_contra hin
          exact hnobody ⟨w, hw, by simpa using hin⟩
        left
        cases hc : s.shared.threads w with
        | none =>
            rw [hc] at hloop
            cases hloop
        | some c =>
            cases c with
            | exited =>
                rw [hc] at hloop
                cases hloop
            | window => exact absurd ⟨w, hc⟩ hwindow
            | working task => exact absurd ⟨w, task, hc⟩ hworking
            | ready => exact hworks (w := w) (by simp [workerStep, hc, hfree])
            | blocked =>
                obtain ⟨rest, hrest⟩ := hheard.blocked w hc (hwq ▸ hq)
                exact ⟨.advance, rfl, by simp [Process.step, hrest, Instr.exec]⟩

end BulkServer
