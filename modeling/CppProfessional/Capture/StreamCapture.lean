import CppProfessional.Transition.Machine
import Mathlib.Data.Fintype.Basic

/-!
# Capturing a stream

`StreamCapture` puts a pipe in the place of a stream's file and has a thread read it, until
`End` puts the file back.  The machine below has the descriptors of the process, the buffer
of the stream, the pipe, the reader thread and the thread that makes the calls; any thread
may write to the stream at any time.

* `State.step` — one system call, or a part of the buffer that is written;
* `machine` — the process;
* `Move`, `step_move` — what a step does.

A system call may fail whenever it is made; the event of its step says whether it does.  The
code then goes to `cleanup`, which the constructor and `End` share, and which returns to the
one of them that has called it.
-/

namespace Capture

open Transition

/-- What a descriptor refers to: the file of the stream, the ends of the pipe, or something
else. -/
inductive File
  | original
  | readEnd
  | writeEnd
  | other
  deriving DecidableEq, Repr

/-- The descriptors when the program starts.  `target` is `target_fd_`, and `capacity` is the
size of a pipe. -/
structure Process where
  limit : ℕ
  target : Fin limit
  capacity : ℕ
  fds : Fin limit → Option File
  fds_target : fds target = some .original
  fds_ne_readEnd : ∀ fd, fds fd ≠ some .readEnd
  fds_ne_writeEnd : ∀ fd, fds fd ≠ some .writeEnd

/-- What `cleanup` returns to: `End`, after its `fflush`, or the constructor; `erCode` is
`er_code`, as far as it tells whether a call has failed. -/
structure Cleanup where
  ending : Bool
  flushFailed : Bool
  erCode : Bool
  deriving DecidableEq, Repr

/-- The call that the thread is in. -/
inductive Pc
  | outside
  | flushing
  | duplicating
  | redirecting
  | starting
  | capturing
  | ending
  | restoring (c : Cleanup)
  | closingOld (c : Cleanup)
  | closingWrite (c : Cleanup)
  | joining (c : Cleanup)
  | closingRead (c : Cleanup)
  | returned (text : List UInt8)
  | threw (what : String)
  | unconstructed
  deriving DecidableEq, Repr

/-- `reader_thread_` -/
inductive Reader
  | absent
  | running
  | finished
  deriving DecidableEq, Repr

/-- The process, with the members of the object; `none` is `-1`. -/
structure State (limit : ℕ) where
  fds : Fin limit → Option File
  buffer : List UInt8
  original : List UInt8
  pipe : List UInt8
  fdOld : Option (Fin limit)
  pipeR : Option (Fin limit)
  pipeW : Option (Fin limit)
  capturedData : List UInt8
  reader : Reader
  pc : Pc

/-- What `read` returns. -/
inductive Read
  | bytes (n : ℕ)
  | nothing
  | interrupted
  | error
  deriving DecidableEq, Repr

/-- A write to the stream, bytes that leave its buffer, or the return of a call. -/
inductive Event (limit : ℕ)
  | write (bytes : List UInt8)
  | emit (n : ℕ)
  | pipe2 (ends : Option (Fin limit × Fin limit))
  | fflush (ok : Bool)
  | fcntl (fd : Option (Fin limit))
  | dup2 (ok : Bool)
  | thread (ok : Bool)
  | callEnd
  | close (ok : Bool)
  | join
  | read (result : Read)
  deriving DecidableEq

/-- What is written: in all, while the object exists and no call on it is made, and during
such a call. -/
structure Effect where
  written : List UInt8 := []
  inside : List UInt8 := []
  meanwhile : List UInt8 := []
  deriving DecidableEq, Repr

/-- A write of these bytes. -/
def Pc.wrote (bytes : List UInt8) : Pc → Effect
  | .capturing => { written := bytes, inside := bytes }
  | .outside | .returned _ | .threw _ | .unconstructed => { written := bytes }
  | _ => { written := bytes, meanwhile := bytes }

namespace State

variable {limit : ℕ} (s : State limit)

/-- The beginning of `cleanup`. -/
def cleanup (c : Cleanup) : State limit :=
  { s with pc := if s.fdOld = none then .closingWrite c else .restoring c }

/-- The descriptor is closed, whatever `close` returns. -/
def closed (fd : Option (Fin limit)) : Fin limit → Option File :=
  fd.elim s.fds fun fd => Function.update s.fds fd none

/-- What follows the `cleanup`. -/
def afterCleanup (c : Cleanup) : Pc :=
  if c.ending then
    if c.erCode then .threw "cleanup failed during End()"
    else if c.flushFailed then .threw "fflush failed during End()"
    else .returned s.capturedData
  else .unconstructed

/-- Bytes of the buffer are written to what the descriptor of the stream refers to. -/
def emit (p : Process) (s : State p.limit) (n : ℕ) : Option (State p.limit) :=
  if n ≤ s.buffer.length then
    match s.fds p.target with
    | some .original =>
        some { s with
          buffer := s.buffer.drop n
          original := s.original ++ s.buffer.take n }
    | some .writeEnd =>
        -- without a read end the program would get a signal
        if s.pipe.length + n ≤ p.capacity ∧ ∃ fd, s.fds fd = some .readEnd then
          some { s with buffer := s.buffer.drop n, pipe := s.pipe ++ s.buffer.take n }
        else none
    | _ => none
  else none

/-- `reader_worker` -/
def read : Read → Option (State limit)
  | .bytes n =>
      if s.reader = .running ∧ 0 < n ∧ n ≤ 4096 ∧ n ≤ s.pipe.length then
        some { s with
          pipe := s.pipe.drop n
          capturedData := s.capturedData ++ s.pipe.take n }
      else none
  | .nothing =>
      if s.reader = .running ∧ s.pipe = [] ∧ ∀ fd, s.fds fd ≠ some .writeEnd then
        some { s with reader := .finished }
      else none
  | .interrupted => if s.reader = .running then some s else none
  | .error => if s.reader = .running then some { s with reader := .finished } else none

/-- One step. -/
def step (p : Process) (s : State p.limit) : Event p.limit → Option (Effect × State p.limit)
  | .write bytes =>
      -- `fflush` holds the lock of the stream
      if s.pc = .flushing ∨ s.pc = .ending then none
      else some (s.pc.wrote bytes, { s with buffer := s.buffer ++ bytes })
  | .emit n => (s.emit p n).map fun s => ({}, s)
  | .pipe2 ends =>
      match s.pc, ends with
      | .outside, some (r, w) =>
          if s.fds r = none ∧ s.fds w = none ∧ r ≠ w then
            some ({}, { s with
              fds := Function.update (Function.update s.fds r (some .readEnd)) w (some .writeEnd)
              pipeR := some r
              pipeW := some w
              pc := .flushing })
          else none
      | .outside, none => some ({}, { s with pc := .unconstructed })
      | _, _ => none
  | .fflush ok =>
      match s.pc with
      | .flushing =>
          if ok = false then some ({}, s.cleanup ⟨false, false, false⟩)
          else if s.buffer = [] then some ({}, { s with pc := .duplicating })
          else none
      | .ending =>
          -- what has not been written stays in the buffer
          if ok = false then some ({}, s.cleanup ⟨true, true, false⟩)
          else if s.buffer = [] then some ({}, s.cleanup ⟨true, false, false⟩)
          else none
      | _ => none
  | .fcntl fd =>
      match s.pc, fd with
      | .duplicating, some fd =>
          if s.fds fd = none then
            some ({}, { s with
              fds := Function.update s.fds fd (s.fds p.target)
              fdOld := some fd
              pc := .redirecting })
          else none
      | .duplicating, none => some ({}, s.cleanup ⟨false, false, false⟩)
      | _, _ => none
  | .dup2 ok =>
      match s.pc with
      | .redirecting =>
          if ok = false then some ({}, s.cleanup ⟨false, false, false⟩)
          else
            some ({}, { s with
              fds := Function.update s.fds p.target (s.pipeW.bind s.fds)
              pc := .starting })
      | .restoring c =>
          if ok = false then some ({}, { s with pc := .closingOld { c with erCode := true } })
          else
            some ({}, { s with
              fds := Function.update s.fds p.target (s.fdOld.bind s.fds)
              pc := .closingOld c })
      | _ => none
  | .thread ok =>
      match s.pc with
      | .starting =>
          if ok = false then some ({}, s.cleanup ⟨false, false, false⟩)
          else some ({}, { s with reader := .running, pc := .capturing })
      | _ => none
  | .callEnd =>
      match s.pc with
      | .capturing => some ({}, { s with pc := .ending })
      | _ => none
  | .close ok =>
      match s.pc with
      | .closingOld c =>
          some ({}, { s with
            fds := s.closed s.fdOld
            fdOld := none
            pc := .closingWrite { c with erCode := c.erCode || !ok } })
      | .closingWrite c =>
          let c := { c with erCode := c.erCode || !ok }
          some ({}, { s with
            fds := s.closed s.pipeW
            pipeW := none
            -- `reader_thread_.joinable()`
            pc := if s.reader = .absent then .closingRead c else .joining c })
      | .closingRead c =>
          some ({}, { s with
            fds := s.closed s.pipeR
            pipeR := none
            pc := s.afterCleanup { c with erCode := c.erCode || !ok } })
      | _ => none
  | .join =>
      match s.pc with
      | .joining c =>
          if s.reader = .finished then some ({}, { s with pc := .closingRead c }) else none
      | _ => none
  | .read result => (s.read result).map fun s => ({}, s)

end State

/-- Before the capture. -/
def initial (p : Process) : State p.limit where
  fds := p.fds
  buffer := []
  original := []
  pipe := []
  fdOld := none
  pipeR := none
  pipeW := none
  capturedData := []
  reader := .absent
  pc := .outside

/-- The process with its threads. -/
def machine (p : Process) : Machine (State p.limit) (Event p.limit) Effect where
  init s := s = initial p
  step := State.step p

/-! ### What a step does

Between two calls other threads may write, bytes may leave the buffer, and the reader
may read.  The moves say for each of these what it changes, and for each call what its
success and its failure do. -/

section Moves

variable {p : Process} {s s' : State p.limit} {e : Event p.limit} {effect : Effect}

variable (s) in
/-- The calls after which `cleanup` begins. -/
inductive Begins : Event p.limit → Cleanup → Prop
  | noFlush : s.pc = .flushing → Begins (.fflush false) ⟨false, false, false⟩
  | noDuplicate : s.pc = .duplicating → Begins (.fcntl none) ⟨false, false, false⟩
  | noRedirect : s.pc = .redirecting → Begins (.dup2 false) ⟨false, false, false⟩
  | noThread : s.pc = .starting → Begins (.thread false) ⟨false, false, false⟩
  | ended : s.pc = .ending → s.buffer = [] → Begins (.fflush true) ⟨true, false, false⟩
  | noFlushAtEnd : s.pc = .ending → Begins (.fflush false) ⟨true, true, false⟩

variable (p s) in
/-- The steps. -/
inductive Move : Event p.limit → Effect → State p.limit → Prop
  | write {bytes : List UInt8} : s.pc ≠ .flushing → s.pc ≠ .ending →
      Move (.write bytes) (s.pc.wrote bytes) { s with buffer := s.buffer ++ bytes }
  | emitOriginal {n : ℕ} : s.fds p.target = some .original →
      Move (.emit n) {}
        { s with buffer := s.buffer.drop n, original := s.original ++ s.buffer.take n }
  | emitPipe {n : ℕ} : s.fds p.target = some .writeEnd →
      Move (.emit n) {} { s with buffer := s.buffer.drop n, pipe := s.pipe ++ s.buffer.take n }
  | piped {r w : Fin p.limit} : s.pc = .outside → s.fds r = none → s.fds w = none → r ≠ w →
      Move (.pipe2 (some (r, w))) {} { s with
        fds := Function.update (Function.update s.fds r (some .readEnd)) w (some .writeEnd)
        pipeR := some r
        pipeW := some w
        pc := .flushing }
  | noPipe : s.pc = .outside → Move (.pipe2 none) {} { s with pc := .unconstructed }
  | flushed : s.pc = .flushing → s.buffer = [] →
      Move (.fflush true) {} { s with pc := .duplicating }
  | duplicated {fd : Fin p.limit} : s.pc = .duplicating → s.fds fd = none →
      Move (.fcntl (some fd)) {} { s with
        fds := Function.update s.fds fd (s.fds p.target), fdOld := some fd, pc := .redirecting }
  | redirected : s.pc = .redirecting →
      Move (.dup2 true) {} { s with
        fds := Function.update s.fds p.target (s.pipeW.bind s.fds), pc := .starting }
  | started : s.pc = .starting →
      Move (.thread true) {} { s with reader := .running, pc := .capturing }
  | called : s.pc = .capturing → Move .callEnd {} { s with pc := .ending }
  | cleanup {e : Event p.limit} {c : Cleanup} : Begins s e c → Move e {} (s.cleanup c)
  | restored {c : Cleanup} : s.pc = .restoring c →
      Move (.dup2 true) {} { s with
        fds := Function.update s.fds p.target (s.fdOld.bind s.fds), pc := .closingOld c }
  | notRestored {c : Cleanup} : s.pc = .restoring c →
      Move (.dup2 false) {} { s with pc := .closingOld { c with erCode := true } }
  | closedOld {c : Cleanup} {ok : Bool} : s.pc = .closingOld c →
      Move (.close ok) {} { s with
        fds := s.closed s.fdOld
        fdOld := none
        pc := .closingWrite { c with erCode := c.erCode || !ok } }
  | closedWrite {c : Cleanup} {ok : Bool} : s.pc = .closingWrite c → s.reader ≠ .absent →
      Move (.close ok) {} { s with
        fds := s.closed s.pipeW
        pipeW := none
        pc := .joining { c with erCode := c.erCode || !ok } }
  | closedWriteAlone {c : Cleanup} {ok : Bool} : s.pc = .closingWrite c → s.reader = .absent →
      Move (.close ok) {} { s with
        fds := s.closed s.pipeW
        pipeW := none
        pc := .closingRead { c with erCode := c.erCode || !ok } }
  | closedRead {c : Cleanup} {ok : Bool} : s.pc = .closingRead c →
      Move (.close ok) {} { s with
        fds := s.closed s.pipeR
        pipeR := none
        pc := s.afterCleanup { c with erCode := c.erCode || !ok } }
  | joined {c : Cleanup} : s.pc = .joining c → s.reader = .finished →
      Move .join {} { s with pc := .closingRead c }
  | readBytes {n : ℕ} : s.reader = .running →
      Move (.read (.bytes n)) {} { s with
        pipe := s.pipe.drop n, capturedData := s.capturedData ++ s.pipe.take n }
  | readNothing : s.reader = .running → s.pipe = [] → (∀ fd, s.fds fd ≠ some .writeEnd) →
      Move (.read .nothing) {} { s with reader := .finished }
  | readAgain : s.reader = .running → Move (.read .interrupted) {} s
  | readError : s.reader = .running → Move (.read .error) {} { s with reader := .finished }

/-- A step is one of the moves: for each place of the thread that makes the calls the success
and the failure of its next call, and the steps of the reader and of the other writers. -/
theorem step_move (h : (machine p).step s e = some (effect, s')) : Move p s e effect s' := by
  cases e with
  | write bytes =>
      simp only [machine, State.step] at h
      split at h
      · cases h
      · next hlock =>
        cases h
        rw [not_or] at hlock
        exact .write hlock.1 hlock.2
  | emit n =>
      simp only [machine, State.step, State.emit, Option.map_eq_some_iff] at h
      obtain ⟨s₁, hemit, heq⟩ := h
      cases heq
      split at hemit
      · split at hemit
        · next htarget =>
          cases hemit
          exact .emitOriginal htarget
        · next htarget =>
          split at hemit
          · cases hemit
            exact .emitPipe htarget
          · cases hemit
        · cases hemit
      · cases hemit
  | pipe2 ends =>
      simp only [machine, State.step] at h
      split at h
      · next hpc =>
        split at h
        · next hfree =>
          cases h
          exact .piped hpc hfree.1 hfree.2.1 hfree.2.2
        · cases h
      · next hpc =>
        cases h
        exact .noPipe hpc
      · cases h
  | fflush ok =>
      simp only [machine, State.step] at h
      split at h
      · next hpc =>
        cases ok with
        | false =>
            cases h
            exact .cleanup (.noFlush hpc)
        | true =>
            simp only [Bool.true_eq_false, if_false] at h
            split at h
            · next hbuffer =>
              cases h
              exact .flushed hpc hbuffer
            · cases h
      · next hpc =>
        cases ok with
        | false =>
            cases h
            exact .cleanup (.noFlushAtEnd hpc)
        | true =>
            simp only [Bool.true_eq_false, if_false] at h
            split at h
            · next hbuffer =>
              cases h
              exact .cleanup (.ended hpc hbuffer)
            · cases h
      · cases h
  | fcntl fd =>
      simp only [machine, State.step] at h
      split at h
      · next hpc =>
        split at h
        · next hfree =>
          cases h
          exact .duplicated hpc hfree
        · cases h
      · next hpc =>
        cases h
        exact .cleanup (.noDuplicate hpc)
      · cases h
  | dup2 ok =>
      simp only [machine, State.step] at h
      split at h
      · next hpc =>
        cases ok with
        | false =>
            cases h
            exact .cleanup (.noRedirect hpc)
        | true =>
            cases h
            exact .redirected hpc
      · next hpc =>
        cases ok with
        | false =>
            cases h
            exact .notRestored hpc
        | true =>
            cases h
            exact .restored hpc
      · cases h
  | thread ok =>
      simp only [machine, State.step] at h
      split at h
      · next hpc =>
        cases ok with
        | false =>
            cases h
            exact .cleanup (.noThread hpc)
        | true =>
            cases h
            exact .started hpc
      · cases h
  | callEnd =>
      simp only [machine, State.step] at h
      split at h
      · next hpc =>
        cases h
        exact .called hpc
      · cases h
  | close ok =>
      simp only [machine, State.step] at h
      split at h
      · next hpc =>
        cases h
        exact .closedOld hpc
      · next hpc =>
        cases h
        by_cases habsent : s.reader = .absent
        · rw [if_pos habsent]
          exact .closedWriteAlone hpc habsent
        · rw [if_neg habsent]
          exact .closedWrite hpc habsent
      · next hpc =>
        cases h
        exact .closedRead hpc
      · cases h
  | join =>
      simp only [machine, State.step] at h
      split at h
      · next hpc =>
        split at h
        · next hfinished =>
          cases h
          exact .joined hpc hfinished
        · cases h
      · cases h
  | read result =>
      simp only [machine, State.step, Option.map_eq_some_iff] at h
      obtain ⟨s₁, hread, heq⟩ := h
      cases heq
      cases result with
      | bytes n =>
          obtain ⟨hcond, heq⟩ := Option.ite_none_right_eq_some.mp hread
          cases heq
          exact .readBytes hcond.1
      | nothing =>
          obtain ⟨hcond, heq⟩ := Option.ite_none_right_eq_some.mp hread
          cases heq
          exact .readNothing hcond.1 hcond.2.1 hcond.2.2
      | interrupted =>
          obtain ⟨hcond, heq⟩ := Option.ite_none_right_eq_some.mp hread
          cases heq
          exact .readAgain hcond
      | error =>
          obtain ⟨hcond, heq⟩ := Option.ite_none_right_eq_some.mp hread
          cases heq
          exact .readError hcond

end Moves

end Capture
