import CppProfessional.Async.TaskManager
import CppProfessional.Transition.Machine
import Mathlib.Data.List.AList

/-!
# `connect`, `receive` and `disconnect`

The asynchronous library as a system of calling threads, the output workers and
the state they share.  A call of the library is a sequence of atomic steps:

* `connect` — the `exchange` of `init_threads`, the thread starts, the id, the
  insertion under `contexts_mutex()`;
* `receive` — the lookup under `contexts_mutex()`, then one `add_task` for each
  non-empty line, each followed by the push and the notification of the block it
  completes;
* `disconnect` — `finish` and `erase` under `contexts_mutex()`, the test of
  `contexts().empty()` without it, and `stop_threads`.

A calling thread is a position in its call, `Pc`, and the instructions on the
shared state that come before the rest of the call.  The mutex of the contexts is
held between two steps only by a thread in `erasing`.

A handle is an address, zero for `nullptr`; an allocation takes any address that
no live context has.  Calls with one handle come from one thread, as the library
demands, so a call is enabled only while no other call uses its handle.  Ids and
nesting levels are natural numbers; the `std::atomic<int>` and the `int` of the source are the
same for at most `2 ^ 31` calls of `connect`, and for fewer than `2 ^ 31` lines.
-/

namespace Async

open Transition Commands

universe u

/-- The address of a context; zero is `nullptr`. -/
abbrev Handle := ℕ

/-- `contexts()`. -/
abbrev Contexts := AList fun _ : Handle => TaskManager

/-- Where a thread is. -/
inductive Pc
  | idle
  | starting (bulk : ℕ)
  | inserting (bulk id : ℕ)
  | receiving (handle : Handle) (lines : List Line)
  | erasing (handle : Handle)
  | testing
  | stopping
  | joining
  deriving DecidableEq, Repr

/-- A position in a call, and the instructions that come before it goes on. -/
structure Caller where
  pc : Pc
  program : List Instr
  deriving DecidableEq, Repr

/-- Not in a call. -/
def Caller.idle : Caller := ⟨.idle, []⟩

/-- The library with its callers. -/
structure Library (ι : Type u) where
  shared : Shared
  contexts : Contexts
  nextId : ℕ
  callers : ι → Caller

/-- A call of the interface. -/
inductive Call
  | connect (bulk : ℕ)
  | receive (handle : Handle) (data : Line)
  | disconnect (handle : Handle)
  deriving DecidableEq, Repr

/-- An idle thread makes a call, a thread goes on, or a worker moves.  `now` is the
clock, `address` the address of an allocation, `opened` whether a file opens. -/
inductive Event (ι : Type u)
  | call (t : ι) (call : Call)
  | advance (t : ι) (now : ℤ) (address : Handle)
  | worker (w : Worker) (opened : Bool)
  | spurious (w : Worker)

/-- What a step lets the outside see: an output, or a call that returns. -/
inductive Effect
  | output (output : Output)
  | connected (handle : Handle) (id bulk : ℕ)
  | erased (handle : Handle)
  | disconnected
  deriving DecidableEq, Repr

/-- The handle a call is using. -/
def Pc.handle : Pc → Option Handle
  | .receiving handle _ | .erasing handle => some handle
  | .idle | .starting _ | .inserting _ _ | .testing | .stopping | .joining => none

/-- `contexts_mutex()` is held. -/
def Pc.holdsContexts : Pc → Bool
  | .erasing _ => true
  | .idle | .starting _ | .inserting _ _ | .receiving _ _ | .testing | .stopping
    | .joining => false

/-- The instructions that put out a block, if there is one. -/
def publishing (block : Option OutputTask) : List Instr := block.elim [] publish

/-- The `exchange` of `init_threads`, and what it decides. -/
def initThreads (s : Shared) : Shared × List Instr :=
  ({ s with threadsInitialized := true }, if s.threadsInitialized then [] else startThreads)

/-- The `exchange` of `stop_threads`, and what it decides. -/
def stopThreads (s : Shared) : Shared × List Instr :=
  ({ s with threadsInitialized := false }, if s.threadsInitialized then shutdown none else [])

section Step

variable {ι : Type u}

/-- Nobody holds `contexts_mutex()`. -/
def Library.ContextsFree (s : Library ι) : Prop := ∀ u, (s.callers u).pc.holdsContexts = false

/-- No call is using the handle. -/
def Library.Unused (s : Library ι) (handle : Handle) : Prop :=
  ∀ u, (s.callers u).pc.handle ≠ some handle

variable [Fintype ι]

instance Library.instDecidableContextsFree (s : Library ι) : Decidable s.ContextsFree :=
  inferInstanceAs (Decidable (∀ u, (s.callers u).pc.holdsContexts = false))

instance Library.instDecidableUnused (s : Library ι) (handle : Handle) :
    Decidable (s.Unused handle) :=
  inferInstanceAs (Decidable (∀ u, (s.callers u).pc.handle ≠ some handle))

variable [DecidableEq ι]

/-- Thread `t` goes to the given position, with the given instructions to run. -/
def Library.goTo (s : Library ι) (t : ι) (pc : Pc) (program : List Instr) : Library ι :=
  { s with callers := Function.update s.callers t ⟨pc, program⟩ }

/-- The first step of `connect`. -/
def connect (s : Library ι) (t : ι) (bulk : ℕ) : Option (Effect × Library ι) :=
  let (shared, program) := initThreads s.shared
  some (.output .silent, { s with shared := shared }.goTo t (.starting bulk) program)

/-- The first step of `receive`. -/
def receive (s : Library ι) (t : ι) (handle : Handle) (data : Line) :
    Option (Effect × Library ι) :=
  if handle = 0 then some (.output .silent, s)
  else if s.ContextsFree ∧ s.Unused handle then
    match s.contexts.lookup handle with
    | none => some (.output .silent, s)
    | some _ => some (.output .silent, s.goTo t (.receiving handle (getlines '\n' data)) [])
  else none

/-- The first step of `disconnect`. -/
def disconnect (s : Library ι) (t : ι) (handle : Handle) : Option (Effect × Library ι) :=
  if handle = 0 then some (.disconnected, s)
  else if s.ContextsFree ∧ s.Unused handle then
    match s.contexts.lookup handle with
    | none => some (.output .silent, s.goTo t .testing [])
    | some context =>
        let (block, context) := context.finish
        some (.output .silent,
          { s with contexts := s.contexts.insert handle context }.goTo t (.erasing handle)
            (publishing block))
  else none

/-- A call goes on once its instructions have run. -/
def proceed (s : Library ι) (t : ι) (now : ℤ) (address : Handle) :
    Pc → Option (Effect × Library ι)
  | .idle => none
  | .starting bulk =>
      some (.output .silent,
        { s with nextId := s.nextId + 1 }.goTo t (.inserting bulk s.nextId) [])
  | .inserting bulk id =>
      if s.ContextsFree ∧ address ≠ 0 ∧ address ∉ s.contexts then
        some (.connected address id bulk,
          { s with
            contexts := s.contexts.insert address (TaskManager.create bulk (toText id)) }.goTo
              t .idle [])
      else none
  | .receiving _ [] => some (.output .silent, s.goTo t .idle [])
  | .receiving handle (command :: lines) =>
      if command.isEmpty then some (.output .silent, s.goTo t (.receiving handle lines) [])
      else
        match s.contexts.lookup handle with
        | none => none
        | some context =>
            let (block, context) := context.addTask now command
            some (.output .silent,
              { s with contexts := s.contexts.insert handle context }.goTo t
                (.receiving handle lines) (publishing block))
  | .erasing handle =>
      some (.erased handle,
        { s with contexts := s.contexts.erase handle }.goTo t .testing [])
  | .testing =>
      if s.contexts.entries.isEmpty then some (.output .silent, s.goTo t .stopping [])
      else some (.disconnected, s.goTo t .idle [])
  | .stopping =>
      let (shared, program) := stopThreads s.shared
      some (.output .silent, { s with shared := shared }.goTo t .joining program)
  | .joining => some (.disconnected, s.goTo t .idle [])

/-- One step of the library. -/
def step (s : Library ι) : Event ι → Option (Effect × Library ι)
  | .call t call =>
      if s.callers t = .idle then
        match call with
        | .connect bulk => connect s t bulk
        | .receive handle data => receive s t handle data
        | .disconnect handle => disconnect s t handle
      else none
  | .advance t now address =>
      match (s.callers t).program with
      | [] => proceed s t now address (s.callers t).pc
      | instr :: rest =>
          (instr.exec s.shared).map fun (output, shared) =>
            (.output output, { s with shared := shared }.goTo t (s.callers t).pc rest)
  | .worker w opened =>
      (workerStep w opened s.shared).map fun (output, shared) =>
        (.output output, { s with shared := shared })
  | .spurious w =>
      (spuriousStep w s.shared).map fun (output, shared) =>
        (.output output, { s with shared := shared })

/-- The library with calling threads `ι`, started in the states `init`. -/
def machine (ι : Type u) [Fintype ι] [DecidableEq ι] (init : Library ι → Prop) :
    Machine (Library ι) (Event ι) Effect where
  init := init
  step := step

/-- The state before the first call. -/
def initial : Library ι where
  shared :=
    { shouldTerminate := false, threadsInitialized := false, logQueue := [], fileQueue := [],
      threads := fun _ => none, fileCounter := 0 }
  contexts := ∅
  nextId := 0
  callers := fun _ => .idle

end Step

end Async
