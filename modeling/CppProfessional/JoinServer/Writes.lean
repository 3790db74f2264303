import CppProfessional.JoinServer.Commands

/-!
# The answers on the socket

A session writes every message with an `async_write` of its own and waits for none of
them.  An `async_write` is a chain of `write_some` operations; the socket serves those
that are outstanding first in, first out, each sends some bytes of its buffer, and what is
left of a buffer becomes an operation behind all that are waiting.

* `writeSome` — one `write_some` operation;
* `socketMachine` — a session, the commands of the other sessions, and its socket;
* `Undivided` — a buffer is divided only while nothing else is waiting;
* `received_in_order` — the client then receives the answers whole and in order.
-/

namespace JoinServer

open Transition Streams
open Async (Line)

/-- The tables, and the buffers of the `write_some` operations outstanding on the socket
of one session, which stay as they are until their bytes have been sent. -/
structure Connection where
  db : Database
  outstanding : List Line

/-- What can happen next. -/
inductive SocketEvent
  | command (line : Line)
  | foreign (line : Line)
  | send (count : ℕ)
  deriving DecidableEq, Repr

/-- The messages a step gave to `async_write`, and the bytes it sent. -/
structure Traffic where
  issued : List Line
  sent : Line
  deriving DecidableEq, Repr

/-- The first `write_some` operation sends `count` bytes. -/
def writeSome (count : ℕ) : List Line → Option (Line × List Line)
  | [] => none
  | buffer :: waiting =>
      if 0 < count ∧ count < buffer.length then
        some (buffer.take count, waiting ++ [buffer.drop count])
      else if count = buffer.length then some (buffer, waiting)
      else none

/-- One step. -/
def socketStep (s : Connection) : SocketEvent → Option (Traffic × Connection)
  | .command line =>
      let (messages, db) := processCommand line s.db
      some (⟨messages, []⟩, ⟨db, s.outstanding ++ messages⟩)
  | .foreign line => some (⟨[], []⟩, ⟨(processCommand line s.db).2, s.outstanding⟩)
  | .send count =>
      (writeSome count s.outstanding).map fun (sent, outstanding) =>
        (⟨[], sent⟩, ⟨s.db, outstanding⟩)

/-- The session, from the time it starts. -/
def socketMachine : Machine Connection SocketEvent Traffic where
  init s := s.outstanding = []
  step := socketStep

/-- Only the last buffer that is waiting is divided. -/
def Undivided (s : Connection) : SocketEvent → Prop
  | .send count => ∀ buffer ∈ s.outstanding.head?, count < buffer.length → s.outstanding.tail = []
  | .command _ | .foreign _ => True

instance (s : Connection) (e : SocketEvent) : Decidable (Undivided s e) := by
  unfold Undivided
  split <;> infer_instance

/-- The messages of the session, in the order of its commands. -/
def responses (trace : List (SocketEvent × Traffic)) : List Line :=
  Machine.history Traffic.issued trace

/-- The bytes that have arrived at the client. -/
def received (trace : List (SocketEvent × Traffic)) : Line := Machine.history Traffic.sent trace

variable {s s' : Connection} {e : SocketEvent} {traffic : Traffic}

/-- An undivided operation takes its bytes off the front. -/
theorem writeSome_flatten {count : ℕ} {sent : Line} {outstanding : List Line}
    (h : writeSome count s.outstanding = some (sent, outstanding))
    (hundivided : Undivided s (.send count)) :
    s.outstanding.flatten = sent ++ outstanding.flatten := by
  revert h hundivided
  show writeSome count s.outstanding = _ → (∀ buffer ∈ s.outstanding.head?, _) → _
  cases s.outstanding with
  | nil =>
      intro h
      cases h
  | cons buffer waiting =>
      intro h hundivided
      rw [writeSome] at h
      split at h
      · next hpart =>
          obtain rfl : waiting = [] := hundivided buffer rfl hpart.2
          obtain ⟨rfl, rfl⟩ := Prod.mk.inj (Option.some.inj h)
          simp
      · split at h
        · obtain ⟨rfl, rfl⟩ := Prod.mk.inj (Option.some.inj h)
          exact List.flatten_cons
        · cases h

/-- **One step.**  What waits and what is issued comes out at the front, byte by byte. -/
theorem socketStep_fifo (h : socketStep s e = some (traffic, s')) (hundivided : Undivided s e) :
    s.outstanding.flatten ++ traffic.issued.flatten =
      traffic.sent ++ s'.outstanding.flatten := by
  cases e with
  | command line =>
      obtain ⟨rfl, rfl⟩ := Prod.mk.inj (Option.some.inj h)
      exact List.flatten_append.symm
  | foreign line =>
      obtain ⟨rfl, rfl⟩ := Prod.mk.inj (Option.some.inj h)
      exact List.append_nil _
  | send count =>
      obtain ⟨⟨sent, outstanding⟩, hwrite, heq⟩ := Option.map_eq_some_iff.mp h
      obtain ⟨rfl, rfl⟩ := Prod.mk.inj heq
      show s.outstanding.flatten ++ [] = _
      rw [List.append_nil]
      exact writeSome_flatten hwrite hundivided

/-- **The answers arrive whole and in order.**  In a run that divides a buffer only while
nothing else is waiting, what has arrived and what is outstanding are the answers to the
commands, one after the other. -/
theorem received_in_order {trace : List (SocketEvent × Traffic)}
    (h : (socketMachine.restrict Undivided).Execution trace s) :
    received trace ++ s.outstanding.flatten = (responses trace).flatten := by
  obtain ⟨s₀, h0, hrun⟩ := h
  have hempty : s₀.outstanding = [] := h0
  have hfifo : s₀.outstanding.flatten ++
      Machine.history (fun traffic : Traffic => traffic.issued.flatten) trace =
        Machine.history Traffic.sent trace ++ s.outstanding.flatten := by
    refine hrun.fifo (fun s : Connection => s.outstanding.flatten) fun _ _ _ _ _ _ hs => ?_
    obtain ⟨hundivided, hstep⟩ := Machine.restrict_step_eq_some.mp hs
    exact socketStep_fifo hstep hundivided
  rw [hempty, List.flatten_nil, List.nil_append] at hfifo
  rw [received, ← hfifo, responses]
  simp only [Machine.history, List.flatten_eq_flatMap, List.flatMap_assoc]

/-- Two other sessions have filled the tables; the row of the answer is divided while the
`OK` behind it is waiting. -/
def overtaken : List (SocketEvent × Traffic) × Connection :=
  socketMachine.play ⟨.empty, []⟩
    [.foreign (insertWord ++ [' ', 'A', ' ', '1', ' ', 'a', '\n']),
      .foreign (insertWord ++ [' ', 'B', ' ', '1', ' ', 'b', '\n']),
      .command (intersectionWord ++ ['\n']), .send 1, .send 3, .send 5] (by decide +kernel)

/-- The `OK` arrives inside the row. -/
theorem overtaken_received :
    socketMachine.Execution overtaken.1 overtaken.2 ∧ overtaken.2.outstanding = [] ∧
      responses overtaken.1 = [['1', ',', 'a', ',', 'b', '\n'], ['O', 'K', '\n']] ∧
      received overtaken.1 = ['1', 'O', 'K', '\n', ',', 'a', ',', 'b', '\n'] :=
  ⟨Machine.execution_play rfl _, by decide +kernel, by decide +kernel, by decide +kernel⟩

/-- The answer to a line that is no command, sent in two parts. -/
def divided : List (SocketEvent × Traffic) × Connection :=
  (socketMachine.restrict Undivided).play ⟨.empty, []⟩
    [.command ['X', '\n'], .send 4, .command ['Y', '\n'], .send 16] (by decide +kernel)

theorem received_in_order_divided :
    received divided.1 ++ divided.2.outstanding.flatten =
      message unknownText ++ message unknownText := by
  have hexec : (socketMachine.restrict Undivided).Execution divided.1 divided.2 :=
    Machine.execution_play rfl _
  rw [received_in_order hexec]
  decide +kernel

end JoinServer
