import CppProfessional.Async.Connections
import CppProfessional.Commands.Portions

/-!
# Data in portions

`receive` reads each of its buffers as a text of its own, so a line that two buffers share
is torn.  For any two connections, over which the same text was sent in portions of any
size, in any two executions of the library:

* if their portions tear the same lines in the same places, their blocks are the same;
* if the tears are clear of braces and every block is closed, portions that tear
  the text differently give different blocks.

`portions_immaterial` states both.
-/

namespace Async

open Transition Commands

universe u v

/-- The places in which portions tear a line. -/
def torn (chunks : List Line) : List Bool := tears '\n' (inPortions chunks)

/-- No portion ends next to a brace within a line. -/
def ClearOfBraces (chunks : List Line) : Prop := Clear '\n' ['{', '}'] (inPortions chunks)

instance ClearOfBraces.instDecidable (chunks : List Line) : Decidable (ClearOfBraces chunks) :=
  inferInstanceAs (Decidable (Clear _ _ _))

/-- Only the two braces are marks. -/
theorem onlyBraces_mark : OnlyBraces mark ['{', '}'] := by
  intro line hline
  cases hmark : mark line with
  | opens => exact ⟨'{', by simp, mark_eq_opens.mp hmark⟩
  | closes => exact ⟨'}', by simp, mark_eq_closes.mp hmark⟩
  | plain => exact absurd hmark hline

/-- The commands of the buffers are the pieces of their portions. -/
theorem sentCommands_eq_pieces (chunks : List Line) :
    sentCommands chunks = pieces '\n' (inPortions chunks) :=
  (pieces_inPortions chunks).symm

/-- Buffers of one text are portions of one text. -/
theorem sameText_inPortions {chunks chunks' : List Line}
    (htext : chunks.flatten = chunks'.flatten) :
    SameText (inPortions chunks) (inPortions chunks') :=
  sameText_of_map_fst (by rw [map_fst_inPortions, map_fst_inPortions, htext])

variable {ι : Type u} [Fintype ι] [DecidableEq ι] {κ : Type v} [Fintype κ] [DecidableEq κ]

/-- The blocks of a closed connection, from the data as it was supplied. -/
theorem blocks_of_portions {trace : List (Event ι × Effect)} {s : Library ι} {id bulk : ℕ}
    {chunks : List Line} (h : (machine ι (· = initial)).Execution trace s)
    (hclosed : connection id trace = .closed bulk chunks) :
    (pushedBy id trace).map OutputTask.commands =
      group mark (max bulk 1) (pieces '\n' (inPortions chunks)) := by
  have hfollows := execution_follows id h
  rw [hclosed] at hfollows
  cases hfollows with
  | closed hblocks => rw [← sentCommands_eq_pieces, hblocks]

/-- **Portions that tear the same lines give the same blocks**, and no others do, where
the tears are clear of braces and every block is closed. -/
theorem portions_immaterial {trace : List (Event ι × Effect)} {s : Library ι}
    {trace' : List (Event κ × Effect)} {s' : Library κ} {id id' bulk : ℕ}
    {chunks chunks' : List Line} (h : (machine ι (· = initial)).Execution trace s)
    (h' : (machine κ (· = initial)).Execution trace' s')
    (hclosed : connection id trace = .closed bulk chunks)
    (hclosed' : connection id' trace' = .closed bulk chunks')
    (htext : chunks.flatten = chunks'.flatten) :
    (torn chunks = torn chunks' → (pushedBy id trace).map OutputTask.commands =
        (pushedBy id' trace').map OutputTask.commands) ∧
      (ClearOfBraces chunks → ClearOfBraces chunks' →
        nesting mark 0 (sentCommands chunks) = 0 →
        (pushedBy id trace).map OutputTask.commands =
          (pushedBy id' trace').map OutputTask.commands → torn chunks = torn chunks') := by
  have hsame := sameText_inPortions htext
  rw [blocks_of_portions h hclosed, blocks_of_portions h' hclosed', sentCommands_eq_pieces]
  constructor
  · intro htorn
    rw [pieces_congr hsame htorn]
  · intro hclear hclear' hnesting hblocks
    exact tears_eq_of_group_eq onlyBraces_mark hsame hclear hclear' hnesting hblocks

/-- A client that sends its portions, in a library with a block size of one. -/
def oneClient (calls : List (Event Unit)) : List (Event Unit) :=
  List.flatten [[.call () (.connect 1)], List.replicate 5 (.advance () 0 1), calls,
    [.call () (.disconnect 1), .advance () 0 0]]

/-- `receive`, for so many steps. -/
def received (data : Line) (steps : ℕ) : List (Event Unit) :=
  .call () (.receive 1 data) :: List.replicate steps (.advance () 0 0)

/-- One line in one portion. -/
def wholeLine : List (Event Unit × Effect) × Library Unit :=
  (machine Unit (· = initial)).play initial (oneClient (received ['a', 'b', '\n'] 4))
    (by decide +kernel)

/-- The same line in two portions. -/
def tornLine : List (Event Unit × Effect) × Library Unit :=
  (machine Unit (· = initial)).play initial
    (oneClient (received ['a'] 4 ++ received ['b', '\n'] 4)) (by decide +kernel)

/-- The same line in four portions, three of them empty or the rest of a line. -/
def paddedLine : List (Event Unit × Effect) × Library Unit :=
  (machine Unit (· = initial)).play initial
    (oneClient (received [] 1 ++ received ['a', 'b'] 4 ++ received [] 1 ++ received ['\n'] 2))
    (by decide +kernel)

/-- Empty buffers and a buffer with the rest of a line give no further blocks. -/
theorem portions_immaterial_paddedLine :
    (pushedBy 0 wholeLine.1).map OutputTask.commands =
      (pushedBy 0 paddedLine.1).map OutputTask.commands := by
  have hclosed : connection 0 wholeLine.1 = .closed 1 [['a', 'b', '\n']] := by decide +kernel
  have hclosed' : connection 0 paddedLine.1 = .closed 1 [[], ['a', 'b'], [], ['\n']] := by
    decide +kernel
  have hexec : (machine Unit (· = initial)).Execution wholeLine.1 wholeLine.2 :=
    Machine.execution_play rfl _
  have hexec' : (machine Unit (· = initial)).Execution paddedLine.1 paddedLine.2 :=
    Machine.execution_play rfl _
  exact (portions_immaterial hexec hexec' hclosed hclosed' rfl).1 (by decide)

/-- A line in two portions becomes two commands. -/
theorem tornLine_blocks :
    (machine Unit (· = initial)).Execution wholeLine.1 wholeLine.2 ∧
      (machine Unit (· = initial)).Execution tornLine.1 tornLine.2 ∧
      connection 0 wholeLine.1 = .closed 1 [['a', 'b', '\n']] ∧
      connection 0 tornLine.1 = .closed 1 [['a'], ['b', '\n']] ∧
      (pushedBy 0 wholeLine.1).map OutputTask.commands = [[['a', 'b']]] ∧
      (pushedBy 0 tornLine.1).map OutputTask.commands = [[['a']], [['b']]] := by
  refine ⟨Machine.execution_play rfl _, Machine.execution_play rfl _, ?_, ?_, ?_, ?_⟩ <;>
    decide +kernel

/-- Next to braces, different tears can give the same blocks. -/
example : torn [['{'], ['}'], ['{', '}']] ≠ torn [['{', '}'], ['{'], ['}']] ∧
    group mark 1 (sentCommands [['{'], ['}'], ['{', '}']]) =
      group mark 1 (sentCommands [['{', '}'], ['{'], ['}']]) := by decide

end Async
