import CppProfessional.Bulk.TaskManager
import CppProfessional.Async.Numerals

/-!
# The log files of the console manager

Every block is written to a file of its own, says the description of the program.
The name of the file is made of the second at which the block began, and the file
is opened truncating, so two blocks that begin in the same second share a file and
the later one replaces the earlier.

* `overwrite` — what files hold after a sequence of writes that replace them;
* `OneFilePerBlock` — the promise;
* `beginnings` — the seconds at which the blocks of a stream begin, from the block
  grammar with a clock;
* `one_file_per_block` — the promise is kept exactly when these seconds are
  different;
* `shared_log_file` — two commands in one second.
-/

namespace Bulk

open Commands
open Async (Line toText ticksPerSecond mark eq_of_toText_eq)

/-! ### Files

Opening for writing truncates, so of two blocks with one path only the later one is
found.  Paths differ in the second only, hence the promise is one about seconds. -/

section Files

variable {κ ν : Type*} [DecidableEq κ] {files : κ → Option ν}

/-- Writes one after the other, each of which replaces what its file held. -/
def overwrite (files : κ → Option ν) (writes : List (κ × ν)) : κ → Option ν :=
  writes.foldl (fun files write => Function.update files write.1 (some write.2)) files

/-- Writes one after the other. -/
theorem overwrite_cons (write : κ × ν) (writes : List (κ × ν)) :
    overwrite files (write :: writes) =
      overwrite (Function.update files write.1 (some write.2)) writes :=
  rfl

/-- A file that is not written stays as it was. -/
theorem overwrite_of_notMem {writes : List (κ × ν)} {key : κ}
    (h : key ∉ writes.map Prod.fst) : overwrite files writes key = files key := by
  induction writes generalizing files with
  | nil => rfl
  | cons write writes ih =>
      rw [List.map_cons, List.mem_cons, not_or] at h
      rw [overwrite_cons, ih h.2, Function.update_of_ne h.1]

/-- Writes to different files all last. -/
theorem overwrite_of_nodup {writes : List (κ × ν)} (h : (writes.map Prod.fst).Nodup)
    {write : κ × ν} (hmem : write ∈ writes) :
    overwrite files writes write.1 = some write.2 := by
  induction writes generalizing files with
  | nil => cases hmem
  | cons first writes ih =>
      rw [List.map_cons, List.nodup_cons] at h
      rw [overwrite_cons]
      rcases List.mem_cons.mp hmem with rfl | hrest
      · rw [overwrite_of_notMem h.1, Function.update_self]
      · exact ih h.2 hrest

end Files

/-- The files after a run. -/
def logFiles (files : Line → Option Line) (blocks : List Printed) : Line → Option Line :=
  overwrite files (blocks.map fun block => (block.logPath, block.text))

/-- One file per block: no two blocks go to the same path, and in the end every block
is found in a file. -/
def OneFilePerBlock (files : Line → Option Line) (blocks : List Printed) : Prop :=
  (blocks.map Printed.logPath).Nodup ∧
    ∀ block ∈ blocks, ∃ path, logFiles files blocks path = some block.text

/-- The seconds at which the blocks of a stream begin. -/
def beginnings (bulk : ℕ) (commands : List (ℤ × Line)) : List ℤ :=
  (clocked mark bulk 0 commands).map fun block => block.1 / ticksPerSecond

/-- Paths are told apart by the second alone. -/
theorem logPath_eq_iff {name : Line} {s t : ℤ} :
    logPath name s = logPath name t ↔ s / ticksPerSecond = t / ticksPerSecond := by
  constructor
  · intro h
    unfold logPath at h
    exact eq_of_toText_eq (List.append_cancel_left (List.append_cancel_right h))
  · intro h
    rw [logPath, logPath, h]

/-- The paths of the blocks are different exactly if the seconds of their time stamps are. -/
theorem nodup_logPath (name : Line) (blocks : List (ℤ × List Line)) :
    ((blocks.map (printed name)).map Printed.logPath).Nodup ↔
      (blocks.map fun block => block.1 / ticksPerSecond).Nodup := by
  rw [List.map_map, List.Nodup, List.Nodup, List.pairwise_map, List.pairwise_map]
  apply iff_of_eq
  congr
  ext block block'
  exact not_congr logPath_eq_iff

/-- Blocks with different paths are all found at their paths. -/
theorem logFiles_of_nodup {files : Line → Option Line} {blocks : List Printed}
    (h : (blocks.map Printed.logPath).Nodup) {block : Printed} (hblock : block ∈ blocks) :
    logFiles files blocks block.logPath = some block.text := by
  have hwrites : ((blocks.map fun block => (block.logPath, block.text)).map Prod.fst).Nodup := by
    rw [List.map_map]
    exact h
  exact overwrite_of_nodup hwrites (List.mem_map_of_mem hblock)

/-- **One file per block.**  The promise is kept exactly when the blocks begin in
different seconds. -/
theorem one_file_per_block {bulk : ℕ} (hbulk : 1 ≤ bulk) (name : Line)
    (files : Line → Option Line) {calls : List Call} (hcalls : AllOpen calls)
    {opens : Line → Bool} (hopens : ∀ path, opens path = true) :
    OneFilePerBlock files (session bulk name calls opens) ↔
      (beginnings bulk (timed calls)).Nodup := by
  rw [beginnings, ← nodup_logPath name, ← session_clocked hbulk name hcalls hopens]
  constructor
  · rintro ⟨hpaths, -⟩
    exact hpaths
  · intro hpaths
    refine ⟨hpaths, fun block hblock => ⟨block.logPath, logFiles_of_nodup hpaths hblock⟩⟩

/-- Two commands, a second apart. -/
def slowCommands : List Call :=
  [⟨1000000000, fun _ _ => true, ['a']⟩, ⟨2000000000, fun _ _ => true, ['b']⟩]

/-- Commands in different seconds get files of their own. -/
theorem one_file_per_block_slowCommands :
    OneFilePerBlock (fun _ => none) (session 1 ['m'] slowCommands fun _ => true) := by
  refine (one_file_per_block (by decide) ['m'] _ ?_ fun _ => rfl).mpr (by decide)
  intro call hcall which path
  simp only [slowCommands, List.mem_cons, List.not_mem_nil, or_false] at hcall
  rcases hcall with rfl | rfl <;> rfl

/-- Two commands that arrive in the same second. -/
def fastCommands : List Call :=
  [⟨1000000000, fun _ _ => true, ['a']⟩, ⟨1000000001, fun _ _ => true, ['b']⟩]

/-- **Two blocks share a file.**  With a block size of one, the clock never goes back
and every file opens, but the first block is found in no file. -/
theorem shared_log_file :
    AllOpen fastCommands ∧ (fastCommands.map Call.now).Pairwise (· ≤ ·) ∧
      ⟨['m', '1', '.', 'l', 'o', 'g'], ['m'], [['a']]⟩ ∈
        session 1 ['m'] fastCommands (fun _ => true) ∧
      (∀ path, logFiles (fun _ => none) (session 1 ['m'] fastCommands fun _ => true) path ≠
        some ['m', ':', ' ', 'a', '\n']) ∧
      ¬OneFilePerBlock (fun _ => none) (session 1 ['m'] fastCommands fun _ => true) := by
  have hsession : session 1 ['m'] fastCommands (fun _ => true) =
      [⟨['m', '1', '.', 'l', 'o', 'g'], ['m'], [['a']]⟩,
        ⟨['m', '1', '.', 'l', 'o', 'g'], ['m'], [['b']]⟩] := by decide
  refine ⟨?_, by decide, hsession ▸ List.mem_cons_self .., ?_, ?_⟩
  · intro call hcall which path
    simp only [fastCommands, List.mem_cons, List.not_mem_nil, or_false] at hcall
    rcases hcall with rfl | rfl <;> rfl
  · intro path
    rw [hsession]
    by_cases hpath : path = ['m', '1', '.', 'l', 'o', 'g']
    · subst hpath
      decide
    · rw [logFiles, overwrite_of_notMem (by simpa using hpath)]
      exact nofun
  · rw [hsession]
    rintro ⟨hpaths, -⟩
    revert hpaths
    decide

end Bulk
