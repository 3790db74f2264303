import Mathlib.Data.List.Basic
import Mathlib.Data.Rat.Init

/-!
# Loading the weights

`loadWeights` reads one file into each matrix, row by row, and stops in a row at the first
word that is no number and in a file at its last line.  It returns `false` only for a file
that cannot be opened, and looks at the second file when it has stored the first.

* `readRows` — the assignments of the loops, `mem_readRows` says which they are;
* `loadWeights`, `MLP.create` — the functions;
* `AllOrNothing` — what a caller may expect of the result;
* `allOrNothing_iff` — for which files this is so.

The words of a file are tokens, of which some are numbers.  The entries of a matrix that
has been resized are those of a parameter.
-/

namespace Mlp

/-- `Eigen::MatrixXf` -/
structure Matrix (F : Type*) where
  rows : ℕ
  cols : ℕ
  coeff : ℕ → ℕ → F

namespace Matrix

variable {F : Type*}

/-- `resize`, which leaves a matrix of that size alone. -/
def resize (m : Matrix F) (rows cols : ℕ) (unspecified : ℕ → ℕ → F) : Matrix F :=
  if m.rows = rows ∧ m.cols = cols then m else ⟨rows, cols, unspecified⟩

/-- Matrices of the same size with the same entries. -/
structure Same (m m' : Matrix F) : Prop where
  rows : m.rows = m'.rows
  cols : m.cols = m'.cols
  coeff : ∀ r < m.rows, ∀ c < m.cols, m.coeff r c = m'.coeff r c

theorem Same.refl (m : Matrix F) : Same m m := ⟨rfl, rfl, fun _ _ _ _ => rfl⟩

end Matrix

/-- `m(row, col) = value` -/
structure Assignment (F : Type*) where
  row : ℕ
  col : ℕ
  value : F

namespace Matrix

variable {F : Type*}

/-- One assignment. -/
def assign (m : Matrix F) (a : Assignment F) : Matrix F :=
  { m with coeff := fun r c => if r = a.row ∧ c = a.col then a.value else m.coeff r c }

/-- The assignments of a loop. -/
def assignAll (m : Matrix F) (as : List (Assignment F)) : Matrix F := as.foldl assign m

/-- Assignments do not change the number of rows. -/
@[simp] theorem rows_assignAll (m : Matrix F) (as : List (Assignment F)) :
    (m.assignAll as).rows = m.rows := by
  induction as generalizing m with
  | nil => rfl
  | cons a as ih => exact ih (m.assign a)

/-- Nor the number of columns. -/
@[simp] theorem cols_assignAll (m : Matrix F) (as : List (Assignment F)) :
    (m.assignAll as).cols = m.cols := by
  induction as generalizing m with
  | nil => rfl
  | cons a as ih => exact ih (m.assign a)

/-- An entry that nothing is assigned to. -/
theorem coeff_assignAll_of_forall_ne (m : Matrix F) {as : List (Assignment F)} {r c : ℕ}
    (h : ∀ a ∈ as, ¬(r = a.row ∧ c = a.col)) : (m.assignAll as).coeff r c = m.coeff r c := by
  induction as generalizing m with
  | nil => rfl
  | cons a as ih =>
      rw [List.forall_mem_cons] at h
      exact (ih (m.assign a) h.2).trans (if_neg h.1)

/-- An entry to which only one value is assigned. -/
theorem coeff_assignAll_of_mem (m : Matrix F) {as : List (Assignment F)} {r c : ℕ} {v : F}
    (hmem : ⟨r, c, v⟩ ∈ as) (honly : ∀ w, ⟨r, c, w⟩ ∈ as → w = v) :
    (m.assignAll as).coeff r c = v := by
  induction as generalizing m with
  | nil => cases hmem
  | cons a as ih =>
      by_cases hlater : ⟨r, c, v⟩ ∈ as
      · exact ih (m.assign a) hlater fun w hw => honly w (List.mem_cons_of_mem a hw)
      · -- it is assigned now and not again
        obtain rfl : ⟨r, c, v⟩ = a := (List.mem_cons.mp hmem).resolve_right hlater
        have hnow : (m.assign ⟨r, c, v⟩).coeff r c = v := if_pos ⟨rfl, rfl⟩
        refine (coeff_assignAll_of_forall_ne (m.assign ⟨r, c, v⟩) ?_).trans hnow
        rintro ⟨r', c', w⟩ hw ⟨hr, hc⟩
        obtain ⟨rfl, rfl⟩ : r = r' ∧ c = c' := ⟨hr, hc⟩
        exact hlater (honly w (List.mem_cons_of_mem _ hw) ▸ hw)

/-- Assignments change nothing exactly when every value is there already. -/
theorem same_assignAll_iff (m : Matrix F) {as : List (Assignment F)}
    (hin : ∀ r c v, ⟨r, c, v⟩ ∈ as → r < m.rows ∧ c < m.cols)
    (honly : ∀ r c v w, ⟨r, c, v⟩ ∈ as → ⟨r, c, w⟩ ∈ as → w = v) :
    Same m (m.assignAll as) ↔ ∀ r c v, ⟨r, c, v⟩ ∈ as → v = m.coeff r c := by
  constructor
  · intro h r c v hmem
    obtain ⟨hr, hc⟩ := hin r c v hmem
    rw [h.coeff r hr c hc, coeff_assignAll_of_mem m hmem fun w hw => honly r c v w hmem hw]
  · intro h
    refine ⟨(rows_assignAll m as).symm, (cols_assignAll m as).symm, fun r _ c _ => ?_⟩
    by_cases hmem : ∃ v, ⟨r, c, v⟩ ∈ as
    · obtain ⟨v, hv⟩ := hmem
      rw [coeff_assignAll_of_mem m hv fun w hw => honly r c v w hv hw, h r c v hv]
    · refine (coeff_assignAll_of_forall_ne m ?_).symm
      rintro ⟨r', c', v⟩ ha ⟨hr, hc⟩
      obtain ⟨rfl, rfl⟩ : r = r' ∧ c = c' := ⟨hr, hc⟩
      exact hmem ⟨v, ha⟩

end Matrix

section Reading

variable {F Token : Type*} (parse : Token → Option F)

/-- The loop over a line from the column `col` on. -/
def readRow (columns row : ℕ) : ℕ → List Token → List (Assignment F)
  | _, [] => []
  | col, token :: tokens =>
      match parse token with
      | none => []
      | some value =>
          if col < columns then ⟨row, col, value⟩ :: readRow columns row (col + 1) tokens
          else []

/-- The loop over a file from the row `row` on. -/
def readRows (rows columns : ℕ) : ℕ → List (List Token) → List (Assignment F)
  | _, [] => []
  | row, line :: lines =>
      if row < rows then
        readRow parse columns row 0 line ++ readRows rows columns (row + 1) lines
      else []

/-- The numbers at the front of a line. -/
def numbers : List Token → List F
  | [] => []
  | token :: tokens =>
      match parse token with
      | none => []
      | some value => value :: numbers tokens

/-- The place of an item in a list that is counted from `start` on. -/
theorem exists_place_cons {α : Type*} {x v : α} {xs : List α} {start i : ℕ} :
    (∃ k, i = start + k ∧ (x :: xs)[k]? = some v) ↔
      i = start ∧ x = v ∨ ∃ k, i = start + 1 + k ∧ xs[k]? = some v := by
  constructor
  · rintro ⟨k, rfl, hk⟩
    cases k with
    | zero => exact .inl ⟨rfl, Option.some.inj hk⟩
    | succ k => exact .inr ⟨k, by omega, hk⟩
  · rintro (⟨rfl, rfl⟩ | ⟨k, rfl, hk⟩)
    · exact ⟨0, rfl, rfl⟩
    · exact ⟨k + 1, by omega, hk⟩

/-- The assignments of a row: the numbers of the line from its column on, and none beyond the
last column. -/
theorem mem_readRow {columns row col r c : ℕ} {tokens : List Token} {v : F} :
    ⟨r, c, v⟩ ∈ readRow parse columns row col tokens ↔
      r = row ∧ c < columns ∧ ∃ k, c = col + k ∧ (numbers parse tokens)[k]? = some v := by
  induction tokens generalizing col with
  | nil => simp [readRow, numbers]
  | cons token tokens ih =>
      rw [readRow, numbers]
      cases parse token with
      | none => simp
      | some value =>
          show _ ↔ r = row ∧ c < columns ∧ ∃ k, c = col + k ∧ (value :: _)[k]? = some v
          rw [exists_place_cons]
          by_cases hcol : col < columns
          · simp only [if_pos hcol, List.mem_cons, Assignment.mk.injEq, ih]
            constructor
            · rintro (⟨rfl, rfl, rfl⟩ | ⟨rfl, hc, hplace⟩)
              · exact ⟨rfl, hcol, .inl ⟨rfl, rfl⟩⟩
              · exact ⟨rfl, hc, .inr hplace⟩
            · rintro ⟨rfl, hc, ⟨rfl, rfl⟩ | hplace⟩
              · exact .inl ⟨rfl, rfl, rfl⟩
              · exact .inr ⟨rfl, hc, hplace⟩
          · simp only [if_neg hcol, List.not_mem_nil, false_iff]
            rintro ⟨-, hc, ⟨rfl, -⟩ | ⟨k, rfl, -⟩⟩ <;> omega

/-- **What a file is assigned to.** -/
theorem mem_readRows {rows columns row r c : ℕ} {lines : List (List Token)} {v : F} :
    ⟨r, c, v⟩ ∈ readRows parse rows columns row lines ↔
      r < rows ∧ c < columns ∧ ∃ line, (∃ k, r = row + k ∧ lines[k]? = some line) ∧
        (numbers parse line)[c]? = some v := by
  induction lines generalizing row with
  | nil => simp [readRows]
  | cons line lines ih =>
      rw [readRows]
      by_cases hrow : row < rows
      · simp only [if_pos hrow, List.mem_append, mem_readRow, ih, exists_place_cons]
        constructor
        · rintro (⟨rfl, hc, k, rfl, hv⟩ | ⟨hr, hc, line', hplace, hv⟩)
          · rw [Nat.zero_add] at hc ⊢
            exact ⟨hrow, hc, line, .inl ⟨rfl, rfl⟩, hv⟩
          · exact ⟨hr, hc, line', .inr hplace, hv⟩
        · rintro ⟨hr, hc, line', ⟨rfl, rfl⟩ | hplace, hv⟩
          · exact .inl ⟨rfl, hc, c, (Nat.zero_add c).symm, hv⟩
          · exact .inr ⟨hr, hc, line', hplace, hv⟩
      · simp only [if_neg hrow, List.not_mem_nil, exists_place_cons, false_iff]
        rintro ⟨hr, -, line', ⟨rfl, -⟩ | ⟨k, rfl, -⟩, -⟩ <;> omega

end Reading

/-! ### Loading

`loadWeights` writes into the network while it reads, and looks at the second file only
after the first one has been read.  What it leaves behind is a list of assignments. -/

/-- The weights of a network. -/
structure MLP (F : Type*) where
  W1 : Matrix F
  W2 : Matrix F

/-- What `loadWeights` does: the value returned, the weights, the assignments to them, and
the lines on the standard error output. -/
structure Loaded (F : Type*) where
  ret : Bool
  mlp : MLP F
  assigned1 : List (Assignment F)
  assigned2 : List (Assignment F)
  stderr : List (List Char)

/-- A file: its path, and the words of its lines where it can be opened. -/
structure WeightFile (Token : Type*) where
  path : List Char
  lines : Option (List (List Token))

section Loading

variable {F Token : Type*} (parse : Token → Option F) (unspecified1 unspecified2 : ℕ → ℕ → F)

/-- `loadWeights` -/
def loadWeights (w1File w2File : WeightFile Token) (mlp : MLP F) : Loaded F :=
  match w1File.lines with
  | none => ⟨false, mlp, [], [], ["Could not open file: ".toList ++ w1File.path]⟩
  | some lines1 =>
      let assigned1 := readRows parse 784 128 0 lines1
      let mlp := { mlp with W1 := (mlp.W1.resize 784 128 unspecified1).assignAll assigned1 }
      match w2File.lines with
      | none => ⟨false, mlp, assigned1, [], ["Could not open file: ".toList ++ w2File.path]⟩
      | some lines2 =>
          let assigned2 := readRows parse 128 10 0 lines2
          let mlp := { mlp with W2 := (mlp.W2.resize 128 10 unspecified2).assignAll assigned2 }
          ⟨true, mlp, assigned1, assigned2, []⟩

/-- `MLP::MLP`, with the weights and the lines on the standard error output. -/
def MLP.create (w1File w2File : WeightFile Token) : MLP F × List (List Char) :=
  let loaded := loadWeights parse unspecified1 unspecified2 w1File w2File
    ⟨⟨0, 0, unspecified1⟩, ⟨0, 0, unspecified2⟩⟩
  (loaded.mlp, loaded.stderr ++ if loaded.ret then [] else ["Failed to load weights!".toList])

/-- All or nothing: after success every weight has been assigned, after a failure the
weights are those of before. -/
structure AllOrNothing (mlp : MLP F) (loaded : Loaded F) : Prop where
  all : loaded.ret = true →
    (∀ r < 784, ∀ c < 128, ∃ v, ⟨r, c, v⟩ ∈ loaded.assigned1) ∧
      ∀ r < 128, ∀ c < 10, ∃ v, ⟨r, c, v⟩ ∈ loaded.assigned2
  nothing : loaded.ret = false → mlp.W1.Same loaded.mlp.W1 ∧ mlp.W2.Same loaded.mlp.W2

/-- The first lines of a file have enough numbers at their front. -/
def Complete (rows cols : ℕ) (lines : List (List Token)) : Prop :=
  ∀ r < rows, ∃ line, lines[r]? = some line ∧ cols ≤ (numbers parse line).length

/-- A matrix has the right size, and the numbers that a file has for it. -/
structure Agrees (rows cols : ℕ) (m : Matrix F) (lines : List (List Token)) : Prop where
  rows_eq : m.rows = rows
  cols_eq : m.cols = cols
  coeff : ∀ r < rows, ∀ c < cols, ∀ line v, lines[r]? = some line →
    (numbers parse line)[c]? = some v → v = m.coeff r c

/-- When loading is all or nothing: the first file cannot be opened; or only the second one
cannot, and the first has nothing new; or both have all the numbers. -/
def Loadable (w1 w2 : Option (List (List Token))) (mlp : MLP F) : Prop :=
  match w1, w2 with
  | none, _ => True
  | some lines1, none => Agrees parse 784 128 mlp.W1 lines1
  | some lines1, some lines2 => Complete parse 784 128 lines1 ∧ Complete parse 128 10 lines2

variable {parse}

/-- The assignments of all rows: the number of each place that has a line and a number. -/
theorem mem_readRows_zero {rows columns r c : ℕ} {lines : List (List Token)} {v : F} :
    ⟨r, c, v⟩ ∈ readRows parse rows columns 0 lines ↔
      r < rows ∧ c < columns ∧ ∃ line, lines[r]? = some line ∧
        (numbers parse line)[c]? = some v := by
  simp only [mem_readRows, Nat.zero_add, exists_eq_left']

/-- Every entry is assigned exactly when there are enough numbers. -/
theorem forall_mem_readRows_iff {rows cols : ℕ} (hcols : 0 < cols) {lines : List (List Token)} :
    (∀ r < rows, ∀ c < cols, ∃ v, ⟨r, c, v⟩ ∈ readRows parse rows cols 0 lines) ↔
      Complete parse rows cols lines := by
  constructor
  · intro h r hr
    obtain ⟨v, hv⟩ := h r hr (cols - 1) (by omega)
    obtain ⟨-, -, line, hline, hnumber⟩ := mem_readRows_zero.mp hv
    obtain ⟨hlt, -⟩ := List.getElem?_eq_some_iff.mp hnumber
    exact ⟨line, hline, by omega⟩
  · intro h r hr c hc
    obtain ⟨line, hline, hle⟩ := h r hr
    refine ⟨(numbers parse line)[c], mem_readRows_zero.mpr ⟨hr, hc, line, hline, ?_⟩⟩
    exact List.getElem?_eq_getElem _

/-- A file changes nothing exactly when the matrix has its numbers. -/
theorem same_resize_iff {rows cols : ℕ} (m : Matrix F) (unspecified : ℕ → ℕ → F)
    {lines : List (List Token)} :
    m.Same ((m.resize rows cols unspecified).assignAll (readRows parse rows cols 0 lines)) ↔
      Agrees parse rows cols m lines := by
  by_cases hsize : m.rows = rows ∧ m.cols = cols
  · obtain ⟨rfl, rfl⟩ := hsize
    rw [Matrix.resize, if_pos ⟨rfl, rfl⟩, Matrix.same_assignAll_iff]
    · constructor
      · intro h
        refine ⟨rfl, rfl, fun r hr c hc line v hline hv => h r c v ?_⟩
        exact mem_readRows_zero.mpr ⟨hr, hc, line, hline, hv⟩
      · intro h r c v hmem
        obtain ⟨hr, hc, line, hline, hv⟩ := mem_readRows_zero.mp hmem
        exact h.coeff r hr c hc line v hline hv
    · intro r c v hmem
      obtain ⟨hr, hc, -⟩ := mem_readRows_zero.mp hmem
      exact ⟨hr, hc⟩
    · intro r c v w hv hw
      obtain ⟨-, -, line, hline, hv⟩ := mem_readRows_zero.mp hv
      obtain ⟨-, -, line', hline', hw⟩ := mem_readRows_zero.mp hw
      obtain rfl : line = line' := Option.some.inj (hline.symm.trans hline')
      exact Option.some.inj (hw.symm.trans hv)
  · refine iff_of_false (fun h => hsize ?_) fun h => hsize ⟨h.rows_eq, h.cols_eq⟩
    have hrows := h.rows
    have hcols := h.cols
    rw [Matrix.rows_assignAll, Matrix.resize, if_neg hsize] at hrows
    rw [Matrix.cols_assignAll, Matrix.resize, if_neg hsize] at hcols
    exact ⟨hrows, hcols⟩

/-- **Loading the weights.**  The files for which it is all or nothing. -/
theorem allOrNothing_iff (parse : Token → Option F) (w1File w2File : WeightFile Token)
    (mlp : MLP F) :
    AllOrNothing mlp (loadWeights parse unspecified1 unspecified2 w1File w2File mlp) ↔
      Loadable parse w1File.lines w2File.lines mlp := by
  obtain ⟨path1, _ | lines1⟩ := w1File
  · exact iff_of_true ⟨fun hret => (by cases hret), fun _ => ⟨.refl _, .refl _⟩⟩ trivial
  · obtain ⟨path2, _ | lines2⟩ := w2File
    · constructor
      · intro h
        exact (same_resize_iff mlp.W1 unspecified1).mp (h.nothing rfl).1
      · intro h
        refine ⟨fun hret => (by cases hret), fun _ => ⟨?_, .refl _⟩⟩
        exact (same_resize_iff mlp.W1 unspecified1).mpr h
    · constructor
      · intro h
        obtain ⟨hall1, hall2⟩ := h.all rfl
        exact ⟨(forall_mem_readRows_iff (by decide)).mp hall1,
          (forall_mem_readRows_iff (by decide)).mp hall2⟩
      · intro h
        refine ⟨fun _ => ?_, fun hret => (by cases hret)⟩
        exact ⟨(forall_mem_readRows_iff (by decide)).mpr h.1,
          (forall_mem_readRows_iff (by decide)).mpr h.2⟩

end Loading

/-- Files of whole numbers. -/
def loadNumbers (lines1 lines2 : Option (List (List (Option ℕ)))) (mlp : MLP ℕ) : Loaded ℕ :=
  loadWeights id (fun _ _ => 0) (fun _ _ => 0) ⟨"w1.txt".toList, lines1⟩ ⟨"w2.txt".toList, lines2⟩
    mlp

/-- A network in which all weights are zero. -/
def zeros : MLP ℕ := ⟨⟨784, 128, fun _ _ => 0⟩, ⟨128, 10, fun _ _ => 0⟩⟩

/-- **Two empty files** are loaded, and a second file that cannot be opened is found too
late. -/
theorem empty_files_loaded :
    (loadNumbers (some []) (some []) zeros).ret = true ∧
      ¬AllOrNothing zeros (loadNumbers (some []) (some []) zeros) ∧
      (loadNumbers (some [[some 1]]) none zeros).ret = false ∧
      ¬AllOrNothing zeros (loadNumbers (some [[some 1]]) none zeros) := by
  refine ⟨rfl, fun h => ?_, rfl, fun h => ?_⟩
  · obtain ⟨v, hv⟩ := (h.all rfl).1 0 (by decide) 0 (by decide)
    cases hv
  · have hsame := (h.nothing rfl).1.coeff 0 (by decide) 0 (by decide)
    revert hsame
    decide

end Mlp
