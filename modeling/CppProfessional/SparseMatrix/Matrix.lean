import CppProfessional.Containers.Sparse

/-!
# The sparse matrix

A matrix without bounds, in which all but finitely many cells have the default value.
Cells are read and written through proxies: an assignment of the default value erases
the entry of the cell, and a read looks for the entry without creating it.

An assignment returns its proxy, so assignments can be chained to the left,
`(m[0][0] = 1) = 2`, and, as the assignment of one proxy to another, to the right,
`m[0][0] = m[1][1] = 1`.  In either case the right operand is evaluated first; the
value of a proxy on the right is read when the assignment takes place.

## Main results

* `Statement.exec_stores` — every statement does on the map what its meaning does on
  the function;
* `matrix_refines` — the matrix after a program, seen through reads, its size and
  its iterators.

The type of the values brings its own `operator==`, here `==`.  All that is asked of it
is that it tells the default value from every other value; that of the floating-point
types does not, where the default value is a zero or not a number.
-/

namespace SparseMatrix

open Containers

/-- The coordinates of a cell. -/
abbrev Cell := Int32 × Int32

/-- `Matrix<T, DefaultValue>`. -/
structure Matrix (T : Type*) (defaultValue : T) where
  data : AList fun _ : Cell => T

/-- `ProxyCell`: the coordinates, and the name of the variable that holds the proxy
unless it is a temporary. -/
structure ProxyCell where
  name : Option ℕ
  row : Int32
  col : Int32
  deriving DecidableEq, Repr

/-- `{row_, col_}` -/
def ProxyCell.cell (p : ProxyCell) : Cell := (p.row, p.col)

/-- Whether two proxies are one object; two temporaries never are. -/
def ProxyCell.isSame (p q : ProxyCell) : Bool := p.name.isSome && decide (p = q)

/-- Expressions that denote a proxy: a proxy, the assignment of a value, and the
assignment of another proxy. -/
inductive Expr (T : Type*)
  | proxy (p : ProxyCell)
  | assign (target : Expr T) (value : T)
  | copy (target source : Expr T)

/-- Statements: an expression, a read of the proxy that it denotes, and the assignment
of a value that is read from another proxy. -/
inductive Statement (T : Type*)
  | eval (e : Expr T)
  | read (e : Expr T)
  | assignRead (target source : Expr T)

section Code

variable {T : Type*} [BEq T] {d : T}

namespace Matrix

/-- `Matrix()` -/
def empty (d : T) : Matrix T d := ⟨∅⟩

/-- `operator T() const` of a proxy -/
def read (m : Matrix T d) (p : ProxyCell) : T :=
  match m.data.lookup p.cell with
  | some value => value
  | none => d

/-- `operator=(const T& value)` of a proxy -/
def assign (m : Matrix T d) (p : ProxyCell) (value : T) : Matrix T d :=
  if value == d then ⟨m.data.erase p.cell⟩ else ⟨m.data.insert p.cell value⟩

/-- `operator=(const ProxyCell& other)` of a proxy -/
def copy (m : Matrix T d) (p other : ProxyCell) : Matrix T d :=
  if p.isSame other then m else m.assign p (m.read other)

/-- `size()` -/
def size (m : Matrix T d) : ℕ := m.data.entries.length

/-- What an iterator over an entry yields. -/
def triple (entry : Sigma fun _ : Cell => T) : Int32 × Int32 × T :=
  (entry.1.1, entry.1.2, entry.2)

/-- The triples that a loop from `begin()` to `end()` yields: those of the entries, in
the order of the unordered map. -/
def iterate (order : Arrangement Cell T) (m : Matrix T d) : List (Int32 × Int32 × T) :=
  (order.arrange m.data.entries).map triple

end Matrix

/-- The proxy that an expression denotes, and the matrix after its evaluation. -/
def Expr.exec (m : Matrix T d) : Expr T → ProxyCell × Matrix T d
  | .proxy p => (p, m)
  | .assign target value =>
      let (p, m) := target.exec m
      (p, m.assign p value)
  | .copy target source =>
      let (other, m) := source.exec m
      let (p, m) := target.exec m
      (p, m.copy p other)

/-- The value that a statement reads, and the matrix afterwards. -/
def Statement.exec (m : Matrix T d) : Statement T → Option T × Matrix T d
  | .eval e => (none, (e.exec m).2)
  | .read e =>
      let (p, m) := e.exec m
      (some (m.read p), m)
  | .assignRead target source =>
      let (other, m) := source.exec m
      let value := m.read other
      let (p, m) := target.exec m
      (some value, m.assign p value)

/-- The values that a program reads, and the matrix afterwards. -/
def exec (d : T) (program : List (Statement T)) : List T × Matrix T d :=
  program.foldl
    (fun (values, m) statement =>
      (values ++ (statement.exec m).1.toList, (statement.exec m).2))
    ([], Matrix.empty d)

end Code

/-! ### The meaning of programs -/

section Meaning

variable {T : Type*}

/-- What an expression does to a function of the cells. -/
def Expr.meaning (f : Cell → T) : Expr T → Cell × (Cell → T)
  | .proxy p => (p.cell, f)
  | .assign target value =>
      let (cell, f) := target.meaning f
      (cell, Function.update f cell value)
  | .copy target source =>
      let (other, f) := source.meaning f
      let (cell, f) := target.meaning f
      (cell, Function.update f cell (f other))

/-- What a statement reads, and what it does to a function of the cells. -/
def Statement.meaning (f : Cell → T) : Statement T → Option T × (Cell → T)
  | .eval e => (none, (e.meaning f).2)
  | .read e =>
      let (cell, f) := e.meaning f
      (some (f cell), f)
  | .assignRead target source =>
      let (other, f) := source.meaning f
      let value := f other
      let (cell, f) := target.meaning f
      (some value, Function.update f cell value)

/-- What a program reads, and the function of the cells that it leaves, from the one
that is constantly the default value. -/
def meaning (d : T) (program : List (Statement T)) : List T × (Cell → T) :=
  program.foldl
    (fun (values, f) statement =>
      (values ++ (statement.meaning f).1.toList, (statement.meaning f).2))
    ([], fun _ => d)

end Meaning

/-! ### The refinement -/

section Refinement

variable {T : Type*} [BEq T] {d : T} {m : Matrix T d} {f : Cell → T}

omit [BEq T] in
/-- A read computes the function, whether the cell has an entry or not. -/
theorem read_stores (h : Stores d m.data f) (p : ProxyCell) : m.read p = f p.cell := by
  rw [← h.lookup_getD, Matrix.read]
  cases m.data.lookup p.cell <;> rfl

/-- An assignment updates the function at one cell.  Here `operator==` has to tell the
default value from the others: it decides between erasing and inserting. -/
theorem assign_stores (hequal : ∀ value : T, (value == d) = true ↔ value = d)
    (h : Stores d m.data f) (p : ProxyCell) (value : T) :
    Stores d (m.assign p value).data (Function.update f p.cell value) := by
  unfold Matrix.assign
  split
  · next hvalue =>
      rw [(hequal value).mp hvalue]
      exact h.erase p.cell
  · next hvalue => exact h.insert p.cell fun heq => hvalue ((hequal value).mpr heq)

/-- The assignment of a proxy to itself is left out, and would change nothing. -/
theorem copy_stores (hequal : ∀ value : T, (value == d) = true ↔ value = d)
    (h : Stores d m.data f) (p other : ProxyCell) :
    Stores d (m.copy p other).data (Function.update f p.cell (f other.cell)) := by
  unfold Matrix.copy
  split
  · next hsame =>
      rw [ProxyCell.isSame, Bool.and_eq_true, decide_eq_true_eq] at hsame
      rw [← hsame.2, Function.update_eq_self]
      exact h
  · rw [← read_stores h other]
    exact assign_stores hequal h p _

/-- An expression does on the map what its meaning does on the function. -/
theorem Expr.exec_stores (hequal : ∀ value : T, (value == d) = true ↔ value = d)
    (h : Stores d m.data f) (e : Expr T) :
    (e.exec m).1.cell = (e.meaning f).1 ∧ Stores d (e.exec m).2.data (e.meaning f).2 := by
  induction e generalizing m f with
  | proxy p => exact ⟨rfl, h⟩
  | assign target value ih =>
      obtain ⟨hcell, hstores⟩ := ih h
      have hassign := assign_stores hequal hstores (target.exec m).1 value
      rw [hcell] at hassign
      exact ⟨hcell, hassign⟩
  | copy target source htarget hsource =>
      obtain ⟨hother, hread⟩ := hsource h
      obtain ⟨hcell, hstores⟩ := htarget hread
      have hcopy := copy_stores hequal hstores
        (target.exec (source.exec m).2).1 (source.exec m).1
      rw [hcell, hother] at hcopy
      exact ⟨hcell, hcopy⟩

/-- **One statement.** -/
theorem Statement.exec_stores (hequal : ∀ value : T, (value == d) = true ↔ value = d)
    (h : Stores d m.data f) (s : Statement T) :
    (s.exec m).1 = (s.meaning f).1 ∧ Stores d (s.exec m).2.data (s.meaning f).2 := by
  cases s with
  | eval e => exact ⟨rfl, (e.exec_stores hequal h).2⟩
  | read e =>
      obtain ⟨hcell, hstores⟩ := e.exec_stores hequal h
      have hvalue := read_stores hstores (e.exec m).1
      rw [hcell] at hvalue
      exact ⟨congrArg some hvalue, hstores⟩
  | assignRead target source =>
      obtain ⟨hother, hread⟩ := source.exec_stores hequal h
      obtain ⟨hcell, hstores⟩ := target.exec_stores hequal hread
      have hvalue := read_stores hread (source.exec m).1
      rw [hother] at hvalue
      have hassign := assign_stores hequal hstores (target.exec (source.exec m).2).1
        ((source.exec m).2.read (source.exec m).1)
      refine ⟨congrArg some hvalue, ?_⟩
      show Stores d _ (Function.update (target.meaning (source.meaning f).2).2
        (target.meaning (source.meaning f).2).1 ((source.meaning f).2 (source.meaning f).1))
      rw [← hcell, ← hvalue]
      exact hassign

/-- A program reads what its meaning reads, and leaves the map of the function that it
means: by induction on the program, read from its end. -/
theorem exec_stores (hequal : ∀ value : T, (value == d) = true ↔ value = d)
    (program : List (Statement T)) :
    (exec d program).1 = (meaning d program).1 ∧
      Stores d (exec d program).2.data (meaning d program).2 := by
  induction program using List.reverseRecOn with
  | nil => exact ⟨rfl, Stores.empty d⟩
  | append_singleton program s ih =>
      obtain ⟨hvalues, hstores⟩ := ih
      obtain ⟨hvalue, hnext⟩ := s.exec_stores hequal hstores
      have hexec : exec d (program ++ [s]) =
          ((exec d program).1 ++ (s.exec (exec d program).2).1.toList,
            (s.exec (exec d program).2).2) := by
        simp only [exec, List.foldl_append, List.foldl_cons, List.foldl_nil]
      have hmeaning : meaning d (program ++ [s]) =
          ((meaning d program).1 ++ (s.meaning (meaning d program).2).1.toList,
            (s.meaning (meaning d program).2).2) := by
        simp only [meaning, List.foldl_append, List.foldl_cons, List.foldl_nil]
      rw [hexec, hmeaning, hvalues, hvalue]
      exact ⟨rfl, hnext⟩

omit [BEq T] in
/-- The iterators yield the cells at which the function differs from the default value,
each once, whatever the order of the map. -/
theorem iterate_stores (h : Stores d m.data f) (order : Arrangement Cell T) :
    (m.iterate order).Nodup ∧ ∀ row col value,
      (row, col, value) ∈ m.iterate order ↔ f (row, col) = value ∧ value ≠ d := by
  have htriple : Function.Injective (Matrix.triple (T := T)) := by
    rintro ⟨⟨row, col⟩, value⟩ ⟨⟨row', col'⟩, value'⟩ heq
    simp only [Matrix.triple, Prod.mk.injEq] at heq
    obtain ⟨rfl, rfl, rfl⟩ := heq
    rfl
  have hperm := order.perm m.data.entries
  refine ⟨(hperm.nodup_iff.mpr (Stores.nodup_entries m.data)).map htriple, ?_⟩
  intro row col value
  have hentry : (row, col, value) = Matrix.triple ⟨(row, col), value⟩ := rfl
  rw [Matrix.iterate, hentry, List.mem_map_of_injective htriple, hperm.mem_iff,
    h.mem_entries]

/-- **The matrix is the function that its program means.**  After every program, and so
at every point of one: what was read, what a cell reads, that no entry holds the default
value, the size, what a loop over the matrix yields in any order of its map, and that
reading a cell changes nothing. -/
theorem matrix_refines (d : T) (hequal : ∀ value : T, (value == d) = true ↔ value = d)
    (order : Arrangement Cell T) (program : List (Statement T)) :
    let (values, m) := exec d program
    let (values', f) := meaning d program
    values = values' ∧
      (∀ p, m.read p = f p.cell) ∧
      (∀ entry ∈ m.data.entries, entry.2 ≠ d) ∧
      m.size = {cell | f cell ≠ d}.ncard ∧
      ((m.iterate order).Nodup ∧ ∀ row col value,
        (row, col, value) ∈ m.iterate order ↔ f (row, col) = value ∧ value ≠ d) ∧
      ∀ p, ((Statement.read (.proxy p)).exec m).2 = m := by
  obtain ⟨hvalues, hstores⟩ := exec_stores hequal program
  refine ⟨hvalues, read_stores hstores, ?_, hstores.length_entries,
    iterate_stores hstores order, fun p => rfl⟩
  rintro ⟨cell, value⟩ hentry
  exact (hstores.mem_entries.mp hentry).2

/-- Two cells are assigned, the first of them a second time with the default value by a
chained assignment, and both are read. -/
def defaultAgain : List (Statement Int32) :=
  [.eval (.assign (.proxy ⟨none, 0, 0⟩) 314), .eval (.assign (.proxy ⟨none, 1, 2⟩) 5),
    .eval (.assign (.assign (.proxy ⟨none, 0, 0⟩) 217) (-1)),
    .read (.proxy ⟨none, 0, 0⟩), .read (.proxy ⟨none, 1, 2⟩)]

/-- The default value takes the place of another one, and the entry is gone: it reads
back, one cell is left, and the loop yields this one alone. -/
theorem matrix_refines_defaultAgain :
    (exec (-1) defaultAgain).1 = [-1, 5] ∧
      {cell | (meaning (-1) defaultAgain).2 cell ≠ -1}.ncard = 1 ∧
      (exec (-1) defaultAgain).2.iterate (.listed Cell Int32) = [(1, 2, 5)] ∧
      ∀ value, (0, 0, value) ∉ (exec (-1) defaultAgain).2.iterate (.listed Cell Int32) := by
  obtain ⟨hvalues, -, -, hsize, ⟨-, hiterate⟩, -⟩ :=
    matrix_refines (-1 : Int32) (fun _ => beq_iff_eq) (.listed Cell Int32) defaultAgain
  refine ⟨hvalues.trans (by decide), hsize.symm.trans (by decide), by decide, ?_⟩
  intro value hmem
  obtain ⟨hvalue, hne⟩ := (hiterate 0 0 value).mp hmem
  have hdefault : (meaning (-1) defaultAgain).2 ((0 : Int32), (0 : Int32)) = -1 := by decide
  exact hne (hvalue.symm.trans hdefault)

end Refinement

end SparseMatrix
