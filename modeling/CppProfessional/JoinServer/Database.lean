import CppProfessional.Async.Numerals
import CppProfessional.Containers.OrderedSet
import CppProfessional.Streams.Extraction
import Mathlib.Data.List.AList
import Mathlib.Data.List.TakeWhile

/-!
# The tables of the join server

Two tables with an integer key, and the two queries over them.  The queries collect ids
in sets and then read the rows with `operator[]`, which would insert a row if there were
none; the symmetric difference sorts its rows once more, by the ids it reads back from
their text.

* `insert`, `truncate`, `intersection`, `symmetricDifference` — class `Database`;
* `rowLess` — the comparison of that sort;
* `intersection_eq`, `symmetricDifference_eq` — the queries list the rows of the common
  and of the other ids in ascending order, and change nothing.
-/

namespace JoinServer

open Containers
open Async (Line toText isDigit_of_mem_toText_natCast isDigit_or_minus_of_mem_toText)

/-- The values of `int`. -/
abbrev CInt := Streams.Bounded (-2 ^ 31) (2 ^ 31 - 1)

/-- A `std::unordered_map<int, std::string>`. -/
abbrev Rows := AList fun _ : CInt => Line

/-- `class Database` -/
structure Database where
  tableA : Rows
  tableB : Rows

/-- The tables at the start of the server. -/
def Database.empty : Database := ⟨∅, ∅⟩

/-- `Database::insert(table, record_id, name)` -/
def insert (table : Line) (recordId : CInt) (name : Line) (db : Database) : Bool × Database :=
  if table = ['A'] then
    if recordId ∈ db.tableA then (false, db)
    else (true, { db with tableA := db.tableA.insert recordId name })
  else if table = ['B'] then
    if recordId ∈ db.tableB then (false, db)
    else (true, { db with tableB := db.tableB.insert recordId name })
  else (false, db)

/-- `Database::truncate(table)` -/
def truncate (table : Line) (db : Database) : Database :=
  if table = ['A'] then { db with tableA := ∅ }
  else if table = ['B'] then { db with tableB := ∅ }
  else db

/-- `table[record_id]`, which inserts an empty name if there is no row. -/
def subscript (table : Rows) (recordId : CInt) : Line × Rows :=
  match table.lookup recordId with
  | some name => (name, table)
  | none => ([], table.insert recordId [])

/-- The text of a row of a query. -/
def row (recordId : CInt) (nameA nameB : Line) : Line :=
  toText recordId.val ++ [','] ++ nameA ++ [','] ++ nameB

/-- The loop body of `intersection`. -/
def appendCommon (acc : List Line × Database) (recordId : CInt) : List Line × Database :=
  let (nameA, tableA) := subscript acc.2.tableA recordId
  let (nameB, tableB) := subscript acc.2.tableB recordId
  (acc.1 ++ [row recordId nameA nameB], ⟨tableA, tableB⟩)

/-- `common_ids` -/
def commonIds (db : Database) : List CInt :=
  insertIf (· ∈ db.tableB) [] db.tableA.keys

/-- `Database::intersection()` -/
def intersection (db : Database) : List Line × Database :=
  (commonIds db).foldl appendCommon ([], db)

/-- `all_ids` -/
def allIds (db : Database) : List CInt :=
  insertIf (fun _ => True) (insertIf (fun _ => True) [] db.tableA.keys) db.tableB.keys

/-- The name under an id, read with `operator[]` only if `contains` finds it. -/
def nameOf (table : Rows) (recordId : CInt) : Line × Rows :=
  if recordId ∈ table then subscript table recordId else ([], table)

/-- The loop body of `symmetric_difference`. -/
def appendOnly (common : List CInt) (acc : List Line × Database) (recordId : CInt) :
    List Line × Database :=
  if recordId ∈ common then acc
  else
    let (nameA, tableA) := nameOf acc.2.tableA recordId
    let (nameB, tableB) := nameOf acc.2.tableB recordId
    (acc.1 ++ [row recordId nameA nameB], ⟨tableA, tableB⟩)

/-- A minus sign in front of a numeral, and what follows it. -/
def splitMinus : Line → Bool × Line
  | '-' :: text => (true, text)
  | text => (false, text)

/-- `std::from_chars` for `int` in base 10; `none` is an error. -/
def fromChars (text : Line) : Option CInt :=
  let digits := (splitMinus text).2.takeWhile Char.isDigit
  let number : ℤ := Nat.ofDigitChars 10 digits 0
  let value := if (splitMinus text).1 then -number else number
  if digits.isEmpty then none
  else if h : -2 ^ 31 ≤ value ∧ value ≤ 2 ^ 31 - 1 then some ⟨value, h.1, h.2⟩ else none

/-- The comparison of two rows by the ids in front of their first commas. -/
def rowLess (rowA rowB : Line) : Bool :=
  match fromChars (rowA.takeWhile (· ≠ ',')), fromChars (rowB.takeWhile (· ≠ ',')) with
  | some idA, some idB => idA < idB
  | _, _ => false

/-- `std::ranges::sort` with that comparison. -/
def sortRows (rows : List Line) : List Line :=
  rows.insertionSort fun a b => rowLess b a = false

/-- `Database::symmetric_difference()` -/
def symmetricDifference (db : Database) : List Line × Database :=
  let (result, db) := (allIds db).foldl (appendOnly (commonIds db)) ([], db)
  (sortRows result, db)

/-! ### The order of the rows

The symmetric difference is sorted as texts, by the numbers in front of the first comma.
The numbers are read back with `from_chars`, which recovers the ids, so the sort finds
the rows in order already. -/

/-- Digits carry no sign. -/
theorem splitMinus_toDigits (k : ℕ) :
    splitMinus (Nat.toDigits 10 k) = (false, Nat.toDigits 10 k) := by
  unfold splitMinus
  split
  · next rest heq =>
      have hminus : '-' ∈ toText k := by
        show '-' ∈ Nat.toDigits 10 k
        rw [heq]
        exact List.mem_cons_self
      have hdigit := isDigit_of_mem_toText_natCast hminus
      cases hdigit
  · rfl

/-- Digits, after a minus sign or without one. -/
theorem fromChars_of_splitMinus {text : Line} {negative : Bool} {k : ℕ} {n : CInt}
    (hsplit : splitMinus text = (negative, Nat.toDigits 10 k))
    (hn : (if negative then -(k : ℤ) else k) = n.val) : fromChars text = some n := by
  have hall : (Nat.toDigits 10 k).takeWhile Char.isDigit = Nat.toDigits 10 k :=
    List.takeWhile_eq_self_iff.mpr fun c hc => isDigit_of_mem_toText_natCast (n := k) hc
  have hne : ¬ (Nat.toDigits 10 k).isEmpty = true := by simp [Nat.toDigits_ne_nil]
  unfold fromChars
  simp only [hsplit, hall, Nat.ofDigitChars_ten_toDigits, hn]
  rw [if_neg hne, dif_pos ⟨n.ge, n.le⟩]

/-- **The id of a row can be read back.** -/
theorem fromChars_toText (recordId : CInt) : fromChars (toText recordId.val) = some recordId := by
  obtain ⟨n, hge, hle⟩ := recordId
  cases n with
  | ofNat k => exact fromChars_of_splitMinus (splitMinus_toDigits k) rfl
  | negSucc k =>
      have hsplit : splitMinus (toText (.negSucc k)) = (true, Nat.toDigits 10 (k + 1)) := rfl
      exact fromChars_of_splitMinus hsplit rfl

/-- The id of a row is what stands before its first comma, whatever the names are. -/
theorem row_takeWhile (recordId : CInt) (nameA nameB : Line) :
    (row recordId nameA nameB).takeWhile (· ≠ ',') = toText recordId.val := by
  have hplain : ∀ c ∈ toText recordId.val, decide (c ≠ ',') = true := by
    intro c hc
    refine decide_eq_true fun heq => ?_
    subst heq
    rcases isDigit_or_minus_of_mem_toText hc with hdigit | hminus
    · cases hdigit
    · revert hminus
      decide
  rw [row, List.append_assoc, List.append_assoc, List.append_assoc,
    List.takeWhile_append_of_pos hplain]
  simp

/-- **The order of the rows.** The comparison reads the ids back, so it is the order of the
ids. -/
theorem rowLess_row (id id' : CInt) (nameA nameB nameA' nameB' : Line) :
    rowLess (row id nameA nameB) (row id' nameA' nameB') = decide (id < id') := by
  rw [rowLess, row_takeWhile, row_takeWhile, fromChars_toText, fromChars_toText]

/-- Rows in ascending order stay where they are. -/
theorem sortRows_map {ids : List CInt} (h : Ascending ids) (nameA nameB : CInt → Line) :
    sortRows (ids.map fun id => row id (nameA id) (nameB id)) =
      ids.map fun id => row id (nameA id) (nameB id) := by
  apply List.Pairwise.insertionSort_eq
  rw [List.pairwise_map]
  refine h.imp fun {id id'} hlt => ?_
  rw [rowLess_row]
  exact decide_eq_false (not_lt_of_gt hlt)

/-! ### What the queries list

`operator[]` would insert an empty name under an id that is missing.  In both queries it
is only used with ids that are there, so the queries do not change the tables. -/

variable {db : Database}

/-- The row of an id; a table without the id leaves its column empty. -/
def rowOf (db : Database) (recordId : CInt) : Line :=
  row recordId ((db.tableA.lookup recordId).getD []) ((db.tableB.lookup recordId).getD [])

/-- `operator[]` inserts nothing under an id that is there. -/
theorem subscript_of_mem {table : Rows} {recordId : CInt} (h : recordId ∈ table) :
    subscript table recordId = ((table.lookup recordId).getD [], table) := by
  obtain ⟨name, hname⟩ := Option.isSome_iff_exists.mp (AList.lookup_isSome.mpr h)
  rw [subscript, hname]
  rfl

/-- `operator[]` on an id that is there reads the name and adds nothing. -/
theorem nameOf_eq (table : Rows) (recordId : CInt) :
    nameOf table recordId = ((table.lookup recordId).getD [], table) := by
  unfold nameOf
  split
  · next hmem => exact subscript_of_mem hmem
  · next hmem =>
      rw [AList.lookup_eq_none.mpr hmem]
      rfl

/-- The ids of the intersection. -/
theorem mem_commonIds {recordId : CInt} :
    recordId ∈ commonIds db ↔ recordId ∈ db.tableA ∧ recordId ∈ db.tableB := by
  rw [commonIds, mem_insertIf]
  simp [AList.mem_keys]

/-- The ids of either table. -/
theorem mem_allIds {recordId : CInt} :
    recordId ∈ allIds db ↔ recordId ∈ db.tableA ∨ recordId ∈ db.tableB := by
  rw [allIds, mem_insertIf, mem_insertIf]
  simp [AList.mem_keys]

/-- The ids come out of a `std::set`, in ascending order and each once. -/
theorem commonIds_ascending : Ascending (commonIds db) :=
  Ascending.insertIf List.Pairwise.nil _

/-- The ids of the symmetric difference. -/
def onlyIds (db : Database) : List CInt := (allIds db).filter fun id => id ∉ commonIds db

/-- An id is in one of the tables and not in the other. -/
theorem mem_onlyIds {recordId : CInt} : recordId ∈ onlyIds db ↔
    (recordId ∈ db.tableA ∧ recordId ∉ db.tableB) ∨
      (recordId ∉ db.tableA ∧ recordId ∈ db.tableB) := by
  rw [onlyIds, List.mem_filter, decide_eq_true_eq, mem_allIds, mem_commonIds]
  tauto

/-- So do those of the symmetric difference, which are taken from another one. -/
theorem onlyIds_ascending : Ascending (onlyIds db) :=
  ((Ascending.insertIf List.Pairwise.nil _).insertIf _).filter _

/-- A loop that lists rows and leaves the tables alone. -/
theorem foldl_rows {step : List Line × Database → CInt → List Line × Database}
    {listed : CInt → List Line} {ids : List CInt}
    (hstep : ∀ rows, ∀ id ∈ ids, step (rows, db) id = (rows ++ listed id, db)) (rows : List Line) :
    ids.foldl step (rows, db) = (rows ++ ids.flatMap listed, db) := by
  induction ids generalizing rows with
  | nil => simp
  | cons id ids ih =>
      rw [List.foldl_cons, hstep rows id List.mem_cons_self,
        ih fun rows id hid => hstep rows id (List.mem_cons_of_mem _ hid)]
      simp

/-- **The intersection.** -/
theorem intersection_eq : intersection db = ((commonIds db).map (rowOf db), db) := by
  have hstep (rows : List Line) (id : CInt) (hid : id ∈ commonIds db) :
      appendCommon (rows, db) id = (rows ++ [rowOf db id], db) := by
    obtain ⟨hA, hB⟩ := mem_commonIds.mp hid
    simp only [appendCommon, subscript_of_mem hA, subscript_of_mem hB]
    rfl
  rw [intersection, foldl_rows hstep, List.nil_append, List.map_eq_flatMap]

/-- **The symmetric difference.** -/
theorem symmetricDifference_eq :
    symmetricDifference db = ((onlyIds db).map (rowOf db), db) := by
  have hstep (rows : List Line) (id : CInt) (_ : id ∈ allIds db) :
      appendOnly (commonIds db) (rows, db) id =
        (rows ++ if id ∈ commonIds db then [] else [rowOf db id], db) := by
    unfold appendOnly
    split
    · rw [List.append_nil]
    · simp only [nameOf_eq]
      rfl
  have hrows : (allIds db).flatMap (fun id => if id ∈ commonIds db then [] else [rowOf db id]) =
      (onlyIds db).map (rowOf db) := by
    rw [onlyIds]
    induction allIds db with
    | nil => rfl
    | cons id ids ih =>
        rw [List.flatMap_cons, ih]
        by_cases hid : id ∈ commonIds db
        · simp [hid]
        · simp [hid]
  have hloop := foldl_rows hstep []
  rw [List.nil_append, hrows] at hloop
  simp only [symmetricDifference, hloop]
  exact congrArg (·, db) (sortRows_map onlyIds_ascending _ _)

end JoinServer
