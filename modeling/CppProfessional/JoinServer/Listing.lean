import CppProfessional.JoinServer.Protocol

/-!
# Reading the listings

The two queries list all rows of both tables between them, as text.  A client that splits
a row at its first two commas, and takes an empty field for a row that is not there, reads
the tables back; but a name may have commas.

* `readRow`, `readName` — the client;
* `Named` — no name is empty, which well-formed commands keep;
* `tables_restored_iff` — the listings of both queries give the tables back exactly if no
  name of table A has a comma.
-/

namespace JoinServer

open Transition Containers Streams
open Async (Line toText isDigit_or_minus_of_mem_toText)

/-! ### The client

A client cuts a row at its first two commas.  The id has no comma, so only the first of
the two names can disturb the cut. -/

/-- The names of a row. -/
structure Names where
  nameA : Line
  nameB : Line

def Names.get (names : Names) : Table → Line
  | .A => names.nameA
  | .B => names.nameB

/-- The names behind the first comma of a row. -/
def splitNames (text : Line) : Names :=
  ⟨text.takeWhile (· ≠ ','), (text.dropWhile (· ≠ ',')).tail⟩

/-- The id and the names of a row. -/
def readRow (text : Line) : Option (CInt × Names) :=
  (fromChars (text.takeWhile (· ≠ ','))).map fun recordId =>
    (recordId, splitNames (text.dropWhile (· ≠ ',')).tail)

/-- The name under an id. -/
def readName (rows : List Line) (table : Table) (recordId : CInt) : Option Line :=
  ((rows.filterMap readRow).find? (·.1 = recordId)).bind fun entry =>
    if entry.2.get table = [] then none else some (entry.2.get table)

/-- The rows of both queries. -/
def listing (db : Database) : List Line := (intersection db).1 ++ (symmetricDifference db).1

/-- No name is empty. -/
def Named (db : Database) : Prop := ∀ table id, ∀ name ∈ (db.table table).lookup id, name ≠ []

section Reading

variable {db : Database} {recordId : CInt} {nameA nameB : Line}

/-- What follows the id in a row, its comma included. -/
theorem row_dropWhile (recordId : CInt) (nameA nameB : Line) :
    (row recordId nameA nameB).dropWhile (· ≠ ',') = ',' :: (nameA ++ ',' :: nameB) := by
  have hsplit := List.takeWhile_append_dropWhile (p := fun c => decide (c ≠ ','))
    (l := row recordId nameA nameB)
  rw [row_takeWhile] at hsplit
  refine List.append_cancel_left (hsplit.trans ?_)
  simp [row]

/-- A row is read back as its id and the names, as far as these can be told apart. -/
theorem readRow_row (recordId : CInt) (nameA nameB : Line) :
    readRow (row recordId nameA nameB) = some (recordId, splitNames (nameA ++ ',' :: nameB)) := by
  rw [readRow, row_takeWhile, fromChars_toText, row_dropWhile]
  rfl

/-- The names of a row are read exactly if there is no comma in the first one. -/
theorem splitNames_eq_iff :
    splitNames (nameA ++ ',' :: nameB) = ⟨nameA, nameB⟩ ↔ ',' ∉ nameA := by
  constructor
  · intro h hmem
    have hnameA : (nameA ++ ',' :: nameB).takeWhile (· ≠ ',') = nameA := congrArg Names.nameA h
    rw [← hnameA] at hmem
    have hplain := List.mem_takeWhile_imp hmem
    exact of_decide_eq_true hplain rfl
  · intro h
    have hplain : ∀ c ∈ nameA, decide (c ≠ ',') = true :=
      fun c hc => decide_eq_true fun heq => h (heq ▸ hc)
    have hstop : decide (',' ≠ ',') = false := by decide
    rw [splitNames, takeWhile_stop hplain hstop, dropWhile_stop hplain hstop]
    rfl

/-- The text of a name, if it is not empty. -/
def nonempty (name : Line) : Option Line := if name = [] then none else some name

/-- The names that are read under an id. -/
def namesRead (db : Database) (recordId : CInt) : Names :=
  splitNames ((db.tableA.lookup recordId).getD [] ++ ',' :: (db.tableB.lookup recordId).getD [])

/-- The name that a reader finds under an id: the first row with that id decides, and rows of
one id are the same row. -/
theorem readName_map (db : Database) (ids : List CInt) (table : Table) (recordId : CInt) :
    readName (ids.map (rowOf db)) table recordId =
      if recordId ∈ ids then nonempty ((namesRead db recordId).get table) else none := by
  have hread : (ids.map (rowOf db)).filterMap readRow =
      ids.map fun id => (id, namesRead db id) := by
    rw [List.filterMap_map, ← List.filterMap_eq_map]
    exact List.filterMap_congr fun id _ => readRow_row id _ _
  rw [readName, hread]
  clear hread
  induction ids with
  | nil => rfl
  | cons id ids ih =>
      by_cases hid : id = recordId
      · rw [if_pos (hid ▸ List.mem_cons_self)]
        simp only [List.map_cons, List.find?_cons, hid, decide_true]
        rfl
      · simp only [List.map_cons, List.find?_cons, hid, decide_false, ih, List.mem_cons,
          Ne.symm hid, false_or]

theorem listing_eq (db : Database) : listing db = (commonIds db ++ onlyIds db).map (rowOf db) := by
  rw [listing, intersection_eq, symmetricDifference_eq, List.map_append]

/-- Every id of either table is in one of the two answers. -/
theorem mem_listed : recordId ∈ commonIds db ++ onlyIds db ↔
    recordId ∈ db.tableA ∨ recordId ∈ db.tableB := by
  rw [List.mem_append, mem_commonIds, mem_onlyIds]
  tauto

/-- A table that has a name for every id it has is read back. -/
theorem nonempty_getD (h : Named db) (table : Table) (recordId : CInt) :
    nonempty (((db.table table).lookup recordId).getD []) = (db.table table).lookup recordId := by
  cases hname : (db.table table).lookup recordId with
  | none => rfl
  | some name => exact if_neg (h table recordId name hname)

/-- **Which tables are read back**, in terms of their names.  A comma in a name of the first
table moves the border between the two names; one in the second table does not. -/
theorem readName_listing_iff (h : Named db) :
    (∀ table id, readName (listing db) table id = (db.table table).lookup id) ↔
      ∀ id, ∀ name ∈ db.tableA.lookup id, ',' ∉ name := by
  have hlisted {id : CInt} (hid : id ∈ db.tableA ∨ id ∈ db.tableB) (table : Table) :
      readName (listing db) table id = nonempty ((namesRead db id).get table) := by
    rw [listing_eq, readName_map, if_pos (mem_listed.mpr hid)]
  constructor
  · intro hread id name hname hcomma
    have hmem : id ∈ db.tableA := AList.lookup_isSome.mp (by rw [hname]; rfl)
    have hnameA : nonempty ((namesRead db id).get .A) = some name := by
      rw [← hlisted (Or.inl hmem), hread]
      exact hname
    obtain ⟨-, hsame⟩ := Option.ite_none_left_eq_some.mp hnameA
    rw [← Option.some.inj hsame] at hcomma
    have hplain := List.mem_takeWhile_imp hcomma
    exact of_decide_eq_true hplain rfl
  · intro hplain table id
    by_cases hid : id ∈ db.tableA ∨ id ∈ db.tableB
    · have hcomma : ',' ∉ (db.tableA.lookup id).getD [] := by
        cases hname : db.tableA.lookup id with
        | none => exact List.not_mem_nil
        | some name => exact hplain id name hname
      rw [hlisted hid, namesRead, splitNames_eq_iff.mpr hcomma, ← nonempty_getD h table id]
      cases table <;> rfl
    · rw [listing_eq, readName_map, if_neg (mt mem_listed.mp hid)]
      obtain ⟨hA, hB⟩ := not_or.mp hid
      cases table with
      | A => exact (AList.lookup_eq_none.mpr hA).symm
      | B => exact (AList.lookup_eq_none.mpr hB).symm

end Reading

/-! ### Every run

Well-formed commands never insert an empty name.  An empty field in a listing therefore
means that the table has no row, and this is what a client relies on. -/

variable {ι : Type} {db : Database} {trace : List ((ι × Line) × List Line)}

theorem lookup_ref (db : Database) (table : Table) (recordId : CInt) :
    (db.ref table).lookup recordId = (db.table table).lookup recordId :=
  Finmap.lookup_toFinmap recordId (db.table table)

/-- A well-formed command keeps names that are not empty, since the name of a well-formed
`INSERT` is not. -/
theorem named_processCommand {line : Line} (hspells : WellFormed line) (h : Named db) :
    Named (processCommand line db).2 := by
  obtain ⟨command, hspells⟩ := hspells
  have hanswers := answers_of_spells db hspells
  intro table id name hname
  rw [← lookup_ref] at hname
  have hold : name ∈ (db.ref table).lookup id → name ≠ [] := by
    rw [lookup_ref]
    exact h table id name
  generalize (processCommand line db).1 = response at hanswers
  generalize (processCommand line db).2.ref = ref at hanswers hname
  cases hanswers with
  | @inserts inserted recordId added _ =>
      have hadded : added ≠ [] := by
        cases hspells with
        | insert _ _ _ _ _ hadded => exact hadded.ne_nil
      by_cases htable : table = inserted
      · subst htable
        rw [Function.update_self] at hname
        by_cases hid : id = recordId
        · subst hid
          rw [Finmap.lookup_insert] at hname
          cases hname
          exact hadded
        · rw [Finmap.lookup_insert_of_ne _ hid] at hname
          exact hold hname
      · rw [Function.update_of_ne htable] at hname
        exact hold hname
  | @truncates cleared =>
      by_cases htable : table = cleared
      · subst htable
        rw [Function.update_self, Finmap.lookup_empty] at hname
        cases hname
      · rw [Function.update_of_ne htable] at hname
        exact hold hname
  | rejects _ | common _ _ | only _ _ => exact hold hname

/-- **Which tables a client can read back.**  After well-formed commands of any sessions, the
listings of the two queries give both tables back exactly if no name of table A has a comma
in it. -/
theorem tables_restored_iff (h : (machine ι).Execution trace db)
    (hspells : ∀ x ∈ trace, WellFormed x.1.2) :
    (∀ table id, readName (listing db) table id = (db.table table).lookup id) ↔
      ∀ id, ∀ name ∈ db.tableA.lookup id, ',' ∉ name := by
  refine readName_listing_iff ?_
  have hnamed : (∀ x ∈ trace, WellFormed x.1.2) → Named db := by
    refine h.induct (I := fun trace db => (∀ x ∈ trace, WellFormed x.1.2) → Named db) ?_ ?_
    · rintro db rfl - table id name hname
      cases table <;> cases hname
    · rintro trace db e response db' - ih hs hspells
      have hlast := hspells (e, response) (by simp)
      have hkeeps := named_processCommand hlast
        (ih fun x hx => hspells x (List.mem_append_left _ hx))
      rw [show processCommand e.2 db = (response, db') from Option.some.inj hs] at hkeeps
      exact hkeeps
  exact hnamed hspells

/-- `INSERT A 1 x,y` -/
def commaLine : Line := insertWord ++ [' ', 'A', ' ', '1', ' ', 'x', ',', 'y', '\n']

/-- A name with a comma in it is a name that the server takes. -/
theorem commaLine_wellFormed : WellFormed commaLine := by
  have hblank : Blank [] := fun _ hc => nomatch hc
  have hgap : Gap [' '] := by
    refine ⟨fun c hc => ?_, by decide⟩
    rw [List.mem_singleton.mp hc]
    decide
  have hnumeral : Numeral ['1'] 1 := by
    refine .plain (by decide) fun c hc => ?_
    rw [List.mem_singleton.mp hc]
    rfl
  have hname : Name ['x', ',', 'y'] := by
    refine ⟨by decide, by decide, fun c hc => ?_⟩
    obtain rfl := Option.some.inj hc
    decide
  have hspells : Spells (.insert .A ⟨1, by decide, by decide⟩ ['x', ',', 'y'])
      ([] ++ (insertWord ++ ([' '] ++ (Table.A.text ++ ([' '] ++ (['1'] ++
        ([' '] ++ (['x', ',', 'y'] ++ ['\n'])))))))) :=
    .insert hblank hgap hgap hgap hnumeral hname
  exact ⟨_, hspells⟩

/-- The name is not read back. -/
theorem tables_restored_iff_commaLine :
    ¬ ∀ table id, readName (listing (processCommand commaLine .empty).2) table id =
      ((processCommand commaLine .empty).2.table table).lookup id := by
  have hexec : (machine Unit).Execution [(((), commaLine), (processCommand commaLine .empty).1)]
      (processCommand commaLine .empty).2 :=
    Machine.Execution.snoc ⟨_, rfl, .refl⟩ rfl
  have hwell : ∀ x ∈ [(((), commaLine), (processCommand commaLine .empty).1)],
      WellFormed x.1.2 := by
    intro x hx
    rw [List.mem_singleton.mp hx]
    exact commaLine_wellFormed
  rw [tables_restored_iff hexec hwell]
  intro hplain
  have hname : (processCommand commaLine .empty).2.tableA.lookup ⟨1, by decide, by decide⟩ =
      some ['x', ',', 'y'] := by
    decide +kernel
  exact hplain _ _ hname (by decide)

end JoinServer
