import CppProfessional.JoinServer.Database
import CppProfessional.Transition.Machine
import Mathlib.Data.Finmap

/-!
# The commands of the join server

`process_command` takes a line apart with stream extractions and never asks whether they
have found anything.  On well-formed lines the server is a pair of finite maps.

* `processCommand` — the messages written in answer to a line, and the tables after it;
* `Command`, `Spells` — the commands, and the lines that are one;
* `Answers` — the answer to a command in terms of two finite maps;
* `answers_of_spells` — a well-formed line is answered as the reference answers it.
-/

namespace JoinServer

open Transition Containers Streams
open Async (Line toText isDigit_or_minus_of_mem_toText toText_eq_toString)

/-! ### `SessionImpl::process_command`

A command is read with `operator>>`, whose failures are not tested.  The model of the
extractions says what is in the variables after a failure, so the function is followed
for every line and not for well-formed ones alone. -/

def insertWord : Line := ['I', 'N', 'S', 'E', 'R', 'T']
def truncateWord : Line := ['T', 'R', 'U', 'N', 'C', 'A', 'T', 'E']
def intersectionWord : Line := ['I', 'N', 'T', 'E', 'R', 'S', 'E', 'C', 'T', 'I', 'O', 'N']
def symmetricDifferenceWord : Line :=
  ['S', 'Y', 'M', 'M', 'E', 'T', 'R', 'I', 'C', '_',
    'D', 'I', 'F', 'F', 'E', 'R', 'E', 'N', 'C', 'E']

def okText : Line := ['O', 'K']
def errText : Line := ['E', 'R', 'R']
def duplicateText : Line := errText ++ [' ', 'd', 'u', 'p', 'l', 'i', 'c', 'a', 't', 'e', ' ']
def unknownText : Line :=
  errText ++ [' ', 'u', 'n', 'k', 'n', 'o', 'w', 'n', ' ', 'c', 'o', 'm', 'm', 'a', 'n', 'd']

/-- A line that is written. -/
def message (text : Line) : Line := text ++ ['\n']

/-- The range of `int` is not empty, which `IStream.int` asks for. -/
theorem int_range : (-2 ^ 31 : ℤ) ≤ 2 ^ 31 - 1 := by decide

/-- The arguments of `INSERT`: the table, the id and the name. -/
def insertArguments (iss : IStream) : Line × CInt × Line :=
  let (table, iss) := iss.word []
  let (recordId, iss) := iss.int int_range ⟨0, by decide, by decide⟩
  let (name, _) := iss.ws.getline []
  (table, recordId, name)

/-- `do_write(messages)`: each row is a message of its own. -/
def rowMessages (rows : List Line) : List Line := rows.map message ++ [message okText]

/-- The branches of `process_command`, with the first word and the rest of the line. -/
def dispatch (cmd : Line) (iss : IStream) (db : Database) : List Line × Database :=
  if cmd = insertWord then
    let (table, recordId, name) := insertArguments iss
    let (inserted, db) := insert table recordId name db
    (if inserted then [message okText] else [message (duplicateText ++ toText recordId.val)], db)
  else if cmd = truncateWord then
    let (table, _) := iss.word []
    ([message okText], truncate table db)
  else if cmd = intersectionWord then
    let (result, db) := intersection db
    (rowMessages result, db)
  else if cmd = symmetricDifferenceWord then
    let (result, db) := symmetricDifference db
    (rowMessages result, db)
  else ([message unknownText], db)

/-- `SessionImpl::process_command(command)` -/
def processCommand (line : Line) (db : Database) : List Line × Database :=
  let (cmd, iss) := (IStream.ofText line).word []
  dispatch cmd iss db

/-- The branch of `INSERT`, with the arguments that have been read and what `insert` returned
for them. -/
theorem dispatch_insert {iss : IStream} {db : Database} {args : Line × CInt × Line}
    {result : Bool × Database} (hargs : insertArguments iss = args)
    (h : insert args.1 args.2.1 args.2.2 db = result) :
    dispatch insertWord iss db = (if result.1 then [message okText]
      else [message (duplicateText ++ toText args.2.1.val)], result.2) := by
  subst hargs h
  exact if_pos rfl

/-! ### Well-formed lines

A line is given by the command that it spells and by its blanks.  Names may contain
anything but a line break, and do not begin with a blank, which the extraction would
skip. -/

/-- The two tables. -/
inductive Table
  | A
  | B
  deriving DecidableEq, Repr

def Table.text : Table → Line
  | .A => ['A']
  | .B => ['B']

/-- The commands of the protocol. -/
inductive Command
  | insert (table : Table) (recordId : CInt) (name : Line)
  | truncate (table : Table)
  | intersection
  | symmetricDifference

/-- Blanks inside a line. -/
def Blank (text : Line) : Prop := ∀ c ∈ text, isSpace c = true ∧ c ≠ '\n'

/-- What separates two words of a line. -/
structure Gap (text : Line) : Prop where
  blank : Blank text
  ne_nil : text ≠ []

/-- What a name may be. -/
structure Name (text : Line) : Prop where
  ne_nil : text ≠ []
  line : '\n' ∉ text
  start : ∀ c, text.head? = some c → isSpace c = false

/-- The line is the command, with any blanks around and between its words. -/
inductive Spells : Command → Line → Prop
  | insert {table : Table} {recordId : CInt} {lead gap gap' gap'' numeral name : Line} :
      Blank lead → Gap gap → Gap gap' → Gap gap'' → Numeral numeral recordId.val → Name name →
      Spells (.insert table recordId name)
        (lead ++ (insertWord ++ (gap ++ (table.text ++ (gap' ++ (numeral ++
          (gap'' ++ (name ++ ['\n']))))))))
  | truncate {table : Table} {lead gap trail : Line} : Blank lead → Gap gap → Blank trail →
      Spells (.truncate table)
        (lead ++ (truncateWord ++ (gap ++ (table.text ++ (trail ++ ['\n'])))))
  | intersection {lead trail : Line} : Blank lead → Blank trail →
      Spells .intersection (lead ++ (intersectionWord ++ (trail ++ ['\n'])))
  | symmetricDifference {lead trail : Line} : Blank lead → Blank trail →
      Spells .symmetricDifference (lead ++ (symmetricDifferenceWord ++ (trail ++ ['\n'])))

/-- One of the commands. -/
def WellFormed (line : Line) : Prop := ∃ command, Spells command line

/-! ### The reference

The tables of the reference are finite maps, and its rows are texts of its own.  What
the server prints is compared with these. -/

/-- Two finite maps. -/
abbrev Ref := Table → Finmap fun _ : CInt => Line

/-- The name that a map has for an id, if it has one. -/
def Ref.name (ref : Ref) (table : Table) (recordId : CInt) : Line :=
  ((ref table).lookup recordId).getD []

/-- The line of an id: the number and its two names, with commas between them. -/
def Ref.row (ref : Ref) (recordId : CInt) : Line :=
  [','].intercalate
    [(toString recordId.val).toList, ref.name .A recordId, ref.name .B recordId]

/-- The server puts its rows together piece by piece. -/
theorem Ref.row_eq (ref : Ref) (recordId : CInt) :
    ref.row recordId =
      JoinServer.row recordId (ref.name .A recordId) (ref.name .B recordId) := by
  rw [Ref.row, JoinServer.row, toText_eq_toString]
  simp [List.intercalate, List.intersperse]

/-- The answer to a command. -/
inductive Answers (ref : Ref) : Command → List Line → Ref → Prop
  | inserts {table : Table} {recordId : CInt} {name : Line} : recordId ∉ ref table →
      Answers ref (.insert table recordId name) [message okText]
        (Function.update ref table ((ref table).insert recordId name))
  | rejects {table : Table} {recordId : CInt} {name : Line} : recordId ∈ ref table →
      Answers ref (.insert table recordId name) [message (duplicateText ++ toText recordId.val)] ref
  | truncates {table : Table} :
      Answers ref (.truncate table) [message okText] (Function.update ref table ∅)
  | common {ids : List CInt} : Ascending ids → (∀ id, id ∈ ids ↔ id ∈ ref .A ∧ id ∈ ref .B) →
      Answers ref .intersection (rowMessages (ids.map ref.row)) ref
  | only {ids : List CInt} : Ascending ids →
      (∀ id, id ∈ ids ↔ (id ∈ ref .A ∧ id ∉ ref .B) ∨ (id ∉ ref .A ∧ id ∈ ref .B)) →
      Answers ref .symmetricDifference (rowMessages (ids.map ref.row)) ref

def Database.table (db : Database) : Table → Rows
  | .A => db.tableA
  | .B => db.tableB

/-- The finite maps that the tables are. -/
def Database.ref (db : Database) : Ref := fun table => (db.table table).toFinmap

/-- The rows of the queries are those of the reference. -/
theorem rowOf_eq (db : Database) : rowOf db = db.ref.row := by
  funext recordId
  rw [Ref.row_eq]
  rfl

/-! ### Reading a well-formed line

On a well-formed line every extraction finds what it looks for: blanks are skipped, and
a word or a numeral ends at the next blank. -/

section Reading

variable {lead gap trail rest word : Line} {c : Char}

theorem Blank.isSpace {text : Line} (h : Blank text) : ∀ c ∈ text, isSpace c = true :=
  fun c hc => (h c hc).1

/-- A word: there is no white space in it. -/
structure Solid (text : Line) : Prop where
  plain : (text.all fun c => !Streams.isSpace c) = true
  ne_nil : text ≠ []

theorem Solid.isSpace {text : Line} (h : Solid text) : ∀ c ∈ text, Streams.isSpace c = false := by
  intro c hc
  exact (Bool.not_eq_true' _).mp (List.all_eq_true.mp h.plain c hc)

theorem insertWord_solid : Solid insertWord := ⟨rfl, by decide⟩

theorem truncateWord_solid : Solid truncateWord := ⟨rfl, by decide⟩

theorem intersectionWord_solid : Solid intersectionWord := ⟨rfl, by decide⟩

theorem symmetricDifferenceWord_solid : Solid symmetricDifferenceWord := ⟨rfl, by decide⟩

theorem Table.text_solid (table : Table) : Solid table.text := by
  cases table <;> exact ⟨rfl, by decide⟩

/-- A word and the blank after it. -/
theorem word_spelled (hlead : Blank lead) (hword : Solid word) (hgap : Gap gap) :
    (IStream.ofText (lead ++ (word ++ (gap ++ rest)))).word [] =
      (word, IStream.ofText (gap ++ rest)) := by
  obtain ⟨c, gap, rfl⟩ := List.exists_cons_of_ne_nil hgap.ne_nil
  exact IStream.word_ofText [] hlead.isSpace hword.isSpace hword.ne_nil
    (hgap.blank.isSpace c List.mem_cons_self)

/-- The last word of a line. -/
theorem last_word_spelled (hlead : Blank lead) (hword : Solid word) (htrail : Blank trail) :
    (IStream.ofText (lead ++ (word ++ (trail ++ ['\n'])))).word [] =
      (word, IStream.ofText (trail ++ ['\n'])) := by
  cases trail with
  | nil => exact IStream.word_ofText [] hlead.isSpace hword.isSpace hword.ne_nil (by decide)
  | cons c trail =>
      exact IStream.word_ofText [] hlead.isSpace hword.isSpace hword.ne_nil
        (htrail.isSpace c List.mem_cons_self)

/-- **The arguments of a well-formed `INSERT`** are read one after the other; the name is the
rest of the line, blanks in it included. -/
theorem insertArguments_spelled (table : Table) {recordId : CInt}
    {gap gap' gap'' numeral name : Line} (hgap : Gap gap) (hgap' : Gap gap') (hgap'' : Gap gap'')
    (hnumeral : Numeral numeral recordId.val) (hname : Name name) :
    insertArguments (IStream.ofText (gap ++ (table.text ++ (gap' ++ (numeral ++
      (gap'' ++ (name ++ ['\n']))))))) = (table.text, recordId, name) := by
  obtain ⟨c, name, rfl⟩ := List.exists_cons_of_ne_nil hname.ne_nil
  obtain ⟨d, blanks, rfl⟩ := List.exists_cons_of_ne_nil hgap''.ne_nil
  have hd : d.isDigit = false := by
    by_contra hdigit
    have hspace := hgap''.blank.isSpace d List.mem_cons_self
    rw [isSpace_of_isDigit (Bool.not_eq_false _ ▸ hdigit)] at hspace
    cases hspace
  unfold insertArguments
  rw [word_spelled hgap.blank table.text_solid hgap']
  have hint (old : CInt) : (IStream.ofText (gap' ++ (numeral ++ (d :: blanks ++
      (c :: name ++ ['\n']))))).int int_range old =
        (recordId, IStream.ofText (d :: blanks ++ (c :: name ++ ['\n']))) :=
    IStream.int_ofText int_range old recordId hgap'.blank.isSpace hnumeral hd
  have hline : (IStream.ofText (d :: blanks ++ (c :: name ++ ['\n']))).ws.getline [] =
      (c :: name, IStream.ofText []) :=
    IStream.getline_ws_ofText [] hgap''.blank.isSpace (hname.start c rfl) hname.line
  simp only [hint, hline]

/-! ### The answers

With the line read, each of the four commands is a statement about the two maps. -/

variable {db : Database} {line : Line}

theorem mem_ref {table : Table} {recordId : CInt} :
    recordId ∈ db.ref table ↔ recordId ∈ db.table table :=
  Finmap.mem_toFinmap

/-- A change of the first table changes the reference there alone. -/
theorem ref_tableA (rows : Rows) :
    Database.ref { db with tableA := rows } = Function.update db.ref .A rows.toFinmap := by
  funext table
  cases table <;> rfl

/-- A change of the second table changes the reference there alone. -/
theorem ref_tableB (rows : Rows) :
    Database.ref { db with tableB := rows } = Function.update db.ref .B rows.toFinmap := by
  funext table
  cases table <;> rfl

/-- What `Database::insert` does to a table that exists: it refuses an id that is there, or
adds the row and leaves the other table alone. -/
theorem insert_table (db : Database) (table : Table) (recordId : CInt) (name : Line) :
    (recordId ∈ db.ref table ∧ insert table.text recordId name db = (false, db)) ∨
      (recordId ∉ db.ref table ∧ ∃ db', insert table.text recordId name db = (true, db') ∧
        db'.ref = Function.update db.ref table ((db.ref table).insert recordId name)) := by
  rw [mem_ref]
  unfold insert
  cases table with
  | A =>
      rw [if_pos (show Table.A.text = ['A'] from rfl)]
      by_cases hmem : recordId ∈ db.tableA
      · exact Or.inl ⟨hmem, if_pos hmem⟩
      · refine Or.inr ⟨hmem, _, if_neg hmem, ?_⟩
        rw [ref_tableA]
        exact congrArg _ (Finmap.insert_toFinmap recordId name db.tableA).symm
  | B =>
      rw [if_neg (show Table.B.text ≠ ['A'] by decide), if_pos (show Table.B.text = ['B'] from rfl)]
      by_cases hmem : recordId ∈ db.tableB
      · exact Or.inl ⟨hmem, if_pos hmem⟩
      · refine Or.inr ⟨hmem, _, if_neg hmem, ?_⟩
        rw [ref_tableB]
        exact congrArg _ (Finmap.insert_toFinmap recordId name db.tableB).symm

/-- `TRUNCATE` of a table empties it in the reference and leaves the other one alone. -/
theorem truncate_table (table : Table) :
    (truncate table.text db).ref = Function.update db.ref table ∅ := by
  cases table with
  | A => exact ref_tableA ∅
  | B => exact ref_tableB ∅

/-- **A well-formed line is answered as the reference answers it**, and the tables are those of
the reference afterwards; one case for each of the four commands. -/
theorem answers_of_spells (db : Database) {command : Command} (h : Spells command line) :
    Answers db.ref command (processCommand line db).1 (processCommand line db).2.ref := by
  cases h with
  | @insert table recordId _ _ _ _ _ name hlead hgap hgap' hgap'' hnumeral hname =>
      have hargs := insertArguments_spelled table hgap hgap' hgap'' hnumeral hname
      unfold processCommand
      rw [word_spelled hlead insertWord_solid hgap]
      show Answers db.ref _ (dispatch insertWord _ db).1 (dispatch insertWord _ db).2.ref
      rcases insert_table db table recordId name with ⟨hmem, hinsert⟩ | ⟨hmem, db', hinsert, href⟩
      · rw [dispatch_insert hargs hinsert]
        exact .rejects hmem
      · rw [dispatch_insert hargs hinsert]
        show Answers db.ref _ _ db'.ref
        rw [href]
        exact .inserts hmem
  | truncate hlead hgap htrail =>
      unfold processCommand
      rw [word_spelled hlead truncateWord_solid hgap]
      show Answers db.ref _ (dispatch truncateWord _ db).1 (dispatch truncateWord _ db).2.ref
      rw [dispatch, if_neg (by decide), if_pos rfl,
        last_word_spelled hgap.blank (Table.text_solid _) htrail]
      show Answers db.ref _ _ (truncate _ db).ref
      rw [truncate_table]
      exact .truncates
  | intersection hlead htrail =>
      unfold processCommand
      rw [last_word_spelled hlead intersectionWord_solid htrail]
      show Answers db.ref _ (dispatch intersectionWord _ db).1
        (dispatch intersectionWord _ db).2.ref
      rw [dispatch, if_neg (by decide), if_neg (by decide), if_pos rfl, intersection_eq,
        rowOf_eq]
      refine .common commonIds_ascending fun id => ?_
      rw [mem_commonIds, mem_ref, mem_ref]
      rfl
  | symmetricDifference hlead htrail =>
      unfold processCommand
      rw [last_word_spelled hlead symmetricDifferenceWord_solid htrail]
      show Answers db.ref _ (dispatch symmetricDifferenceWord _ db).1
        (dispatch symmetricDifferenceWord _ db).2.ref
      rw [dispatch, if_neg (by decide), if_neg (by decide), if_neg (by decide), if_pos rfl,
        symmetricDifference_eq, rowOf_eq]
      refine .only onlyIds_ascending fun id => ?_
      rw [mem_onlyIds, mem_ref, mem_ref]
      rfl

end Reading

end JoinServer
