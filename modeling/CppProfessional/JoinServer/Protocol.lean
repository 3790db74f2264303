import CppProfessional.JoinServer.Commands

/-!
# The protocol of the join server

The sessions of all clients share the two tables, and a command is handled from its line
to its answer before the next one.  `answers_of_reference` is the meaning of the server
on well-formed lines; `rejected_iff` says which malformed lines are rejected.

* `machine` — the server, one step for each line of a session;
* `Meaning` — a history of lines and answers that the reference agrees with;
* `Rejected` — what the protocol promises for lines that are no command.

A session has nothing of its own that an answer could depend on.  The events carry a session
only so that a history can be told apart by clients, and the meaning of the server is a
property of the whole history: the answers are those that the reference gives when it is asked
the same lines in the same order.
-/

namespace JoinServer

open Transition Containers Streams
open Async (Line toText isDigit_or_minus_of_mem_toText)

/-! ### All sessions

A command holds the mutexes of the tables that it uses from its beginning to its end, so
the commands of all sessions come in one order.  In this order they are the commands of
the reference. -/

/-- The server; an event is a session and a line that has arrived over it. -/
def machine (ι : Type) : Machine Database (ι × Line) (List Line) where
  init := (· = .empty)
  step db e := some (processCommand e.2 db)

/-- The lines of the history are commands, and their answers are those of the reference,
which ends with the given maps. -/
inductive Meaning {ι : Type} : List ((ι × Line) × List Line) → Ref → Prop
  | start : Meaning [] fun _ => ∅
  | step {history : List ((ι × Line) × List Line)} {ref ref' : Ref} {session : ι} {line : Line}
      {command : Command} {response : List Line} : Meaning history ref → Spells command line →
      Answers ref command response ref' →
      Meaning (history ++ [((session, line), response)]) ref'

variable {ι : Type} {db : Database} {trace : List ((ι × Line) × List Line)}

/-- An id that some table of the reference has. -/
theorem exists_mem_ref {id : CInt} :
    (∃ table, id ∈ db.ref table) ↔ id ∈ db.tableA ∨ id ∈ db.tableB := by
  constructor
  · rintro ⟨table, hmem⟩
    rw [mem_ref] at hmem
    cases table with
    | A => exact Or.inl hmem
    | B => exact Or.inr hmem
  · rintro (hA | hB)
    · exact ⟨.A, mem_ref.mpr hA⟩
    · exact ⟨.B, mem_ref.mpr hB⟩

theorem empty_ref : Database.empty.ref = fun _ => ∅ := by
  funext table
  cases table <;> rfl

/-- **The meaning of the server.**  However the sessions take turns, their well-formed
commands are answered as by two finite maps.  The two queries list ids in ascending
order, no id is in both lists, every id of a table is in one of them, and the tables stay
as they are. -/
theorem answers_of_reference (h : (machine ι).Execution trace db)
    (hspells : ∀ x ∈ trace, WellFormed x.1.2) :
    Meaning trace db.ref ∧
      ∃ common only : List CInt,
        intersection db = (common.map db.ref.row, db) ∧
        symmetricDifference db = (only.map db.ref.row, db) ∧
        Ascending common ∧ Ascending only ∧ List.Disjoint common only ∧
        ∀ id, (∃ table, id ∈ db.ref table) ↔ id ∈ common ∨ id ∈ only := by
  constructor
  · have hrun : (∀ x ∈ trace, WellFormed x.1.2) → Meaning trace db.ref := by
      refine h.induct
        (I := fun trace db => (∀ x ∈ trace, WellFormed x.1.2) → Meaning trace db.ref) ?_ ?_
      · rintro s rfl -
        rw [empty_ref]
        exact .start
      · rintro trace db ⟨session, line⟩ response db' - ih hs hspells
        obtain ⟨command, hcommand⟩ := hspells ((session, line), response) (by simp)
        have hanswers := answers_of_spells db hcommand
        rw [show processCommand line db = (response, db') from Option.some.inj hs] at hanswers
        exact .step (ih fun x hx => hspells x (List.mem_append_left _ hx)) hcommand hanswers
    exact hrun hspells
  · refine ⟨commonIds db, onlyIds db, ?_, ?_, commonIds_ascending, onlyIds_ascending, ?_,
      fun id => ?_⟩
    · rw [← rowOf_eq]
      exact intersection_eq
    · rw [← rowOf_eq]
      exact symmetricDifference_eq
    · intro id hcommon honly
      rw [mem_commonIds] at hcommon
      rw [mem_onlyIds] at honly
      tauto
    · rw [exists_mem_ref, mem_commonIds, mem_onlyIds]
      tauto

/-- The lines of two sessions: one inserts a row, the other one asks for it. -/
def twoLines : List (Bool × Line) :=
  [(false, insertWord ++ [' ', 'B', ' ', '-', '2', ' ', 'y', ',', 'z', '\n']),
    (true, symmetricDifferenceWord ++ ['\n'])]

theorem answers_of_reference_twoLines :
    Meaning ((machine Bool).play .empty twoLines (by decide +kernel)).1
      ((machine Bool).play .empty twoLines (by decide +kernel)).2.ref := by
  refine (answers_of_reference (Machine.execution_play rfl _) fun x hx => ?_).1
  have hevents : ((machine Bool).play .empty twoLines (by decide +kernel)).1.map Prod.fst =
      twoLines := by
    decide +kernel
  have hline : x.1 ∈ twoLines := hevents ▸ List.mem_map_of_mem hx
  have hblank : Blank [] := fun _ hc => nomatch hc
  have hgap : Gap [' '] := by
    refine ⟨fun c hc => ?_, by decide⟩
    rw [List.mem_singleton.mp hc]
    decide
  rcases List.mem_cons.mp hline with hinsert | hquery
  · have hnumeral : Numeral ['-', '2'] (-2) := by
      refine .minus (by decide) fun c hc => ?_
      rw [List.mem_singleton.mp hc]
      rfl
    have hname : Name ['y', ',', 'z'] := by
      refine ⟨by decide, by decide, fun c hc => ?_⟩
      obtain rfl := Option.some.inj hc
      decide
    have hspells : Spells (.insert .B ⟨-2, by decide, by decide⟩ ['y', ',', 'z'])
        ([] ++ (insertWord ++ ([' '] ++ (Table.B.text ++ ([' '] ++ (['-', '2'] ++
          ([' '] ++ (['y', ',', 'z'] ++ ['\n'])))))))) :=
      .insert hblank hgap hgap hgap hnumeral hname
    rw [hinsert]
    exact ⟨_, hspells⟩
  · rw [List.mem_singleton.mp hquery]
    exact ⟨.symmetricDifference, .symmetricDifference hblank hblank⟩

/-! ### Lines that are no command

What should happen to such a line is clear, an error and no effect.  This is what an
unknown first word gets; behind one of the four words the rest of the line is never
checked. -/

variable {line : Line}

/-- The first word of a line. -/
def firstWord (line : Line) : Line := ((IStream.ofText line).word []).1

/-- What `INSERT` would read from the rest of the line. -/
def arguments (line : Line) : Line × CInt × Line :=
  insertArguments ((IStream.ofText line).word []).2

/-- A line that is no command is answered with a single line of error and changes
nothing, and an id is called a duplicate only if it is in the table that is named. -/
structure Rejected (line : Line) (db : Database) : Prop where
  error : ¬ WellFormed line → (∃ text, (processCommand line db).1 = [message text] ∧
    errText <+: text ∧ '\n' ∉ text) ∧ (processCommand line db).2 = db
  duplicate : ∀ answer ∈ (processCommand line db).1, duplicateText <+: answer →
    ∃ table id, (arguments line).1 = Table.text table ∧ id ∈ db.ref table ∧
      answer = message (duplicateText ++ toText id.val)

theorem message_injective : Function.Injective message :=
  fun _ _ h => List.append_cancel_right h

/-- A row starts with a digit or a minus sign. -/
theorem not_prefix_row {recordId : CInt} {nameA nameB : Line} :
    ¬ duplicateText <+: message (row recordId nameA nameB) := by
  intro hfront
  obtain ⟨c, rest, htext⟩ := List.exists_cons_of_ne_nil (Async.toText_ne_nil recordId.val)
  have hc : c ∈ toText recordId.val := htext ▸ List.mem_cons_self
  obtain ⟨tail, htail⟩ := hfront
  have hhead : 'E' = c := by
    have hsame := congrArg List.head? htail
    simpa [message, row, htext, duplicateText, errText] using hsame
  subst hhead
  rcases isDigit_or_minus_of_mem_toText hc with hdigit | hminus
  · cases hdigit
  · revert hminus
    decide

/-- A line that is answered with rows and `OK` is not rejected, so all is well with it exactly
if it is a command. -/
theorem rejected_iff_wellFormed (ids : List CInt)
    (h : (processCommand line db).1 = rowMessages (ids.map (rowOf db))) :
    Rejected line db ↔ WellFormed line := by
  constructor
  · intro hrejected
    by_contra hmalformed
    obtain ⟨⟨text, hsingle, hfront, -⟩, -⟩ := hrejected.error hmalformed
    have hok : message okText ∈ [message text] := by
      rw [← hsingle, h]
      exact List.mem_append_right _ (List.mem_singleton_self _)
    rw [← message_injective (List.mem_singleton.mp hok)] at hfront
    exact absurd hfront (by decide)
  · intro hwell
    refine ⟨fun hmalformed => absurd hwell hmalformed, fun answer hanswer hfront => ?_⟩
    rw [h] at hanswer
    rcases List.mem_append.mp hanswer with hrow | hok
    · obtain ⟨text, htext, rfl⟩ := List.mem_map.mp hrow
      obtain ⟨id, -, rfl⟩ := List.mem_map.mp htext
      exact absurd hfront not_prefix_row
    · rw [List.mem_singleton.mp hok] at hfront
      exact absurd hfront (by decide)

/-- A well-formed line with the first word `INSERT` has arguments. -/
theorem arguments_of_wellFormed (h : WellFormed line) (hinsert : firstWord line = insertWord) :
    ∃ table recordId name, Name name ∧ arguments line = (Table.text table, recordId, name) := by
  obtain ⟨command, hspells⟩ := h
  cases hspells with
  | @insert table recordId _ _ _ _ _ name hlead hgap hgap' hgap'' hnumeral hname =>
      refine ⟨table, recordId, name, hname, ?_⟩
      rw [arguments, word_spelled hlead insertWord_solid hgap]
      exact insertArguments_spelled _ hgap hgap' hgap'' hnumeral hname
  | truncate hlead hgap _ =>
      rw [firstWord, word_spelled hlead truncateWord_solid hgap] at hinsert
      cases hinsert
  | intersection hlead htrail =>
      rw [firstWord, last_word_spelled hlead intersectionWord_solid htrail] at hinsert
      cases hinsert
  | symmetricDifference hlead htrail =>
      rw [firstWord, last_word_spelled hlead symmetricDifferenceWord_solid htrail] at hinsert
      cases hinsert

/-- The first word of a command. -/
def commandWords : List Line :=
  [insertWord, truncateWord, intersectionWord, symmetricDifferenceWord]

theorem table_text_injective : Function.Injective Table.text := by
  intro table table' h
  cases table <;> cases table' <;> first | rfl | cases h

/-- An id is printed on one line. -/
theorem toText_newline (recordId : CInt) : '\n' ∉ toText recordId.val := by
  intro hmem
  rcases isDigit_or_minus_of_mem_toText hmem with hdigit | hminus
  · cases hdigit
  · revert hminus
    decide

/-- `Database::insert` fails for a table that does not exist. -/
theorem insert_other {table : Line} (h : ∀ t, table ≠ Table.text t) (recordId : CInt)
    (name : Line) : insert table recordId name db = (false, db) := by
  unfold insert
  rw [if_neg (show table ≠ ['A'] from h .A), if_neg (show table ≠ ['B'] from h .B)]

/-- An `INSERT` that is no command is rejected only by accident: whatever id the failed
extraction has left, the row is refused if that id happens to be in the table. -/
theorem rejected_iff_of_insert (hinsert : firstWord line = insertWord) :
    Rejected line db ↔ WellFormed line ∨
      ∃ table, (arguments line).1 = Table.text table ∧ (arguments line).2.1 ∈ db.ref table := by
  have hresult {result : Bool × Database}
      (h : insert (arguments line).1 (arguments line).2.1 (arguments line).2.2 db = result) :
      processCommand line db = (if result.1 then [message okText]
        else [message (duplicateText ++ toText (arguments line).2.1.val)], result.2) := by
    show dispatch (firstWord line) _ db = _
    rw [hinsert]
    exact dispatch_insert rfl h
  by_cases htable : ∃ table, (arguments line).1 = Table.text table
  · obtain ⟨table, htable⟩ := htable
    rcases insert_table db table (arguments line).2.1 (arguments line).2.2 with
      ⟨hheld, hfails⟩ | ⟨hfresh, db', hworks, -⟩
    · rw [← htable] at hfails
      have hanswer := hresult hfails
      refine iff_of_true ⟨fun _ => ?_, fun answer hmem _ => ?_⟩ (Or.inr ⟨table, htable, hheld⟩)
      · rw [hanswer]
        refine ⟨⟨_, rfl, ⟨_, (List.append_assoc _ _ _).symm⟩, fun hmem => ?_⟩, rfl⟩
        rcases List.mem_append.mp hmem with htext | hid
        · exact absurd htext (by decide)
        · exact toText_newline _ hid
      · rw [hanswer] at hmem
        exact ⟨table, _, htable, hheld, List.mem_singleton.mp hmem⟩
    · rw [← htable] at hworks
      rw [rejected_iff_wellFormed [] (congrArg Prod.fst (hresult hworks))]
      refine ⟨Or.inl, fun h => h.resolve_right ?_⟩
      rintro ⟨table', htable', hheld⟩
      rw [table_text_injective (htable'.symm.trans htable)] at hheld
      exact hfresh hheld
  · -- the answer calls an id a duplicate in a table that does not exist
    have hanswer := hresult (insert_other (not_exists.mp htable) _ _)
    refine iff_of_false (fun hrejected => ?_) ?_
    · obtain ⟨table, -, hnamed, -⟩ := hrejected.duplicate _
        (by rw [hanswer]; exact List.mem_singleton_self _) (List.prefix_append _ _)
      exact htable ⟨table, hnamed⟩
    · rintro (hwell | ⟨table, hnamed, -⟩)
      · obtain ⟨table, recordId, name, -, hargs⟩ := arguments_of_wellFormed hwell hinsert
        exact htable ⟨table, congrArg Prod.fst hargs⟩
      · exact htable ⟨table, hnamed⟩

/-- **Which lines are rejected.**  A line that is no command is rejected without effect
exactly if its first word is none of the four, or if it is an `INSERT` whose table exists
and holds the id that the extraction reads. -/
theorem rejected_iff (line : Line) (db : Database) :
    Rejected line db ↔ WellFormed line ∨ firstWord line ∉ commandWords ∨
      (firstWord line = insertWord ∧
        ∃ table, (arguments line).1 = Table.text table ∧ (arguments line).2.1 ∈ db.ref table) := by
  have hline : processCommand line db =
      dispatch (firstWord line) ((IStream.ofText line).word []).2 db := rfl
  have hmatters (hword : firstWord line ∈ commandWords) (hne : firstWord line ≠ insertWord)
      (hok : Rejected line db ↔ WellFormed line) : Rejected line db ↔ WellFormed line ∨
        firstWord line ∉ commandWords ∨ (firstWord line = insertWord ∧
          ∃ table, (arguments line).1 = Table.text table ∧
            (arguments line).2.1 ∈ db.ref table) := by
    rw [hok]
    tauto
  by_cases hinsert : firstWord line = insertWord
  · rw [rejected_iff_of_insert hinsert]
    have hword : firstWord line ∈ commandWords := by simp [hinsert, commandWords]
    tauto
  by_cases htruncate : firstWord line = truncateWord
  · refine hmatters (by simp [htruncate, commandWords]) hinsert
      (rejected_iff_wellFormed [] ?_)
    rw [hline, dispatch, if_neg hinsert, if_pos htruncate]
    rfl
  by_cases hintersection : firstWord line = intersectionWord
  · refine hmatters (by simp [hintersection, commandWords]) hinsert
      (rejected_iff_wellFormed (commonIds db) ?_)
    rw [hline, dispatch, if_neg hinsert, if_neg htruncate, if_pos hintersection, intersection_eq]
  by_cases hsymmetric : firstWord line = symmetricDifferenceWord
  · refine hmatters (by simp [hsymmetric, commandWords]) hinsert
      (rejected_iff_wellFormed (onlyIds db) ?_)
    rw [hline, dispatch, if_neg hinsert, if_neg htruncate, if_neg hintersection,
      if_pos hsymmetric, symmetricDifference_eq]
  · have hword : firstWord line ∉ commandWords := by
      simp [commandWords, hinsert, htruncate, hintersection, hsymmetric]
    have hanswer : processCommand line db = ([message unknownText], db) := by
      rw [hline, dispatch, if_neg hinsert, if_neg htruncate, if_neg hintersection,
        if_neg hsymmetric]
    refine iff_of_true ⟨fun _ => ?_, fun answer hmem hfront => ?_⟩ (Or.inr (Or.inl hword))
    · rw [hanswer]
      exact ⟨⟨unknownText, rfl, by decide, by decide⟩, rfl⟩
    · rw [hanswer] at hmem
      rw [List.mem_singleton.mp hmem] at hfront
      exact absurd hfront (by decide)

/-- `INSERT A abc lean` -/
def insertOfNoNumber : Line :=
  insertWord ++ [' ', 'A', ' ', 'a', 'b', 'c', ' ', 'l', 'e', 'a', 'n', '\n']

/-- The id is no number, yet the line is answered with `OK`, and a row with the id 0 and
no name is there after it. -/
theorem insertOfNoNumber_accepted :
    ¬ WellFormed insertOfNoNumber ∧
      (processCommand insertOfNoNumber .empty).1 = [message okText] ∧
      (processCommand insertOfNoNumber .empty).2.tableA.lookup ⟨0, by decide, by decide⟩ =
        some [] := by
  refine ⟨fun hwell => ?_, by decide +kernel, by decide +kernel⟩
  obtain ⟨table, recordId, name, hname, hargs⟩ := arguments_of_wellFormed hwell (by decide +kernel)
  have hnone : (arguments insertOfNoNumber).2.2 = [] := by decide +kernel
  rw [hargs] at hnone
  exact hname.ne_nil hnone

end JoinServer
