import CppProfessional.Commands.Replies
import CppProfessional.JoinServer.Protocol

/-!
# The answers in the stream

An answer is any number of rows and a line that closes it.  Rows and closing lines are all
that a client sees, so it has to tell them apart; and names, which the clients choose, are
in the rows.

* `Closes` — the lines that close an answer;
* `Database.Plain` — no name has a newline in it: every line whatsoever keeps that;
* `answers_separated` — a client that cuts behind the closing lines gets the answers, however
  the sessions take turns;
* `receiveData` — `receive_data` of the test client, which does not look at lines;
* `received_whole_iff` — it gets every answer whole exactly if no name of table B ends with
  `OK`.
-/

namespace JoinServer

open Transition Commands Streams
open Async (Line toText isDigit_or_minus_of_mem_toText)

/-! ### The lines of an answer

An answer ends with a line that is `OK` or begins with `ERR`, and no row does: a row
begins with a number. -/

/-- The line closes an answer. -/
def Closes (text : Line) : Prop := text = okText ∨ errText <+: text

instance : DecidablePred Closes := fun _ => inferInstanceAs (Decidable (_ ∨ _))

/-- The messages are lines that make up one answer. -/
structure IsAnswer (response : List Line) (lines : List Line) : Prop where
  messages : response = lines.map message
  reply : Reply Closes lines
  newline : ∀ line ∈ lines, '\n' ∉ line

/-- An answer from these tables: one line, or the rows of some ids. -/
inductive Answered (db : Database) : List Line → Prop
  | single {text : Line} : Closes text → '\n' ∉ text → Answered db [message text]
  | rows (ids : List CInt) : Answered db (rowMessages (ids.map (rowOf db)))

/-- No name has a newline in it. -/
def Plain (table : Rows) : Prop := ∀ id, ∀ name ∈ table.lookup id, '\n' ∉ name

/-- No name in either table has a line break in it, so every row is one line of an answer. -/
structure Database.Plain (db : Database) : Prop where
  tableA : JoinServer.Plain db.tableA
  tableB : JoinServer.Plain db.tableB

section Lines

variable {db : Database} {recordId : CInt} {name nameA nameB text : Line}

/-- A row starts with a digit or a minus sign, so it is neither `OK` nor an error. -/
theorem row_head (recordId : CInt) (nameA nameB : Line) :
    ∃ c rest, row recordId nameA nameB = c :: rest ∧ (c.isDigit = true ∨ c = '-') := by
  obtain ⟨c, rest, htext⟩ := List.exists_cons_of_ne_nil (Async.toText_ne_nil recordId.val)
  have hc : c ∈ toText recordId.val := htext ▸ List.mem_cons_self
  exact ⟨c, _, by rw [row, htext]; rfl, isDigit_or_minus_of_mem_toText hc⟩

/-- A row does not close an answer. -/
theorem not_closes_row : ¬ Closes (row recordId nameA nameB) := by
  obtain ⟨c, rest, hrow, hc⟩ := row_head recordId nameA nameB
  rw [hrow]
  rintro (hok | ⟨more, herr⟩)
  · obtain rfl : c = 'O' := (List.cons_eq_cons.mp hok).1
    rcases hc with hdigit | hminus
    · cases hdigit
    · revert hminus
      decide
  · obtain rfl : 'E' = c := (List.cons_eq_cons.mp herr).1
    rcases hc with hdigit | hminus
    · cases hdigit
    · revert hminus
      decide

/-- A row is one line when the names have no line break. -/
theorem row_newline (hA : '\n' ∉ nameA) (hB : '\n' ∉ nameB) :
    '\n' ∉ row recordId nameA nameB := by
  simp only [row, List.mem_append, List.mem_singleton, not_or]
  exact ⟨⟨⟨⟨toText_newline recordId, by decide⟩, hA⟩, by decide⟩, hB⟩

/-- A name that is missing has no line break either. -/
theorem Plain.getD {table : Rows} (h : Plain table) (recordId : CInt) :
    '\n' ∉ (table.lookup recordId).getD [] := by
  cases hname : table.lookup recordId with
  | none => exact List.not_mem_nil
  | some name => exact h recordId name hname

theorem Database.Plain.row (h : db.Plain) (recordId : CInt) : '\n' ∉ rowOf db recordId :=
  row_newline (h.tableA.getD recordId) (h.tableB.getD recordId)

/-- The lines of an answer: an error is one line, and rows are followed by `OK`. -/
theorem Answered.isAnswer {response : List Line} (h : Answered db response) (hplain : db.Plain) :
    ∃ lines, IsAnswer response lines := by
  cases h with
  | @single text hcloses htext =>
      refine ⟨[text], rfl, ⟨[], text, rfl, fun _ hline => (by cases hline), hcloses⟩,
        fun line hline => ?_⟩
      rw [List.mem_singleton.mp hline]
      exact htext
  | rows ids =>
      refine ⟨ids.map (rowOf db) ++ [okText], by rw [rowMessages, List.map_append]; rfl,
        ⟨_, okText, rfl, ?_, Or.inl rfl⟩, ?_⟩
      · intro line hline
        obtain ⟨id, -, rfl⟩ := List.mem_map.mp hline
        exact not_closes_row
      · intro line hline
        rcases List.mem_append.mp hline with hrow | hok
        · obtain ⟨id, -, rfl⟩ := List.mem_map.mp hrow
          exact hplain.row id
        · rw [List.mem_singleton.mp hok]
          decide

end Lines

/-! ### Names without newlines

Lines are cut at newlines before they become commands, so no name can have one.  This is
an invariant of the tables, since rows are printed from them. -/

section Plain

variable {db : Database} {table name : Line} {recordId : CInt}

/-- There is nothing in an empty table to go wrong. -/
theorem plain_empty : Plain ∅ := by
  intro id name hname
  rw [AList.lookup_empty] at hname
  cases hname

/-- A table stays plain when a plain name is added. -/
theorem Plain.insert {rows : Rows} (h : Plain rows) (hname : '\n' ∉ name) :
    Plain (rows.insert recordId name) := by
  intro id other hother
  by_cases hid : id = recordId
  · subst hid
    rw [AList.lookup_insert] at hother
    cases hother
    exact hname
  · rw [AList.lookup_insert_ne hid] at hother
    exact h id other hother

theorem Database.Plain.empty : Database.empty.Plain := ⟨plain_empty, plain_empty⟩

/-- `INSERT` keeps the tables plain; a refused one leaves them as they are. -/
theorem Database.Plain.insert (h : db.Plain) (hname : '\n' ∉ name) :
    (JoinServer.insert table recordId name db).2.Plain := by
  unfold JoinServer.insert
  split
  · split
    · exact h
    · exact ⟨h.tableA.insert hname, h.tableB⟩
  · split
    · split
      · exact h
      · exact ⟨h.tableA, h.tableB.insert hname⟩
    · exact h

/-- `TRUNCATE` keeps the tables plain. -/
theorem Database.Plain.truncate (h : db.Plain) : (JoinServer.truncate table db).Plain := by
  unfold JoinServer.truncate
  split
  · exact ⟨plain_empty, h.tableB⟩
  · split
    · exact ⟨h.tableA, plain_empty⟩
    · exact h

theorem insertArguments_newline (iss : IStream) : '\n' ∉ (insertArguments iss).2.2 :=
  IStream.getline_newline _ List.not_mem_nil

/-- Each branch answers in the form that a client expects, and leaves plain tables plain. -/
theorem dispatch_answered (db : Database) (cmd : Line) (iss : IStream) :
    Answered db (dispatch cmd iss db).1 ∧ (db.Plain → (dispatch cmd iss db).2.Plain) := by
  by_cases hinsert : cmd = insertWord
  · rw [hinsert, dispatch_insert rfl rfl]
    refine ⟨?_, fun h => h.insert (insertArguments_newline iss)⟩
    split
    · exact .single (Or.inl rfl) (by decide)
    · refine .single (Or.inr ⟨_, (List.append_assoc _ _ _).symm⟩) fun hmem => ?_
      rcases List.mem_append.mp hmem with htext | hid
      · exact absurd htext (by decide)
      · exact toText_newline _ hid
  rw [dispatch, if_neg hinsert]
  split
  · exact ⟨.single (Or.inl rfl) (by decide), fun h => h.truncate⟩
  split
  · rw [intersection_eq]
    exact ⟨.rows _, id⟩
  split
  · rw [symmetricDifference_eq]
    exact ⟨.rows _, id⟩
  · exact ⟨.single (Or.inr ⟨_, rfl⟩) (by decide), id⟩

/-- **Every line is answered with one reply**, and leaves no newline in the tables. -/
theorem processCommand_answered (db : Database) (line : Line) :
    Answered db (processCommand line db).1 ∧
      (db.Plain → (processCommand line db).2.Plain) :=
  dispatch_answered db _ _

end Plain

/-! ### Cutting the stream

A client that only knows the form of an answer finds the ends of all answers. -/

/-- The bytes of some answers. -/
def bytesOf (responses : List (List Line)) : Line := responses.flatten.flatten

/-- The lines of the bytes are the lines of the answers. -/
theorem getlines_bytesOf {replies : List (List Line)}
    (hlines : ∀ lines ∈ replies, ∀ line ∈ lines, '\n' ∉ line) :
    getlines '\n' (bytesOf (replies.map (List.map message))) = replies.flatten := by
  have hbytes : bytesOf (replies.map (List.map message)) =
      (replies.flatten.map (· ++ ['\n'])).flatten := by
    rw [bytesOf, ← List.map_flatten]
    rfl
  rw [hbytes, getlines_frames]
  intro line hline
  obtain ⟨lines, hmem, hline⟩ := List.mem_flatten.mp hline
  exact hlines lines hmem line hline

/-- What a client makes of the bytes: the answers, and the lines behind the last one. -/
def decode (bytes : Line) : List (List Line) × List Line :=
  let (replies, rest) := cut Closes (getlines '\n' bytes)
  (replies.map (List.map message), rest)

/-- **Answers can be told apart** in the bytes of any number of them, since each ends with a
line that closes it and has no such line before. -/
theorem decode_bytesOf {responses : List (List Line)}
    (h : ∀ response ∈ responses, ∃ lines, IsAnswer response lines) :
    decode (bytesOf responses) = (responses, []) := by
  have hreplies : ∃ replies : List (List Line), responses = replies.map (List.map message) ∧
      ∀ lines ∈ replies, Reply Closes lines ∧ ∀ line ∈ lines, '\n' ∉ line := by
    induction responses with
    | nil => exact ⟨[], rfl, fun _ hlines => by cases hlines⟩
    | cons response responses ih =>
        obtain ⟨lines, hanswer⟩ := h response List.mem_cons_self
        obtain ⟨replies, rfl, hall⟩ :=
          ih fun other hother => h other (List.mem_cons_of_mem response hother)
        refine ⟨lines :: replies, by rw [hanswer.messages, List.map_cons], fun other hother => ?_⟩
        rcases List.mem_cons.mp hother with rfl | hother
        · exact ⟨hanswer.reply, hanswer.newline⟩
        · exact hall other hother
  obtain ⟨replies, rfl, hall⟩ := hreplies
  have hcut : cut Closes (replies.flatten ++ []) = (replies, []) :=
    cut_flatten (fun lines hlines => (hall lines hlines).1) fun _ hline => by cases hline
  rw [List.append_nil] at hcut
  rw [decode, getlines_bytesOf fun lines hlines => (hall lines hlines).2, hcut]

section Sessions

variable {ι : Type} {db : Database} {trace : List ((ι × Line) × List Line)}

/-- Along every run, every answer is one reply. -/
theorem execution_isAnswer (h : (machine ι).Execution trace db) :
    (∀ x ∈ trace, ∃ lines, IsAnswer x.2 lines) ∧ db.Plain := by
  obtain ⟨db₀, h0, hrun⟩ := h
  have hempty : db₀.Plain := by
    rw [show db₀ = .empty from h0]
    exact .empty
  refine And.comm.mp (hrun.stable (Q := Database.Plain)
    (R := fun x => ∃ lines, IsAnswer x.2 lines) ?_ hempty)
  intro db e response db' hplain hs
  obtain ⟨hanswer, hkeeps⟩ := processCommand_answered db e.2
  rw [show processCommand e.2 db = (response, db') from Option.some.inj hs] at hanswer hkeeps
  exact ⟨hkeeps hplain, hanswer.isAnswer hplain⟩

variable [DecidableEq ι]

/-- The answers to the lines of one session. -/
def answersTo (session : ι) (trace : List ((ι × Line) × List Line)) : List (List Line) :=
  (trace.filter fun x => x.1.1 = session).map Prod.snd

/-- **The answers to a session can be told apart** in their concatenation, whatever lines the
sessions send and however they take turns. -/
theorem answers_separated (h : (machine ι).Execution trace db) (session : ι) :
    decode (bytesOf (answersTo session trace)) = (answersTo session trace, []) := by
  refine decode_bytesOf fun response hresponse => ?_
  obtain ⟨x, hx, rfl⟩ := List.mem_map.mp hresponse
  exact (execution_isAnswer h).1 x (List.mem_filter.mp hx).1

/-- The answer to the query of `twoLines` is a row and an `OK`. -/
theorem answers_separated_twoLines :
    decode ['-', '2', ',', ',', 'y', ',', 'z', '\n', 'O', 'K', '\n'] =
      ([[['-', '2', ',', ',', 'y', ',', 'z', '\n'], ['O', 'K', '\n']]], []) := by
  have hanswer : answersTo true ((machine Bool).play .empty twoLines (by decide +kernel)).1 =
      [[['-', '2', ',', ',', 'y', ',', 'z', '\n'], ['O', 'K', '\n']]] := by
    decide +kernel
  have hplays : ((machine Bool).exec .empty twoLines).isSome = true := by decide +kernel
  have hexec : (machine Bool).Execution _ _ := Machine.execution_play rfl hplays
  have hdecode := answers_separated hexec true
  rw [hanswer] at hdecode
  exact hdecode

end Sessions

/-! ### The test client

The client of the tests looks at the end of what it has received.  A part of an answer
may end in the same three bytes, if a name does. -/

/-- What a call of `recv` returns: an error, or bytes, or no bytes at the end of the stream. -/
inductive Recv
  | failed
  | bytes (chunk : Line)
  deriving DecidableEq, Repr

/-- `receive_data` waits for the next `recv`, has thrown, or has returned. -/
inductive Reception
  | waits (result : Line)
  | throws
  | returns (result : Line)
  deriving DecidableEq, Repr

/-- `receive_data` does not read on. -/
def Complete (result : Line) : Prop :=
  (3 ≤ result.length ∧ result.drop (result.length - 3) = message okText) ∨
    (4 ≤ result.length ∧ errText <+: result ∧ '\n' ∈ result)

instance : DecidablePred Complete := fun _ => inferInstanceAs (Decidable (_ ∨ _))

/-- `receive_data()`, from the result so far. -/
def receiveData (result : Line) : List Recv → Reception
  | [] => .waits result
  | .failed :: _ => .throws
  | .bytes chunk :: calls =>
      if chunk = [] then .returns result
      else if Complete (result ++ chunk) then .returns (result ++ chunk)
      else receiveData (result ++ chunk) calls

/-- The calls of `recv` get these bytes, in chunks that fit into the buffer. -/
structure Chunks (data : Line) (chunks : List Line) : Prop where
  flatten : chunks.flatten = data
  size : ∀ chunk ∈ chunks, chunk ≠ [] ∧ chunk.length ≤ 4096

section Client

variable {db : Database} {data result : Line} {chunks : List Line} {response : List Line}

/-- Data of which no part is complete is received whole. -/
theorem receiveData_whole (hchunks : ∀ chunk ∈ chunks, chunk ≠ [])
    (hne : chunks ≠ []) (hcomplete : Complete (result ++ chunks.flatten))
    (hparts : ∀ part, part <+: result ++ chunks.flatten → Complete part →
      part = result ++ chunks.flatten) :
    receiveData result (chunks.map .bytes) = .returns (result ++ chunks.flatten) := by
  induction chunks generalizing result with
  | nil => exact absurd rfl hne
  | cons chunk chunks ih =>
      rw [List.map_cons, receiveData, if_neg (hchunks chunk List.mem_cons_self)]
      rw [List.flatten_cons, ← List.append_assoc] at hcomplete hparts ⊢
      split
      · next hpart => exact congrArg _ (hparts _ (List.prefix_append _ _) hpart)
      · next hpart =>
          refine ih (fun other hother => hchunks other (List.mem_cons_of_mem chunk hother)) ?_
            hcomplete hparts
          rintro rfl
          rw [List.flatten_nil, List.append_nil] at hcomplete
          exact hpart hcomplete

/-- Byte by byte, what comes after a complete part is not received. -/
theorem receiveData_part {front back : Line} (hne : front ≠ [])
    (hfront : Complete (result ++ front)) :
    ∃ part, receiveData result ((front ++ back).map fun c => .bytes [c]) = .returns part ∧
      part.length ≤ (result ++ front).length := by
  induction front generalizing result with
  | nil => exact absurd rfl hne
  | cons c front ih =>
      rw [List.cons_append, List.map_cons, receiveData, if_neg (List.cons_ne_nil _ _)]
      split
      · exact ⟨_, rfl, by simp⟩
      · next hpart =>
          rw [List.append_cons] at hfront
          have hmore : front ≠ [] := by
            rintro rfl
            rw [List.append_nil] at hfront
            exact hpart hfront
          simpa using ih hmore hfront

/-- A text without a separator ends what is behind the last separator. -/
theorem suffix_append_cons_iff {text front back : Line} {c : Char} (hc : c ∉ text) :
    text <:+ front ++ c :: back ↔ text <:+ back := by
  refine ⟨fun h => ?_, fun h => h.trans ((List.suffix_cons c back).trans (List.suffix_append ..))⟩
  have hback : back <:+ front ++ c :: back :=
    (List.suffix_cons c back).trans (List.suffix_append ..)
  rcases List.suffix_or_suffix_of_suffix h hback with hinside | ⟨start, rfl⟩
  · exact hinside
  · obtain ⟨before, hbefore⟩ := h
    rw [List.append_cons front, ← List.append_assoc] at hbefore
    have hfront := List.append_cancel_right hbefore
    rcases List.eq_nil_or_concat start with rfl | ⟨start', d, rfl⟩
    · exact List.suffix_refl back
    · rw [List.concat_eq_append, ← List.append_assoc] at hfront
      obtain rfl := List.singleton_injective (List.append_inj' hfront rfl).2
      exact absurd (by simp) hc

/-- A row ends with `OK` if its second name does. -/
theorem okText_suffix_row_iff {recordId : CInt} {nameA nameB : Line} :
    okText <:+ row recordId nameA nameB ↔ okText <:+ nameB := by
  rw [row, List.append_assoc, List.singleton_append]
  exact suffix_append_cons_iff (by decide)

theorem complete_of_suffix (h : message okText <:+ result) : Complete result := by
  obtain ⟨front, rfl⟩ := h
  exact Or.inl ⟨by simp [message, okText], by simp [message, okText]⟩

/-- What a client takes for a whole answer has a line break in it. -/
theorem Complete.newline (h : Complete result) : '\n' ∈ result := by
  rcases h with ⟨-, hsuffix⟩ | ⟨-, -, hmem⟩
  · refine List.mem_of_mem_drop (i := result.length - 3) ?_
    rw [hsuffix]
    decide
  · exact hmem

/-- The rows and the `OK` after them, each with its line break. -/
theorem flatten_rowMessages (rows : List Line) :
    (rowMessages rows).flatten = ((rows ++ [okText]).map (· ++ ['\n'])).flatten := by
  rw [rowMessages, List.map_append]
  rfl

/-- An answer is complete. -/
theorem Answered.complete (h : Answered db response) : Complete response.flatten := by
  cases h with
  | @single text hcloses htext =>
      rw [List.flatten_singleton]
      rcases hcloses with rfl | ⟨more, rfl⟩
      · exact complete_of_suffix (List.suffix_refl _)
      · refine Or.inr ⟨?_, ?_, by simp [message]⟩
        · simp [message, errText]
        · rw [message, List.append_assoc]
          exact List.prefix_append _ _
  | rows ids =>
      rw [rowMessages, List.flatten_append, List.flatten_singleton]
      exact complete_of_suffix (List.suffix_append _ _)

/-- The rows of a query do not start with `ERR`. -/
theorem not_errText_prefix_rows (ids : List CInt) :
    ¬ errText <+: (rowMessages (ids.map (rowOf db))).flatten := by
  rintro ⟨more, hmore⟩
  cases ids with
  | nil => exact absurd (List.cons_eq_cons.mp hmore).1 (by decide)
  | cons id ids =>
      obtain ⟨c, rest, hrow, hc⟩ := row_head id ((db.tableA.lookup id).getD [])
        ((db.tableB.lookup id).getD [])
      rw [flatten_rowMessages, List.map_cons, List.cons_append, List.map_cons, List.flatten_cons,
        rowOf, hrow] at hmore
      obtain rfl : 'E' = c := (List.cons_eq_cons.mp hmore).1
      rcases hc with hdigit | hminus
      · cases hdigit
      · revert hminus
        decide

/-- No part of an answer is complete, unless a second name ends with `OK`.  A client looks at
the last three bytes only, and at the end of a row these are the end of the second name. -/
theorem Answered.part_eq (h : Answered db response) (hplain : db.Plain)
    (hnames : ∀ id, ∀ name ∈ db.tableB.lookup id, ¬ okText <:+ name) {part : Line}
    (hpart : part <+: response.flatten) (hcomplete : Complete part) :
    part = response.flatten := by
  cases h with
  | single _ htext =>
      rw [List.flatten_singleton] at hpart ⊢
      rcases List.prefix_concat_iff.mp hpart with heq | hinside
      · exact heq
      · exact absurd (hinside.subset hcomplete.newline) htext
  | rows ids =>
      rcases hcomplete with ⟨-, hsuffix⟩ | ⟨-, herr, -⟩
      · have hsuffix : message okText <:+ part := hsuffix ▸ List.drop_suffix _ _
        obtain ⟨before, hbefore⟩ := hsuffix
        rw [message, ← List.append_assoc] at hbefore
        rw [flatten_rowMessages, ← hbefore] at hpart
        have hnewline : ∀ line ∈ ids.map (rowOf db) ++ [okText], '\n' ∉ line := by
          intro line hline
          rcases List.mem_append.mp hline with hrow | hok
          · obtain ⟨id, -, rfl⟩ := List.mem_map.mp hrow
            exact hplain.row id
          · rw [List.mem_singleton.mp hok]
            decide
        obtain ⟨front, line, back, hlines, hframes⟩ := exists_frames_of_prefix hnewline hpart
        rw [List.map_append, List.flatten_append] at hframes
        rcases List.eq_nil_or_concat back with rfl | ⟨back, last, rfl⟩
        · rw [flatten_rowMessages, hlines, ← hbefore, hframes, List.map_append, List.flatten_append]
        · -- the part ends with a row
          rw [List.concat_eq_append, ← List.cons_append, ← List.append_assoc] at hlines
          obtain ⟨hrows, -⟩ := List.append_inj' hlines rfl
          obtain ⟨id, -, rfl⟩ := List.mem_map.mp
            (hrows ▸ List.mem_append_right front List.mem_cons_self : line ∈ ids.map (rowOf db))
          have hend : before ++ okText = (front.map (· ++ ['\n'])).flatten ++ rowOf db id := by
            rw [List.map_singleton, List.flatten_singleton, ← List.append_assoc] at hframes
            exact List.append_cancel_right hframes
          rw [rowOf, row, List.append_assoc (_ ++ _ ++ _), List.singleton_append,
            ← List.append_assoc] at hend
          have hsecond := (suffix_append_cons_iff (show ',' ∉ okText by decide)).mp ⟨_, hend⟩
          cases hname : db.tableB.lookup id with
          | none =>
              rw [hname] at hsecond
              exact absurd hsecond (by decide)
          | some name =>
              rw [hname] at hsecond
              exact absurd hsecond (hnames id name hname)
      · exact absurd (herr.trans hpart) (not_errText_prefix_rows ids)

/-- A query that lists an id, and its answer. -/
theorem exists_line_of_mem (db : Database) {recordId : CInt} (h : recordId ∈ db.tableB) :
    ∃ (line : Line) (ids : List CInt),
      (processCommand line db).1 = rowMessages (ids.map (rowOf db)) ∧ recordId ∈ ids := by
  have hquery {word : Line} (hword : Solid word) :
      processCommand (word ++ ['\n']) db = dispatch word (IStream.ofText ['\n']) db := by
    have hblank : Blank [] := fun _ hc => nomatch hc
    unfold processCommand
    have hread := last_word_spelled hblank hword hblank
    rw [List.nil_append, List.nil_append] at hread
    rw [hread]
  by_cases hA : recordId ∈ db.tableA
  · refine ⟨intersectionWord ++ ['\n'], commonIds db, ?_, mem_commonIds.mpr ⟨hA, h⟩⟩
    rw [hquery intersectionWord_solid, dispatch, if_neg (by decide), if_neg (by decide),
      if_pos rfl, intersection_eq]
  · refine ⟨symmetricDifferenceWord ++ ['\n'], onlyIds db, ?_, mem_onlyIds.mpr (Or.inr ⟨hA, h⟩)⟩
    rw [hquery symmetricDifferenceWord_solid, dispatch, if_neg (by decide), if_neg (by decide),
      if_neg (by decide), if_pos rfl, symmetricDifference_eq]

/-- **Which answers arrive whole.**  The test client gets the answer to every line whole,
however the bytes are received, exactly if no name of table B ends with `OK`. -/
theorem received_whole_iff {ι : Type} (h : (machine ι).Reachable db) :
    (∀ line chunks, Chunks (processCommand line db).1.flatten chunks →
      receiveData [] (chunks.map .bytes) = .returns (processCommand line db).1.flatten) ↔
      ∀ id, ∀ name ∈ db.tableB.lookup id, ¬ okText <:+ name := by
  obtain ⟨trace, hexec⟩ := h
  have hplain := (execution_isAnswer hexec).2
  constructor
  · intro hwhole id name hname hend
    have hmem : id ∈ db.tableB := AList.lookup_isSome.mp (by rw [hname]; rfl)
    obtain ⟨line, ids, hanswer, hid⟩ := exists_line_of_mem db hmem
    obtain ⟨before, after, rfl⟩ := List.append_of_mem hid
    obtain ⟨front, back, hfront, hback, hbytes⟩ : ∃ front back, Complete front ∧ back ≠ [] ∧
        (processCommand line db).1.flatten = front ++ back := by
      refine ⟨((before.map (rowOf db)).map message).flatten ++ message (rowOf db id),
        (rowMessages (after.map (rowOf db))).flatten, complete_of_suffix ?_, ?_, ?_⟩
      · have hrow : okText <:+ rowOf db id := by
          rw [rowOf, okText_suffix_row_iff, hname]
          exact hend
        obtain ⟨start, hstart⟩ := hrow
        refine List.IsSuffix.trans ?_ (List.suffix_append _ _)
        rw [← hstart, message, message, List.append_assoc]
        exact List.suffix_append _ _
      · rw [rowMessages, List.flatten_append]
        exact List.append_ne_nil_of_right_ne_nil _ (by decide)
      · rw [hanswer]
        simp [rowMessages]
    have hbyBytes := hwhole line ((front ++ back).map fun c => [c]) ⟨?_, ?_⟩
    · have hne : front ≠ [] := by
        rintro rfl
        exact absurd hfront (by decide)
      have hcomplete : Complete ([] ++ front) := hfront
      obtain ⟨part, hpart, hlength⟩ := receiveData_part hne hcomplete
      rw [List.map_map, hbytes] at hbyBytes
      have hsame := Reception.returns.inj (hpart.symm.trans hbyBytes)
      rw [hsame, List.length_append, List.nil_append] at hlength
      exact hback (List.eq_nil_of_length_eq_zero (by omega))
    · rw [hbytes, ← List.flatMap_def, List.flatMap_singleton']
    · intro chunk hchunk
      obtain ⟨c, -, rfl⟩ := List.mem_map.mp hchunk
      exact ⟨List.cons_ne_nil _ _, by simp⟩
  · rintro hnames line chunks ⟨hflatten, hsize⟩
    obtain ⟨hanswered, -⟩ := processCommand_answered db line
    have hcomplete := hanswered.complete
    have hparts (part : Line) (hpart : part <+: (processCommand line db).1.flatten)
        (hpart' : Complete part) := hanswered.part_eq hplain hnames hpart hpart'
    rw [← hflatten] at hcomplete hparts ⊢
    refine receiveData_whole (fun chunk hchunk => (hsize chunk hchunk).1) ?_ hcomplete hparts
    rintro rfl
    exact absurd hcomplete (by decide)

/-- `INSERT B 1 BOOK` -/
def book : List ((Unit × Line) × List Line) × Database :=
  (machine Unit).play .empty
    [((), insertWord ++ [' ', 'B', ' ', '1', ' ', 'B', 'O', 'O', 'K', '\n'])] (by decide +kernel)

theorem received_whole_iff_book : ¬ ∀ line chunks,
    Chunks (processCommand line book.2).1.flatten chunks →
      receiveData [] (chunks.map .bytes) = .returns (processCommand line book.2).1.flatten := by
  have hexec : (machine Unit).Execution book.1 book.2 := Machine.execution_play rfl _
  rw [received_whole_iff hexec.reachable]
  intro hnames
  have hname : book.2.tableB.lookup ⟨1, by decide, by decide⟩ = some ['B', 'O', 'O', 'K'] := by
    decide +kernel
  exact hnames _ _ hname (by decide)

end Client

end JoinServer
