import Mathlib.Data.List.Basic

/-!
# Fields of a CSV line

Both mappers find the price in a line with the same function, which goes over the line
once and never looks ahead: a double quote only turns `in_quotes` over, so that an escaped
quote is two turns.

* `extractPriceField` is the function,
* `csvFields` are all fields of a line at once, `extractPriceField_eq` says that the function
  returns one of them,
* `Field` is a text with the way it is written, `csvFields_csvLine` what its line is read as,
* `extractPriceField_csvLine` says that the function reads what was written.
-/

namespace MapReduce

/-- A text. -/
abbrev Text := List Char

/-- The loop of `extract_price_field` over the rest of the line, with `in_quotes`,
`current_index` and `current_field`. -/
def scan (delimiter : Char) (fieldIndex : ℕ) : Bool → ℕ → Text → Text → Text
  | _, _, currentField, [] => currentField
  | inQuotes, currentIndex, currentField, chr :: rest =>
      if chr = '"' then scan delimiter fieldIndex (!inQuotes) currentIndex currentField rest
      else if chr = delimiter ∧ inQuotes = false then
        if currentIndex = fieldIndex then currentField
        else scan delimiter fieldIndex inQuotes (currentIndex + 1) [] rest
      else if currentIndex = fieldIndex then
        scan delimiter fieldIndex inQuotes currentIndex (currentField ++ [chr]) rest
      else scan delimiter fieldIndex inQuotes currentIndex currentField rest

/-- `extract_price_field` -/
def extractPriceField (strView : Text) (delimiter : Char) (fieldIndex : ℕ) : Text :=
  scan delimiter fieldIndex false 0 [] strView

/-! ### The fields of a line

The loop counts commas and keeps one field only.  `fieldsFrom` reads all fields at once;
that the loop computes one of them is shown for the loop at any point of the line. -/

/-- The fields of the rest of a line, in quotes or not: a comma between quotes is part of
its field, any other one ends it, and the quotes are no part of the fields. -/
def fieldsFrom : Bool → Text → List Text
  | _, [] => [[]]
  | inQuotes, chr :: rest =>
      if chr = '"' then fieldsFrom (!inQuotes) rest
      else if chr = ',' ∧ inQuotes = false then [] :: fieldsFrom false rest
      else (fieldsFrom inQuotes rest).modifyHead (chr :: ·)

/-- The fields of a line. -/
def csvFields (line : Text) : List Text := fieldsFrom false line

section Fields

variable {inQuotes : Bool} {chr : Char} {rest : Text}

theorem fieldsFrom_quote (inQuotes : Bool) (rest : Text) :
    fieldsFrom inQuotes ('"' :: rest) = fieldsFrom (!inQuotes) rest := by
  rw [fieldsFrom, if_pos rfl]

theorem fieldsFrom_comma (rest : Text) :
    fieldsFrom false (',' :: rest) = [] :: fieldsFrom false rest := by
  rw [fieldsFrom, if_neg (by decide), if_pos ⟨rfl, rfl⟩]

/-- A character that is part of a field. -/
theorem fieldsFrom_char (hquote : chr ≠ '"') (hcomma : chr = ',' → inQuotes = true)
    (rest : Text) :
    fieldsFrom inQuotes (chr :: rest) = (fieldsFrom inQuotes rest).modifyHead (chr :: ·) := by
  have hnot : ¬(chr = ',' ∧ inQuotes = false) := by
    rintro ⟨heq, hfalse⟩
    rw [hcomma heq] at hfalse
    cases hfalse
  rw [fieldsFrom, if_neg hquote, if_neg hnot]

/-- There is a field in any line, be it an empty one. -/
theorem fieldsFrom_ne_nil (inQuotes : Bool) (rest : Text) : fieldsFrom inQuotes rest ≠ [] := by
  fun_induction fieldsFrom inQuotes rest with
  | case1 => exact List.cons_ne_nil _ _
  | case2 inQuotes rest ih => exact ih
  | case3 => exact List.cons_ne_nil _ _
  | case4 inQuotes chr rest hquote hcomma ih => simpa using ih

/-- Only the first field sees a character in front of it. -/
theorem getElem?_modifyHead_cons {fields : List Text} (hfields : fields ≠ []) (chr : Char)
    (k : ℕ) :
    ((fields.modifyHead (chr :: ·))[k]?).getD [] =
      if k = 0 then chr :: (fields[0]?).getD [] else (fields[k]?).getD [] := by
  obtain ⟨field, fields, rfl⟩ := List.exists_cons_of_ne_nil hfields
  cases k <;> rfl

/-- The loop from any point on: what is in `current_field` is the front of the field that
is looked for, and in front of this field nothing is. -/
theorem scan_eq {fieldIndex currentIndex : ℕ} {currentField : Text}
    (hle : currentIndex ≤ fieldIndex) (hnil : currentIndex < fieldIndex → currentField = [])
    (inQuotes : Bool) (rest : Text) :
    scan ',' fieldIndex inQuotes currentIndex currentField rest =
      currentField ++ ((fieldsFrom inQuotes rest)[fieldIndex - currentIndex]?).getD [] := by
  induction rest generalizing inQuotes currentIndex currentField with
  | nil =>
      rw [scan, fieldsFrom]
      cases fieldIndex - currentIndex <;> exact (List.append_nil _).symm
  | cons chr rest ih =>
      rw [scan, fieldsFrom]
      by_cases hquote : chr = '"'
      · rw [if_pos hquote, if_pos hquote]
        exact ih hle hnil _
      rw [if_neg hquote, if_neg hquote]
      rcases Nat.lt_or_eq_of_le hle with hlt | rfl
      · obtain ⟨k, hk⟩ : ∃ k, fieldIndex - currentIndex = k + 1 :=
          ⟨fieldIndex - currentIndex - 1, by omega⟩
        have hsub : fieldIndex - (currentIndex + 1) = k := by omega
        have hne : ¬currentIndex = fieldIndex := Nat.ne_of_lt hlt
        rw [hnil hlt, List.nil_append, if_neg hne, if_neg hne, hk]
        split
        · next hcomma =>
            have hnext : currentIndex + 1 ≤ fieldIndex := hlt
            rw [ih hnext (fun _ => rfl), hcomma.2, hsub, List.getElem?_cons_succ,
              List.nil_append]
        · rw [ih hle fun _ => rfl, hk, getElem?_modifyHead_cons (fieldsFrom_ne_nil _ _),
            if_neg (Nat.succ_ne_zero k)]
      · rw [if_pos rfl, if_pos rfl, Nat.sub_self]
        split
        · exact (List.append_nil _).symm
        · rw [ih (Nat.le_refl _) fun h => absurd h (Nat.lt_irrefl _), Nat.sub_self,
            List.append_assoc, getElem?_modifyHead_cons (fieldsFrom_ne_nil _ _), if_pos rfl]
          rfl

/-- **One field.**  The function returns the field with the given number, and nothing when
there is no such field. -/
theorem extractPriceField_eq (line : Text) (i : ℕ) :
    extractPriceField line ',' i = ((csvFields line)[i]?).getD [] :=
  scan_eq (Nat.zero_le i) (fun _ => rfl) false line

end Fields

/-! ### Writing a line

A field may be written with quotes or without them.  Without them it must have neither a
comma nor a quote, and between quotes every quote is doubled. -/

/-- A field: its text, and whether it is put into quotes, as it must be when there is a
comma or a quote in it. -/
structure Field where
  text : Text
  quoted : Bool
  quoted_of_mem : ',' ∈ text ∨ '"' ∈ text → quoted = true

/-- A text with every quote doubled. -/
def doubled (text : Text) : Text := text.flatMap fun chr => if chr = '"' then ['"', '"'] else [chr]

/-- A text without its quotes. -/
def unquoted (text : Text) : Text := text.filter (· ≠ '"')

/-- The field as it stands in a line. -/
def Field.written (field : Field) : Text :=
  if field.quoted then '"' :: doubled field.text ++ ['"'] else field.text

/-- The fields with commas between them. -/
def csvLine (fields : List Field) : Text := List.intercalate [','] (fields.map Field.written)

@[simp] theorem csvLine_singleton (field : Field) : csvLine [field] = field.written :=
  List.intercalate_singleton

/-- Two fields are separated by one comma. -/
@[simp] theorem csvLine_cons_cons (field next : Field) (fields : List Field) :
    csvLine (field :: next :: fields) = field.written ++ ',' :: csvLine (next :: fields) := by
  show List.intercalate [','] (_ :: _ :: _) = _
  rw [List.intercalate_cons_cons, List.append_assoc]
  rfl

/-! ### Reading it

The function only turns its flag at a quote, so a doubled quote is dropped as two
quotes.  What comes back is the field without any quotes. -/

/-- What is in front of a field that is still read. -/
def before (text : Text) (fields : List Text) : List Text := fields.modifyHead (text ++ ·)

theorem before_nil (fields : List Text) : before [] fields = fields := by
  cases fields <;> rfl

/-- Text is put before a field piece by piece. -/
theorem before_before (text text' : Text) (fields : List Text) :
    before text (before text' fields) = before (text ++ text') fields := by
  cases fields with
  | nil => rfl
  | cons field fields => exact congrArg (· :: fields) (List.append_assoc ..).symm

theorem unquoted_quote (text : Text) : unquoted ('"' :: text) = unquoted text :=
  List.filter_cons_of_neg (by decide)

theorem unquoted_char {chr : Char} (hquote : chr ≠ '"') (text : Text) :
    unquoted (chr :: text) = chr :: unquoted text :=
  List.filter_cons_of_pos (by simpa using hquote)

/-- Between quotes nothing ends the field before the quote that is not doubled.  A doubled
quote leaves the quotes and enters them again, so commas between the two halves cannot
occur. -/
theorem fieldsFrom_doubled (text rest : Text) :
    fieldsFrom true (doubled text ++ '"' :: rest) =
      before (unquoted text) (fieldsFrom false rest) := by
  induction text with
  | nil =>
      rw [unquoted, List.filter_nil, before_nil]
      exact fieldsFrom_quote true rest
  | cons chr text ih =>
      by_cases hquote : chr = '"'
      · -- two turns
        subst hquote
        rw [unquoted_quote]
        show fieldsFrom true ('"' :: '"' :: (doubled text ++ '"' :: rest)) = _
        rw [fieldsFrom_quote, fieldsFrom_quote]
        exact ih
      · have hdoubled : doubled (chr :: text) = chr :: doubled text := by
          rw [doubled, List.flatMap_cons, if_neg hquote]
          rfl
        rw [hdoubled, List.cons_append, fieldsFrom_char hquote fun _ => rfl, ih,
          unquoted_char hquote]
        exact before_before [chr] _ _

/-- Without quotes there is neither a comma nor a quote in the field. -/
theorem fieldsFrom_plain {text : Text} (hcomma : ',' ∉ text) (hquote : '"' ∉ text)
    (rest : Text) :
    fieldsFrom false (text ++ rest) = before (unquoted text) (fieldsFrom false rest) := by
  induction text with
  | nil =>
      rw [unquoted, List.filter_nil, before_nil]
      rfl
  | cons chr text ih =>
      rw [List.mem_cons, not_or] at hcomma hquote
      have hchr : chr ≠ '"' := Ne.symm hquote.1
      rw [List.cons_append, fieldsFrom_char hchr (fun h => absurd h.symm hcomma.1),
        ih hcomma.2 hquote.2, unquoted_char hchr]
      exact before_before [chr] _ _

/-- A field is read to its end, whichever way it is written. -/
theorem fieldsFrom_written (field : Field) (rest : Text) :
    fieldsFrom false (field.written ++ rest) =
      before (unquoted field.text) (fieldsFrom false rest) := by
  by_cases hquoted : field.quoted = true
  · rw [Field.written, if_pos hquoted, List.append_assoc]
    show fieldsFrom false ('"' :: (doubled field.text ++ '"' :: rest)) = _
    rw [fieldsFrom_quote]
    exact fieldsFrom_doubled field.text rest
  · have hmem := mt field.quoted_of_mem hquoted
    rw [not_or] at hmem
    rw [Field.written, if_neg hquoted]
    exact fieldsFrom_plain hmem.1 hmem.2 rest

/-- **The fields of a written line** are the texts that were written, without their
quotes. -/
theorem csvFields_csvLine {fields : List Field} (hfields : fields ≠ []) :
    csvFields (csvLine fields) = fields.map fun field => unquoted field.text := by
  induction fields with
  | nil => exact absurd rfl hfields
  | cons field fields ih =>
      cases fields with
      | nil =>
          have hwritten := fieldsFrom_written field []
          rw [List.append_nil] at hwritten
          rw [csvLine_singleton, csvFields, hwritten]
          exact congrArg (fun text => [text]) (List.append_nil _)
      | cons next fields =>
          have hrest := ih (List.cons_ne_nil _ _)
          rw [csvLine_cons_cons, csvFields, fieldsFrom_written, fieldsFrom_comma, ← csvFields,
            hrest]
          exact congrArg (· :: _) (List.append_nil _)

/-- **The extraction.**  The function returns the field with the given number without its
quotes, and nothing when there is no such field. -/
theorem extractPriceField_csvLine (fields : List Field) (i : ℕ) :
    extractPriceField (csvLine fields) ',' i =
      (fields[i]?).elim [] fun field => unquoted field.text := by
  rw [extractPriceField_eq]
  rcases eq_or_ne fields [] with rfl | hfields
  · cases i <;> rfl
  · rw [csvFields_csvLine hfields, List.getElem?_map]
    cases fields[i]? <;> rfl

end MapReduce
