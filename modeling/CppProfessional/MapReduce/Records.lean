import CppProfessional.Commands.Framing
import CppProfessional.MapReduce.Csv
import CppProfessional.Streams.Floats

/-!
# The records for the variance

What the mapper for the variance writes for a whole price and what the reducer reads of it.
The mapper writes six significant digits and any count, the reducer has 16 bits for a count
and passes over a record that does not fit.

* `varianceLine` — the line of the mapper,
* `readRecord` — the extractions of the reducer,
* `readRecord_varianceLine` — what comes of the one by the other,
* `record_exact_iff` — when this is the record.
-/

namespace MapReduce

open Commands Numbers Streams

/-- The line for a price without its end: the price, its square and the count. -/
def varianceFields (price count : ℕ) : Text :=
  ['p', 'r', 'i', 'c', 'e'] ++ ('\t' :: (setw 5 (floatText price) ++
    ('\t' :: (setw 11 (floatText (price * price)) ++
      ('\t' :: setw 4 (Nat.toDigits 10 count))))))

/-- The line for a price. -/
def varianceLine (price count : ℕ) : Text := varianceFields price count ++ ['\n']

/-- `iss >> key >> price >> price_squared >> value_count`, where it succeeds; a double that
is no number is `none`. -/
def readRecord (line : Text) : Option (Option ℚ × Option ℚ × ℕ) :=
  let (_, iss) := (IStream.ofText line).word []
  let (price, iss) := iss.double none
  let (priceSquared, iss) := iss.double none
  let (valueCount, iss) := iss.unsigned 65535 0
  if iss.fail then none else some (price, priceSquared, valueCount)

/-- The records that the reducer adds up. -/
def readRecords (input : Text) : List (Option (Option ℚ × Option ℚ × ℕ)) :=
  (getlines '\n' input).map readRecord

/-! ### One line

The reducer extracts four items from a line.  Each is followed by white space, so each
extraction ends where the writing of the item did. -/

/-- A field behind a tab: blanks, and what was padded. -/
theorem tab_setw (n : ℕ) (text rest : Text) :
    '\t' :: (setw n text ++ rest) =
      ('\t' :: List.replicate (n - text.length) ' ') ++ (text ++ rest) := by
  show '\t' :: (List.replicate (n - text.length) ' ' ++ text ++ rest) = _
  rw [List.append_assoc]
  rfl

/-- The tab and the blanks of `setw` are white space for the reducer. -/
theorem isSpace_padding (k : ℕ) : ∀ c ∈ '\t' :: List.replicate k ' ', isSpace c = true := by
  intro c hc
  rcases List.mem_cons.mp hc with rfl | hc
  · rfl
  · rw [List.eq_of_mem_replicate hc]
    rfl

/-- A padded double between tabs. -/
theorem double_field {n : ℕ} (hn : n < 2 ^ 52) (width : ℕ) (old : Option ℚ) (rest : Text) :
    (IStream.ofText ('\t' :: (setw width (floatText n) ++ '\t' :: rest))).double old =
      (some (rounded 6 n : ℚ), IStream.ofText ('\t' :: rest)) := by
  rw [tab_setw]
  exact IStream.double_floatText hn old rest (isSpace_padding _) rfl

/-- A padded count behind a tab. -/
theorem unsigned_field (max n width old : ℕ) :
    (IStream.ofText ('\t' :: setw width (Nat.toDigits 10 n))).unsigned max old =
      (if max < n then max else n, ⟨[], true, decide (max < n)⟩) := by
  have htab : '\t' :: setw width (Nat.toDigits 10 n) =
      ('\t' :: List.replicate (width - (Nat.toDigits 10 n).length) ' ') ++ Nat.toDigits 10 n := rfl
  rw [htab]
  exact IStream.unsigned_toDigits max n old (isSpace_padding _)

/-- The key of a record is its first word. -/
theorem word_key (rest : Text) :
    (IStream.ofText (['p', 'r', 'i', 'c', 'e'] ++ '\t' :: rest)).word [] =
      (['p', 'r', 'i', 'c', 'e'], IStream.ofText ('\t' :: rest)) := by
  show (IStream.ofText ([] ++ (['p', 'r', 'i', 'c', 'e'] ++ '\t' :: rest))).word [] = _
  exact IStream.word_ofText [] (by simp) (by simp [isSpace]) (List.cons_ne_nil _ _) rfl

/-- **What the reducer reads** of a line: the numbers rounded to six digits, and nothing when
the count is too large. -/
theorem readRecord_varianceFields {price : ℕ} (hprice : price < 2 ^ 26) (count : ℕ) :
    readRecord (varianceFields price count) =
      if 65535 < count then none
      else some (some (rounded 6 price : ℚ), some (rounded 6 (price * price) : ℚ), count) := by
  have hsquare : price * price < 2 ^ 52 :=
    (Nat.mul_lt_mul'' hprice hprice).trans_eq (by norm_num)
  have hsmall : price < 2 ^ 52 := hprice.trans (by decide)
  rw [readRecord, varianceFields, word_key]
  simp only [double_field hsmall, double_field hsquare, unsigned_field]
  by_cases hcount : 65535 < count
  · simp only [hcount, decide_true, if_true]
  · simp only [hcount, decide_false, Bool.false_eq_true, if_false]

/-- A padded field has no end of a line when the field has none. -/
theorem notMem_setw {n : ℕ} {text : Text} (h : '\n' ∉ text) : '\n' ∉ setw n text := by
  rw [setw, List.leftpad, List.mem_append, not_or]
  exact ⟨fun hmem => absurd (List.eq_of_mem_replicate hmem) (by decide), h⟩

/-- What the variance mapper writes for a price is one line. -/
theorem notMem_varianceFields (price count : ℕ) : '\n' ∉ varianceFields price count := by
  have hfloat (n : ℕ) : '\n' ∉ floatText n := fun hmem =>
    Bool.noConfusion (isSpace_of_mem_floatText hmem)
  have hcount : '\n' ∉ Nat.toDigits 10 count := fun hmem =>
    Bool.noConfusion (isDigit_toDigits '\n' hmem)
  simp only [varianceFields, List.mem_append, List.mem_cons, List.not_mem_nil, or_false,
    notMem_setw (hfloat _), notMem_setw hcount]
  decide

/-- **The record arrives** as it was exactly when the price has at most three significant
digits and the count fits into 16 bits. -/
theorem record_exact_iff {price : ℕ} (hprice : price < 2 ^ 26) (count : ℕ) :
    readRecords (varianceLine price count) =
        [some (some (price : ℚ), some ((price : ℚ) * price), count)] ↔
      Significant 3 price ∧ count < 2 ^ 16 := by
  have hline : readRecords (varianceLine price count) =
      [readRecord (varianceFields price count)] := by
    rw [readRecords, varianceLine, getlines_line (notMem_varianceFields price count)]
    rfl
  have hprice6 : rounded 6 price = price ↔ Significant 6 price := rounded_eq_self_iff (by decide)
  have hsquare6 : rounded 6 (price * price) = price * price ↔ Significant 3 price := by
    rw [rounded_eq_self_iff (by decide)]
    exact significant_sq_iff (d := 3)
  rw [hline, readRecord_varianceFields hprice, List.cons_eq_cons, ← Nat.cast_mul]
  by_cases hcount : 65535 < count
  · rw [if_pos hcount]
    exact iff_of_false (fun h => by cases h.1) fun h => absurd h.2 (Nat.not_lt.mpr hcount)
  · simp only [if_neg hcount, Option.some.injEq, Prod.mk.injEq, Nat.cast_inj, hprice6, hsquare6,
      and_true]
    constructor
    · rintro ⟨-, h⟩
      exact ⟨h, Nat.lt_succ_of_le (Nat.not_lt.mp hcount)⟩
    · rintro ⟨h, -⟩
      exact ⟨h.mono (by decide), h⟩

theorem record_exact_iff_twelve_hundred :
    readRecords (varianceLine 1200 3) =
      [some (some ((1200 : ℕ) : ℚ), some (((1200 : ℕ) : ℚ) * (1200 : ℕ)), 3)] :=
  (record_exact_iff (by decide) 3).mpr ⟨⟨12, 2, by decide, rfl⟩, by decide⟩

/-- **Two records that do not arrive**: the square of 1001 is rounded, and a count of 65536 is
passed over. -/
theorem records_lost :
    readRecords (varianceLine 1001 1) ≠ [some (some 1001, some (1001 * 1001), 1)] ∧
      readRecords (varianceLine 1001 1) = [some (some 1001, some 1002000, 1)] ∧
      readRecords (varianceLine 5 65536) ≠ [some (some 5, some (5 * 5), 65536)] ∧
      readRecords (varianceLine 5 65536) = [none] := by
  refine ⟨?_, ?_, ?_, ?_⟩ <;> decide +kernel

end MapReduce
