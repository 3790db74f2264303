import CppProfessional.Containers.Counts
import CppProfessional.MapReduce.Csv
import Mathlib.Algebra.BigOperators.Ring.List
import Mathlib.Algebra.Order.BigOperators.Group.List
import Mathlib.Algebra.Order.Field.Rat
import Mathlib.Data.Nat.Cast.Order.Ring
import Mathlib.Tactic.FieldSimp
import Mathlib.Tactic.Ring

/-!
# The statistics of the prices

A mapper counts the equal prices of its lines and writes one line for each of them, a
reducer adds up the lines of all mappers.  Prices and sums are rational here, and the
conversion of records to lines and back is a parameter, of which it is only asked that it
gives back the records of the mappers.  The counters are those of the machine: an `int` for
each price, a `std::size_t` or a `std::int64_t` for all of them.

* `validPrices` are the prices that the lines hold, said without the programs,
* `mapper`, `reducer` and `mapperVariance`, `reducerVariance` are the programs,
* `sum_records` says that sums do not see who counted what,
* `statistics_exact` compares the results with the mean and the variance of the prices.
-/

namespace MapReduce

open Containers

/-! ### The prices

What the valid prices of a text are is said by its lines and their fields, and not by
the programs. -/

section Prices

variable {P : Type*} (parse : Text → Option P)

/-- The price that a line holds: its tenth field, when there is one that is not empty and
starts with a number. -/
def validPrice (line : Text) : Option P :=
  match (csvFields line)[9]? with
  | some field => if field = [] then none else parse field
  | none => none

/-- The valid prices of some lines. -/
def validPrices (lines : List Text) : List P := lines.filterMap (validPrice parse)

end Prices

/-! ### The programs

The conversions between numbers and text are left open.  What the reducers have to read
of the lines that the mappers have written is a hypothesis of the result. -/

section Programs

variable {P : Type*} (parse : Text → Option P)

/-- The price that a mapper takes from a line, where it takes one. -/
def priceOf (line : Text) : Option P :=
  let priceField := extractPriceField line ',' 9
  if priceField.isEmpty then none else parse priceField

/-- The prices that a mapper counts. -/
def prices (lines : List Text) : List P := lines.filterMap (priceOf parse)

/-- `price_counts` at the end of a mapper. -/
def priceCounts [LinearOrder P] (lines : List Text) : List (P × Int32) :=
  counts (prices parse lines)

end Programs

section Jobs

variable (parse : Text → Option ℚ) {Line : Type*}

/-- `main` of the mapper: the lines it writes. -/
def mapper (print : ℚ × Int32 → Line) (lines : List Text) : List Line :=
  (priceCounts parse lines).map print

/-- A price and its square, with the count. -/
def varianceRecord {N : Type*} (entry : ℚ × N) : (ℚ × ℚ) × N :=
  ((entry.1, entry.1 * entry.1), entry.2)

/-- The records of the mapper for the variance. -/
def varianceRecords (lines : List Text) : List ((ℚ × ℚ) × Int32) :=
  (priceCounts parse lines).map varianceRecord

/-- `main` of the mapper for the variance. -/
def mapperVariance (print : (ℚ × ℚ) × Int32 → Line) (lines : List Text) : List Line :=
  (varianceRecords parse lines).map print

/-- The loop of the reducer, with `sum` and `count`. -/
def reducerFrom (read : Line → Option (ℚ × ℕ)) : ℚ → UInt64 → List Line → ℚ
  | sum, count, [] => if 0 < count then sum / count.toNat else 0
  | sum, count, line :: lines =>
      match read line with
      | some (price, valueCount) =>
          reducerFrom read (sum + price * valueCount) (count + .ofNat valueCount) lines
      | none => reducerFrom read sum count lines

/-- `main` of the reducer: the mean that it computes. -/
def reducer (read : Line → Option (ℚ × ℕ)) (lines : List Line) : ℚ := reducerFrom read 0 0 lines

/-- The loop of the reducer for the variance, with `sum_squared`, `sum` and `count`. -/
def reducerVarianceFrom (read : Line → Option ((ℚ × ℚ) × ℕ)) : ℚ → ℚ → Int64 → List Line → ℚ
  | sumSquared, sum, count, [] =>
      let mean := if 0 < count then sum / count.toInt else 0
      let meanSquared := if 0 < count then sumSquared / count.toInt else 0
      meanSquared - mean * mean
  | sumSquared, sum, count, line :: lines =>
      match read line with
      | some ((price, priceSquared), valueCount) =>
          reducerVarianceFrom read (sumSquared + priceSquared * valueCount)
            (sum + price * valueCount) (count + .ofNat valueCount) lines
      | none => reducerVarianceFrom read sumSquared sum count lines

/-- `main` of the reducer for the variance: the variance that it computes. -/
def reducerVariance (read : Line → Option ((ℚ × ℚ) × ℕ)) (lines : List Line) : ℚ :=
  reducerVarianceFrom read 0 0 0 lines

end Jobs

/-! ### The counters

A mapper counts in `int`.  The counters are compared with natural numbers once, and from
there on the sums are those of natural numbers. -/

section Counters

variable {P : Type*} {parse : Text → Option P}

/-- **The mappers take the valid prices.** -/
theorem priceOf_eq_validPrice (line : Text) : priceOf parse line = validPrice parse line := by
  rw [priceOf, validPrice]
  simp only [extractPriceField_eq]
  cases (csvFields line)[9]? with
  | none => rfl
  | some field =>
      rw [Option.getD_some]
      cases field <;> rfl

/-- **The prices of the mapper.** What it takes from the lines are the prices of the valid
ones, in their order. -/
theorem prices_eq_validPrices (lines : List Text) : prices parse lines = validPrices parse lines :=
  List.filterMap_congr fun line _ => priceOf_eq_validPrice line

/-- The number in a counter that is not negative. -/
def countOf {R : Type*} (record : R × Int32) : R × ℕ := (record.1, record.2.toNatClampNeg)

/-- An `int` counts right as long as there are fewer than `2 ^ 31` equal prices. -/
theorem map_countOf_priceCounts [LinearOrder P] {lines : List Text}
    (hint : ∀ price, (validPrices parse lines).count price < 2 ^ 31) :
    (priceCounts parse lines).map countOf = counts (validPrices parse lines) := by
  rw [priceCounts, prices_eq_validPrices, counts_eq_map (f := Int32.ofNat) rfl
    (fun n => Int32.ofNat_add n 1), List.map_map]
  refine (List.map_congr_left ?_).trans (List.map_id _)
  rintro ⟨price, n⟩ hentry
  obtain ⟨-, rfl⟩ := mem_counts.mp hentry
  exact congrArg (price, ·) (Int32.toNatClampNeg_ofNat_of_lt (hint price))

end Counters

/-! ### Mean and variance

The variance is defined by the distances from the mean.  The reducer computes it from
the two sums, which is the same in exact arithmetic. -/

/-- The arithmetic mean, zero for no numbers. -/
def mean (xs : List ℚ) : ℚ := xs.sum / xs.length

/-- The mean of the squared distances from the mean. -/
def variance (xs : List ℚ) : ℚ := (xs.map fun x => (x - mean xs) ^ 2).sum / xs.length

@[simp] theorem mean_nil : mean [] = 0 := by simp [mean]

@[simp] theorem variance_nil : variance [] = 0 := by simp [variance]

/-- A mean of squares is not negative. -/
theorem variance_nonneg (xs : List ℚ) : 0 ≤ variance xs := by
  refine div_nonneg (List.sum_nonneg ?_) (Nat.cast_nonneg _)
  intro y hy
  obtain ⟨x, -, rfl⟩ := List.mem_map.mp hy
  exact sq_nonneg _

/-- The squares of the differences from a number, multiplied out. -/
theorem sum_sq_sub (m : ℚ) (xs : List ℚ) :
    (xs.map fun x => (x - m) ^ 2).sum =
      (xs.map fun x => x * x).sum - 2 * m * xs.sum + xs.length * m ^ 2 := by
  induction xs with
  | nil => simp
  | cons x xs ih =>
      simp only [List.map_cons, List.sum_cons, ih, List.length_cons, Nat.cast_add, Nat.cast_one]
      ring

/-- The mean of the squares minus the square of the mean. -/
theorem variance_eq (xs : List ℚ) :
    variance xs = (xs.map fun x => x * x).sum / xs.length - mean xs * mean xs := by
  rcases eq_or_ne xs [] with rfl | hne
  · simp
  · have hlength : (xs.length : ℚ) ≠ 0 := by
      exact_mod_cast (List.length_pos_iff.mpr hne).ne'
    rw [variance, sum_sq_sub, mean]
    field_simp
    ring

/-! ### From the lines to the sums

Sums over the entries of all mappers are sums over all prices, by whichever mapper they
were counted and in whatever order the lines come. -/

section Sums

variable {Line : Type*}

/-- The quotient of the reducer; without prices the sum is zero, too. -/
theorem quotient_eq (x : ℚ) {n : ℕ} (hn : n < 2 ^ 64) :
    (if 0 < UInt64.ofNat n then x / (UInt64.ofNat n).toNat else 0) = x / n := by
  have hcount : (UInt64.ofNat n).toNat = n := UInt64.toNat_ofNat_of_lt hn
  rcases Nat.eq_zero_or_pos n with rfl | hpos
  · rw [if_neg (by decide), Nat.cast_zero, div_zero]
  · have hlt : 0 < UInt64.ofNat n := UInt64.lt_iff_toNat_lt.mpr (hcount.symm ▸ hpos)
    rw [if_pos hlt, hcount]

/-- The quotient of the reducer for the variance, the same way. -/
theorem quotient_eq_int (x : ℚ) {n : ℕ} (hn : n < 2 ^ 63) :
    (if 0 < Int64.ofNat n then x / (Int64.ofNat n).toInt else 0) = x / n := by
  have hcount : (Int64.ofNat n).toInt = n := Int64.toInt_ofNat_of_lt hn
  rcases Nat.eq_zero_or_pos n with rfl | hpos
  · rw [if_neg (by decide), Nat.cast_zero, div_zero]
  · have hlt : 0 < Int64.ofNat n := by
      rw [Int64.lt_iff_toInt_lt, hcount, Int64.toInt_zero]
      exact_mod_cast hpos
    rw [if_pos hlt, hcount, Int.cast_natCast]

/-- The reducer, once the lines are read, as long as its counter does not wrap around.  By
induction on the lines, for any sum and count to start with. -/
theorem reducerFrom_eq (read : Line → Option (ℚ × ℕ)) (sum : ℚ) (count : ℕ) (lines : List Line)
    (hcount : count + weighted (fun _ => 1) (lines.filterMap read) < 2 ^ 64) :
    reducerFrom read sum (.ofNat count) lines =
      (sum + weighted id (lines.filterMap read)) /
        (count + weighted (fun _ => 1) (lines.filterMap read) : ℕ) := by
  induction lines generalizing sum count with
  | nil =>
      rw [reducerFrom, quotient_eq sum ((Nat.le_add_right _ _).trans_lt hcount)]
      simp [weighted]
  | cons line lines ih =>
      rw [reducerFrom]
      cases hread : read line with
      | none =>
          rw [List.filterMap_cons_none hread] at hcount ⊢
          exact ih sum count hcount
      | some record =>
          obtain ⟨price, valueCount⟩ := record
          show reducerFrom read (sum + price * valueCount) (.ofNat count + .ofNat valueCount)
            lines = _
          rw [List.filterMap_cons_some hread] at hcount ⊢
          simp only [weighted_cons, nsmul_eq_mul, id_eq, mul_one, Nat.cast_id] at hcount ⊢
          rw [← add_assoc] at hcount
          rw [← UInt64.ofNat_add, ih _ _ hcount]
          simp only [add_assoc, mul_comm price]

/-- The reducer for the variance, once the lines are read.  Its counter has a sign, so the
bound is one bit smaller; the two numbers are the mean of the squares and the mean. -/
theorem reducerVarianceFrom_eq (read : Line → Option ((ℚ × ℚ) × ℕ)) (sumSquared sum : ℚ)
    (count : ℕ) (lines : List Line) {n : ℕ} (hn : n < 2 ^ 63)
    (hcount : n = count + weighted (fun _ => 1) (lines.filterMap read)) :
    reducerVarianceFrom read sumSquared sum (.ofNat count) lines =
      (sumSquared + weighted Prod.snd (lines.filterMap read)) / n -
        (sum + weighted Prod.fst (lines.filterMap read)) / n *
          ((sum + weighted Prod.fst (lines.filterMap read)) / n) := by
  induction lines generalizing sumSquared sum count with
  | nil =>
      obtain rfl : n = count := hcount.trans (Nat.add_zero count)
      simp only [reducerVarianceFrom, quotient_eq_int _ hn]
      simp [weighted]
  | cons line lines ih =>
      rw [reducerVarianceFrom]
      cases hread : read line with
      | none =>
          rw [List.filterMap_cons_none hread] at hcount ⊢
          exact ih sumSquared sum count hcount
      | some record =>
          obtain ⟨⟨price, priceSquared⟩, valueCount⟩ := record
          show reducerVarianceFrom read (sumSquared + priceSquared * valueCount)
            (sum + price * valueCount) (.ofNat count + .ofNat valueCount) lines = _
          rw [List.filterMap_cons_some hread] at hcount ⊢
          simp only [weighted_cons, nsmul_eq_mul, mul_one, Nat.cast_id] at hcount ⊢
          rw [← add_assoc] at hcount
          rw [← Int64.ofNat_add, ih _ _ _ hcount]
          simp only [add_assoc, mul_comm price, mul_comm priceSquared]

/-- What is read of the lines of all mappers, in whatever order they come. -/
theorem read_output {R : Type*} {records : List Text → List (R × Int32)}
    {print : R × Int32 → Line} {read : Line → Option (R × ℕ)} {chunks : List (List Text)}
    {output : List Line}
    (houtput : output.Perm (chunks.flatMap fun chunk => (records chunk).map print))
    (hexact : ∀ chunk ∈ chunks, ∀ record ∈ records chunk,
      read (print record) = some (countOf record)) :
    (output.filterMap read).Perm (chunks.flatMap fun chunk => (records chunk).map countOf) := by
  refine (houtput.filterMap read).trans (List.Perm.of_eq ?_)
  clear houtput
  induction chunks with
  | nil => rfl
  | cons chunk chunks ih =>
      rw [List.forall_mem_cons] at hexact
      have hchunk : ((records chunk).map print).filterMap read = (records chunk).map countOf := by
        rw [List.filterMap_map, ← List.filterMap_eq_map]
        exact List.filterMap_congr hexact.1
      rw [List.flatMap_cons, List.filterMap_append, hchunk, ih hexact.2, List.flatMap_cons]

variable {parse : Text → Option ℚ}

/-- **Sums do not see who counted what.** -/
theorem sum_records {M : Type*} [AddCommMonoid M] (f : ℚ → M) {chunks : List (List Text)}
    {lines : List Text} (hchunks : chunks.flatten.Perm lines) :
    weighted f (chunks.flatMap fun chunk => counts (validPrices parse chunk)) =
      ((validPrices parse lines).map f).sum := by
  have hflatten : weighted f (chunks.flatMap fun chunk => counts (validPrices parse chunk)) =
      ((validPrices parse chunks.flatten).map f).sum := by
    clear hchunks
    induction chunks with
    | nil => rfl
    | cons chunk chunks ih =>
        rw [List.flatMap_cons, weighted_append, ih, sum_counts, List.flatten_cons,
          validPrices, validPrices, validPrices, List.filterMap_append, List.map_append,
          List.sum_append]
  rw [hflatten]
  exact ((hchunks.filterMap _).map f).sum_eq

/-- The sums over the records for the variance. -/
theorem sum_varianceRecords {M : Type*} [AddCommMonoid M] (f : ℚ × ℚ → M)
    {chunks : List (List Text)} {lines : List Text} (hchunks : chunks.flatten.Perm lines) :
    weighted f (chunks.flatMap fun chunk =>
        (counts (validPrices parse chunk)).map varianceRecord) =
      ((validPrices parse lines).map fun price => f (price, price * price)).sum := by
  rw [← List.map_flatMap, ← sum_records (fun price => f (price, price * price)) hchunks, weighted,
    List.map_map]
  rfl

/-- What the mappers have counted, where their counters are large enough. -/
theorem flatMap_countOf {chunks : List (List Text)}
    (hint : ∀ chunk ∈ chunks, ∀ price, (validPrices parse chunk).count price < 2 ^ 31) :
    (chunks.flatMap fun chunk => (priceCounts parse chunk).map countOf) =
      chunks.flatMap fun chunk => counts (validPrices parse chunk) :=
  List.flatMap_congr fun chunk hchunk => map_countOf_priceCounts (hint chunk hchunk)

/-- The counts that the reducer reads are those of the mapper, as long as none of them leaves
`int`. -/
theorem flatMap_countOf_variance {chunks : List (List Text)}
    (hint : ∀ chunk ∈ chunks, ∀ price, (validPrices parse chunk).count price < 2 ^ 31) :
    (chunks.flatMap fun chunk => (varianceRecords parse chunk).map countOf) =
      chunks.flatMap fun chunk => (counts (validPrices parse chunk)).map varianceRecord := by
  refine List.flatMap_congr fun chunk hchunk => ?_
  rw [← map_countOf_priceCounts (hint chunk hchunk), varianceRecords, List.map_map, List.map_map]
  rfl

end Sums

theorem sum_ones (xs : List ℚ) : (xs.map fun _ => 1).sum = xs.length := by
  rw [List.map_const', List.sum_replicate, nsmul_eq_mul, mul_one, Nat.cast_id]

/-- **The statistics.**  However the lines are divided among the mappers, and in whatever
order the lines of these come, the reducers compute mean and variance of the valid prices,
as long as no mapper finds a price `2 ^ 31` times, and there are fewer than `2 ^ 63` prices
in all: so much fits into the counters. -/
theorem statistics_exact {Line Line' : Type*} (parse : Text → Option ℚ)
    (print : ℚ × Int32 → Line) (read : Line → Option (ℚ × ℕ))
    (print' : (ℚ × ℚ) × Int32 → Line') (read' : Line' → Option ((ℚ × ℚ) × ℕ))
    {lines : List Text} {chunks : List (List Text)} (hchunks : chunks.flatten.Perm lines)
    {output : List Line} (houtput : output.Perm (chunks.flatMap (mapper parse print)))
    {output' : List Line'} (houtput' : output'.Perm (chunks.flatMap (mapperVariance parse print')))
    (hexact : ∀ chunk ∈ chunks, ∀ record ∈ priceCounts parse chunk,
      read (print record) = some (countOf record))
    (hexact' : ∀ chunk ∈ chunks, ∀ record ∈ varianceRecords parse chunk,
      read' (print' record) = some (countOf record))
    (hint : ∀ chunk ∈ chunks, ∀ price, (validPrices parse chunk).count price < 2 ^ 31)
    (hlength : (validPrices parse lines).length < 2 ^ 63) :
    reducer read output = mean (validPrices parse lines) ∧
      reducerVariance read' output' = variance (validPrices parse lines) ∧
      0 ≤ variance (validPrices parse lines) ∧
      (validPrices parse lines = [] →
        reducer read output = 0 ∧ reducerVariance read' output' = 0) := by
  have hread := read_output houtput hexact
  have hread' := read_output houtput' hexact'
  rw [flatMap_countOf hint] at hread
  rw [flatMap_countOf_variance hint] at hread'
  have hmean : reducer read output = mean (validPrices parse lines) := by
    have hcount : 0 + weighted (fun _ => 1) (output.filterMap read) =
        (validPrices parse lines).length := by
      rw [weighted_perm _ hread, sum_records _ hchunks, sum_ones, zero_add]
    have hfrom := reducerFrom_eq read 0 0 output (hcount.trans_lt (hlength.trans (by decide)))
    rw [hcount, weighted_perm _ hread, sum_records _ hchunks, List.map_id, zero_add] at hfrom
    exact hfrom
  have hvariance : reducerVariance read' output' = variance (validPrices parse lines) := by
    have hcount : (validPrices parse lines).length =
        0 + weighted (fun _ => 1) (output'.filterMap read') := by
      rw [weighted_perm _ hread', sum_varianceRecords _ hchunks, sum_ones, zero_add]
    have hfrom := reducerVarianceFrom_eq read' 0 0 0 output' hlength hcount
    rw [weighted_perm _ hread', weighted_perm _ hread', sum_varianceRecords _ hchunks,
      sum_varianceRecords _ hchunks, List.map_id', zero_add, zero_add] at hfrom
    rw [variance_eq, mean]
    exact hfrom
  refine ⟨hmean, hvariance, variance_nonneg _, fun hnone => ?_⟩
  rw [hmean, hvariance, hnone]
  exact ⟨mean_nil, variance_nil⟩

/-! ### An example -/

/-- Numerals in place of the conversion from text. -/
def wholePrice (text : Text) : Option ℚ :=
  let digits := text.takeWhile Char.isDigit
  if digits.isEmpty then none else some (Nat.ofDigitChars 10 digits 0 : ℕ)

/-- A line of the mapper for a price that is a small whole number. -/
def wholeLine (record : ℚ × Int32) : Text :=
  "price\t".toList ++ Nat.toDigits 10 record.1.num.toNat ++
    '\t' :: Nat.toDigits 10 record.2.toNatClampNeg

/-- A line of the mapper for the variance, the same way. -/
def wholeVarianceLine (record : (ℚ × ℚ) × Int32) : Text :=
  "price\t".toList ++ List.leftpad 5 ' ' (Nat.toDigits 10 record.1.1.num.toNat) ++
    '\t' :: List.leftpad 11 ' ' (Nat.toDigits 10 record.1.2.num.toNat) ++
      '\t' :: List.leftpad 4 ' ' (Nat.toDigits 10 record.2.toNatClampNeg)

/-- The numbers of such a line. -/
def wholeNumbers (line : Text) : List ℕ :=
  ((line.filter (· ≠ ' ')).splitOn '\t').tail.map fun digits => Nat.ofDigitChars 10 digits 0

/-- What the reducer reads of it. -/
def readWhole (line : Text) : Option (ℚ × ℕ) :=
  match wholeNumbers line with
  | [price, count] => some (price, count)
  | _ => none

/-- What the reducer for the variance reads of it. -/
def readWholeVariance (line : Text) : Option ((ℚ × ℚ) × ℕ) :=
  match wholeNumbers line with
  | [price, priceSquared, count] => some ((price, priceSquared), count)
  | _ => none

/-- Lines with the prices five, seven and five, and one without a price. -/
def fourLines : List Text :=
  [",,,,,,,,,5".toList, ",,,,,,,,,7".toList, "a,b".toList, ",,,,,,,,,5".toList]

/-- The first and the third of the lines go to one mapper, the other two to a second one. -/
def twoChunks : List (List Text) :=
  [[",,,,,,,,,5".toList, "a,b".toList], [",,,,,,,,,7".toList, ",,,,,,,,,5".toList]]

/-- The mean is 17 thirds and the variance 8 ninths. -/
theorem statistics_exact_fourLines :
    validPrices wholePrice fourLines = [5, 7, 5] ∧
      reducer readWhole (twoChunks.flatMap (mapper wholePrice wholeLine)) = 17 / 3 ∧
      reducerVariance readWholeVariance
        (twoChunks.flatMap (mapperVariance wholePrice wholeVarianceLine)) = 8 / 9 := by
  have hprices : validPrices wholePrice fourLines = [5, 7, 5] := by decide +kernel
  have hlines : twoChunks.flatten.Perm fourLines := by decide
  have hshort : ∀ chunk ∈ twoChunks, (validPrices wholePrice chunk).length < 2 ^ 31 := by
    decide +kernel
  obtain ⟨hmean, hvariance, -⟩ := statistics_exact wholePrice wholeLine readWhole
    wholeVarianceLine readWholeVariance hlines (.refl _) (.refl _) (by decide +kernel)
    (by decide +kernel)
    (fun chunk hchunk price => List.count_le_length.trans_lt (hshort chunk hchunk))
    (by rw [hprices]; decide)
  refine ⟨hprices, hmean.trans ?_, hvariance.trans ?_⟩
  · rw [hprices, mean]
    norm_num
  · rw [hprices, variance, mean]
    norm_num

end MapReduce
