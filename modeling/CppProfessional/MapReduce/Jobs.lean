import CppProfessional.Commands.Replies
import CppProfessional.Containers.Counts
import CppProfessional.MapReduce.Records
import CppProfessional.MapReduce.Statistics
import CppProfessional.Numbers.Formats
import CppProfessional.Streams.Rendering
import Mathlib.Data.List.Perm.Basic

/-!
# The two jobs on texts and machine numbers

A job is a number of mappers, each with a part of the input, the sorting of all their lines,
and one reducer.  Here the lines are the texts that the programs write and read, and the
reducers calculate as the machine does: `reducer` with `float`, `reducer_variance` with
`double`.  The prices are whole numbers.

* `meanLine`, `varianceLine` — what the mappers write; `readMean`, `readRecord` — what the
  reducers read of it;
* `meanSums`, `varianceSums` — what the reducers add up, `meanComputed` and
  `varianceComputed` what they make of it, `meanOutput` and `varianceOutput` what they print;
* `mean_job`, `variance_job` — what comes out.
-/

namespace MapReduce

open Commands Containers Numbers Streams

/-! ### The mappers

A mapper writes every price with its count.  The numbers are whole here, so what
`operator<<` makes of a `float` or a `double` is a text that can be written down. -/

section Mappers

variable (fromChars : Text → Option ℕ)

/-- The valid prices in the standard input. -/
def textPrices (input : Text) : List ℕ := validPrices fromChars (getlines '\n' input)

/-- The valid prices of a job, whose input is divided into parts. -/
def jobPrices (chunks : List Text) : List ℕ := chunks.flatMap (textPrices fromChars)

/-- How often a mapper finds each price. -/
def textCounts (input : Text) : List (ℕ × ℕ) := counts (textPrices fromChars input)

/-- `price_counts` at the end of a mapper; its counters are written as numbers that are not
negative. -/
def writtenCounts (input : Text) : List (ℕ × ℕ) :=
  (priceCounts fromChars (getlines '\n' input)).map countOf

/-- The line of `mapper` for a price without its end. -/
def meanFields (price count : ℕ) : Text :=
  ['p', 'r', 'i', 'c', 'e'] ++ ('\t' :: (floatText price ++ '\t' :: Nat.toDigits 10 count))

/-- The line for a price. -/
def meanLine (price count : ℕ) : Text := meanFields price count ++ ['\n']

/-- The standard output of `mapper`. -/
def mapperOutput (input : Text) : Text :=
  (writtenCounts fromChars input).flatMap fun entry => meanLine entry.1 entry.2

/-- The standard output of `mapper_variance`. -/
def mapperVarianceOutput (input : Text) : Text :=
  (writtenCounts fromChars input).flatMap fun entry => varianceLine entry.1 entry.2

end Mappers

/-! ### The reducers

What a reducer computes and what it prints are kept apart: the number is rounded a last
time when it is printed. -/

/-- `iss >> key >> price >> value_count` of `reducer`, where it succeeds. -/
def readMean (line : Text) : Option (Option ℚ × ℕ) :=
  let (_, iss) := (IStream.ofText line).word []
  let (price, iss) := iss.floating binary32 none
  let (valueCount, iss) := iss.unsigned (2 ^ 64 - 1) 0
  if iss.fail then none else some (price, valueCount)

/-- `sum` and `count` of `reducer`. -/
structure MeanSums where
  sum : Option ℚ
  count : ℕ
  deriving DecidableEq, Repr

/-- One record more. -/
def MeanSums.add (sums : MeanSums) (record : Option ℚ × ℕ) : MeanSums where
  sum := binary32.add sums.sum (binary32.mul record.1 (binary32.finite record.2))
  count := (sums.count + record.2) % 2 ^ 64

/-- The loop of `reducer`. -/
def meanSums (input : Text) : MeanSums :=
  (getlines '\n' input).foldl
    (fun sums line =>
      match readMean line with
      | some record => sums.add record
      | none => sums)
    ⟨some 0, 0⟩

/-- `mean` of `reducer`; `none` is everything that is not finite. -/
def meanComputed (input : Text) : Option ℚ :=
  let sums := meanSums input
  if 0 < sums.count then binary32.div sums.sum (binary32.finite sums.count) else some 0

/-- The standard output of `reducer`, where the mean is finite. -/
def meanOutput (input : Text) : Option Text :=
  (meanComputed input).map fun mean => "Mean price: ".toList ++ numberText mean ++ ['\n']

/-- `sum_squared`, `sum` and `count` of `reducer_variance`.  The counter is a `std::int64_t`,
which `2 ^ 47` lines do not fill, as a count that is read is below `2 ^ 16`. -/
structure VarianceSums where
  sumSquared : Option ℚ
  sum : Option ℚ
  count : ℕ
  deriving DecidableEq, Repr

/-- One record more. -/
def VarianceSums.add (sums : VarianceSums) (record : Option ℚ × Option ℚ × ℕ) : VarianceSums where
  sumSquared := binary64.add sums.sumSquared (binary64.mul record.2.1 (binary64.finite record.2.2))
  sum := binary64.add sums.sum (binary64.mul record.1 (binary64.finite record.2.2))
  count := sums.count + record.2.2

/-- The loop of `reducer_variance`. -/
def varianceSums (input : Text) : VarianceSums :=
  (getlines '\n' input).foldl
    (fun sums line =>
      match readRecord line with
      | some record => sums.add record
      | none => sums)
    ⟨some 0, some 0, 0⟩

/-- `variance` of `reducer_variance`. -/
def varianceComputed (input : Text) : Option ℚ :=
  let sums := varianceSums input
  let count := binary64.finite sums.count
  let mean := if 0 < sums.count then binary64.div sums.sum count else some 0
  let meanSquared := if 0 < sums.count then binary64.div sums.sumSquared count else some 0
  binary64.sub meanSquared (binary64.mul mean mean)

/-- The standard output of `reducer_variance`, where the variance is finite. -/
def varianceOutput (input : Text) : Option Text :=
  (varianceComputed input).map fun variance =>
    "Variance: ".toList ++ numberText variance ++ ['\n']

/-! ### From the mappers to the reducer

The sort puts the lines of all mappers into some order.  Each line is the line of one
entry, so the reducer sees the entries in some order. -/

section Sorting

variable {α β : Type*}

/-- What is arranged anew after a function could have been arranged before it. -/
theorem exists_perm_map {f : α → β} {l : List α} {m : List β} (h : m.Perm (l.map f)) :
    ∃ k : List α, k.Perm l ∧ m = k.map f := by
  have hrel : List.Forall₂ (fun b a => b = f a) (l.map f) l :=
    List.forall₂_map_left_iff.mpr (List.forall₂_same.mpr fun _ _ => rfl)
  obtain ⟨k, hk, hperm⟩ := List.perm_comp_forall₂ h hrel
  have heq : List.Forall₂ (· = ·) m (k.map f) := List.forall₂_map_right_iff.mpr hk
  rw [List.forall₂_eq_eq_eq] at heq
  exact ⟨k, hperm, heq⟩

/-- **The lines that reach a reducer** are the lines for the entries of all mappers, in some
order. -/
theorem exists_entries {fields : ℕ → ℕ → Text} (hfields : ∀ price count, '\n' ∉ fields price count)
    {count : Text → List (ℕ × ℕ)} {chunks : List Text} {input : Text}
    (hsorted : (getlines '\n' input).Perm (chunks.flatMap fun chunk =>
      getlines '\n' ((count chunk).flatMap fun entry => fields entry.1 entry.2 ++ ['\n']))) :
    ∃ entries : List (ℕ × ℕ), entries.Perm (chunks.flatMap count) ∧
      getlines '\n' input = entries.map fun entry => fields entry.1 entry.2 := by
  have hlines (entries : List (ℕ × ℕ)) :
      getlines '\n' (entries.flatMap fun entry => fields entry.1 entry.2 ++ ['\n']) =
        entries.map fun entry => fields entry.1 entry.2 := by
    have hframes : (entries.flatMap fun entry => fields entry.1 entry.2 ++ ['\n']) =
        ((entries.map fun entry => fields entry.1 entry.2).map (· ++ ['\n'])).flatten := by
      rw [List.map_map, List.flatMap_def]
      rfl
    rw [hframes, getlines_frames]
    intro line hline
    obtain ⟨entry, -, rfl⟩ := List.mem_map.mp hline
    exact hfields _ _
  simp only [hlines] at hsorted
  rw [← List.map_flatMap] at hsorted
  exact exists_perm_map hsorted

end Sorting

/-! ### What is read -/

/-- **A line of the mapper, read back.** A price below 2^24 comes back as the price with six
digits, and the count as it was. -/
theorem readMean_meanFields {price count : ℕ} (hprice : rounded 6 price < 2 ^ 24)
    (hcount : count < 2 ^ 64) :
    readMean (meanFields price count) = some (some (rounded 6 price : ℚ), count) := by
  have htab : ∀ d ∈ ['\t'], isSpace d = true := isSpace_padding 0
  have hfloat :
      (IStream.ofText ('\t' :: (floatText price ++ '\t' :: Nat.toDigits 10 count))).floating
          binary32 none =
        (some (rounded 6 price : ℚ), IStream.ofText ('\t' :: Nat.toDigits 10 count)) :=
    IStream.floating_floatText hprice none _ htab rfl
  have hdigits : (IStream.ofText ('\t' :: Nat.toDigits 10 count)).unsigned (2 ^ 64 - 1) 0 =
      (if 2 ^ 64 - 1 < count then 2 ^ 64 - 1 else count, ⟨[], true, decide (2 ^ 64 - 1 < count)⟩) :=
    IStream.unsigned_toDigits (2 ^ 64 - 1) count 0 htab
  have hle : ¬ 2 ^ 64 - 1 < count := by omega
  rw [readMean, meanFields, word_key]
  simp only [hfloat, hdigits, hle, decide_false, Bool.false_eq_true, if_false]

/-- What the mapper writes for a price is one line. -/
theorem notMem_meanFields (price count : ℕ) : '\n' ∉ meanFields price count := by
  have hfloat : '\n' ∉ floatText price := fun hmem =>
    Bool.noConfusion (isSpace_of_mem_floatText hmem)
  have hcount : '\n' ∉ Nat.toDigits 10 count := fun hmem =>
    Bool.noConfusion (isDigit_toDigits '\n' hmem)
  simp only [meanFields, List.mem_append, List.mem_cons, List.not_mem_nil, or_false, hfloat,
    hcount]
  decide

/-! ### What is added up

A sum of whole numbers is exact as long as it fits into the digits of the format,
whatever the order is; this is what makes the order of the lines immaterial. -/

/-- The sums of the reducer are those of the lines that it can read. -/
theorem meanSums_eq (input : Text) :
    meanSums input =
      ((getlines '\n' input).filterMap readMean).foldl MeanSums.add ⟨some 0, 0⟩ := by
  rw [meanSums, List.foldl_filterMap]
  congr 1
  funext sums line
  cases readMean line <;> rfl

/-- The sums of the variance reducer are those of the lines that it can read. -/
theorem varianceSums_eq (input : Text) :
    varianceSums input =
      ((getlines '\n' input).filterMap readRecord).foldl VarianceSums.add
        ⟨some 0, some 0, 0⟩ := by
  rw [varianceSums, List.foldl_filterMap]
  congr 1
  funext sums line
  cases readRecord line <;> rfl

/-- **The sums of whole numbers are exact in `float`.** As long as the total stays below 2^24,
no addition on the way rounds; the running total is the invariant. -/
theorem foldl_meanSums {entries : List (ℕ × ℕ)} {sum count : ℕ}
    (hsum : sum + weighted id entries < 2 ^ 24)
    (hcount : count + weighted (fun _ => 1) entries < 2 ^ 24) :
    (entries.map fun entry => (some (entry.1 : ℚ), entry.2)).foldl MeanSums.add
        ⟨some (sum : ℚ), count⟩ =
      ⟨some ((sum + weighted id entries : ℕ) : ℚ), count + weighted (fun _ => 1) entries⟩ := by
  induction entries generalizing sum count with
  | nil => rfl
  | cons entry entries ih =>
      simp only [weighted_cons, Nat.nsmul_eq_mul, mul_one, id_eq, ← add_assoc] at hsum hcount ⊢
      have hadd : binary32.add (some (sum : ℚ))
          (binary32.mul (some (entry.1 : ℚ)) (binary32.finite entry.2)) =
            some ((sum + entry.2 * entry.1 : ℕ) : ℚ) :=
        BinaryFormat.add_mul_natCast (show entry.2 < 2 ^ 24 by omega)
          (show sum + entry.2 * entry.1 < 2 ^ 24 by omega)
      have hmod : (count + entry.2) % 2 ^ 64 = count + entry.2 := Nat.mod_eq_of_lt (by omega)
      rw [List.map_cons, List.foldl_cons, MeanSums.add, hadd, hmod]
      exact ih hsum hcount

/-- The same for the two sums of the variance in `double`, below 2^53.  The squares need a
bound of their own: the sum of the prices says nothing about them. -/
theorem foldl_varianceSums {entries : List (ℕ × ℕ)} {sumSquared sum count : ℕ}
    (hcounts : ∀ entry ∈ entries, entry.2 < 2 ^ 53)
    (hsquared : sumSquared + weighted (fun price => price * price) entries < 2 ^ 53)
    (hsum : sum + weighted id entries < 2 ^ 53) :
    (entries.map fun entry =>
        (some (entry.1 : ℚ), some ((entry.1 * entry.1 : ℕ) : ℚ), entry.2)).foldl VarianceSums.add
        ⟨some (sumSquared : ℚ), some (sum : ℚ), count⟩ =
      ⟨some ((sumSquared + weighted (fun price => price * price) entries : ℕ) : ℚ),
        some ((sum + weighted id entries : ℕ) : ℚ), count + weighted (fun _ => 1) entries⟩ := by
  induction entries generalizing sumSquared sum count with
  | nil => rfl
  | cons entry entries ih =>
      rw [List.forall_mem_cons] at hcounts
      simp only [weighted_cons, Nat.nsmul_eq_mul, mul_one, id_eq, ← add_assoc] at hsquared hsum ⊢
      have hadd {a b : ℕ} (hab : a + entry.2 * b < 2 ^ 53) :
          binary64.add (some (a : ℚ)) (binary64.mul (some (b : ℚ)) (binary64.finite entry.2)) =
            some ((a + entry.2 * b : ℕ) : ℚ) :=
        BinaryFormat.add_mul_natCast hcounts.1 hab
      rw [List.map_cons, List.foldl_cons, VarianceSums.add, hadd (by omega), hadd (by omega)]
      exact ih hcounts.2 hsquared hsum

/-! ### What is made of the sums

After the sums each operation rounds once.  The error of a quotient is relative to it;
the difference is the last step, and there the errors are relative to what was
subtracted. -/

/-- A number that is not tiny is rounded in its 53rd digit. -/
theorem binary64_error {x : ℚ} (hx : x = 0 ∨ 1 / 2 ^ 200 ≤ |x|) :
    |binary64.nearest x - x| ≤ |x| / 2 ^ 53 := by
  rcases hx with rfl | hx
  · rw [BinaryFormat.nearest_zero, sub_zero, abs_zero, zero_div]
  · refine BinaryFormat.abs_nearest_sub_le_of_normal (le_trans ?_ hx)
    calc (2 : ℚ) ^ (-1074 + ((53 - 1 : ℕ) : ℤ)) ≤ 2 ^ (-(200 : ℕ) : ℤ) :=
          zpow_le_zpow_right₀ one_le_two (by decide)
      _ = 1 / 2 ^ 200 := by rw [zpow_neg, zpow_natCast, one_div]

/-- A number far below the largest `double` does not overflow. -/
theorem binary64_finite {x : ℚ} (hx : |x| ≤ 2 ^ 60) :
    binary64.finite x = some (binary64.nearest x) := by
  refine BinaryFormat.finite_eq_some ?_
  calc 2 * |x| + 1 ≤ (2 ^ 53 - 1) * 2 ^ 20 := by linarith
    _ ≤ (2 ^ 53 - 1) * 2 ^ 971 :=
        mul_le_mul_of_nonneg_left (pow_le_pow_right₀ one_le_two (by decide)) (by norm_num)

/-- A number far below the largest `float` does not overflow. -/
theorem binary32_finite {x : ℚ} (hx : |x| ≤ 2 ^ 24) :
    binary32.finite x = some (binary32.nearest x) := by
  refine BinaryFormat.finite_eq_some ?_
  calc 2 * |x| + 1 ≤ (2 ^ 24 - 1) * 2 ^ 2 := by linarith
    _ ≤ (2 ^ 24 - 1) * 2 ^ 104 :=
        mul_le_mul_of_nonneg_left (pow_le_pow_right₀ one_le_two (by decide)) (by norm_num)

/-- A quotient of whole numbers is not above the dividend. -/
theorem abs_div_le (k n : ℕ) : |(k : ℚ) / n| ≤ k := by
  rw [abs_of_nonneg (by positivity)]
  rcases Nat.eq_zero_or_pos n with rfl | hpos
  · rw [Nat.cast_zero, div_zero]
    exact Nat.cast_nonneg k
  · exact div_le_self (Nat.cast_nonneg k) (by exact_mod_cast hpos)

/-- **The error of the last line**: the mean of the squares `A` and the mean `M` are rounded,
the square of the mean is rounded, and the difference is. -/
theorem difference_error {A M : ℚ} (hM : 0 ≤ M) (hle : M * M ≤ A) (hA : A ≤ 2 ^ 53)
    (hsmall : A = 0 ∨ 1 / 2 ^ 53 ≤ A) (hsmall' : M = 0 ∨ 1 / 2 ^ 53 ≤ M) (hMA : M ≤ A) :
    ∃ v, binary64.sub (binary64.finite A)
        (binary64.mul (binary64.finite M) (binary64.finite M)) = some v ∧
      |v - (A - M * M)| ≤ A / 2 ^ 50 := by
  have hA0 : 0 ≤ A := hM.trans hMA
  have hnot : (1 : ℚ) / 2 ^ 200 ≤ 1 / 2 ^ 53 := by norm_num
  -- the two means
  have hea := binary64_error (hsmall.imp_right fun h => hnot.trans (h.trans (le_abs_self A)))
  have hem := binary64_error (hsmall'.imp_right fun h => hnot.trans (h.trans (le_abs_self M)))
  rw [abs_of_nonneg hA0] at hea
  rw [abs_of_nonneg hM] at hem
  have hfa := binary64_finite (x := A) (by rw [abs_of_nonneg hA0]; linarith)
  have hfm := binary64_finite (x := M) (by rw [abs_of_nonneg hM]; linarith)
  generalize binary64.nearest A = a at hea hfa
  generalize binary64.nearest M = m at hem hfm
  -- the square of the mean
  obtain ⟨hml, hmu⟩ := abs_le.mp hem
  have hm0 : M / 2 ≤ m := by linarith
  have hmM : |m * m - M * M| ≤ 3 * (M * M) / 2 ^ 53 := by
    have hsplit : m * m - M * M = (m - M) * (m + M) := by ring
    rw [hsplit, abs_mul, abs_of_nonneg (by linarith : 0 ≤ m + M)]
    calc |m - M| * (m + M) ≤ M / 2 ^ 53 * (3 * M) :=
          mul_le_mul hem (by linarith) (by linarith) (by positivity)
      _ = 3 * (M * M) / 2 ^ 53 := by ring
  have hmm0 : 0 ≤ m * m := mul_self_nonneg m
  obtain ⟨hmml, hmmu⟩ := abs_le.mp hmM
  have heq := binary64_error (x := m * m) (by
    rcases hsmall' with hzero | hpos
    · left
      rw [hzero, zero_div, abs_nonpos_iff, sub_zero] at hem
      rw [hem, zero_mul]
    · right
      have hm : (1 : ℚ) / 2 ^ 54 ≤ m := by linarith
      calc (1 : ℚ) / 2 ^ 200 ≤ 1 / 2 ^ 54 * (1 / 2 ^ 54) := by norm_num
        _ ≤ m * m := mul_le_mul hm hm (by norm_num) ((by norm_num : (0 : ℚ) ≤ _).trans hm)
        _ ≤ |m * m| := le_abs_self _)
  have hfq := binary64_finite (x := m * m) (by rw [abs_of_nonneg hmm0]; linarith)
  rw [abs_of_nonneg hmm0] at heq
  generalize binary64.nearest (m * m) = q at heq hfq
  -- the difference
  obtain ⟨hal, hau⟩ := abs_le.mp hea
  obtain ⟨hql, hqu⟩ := abs_le.mp heq
  have hMM : 0 ≤ M * M := mul_self_nonneg M
  have haq : |a - q| ≤ 3 / 2 * A := abs_le.mpr ⟨by linarith, by linarith⟩
  have hev := @BinaryFormat.abs_nearest_sub_le binary64 (a - q)
  have hfv := binary64_finite (x := a - q) (by linarith)
  refine ⟨binary64.nearest (a - q), ?_, ?_⟩
  · rw [hfa, hfm, BinaryFormat.mul, Option.bind_some, Option.bind_some, hfq, BinaryFormat.sub,
      Option.bind_some, Option.bind_some, hfv]
  · have htiny : (2 : ℚ) ^ binary64.minExponent / 2 ≤ 1 / 2 ^ 200 := by
      have hpos : (0 : ℚ) < 2 ^ (-1074 : ℤ) := zpow_pos two_pos _
      calc (2 : ℚ) ^ (-1074 : ℤ) / 2 ≤ 2 ^ (-1074 : ℤ) := half_le_self hpos.le
        _ ≤ 2 ^ (-(200 : ℕ) : ℤ) := zpow_le_zpow_right₀ one_le_two (by decide)
        _ = 1 / 2 ^ 200 := by rw [zpow_neg, zpow_natCast, one_div]
    have hdigits : |a - q| / 2 ^ binary64.digits ≤ 3 / 2 * A / 2 ^ 53 :=
      div_le_div_of_nonneg_right haq (by norm_num)
    rcases hsmall with hzero | hpos
    · have hq0 : a - q = 0 := abs_nonpos_iff.mp (by linarith)
      have hMM0 : M * M = 0 := by linarith
      rw [hq0, BinaryFormat.nearest_zero, hMM0, hzero]
      norm_num
    · obtain ⟨hvl, hvu⟩ := abs_le.mp (hev.trans (add_le_add hdigits htiny))
      rw [abs_le]
      constructor <;> linarith

/-! ### The jobs

The two jobs are put together: the counts of the mappers, the lines as texts, the sums
and the last line of the reducer.  The variance has one thing more to go wrong, as its
reducer reads the counts into 16 bits. -/

section Jobs

variable {fromChars : Text → Option ℕ} {chunks : List Text} {input : Text}

/-- Counting the prices of each part and adding up is adding up over all prices. -/
theorem weighted_textCounts (f : ℕ → ℕ) (chunks : List Text) :
    weighted f (chunks.flatMap (textCounts fromChars)) =
      ((jobPrices fromChars chunks).map f).sum := by
  induction chunks with
  | nil => rfl
  | cons chunk chunks ih =>
      rw [List.flatMap_cons, weighted_append, ih, textCounts, sum_counts, jobPrices, jobPrices,
        List.flatMap_cons, List.map_append, List.sum_append]

/-- The sum of the squares. -/
def sumSquares (prices : List ℕ) : ℕ := (prices.map fun price => price * price).sum

theorem sum_map_one (prices : List ℕ) : (prices.map fun _ => 1).sum = prices.length := by
  rw [List.map_const', List.sum_replicate, Nat.nsmul_eq_mul, mul_one]

/-- An entry of a mapper: a price, and how often this mapper has found it. -/
theorem mem_entries {entry : ℕ × ℕ} (h : entry ∈ chunks.flatMap (textCounts fromChars)) :
    ∃ chunk ∈ chunks, entry.1 ∈ textPrices fromChars chunk ∧
      entry.2 = (textPrices fromChars chunk).count entry.1 := by
  obtain ⟨chunk, hchunk, hentry⟩ := List.mem_flatMap.mp h
  exact ⟨chunk, hchunk, mem_counts.mp hentry⟩

/-- What a mapper counts is one of the prices. -/
theorem mem_textPrices {entry : ℕ × ℕ} (h : entry ∈ chunks.flatMap (textCounts fromChars)) :
    entry.1 ∈ jobPrices fromChars chunks := by
  obtain ⟨chunk, hchunk, hprice, -⟩ := mem_entries h
  exact List.mem_flatMap.mpr ⟨chunk, hchunk, hprice⟩

/-- A count is not above the number of all prices. -/
theorem count_le_length {entry : ℕ × ℕ} (h : entry ∈ chunks.flatMap (textCounts fromChars)) :
    entry.2 ≤ (jobPrices fromChars chunks).length := by
  obtain ⟨chunk, hchunk, -, hcount⟩ := mem_entries h
  rw [hcount]
  exact List.count_le_length.trans
    (List.sublist_flatten_of_mem (List.mem_map_of_mem hchunk)).length_le

/-- The counters of the mappers are right where there are fewer than `2 ^ 31` prices. -/
theorem flatMap_writtenCounts (hlength : (jobPrices fromChars chunks).length < 2 ^ 31) :
    chunks.flatMap (writtenCounts fromChars) = chunks.flatMap (textCounts fromChars) := by
  refine List.flatMap_congr fun chunk hchunk => map_countOf_priceCounts fun price => ?_
  have hle : (textPrices fromChars chunk).length ≤ (jobPrices fromChars chunks).length :=
    (List.sublist_flatten_of_mem (List.mem_map_of_mem hchunk)).length_le
  exact (List.count_le_length.trans hle).trans_lt hlength

/-- What is printed of a number denotes a number that differs from it by less than a unit in
the sixth digit. -/
theorem exists_printed {v x bound : ℚ} (h : |v - x| ≤ bound) :
    ∃ field w, splitFloat (numberText v ++ ['\n']) = (field, ['\n']) ∧ field.value = some w ∧
      |w - x| ≤ (|x| + bound) / (2 * 10 ^ 5) + bound := by
  obtain ⟨field, hsplit, hvalue⟩ := splitFloat_numberText v [] (c := '\n') rfl
  refine ⟨field, sixSignificant v, hsplit, hvalue, ?_⟩
  have hsix := abs_sixSignificant_sub_le v
  have hv : |v| ≤ |x| + bound := by
    have htriangle := abs_add_le (v - x) x
    rw [sub_add_cancel] at htriangle
    linarith
  have htriangle := abs_add_le (sixSignificant v - v) (v - x)
  rw [sub_add_sub_cancel] at htriangle
  have hdiv : |v| / (2 * 10 ^ 5) ≤ (|x| + bound) / (2 * 10 ^ 5) :=
    div_le_div_of_nonneg_right hv (by norm_num)
  linarith

/-- A number that is not tiny is rounded in its 24th digit. -/
theorem binary32_error {x : ℚ} (hx : x = 0 ∨ 1 / 2 ^ 100 ≤ |x|) :
    |binary32.nearest x - x| ≤ |x| / 2 ^ 24 := by
  rcases hx with rfl | hx
  · rw [BinaryFormat.nearest_zero, sub_zero, abs_zero, zero_div]
  · refine BinaryFormat.abs_nearest_sub_le_of_normal (le_trans ?_ hx)
    calc (2 : ℚ) ^ (-149 + ((24 - 1 : ℕ) : ℤ)) ≤ 2 ^ (-(100 : ℕ) : ℤ) :=
          zpow_le_zpow_right₀ one_le_two (by decide)
      _ = 1 / 2 ^ 100 := by rw [zpow_neg, zpow_natCast, one_div]

/-- A quotient of two whole numbers is not tiny. -/
theorem quotient_cases (k : ℕ) {n : ℕ} (hn : n < 2 ^ 53) :
    (k : ℚ) / n = 0 ∨ 1 / 2 ^ 53 ≤ (k : ℚ) / n := by
  rcases Nat.eq_zero_or_pos k with rfl | hk
  · exact .inl (by rw [Nat.cast_zero, zero_div])
  · rcases Nat.eq_zero_or_pos n with rfl | hpos
    · exact .inl (by rw [Nat.cast_zero, div_zero])
    · right
      have hk1 : (1 : ℚ) ≤ k := by exact_mod_cast hk
      have hn0 : (0 : ℚ) < n := by exact_mod_cast hpos
      have hn1 : (n : ℚ) ≤ 2 ^ 53 := by exact_mod_cast hn.le
      exact div_le_div₀ (Nat.cast_nonneg k) hk1 hn0 hn1

/-- **The mean.**  However the lines are divided among the mappers, and in whatever order their
lines are sorted, `reducer` adds up without an error as long as the sum and the number of the
prices stay below `2 ^ 24`, and computes the `float` nearest to the mean of the prices.  It
prints six significant digits of this, a number that differs from the mean by at most its
hundred-thousandth part. -/
theorem mean_job
    (hsorted : (getlines '\n' input).Perm
      (chunks.flatMap fun chunk => getlines '\n' (mapperOutput fromChars chunk)))
    (hdigits : ∀ price ∈ jobPrices fromChars chunks, Significant 6 price)
    (hsum : (jobPrices fromChars chunks).sum < 2 ^ 24)
    (hlength : (jobPrices fromChars chunks).length < 2 ^ 24) :
    meanSums input = ⟨some ((jobPrices fromChars chunks).sum : ℚ),
        (jobPrices fromChars chunks).length⟩ ∧
      meanComputed input =
        some (binary32.nearest (mean ((jobPrices fromChars chunks).map (↑)))) ∧
      meanOutput input = some ("Mean price: ".toList ++
        numberText (binary32.nearest (mean ((jobPrices fromChars chunks).map (↑)))) ++ ['\n']) ∧
      ∃ field w, splitFloat (numberText
          (binary32.nearest (mean ((jobPrices fromChars chunks).map (↑)))) ++ ['\n']) =
            (field, ['\n']) ∧
        field.value = some w ∧
        |w - mean ((jobPrices fromChars chunks).map (↑))| ≤
          mean ((jobPrices fromChars chunks).map (↑)) / 10 ^ 5 := by
  obtain ⟨entries, hperm, hlines⟩ := exists_entries notMem_meanFields hsorted
  rw [flatMap_writtenCounts (hlength.trans (by decide))] at hperm
  generalize hprices : jobPrices fromChars chunks = prices at *
  have hweighted (f : ℕ → ℕ) : weighted f entries = (prices.map f).sum := by
    rw [weighted_perm f hperm, weighted_textCounts, hprices]
  have hread : (getlines '\n' input).filterMap readMean =
      entries.map fun entry => (some (entry.1 : ℚ), entry.2) := by
    rw [hlines, List.filterMap_map, ← List.filterMap_eq_map]
    refine List.filterMap_congr fun entry hentry => ?_
    have hmem := hperm.mem_iff.mp hentry
    have hprice : entry.1 ∈ prices := hprices ▸ mem_textPrices hmem
    have hrounded : rounded 6 entry.1 = entry.1 :=
      (rounded_eq_self_iff (by decide)).mpr (hdigits _ hprice)
    have hle : entry.1 ≤ prices.sum := List.le_sum_of_mem hprice
    have hcount : entry.2 ≤ prices.length := hprices ▸ count_le_length hmem
    show readMean (meanFields entry.1 entry.2) = _
    rw [readMean_meanFields (by omega) (by omega), hrounded]
    rfl
  have hsums : meanSums input = ⟨some (prices.sum : ℚ), prices.length⟩ := by
    have hid : weighted id entries = prices.sum := by rw [hweighted, List.map_id]
    have hone : weighted (fun _ => 1) entries = prices.length := by rw [hweighted, sum_map_one]
    have hfold := @foldl_meanSums entries 0 0 (by rwa [hid, Nat.zero_add])
      (by rwa [hone, Nat.zero_add])
    rw [hid, hone, Nat.zero_add, Nat.zero_add, Nat.cast_zero] at hfold
    rw [meanSums_eq, hread, hfold]
  have hmean : mean (prices.map (↑)) = (prices.sum : ℚ) / (prices.length : ℚ) := by
    rw [mean, List.length_map, Nat.cast_list_sum]
  have hcomputed : meanComputed input = some (binary32.nearest (mean (prices.map (↑)))) := by
    have hdiv := @BinaryFormat.div_natCast binary32 prices.length prices.sum hlength
    rw [meanComputed, hsums, hmean]
    refine hdiv.trans (binary32_finite ((abs_div_le _ _).trans ?_))
    exact_mod_cast hsum.le
  have hoverall : |binary32.nearest (mean (prices.map (↑))) - mean (prices.map (↑))| ≤
      mean (prices.map (↑)) / 2 ^ 24 := by
    have hnonneg : 0 ≤ mean (prices.map ((↑) : ℕ → ℚ)) := by
      rw [hmean]
      positivity
    have herror := binary32_error (x := mean (prices.map (↑))) (by
      rw [hmean, abs_of_nonneg (by positivity)]
      exact (quotient_cases _ (hlength.trans (by decide))).imp_right
        fun h => le_trans (by norm_num) h)
    rwa [abs_of_nonneg hnonneg] at herror
  obtain ⟨field, w, hsplit, hvalue, herror⟩ := exists_printed hoverall
  refine ⟨hsums, hcomputed, by rw [meanOutput, hcomputed]; rfl, field, w, hsplit, hvalue,
    herror.trans ?_⟩
  have hnonneg : 0 ≤ mean (prices.map ((↑) : ℕ → ℚ)) := by
    rw [hmean]
    positivity
  rw [abs_of_nonneg hnonneg]
  linarith

/-- What `from_chars` finds in a numeral without a sign, a point and an exponent. -/
def wholeNumber (text : Text) : Option ℕ :=
  let digits := text.takeWhile Char.isDigit
  if digits.isEmpty then none else some (Nat.ofDigitChars 10 digits 0)

/-- Two parts of an input with the prices one and two, and one once more. -/
def twoParts : List Text := [",,,,,,,,,1\n,,,,,,,,,2\n".toList, "a,b\n,,,,,,,,,1\n".toList]

/-- The lines of both mappers, as they come. -/
def twoPartsOutput : Text := twoParts.flatMap (mapperOutput wholeNumber)

/-- Four thirds. -/
theorem mean_job_twoParts : jobPrices wholeNumber twoParts = [1, 2, 1] ∧
    meanOutput twoPartsOutput = some "Mean price: 1.33333\n".toList := by
  have hprices : jobPrices wholeNumber twoParts = [1, 2, 1] := by decide +kernel
  have hsmall : ∀ price ∈ jobPrices wholeNumber twoParts, price < 10 ^ 6 := by decide +kernel
  have hjob := @mean_job wholeNumber twoParts twoPartsOutput (by decide +kernel)
    (fun price hprice => ⟨price, 0, hsmall price hprice, by rw [pow_zero, mul_one]⟩)
    (by decide +kernel) (by decide +kernel)
  rw [hprices] at hjob
  exact ⟨hprices, hjob.2.2.1.trans (by decide +kernel)⟩

/-- The entries that `reducer_variance` reads. -/
def keptEntries (entries : List (ℕ × ℕ)) : List (ℕ × ℕ) :=
  entries.filter fun entry => entry.2 ≤ 65535

/-- What is left of a sum, when some entries are not read. -/
theorem weighted_keptEntries (f : ℕ → ℕ) (entries : List (ℕ × ℕ)) :
    weighted f entries = weighted f (keptEntries entries) +
      weighted f (entries.filter fun entry => !decide (entry.2 ≤ 65535)) := by
  rw [← weighted_append]
  exact (weighted_perm f (List.filter_append_perm _ entries)).symm

/-- The counts that survive the extraction into `uint16_t`. -/
theorem filterMap_keptEntries {γ : Type*} (g : ℕ × ℕ → γ) (entries : List (ℕ × ℕ)) :
    (entries.filterMap fun entry => if 65535 < entry.2 then none else some (g entry)) =
      (keptEntries entries).map g := by
  induction entries with
  | nil => rfl
  | cons entry entries ih =>
      rw [List.filterMap_cons, ih, keptEntries, keptEntries]
      by_cases hcount : 65535 < entry.2
      · have hnot : ¬ entry.2 ≤ 65535 := Nat.not_le.mpr hcount
        rw [if_pos hcount, List.filter_cons_of_neg (by simpa using hnot)]
      · rw [if_neg hcount, List.filter_cons_of_pos (by simpa using hcount), List.map_cons]

/-- No entry is dropped exactly if no mapper has found a price too often. -/
theorem forall_entries_iff {entries : List (ℕ × ℕ)}
    (hperm : entries.Perm (chunks.flatMap (textCounts fromChars))) :
    (∀ entry ∈ entries, entry.2 ≤ 65535) ↔
      ∀ chunk ∈ chunks, ∀ price, (textPrices fromChars chunk).count price < 2 ^ 16 := by
  constructor
  · intro h chunk hchunk price
    by_cases hprice : price ∈ textPrices fromChars chunk
    · have hentry : (price, (textPrices fromChars chunk).count price) ∈
          chunks.flatMap (textCounts fromChars) :=
        List.mem_flatMap.mpr ⟨chunk, hchunk, mem_counts.mpr ⟨hprice, rfl⟩⟩
      exact Nat.lt_succ_of_le (h _ (hperm.mem_iff.mpr hentry))
    · rw [List.count_eq_zero_of_not_mem hprice]
      decide
  · intro h entry hentry
    obtain ⟨chunk, hchunk, -, hcount⟩ := mem_entries (hperm.mem_iff.mp hentry)
    rw [hcount]
    exact Nat.le_of_lt_succ (h chunk hchunk entry.1)

/-- Every entry that is dropped is missing in the count. -/
theorem weighted_one_keptEntries_eq_iff {entries : List (ℕ × ℕ)} :
    weighted (fun _ => 1) (keptEntries entries) = weighted (fun _ => 1) entries ↔
      ∀ entry ∈ entries, entry.2 ≤ 65535 := by
  constructor
  · intro h entry hentry
    by_contra hcount
    have hdropped : entry.2 ≤
        weighted (fun _ => 1) (entries.filter fun entry => !decide (entry.2 ≤ 65535)) := by
      refine List.le_sum_of_mem (List.mem_map.mpr ⟨entry, ?_, ?_⟩)
      · exact List.mem_filter.mpr ⟨hentry, by simpa using hcount⟩
      · rw [Nat.nsmul_eq_mul, mul_one]
    have htotal := weighted_keptEntries (fun _ => 1) entries
    omega
  · intro h
    rw [keptEntries, List.filter_eq_self.mpr fun entry hentry => by simpa using h entry hentry]

theorem le_sumSquares {prices : List ℕ} {price : ℕ} (h : price ∈ prices) :
    price * price ≤ sumSquares prices :=
  List.le_sum_of_mem (List.mem_map.mpr ⟨price, h, rfl⟩)

/-- Whole prices are at most their squares, and so are the sums. -/
theorem sum_le_sumSquares (prices : List ℕ) : prices.sum ≤ sumSquares prices := by
  induction prices with
  | nil => exact Nat.le_refl 0
  | cons price prices ih =>
      rw [sumSquares, List.sum_cons, List.map_cons, List.sum_cons]
      exact Nat.add_le_add (Nat.le_mul_self price) ih

/-- What `reducer_variance` reads of the lines for some entries. -/
theorem filterMap_readRecord {entries : List (ℕ × ℕ)}
    (hentries : ∀ entry ∈ entries, Significant 3 entry.1 ∧ entry.1 < 2 ^ 26) :
    (entries.map fun entry => varianceFields entry.1 entry.2).filterMap readRecord =
      (keptEntries entries).map fun entry =>
        (some (entry.1 : ℚ), some ((entry.1 * entry.1 : ℕ) : ℚ), entry.2) := by
  rw [List.filterMap_map, ← filterMap_keptEntries]
  refine List.filterMap_congr fun entry hentry => ?_
  obtain ⟨hthree, hsmall⟩ := hentries entry hentry
  have hsix : rounded 6 entry.1 = entry.1 :=
    (rounded_eq_self_iff (by decide)).mpr (hthree.mono (by decide))
  have hsquare : rounded 6 (entry.1 * entry.1) = entry.1 * entry.1 :=
    (rounded_eq_self_iff (by decide)).mpr (significant_sq_iff (d := 3).mpr hthree)
  rw [Function.comp_apply, readRecord_varianceFields hsmall, hsix, hsquare]

/-- What `reducer_variance` adds up of them. -/
theorem varianceSums_of_lines {entries : List (ℕ × ℕ)}
    (hlines : getlines '\n' input = entries.map fun entry => varianceFields entry.1 entry.2)
    (hentries : ∀ entry ∈ entries, Significant 3 entry.1 ∧ entry.1 < 2 ^ 26)
    (hsquared : weighted (fun price => price * price) entries < 2 ^ 52)
    (hsum : weighted id entries < 2 ^ 52) :
    varianceSums input =
      ⟨some ((weighted (fun price => price * price) (keptEntries entries) : ℕ) : ℚ),
        some ((weighted id (keptEntries entries) : ℕ) : ℚ),
        weighted (fun _ => 1) (keptEntries entries)⟩ := by
  have hle (f : ℕ → ℕ) : weighted f (keptEntries entries) ≤ weighted f entries := by
    rw [weighted_keptEntries f entries]
    exact Nat.le_add_right _ _
  have hcounts : ∀ entry ∈ keptEntries entries, entry.2 < 2 ^ 53 := by
    intro entry hentry
    have hkept : entry.2 ≤ 65535 := by simpa using (List.mem_filter.mp hentry).2
    omega
  have hfold := @foldl_varianceSums (keptEntries entries) 0 0 0 hcounts
    (by have := hle fun price => price * price; omega) (by have := hle id; omega)
  rw [Nat.zero_add, Nat.zero_add, Nat.zero_add, Nat.cast_zero] at hfold
  rw [varianceSums_eq, hlines, filterMap_readRecord hentries, hfold]

/-- What it makes of the right sums.  Four results are rounded: the two quotients, the
square and the difference.  The errors of the first three grow with the mean of the squares,
however small the difference is. -/
theorem varianceComputed_of_sums {prices : List ℕ} (hsum : sumSquares prices < 2 ^ 52)
    (hlength : prices.length < 2 ^ 53)
    (hsums : varianceSums input =
      ⟨some (sumSquares prices : ℚ), some (prices.sum : ℚ), prices.length⟩) :
    ∃ v, varianceComputed input = some v ∧
      |v - variance (prices.map (↑))| ≤ (sumSquares prices : ℚ) / prices.length / 2 ^ 50 := by
  have hsquares : ((prices.map ((↑) : ℕ → ℚ)).map fun x => x * x).sum = sumSquares prices := by
    rw [sumSquares, Nat.cast_list_sum, List.map_map, List.map_map]
    congr 2
    funext price
    simp
  have hmean : mean (prices.map (↑)) = (prices.sum : ℚ) / (prices.length : ℚ) := by
    rw [mean, List.length_map, Nat.cast_list_sum]
  have hvariance : variance (prices.map (↑)) = (sumSquares prices : ℚ) / prices.length -
      (prices.sum : ℚ) / prices.length * ((prices.sum : ℚ) / prices.length) := by
    rw [variance_eq, hsquares, hmean, List.length_map]
  have hnonneg := variance_nonneg (prices.map ((↑) : ℕ → ℚ))
  have hmeans : (prices.sum : ℚ) / prices.length ≤ (sumSquares prices : ℚ) / prices.length :=
    div_le_div_of_nonneg_right (by exact_mod_cast sum_le_sumSquares prices) (Nat.cast_nonneg _)
  have hbound : (sumSquares prices : ℚ) / prices.length ≤ 2 ^ 53 := by
    refine (le_abs_self _).trans ((abs_div_le _ _).trans ?_)
    exact_mod_cast hsum.le.trans (by decide)
  rw [hvariance] at hnonneg ⊢
  obtain ⟨v, hv, herror⟩ := difference_error (by positivity) (sub_nonneg.mp hnonneg) hbound
    (quotient_cases _ hlength) (quotient_cases _ hlength) hmeans
  refine ⟨v, ?_, herror⟩
  have hdiv (k : ℕ) := @BinaryFormat.div_natCast binary64 prices.length (k : ℚ) hlength
  rw [← hv, varianceComputed, hsums]
  simp only [hdiv]

/-- **The variance.**  However the lines are divided among the mappers, and in whatever order
their lines are sorted, `reducer_variance` counts all prices exactly if no mapper has found a
price `2 ^ 16` times.  Then it adds up without an error as long as the sum of the squares stays
below `2 ^ 52`, and what it computes differs from the variance of the prices by at most the mean
of their squares divided by `2 ^ 50`.  It prints six significant digits of this. -/
theorem variance_job
    (hsorted : (getlines '\n' input).Perm
      (chunks.flatMap fun chunk => getlines '\n' (mapperVarianceOutput fromChars chunk)))
    (hdigits : ∀ price ∈ jobPrices fromChars chunks, Significant 3 price)
    (hsum : sumSquares (jobPrices fromChars chunks) < 2 ^ 52)
    (hlength : (jobPrices fromChars chunks).length < 2 ^ 31) :
    ((varianceSums input).count = (jobPrices fromChars chunks).length ↔
      ∀ chunk ∈ chunks, ∀ price, (textPrices fromChars chunk).count price < 2 ^ 16) ∧
    ((∀ chunk ∈ chunks, ∀ price, (textPrices fromChars chunk).count price < 2 ^ 16) →
      varianceSums input =
        ⟨some (sumSquares (jobPrices fromChars chunks) : ℚ),
          some ((jobPrices fromChars chunks).sum : ℚ),
          (jobPrices fromChars chunks).length⟩ ∧
      ∃ v, varianceComputed input = some v ∧
        |v - variance ((jobPrices fromChars chunks).map (↑))| ≤
          (sumSquares (jobPrices fromChars chunks) : ℚ) /
            (jobPrices fromChars chunks).length / 2 ^ 50 ∧
        varianceOutput input = some ("Variance: ".toList ++ numberText v ++ ['\n']) ∧
        ∃ field w, splitFloat (numberText v ++ ['\n']) = (field, ['\n']) ∧
          field.value = some w ∧
          |w - variance ((jobPrices fromChars chunks).map (↑))| ≤
            variance ((jobPrices fromChars chunks).map (↑)) / (2 * 10 ^ 5) +
              (sumSquares (jobPrices fromChars chunks) : ℚ) /
                (jobPrices fromChars chunks).length / 2 ^ 49) := by
  obtain ⟨entries, hperm, hlines⟩ := exists_entries notMem_varianceFields hsorted
  rw [flatMap_writtenCounts hlength] at hperm
  have hkept := forall_entries_iff hperm
  have hprice : ∀ entry ∈ entries, entry.1 ∈ jobPrices fromChars chunks := fun entry hentry =>
    mem_textPrices (hperm.mem_iff.mp hentry)
  have hweighted (f : ℕ → ℕ) :
      weighted f entries = ((jobPrices fromChars chunks).map f).sum := by
    rw [weighted_perm f hperm, weighted_textCounts]
  generalize jobPrices fromChars chunks = prices at *
  have hentries : ∀ entry ∈ entries, Significant 3 entry.1 ∧ entry.1 < 2 ^ 26 := by
    intro entry hentry
    refine ⟨hdigits _ (hprice entry hentry), ?_⟩
    have hle := (le_sumSquares (hprice entry hentry)).trans_lt hsum
    by_contra hlarge
    have hsquare := Nat.mul_le_mul (Nat.not_lt.mp hlarge) (Nat.not_lt.mp hlarge)
    omega
  have hsquared : weighted (fun price => price * price) entries = sumSquares prices :=
    hweighted _
  have hid : weighted id entries = prices.sum := by rw [hweighted, List.map_id]
  have hone : weighted (fun _ => 1) entries = prices.length := by rw [hweighted, sum_map_one]
  have hsums := varianceSums_of_lines hlines hentries (hsquared ▸ hsum)
    (hid ▸ (sum_le_sumSquares prices).trans_lt hsum)
  constructor
  · rw [hsums, ← hkept, ← weighted_one_keptEntries_eq_iff, hone]
  · intro hcounts
    have hall : keptEntries entries = entries :=
      List.filter_eq_self.mpr fun entry hentry => by simpa using hkept.mpr hcounts entry hentry
    rw [hall, hsquared, hid, hone] at hsums
    obtain ⟨v, hv, herror⟩ :=
      varianceComputed_of_sums hsum (hlength.trans (by decide)) hsums
    obtain ⟨field, w, hsplit, hvalue, hprinted⟩ := exists_printed herror
    refine ⟨hsums, v, hv, herror, by rw [varianceOutput, hv]; rfl, field, w, hsplit, hvalue,
      hprinted.trans ?_⟩
    have hmeanSquared : (0 : ℚ) ≤ (sumSquares prices : ℚ) / prices.length := by positivity
    rw [abs_of_nonneg (variance_nonneg _)]
    linarith

/-- The same two parts with the other mapper. -/
def twoPartsVarianceOutput : Text := twoParts.flatMap (mapperVarianceOutput wholeNumber)

/-- Two ninths. -/
theorem variance_job_twoParts :
    varianceSums twoPartsVarianceOutput = ⟨some 6, some 4, 3⟩ ∧
      varianceOutput twoPartsVarianceOutput = some "Variance: 0.222222\n".toList := by
  have hsmall : ∀ price ∈ jobPrices wholeNumber twoParts, price < 10 ^ 3 := by decide +kernel
  have hshort : ∀ chunk ∈ twoParts, (textPrices wholeNumber chunk).length < 2 ^ 16 := by
    decide +kernel
  obtain ⟨hsums, -⟩ := (@variance_job wholeNumber twoParts twoPartsVarianceOutput
    (by decide +kernel)
    (fun price hprice => ⟨price, 0, hsmall price hprice, by rw [pow_zero, mul_one]⟩)
    (by decide +kernel) (by decide +kernel)).2 fun chunk hchunk price =>
      List.count_le_length.trans_lt (hshort chunk hchunk)
  have hsums' := hsums.trans (by decide +kernel : _ = (⟨some 6, some 4, 3⟩ : VarianceSums))
  refine ⟨hsums', ?_⟩
  rw [varianceOutput, varianceComputed, hsums']
  decide +kernel

end Jobs

end MapReduce
