import CppProfessional.Commands.Blocks
import CppProfessional.JoinServer.Commands
import Mathlib.Data.List.Forall2
import Mathlib.Data.Rat.Init

/-!
# The accuracy of the classifier

`evaluate` asks the model for the class of every image of a test file,
`evaluate_with_predictions` reads it from a second file.  Both count the lines whose label
can be read, and among these the right ones; a bad line is passed over by both of them, and
with it a line of the second file.

* `Floats` — what the functions use of `float`;
* `evaluate`, `evaluateWithPredictions` — the functions;
* `Stored` — a line of the second file holds what the model says;
* `sameCounts_of_stored` — then the counts are the same.
-/

namespace Mlp

open Commands Streams
open JoinServer (CInt fromChars int_range)

/-- A text. -/
abbrev Text := List Char

/-- What the functions use of `float`: zero, `std::from_chars` and the quotient of two
numbers that were converted. -/
structure Floats (F : Type*) where
  zero : F
  fromChars : Text → Option F
  ratio : ℕ → ℕ → F

/-- The variables of the functions, and what they have written to the standard error
output. -/
structure Tally where
  correct : ℕ
  total : ℕ
  stderr : List Text
  deriving DecidableEq, Repr

namespace Tally

/-- The variables at the start. -/
def start : Tally := ⟨0, 0, []⟩

/-- Lines for the standard error output. -/
def report (t : Tally) (lines : List Text) : Tally := { t with stderr := t.stderr ++ lines }

/-- The end of both loop bodies. -/
def compare (t : Tally) (predictedLabel trueLabel : CInt) : Tally :=
  { t with
    correct := if predictedLabel = trueLabel then t.correct + 1 else t.correct
    total := t.total + 1 }

end Tally

/-- The numeral of an index. -/
def indexText (i : ℕ) : Text := Nat.toDigits 10 i

section Evaluate

variable {F : Type*} (floats : Floats F)

/-- The loop of `evaluate` over the pixels from the index `i` on: the pixels, and the lines
for the standard error output. -/
def readPixels (i : ℕ) : ℕ → List Text → List F × List Text
  | 0, _ => ([], [])
  | n + 1, [] =>
      (List.replicate (n + 1) floats.zero,
        ["Error reading pixel at position ".toList ++ indexText i])
  | n + 1, token :: tokens =>
      let (pixels, errors) := readPixels (i + 1) n tokens
      match floats.fromChars token with
      | some pixelValue => (pixelValue :: pixels, errors)
      | none =>
          (floats.zero :: pixels, ("Error converting pixel at position ".toList ++ indexText i ++
            ": ".toList ++ token) :: errors)

/-- The body of the loop of `evaluate`. -/
def evaluateLine (predict : List F → CInt) (t : Tally) (line : Text) : Tally :=
  match getlines ',' line with
  | [] => t.report ["Error reading class label".toList]
  | token :: tokens =>
      match fromChars token with
      | none => t.report ["Error converting class label: ".toList ++ token]
      | some trueLabel =>
          let (image, errors) := readPixels floats 0 784 tokens
          (t.report errors).compare (predict image) trueLabel

/-- `evaluate`: the variables at the end, and the value returned.  A file that cannot be
opened is `none`. -/
def evaluate (predict : List F → CInt) (path : Text) (testFile : Option Text) : Tally × F :=
  match testFile with
  | none => (Tally.start.report ["Could not open file: ".toList ++ path], floats.zero)
  | some test =>
      let t := (getlines '\n' test).foldl (evaluateLine floats predict) .start
      (t, floats.ratio t.correct t.total)

/-- `pred_iss >> predicted_label` -/
def readPrediction (predLine : Text) : CInt :=
  ((IStream.ofText predLine).int int_range (Bounded.clamp int_range 0)).1

/-- The body of the loop of `evaluate_with_predictions`. -/
def predictionsLine (t : Tally) (lines : Text × Text) : Tally :=
  match getlines ',' lines.1 with
  | [] => t.report ["Error reading class label from test file".toList]
  | token :: _ =>
      match fromChars token with
      | none => t.report ["Error converting class label from test file: ".toList ++ token]
      | some trueLabel => t.compare (readPrediction lines.2) trueLabel

/-- `evaluate_with_predictions` -/
def evaluateWithPredictions (path predictionsPath : Text) (testFile predFile : Option Text) :
    Tally × F :=
  match testFile, predFile with
  | none, _ => (Tally.start.report ["Could not open test file: ".toList ++ path], floats.zero)
  | some _, none =>
      (Tally.start.report ["Could not open predictions file: ".toList ++ predictionsPath],
        floats.zero)
  | some test, some pred =>
      let t := ((getlines '\n' test).zip (getlines '\n' pred)).foldl predictionsLine .start
      (t, floats.ratio t.correct t.total)

end Evaluate

/-! ### What a line is about

A line of the test file has a label, which both functions read, and an image, which only
`evaluate` looks at. -/

/-- The label of a line, where it can be read. -/
def label (line : Text) : Option CInt := (getlines ',' line).head?.bind fromChars

/-- The image that `evaluate` makes of a line. -/
def image {F : Type*} (floats : Floats F) (line : Text) : List F :=
  (readPixels floats 0 784 (getlines ',' line).tail).1

/-- Every pixel that is asked for is there: what cannot be read is the pixel zero. -/
theorem length_readPixels {F : Type*} (floats : Floats F) (i n : ℕ) (tokens : List Text) :
    (readPixels floats i n tokens).1.length = n := by
  induction n generalizing i tokens with
  | zero => rfl
  | succ n ih =>
      cases tokens with
      | nil => exact List.length_replicate
      | cons token tokens =>
          rw [readPixels]
          cases floats.fromChars token with
          | none => exact congrArg Nat.succ (ih (i + 1) tokens)
          | some pixelValue => exact congrArg Nat.succ (ih (i + 1) tokens)

theorem length_image {F : Type*} (floats : Floats F) (line : Text) :
    (image floats line).length = 784 :=
  length_readPixels ..

/-- A line that begins with a number, maybe after blanks. -/
def HoldsInt (line : Text) (n : CInt) : Prop :=
  ∃ blanks text tail, line = blanks ++ (text ++ tail) ∧ (∀ c ∈ blanks, isSpace c = true) ∧
    Numeral text n.val ∧ ∀ c ∈ tail.head?, c.isDigit = false

/-- A prediction that stands on its line is read as it is. -/
theorem readPrediction_eq {predLine : Text} {n : CInt} (h : HoldsInt predLine n) :
    readPrediction predLine = n := by
  obtain ⟨blanks, text, tail, rfl, hblanks, htext, htail⟩ := h
  rw [readPrediction, IStream.int_append int_range _ n hblanks htext htail]

/-- A line of the predictions file holds what the model says of the image in a line of the
test file, unless the label of the image cannot be read. -/
def Stored {F : Type*} (floats : Floats F) (predict : List F → CInt) (line predLine : Text) :
    Prop :=
  label line ≠ none → HoldsInt predLine (predict (image floats line))

/-! ### The counts

The two loops go over their lines in step.  They differ in where the prediction comes
from, and in what they report; the counts are the same. -/

/-- Two runs that have counted the same. -/
def SameCounts (t t' : Tally) : Prop := t.correct = t'.correct ∧ t.total = t'.total

theorem SameCounts.refl (t : Tally) : SameCounts t t := ⟨rfl, rfl⟩

section Counts

variable {F : Type*} {floats : Floats F} {predict : List F → CInt}

/-- The same two labels are counted the same way. -/
theorem SameCounts.compare {t t' : Tally} (h : SameCounts t t') (predictedLabel trueLabel : CInt) :
    SameCounts (t.compare predictedLabel trueLabel) (t'.compare predictedLabel trueLabel) := by
  obtain ⟨hcorrect, htotal⟩ := h
  refine ⟨?_, congrArg (· + 1) htotal⟩
  simp only [Tally.compare, hcorrect]

theorem SameCounts.report {t t' : Tally} (h : SameCounts t t') (lines : List Text) :
    SameCounts t (t'.report lines) := h

theorem SameCounts.reports {t t' : Tally} (h : SameCounts t t') (lines lines' : List Text) :
    SameCounts (t.report lines) (t'.report lines') := h

/-- **One line.**  Both loop bodies count it, or both pass it over.  The label decides, which
they read in the same way; a prediction is only needed for a line that is counted. -/
theorem SameCounts.line {t t' : Tally} (h : SameCounts t t') {line predLine : Text}
    (hstored : Stored floats predict line predLine) :
    SameCounts (predictionsLine t (line, predLine)) (evaluateLine floats predict t' line) := by
  cases htokens : getlines ',' line with
  | nil =>
      simp only [predictionsLine, evaluateLine, htokens]
      exact h.reports _ _
  | cons token tokens =>
      cases hlabel : fromChars token with
      | none =>
          simp only [predictionsLine, evaluateLine, htokens, hlabel]
          exact h.reports _ _
      | some trueLabel =>
          have hread : label line ≠ none := by
            rw [label, htokens, List.head?_cons, Option.bind_some, hlabel]
            exact Option.some_ne_none trueLabel
          have himage : (readPixels floats 0 784 tokens).1 = image floats line := by
            rw [image, htokens, List.tail_cons]
          simp only [predictionsLine, evaluateLine, htokens, hlabel, himage,
            readPrediction_eq (hstored hread)]
          exact SameCounts.compare (h.report _) _ trueLabel

/-- **The loops**, one over both files and one over the first. -/
theorem SameCounts.lines {lines predLines : List Text}
    (hstored : List.Forall₂ (Stored floats predict) lines predLines) {t t' : Tally}
    (h : SameCounts t t') :
    SameCounts ((lines.zip predLines).foldl predictionsLine t)
      (lines.foldl (evaluateLine floats predict) t') := by
  induction hstored generalizing t t' with
  | nil => exact h
  | cons hline _ ih => exact ih (h.line hline)

end Counts

/-- The lines of a file; one that cannot be opened has none. -/
def fileLines (file : Option Text) : List Text := file.elim [] (getlines '\n')

/-- **The accuracy from stored predictions** is the accuracy from the model. -/
theorem sameCounts_of_stored {F : Type*} (floats : Floats F) (predict : List F → CInt)
    {testFile : Option Text} {pred : Text}
    (hstored : List.Forall₂ (Stored floats predict) (fileLines testFile) (getlines '\n' pred))
    (path testPath predictionsPath : Text) :
    SameCounts (evaluateWithPredictions floats testPath predictionsPath testFile (some pred)).1
        (evaluate floats predict path testFile).1 ∧
      (evaluateWithPredictions floats testPath predictionsPath testFile (some pred)).2 =
        (evaluate floats predict path testFile).2 := by
  cases testFile with
  | none => exact ⟨(SameCounts.refl .start).reports _ _, rfl⟩
  | some test =>
      have hcounts := SameCounts.lines hstored (SameCounts.refl .start)
      exact ⟨hcounts, congrArg₂ floats.ratio hcounts.1 hcounts.2⟩

/-- Numbers without sign, point and exponent, in place of `float`. -/
def wholeNumbers : Floats ℚ where
  zero := 0
  fromChars text :=
    if (text.takeWhile Char.isDigit).isEmpty then none
    else some (Nat.ofDigitChars 10 (text.takeWhile Char.isDigit) 0)
  ratio correct total := correct / total

/-- Three lines, the second one without a label. -/
def threeLines : Text := ['5', ',', '1', '\n', ',', '2', '\n', '7', ',', '3']

/-- A prediction for each of them. -/
def threePredictions : Text := ['7', '\n', '\n', ' ', '7']

theorem sameCounts_of_stored_threeLines :
    SameCounts
      (evaluateWithPredictions wholeNumbers [] [] (some threeLines) (some threePredictions)).1
      (evaluate wholeNumbers (fun _ => ⟨7, by decide, by decide⟩) [] (some threeLines)).1 := by
  have hseven (blanks : Text) {line : Text} (hline : line = blanks ++ ['7'])
      (hblanks : ∀ c ∈ blanks, isSpace c = true) :
      HoldsInt line ⟨7, by decide, by decide⟩ := by
    refine ⟨blanks, ['7'], [], hline, hblanks, ?_, fun c hc => by cases hc⟩
    exact Numeral.plain (List.cons_ne_nil _ _) (by simp)
  refine (sameCounts_of_stored wholeNumbers _ ?_ [] [] []).1
  refine .cons (fun _ => hseven [] rfl (by simp)) (.cons ?_ (.cons ?_ .nil))
  · intro hlabel
    exact absurd rfl hlabel
  · exact fun _ => hseven [' '] rfl (by simp [isSpace])

end Mlp
