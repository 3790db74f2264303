import CppProfessional.Commands.Blocks
import CppProfessional.Containers.Sorting
import Mathlib.Data.Nat.Digits.Defs

/-!
# The address filter

The functions of the address filter: a line is split at its delimiters, the pieces of an
address stay texts, and every comparison and every filter reads the numbers anew with
`std::from_chars`, which stops at the first character that is no digit.

`std::ranges::sort` is a parameter of the program, and `Containers.Sorts` is what it is
relied on for.
-/

namespace IpFilter

/-- A text. -/
abbrev Text := List Char

/-- An address is the vector of its parts. -/
abbrev Address := List Text

/-- The values of `std::errc` that the program uses. -/
inductive Errc
  | invalidArgument
  | resultOutOfRange
  | valueTooLarge
  deriving DecidableEq, Repr

/-- `std::make_error_code(ec).message()`. -/
def Errc.message : Errc → Text
  | .invalidArgument => "Invalid argument".toList
  | .resultOutOfRange => "Numerical result out of range".toList
  | .valueTooLarge => "Value too large for defined data type".toList

/-- The number that a sequence of digits denotes. -/
def decimal (digits : Text) : ℕ := Nat.ofDigitChars 10 digits 0

/-- `from_chars`: the number in front of the text, an `unsigned char`. -/
def fromChars (chars : Text) : Except Errc ℕ :=
  let digits := chars.takeWhile Char.isDigit
  if digits.isEmpty then .error .invalidArgument
  else if decimal digits ≤ 255 then .ok (decimal digits)
  else .error .resultOutOfRange

/-- `str.find_first_of(d, start)` -/
def findFirstOf (str : Text) (d : Char) (start : ℕ) : Option ℕ :=
  ((str.drop start).findIdx? (· = d)).map (start + ·)

/-- `str.substr(pos, n)` -/
def substr (str : Text) (pos n : ℕ) : Text := (str.drop pos).take n

/-- What is found is not in front of the start, and inside the text. -/
theorem findFirstOf_eq_some {str : Text} {d : Char} {start stop : ℕ}
    (h : findFirstOf str d start = some stop) : start ≤ stop ∧ stop < str.length := by
  obtain ⟨i, hi, rfl⟩ := Option.map_eq_some_iff.mp h
  have hlt := (List.findIdx?_eq_some_iff_findIdx_eq.mp hi).1
  rw [List.length_drop] at hlt
  omega

/-- The loop of `split` from the position `start`. -/
def splitFrom (str : Text) (d : Char) (start : ℕ) : List Text :=
  match h : findFirstOf str d start with
  | some stop => substr str start (stop - start) :: splitFrom str d (stop + 1)
  | none => [str.drop start]
termination_by str.length - start
decreasing_by
  have := findFirstOf_eq_some h
  omega

/-- `split` -/
def split (str : Text) (d : Char) : List Text := splitFrom str d 0

/-- `comp` of `reverse_lexicographic_sort`: parts that are no numbers are passed over. -/
def comp : Address → Address → Bool
  | first :: firstIp, second :: secondIp =>
      match fromChars first, fromChars second with
      | .ok a, .ok b => if a ≠ b then decide (b < a) else comp firstIp secondIp
      | _, _ => comp firstIp secondIp
  | _, _ => false

/-- Whether the parts of an address are the given octets, as far as there are both. -/
def hasOctets : List ℤ → Address → Bool
  | octet :: octets, part :: parts =>
      match fromChars part with
      | .ok value => if (value : ℤ) ≠ octet then false else hasOctets octets parts
      | .error _ => false
  | _, _ => true

/-- `filter` -/
def filter (ipPool : List Address) (octets : List ℤ) : Except Errc (List Address) :=
  if octets.any fun val => val < 0 || 255 < val then .error .valueTooLarge
  else .ok (ipPool.filter (hasOctets octets))

/-- `filter_any` -/
def filterAny (ipPool : List Address) (anyOctet : ℕ) : Except Errc (List Address) :=
  .ok (ipPool.filter fun ipAddress => ipAddress.any fun part =>
    match fromChars part with
    | .ok value => value = anyOctet
    | .error _ => false)

/-- The text of an address: its parts with dots between them. -/
def join (ipAddress : Address) : Text := List.intercalate ['.'] ipAddress

/-- `print` -/
def print (ipPool : List Address) : Text :=
  ipPool.flatMap fun ipAddress => join ipAddress ++ ['\n']

/-- `stdin_to_vector` -/
def stdinToVector (input : Text) : Except Errc (List Address) :=
  (Commands.getlines '\n' input).mapM fun line =>
    match split line '\t' with
    | text :: _ => .ok (split text '.')
    | [] => .error .resultOutOfRange

/-- What the program returns and writes. -/
structure Result where
  ret : ℤ
  stdout : Text
  stderr : Text
  deriving DecidableEq, Repr

/-- `main` -/
def main (sort : (Address → Address → Bool) → List Address → List Address) (input : Text) :
    Result :=
  match stdinToVector input with
  | .error e => ⟨-1, [], "Cannot parse stdin: ".toList ++ e.message ++ ['\n']⟩
  | .ok parsed =>
      let pool := sort comp parsed
      match filter pool [1] with
      | .error e => ⟨-2, print pool, "Filter error: ".toList ++ e.message ++ ['\n']⟩
      | .ok ones =>
          match filter pool [46, 70] with
          | .error e =>
              ⟨-3, print pool ++ print ones, "Filter error: ".toList ++ e.message ++ ['\n']⟩
          | .ok pairs =>
              match filterAny pool 46 with
              | .error _ =>
                  ⟨-4, print pool ++ print ones ++ print pairs, "filter_any error\n".toList⟩
              | .ok any => ⟨0, print pool ++ print ones ++ print pairs ++ print any, []⟩

end IpFilter
