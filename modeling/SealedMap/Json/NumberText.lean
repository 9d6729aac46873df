import SealedMap.Json.Fault

/-!
# JSON numbers

A number without fraction and exponent is an integer as long as it fits into 64
bits, signed or unsigned; any other number is a double.  A double is made from
the digits that fit into a word and a power of ten, and must be finite.
-/

namespace SealedMap
namespace Json

inductive Number where
  | integer (n : Int)
  | float (x : Float)

structure NumberText where
  negative : Bool
  whole : List Char
  fraction : List Char
  exponent : Option (Bool × List Char)

def isDigit (c : Char) : Bool :=
  '0' ≤ c && c ≤ '9'

def digitValue (c : Char) : Nat :=
  c.toNat - 48

def numberOfDigits (digits : List Char) : Nat :=
  digits.foldl (fun n c => 10 * n + digitValue c) 0

/-! ## Reading the parts -/

def readDigits (text : List Char) : Except Fault (List Char × List Char) :=
  match text with
  | [] => .error .truncated
  | c :: _ =>
      if isDigit c then .ok (text.takeWhile isDigit, text.dropWhile isDigit)
      else .error .malformed

def readWhole (text : List Char) : Except Fault (List Char × List Char) :=
  match text with
  | '0' :: c :: _ =>
      if isDigit c then .error .malformed else .ok (['0'], text.tail)
  | _ => readDigits text

def readFraction (text : List Char) : Except Fault (List Char × List Char) :=
  match text with
  | '.' :: rest => readDigits rest
  | _ => .ok ([], text)

def readSign : List Char -> Bool × List Char
  | '-' :: rest => (true, rest)
  | '+' :: rest => (false, rest)
  | text => (false, text)

def readExponent (text : List Char) :
    Except Fault (Option (Bool × List Char) × List Char) :=
  match text with
  | c :: rest =>
      if c == 'e' || c == 'E' then
        let (negative, rest) := readSign rest
        (readDigits rest).map fun (digits, rest) => (some (negative, digits), rest)
      else .ok (none, text)
  | [] => .ok (none, text)

def readNumberText (text : List Char) : Except Fault (NumberText × List Char) :=
  let (negative, text) :=
    match text with
    | '-' :: rest => (true, rest)
    | _ => (false, text)
  match readWhole text with
  | .error fault => .error fault
  | .ok (whole, text) =>
      match readFraction text with
      | .error fault => .error fault
      | .ok (fraction, text) =>
          match readExponent text with
          | .error fault => .error fault
          | .ok (exponent, text) => .ok (⟨negative, whole, fraction, exponent⟩, text)

/-! ## The value -/

/-- Takes digits into a word while they fit, and gives back the digits left over. -/
def takeIntoWord : Nat -> List Char -> Nat × List Char
  | word, [] => (word, [])
  | word, c :: rest =>
      if 10 * word + digitValue c < 0x10000000000000000 then
        takeIntoWord (10 * word + digitValue c) rest
      else (word, c :: rest)

def clampExponent (n : Int) : Int :=
  max (-0x80000000) (min 0x7fffffff n)

def powerOfTen (n : Nat) : Float :=
  Float.ofScientific 1 false n

/-- Divides by the largest power of ten until the exponent that is left is small. -/
def scaleDown : Nat -> Float -> Nat -> Float
  | 0, x, _ => x
  | fuel + 1, x, exponent =>
      if exponent ≤ 308 then x / powerOfTen exponent
      else if x == 0.0 then x
      else scaleDown fuel (x / powerOfTen 308) (exponent - 308)

def scale (word : Nat) (exponent : Int) : Option Float :=
  let x := word.toUInt64.toFloat
  if exponent < 0 then some (scaleDown 8 x exponent.natAbs)
  else if exponent ≤ 308 then
    let y := x * powerOfTen exponent.toNat
    if y.isInf then none else some y
  else if x == 0.0 then some x
  else none

def NumberText.float? (text : NumberText) : Option Float :=
  let (word, left) := takeIntoWord 0 text.whole
  let (word, leftOfFraction) := takeIntoWord word text.fraction
  let decimals := text.fraction.length - leftOfFraction.length
  let shift : Int := (left.length : Int) - decimals
  let exponent : Int :=
    match text.exponent with
    | none => shift
    | some (negative, digits) =>
        let n : Int := numberOfDigits digits
        if negative then shift - n else shift + n
  (scale word (clampExponent exponent)).map fun x => if text.negative then -x else x

/-- An integer fits into 64 bits; a negative zero is a double. -/
def NumberText.integer? (text : NumberText) : Option Int :=
  if text.fraction.isEmpty && text.exponent.isNone then
    let n := numberOfDigits text.whole
    if text.negative then
      if 0 < n ∧ n ≤ 0x8000000000000000 then some (-(n : Int)) else none
    else if n < 0x10000000000000000 then some n
    else none
  else none

def readNumber : Reader Number := fun text =>
  match readNumberText text with
  | .error fault => .error fault
  | .ok (parts, rest) =>
      match parts.integer? with
      | some n => .ok (.integer n, rest)
      | none =>
          match parts.float? with
          | some x => .ok (.float x, rest)
          | none => .error .malformed

def Number.int64? : Number -> Option Int64
  | .integer n =>
      if -0x8000000000000000 ≤ n ∧ n < 0x8000000000000000 then some (Int64.ofInt n)
      else none
  | .float _ => none

end Json
end SealedMap
