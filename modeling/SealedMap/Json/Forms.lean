import SealedMap.Json.NumberText
import SealedMap.Json.StringText
import SealedMap.Kind.Key
import SealedMap.Kind.Value

/-!
# Keys and values in JSON

A key is written as a string, an integer key as its quoted decimal digits.  A
value is a number, a string or null.  A reader that meets anything else reads
it far enough to tell a text that breaks the grammar from one of the wrong type.
-/

namespace SealedMap
namespace Json

/-! ## Anything -/

def readWord : List Char -> List Char -> Except Fault (List Char)
  | [], text => .ok text
  | _ :: _, [] => .error .truncated
  | expected :: word, c :: text =>
      if c == expected then readWord word text else .error .malformed

/-- Tells what a text starts with, reading no further than it takes. -/
def readFound (text : List Char) : Except Fault Found :=
  match text with
  | [] => .error .truncated
  | 'n' :: rest => (readWord ['u', 'l', 'l'] rest).map fun _ => .null
  | 't' :: rest => (readWord ['r', 'u', 'e'] rest).map fun _ => .boolean true
  | 'f' :: rest => (readWord ['a', 'l', 's', 'e'] rest).map fun _ => .boolean false
  | '"' :: rest => (readStringBody rest).map fun (s, _) => .text s
  | '[' :: _ => .ok .sequence
  | '\x7b' :: _ => .ok .object
  | c :: _ =>
      if c == '-' || isDigit c then
        (readNumber text).map fun
          | (.integer n, _) => .integer n
          | (.float x, _) => .float x
      else .error .malformed

def mismatch (text : List Char) : Fault :=
  match readFound text with
  | .error fault => fault
  | .ok _ => .unfit

/-! ## Integers -/

def readDigitsInt : Reader Int64 := fun text =>
  match readNumber text with
  | .error fault => .error fault
  | .ok (number, rest) =>
      match number.int64? with
      | some n => .ok (n, rest)
      | none => .error .unfit

def startsNumber : List Char -> Bool
  | c :: _ => c == '-' || isDigit c
  | [] => false

def readInt : Reader Int64 := fun text =>
  let text := skipBlank text
  if startsNumber text then readDigitsInt text else .error (mismatch text)

def writeInt (n : Int64) : List Char :=
  (toString n.toInt).toList

def readIntName : Reader Int64 := fun text =>
  if startsNumber text then
    match readDigitsInt text with
    | .error fault => .error fault
    | .ok (n, '"' :: rest) => .ok (n, rest)
    | .ok (_, _) => .error .malformed
  else .error .malformed

def writeIntName (n : Int64) : List Char :=
  '"' :: (writeInt n ++ ['"'])

/-! ## Texts and missing values -/

def readString : Reader String := fun text =>
  match skipBlank text with
  | '"' :: rest => readStringBody rest
  | other => .error (mismatch other)

def readNullable : Reader Nullable := fun text =>
  match skipBlank text with
  | 'n' :: rest => (readWord ['u', 'l', 'l'] rest).map fun rest => (.nil, rest)
  | other => (readInt other).map fun (n, rest) => (.some n, rest)

def writeNullable (value : Nullable) : List Char :=
  match value.number? with
  | some n => writeInt n
  | none => ['n', 'u', 'l', 'l']

/-! ## Classes -/

class Name (K : Type) where
  writeName : K -> List Char
  /-- Reads a name whose opening quote was taken, with its closing one. -/
  readName : Reader K
  writeAsValue : K -> List Char

class Value (V : Type) where
  writeValue : V -> List Char
  readValue : Reader V

namespace Name

instance : Name Int64 where
  writeName := writeIntName
  readName := readIntName
  writeAsValue := writeInt

instance : Name String where
  writeName := writeString
  readName := readStringBody
  writeAsValue := writeString

instance : Name Caseless where
  writeName key := writeString key.text
  readName text := (readStringBody text).map fun (s, rest) => (⟨s⟩, rest)
  writeAsValue key := writeString key.text

instance : Name Unhashed where
  writeName key := writeIntName key.number
  readName text := (readIntName text).map fun (n, rest) => (⟨n⟩, rest)
  writeAsValue key := writeInt key.number

end Name

namespace Value

instance : Value Int64 where
  writeValue := writeInt
  readValue := readInt

instance : Value String where
  writeValue := writeString
  readValue := readString

instance : Value Nullable where
  writeValue := writeNullable
  readValue := readNullable

end Value
end Json
end SealedMap
