import SealedMap.Binary.Reader
import SealedMap.Kind.Key
import SealedMap.Kind.Value

/-!
# Binary layouts

How numbers, texts and missing values are laid out as bytes, under two
conventions for numbers: eight bytes each, or as few as fit after a mark.
-/

namespace SealedMap
namespace Binary

inductive Convention where
  | fixed
  | variable
deriving DecidableEq

open Feed (littleEndian)

/-! ## Numbers -/

/-- Small numbers stand for themselves; larger ones follow a mark of their width. -/
def writeVariable (n : Nat) : List UInt8 :=
  if n < 251 then [n.toUInt8]
  else if n < 0x10000 then 251 :: littleEndian 2 n
  else if n < 0x100000000 then 252 :: littleEndian 4 n
  else 253 :: littleEndian 8 n

/-- Accepts a number in a wider form than it needs. -/
def readVariable : Reader Nat
  | [] => .error .truncated
  | mark :: rest =>
      if mark < 251 then .ok (mark.toNat, rest)
      else if mark = 251 then readLittleEndian 2 rest
      else if mark = 252 then readLittleEndian 4 rest
      else if mark = 253 then readLittleEndian 8 rest
      else .error .invalid

def writeNat : Convention -> Nat -> List UInt8
  | .fixed, n => littleEndian 8 n
  | .variable, n => writeVariable n

def readNat : Convention -> Reader Nat
  | .fixed => readLittleEndian 8
  | .variable => readVariable

/-- Interleaves the integers so that small magnitudes become small numbers. -/
def zigzag (n : Int64) : Nat :=
  if 0 ≤ n.toInt then 2 * n.toInt.toNat else 2 * (-n.toInt).toNat - 1

def unzigzag (n : Nat) : Int64 :=
  if n % 2 = 0 then Int64.ofNat (n / 2) else Int64.ofInt (-((n / 2 : Nat) : Int) - 1)

def writeInt : Convention -> Int64 -> List UInt8
  | .fixed, n => littleEndian 8 n.toUInt64.toNat
  | .variable, n => writeVariable (zigzag n)

def readInt : Convention -> Reader Int64
  | .fixed, bytes => (readLittleEndian 8 bytes).map fun (n, rest) => (n.toUInt64.toInt64, rest)
  | .variable, bytes => (readVariable bytes).map fun (n, rest) => (unzigzag n, rest)

/-! ## Texts -/

def writeText (convention : Convention) (text : String) : List UInt8 :=
  let bytes := text.toUTF8.data.toList
  writeNat convention bytes.length ++ bytes

def readText (convention : Convention) : Reader String := fun bytes =>
  match readNat convention bytes with
  | .error fault => .error fault
  | .ok (length, rest) =>
      match readBytes length rest with
      | .error fault => .error fault
      | .ok (taken, rest) =>
          match String.fromUTF8? ⟨taken.toArray⟩ with
          | some text => .ok (text, rest)
          | none => .error .badText

/-! ## Keys and values -/

class Laid (α : Type) where
  encode : Convention -> α -> List UInt8
  decode : Convention -> Reader α

namespace Laid

instance : Laid Int64 where
  encode := writeInt
  decode := readInt

instance : Laid String where
  encode := writeText
  decode := readText

instance : Laid Caseless where
  encode convention key := writeText convention key.text
  decode convention bytes := (readText convention bytes).map fun (text, rest) => (⟨text⟩, rest)

instance : Laid Unhashed where
  encode convention key := writeInt convention key.number
  decode convention bytes := (readInt convention bytes).map fun (n, rest) => (⟨n⟩, rest)

def writeNullable (convention : Convention) (value : Nullable) : List UInt8 :=
  match value.number? with
  | none => [0]
  | some n => 1 :: writeInt convention n

def readNullable (convention : Convention) : Reader Nullable
  | [] => .error .truncated
  | tag :: rest =>
      if tag = 0 then .ok (.nil, rest)
      else if tag = 1 then (readInt convention rest).map fun (n, rest) => (.some n, rest)
      else .error .invalid

instance : Laid Nullable where
  encode := writeNullable
  decode := readNullable

end Laid
end Binary
end SealedMap
