import SealedMap.Hashing.Feed

/-!
# Reading bytes

A reader takes what it needs from the front of a list of bytes and gives back
the rest, or says why it cannot.
-/

namespace SealedMap
namespace Binary

inductive Fault where
  | truncated
  | badText
  | invalid
deriving DecidableEq

namespace Fault

def message : Fault -> String
  | truncated => "unexpected end"
  | badText => "utf8"
  | invalid => "invalid"

end Fault

abbrev Reader (α : Type) := List UInt8 -> Except Fault (α × List UInt8)

def readByte : Reader UInt8
  | [] => .error .truncated
  | byte :: rest => .ok (byte, rest)

def readBytes : Nat -> Reader (List UInt8)
  | 0, bytes => .ok ([], bytes)
  | _ + 1, [] => .error .truncated
  | count + 1, byte :: rest =>
      match readBytes count rest with
      | .ok (more, rest) => .ok (byte :: more, rest)
      | .error fault => .error fault

/-- The number that bytes stand for, least significant first. -/
def numberOfBytes : List UInt8 -> Nat
  | [] => 0
  | byte :: rest => byte.toNat + 256 * numberOfBytes rest

def readLittleEndian (count : Nat) : Reader Nat := fun bytes =>
  match readBytes count bytes with
  | .ok (taken, rest) => .ok (numberOfBytes taken, rest)
  | .error fault => .error fault

end Binary
end SealedMap
