import SealedMap.Binary.Layout
import SealedMap.Builder

/-!
# The binary form of a map

The number of entries and then every key with its value.  Reading takes all
entries in before it looks for repeated keys, and says how many bytes it used.
-/

namespace SealedMap
namespace Binary

inductive Failure where
  | unreadable (fault : Fault)
  | refused (refusal : Refusal)
deriving DecidableEq

namespace Failure

def message : Failure -> String
  | unreadable fault => fault.message
  | refused refusal => refusal.message

end Failure

variable {K V : Type} [Laid K] [Laid V]

def writePairs (convention : Convention) (pairs : List (K × V)) : List UInt8 :=
  writeNat convention pairs.length ++
    pairs.flatMap fun pair =>
      Laid.encode convention pair.1 ++ Laid.encode convention pair.2

def readPair (convention : Convention) : Reader (K × V) := fun bytes =>
  match (Laid.decode convention : Reader K) bytes with
  | .error fault => .error fault
  | .ok (key, rest) =>
      match (Laid.decode convention : Reader V) rest with
      | .error fault => .error fault
      | .ok (value, rest) => .ok ((key, value), rest)

/-- Reads so many pairs after those already read, newest first. -/
def readPairsFrom (convention : Convention) :
    Nat -> List (K × V) -> Reader (List (K × V))
  | 0, seen, bytes => .ok (seen.reverse, bytes)
  | count + 1, seen, bytes =>
      match readPair convention bytes with
      | .error fault => .error fault
      | .ok (pair, rest) => readPairsFrom convention count (pair :: seen) rest

def readPairs (convention : Convention) : Reader (List (K × V)) := fun bytes =>
  match readNat convention bytes with
  | .error fault => .error fault
  | .ok (count, rest) => readPairsFrom convention count [] rest

end Binary

namespace Map

variable {K V : Type} [BEq K] [Hashable K] [Binary.Laid K] [Binary.Laid V]

def toBytes (map : Map K V) (convention : Binary.Convention) : List UInt8 :=
  Binary.writePairs convention map.toList

structure BytesRead (K V : Type) [BEq K] [Hashable K] where
  events : List Event
  outcome : Except Binary.Failure (Map K V × Nat)

def ofBytes (hash : K -> UInt64) (convention : Binary.Convention)
    (bytes : List UInt8) : BytesRead K V :=
  match (Binary.readPairs convention : Binary.Reader (List (K × V))) bytes with
  | .error fault => ⟨[], .error (.unreadable fault)⟩
  | .ok (pairs, rest) =>
      let construction := ofDistinct hash pairs
      match construction.outcome with
      | .error refusal => ⟨construction.events, .error (.refused refusal)⟩
      | .ok map => ⟨construction.events, .ok (map, bytes.length - rest.length)⟩

end Map
end SealedMap
