import SealedMap.Hashing.Feed
import SealedMap.Hashing.SipHash

/-!
# Named hashers

The hash functions a map can be built with.  A map works under any of them:
`zero` and `folded` exist to make keys collide.
-/

namespace SealedMap
namespace Hashing

def fnv1a (bytes : List UInt8) : UInt64 :=
  bytes.foldl (fun state byte => (state ^^^ byte.toUInt64) * 0x100000001b3)
    0xcbf29ce484222325

def foldBytes (bytes : List UInt8) : UInt64 :=
  (bytes.foldl
    (fun (state, shift) byte =>
      (state ^^^ (byte.toUInt64 <<< shift), (shift + 8) % 64))
    ((0 : UInt64), (0 : UInt64))).1

def lowBits (bits : Nat) (word : UInt64) : UInt64 :=
  if bits < 64 then word &&& ((1 <<< bits.toUInt64) - 1) else word

inductive Hasher where
  | sip
  | fnv
  | zero
  | folded (bits : Nat)
  /-- A hasher whose seed nothing depends on. -/
  | seeded
deriving DecidableEq

namespace Hasher

def hashBytes : Hasher -> List UInt8 -> UInt64
  | sip, bytes => sipHash bytes
  | fnv, bytes => fnv1a bytes
  | zero, _ => 0
  | folded bits, bytes => lowBits bits (foldBytes bytes)
  | seeded, bytes => sipHash bytes

def hashOf [Feed α] (hasher : Hasher) (a : α) : UInt64 :=
  hasher.hashBytes (feed a)

def name : Hasher -> String
  | sip => "sip"
  | fnv => "fnv"
  | zero => "zero"
  | folded bits => "lol" ++ toString bits
  | seeded => "random"

def ofName? (text : String) : Option Hasher :=
  match text with
  | "sip" => some sip
  | "fnv" => some fnv
  | "zero" => some zero
  | "random" => some seeded
  | _ =>
      if text.startsWith "lol" then ((text.drop 3).toNat?).map folded else none

end Hasher

/-- The hash of a value that depends on nothing else: SipHash under the zero key. -/
def stableHash [Feed α] (a : α) : UInt64 :=
  sipHash (feed a)

end Hashing
end SealedMap
