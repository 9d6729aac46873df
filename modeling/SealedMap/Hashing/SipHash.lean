/-!
# SipHash-1-3

The keyed hash function with one compression round per word and three closing
rounds, here under the zero key.  Input bytes are read as little endian words;
the last word carries the bytes left over and the input's length.
-/

namespace SealedMap
namespace Hashing

structure SipState where
  v0 : UInt64
  v1 : UInt64
  v2 : UInt64
  v3 : UInt64

namespace SipState

def rotateLeft (word : UInt64) (count : UInt64) : UInt64 :=
  (word <<< count) ||| (word >>> (64 - count))

def start : SipState where
  v0 := 0x736f6d6570736575
  v1 := 0x646f72616e646f6d
  v2 := 0x6c7967656e657261
  v3 := 0x7465646279746573

def round (s : SipState) : SipState :=
  let v0 := s.v0 + s.v1
  let v1 := rotateLeft s.v1 13 ^^^ v0
  let v0 := rotateLeft v0 32
  let v2 := s.v2 + s.v3
  let v3 := rotateLeft s.v3 16 ^^^ v2
  let v0 := v0 + v3
  let v3 := rotateLeft v3 21 ^^^ v0
  let v2 := v2 + v1
  let v1 := rotateLeft v1 17 ^^^ v2
  let v2 := rotateLeft v2 32
  ⟨v0, v1, v2, v3⟩

def absorb (s : SipState) (word : UInt64) : SipState :=
  let mixed := round { s with v3 := s.v3 ^^^ word }
  { mixed with v0 := mixed.v0 ^^^ word }

def finish (s : SipState) : UInt64 :=
  let last := round (round (round { s with v2 := s.v2 ^^^ 0xff }))
  last.v0 ^^^ last.v1 ^^^ last.v2 ^^^ last.v3

end SipState

/-- Reads bytes as one little endian word; bytes past the eighth fall out. -/
def wordOfBytes : List UInt8 -> UInt64
  | [] => 0
  | byte :: rest => byte.toUInt64 ||| (wordOfBytes rest <<< 8)

def sipAbsorb (length : UInt64) : List UInt8 -> SipState -> SipState
  | a :: b :: c :: d :: e :: f :: g :: h :: rest, s =>
      sipAbsorb length rest (s.absorb (wordOfBytes [a, b, c, d, e, f, g, h]))
  | rest, s => s.absorb (wordOfBytes rest ||| (length <<< 56))

def sipHash (bytes : List UInt8) : UInt64 :=
  (sipAbsorb bytes.length.toUInt64 bytes SipState.start).finish

end Hashing
end SealedMap
