/-!
# What a value feeds to a hasher

A hasher consumes bytes.  A `Feed` instance says which bytes a value
contributes; parts of a larger value are fed one after the other.
-/

namespace SealedMap

class Feed (α : Type) where
  feed : α -> List UInt8

export Feed (feed)

namespace Feed

def littleEndian : Nat -> Nat -> List UInt8
  | 0, _ => []
  | count + 1, n => n.toUInt8 :: littleEndian count (n / 256)

@[simp] theorem length_littleEndian (count n : Nat) :
    (littleEndian count n).length = count := by
  induction count generalizing n with
  | zero => rfl
  | succ count ih => simp [littleEndian, ih]

instance : Feed UInt64 where
  feed n := littleEndian 8 n.toNat

instance : Feed Int64 where
  feed n := feed n.toUInt64

instance : Feed UInt8 where
  feed n := [n]

instance : Feed Int16 where
  feed n := littleEndian 2 n.toUInt16.toNat

/-- A text feeds its bytes and a closing byte that no text contains. -/
instance : Feed String where
  feed text := text.toUTF8.data.toList ++ [0xff]

instance [Feed α] [Feed β] : Feed (α × β) where
  feed pair := feed pair.1 ++ feed pair.2

end Feed

end SealedMap
