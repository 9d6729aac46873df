import SealedMap.Hashing.Hasher
import SealedMap.Map

/-!
# Hashing whole maps

The hash code of a map is the sum of its entries' hashes modulo two to the
sixty-fourth, so it does not depend on their order.  A map feeds its size and
its hash code to a hasher.
-/

namespace SealedMap

instance [Feed K] [Feed V] : Feed (Entry K V) where
  feed entry := feed entry.key ++ feed entry.value

namespace Map

variable {K V : Type} [BEq K] [Hashable K] [Feed K] [Feed V]

def hashCode (map : Map K V) : UInt64 :=
  map.entries.foldl (fun sum entry => sum + Hashing.stableHash entry) 0

instance : Feed (Map K V) where
  feed map := feed map.size.toUInt64 ++ feed map.hashCode

end Map
end SealedMap
