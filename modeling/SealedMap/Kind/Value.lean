import SealedMap.Hashing.Feed
import SealedMap.Text.Shown

/-!
# Kinds of values

Besides integers and texts, a value can be an integer that may be missing.
Nothing equals a missing value, itself included, and it has no place in the
order of values.
-/

namespace SealedMap

structure Nullable where
  number? : Option Int64

namespace Nullable

def nil : Nullable := ⟨none⟩

def some (n : Int64) : Nullable := ⟨Option.some n⟩

instance : BEq Nullable where
  beq
    | ⟨.some a⟩, ⟨.some b⟩ => a == b
    | _, _ => false

instance : Feed Nullable where
  feed value := feed (value.number?.getD 0)

instance : Hashable Nullable where
  hash value := hash (value.number?.getD 0)

instance : Inhabited Nullable where
  default := nil

instance : Shown Nullable where
  plain value := value.number?.elim "nil" Shown.plain
  literal value := value.number?.elim "nil" Shown.literal

@[simp] theorem some_beq_some (a b : Int64) : (some a == some b) = (a == b) := rfl

end Nullable

/-- A comparison that may leave two values unordered. -/
class PartialOrdering (V : Type) where
  compare? : V -> V -> Option Ordering

namespace PartialOrdering

instance : PartialOrdering Int64 where
  compare? a b := some (compare a b)

instance : PartialOrdering String where
  compare? a b := some (compare a b)

instance : PartialOrdering Nullable where
  compare?
    | ⟨some a⟩, ⟨some b⟩ => some (compare a b)
    | _, _ => none

end PartialOrdering
end SealedMap
