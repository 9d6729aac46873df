import SealedMap.Map

/-!
# Key sets, value lists and entry sets

Three views of a map that show one part of its entries, by place and by
content.  The two sets compare without regard to order.
-/

namespace SealedMap

variable {K V : Type} [BEq K] [Hashable K]

structure KeySet (K V : Type) [BEq K] [Hashable K] where
  map : Map K V

structure ValueList (K V : Type) [BEq K] [Hashable K] where
  map : Map K V

structure EntrySet (K V : Type) [BEq K] [Hashable K] where
  map : Map K V

namespace Map

def keySet (map : Map K V) : KeySet K V := ⟨map⟩

def valueList (map : Map K V) : ValueList K V := ⟨map⟩

def entrySet (map : Map K V) : EntrySet K V := ⟨map⟩

end Map

namespace KeySet

def size (view : KeySet K V) : Nat := view.map.size

def toList (view : KeySet K V) : List K := view.map.keys

def at? (view : KeySet K V) (place : Nat) : Option K :=
  (view.map.entries[place]?).map Entry.key

def contains (view : KeySet K V) (key : K) : Bool := view.map.contains key

def beq (left right : KeySet K V) : Bool :=
  left.size == right.size &&
    left.map.entries.all fun entry => right.contains entry.key

instance : BEq (KeySet K V) where
  beq := beq

end KeySet

namespace ValueList

def size (view : ValueList K V) : Nat := view.map.size

def toList (view : ValueList K V) : List V := view.map.values

def at? (view : ValueList K V) (place : Nat) : Option V :=
  (view.map.entries[place]?).map Entry.value

def contains [BEq V] (view : ValueList K V) (value : V) : Bool :=
  view.map.containsValue value

end ValueList

namespace EntrySet

def size (view : EntrySet K V) : Nat := view.map.size

def toList (view : EntrySet K V) : List (Entry K V) := view.map.entries.toList

def at? (view : EntrySet K V) (place : Nat) : Option (Entry K V) :=
  view.map.entries[place]?

def contains [BEq V] (view : EntrySet K V) (entry : Entry K V) : Bool :=
  view.map.containsEntry entry.key entry.value

def beq [BEq V] (left right : EntrySet K V) : Bool :=
  left.size == right.size && left.map.entries.all right.contains

instance [BEq V] : BEq (EntrySet K V) where
  beq := beq

end EntrySet
end SealedMap
