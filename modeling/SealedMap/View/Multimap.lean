import SealedMap.Map

/-!
# A map as a multimap

Every key of a map has one value, so the multimap view gives a list of one
value for a key that is present and no value for any other.
-/

namespace SealedMap

structure Multimap (K V : Type) [BEq K] [Hashable K] where
  map : Map K V

namespace Map

variable {K V : Type} [BEq K] [Hashable K]

def asMultimap (map : Map K V) : Multimap K V := ⟨map⟩

end Map

namespace Multimap

variable {K V : Type} [BEq K] [Hashable K]

def keyCount (view : Multimap K V) : Nat := view.map.size

def pairCount (view : Multimap K V) : Nat := view.map.size

def keys (view : Multimap K V) : List K := view.map.keys

def get (view : Multimap K V) (key : K) : List V :=
  (view.map.get? key).toList

def containsKey (view : Multimap K V) (key : K) : Bool := view.map.contains key

def containsPair [BEq V] (view : Multimap K V) (key : K) (value : V) : Bool :=
  (view.get key).any (· == value)

def toList (view : Multimap K V) : List (K × List V) :=
  view.map.entries.toList.map fun entry => (entry.key, [entry.value])

end Multimap
end SealedMap
