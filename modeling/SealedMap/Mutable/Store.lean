import Std.Data.HashMap
import Std.Data.TreeMap
import SealedMap.Entry

/-!
# Stores

A store holds at most one entry for each key.  Four operations are enough to
write it by: looking an entry up, setting one, erasing one and mapping the
values.  Entries hold the key as it was set, which may differ in spelling from
the one it is looked up by.
-/

namespace SealedMap

class Store (S : Type) (K V : outParam Type) where
  empty : S
  entry? : S -> K -> Option (Entry K V)
  /-- Puts an entry in the place of the one with an equal key. -/
  set : S -> Entry K V -> S
  erase : S -> K -> S
  mapValues : (K -> V -> V) -> S -> S
  entries : S -> List (Entry K V)

structure HashStore (K V : Type) [BEq K] [Hashable K] where
  table : Std.HashMap K V

structure SortedStore (K V : Type) [Ord K] where
  table : Std.TreeMap K V

namespace Entry

def ofFound? : Option K -> Option V -> Option (Entry K V)
  | some key, some value => some ⟨key, value⟩
  | _, _ => none

def mapValue (f : K -> V -> V) (entry : Entry K V) : Entry K V :=
  { entry with value := f entry.key entry.value }

end Entry

instance {K V : Type} [BEq K] [Hashable K] : Store (HashStore K V) K V where
  empty := ⟨∅⟩
  entry? store key := Entry.ofFound? (store.table.getKey? key) store.table[key]?
  set store entry := ⟨store.table.insert entry.key entry.value⟩
  erase store key := ⟨store.table.erase key⟩
  mapValues f store := ⟨store.table.map f⟩
  entries store := store.table.toList.map Entry.ofPair

instance {K V : Type} [Ord K] : Store (SortedStore K V) K V where
  empty := ⟨∅⟩
  entry? store key := Entry.ofFound? (store.table.getKey? key) store.table[key]?
  set store entry := ⟨store.table.insert entry.key entry.value⟩
  erase store key := ⟨store.table.erase key⟩
  mapValues f store := ⟨store.table.map f⟩
  entries store := store.table.toList.map Entry.ofPair

end SealedMap
