import Std.Data.HashMap
import SealedMap.View.Multimap

/-!
# The inverse of a map

The inverse groups the positions of a map's entries by value.  A position joins
the group whose first value equals its own, and opens a group if there is none;
a value that is not equal to itself therefore always opens one and is never
found.  Groups are looked up by the hash of their first value.
-/

namespace SealedMap

structure Inverse (K V : Type) [BEq K] [Hashable K] where
  map : Map K V
  /-- The positions of each group, in increasing order. -/
  groups : Array (Array Nat)
  /-- The groups whose first value has a given hash. -/
  buckets : Std.HashMap UInt64 (List Nat)

namespace Inverse

variable {K V : Type} [BEq K] [Hashable K]

def representative? (inverse : Inverse K V) (group : Nat) : Option V :=
  match inverse.groups[group]? with
  | some positions => (positions[0]?.bind fun pos => inverse.map.entries[pos]?).map Entry.value
  | none => none

variable [BEq V] [Hashable V]

def group? (inverse : Inverse K V) (value : V) : Option Nat :=
  (inverse.buckets.getD (hash value) []).find? fun group =>
    match inverse.representative? group with
    | some held => held == value
    | none => false

def insert (inverse : Inverse K V) (pos : Nat) (value : V) : Inverse K V :=
  match inverse.group? value with
  | some group =>
      { inverse with groups := inverse.groups.modify group (·.push pos) }
  | none =>
      let group := inverse.groups.size
      let known := inverse.buckets.getD (hash value) []
      { inverse with
        groups := inverse.groups.push #[pos]
        buckets := inverse.buckets.insert (hash value) (group :: known) }

def insertFrom : List (Entry K V) -> Nat -> Inverse K V -> Inverse K V
  | [], _, inverse => inverse
  | entry :: rest, pos, inverse =>
      insertFrom rest (pos + 1) (inverse.insert pos entry.value)

def ofMap (map : Map K V) : Inverse K V :=
  insertFrom map.entries.toList 0 ⟨map, #[], ∅⟩

/-! ## Questions -/

def keysAt (inverse : Inverse K V) (positions : Array Nat) : List K :=
  positions.toList.filterMap fun pos => (inverse.map.entries[pos]?).map Entry.key

def groupCount (inverse : Inverse K V) : Nat := inverse.groups.size

def pairCount (inverse : Inverse K V) : Nat := inverse.map.size

def get (inverse : Inverse K V) (value : V) : List K :=
  match inverse.group? value with
  | some group => inverse.keysAt (inverse.groups[group]?.getD #[])
  | none => []

def containsValue (inverse : Inverse K V) (value : V) : Bool :=
  (inverse.group? value).isSome

def toList (inverse : Inverse K V) : List (V × List K) :=
  inverse.groups.toList.filterMap fun positions =>
    (positions[0]?.bind fun pos => inverse.map.entries[pos]?).map fun entry =>
      (entry.value, inverse.keysAt positions)

end Inverse

namespace Multimap

def inverse {K V : Type} [BEq K] [Hashable K] [BEq V] [Hashable V]
    (view : Multimap K V) : Inverse K V :=
  Inverse.ofMap view.map

end Multimap
end SealedMap
