import SealedMap.Entry

/-!
# Placing entries in an index

An index holds positions into an array of entries, one for each distinct key.
Entries are placed in order.  An entry whose key is already indexed is a repeat
of the entry at the indexed position; an index may also refuse a new key for
want of room, and then placing stops.
-/

namespace SealedMap
namespace Index

inductive Probe where
  | repeated (first : Nat)
  | vacant
  | full
deriving DecidableEq

class Placing (I : Type) (K : outParam Type) where
  probe : {V : Type} -> I -> Array (Entry K V) -> K -> Probe
  insert : I -> Nat -> K -> I
  renumber : I -> Array (Option Nat) -> I

/-- Indexes the key of the entry at `pos` if it is found vacant, and else leaves the index. -/
def claim [Placing I K] (index : I) (entries : Array (Entry K V)) (pos : Nat)
    (key : K) : Probe × I :=
  match Placing.probe index entries key with
  | .vacant => (.vacant, Placing.insert index pos key)
  | answer => (answer, index)

/-- An entry at `later` whose key equals the one at `first`. -/
structure Repeat where
  first : Nat
  later : Nat
deriving DecidableEq

inductive Placed (I : Type) where
  | done (index : I) (repeats : List Repeat)
  | rejected (first second : Nat)
  | overflow

/--
Places `rest`, the entries from position `pos` on, after `repeats` were met in
reverse order.  With `reject` the first repeat ends it.
-/
def placeFrom [Placing I K] (reject : Bool) (entries : Array (Entry K V)) :
    List (Entry K V) -> Nat -> I -> List Repeat -> Placed I
  | [], _, index, repeats => .done index repeats.reverse
  | entry :: rest, pos, index, repeats =>
      match claim index entries pos entry.key with
      | (.full, _) => .overflow
      | (.vacant, next) => placeFrom reject entries rest (pos + 1) next repeats
      | (.repeated first, next) =>
          if reject then .rejected first pos
          else placeFrom reject entries rest (pos + 1) next (⟨first, pos⟩ :: repeats)

def place [Placing I K] (reject : Bool) (entries : Array (Entry K V))
    (index : I) : Placed I :=
  placeFrom reject entries entries.toList 0 index []

def holdsAt [BEq K] (entries : Array (Entry K V)) (key : K) (pos : Nat) : Bool :=
  match entries[pos]? with
  | some entry => entry.key == key
  | none => false

end Index
end SealedMap
