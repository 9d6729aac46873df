import SealedMap.Index.Chained
import SealedMap.Index.Keyed

/-!
# Sealed maps

A sealed map holds its entries in iteration order and finds the position of a
key by whatever layout its construction left: nothing for no entry, a
comparison for one entry, a chained index, or a keyed index.  Every question is
answered from the entries and that position.
-/

namespace SealedMap

open Index (Chained Keyed)

inductive Layout (K V : Type) [BEq K] [Hashable K] where
  | empty
  | single (entry : Entry K V)
  | chained (entries : Array (Entry K V)) (index : Chained K)
  | keyed (entries : Array (Entry K V)) (index : Keyed K)

namespace Layout

variable {K V : Type} [BEq K] [Hashable K]

def entries : Layout K V -> Array (Entry K V)
  | empty => #[]
  | single entry => #[entry]
  | chained entries _ => entries
  | keyed entries _ => entries

def position? (layout : Layout K V) (key : K) : Option Nat :=
  match layout with
  | empty => none
  | single entry => if entry.key == key then some 0 else none
  | chained entries index => index.position? entries key
  | keyed _ index => index.position? key

def small (entries : Array (Entry K V)) : Layout K V :=
  match entries.back? with
  | some entry => single entry
  | none => empty

def ofChained (entries : Array (Entry K V)) (index : Chained K) : Layout K V :=
  if entries.size < 2 then small entries else chained entries index

def ofKeyed (entries : Array (Entry K V)) (index : Keyed K) : Layout K V :=
  if entries.size < 2 then small entries else keyed entries index

end Layout

structure Map (K V : Type) [BEq K] [Hashable K] where
  layout : Layout K V
  hash : K -> UInt64

namespace Map

variable {K V : Type} [BEq K] [Hashable K]

def empty (hash : K -> UInt64) : Map K V where
  layout := .empty
  hash := hash

def unit (hash : K -> UInt64) (entry : Entry K V) : Map K V where
  layout := .single entry
  hash := hash

def entries (map : Map K V) : Array (Entry K V) :=
  map.layout.entries

def toList (map : Map K V) : List (K × V) :=
  map.entries.toList.map Entry.toPair

def keys (map : Map K V) : List K :=
  map.entries.toList.map Entry.key

def values (map : Map K V) : List V :=
  map.entries.toList.map Entry.value

def size (map : Map K V) : Nat :=
  map.entries.size

def isEmpty (map : Map K V) : Bool :=
  map.size == 0

def position? (map : Map K V) (key : K) : Option Nat :=
  map.layout.position? key

def entry? (map : Map K V) (key : K) : Option (Entry K V) :=
  (map.position? key).bind fun pos => map.entries[pos]?

def get? (map : Map K V) (key : K) : Option V :=
  (map.entry? key).map Entry.value

def contains (map : Map K V) (key : K) : Bool :=
  (map.position? key).isSome

def fetch (map : Map K V) (key : K) : Except Refusal V :=
  match map.get? key with
  | some value => .ok value
  | none => .error .absentKey

def containsValue [BEq V] (map : Map K V) (value : V) : Bool :=
  map.entries.any fun entry => entry.value == value

def containsEntry [BEq V] (map : Map K V) (key : K) (value : V) : Bool :=
  match map.get? key with
  | some held => held == value
  | none => false

/--
Two maps are equal when they have equally many entries and every entry of the
left one is found in the right one, whatever their orders and hash functions.
-/
def beq [BEq V] (left right : Map K V) : Bool :=
  left.size == right.size &&
    left.entries.all fun entry => right.containsEntry entry.key entry.value

instance [BEq V] : BEq (Map K V) where
  beq := beq

theorem beq_def [BEq V] (left right : Map K V) : (left == right) = left.beq right := rfl

end Map
end SealedMap
