import Std.Data.HashMap
import SealedMap.Index.Placing

/-!
# The keyed index

A hash map from keys to positions, with its own hashing of keys.  It has room
for every key, so it takes over when a chained index overflows.
-/

namespace SealedMap
namespace Index

structure Keyed (K : Type) [BEq K] [Hashable K] where
  positions : Std.HashMap K Nat

namespace Keyed

variable {K V : Type} [BEq K] [Hashable K]

def empty : Keyed K where
  positions := ∅

def position? (index : Keyed K) (key : K) : Option Nat :=
  index.positions[key]?

def probe (index : Keyed K) (_ : Array (Entry K V)) (key : K) : Probe :=
  match index.position? key with
  | some first => .repeated first
  | none => .vacant

def insert (index : Keyed K) (pos : Nat) (key : K) : Keyed K where
  positions := index.positions.insert key pos

def renumber (index : Keyed K) (numbers : Array (Option Nat)) : Keyed K where
  positions := index.positions.filterMap fun _ old => numbers[old]?.join

instance : Placing (Keyed K) K where
  probe := probe
  insert := insert
  renumber := renumber

theorem probe_ne_full (index : Keyed K) (entries : Array (Entry K V)) (key : K) :
    index.probe entries key ≠ .full := by
  unfold probe
  cases index.position? key <;> simp

theorem probe_eq_repeated_iff (index : Keyed K) (entries : Array (Entry K V))
    (key : K) (first : Nat) :
    index.probe entries key = .repeated first ↔ index.position? key = some first := by
  unfold probe
  cases index.position? key <;> simp

end Keyed
end Index
end SealedMap
