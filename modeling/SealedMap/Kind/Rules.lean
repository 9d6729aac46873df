import SealedMap.Construction
import SealedMap.Kind.Key
import SealedMap.Kind.Value

/-!
# Named orders and combining rules

The orders of values and the combining functions that go by name.  On integers
they are arithmetic modulo two to the sixty-fourth, on texts they join, and a
missing value makes whatever it takes part in missing.
-/

namespace SealedMap

inductive OrderRule where
  | ascending
  | descending
  | magnitude
  | remainder
  | flat
deriving DecidableEq

inductive CombineRule where
  | sum
  | first
  | last
  | join
  | greatest
  | keyed
deriving DecidableEq

namespace OrderRule

def ofName? : String -> Option OrderRule
  | "asc" => some ascending
  | "desc" => some descending
  | "abs" => some magnitude
  | "mod" => some remainder
  | "flat" => some flat
  | _ => none

/-- Compares integers; the remainder is that of Euclidean division by ten. -/
def compareInt : OrderRule -> ValueOrder Int64
  | ascending, a, b => compare a b
  | descending, a, b => compare b a
  | magnitude, a, b => compare a.toInt.natAbs b.toInt.natAbs
  | remainder, a, b => compare (a.toInt % 10) (b.toInt % 10)
  | flat, _, _ => .eq

def leadingByte (text : String) : Nat :=
  match text.toUTF8.data[0]? with
  | some byte => byte.toNat + 1
  | none => 0

def compareText : OrderRule -> ValueOrder String
  | ascending, a, b => compare a b
  | descending, a, b => compare b a
  | magnitude, a, b => compare a.utf8ByteSize b.utf8ByteSize
  | remainder, a, b => compare (leadingByte a) (leadingByte b)
  | flat, _, _ => .eq

def missingFirst (order : ValueOrder Int64) : ValueOrder Nullable
  | ⟨some a⟩, ⟨some b⟩ => order a b
  | ⟨none⟩, ⟨none⟩ => .eq
  | ⟨none⟩, ⟨some _⟩ => .lt
  | ⟨some _⟩, ⟨none⟩ => .gt

/-- Descending swaps the values, so that missing ones come last. -/
def compareNullable : OrderRule -> ValueOrder Nullable
  | descending, a, b => missingFirst (compareInt ascending) b a
  | flat, _, _ => .eq
  | rule, a, b => missingFirst (compareInt rule) a b

end OrderRule

namespace CombineRule

def ofName? : String -> Option CombineRule
  | "sum" => some sum
  | "first" => some first
  | "last" => some last
  | "join" => some join
  | "max" => some greatest
  | "key" => some keyed
  | _ => none

def combineInt (rule : CombineRule) (key : String) (a b : Int64) : Int64 :=
  match rule with
  | sum => a + b
  | first => a
  | last => b
  | join => a * 10 + b
  | greatest => if a < b then b else a
  | keyed => a * 31 + b + Int64.ofNat key.utf8ByteSize

def combineText (rule : CombineRule) (key : String) (a b : String) : String :=
  match rule with
  | sum => a ++ "+" ++ b
  | first => a
  | last => b
  | join => a ++ b
  | greatest => if a < b then b else a
  | keyed => a ++ "<" ++ key ++ ">" ++ b

def combineNullable (rule : CombineRule) (key : String) (a b : Nullable) : Nullable :=
  match a, b with
  | ⟨some a⟩, ⟨some b⟩ => .some (rule.combineInt key a b)
  | _, _ => .nil

end CombineRule

class Ruled (V : Type) where
  order : OrderRule -> ValueOrder V
  combine : CombineRule -> String -> V -> V -> V

namespace Ruled

instance : Ruled Int64 where
  order := OrderRule.compareInt
  combine := CombineRule.combineInt

instance : Ruled String where
  order := OrderRule.compareText
  combine := CombineRule.combineText

instance : Ruled Nullable where
  order := OrderRule.compareNullable
  combine := CombineRule.combineNullable

end Ruled

/-! ## Runs of numbered pairs -/

class Numbered (α : Type) where
  ofNumber : Int64 -> α

namespace Numbered

instance : Numbered Int64 where
  ofNumber n := n

instance : Numbered String where
  ofNumber n := "k" ++ toString n.toInt

instance : Numbered Caseless where
  ofNumber n := ⟨"k" ++ toString n.toInt⟩

instance : Numbered Unhashed where
  ofNumber n := ⟨n⟩

instance : Numbered Nullable where
  ofNumber n := if n.toInt % 3 = 0 then .nil else .some n

end Numbered

structure Run where
  start : Int64
  count : Nat
  step : Int64
  value : Int64
  valueStep : Int64

namespace Run

def pairs [Numbered K] [Numbered V] (run : Run) : List (K × V) :=
  (List.range run.count).map fun i =>
    (Numbered.ofNumber (run.start + Int64.ofNat i * run.step),
      Numbered.ofNumber (run.value + Int64.ofNat i * run.valueStep))

end Run
end SealedMap
