import SealedMap.Kind.Rules
import SealedMap.Mutable.Mutation

/-!
# Writes with named functions

The writes whose functions go by name, and the reports of running them on a
hash store, on a sorted store and on a sealed map.
-/

namespace SealedMap

inductive CallbackRule where
  | nothing
  | keep
  | combine (rule : CombineRule)
deriving DecidableEq

namespace CallbackRule

def ofName? : String -> Option CallbackRule
  | "none" => some nothing
  | "keep" => some keep
  | name => (CombineRule.ofName? name).map combine

variable {K V : Type} [Shown K] [Ruled V]

def apply (rule : CallbackRule) (key : String) (old new : V) : Option V :=
  match rule with
  | nothing => none
  | keep => some old
  | combine rule => some (Ruled.combine rule key old new)

def mergeWrite (rule : CallbackRule) (key : K) (value : V) : Mutation K V :=
  .merge key value fun old new => rule.apply "" old new

def computeWrite (rule : CallbackRule) (key : K) (value : V) : Mutation K V :=
  .compute key fun key old =>
    match old with
    | some old => rule.apply (Shown.plain key) old value
    | none =>
        match rule with
        | combine _ => some value
        | _ => none

def computeIfPresentWrite (rule : CallbackRule) (key : K) (value : V) : Mutation K V :=
  .computeIfPresent key fun key old => rule.apply (Shown.plain key) old value

def replaceAllWrite (rule : CallbackRule) (value : V) : Mutation K V :=
  .replaceAll fun key old => (rule.apply (Shown.plain key) old value).getD old

end CallbackRule

namespace Mutation

structure Report (K V : Type) where
  answer : Except Refusal (Answered V)
  calls : List (Callback K V)
  pairs : List (K × V)

variable {K V : Type} [BEq K] [Hashable K] [Ord K]

def runHashed (mutations : List (Mutation K V)) : List (Report K V) :=
  (run mutations (Store.empty : HashStore K V)).map fun written =>
    { answer := .ok written.answer
      calls := written.calls
      pairs := ((Store.entries written.store).map Entry.toPair).mergeSort fun a b =>
        (compare a.1 b.1).isLE }

def runSorted (mutations : List (Mutation K V)) : List (Report K V) :=
  (run mutations (Store.empty : SortedStore K V)).map fun written =>
    { answer := .ok written.answer
      calls := written.calls
      pairs := (Store.entries written.store).map Entry.toPair }

def runSealed (mutations : List (Mutation K V)) (map : Map K V) : List (Report K V) :=
  mutations.map fun mutation =>
    { answer := .error (mutation.refusedBy map)
      calls := []
      pairs := map.toList }

end Mutation
end SealedMap
