import Std.Data.HashSet
import SealedMap.Event
import SealedMap.Map
import SealedMap.Repeats

/-!
# Constructing a map

A construction places all entries in a chained index made for their number,
resolves the repeats it met, and renumbers the index to the entries that stay.
When a chain overflows it starts over with a keyed index, which leaves nothing
of the first attempt but an event.  To order a map by value, repeats are
resolved first and the entries that stay are sorted and indexed.
-/

namespace SealedMap

open Index (Chained Keyed Placing Placed place)

/-- A total preorder of values, as a comparison. -/
abbrev ValueOrder (V : Type) := V -> V -> Ordering

structure Construction (K V : Type) [BEq K] [Hashable K] where
  events : List Event
  outcome : Except Refusal (Map K V)

namespace Construction

variable {σ K V : Type} [BEq K] [Hashable K]

def report (event : Event) (construction : Construction K V) : Construction K V :=
  { construction with events := event :: construction.events }

def built (map : Map K V) : Construction K V where
  events := []
  outcome := .ok map

def refused (refusal : Refusal) : Construction K V where
  events := []
  outcome := .error refusal

/--
Resolves the repeats of a finished placement and makes a map of the entries
that stay.
-/
def settle [Placing I K] (hash : K -> UInt64) (policy : Policy σ K V)
    (entries : Array (Entry K V)) (index : I) (repeats : List Index.Repeat)
    (layout : Array (Entry K V) -> I -> Layout K V) : StateM σ (Construction K V) :=
  if repeats.isEmpty then
    pure (built ⟨layout entries index, hash⟩)
  else do
    let kept <- Repeats.fold policy.combine entries repeats
    let numbers := Repeats.numbering (Repeats.superseded entries.size repeats)
    let map : Map K V := ⟨layout kept (Placing.renumber index numbers), hash⟩
    pure ((built map).report (.repeatsResolved repeats.length))

def indexKeyed (hash : K -> UInt64) (policy : Policy σ K V)
    (entries : Array (Entry K V)) : StateM σ (Construction K V) :=
  match place policy.rejects entries (Keyed.empty : Keyed K) with
  | .done index repeats => settle hash policy entries index repeats Layout.ofKeyed
  | .rejected first second => pure (refused (.duplicateKey first second))
  | .overflow => pure (built ⟨Layout.small entries, hash⟩)

def index (hash : K -> UInt64) (policy : Policy σ K V)
    (entries : Array (Entry K V)) : StateM σ (Construction K V) :=
  if entries.size < 2 then
    pure (built ⟨Layout.small entries, hash⟩)
  else
    let start := Chained.empty hash entries.size
    let limit := start.limit
    match place policy.rejects entries start with
    | .done index repeats => settle hash policy entries index repeats Layout.ofChained
    | .rejected first second => pure (refused (.duplicateKey first second))
    | .overflow => do
        let fallback <- indexKeyed hash policy entries
        pure (fallback.report (.chainOverflow entries.size limit))

def lastOccurrences (entries : Array (Entry K V)) : Array (Entry K V) :=
  let step (entry : Entry K V) (state : Std.HashSet K × List (Entry K V)) :=
    if state.1.contains entry.key then state
    else (state.1.insert entry.key, entry :: state.2)
  (entries.foldr step (∅, [])).2.toArray

/--
Resolves repeats before the entries are sorted: refuses them, keeps the last
occurrences, or folds into the first ones.  A keyed index does not overflow.
-/
def resolve (policy : Policy σ K V) (entries : Array (Entry K V)) :
    StateM σ (Except Refusal (Array (Entry K V))) :=
  match policy with
  | .keepLast => pure (.ok (lastOccurrences entries))
  | _ =>
      match place policy.rejects entries (Keyed.empty : Keyed K) with
      | .rejected first second => pure (.error (.duplicateKey first second))
      | .done _ repeats => do
          let kept <- Repeats.fold policy.combine entries repeats
          pure (.ok kept)
      | .overflow => pure (.ok entries)

def sortByValue (order : ValueOrder V) (entries : Array (Entry K V)) :
    Array (Entry K V) :=
  (entries.toList.mergeSort fun left right =>
    (order left.value right.value).isLE).toArray

def construct (hash : K -> UInt64) (policy : Policy σ K V)
    (order : Option (ValueOrder V)) (entries : Array (Entry K V)) :
    StateM σ (Construction K V) :=
  match order with
  | none => index hash policy entries
  | some order =>
      if entries.size < 2 then index hash policy entries
      else do
        match <- resolve policy entries with
        | .error refusal => pure (refused refusal)
        | .ok resolved => index hash .reject (sortByValue order resolved)

def constructKeyed (hash : K -> UInt64) (policy : Policy σ K V)
    (entries : Array (Entry K V)) : StateM σ (Construction K V) :=
  if entries.size < 2 then pure (built ⟨Layout.small entries, hash⟩)
  else indexKeyed hash policy entries

end Construction
end SealedMap
