import SealedMap.Binary.MapForm
import SealedMap.Builder
import SealedMap.Json.MapForm
import SealedMap.View.Cursor

/-!
# Answers of a session

Each step is answered by one value that says what it did or what it found.
-/

namespace SealedMap
namespace Session

inductive Contents (K V : Type) where
  | pairs (pairs : List (K × V))
  | size (n : Nat)

structure Lookup (K V : Type) where
  value : Option V
  pair : Option (K × V)
  isPresent : Bool
  fetched : Except Refusal V

structure Comparison where
  isEqual : Bool
  sameKeys : Bool
  sameEntries : Bool
  sameCodes : Bool

structure SharedViews where
  entries : Bool
  keys : Bool
  values : Bool
  multi : Bool
  inverse : Bool

inductive Item (K V : Type) where
  | pair (key : K) (value : V)
  | key (key : K)
  | value (value : V)
  | values (key : K) (values : List V)
  | keys (value : V) (replies : List (Reply K))

inductive Sight (K V : Type) where
  | keys (items : List K) (places : List (Option K)) (has : List Bool)
  | values (items : List V) (places : List (Option V)) (has : List Bool)
  | entries (items : List (K × V)) (places : List (Option (K × V))) (has : List Bool)
  | multi (keyCount pairCount : Nat) (keys : List K) (items : List (K × List V))
      (has : List (List V × Bool)) (holds : List Bool)
  | inverse (groupCount pairCount : Nat) (items : List (V × List K))
      (has : List (Nat × List K × Bool))

structure EntryReport (K V : Type) where
  x : K × V
  y : K × V
  isEqual : Bool
  isSelfEqual : Bool
  order : Option Ordering
  plain : String
  literal : String
  hashes : List UInt64
  defaultLiteral : String
  json : String

inductive Answer (K V : Type) where
  | missing
  | done (didSomething : Bool)
  | size (n : Nat)
  | occupancy (n : Nat) (isEmpty : Bool)
  | refused (refusal : Refusal)
  | putRefused (refusal : Refusal) (size : Nat)
  | buildRefused (refusal : Refusal) (conflict : Option (Entry K V × Entry K V))
  | conflict (entries : Option (Entry K V × Entry K V))
  | literal (text : String)
  | display (text : String)
  | texts (plain literal lines : String)
  | contents (contents : Contents K V)
  | merged (contents : Contents K V) (calls : List (Builder.Call K V))
  | readBytes (contents : Contents K V) (used : Nat)
  | unreadJson (fault : Json.Fault)
  | unreadBytes (failure : Binary.Failure)
  | fromHashed (sorted : List (K × V)) (follows : Bool)
  | dump (pairs : List (K × V)) (keys : List K) (values : List V)
  | lookups (lookups : List (Lookup K V))
  | has (answers : List Bool)
  | hasherName (name : String)
  | json (text : String)
  | bytes (bytes : List UInt8)
  | hashes (code hash : UInt64)
  | compared (comparison : Comparison) (sameInstance : Bool)
  | comparedWith (comparison : Comparison) (isEqualBack : Bool)
  | sharedViews (shared : SharedViews)
  | replies (replies : List (Reply (Item K V)))
  | mutated (refusals : List Refusal) (unchanged : Bool) (pairs : List (K × V))
  | view (sight : Sight K V) (replies : Option (List (Reply (Item K V))))
      (literal : Option String)
  | entry (report : EntryReport K V)

end Session
end SealedMap
