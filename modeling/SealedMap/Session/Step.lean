import SealedMap.Binary.Layout
import SealedMap.Hashing.Hasher
import SealedMap.Json.Tree
import SealedMap.Kind.Rules
import SealedMap.View.Cursor

/-!
# Steps of a session

A session works on named registers for builders, maps and views.  Each step
names the registers it reads and the one it writes.
-/

namespace SealedMap
namespace Session

inductive BuildMode where
  | reject
  | keyed
  | keepLast
  | merge
deriving DecidableEq

structure BuildRequest where
  builder : String
  target : String
  mode : BuildMode
  consuming : Bool
  rule : CombineRule
  quiet : Bool
  /-- Nothing else holds the entries meanwhile, so none are left to name in a conflict. -/
  unique : Bool

inductive Source (K V : Type) where
  | nothing
  | single (pair : K × V)
  | distinct (pairs : List (K × V))
  | collected (pairs : List (K × V))
  | sorted (pairs : List (K × V))
  | json (text : String)
  | tree (tree : Json.Tree)
  | bytes (convention : Binary.Convention) (bytes : List UInt8)

inductive ViewKind where
  | keys
  | values
  | entries
  | multi
  | inverse
deriving DecidableEq

inductive ViewQuery (K V : Type) where
  | keys (places : List Nat) (has : List K)
  | values (places : List Nat) (has : List V)
  | entries (places : List Nat) (has : List (K × V))
  | multi (has : List K) (holds : List (K × V)) (script : Option (List Move))
  | inverse (has : List V) (script : Option (List Move))

namespace ViewQuery

def kind : ViewQuery K V -> ViewKind
  | keys .. => .keys
  | values .. => .values
  | entries .. => .entries
  | multi .. => .multi
  | inverse .. => .inverse

end ViewQuery

inductive Traversal where
  | pairs
  | keys
  | values
  | into
deriving DecidableEq

inductive Step (K V : Type) where
  -- builders
  | newBuilder (name : String) (pairs : List (K × V))
  | put (name : String) (key : K) (value : V)
  | putAll (name : String) (pairs : List (K × V))
  | tryPut (name : String) (pairs : List (Option K × Option V))
  | order (name : String) (rule : OrderRule)
  | cloneBuilder (name target : String)
  | builderSize (name : String)
  | builderText (name : String) (lines : Bool)
  | combine (name other : String)
  | conflict (name : String) (refusal : Refusal)
  | build (request : BuildRequest)
  -- maps
  | make (source : Source K V) (target : String) (quiet : Bool)
  | makeFromHashed (pairs : List (K × V))
  | cloneMap (name target : String)
  | dropMap (name : String)
  | dump (name : String)
  | get (name : String) (keys : List K)
  | hasValue (name : String) (values : List V)
  | hasherName (name : String)
  | toJson (name : String)
  | toBytes (name : String) (convention : Binary.Convention)
  | texts (name : String)
  | display (name : String)
  | hashes (name : String)
  | compare (name other : String)
  | compareWith (name : String) (pairs : List (K × V)) (hasher : Hashing.Hasher)
  | sameViews (name other : String)
  | iterate (name : String) (traversal : Traversal) (script : List Move)
  | mutate (name : String) (key : K) (value : V)
  -- views
  | ownView (name : String) (kind : ViewKind) (target : String)
  | viewOfMap (name : String) (query : ViewQuery K V) (literal : Bool)
  | view (name : String) (query : ViewQuery K V) (literal : Bool)
  | cloneView (name target : String)
  | dropView (name : String)
  -- entries
  | entry (x y : Option K × Option V)

end Session
end SealedMap
