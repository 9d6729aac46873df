import SealedMap.Binary.Layout
import SealedMap.Json.Tree
import SealedMap.Kind.Rules

/-!
# Kinds for sessions

A session runs over any kind of key and any kind of value that can be shown,
written, read, hashed and compared in all the ways its steps ask for.
-/

namespace SealedMap
namespace Session

class KeyKind (K : Type) extends BEq K, Hashable K, Ord K, Inhabited K, Feed K,
  Shown K, Binary.Laid K, Json.Name K, Json.OfName K

class ValueKind (V : Type) extends BEq V, Hashable V, Inhabited V, Feed V, Shown V,
  PartialOrdering V, Ruled V, Binary.Laid V, Json.Value V, Json.OfTree V

instance : KeyKind Int64 where

instance : KeyKind String where

instance : KeyKind Caseless where

instance : KeyKind Unhashed where

instance : ValueKind Int64 where

instance : ValueKind String where

instance : ValueKind Nullable where

end Session
end SealedMap
