/-!
# Events of a construction

A construction reports two things besides its outcome: that a hash chain grew
past its limit, and that values of repeated keys were resolved.
-/

namespace SealedMap

inductive Event where
  /-- A chain of a table for `len` entries would have held more than `limit` keys. -/
  | chainOverflow (len limit : Nat)
  | repeatsResolved (superseded : Nat)
deriving DecidableEq

namespace Event

def level : Event -> String
  | chainOverflow _ _ => "DEBUG"
  | repeatsResolved _ => "TRACE"

def message : Event -> String
  | chainOverflow _ _ => "hash chain overflow, rebuilding with a keyed index"
  | repeatsResolved _ => "resolving the values of repeated keys"

def fields : Event -> List (String × Nat)
  | chainOverflow len limit => [("len", len), ("max_chain_len", limit)]
  | repeatsResolved superseded => [("superseded", superseded)]

end Event

end SealedMap
