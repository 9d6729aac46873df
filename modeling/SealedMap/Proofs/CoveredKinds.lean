import SealedMap.Session.Kinds

/-!
# Kinds that are covered

The kinds of keys and of values that sessions run over, one after the other.
What is proved of each of them is proved of all.
-/

namespace SealedMap
namespace Session

inductive KeyKind.Covered : (K : Type) -> [KeyKind K] -> Prop where
  | integer : Covered Int64
  | text : Covered String
  | caseless : Covered Caseless
  | unhashed : Covered Unhashed

inductive ValueKind.Covered : (V : Type) -> [ValueKind V] -> Prop where
  | integer : Covered Int64
  | text : Covered String
  | nullable : Covered Nullable

theorem KeyKind.Covered.equivBEq {K : Type} [KeyKind K] (h : KeyKind.Covered K) :
    EquivBEq K := by
  cases h with
  | integer => exact inferInstanceAs (EquivBEq Int64)
  | text => exact inferInstanceAs (EquivBEq String)
  | caseless => exact inferInstanceAs (EquivBEq Caseless)
  | unhashed => exact inferInstanceAs (EquivBEq Unhashed)

theorem KeyKind.Covered.lawfulHashable {K : Type} [KeyKind K] (h : KeyKind.Covered K) :
    LawfulHashable K := by
  cases h with
  | integer => exact inferInstanceAs (LawfulHashable Int64)
  | text => exact inferInstanceAs (LawfulHashable String)
  | caseless => exact inferInstanceAs (LawfulHashable Caseless)
  | unhashed => exact inferInstanceAs (LawfulHashable Unhashed)

theorem KeyKind.Covered.feed_eq {K : Type} [KeyKind K] (h : KeyKind.Covered K) {a b : K}
    (heq : (a == b) = true) :
    feed a = feed b := by
  cases h with
  | integer => rw [eq_of_beq (α := Int64) heq]
  | text => rw [eq_of_beq (α := String) heq]
  | caseless => exact congrArg (feed : String -> List UInt8) (beq_iff_eq.mp heq)
  | unhashed => rfl

end Session
end SealedMap
