import SealedMap.Hashing.Feed
import SealedMap.Text.Shown

/-!
# Kinds of keys

Besides integers and texts, two kinds of keys stretch what equality and hashing
promise: keys that differ in spelling and are still equal, and keys that are
different and still feed the same to every hasher.
-/

namespace SealedMap

/-- A text that is compared without regard to the case of ASCII letters. -/
structure Caseless where
  text : String

namespace Caseless

def folded (key : Caseless) : String :=
  key.text.map Char.toLower

instance : BEq Caseless where
  beq left right := left.folded == right.folded

theorem beq_def (left right : Caseless) :
    (left == right) = (left.folded == right.folded) := rfl

instance : Hashable Caseless where
  hash key := hash key.folded

instance : Ord Caseless where
  compare left right := compare left.folded right.folded

instance : Feed Caseless where
  feed key := feed key.folded

instance : Inhabited Caseless where
  default := ⟨""⟩

instance : Shown Caseless where
  plain key := key.text
  literal key := Text.quoted key.text

instance : EquivBEq Caseless where
  rfl := by simp [beq_def]
  symm h := by
    rw [beq_def, beq_iff_eq] at *
    exact h.symm
  trans h k := by
    rw [beq_def, beq_iff_eq] at *
    exact h.trans k

instance : LawfulHashable Caseless where
  hash_eq left right h := by
    rw [beq_def, beq_iff_eq] at h
    simp only [hash, h]

instance : Std.TransOrd Caseless :=
  inferInstanceAs (Std.TransCmp (compareOn folded))

instance : Std.LawfulBEqOrd Caseless where
  compare_eq_iff_beq {left right} := by
    rw [beq_def, beq_iff_eq]
    exact Std.LawfulEqOrd.compare_eq_iff_eq (a := left.folded) (b := right.folded)

end Caseless

/-- An integer that feeds nothing to a hasher. -/
structure Unhashed where
  number : Int64
deriving DecidableEq

namespace Unhashed

instance : Hashable Unhashed where
  hash key := hash key.number

instance : Ord Unhashed where
  compare left right := compare left.number right.number

instance : Std.TransOrd Unhashed :=
  inferInstanceAs (Std.TransCmp (compareOn number))

instance : Feed Unhashed where
  feed _ := []

instance : Inhabited Unhashed where
  default := ⟨0⟩

instance : Shown Unhashed where
  plain key := Shown.plain key.number
  literal key := Shown.literal key.number

end Unhashed
end SealedMap
