import SealedMap.Text.Quoted

/-!
# The two texts of a value

A value has a plain text, for readers, and a literal text, in which a text is
quoted and everything else stands as in the plain one.
-/

namespace SealedMap

class Shown (α : Type) where
  plain : α -> String
  literal : α -> String

namespace Shown

instance : Shown Int64 where
  plain n := toString n.toInt
  literal n := toString n.toInt

instance : Shown UInt8 where
  plain n := toString n.toNat
  literal n := toString n.toNat

instance : Shown Int16 where
  plain n := toString n.toInt
  literal n := toString n.toInt

instance : Shown String where
  plain text := text
  literal text := Text.quoted text

end Shown
end SealedMap
