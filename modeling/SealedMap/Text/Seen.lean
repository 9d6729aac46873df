import SealedMap.Text.Unseen

/-!
# Characters that a quoted text shows as they are

A quoted text shows the characters of ASCII that can be printed and, beyond
ASCII, those with a mark of their own.  The ranges of those without ascend, so
halving the span of ranges finds the one that can hold a code point.
-/

namespace SealedMap
namespace Text

/-- The number lies in one of the ranges from position `low` to before `high`. -/
def inSpan (ranges : Array (Nat × Nat)) (n low high : Nat) (bound : high ≤ ranges.size) :
    Bool :=
  if nonempty : low < high then
    let middle := low + (high - low) / 2
    if n < ranges[middle].1 then inSpan ranges n low middle (by omega)
    else if ranges[middle].2 < n then inSpan ranges n (middle + 1) high bound
    else true
  else false
termination_by high - low

def inRanges (ranges : Array (Nat × Nat)) (n : Nat) : Bool :=
  inSpan ranges n 0 ranges.size (Nat.le_refl _)

def isSeen (c : Char) : Bool :=
  if c.toNat < 0x7f then 0x20 ≤ c.toNat
  else c.toNat < endOfSeen && !inRanges unseenRanges c.toNat

end Text
end SealedMap
