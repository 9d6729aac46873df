/-!
# Shortest decimals of binary floating-point numbers

A positive double is a multiple of a power of two, and all reals between the
midpoints to its neighbours round to it.  Its shortest decimal is the one of
fewest digits among those, and the nearest to the double of that many digits.
-/

namespace SealedMap
namespace Decimal

/-- A positive double as a multiple of a power of two. -/
structure Binary64 where
  significand : Nat
  exponent : Int

structure Digits where
  digits : Nat
  exponent : Int

namespace Binary64

def ofBits (bits : UInt64) : Binary64 :=
  let fraction : Nat := bits.toNat % 0x10000000000000
  let biased : Nat := bits.toNat / 0x10000000000000 % 0x800
  if biased = 0 then ⟨fraction, -1074⟩
  else ⟨0x10000000000000 + fraction, (biased : Int) - 1075⟩

/-- Four times a number and its two midpoints, over a common denominator. -/
def scaled (x : Binary64) : Nat × Nat × Nat × Nat :=
  let below := if x.significand = 0x10000000000000 ∧ x.exponent ≠ -1074 then 1 else 2
  let up := if 0 ≤ x.exponent then 1 <<< x.exponent.toNat else 1
  let denominator := if 0 ≤ x.exponent then 4 else 4 <<< (-x.exponent).toNat
  let middle := 4 * x.significand
  (middle * up, (middle - below) * up, (middle + 2) * up, denominator)

end Binary64

def Digits.ratio (d : Digits) : Nat × Nat :=
  if 0 ≤ d.exponent then (d.digits * Nat.pow 10 d.exponent.toNat, 1)
  else (d.digits, Nat.pow 10 (-d.exponent).toNat)

/--
The nearer of the two neighbours on the grid of multiples of a power of ten,
among those that round to the number; a tie goes to even digits.
-/
def onGrid (x : Binary64) (exponent : Int) : Option Digits :=
  let (value, lower, upper, denominator) := x.scaled
  let floor : Nat :=
    if 0 ≤ exponent then value / (denominator * Nat.pow 10 exponent.toNat)
    else value * Nat.pow 10 (-exponent).toNat / denominator
  let inside (d : Digits) : Bool :=
    let (n, m) := d.ratio
    if x.significand % 2 = 0 then
      lower * m ≤ n * denominator && n * denominator ≤ upper * m
    else lower * m < n * denominator && n * denominator < upper * m
  let down : Digits := ⟨floor, exponent⟩
  let up : Digits := ⟨floor + 1, exponent⟩
  match inside down && floor != 0, inside up with
  | true, true =>
      let (n, m) := down.ratio
      let (k, _) := up.ratio
      let toDown := value * m - n * denominator
      let toUp := k * denominator - value * m
      if toDown < toUp ∨ (toDown = toUp ∧ floor % 2 = 0) then some down else some up
  | true, false => some down
  | false, true => some up
  | false, false => none

def refine (x : Binary64) : Nat -> Int -> Option Digits
  | 0, _ => none
  | fuel + 1, exponent =>
      match onGrid x exponent with
      | some digits => some digits
      | none => refine x fuel (exponent - 1)

def trim : Nat -> Digits -> Digits
  | 0, d => d
  | fuel + 1, d =>
      if d.digits ≠ 0 ∧ d.digits % 10 = 0 then trim fuel ⟨d.digits / 10, d.exponent + 1⟩
      else d

def shortest (x : Binary64) : Option Digits :=
  let (value, _, _, denominator) := x.scaled
  let magnitude : Int :=
    if denominator ≤ value then (Nat.toDigits 10 (value / denominator)).length
    else -((Nat.toDigits 10 (denominator / value)).length : Int) + 1
  (refine x 24 (magnitude + 1)).map fun d => trim d.digits d

end Decimal
end SealedMap
