import SealedMap.Decimal.Shortest

/-!
# Texts of floating-point numbers

A double is written with its shortest digits and always shows that it is one:
positionally with at least one decimal for magnitudes from a hundred-thousandth
to below ten to the sixteenth, and with a signed exponent otherwise.
-/

namespace SealedMap
namespace Decimal

def withPoint (digits : List Char) (point : Nat) : String :=
  String.ofList (digits.take point ++ '.' :: digits.drop point)

def Digits.text (d : Digits) : String :=
  let digits := Nat.toDigits 10 d.digits
  let length : Int := digits.length
  /- The place of the point, counted from before the first digit. -/
  let point : Int := length + d.exponent
  if 0 ≤ d.exponent ∧ point ≤ 16 then
    String.ofList (digits ++ List.replicate d.exponent.toNat '0') ++ ".0"
  else if 0 < point ∧ point ≤ 16 then withPoint digits point.toNat
  else if -5 < point ∧ point ≤ 0 then
    "0." ++ String.ofList (List.replicate (-point).toNat '0' ++ digits)
  else
    let mantissa := if digits.length = 1 then String.ofList digits else withPoint digits 1
    let sign := if 0 < point then "+" else ""
    mantissa ++ "e" ++ sign ++ toString (point - 1)

def floatText (x : Float) : String :=
  let bits := x.toBits
  let sign := if bits >>> 63 = 0 then "" else "-"
  let magnitude := bits &&& 0x7fffffffffffffff
  if magnitude = 0 then sign ++ "0.0"
  else
    match shortest (Binary64.ofBits magnitude) with
    | some digits => sign ++ digits.text
    | none => sign ++ "0.0"

end Decimal
end SealedMap
