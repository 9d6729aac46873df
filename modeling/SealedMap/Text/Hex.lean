/-!
# Hexadecimal text

Bytes as two lower-case digits each, and words of 64 bits as sixteen.
-/

namespace SealedMap
namespace Text

def hexOfByte (byte : UInt8) : List Char :=
  [Nat.digitChar (byte.toNat / 16), Nat.digitChar (byte.toNat % 16)]

def hexOfBytes (bytes : List UInt8) : String :=
  String.ofList (bytes.flatMap hexOfByte)

def hexDigits : Nat -> Nat -> List Char
  | 0, _ => []
  | count + 1, n => hexDigits count (n / 16) ++ [Nat.digitChar (n % 16)]

def hexOfWord (word : UInt64) : String :=
  String.ofList (hexDigits 16 word.toNat)

def digitOfHex? (c : Char) : Option Nat :=
  if '0' ≤ c ∧ c ≤ '9' then some (c.toNat - 48)
  else if 'a' ≤ c ∧ c ≤ 'f' then some (c.toNat - 87)
  else none

def bytesOfHex? : List Char -> Option (List UInt8)
  | [] => some []
  | high :: low :: rest => do
      let high <- digitOfHex? high
      let low <- digitOfHex? low
      let bytes <- bytesOfHex? rest
      pure ((16 * high + low).toUInt8 :: bytes)
  | [_] => none

end Text
end SealedMap
