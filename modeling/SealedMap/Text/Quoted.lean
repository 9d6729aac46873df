import SealedMap.Text.Seen

/-!
# Quoted text

The quoted form of a text: quotes, backslashes and the common blanks have short
escapes, other characters that cannot be printed are written by number, and all
else stands for itself.
-/

namespace SealedMap
namespace Text

def hexNumber (n : Nat) : String :=
  String.ofList (Nat.toDigits 16 n)

def quotedChar (c : Char) : String :=
  match c with
  | '"' => "\\\""
  | '\\' => "\\\\"
  | '\n' => "\\n"
  | '\r' => "\\r"
  | '\t' => "\\t"
  | '\x00' => "\\0"
  | _ =>
      if isSeen c then String.singleton c
      else "\\u\x7b" ++ hexNumber c.toNat ++ "\x7d"

def quoted (text : String) : String :=
  "\"" ++ String.join (text.toList.map quotedChar) ++ "\""

end Text
end SealedMap
