import SealedMap.Json.Fault

/-!
# JSON strings

Writing a text between quotes and reading it back.  Quotes, backslashes and
control characters are escaped when written; when read, any character may be
escaped by number, those beyond the first plane as two surrogates.
-/

namespace SealedMap
namespace Json

/-! ## Writing -/

def hexDigit (n : Nat) : Char :=
  Nat.digitChar n

def escapeChar (c : Char) : List Char :=
  match c with
  | '"' => ['\\', '"']
  | '\\' => ['\\', '\\']
  | '\x08' => ['\\', 'b']
  | '\x0c' => ['\\', 'f']
  | '\n' => ['\\', 'n']
  | '\r' => ['\\', 'r']
  | '\t' => ['\\', 't']
  | _ =>
      if c.toNat < 0x20 then
        ['\\', 'u', '0', '0', hexDigit (c.toNat / 16), hexDigit (c.toNat % 16)]
      else [c]

def writeString (text : String) : List Char :=
  '"' :: (text.toList.flatMap escapeChar ++ ['"'])

/-! ## Reading -/

/-- What the inside of a string goes on with. -/
inductive Piece where
  | closing
  | char (c : Char)

def hexValue? (c : Char) : Option Nat :=
  if '0' ≤ c ∧ c ≤ '9' then some (c.toNat - 48)
  else if 'a' ≤ c ∧ c ≤ 'f' then some (c.toNat - 87)
  else if 'A' ≤ c ∧ c ≤ 'F' then some (c.toNat - 55)
  else none

def hasBytes (count : Nat) (text : List Char) : Bool :=
  count ≤ (text.take count).foldl (fun bytes c => bytes + c.utf8Size) 0

def readUnit (text : List Char) : Except Fault (Nat × List Char) :=
  if hasBytes 4 text then
    match text with
    | a :: b :: c :: d :: rest =>
        match hexValue? a, hexValue? b, hexValue? c, hexValue? d with
        | some a, some b, some c, some d =>
            .ok (((a * 16 + b) * 16 + c) * 16 + d, rest)
        | _, _, _, _ => .error .malformed
    | _ => .error .malformed
  else .error .truncated

def readTrailing (leading : Nat) : List Char -> Except Fault (Piece × List Char)
  | [] => .error .truncated
  | ['\\'] => .error .truncated
  | '\\' :: 'u' :: text =>
      match readUnit text with
      | .error fault => .error fault
      | .ok (unit, rest) =>
          if 0xdc00 ≤ unit ∧ unit ≤ 0xdfff then
            .ok (.char (Char.ofNat
              (0x10000 + (leading - 0xd800) * 0x400 + (unit - 0xdc00))), rest)
          else .error .malformed
  | _ => .error .malformed

def readNumbered (text : List Char) : Except Fault (Piece × List Char) :=
  match readUnit text with
  | .error fault => .error fault
  | .ok (unit, rest) =>
      if 0xdc00 ≤ unit ∧ unit ≤ 0xdfff then .error .malformed
      else if 0xd800 ≤ unit ∧ unit ≤ 0xdbff then readTrailing unit rest
      else .ok (.char (Char.ofNat unit), rest)

def readEscape : List Char -> Except Fault (Piece × List Char)
  | [] => .error .truncated
  | '"' :: rest => .ok (.char '"', rest)
  | '\\' :: rest => .ok (.char '\\', rest)
  | '/' :: rest => .ok (.char '/', rest)
  | 'b' :: rest => .ok (.char '\x08', rest)
  | 'f' :: rest => .ok (.char '\x0c', rest)
  | 'n' :: rest => .ok (.char '\n', rest)
  | 'r' :: rest => .ok (.char '\r', rest)
  | 't' :: rest => .ok (.char '\t', rest)
  | 'u' :: rest => readNumbered rest
  | _ => .error .malformed

def readPiece : List Char -> Except Fault (Piece × List Char)
  | [] => .error .truncated
  | '"' :: rest => .ok (.closing, rest)
  | '\\' :: rest => readEscape rest
  | c :: rest => if c.toNat < 0x20 then .error .malformed else .ok (.char c, rest)

/--
Reads pieces up to the closing quote, after those in `seen`, newest first.  The
first list bounds the number of pieces.
-/
def readPieces : List Char -> List Char -> Reader String
  | [], _, _ => .error .truncated
  | _ :: bound, seen, text =>
      match readPiece text with
      | .error fault => .error fault
      | .ok (.closing, rest) => .ok (String.ofList seen.reverse, rest)
      | .ok (.char c, rest) => readPieces bound (c :: seen) rest

/--
Reads a string whose opening quote was already taken.  Every piece takes a
character at least, so a text has no more pieces than characters.
-/
def readStringBody : Reader String := fun text =>
  readPieces text [] text

end Json
end SealedMap
