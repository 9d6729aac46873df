import SealedMap.Decimal.FloatText
import SealedMap.Refusal
import SealedMap.Text.Quoted

/-!
# What can be wrong with a JSON text

A text ends early, breaks the grammar, or holds something other than what was
asked for.  Repeated keys are refused once an object was read to its end.
-/

namespace SealedMap
namespace Json

inductive Found where
  | null
  | boolean (b : Bool)
  | integer (n : Int)
  | float (x : Float)
  | text (s : String)
  | sequence
  | object

inductive Fault where
  | truncated
  | malformed
  | unfit
  | notObject (found : Found)
  | refused (refusal : Refusal)

namespace Found

def describe : Found -> String
  | null => "null"
  | boolean b => "boolean `" ++ toString b ++ "`"
  | integer n => "integer `" ++ toString n ++ "`"
  | float x => "floating point `" ++ Decimal.floatText x ++ "`"
  | text s => "string " ++ Text.quoted s
  | sequence => "sequence"
  | object => "map"

end Found

namespace Fault

def category : Fault -> String
  | truncated => "eof"
  | malformed => "syntax"
  | unfit | notObject _ | refused _ => "data"

def message? : Fault -> Option String
  | notObject found =>
      some ("invalid type: " ++ found.describe ++ ", expected a map without repeated keys")
  | refused refusal => some refusal.message
  | _ => none

end Fault

abbrev Reader (α : Type) := List Char -> Except Fault (α × List Char)

def isBlank (c : Char) : Bool :=
  c == ' ' || c == '\n' || c == '\t' || c == '\r'

def skipBlank (text : List Char) : List Char :=
  text.dropWhile isBlank

end Json
end SealedMap
