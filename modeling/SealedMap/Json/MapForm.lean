import SealedMap.Builder
import SealedMap.Json.Forms

/-!
# Maps as JSON objects

A map is written as one object, names and values in iteration order and nothing
between them but the marks of the grammar.  Reading takes in the whole object,
then refuses repeated keys, and only then looks at what follows the object.
-/

namespace SealedMap
namespace Json

variable {K V : Type} [Name K] [Value V]

/-! ## Writing -/

def writeMember (pair : K × V) : List Char :=
  Name.writeName pair.1 ++ ':' :: Value.writeValue pair.2

def writeMore (pairs : List (K × V)) : List Char :=
  pairs.flatMap fun pair => ',' :: writeMember pair

def writeObject : List (K × V) -> List Char
  | [] => ['\x7b', '\x7d']
  | pair :: pairs => '\x7b' :: (writeMember pair ++ writeMore pairs ++ ['\x7d'])

/-! ## Reading -/

def readColon (text : List Char) : Except Fault (List Char) :=
  match skipBlank text with
  | [] => .error .truncated
  | ':' :: rest => .ok rest
  | _ => .error .malformed

def readMember : Reader (K × V) := fun text =>
  match (Name.readName : Reader K) text with
  | .error fault => .error fault
  | .ok (key, rest) =>
      match readColon rest with
      | .error fault => .error fault
      | .ok rest =>
          match (Value.readValue : Reader V) rest with
          | .error fault => .error fault
          | .ok (value, rest) => .ok ((key, value), rest)

def readOpening (text : List Char) : Except Fault (List Char) :=
  match skipBlank text with
  | [] => .error .truncated
  | '"' :: rest => .ok rest
  | _ => .error .malformed

/--
Reads members up to the closing brace, after those in `seen`, newest first.
Every member but the first stands behind a comma.  The first list bounds the
number of members.
-/
def readMembers : List Char -> List (K × V) -> Reader (List (K × V))
  | [], _, _ => .error .truncated
  | _ :: bound, seen, text =>
      match skipBlank text with
      | [] => .error .truncated
      | c :: rest =>
          if c == '\x7d' then .ok (seen.reverse, rest)
          else if c != ',' && !seen.isEmpty then .error .malformed
          else
            match readOpening (if seen.isEmpty then c :: rest else rest) with
            | .error fault => .error fault
            | .ok rest =>
                match (readMember : Reader (K × V)) rest with
                | .error fault => .error fault
                | .ok (pair, rest) => readMembers bound (pair :: seen) rest

/--
Reads an object from its opening brace to its closing one.  Every member takes a
character at least.
-/
def readObject : Reader (List (K × V)) := fun text =>
  match skipBlank text with
  | '\x7b' :: rest => readMembers rest [] rest
  | other =>
      match readFound other with
      | .error fault => .error fault
      | .ok found => .error (.notObject found)

end Json

structure JsonRead (K V : Type) [BEq K] [Hashable K] where
  events : List Event
  outcome : Except Json.Fault (Map K V)

namespace Map

variable {K V : Type} [BEq K] [Hashable K]

/-- The map of the pairs read, unless keys repeat or `after` finds a fault. -/
def ofPairsRead (hash : K -> UInt64) (pairs : List (K × V))
    (after : Except Json.Fault Unit) : JsonRead K V :=
  let construction := ofDistinct hash pairs
  match construction.outcome with
  | .error refusal => ⟨construction.events, .error (.refused refusal)⟩
  | .ok map => ⟨construction.events, after.map fun _ => map⟩

variable [Json.Name K] [Json.Value V]

def toJson (map : Map K V) : String :=
  String.ofList (Json.writeObject map.toList)

def ofJson (hash : K -> UInt64) (text : String) : JsonRead K V :=
  match (Json.readObject : Json.Reader (List (K × V))) text.toList with
  | .error fault => ⟨[], .error fault⟩
  | .ok (pairs, rest) =>
      ofPairsRead hash pairs
        (if (Json.skipBlank rest).isEmpty then .ok () else .error .malformed)

end Map

namespace Entry

def toJson [Json.Name K] [Json.Value V] (entry : Entry K V) : String :=
  "\x7b\"key\":" ++ String.ofList (Json.Name.writeAsValue entry.key) ++ ",\"value\":" ++
    String.ofList (Json.Value.writeValue entry.value) ++ "\x7d"

end Entry
end SealedMap
