import SealedMap.Json.MapForm

/-!
# JSON values in memory

A JSON value that was read before is turned into a map by the same rules as a
text: members are taken in the order they stand, each name and value must be of
the right type, and repeated keys are refused at the end.
-/

namespace SealedMap
namespace Json

inductive Tree where
  | null
  | boolean (b : Bool)
  | integer (n : Int)
  | float (x : Float)
  | text (s : String)
  | sequence (items : List Tree)
  | object (members : List (String × Tree))
deriving Inhabited

namespace Tree

def found : Tree -> Found
  | null => .null
  | boolean b => .boolean b
  | integer n => .integer n
  | float x => .float x
  | text s => .text s
  | sequence _ => .sequence
  | object _ => .object

def toInt : Tree -> Except Fault Int64
  | integer n =>
      match (Number.integer n).int64? with
      | some n => .ok n
      | none => .error .unfit
  | _ => .error .unfit

def toText : Tree -> Except Fault String
  | text s => .ok s
  | _ => .error .unfit

def toNullable : Tree -> Except Fault Nullable
  | null => .ok .nil
  | tree => tree.toInt.map .some

end Tree

def nameToInt (name : String) : Except Fault Int64 :=
  let text := name.toList
  if startsNumber text then
    match readDigitsInt text with
    | .error fault => .error fault
    | .ok (n, []) => .ok n
    | .ok (_, _) => .error .malformed
  else .error .malformed

class OfName (K : Type) where
  ofName : String -> Except Fault K

class OfTree (V : Type) where
  ofTree : Tree -> Except Fault V

instance : OfName Int64 where
  ofName := nameToInt

instance : OfName String where
  ofName := .ok

instance : OfName Caseless where
  ofName name := .ok ⟨name⟩

instance : OfName Unhashed where
  ofName name := (nameToInt name).map Unhashed.mk

instance : OfTree Int64 where
  ofTree := Tree.toInt

instance : OfTree String where
  ofTree := Tree.toText

instance : OfTree Nullable where
  ofTree := Tree.toNullable

def pairsOfMembers [OfName K] [OfTree V] :
    List (String × Tree) -> Except Fault (List (K × V))
  | [] => .ok []
  | (name, tree) :: members => do
      let key <- OfName.ofName name
      let value <- OfTree.ofTree tree
      let pairs <- pairsOfMembers members
      pure ((key, value) :: pairs)

end Json

namespace Map

def ofTree [BEq K] [Hashable K] [Json.OfName K] [Json.OfTree V]
    (hash : K -> UInt64) (tree : Json.Tree) : JsonRead K V :=
  match tree with
  | .object members =>
      match (Json.pairsOfMembers members : Except Json.Fault (List (K × V))) with
      | .error fault => ⟨[], .error fault⟩
      | .ok pairs => ofPairsRead hash pairs (.ok ())
  | other => ⟨[], .error (.notObject other.found)⟩

end Map
end SealedMap
