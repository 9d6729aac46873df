/-!
# Cursors

A cursor goes through a sequence from both ends.  What it still has to give is
a list, and a script of moves is answered move by move.
-/

namespace SealedMap

inductive Move where
  | next
  | nextBack
  | remaining
  | bounds
  | copy
  | unknown (letter : Char)
deriving DecidableEq

namespace Move

def ofLetter : Char -> Move
  | 'f' => next
  | 'b' => nextBack
  | 'n' => remaining
  | 'h' => bounds
  | 'c' => copy
  | letter => unknown letter

def ofScript (script : String) : List Move :=
  script.toList.map ofLetter

end Move

inductive Reply (α : Type) where
  | item (item : Option α)
  | count (n : Nat)
  | bounds (lower upper : Nat)
  | rest (items : List α)
  | remark (text : String)

namespace Reply

def map (f : α -> β) : Reply α -> Reply β
  | item a => item (a.map f)
  | count n => count n
  | bounds lower upper => bounds lower upper
  | rest items => rest (items.map f)
  | remark text => remark text

end Reply

structure Cursor (α : Type) where
  items : List α

namespace Cursor

def next (cursor : Cursor α) : Option α × Cursor α :=
  (cursor.items.head?, ⟨cursor.items.tail⟩)

def nextBack (cursor : Cursor α) : Option α × Cursor α :=
  (cursor.items.getLast?, ⟨cursor.items.dropLast⟩)

/-- Which moves a cursor makes, and the remark it has for the others. -/
abbrev Ability := Move -> Option String

def full : Ability
  | .unknown _ => some "?"
  | _ => none

def owning : Ability
  | .copy => some "not clonable"
  | move => full move

def forward : Ability
  | .next | .remaining | .bounds => none
  | _ => some "?"

/-- Makes one move; where there is a remark instead, the cursor stays. -/
def step (ability : Ability) (cursor : Cursor α) (move : Move) : Reply α × Cursor α :=
  match ability move, move with
  | some text, _ => (.remark text, cursor)
  | none, .next => (.item cursor.next.1, cursor.next.2)
  | none, .nextBack => (.item cursor.nextBack.1, cursor.nextBack.2)
  | none, .remaining => (.count cursor.items.length, cursor)
  | none, .bounds => (.bounds cursor.items.length cursor.items.length, cursor)
  | none, .copy => (.rest cursor.items, cursor)
  | none, .unknown _ => (.remark "?", cursor)

def play (ability : Ability) : List Move -> Cursor α -> List (Reply α)
  | [], _ => []
  | move :: moves, cursor =>
      let (reply, after) := cursor.step ability move
      reply :: play ability moves after

end Cursor
end SealedMap
