import SealedMap.Builder

/-!
# Drawing maps from bytes

Entries, builders and maps are drawn from a supply of bytes, taken from its
front; only the length of a text is told at its end.  A supply that has run out
gives zero bytes, and a sequence goes on as long as the byte before each element
is odd.  Such a byte is one that there was, so every drawing ends.
-/

namespace SealedMap
namespace Drawing

def drawByte : List UInt8 -> UInt8 × List UInt8
  | [] => (0, [])
  | byte :: rest => (byte, rest)

theorem length_drawByte_le (supply : List UInt8) :
    (drawByte supply).2.length ≤ supply.length := by
  cases supply with
  | nil => exact Nat.le_refl 0
  | cons byte rest => exact Nat.le_succ rest.length

def drawWord : Nat -> List UInt8 -> Nat × List UInt8
  | 0, supply => (0, supply)
  | count + 1, supply =>
      let low := drawByte supply
      let high := drawWord count low.2
      (low.1.toNat + 256 * high.1, high.2)

theorem length_drawWord_le (count : Nat) (supply : List UInt8) :
    (drawWord count supply).2.length ≤ supply.length := by
  induction count generalizing supply with
  | zero => exact Nat.le_refl supply.length
  | succ count ih => exact Nat.le_trans (ih (drawByte supply).2) (length_drawByte_le supply)

/-! ## Lengths and texts -/

def lengthBytes (available : Nat) : Nat :=
  if available = 0 then 0
  else if available ≤ 256 then 1
  else if available ≤ 65537 then 2
  else if available ≤ 4294967299 then 4
  else 8

def byteCount (number : Nat) : Nat :=
  if number = 0 then 0 else number.log2 / 8 + 1

/-- The number up to `most` that bytes tell, of which no more are read than `most` has. -/
def numberUpTo (most : Nat) (bytes : List UInt8) : Nat :=
  (bytes.take (byteCount most)).foldl (fun number byte => 256 * number + byte.toNat) 0 %
    (most + 1)

def drawLength (supply : List UInt8) : Nat × List UInt8 :=
  let most := supply.length - lengthBytes supply.length
  (numberUpTo most (supply.drop most), supply.take most)

theorem length_drawLength_le (supply : List UInt8) :
    (drawLength supply).2.length ≤ supply.length :=
  List.length_take_le' _ supply

/-- The longest text that the bytes are one of, or start with, up to a number of bytes. -/
def frontText (bytes : List UInt8) : Nat -> String
  | 0 => ""
  | count + 1 =>
      match String.fromUTF8? ⟨(bytes.take (count + 1)).toArray⟩ with
      | some text => text
      | none => frontText bytes count

/-! ## What can be drawn -/

structure Demand where
  least : Nat
  most : Option Nat
deriving DecidableEq

namespace Demand

def exactly (count : Nat) : Demand := ⟨count, some count⟩

def atLeast (count : Nat) : Demand := ⟨count, none⟩

def both (left right : Demand) : Demand where
  least := left.least + right.least
  most :=
    match left.most, right.most with
    | some a, some b => some (a + b)
    | _, _ => none

end Demand

/-- Values that can be drawn from bytes, of which a drawing leaves no more than there were. -/
class Drawn (α : Type) where
  draw : List UInt8 -> α × List UInt8
  demand : Demand
  length_draw_le : forall supply : List UInt8, (draw supply).2.length ≤ supply.length

export Drawn (draw)

/-- A sequence is announced with a word for its length, of any value. -/
def sequenceDemand : Demand :=
  (Demand.exactly 8).both (Demand.atLeast 0)

instance : Drawn UInt8 where
  draw := drawByte
  demand := .exactly 1
  length_draw_le := length_drawByte_le

instance : Drawn Int16 where
  draw supply :=
    let word := drawWord 2 supply
    ((UInt16.ofNat word.1).toInt16, word.2)
  demand := .exactly 2
  length_draw_le := length_drawWord_le 2

instance : Drawn Int64 where
  draw supply :=
    let word := drawWord 8 supply
    ((UInt64.ofNat word.1).toInt64, word.2)
  demand := .exactly 8
  length_draw_le := length_drawWord_le 8

instance : Drawn String where
  draw supply :=
    let length := drawLength supply
    let text := frontText length.2 length.1
    (text, length.2.drop text.utf8ByteSize)
  demand := sequenceDemand
  length_draw_le supply :=
    Nat.le_trans (List.length_drop ▸ Nat.sub_le _ _) (length_drawLength_le supply)

instance [Drawn K] [Drawn V] : Drawn (K × V) where
  draw supply :=
    let key : K × List UInt8 := draw supply
    let value : V × List UInt8 := draw key.2
    ((key.1, value.1), value.2)
  demand := (Drawn.demand K).both (Drawn.demand V)
  length_draw_le supply :=
    Nat.le_trans (Drawn.length_draw_le (draw supply : K × List UInt8).2)
      (Drawn.length_draw_le supply)

instance [Drawn K] [Drawn V] : Drawn (Entry K V) where
  draw supply :=
    let pair : (K × V) × List UInt8 := draw supply
    (Entry.ofPair pair.1, pair.2)
  demand := Drawn.demand (K × V)
  length_draw_le := (Drawn.length_draw_le : forall supply : List UInt8,
    (draw supply : (K × V) × List UInt8).2.length ≤ supply.length)

/-! ## Sequences -/

section Sequences

variable {α : Type} [Drawn α]

/-- The next element, if the byte before it is odd, and the bytes that are left. -/
def drawNext (supply : List UInt8) : Option α × List UInt8 :=
  let flag := drawByte supply
  if flag.1 % 2 = 0 then (none, flag.2)
  else
    let element : α × List UInt8 := draw flag.2
    (some element.1, element.2)

theorem length_lt_of_drawNext {supply rest : List UInt8} {element : α}
    (h : drawNext supply = (some element, rest)) :
    rest.length < supply.length := by
  cases supply with
  | nil => cases h
  | cons flag supply =>
      rw [drawNext] at h
      split at h
      next => cases h
      next =>
        cases h
        exact Nat.lt_succ_of_le (Drawn.length_draw_le supply)

def drawSequence (supply : List UInt8) : List α × List UInt8 :=
  match _h : (drawNext supply : Option α × List UInt8) with
  | (none, rest) => ([], rest)
  | (some element, rest) =>
      let more : List α × List UInt8 := drawSequence rest
      (element :: more.1, more.2)
termination_by supply.length
decreasing_by exact length_lt_of_drawNext _h

end Sequences

/-! ## Builders and maps -/

variable [Drawn K] [Drawn V]

def drawBuilder (hash : K -> UInt64) (supply : List UInt8) : Builder K V × List UInt8 :=
  let pairs : List (K × V) × List UInt8 := drawSequence supply
  (Builder.ofList hash pairs.1, pairs.2)

def drawBuilderFromRest (hash : K -> UInt64) (supply : List UInt8) : Builder K V :=
  let pairs : List (K × V) × List UInt8 := drawSequence supply
  Builder.ofList hash pairs.1

variable [BEq K] [Hashable K]

def drawMap (hash : K -> UInt64) (supply : List UInt8) : Construction K V × List UInt8 :=
  let pairs : List (K × V) × List UInt8 := drawSequence supply
  (Map.ofList hash pairs.1, pairs.2)

def drawMapFromRest (hash : K -> UInt64) (supply : List UInt8) : Construction K V :=
  let pairs : List (K × V) × List UInt8 := drawSequence supply
  Map.ofList hash pairs.1

end Drawing
end SealedMap
