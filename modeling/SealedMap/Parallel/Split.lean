import SealedMap.Builder

/-!
# Collecting in parallel

A sequence of pairs can be split into consecutive parts, each put into a builder
of its own, and neighbouring builders combined.  The entries stand in the order
of the sequence whatever the split.
-/

namespace SealedMap

inductive Split (α : Type) where
  | idle
  | part (items : List α)
  | join (left right : Split α)

namespace Split

def toList : Split α -> List α
  | idle => []
  | part items => items
  | join left right => left.toList ++ right.toList

def halving : Nat -> List α -> Split α
  | 0, items => part items
  | depth + 1, items =>
      let middle := items.length / 2
      join (halving depth (items.take middle)) (halving depth (items.drop middle))

theorem toList_halving (depth : Nat) (items : List α) :
    (halving depth items).toList = items := by
  induction depth generalizing items with
  | zero => rfl
  | succ depth ih =>
      simp [halving, toList, ih]

end Split

namespace Builder

theorem entries_foldl_put (pairs : List (K × V)) (builder : Builder K V) :
    (pairs.foldl (fun builder pair => builder.put pair.1 pair.2) builder).entries =
      builder.entries ++ (pairs.map Entry.ofPair).toArray := by
  induction pairs generalizing builder with
  | nil => simp
  | cons pair pairs ih =>
      rw [List.foldl_cons, ih, entries_put, ← Array.toList_inj]
      simp [Entry.ofPair]

def collect (hash : K -> UInt64) : Split (K × V) -> Builder K V
  | .idle => empty hash
  | .part pairs =>
      pairs.foldl (fun builder pair => builder.put pair.1 pair.2) (empty hash)
  | .join left right => (collect hash left).combine (collect hash right)

@[simp] theorem entries_collect (hash : K -> UInt64) (split : Split (K × V)) :
    (collect hash split).entries = (split.toList.map Entry.ofPair).toArray := by
  induction split with
  | idle => rfl
  | part pairs =>
      rw [collect, entries_foldl_put, entries_empty, Split.toList]
      exact Array.empty_append
  | join left right ihl ihr =>
      simp [collect, Split.toList, ihl, ihr]

def extendParallel (builder : Builder K V) (split : Split (K × V)) : Builder K V :=
  builder.combine (collect builder.hash split)

end Builder

namespace Map

def collect [BEq K] [Hashable K] (hash : K -> UInt64) (split : Split (K × V)) :
    Construction K V :=
  (Builder.collect hash split).buildKeepingLast

end Map
end SealedMap
