import SealedMap.Index.Placing
import SealedMap.Index.Sizing

/-!
# The chained index

Buckets of a power-of-two table hold the newest position of their chain, and
each position links to the one placed before it in the same bucket.  A key is
looked for along the chain of its bucket, and a chain is never longer than the
table's limit, whatever the hash function does.
-/

namespace SealedMap
namespace Index

structure Chained (K : Type) where
  hash : K -> UInt64
  /-- The newest position of each bucket's chain. -/
  heads : Array (Option Nat)
  /-- The position that follows each position in its chain. -/
  links : Array (Option Nat)
  shift : UInt64

namespace Chained

def empty (hash : K -> UInt64) (len : Nat) : Chained K where
  hash := hash
  heads := Array.replicate (bucketCount len) none
  links := Array.replicate len none
  shift := bucketShift (bucketCount len)

def limit (index : Chained K) : Nat :=
  chainLimit index.heads.size

def bucket (index : Chained K) (key : K) : Nat :=
  bucketOf index.shift (index.hash key)

def walk (links : Array (Option Nat)) : Nat -> Option Nat -> List Nat
  | 0, _ => []
  | _ + 1, none => []
  | fuel + 1, some pos => pos :: walk links fuel links[pos]?.join

/--
The positions in a bucket, newest first.  A chain visits each position at most
once, so there are no more links to follow than positions.
-/
def chain (index : Chained K) (bucket : Nat) : List Nat :=
  walk index.links index.links.size index.heads[bucket]?.join

def position? [BEq K] (index : Chained K) (entries : Array (Entry K V))
    (key : K) : Option Nat :=
  (index.chain (index.bucket key)).find? (holdsAt entries key)

def probe [BEq K] (index : Chained K) (entries : Array (Entry K V)) (key : K) : Probe :=
  let chain := index.chain (index.bucket key)
  match chain.find? (holdsAt entries key) with
  | some first => .repeated first
  | none => if index.limit ≤ chain.length then .full else .vacant

def insert (index : Chained K) (pos : Nat) (key : K) : Chained K :=
  let bucket := bucketOf index.shift (index.hash key)
  let head := index.heads[bucket]?.join
  { index with
    heads := index.heads.setIfInBounds bucket (some pos)
    links := index.links.setIfInBounds pos head }

def renumber (index : Chained K) (numbers : Array (Option Nat)) : Chained K :=
  let move (pos : Option Nat) : Option Nat := pos.bind fun old => numbers[old]?.join
  { index with
    heads := index.heads.map move
    links := (index.links.zip numbers).filterMap fun (link, number) =>
      number.map fun _ => move link }

instance [BEq K] : Placing (Chained K) K where
  probe := probe
  insert := insert
  renumber := renumber

theorem probe_eq_repeated_iff [BEq K] (index : Chained K)
    (entries : Array (Entry K V)) (key : K) (first : Nat) :
    index.probe entries key = .repeated first ↔
      index.position? entries key = some first := by
  unfold probe position?
  dsimp only
  split
  next found h => simp [h]
  next h => split <;> simp [h]

end Chained
end Index
end SealedMap
