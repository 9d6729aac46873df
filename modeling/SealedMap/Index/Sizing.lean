/-!
# Sizing a bucket table

A table for `len` entries has the least power of two of buckets that is at
least `len` and at least two, doubled while more than six entries would share
five buckets.  Hashes are words of 64 bits, and so is the arithmetic that turns
them into bucket numbers.  Sizes are natural numbers; `bucketWord` computes the
same size in words.
-/

namespace SealedMap
namespace Index

def goldenRatio : UInt64 := 0x9E3779B97F4A7C15

def baseChainLimit : Nat := 8

def doublingsPerStep : Nat := 4

def leastExponent (len : Nat) : Nat :=
  (max len 2 - 1).log2 + 1

/--
Doubles `size` while more than six of `len` entries would share five buckets.
The first argument bounds the doublings.
-/
def growBuckets (len : Nat) : Nat -> Nat -> Nat
  | 0, size => size
  | fuel + 1, size =>
      if size * 6 < len * 5 then growBuckets len fuel (size * 2) else size

def bucketCount (len : Nat) : Nat :=
  growBuckets len 64 (1 <<< leastExponent len)

def growBucketWords (len : UInt64) : Nat -> UInt64 -> UInt64
  | 0, size => size
  | fuel + 1, size =>
      if size * 6 < len * 5 then growBucketWords len fuel (size <<< 1) else size

def bucketWord (len : Nat) : UInt64 :=
  growBucketWords len.toUInt64 64 (1 <<< (leastExponent len).toUInt64)

/--
The most keys that a chain of a table of `size` buckets holds.  The longest of
many chains grows with their number even under a good hash, and so does the
limit.
-/
def chainLimit (size : Nat) : Nat :=
  baseChainLimit + size.log2 / doublingsPerStep

def bucketShift (size : Nat) : UInt64 :=
  (64 - size.log2).toUInt64

/-- The top bits of the scrambled hash, so that every bit of the hash has a say. -/
def bucketOf (shift hash : UInt64) : Nat :=
  ((hash * goldenRatio) >>> shift).toNat

end Index
end SealedMap
