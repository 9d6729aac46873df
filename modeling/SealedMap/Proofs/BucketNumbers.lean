import SealedMap.Proofs.Chains
import SealedMap.Proofs.GuardedSizing

/-!
# Bucket numbers

Scrambling a hash loses nothing: the factor is odd, so it has an inverse among the
words, and every word is the scrambled one of some hash.  Hence a table has no
bucket that cannot be reached.  This and the sizes of tables are what an index relies
on: no step of the arithmetic leaves the words, and the numbers of the buckets are
the positions of its heads, all of them and no others.
-/

namespace SealedMap
namespace Index

/-! ## Undoing the scrambling -/

def goldenInverse : UInt64 := 0xF1DE83E19937733D

theorem goldenInverse_mul_goldenRatio : goldenInverse * goldenRatio = 1 := by
  decide

theorem scrambled_unscrambled (word : UInt64) :
    word * goldenInverse * goldenRatio = word := by
  rw [UInt64.mul_assoc, goldenInverse_mul_goldenRatio, UInt64.mul_one]

/-- A hash whose bucket in a table of `2 ^ e` buckets is `bucket`. -/
def hashInto (e bucket : Nat) : UInt64 :=
  (bucket * 2 ^ (64 - e)).toUInt64 * goldenInverse

theorem bucketOf_hashInto {e bucket : Nat} (hpos : 0 < e) (he : e ≤ 64)
    (hbucket : bucket < 2 ^ e) :
    bucketOf (bucketShift (2 ^ e)) (hashInto e bucket) = bucket := by
  have hplaces : 0 < 2 ^ (64 - e) := Nat.two_pow_pos _
  -- The word to be unscrambled has the bucket number on top and zeros below it.
  have hword : bucket * 2 ^ (64 - e) < 2 ^ 64 := by
    calc bucket * 2 ^ (64 - e) < 2 ^ e * 2 ^ (64 - e) :=
          Nat.mul_lt_mul_of_pos_right hbucket hplaces
      _ = 2 ^ 64 := by rw [← Nat.pow_add, Nat.add_sub_cancel' he]
  rw [bucketOf, hashInto, scrambled_unscrambled, UInt64.toNat_shiftRight,
    toNat_bucketShift_mod hpos, Nat.shiftRight_eq_div_pow, toNat_toUInt64 hword,
    Nat.mul_div_cancel _ hplaces]

/-! ## The arithmetic of a table -/

/--
For every number of entries that fits into memory, the doubling comes to an end and
no word overflows on the way.  The size it finds is the least power of two that is at
least that number and at least two, and it carries the load.  A scrambled hash is
shifted by one place at least and by sixty-three at most, and what is left is the
number of a bucket.  Each bucket is that of some hash, and each key of an index has
a head.
-/
theorem sizes_fit_and_buckets_are_reached {len : Nat} (hlen : len ≤ 2 ^ 59) :
    (forall size, SizedFor len.toUInt64 size ↔ size = bucketWord len) ∧
    (bucketWord len).toNat = bucketCount len ∧
    ((exists e, bucketCount len = 2 ^ e) ∧ max len 2 ≤ bucketCount len ∧
      forall e, max len 2 ≤ 2 ^ e -> bucketCount len ≤ 2 ^ e) ∧
    len * 5 ≤ bucketCount len * 6 ∧
    (bucketShift (bucketCount len)).toNat = 64 - (bucketCount len).log2 ∧
    1 ≤ 64 - (bucketCount len).log2 ∧ 64 - (bucketCount len).log2 ≤ 63 ∧
    (forall hash, bucketOf? (bucketWord len) hash =
      some (bucketOf (bucketShift (bucketCount len)) hash)) ∧
    (forall hash, bucketOf (bucketShift (bucketCount len)) hash =
      hash.toNat * 0x9E3779B97F4A7C15 % 2 ^ 64 / 2 ^ (64 - (bucketCount len).log2)) ∧
    (forall hash, bucketOf (bucketShift (bucketCount len)) hash < bucketCount len) ∧
    (forall bucket, bucket < bucketCount len ->
      exists hash, bucketOf (bucketShift (bucketCount len)) hash = bucket) ∧
    (forall (K : Type) (hash : K -> UInt64) (key : K),
      (Chained.empty hash len).bucket key < (Chained.empty hash len).heads.size) := by
  have hpos := leastExponent_pos len
  have hexp := leastExponent_le_of_fits hlen
  have hword := toNat_bucketWord hlen
  have hcount := bucketCount_eq len
  refine ⟨fun _ => sizedFor_iff hlen, hword, bucketCount_least len, load_bucketCount len,
    toNat_bucketShift _, ?_, ?_, ?_, ?_, ?_, ?_, ?_⟩
  · rw [log2_bucketCount]
    omega
  · rw [log2_bucketCount]
    omega
  · intro hash
    rw [hcount]
    exact bucketOf?_eq_some hpos (by omega) (hword.trans hcount) hash
  · intro hash
    rw [log2_bucketCount, hcount]
    exact bucketOf_eq hpos hash
  · intro hash
    rw [hcount]
    exact bucketOf_lt hpos hash
  · intro bucket hbucket
    rw [hcount] at hbucket ⊢
    exact ⟨hashInto (leastExponent len) bucket, bucketOf_hashInto hpos (by omega) hbucket⟩
  · intro K hash key
    exact (Chained.sized_empty hash len).bucket_lt key

theorem sizes_fit_and_buckets_are_reached_largest :
    2 ^ 59 ≤ 2 ^ 59 ∧ SizedFor (2 ^ 59).toUInt64 0x800000000000000 ∧
      (5 : UInt64).toNat = 64 - (2 ^ 59).log2 ∧
      exists hash, bucketOf 5 hash = 2 ^ 59 - 1 := by
  have hlen : 2 ^ 59 ≤ 2 ^ 59 := Nat.le_refl _
  have hword : bucketWord (2 ^ 59) = 0x800000000000000 := by decide +kernel
  have hcount : bucketCount (2 ^ 59) = 2 ^ 59 := by decide +kernel
  have hshift : bucketShift (2 ^ 59) = 5 := by decide +kernel
  rcases sizes_fit_and_buckets_are_reached hlen with
    ⟨hsize, _, _, _, hplaces, _, _, _, _, _, hreached, _⟩
  rw [hcount, hshift] at hplaces hreached
  exact ⟨hlen, (hsize _).mpr hword.symm, hplaces, hreached (2 ^ 59 - 1) (by decide)⟩

end Index
end SealedMap
