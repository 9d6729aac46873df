import Mathlib.Algebra.Group.Nat.Defs
import SealedMap.Index.Sizing

/-!
# Sizes of bucket tables

The size of a table is a power of two, the least one that is large enough, and it
carries the load, because the doubling ends at no other size.  A bucket number is
below the size of the table whatever the hash, and for every table that fits into
memory words compute the same size as natural numbers.
-/

namespace SealedMap
namespace Index

/-! ## The least power of two -/

theorem le_two_pow_leastExponent (len : Nat) :
    max len 2 ≤ 2 ^ leastExponent len := by
  have h : max len 2 - 1 < 2 ^ leastExponent len := Nat.lt_log2_self
  omega

theorem leastExponent_le {len k : Nat} (h : max len 2 ≤ 2 ^ k) :
    leastExponent len ≤ k := by
  have hne : max len 2 - 1 ≠ 0 := by omega
  exact (Nat.log2_lt hne).mpr (by omega)

theorem leastExponent_pos (len : Nat) :
    0 < leastExponent len :=
  Nat.succ_pos _

theorem growBuckets_of_le {len size : Nat} (h : len ≤ size) (fuel : Nat) :
    growBuckets len fuel size = size := by
  cases fuel with
  | zero => rfl
  | succ fuel =>
      -- Six fifths of the size are room for as many entries as there are buckets.
      rw [growBuckets, if_neg]
      omega

theorem bucketCount_eq (len : Nat) :
    bucketCount len = 2 ^ leastExponent len := by
  have h := le_two_pow_leastExponent len
  rw [bucketCount, Nat.one_shiftLeft]
  exact growBuckets_of_le (by omega) 64

theorem log2_bucketCount (len : Nat) :
    (bucketCount len).log2 = leastExponent len := by
  rw [bucketCount_eq, Nat.log2_two_pow]

theorem le_bucketCount (len : Nat) :
    max len 2 ≤ bucketCount len := by
  rw [bucketCount_eq]
  exact le_two_pow_leastExponent len

theorem bucketCount_le_two_pow {len k : Nat} (h : max len 2 ≤ 2 ^ k) :
    bucketCount len ≤ 2 ^ k := by
  rw [bucketCount_eq]
  exact Nat.pow_le_pow_right (by omega) (leastExponent_le h)

theorem bucketCount_least (len : Nat) :
    (exists e, bucketCount len = 2 ^ e) ∧ max len 2 ≤ bucketCount len ∧
      forall e, max len 2 ≤ 2 ^ e -> bucketCount len ≤ 2 ^ e :=
  ⟨⟨_, bucketCount_eq len⟩, le_bucketCount len, fun _ => bucketCount_le_two_pow⟩

/-! ## The load factor -/

theorem room_doubled (size fuel : Nat) :
    size * 2 * 6 * 2 ^ fuel = size * 6 * 2 ^ (fuel + 1) := by
  rw [Nat.pow_succ', ← Nat.mul_assoc, Nat.mul_right_comm size 6 2]

theorem load_growBuckets {len fuel size : Nat} (h : len * 5 ≤ size * 6 * 2 ^ fuel) :
    len * 5 ≤ growBuckets len fuel size * 6 := by
  induction fuel generalizing size with
  | zero =>
      rw [Nat.pow_zero, Nat.mul_one] at h
      exact h
  | succ fuel ih =>
      rw [growBuckets]
      split
      next =>
        apply ih
        rw [room_doubled]
        exact h
      next hload => exact Nat.le_of_not_lt hload

theorem load_bucketCount (len : Nat) :
    len * 5 ≤ bucketCount len * 6 := by
  have hstart := le_two_pow_leastExponent len
  have hfuel : 2 ^ leastExponent len * 6 ≤ 2 ^ leastExponent len * 6 * 2 ^ 64 :=
    Nat.le_mul_of_pos_right _ (Nat.two_pow_pos 64)
  rw [bucketCount, Nat.one_shiftLeft]
  apply load_growBuckets
  omega

/-! ## Bucket numbers -/

theorem toNat_toUInt64 {n : Nat} (h : n < 2 ^ 64) :
    n.toUInt64.toNat = n :=
  UInt64.toNat_ofNat_of_lt' h

theorem toNat_bucketShift (size : Nat) :
    (bucketShift size).toNat = 64 - size.log2 :=
  toNat_toUInt64 (by omega)

theorem toNat_bucketShift_mod {e : Nat} (he : 0 < e) :
    (bucketShift (2 ^ e)).toNat % 64 = 64 - e := by
  rw [toNat_bucketShift, Nat.log2_two_pow]
  omega

theorem bucketOf_eq {e : Nat} (he : 0 < e) (hash : UInt64) :
    bucketOf (bucketShift (2 ^ e)) hash =
      hash.toNat * goldenRatio.toNat % 2 ^ 64 / 2 ^ (64 - e) := by
  rw [bucketOf, UInt64.toNat_shiftRight, toNat_bucketShift_mod he,
    Nat.shiftRight_eq_div_pow, UInt64.toNat_mul]

theorem bucketOf_lt {e : Nat} (he : 0 < e) (hash : UInt64) :
    bucketOf (bucketShift (2 ^ e)) hash < 2 ^ e := by
  have hword : hash.toNat * goldenRatio.toNat % 2 ^ 64 < 2 ^ 64 :=
    Nat.mod_lt _ (Nat.two_pow_pos 64)
  rw [bucketOf_eq he, Nat.div_lt_iff_lt_mul (Nat.two_pow_pos _), ← Nat.pow_add]
  exact Nat.lt_of_lt_of_le hword (Nat.pow_le_pow_right (by omega) (by omega))

/-! ## Sizes in words -/

theorem toNat_one_shiftLeft {e : Nat} (he : e < 64) :
    ((1 : UInt64) <<< e.toUInt64).toNat = 2 ^ e := by
  have hone : (1 : UInt64).toNat = 1 := rfl
  have hlt : 2 ^ e < 2 ^ 64 := Nat.pow_lt_pow_right (by omega) he
  rw [UInt64.toNat_shiftLeft, toNat_toUInt64 (by omega), Nat.mod_eq_of_lt he, hone,
    Nat.shiftLeft_eq, Nat.one_mul, Nat.mod_eq_of_lt hlt]

theorem toNat_doubled {size : UInt64} (h : size.toNat ≤ 2 ^ 60) :
    (size <<< 1).toNat = size.toNat * 2 := by
  have hone : (1 : UInt64).toNat % 64 = 1 := rfl
  rw [UInt64.toNat_shiftLeft, hone, Nat.shiftLeft_eq, Nat.pow_one]
  omega

theorem word_load_lt_iff {len size : UInt64} (hlen : len.toNat ≤ 2 ^ 59)
    (hsize : size.toNat ≤ 2 ^ 60) :
    size * 6 < len * 5 ↔ size.toNat * 6 < len.toNat * 5 := by
  have hsix : (6 : UInt64).toNat = 6 := rfl
  have hfive : (5 : UInt64).toNat = 5 := rfl
  rw [UInt64.lt_iff_toNat_lt, UInt64.toNat_mul, UInt64.toNat_mul, hsix, hfive,
    Nat.mod_eq_of_lt (by omega), Nat.mod_eq_of_lt (by omega)]

theorem toNat_doubled_le {len size : UInt64} (hlen : len.toNat ≤ 2 ^ 59)
    (hsize : size.toNat ≤ 2 ^ 60) (hload : size.toNat * 6 < len.toNat * 5) :
    (size <<< 1).toNat ≤ 2 ^ 60 := by
  rw [toNat_doubled hsize]
  omega

theorem toNat_growBucketWords {len : UInt64} (hlen : len.toNat ≤ 2 ^ 59) {fuel : Nat}
    {size : UInt64} (hsize : size.toNat ≤ 2 ^ 60) :
    (growBucketWords len fuel size).toNat = growBuckets len.toNat fuel size.toNat := by
  induction fuel generalizing size with
  | zero => rfl
  | succ fuel ih =>
      rw [growBucketWords, growBuckets]
      -- While the load is too high the size can be doubled without losing bits.
      by_cases hload : size.toNat * 6 < len.toNat * 5
      · rw [if_pos ((word_load_lt_iff hlen hsize).mpr hload), if_pos hload,
          ih (toNat_doubled_le hlen hsize hload), toNat_doubled hsize]
      · rw [if_neg fun h => hload ((word_load_lt_iff hlen hsize).mp h), if_neg hload]

theorem leastExponent_le_of_fits {len : Nat} (hlen : len ≤ 2 ^ 59) :
    leastExponent len ≤ 59 :=
  leastExponent_le (by omega)

theorem two_pow_leastExponent_le {len : Nat} (hlen : len ≤ 2 ^ 59) :
    2 ^ leastExponent len ≤ 2 ^ 59 :=
  Nat.pow_le_pow_right (by omega) (leastExponent_le_of_fits hlen)

theorem toNat_leastWord {len : Nat} (hlen : len ≤ 2 ^ 59) :
    ((1 : UInt64) <<< (leastExponent len).toUInt64).toNat = 2 ^ leastExponent len :=
  toNat_one_shiftLeft (Nat.lt_of_le_of_lt (leastExponent_le_of_fits hlen) (by omega))

/-- Words compute the size of every table that fits into memory. -/
theorem toNat_bucketWord {len : Nat} (hlen : len ≤ 2 ^ 59) :
    (bucketWord len).toNat = bucketCount len := by
  have hword : len.toUInt64.toNat = len := toNat_toUInt64 (by omega)
  have hleast := toNat_leastWord hlen
  have hle := two_pow_leastExponent_le hlen
  rw [bucketWord, toNat_growBucketWords (by omega) (by omega), hleast, hword, bucketCount,
    Nat.one_shiftLeft]

end Index
end SealedMap
