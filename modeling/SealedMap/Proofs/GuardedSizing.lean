import SealedMap.Proofs.Sizing

/-!
# Sizing with every word operation checked

Here a product or a shift that would lose bits of a word has no result at all, and
nothing limits the passes that double a size.  For every number of entries that
fits into memory the passes come to an end nevertheless, at the size that
`bucketWord` computes and at no other, and there is a bucket number for every hash.
-/

namespace SealedMap
namespace Index

/-! ## Checked words -/

def times? (a b : UInt64) : Option UInt64 :=
  if a.toNat * b.toNat < 2 ^ 64 then some (a * b) else none

def shiftLeft? (word : UInt64) (places : Nat) : Option UInt64 :=
  if places < 64 ∧ word.toNat * 2 ^ places < 2 ^ 64 then some (word <<< places.toUInt64)
  else none

def shiftRight? (word : UInt64) (places : Nat) : Option UInt64 :=
  if places < 64 then some (word >>> places.toUInt64) else none

theorem times?_eq_some {a b : UInt64} (h : a.toNat * b.toNat < 2 ^ 64) :
    times? a b = some (a * b) :=
  if_pos h

theorem shiftLeft?_eq_some {word : UInt64} {places : Nat} (hplaces : places < 64)
    (h : word.toNat * 2 ^ places < 2 ^ 64) :
    shiftLeft? word places = some (word <<< places.toUInt64) :=
  if_pos ⟨hplaces, h⟩

theorem shiftRight?_eq_some {places : Nat} (h : places < 64) (word : UInt64) :
    shiftRight? word places = some (word >>> places.toUInt64) :=
  if_pos h

/-! ## The size of a table -/

/--
One pass of the doubling.  A size is followed by the doubled one if more than six of
`len` entries would share five buckets, and is the last one otherwise.  A pass has
no result if a word overflows.
-/
def pass? (len size : UInt64) : Option (Option UInt64) := do
  let room <- times? size 6
  let load <- times? len 5
  if room < load then (shiftLeft? size 1).map some else some none

inductive Grows (len : UInt64) : UInt64 -> UInt64 -> Prop where
  | ended {size : UInt64} : pass? len size = some none -> Grows len size size
  | doubled {size next last : UInt64} :
      pass? len size = some (some next) -> Grows len next last -> Grows len size last

/-- The size of a table for `len` entries is found, and no word overflows on the way. -/
def SizedFor (len size : UInt64) : Prop :=
  exists least, shiftLeft? 1 (leastExponent len.toNat) = some least ∧ Grows len least size

section Passes

variable {len size first second : UInt64}

/-! ### One pass -/

theorem pass?_eq_some (hlen : len.toNat ≤ 2 ^ 59) (hsize : size.toNat ≤ 2 ^ 60) :
    pass? len size = some (if size * 6 < len * 5 then some (size <<< 1) else none) := by
  have hroom : times? size 6 = some (size * 6) :=
    times?_eq_some (show size.toNat * 6 < 2 ^ 64 by omega)
  have hload : times? len 5 = some (len * 5) :=
    times?_eq_some (show len.toNat * 5 < 2 ^ 64 by omega)
  have hdoubled : shiftLeft? size 1 = some (size <<< 1) :=
    shiftLeft?_eq_some (by omega) (by omega)
  rw [pass?, hroom, hload, hdoubled, Option.bind_eq_bind, Option.bind_some, Option.bind_some,
    Option.map_some, apply_ite some]

/-! ### All passes -/

theorem Grows.unique (h : Grows len size first) (hother : Grows len size second) :
    first = second := by
  induction h with
  | ended hpass =>
      cases hother with
      | ended _ => rfl
      | doubled hdoubled _ =>
          rw [hpass] at hdoubled
          cases hdoubled
  | doubled hpass _ ih =>
      cases hother with
      | ended hended =>
          rw [hpass] at hended
          cases hended
      | doubled hdoubled hrest =>
          rw [hpass] at hdoubled
          cases hdoubled
          exact ih hrest

/--
If `fuel` doublings make room enough, the passes come to an end without losing bits,
and they end where the doubling that is bounded does.
-/
theorem grows_growBucketWords (hlen : len.toNat ≤ 2 ^ 59) {fuel : Nat}
    (hsize : size.toNat ≤ 2 ^ 60) (hfuel : len.toNat * 5 ≤ size.toNat * 6 * 2 ^ fuel) :
    Grows len size (growBucketWords len fuel size) := by
  -- Each doubling uses up one of those that the bound still allows for.
  induction fuel generalizing size with
  | zero =>
      have hcarried : ¬ size * 6 < len * 5 := by
        rw [word_load_lt_iff hlen hsize]
        omega
      apply Grows.ended
      rw [pass?_eq_some hlen hsize, if_neg hcarried]
  | succ fuel ih =>
      have hpass := pass?_eq_some hlen hsize
      rw [growBucketWords]
      split
      next hgrow =>
        rw [if_pos hgrow] at hpass
        have hload := (word_load_lt_iff hlen hsize).mp hgrow
        have hnext : len.toNat * 5 ≤ (size <<< 1).toNat * 6 * 2 ^ fuel := by
          rw [toNat_doubled hsize, room_doubled]
          exact hfuel
        exact .doubled hpass (ih (toNat_doubled_le hlen hsize hload) hnext)
      next hcarried =>
        rw [if_neg hcarried] at hpass
        exact .ended hpass

theorem sizedFor_bucketWord {len : Nat} (hlen : len ≤ 2 ^ 59) :
    SizedFor len.toUInt64 (bucketWord len) := by
  have hword : len.toUInt64.toNat = len := toNat_toUInt64 (by omega)
  have hleast := toNat_leastWord hlen
  have hlow := le_two_pow_leastExponent len
  have hhigh := two_pow_leastExponent_le hlen
  have hexp := leastExponent_le_of_fits hlen
  have hstart : shiftLeft? 1 (leastExponent len) =
      some (1 <<< (leastExponent len).toUInt64) :=
    shiftLeft?_eq_some (by omega) (show 1 * 2 ^ leastExponent len < 2 ^ 64 by omega)
  rw [SizedFor, hword]
  exact ⟨_, hstart, grows_growBucketWords (by omega) (by omega) (by omega)⟩

theorem sizedFor_iff {len : Nat} (hlen : len ≤ 2 ^ 59) :
    SizedFor len.toUInt64 size ↔ size = bucketWord len := by
  constructor
  · rintro ⟨least, hleast, hgrows⟩
    rcases sizedFor_bucketWord hlen with ⟨start, hstart, hothers⟩
    rw [hleast] at hstart
    cases hstart
    exact hgrows.unique hothers
  · rintro rfl
    exact sizedFor_bucketWord hlen

end Passes

/-! ## The number of a bucket -/

def trailingZeros (word : UInt64) : Nat :=
  ((List.range 64).find? word.toNat.testBit).getD 64

def bucketOf? (size hash : UInt64) : Option Nat :=
  (shiftRight? (hash * goldenRatio) (64 - trailingZeros size)).map UInt64.toNat

theorem trailingZeros_eq {word : UInt64} {e : Nat} (he : e < 64)
    (hword : word.toNat = 2 ^ e) :
    trailingZeros word = e := by
  have hfound : (List.range 64).find? word.toNat.testBit = some e := by
    rw [hword, List.find?_range_eq_some]
    refine ⟨Nat.testBit_two_pow_self, List.mem_range.mpr he, ?_⟩
    intro place hplace
    rw [Nat.testBit_two_pow_of_ne (Nat.ne_of_gt hplace)]
    rfl
  rw [trailingZeros, hfound, Option.getD_some]

theorem bucketOf?_eq_some {size : UInt64} {e : Nat} (hpos : 0 < e) (he : e < 64)
    (hsize : size.toNat = 2 ^ e) (hash : UInt64) :
    bucketOf? size hash = some (bucketOf (bucketShift (2 ^ e)) hash) := by
  rw [bucketOf?, trailingZeros_eq he hsize, shiftRight?_eq_some (by omega), Option.map_some,
    bucketOf, bucketShift, Nat.log2_two_pow]

end Index
end SealedMap
