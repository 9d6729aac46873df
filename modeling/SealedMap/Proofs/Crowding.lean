import SealedMap.Proofs.Chains
import SealedMap.Proofs.Deduplication

/-!
# When a chain overflows

Placing looks at the chains as they have grown so far.  What it decides can be
counted on the keys alone: it overflows exactly if, among the keys it claims,
some bucket has more different ones than a chain of the table may hold.
-/

namespace SealedMap
namespace Index

variable {K V : Type}

/-! ## Crowded buckets -/

def bucketFor (hash : K -> UInt64) (len : Nat) (key : K) : Nat :=
  bucketOf (bucketShift (bucketCount len)) (hash key)

def bucketKeys (hash : K -> UInt64) (len bucket : Nat) (keys : List K) : List K :=
  keys.filter fun key => bucketFor hash len key == bucket

theorem mem_bucketKeys_iff {hash : K -> UInt64} {len bucket : Nat} {keys : List K} {key : K} :
    key ∈ bucketKeys hash len bucket keys ↔
      key ∈ keys ∧ bucketFor hash len key = bucket := by
  unfold bucketKeys
  rw [List.mem_filter, beq_iff_eq]

theorem Chained.SameTable.bucket_eq_bucketFor {hash : K -> UInt64}
    {index : Chained K} {len : Nat}
    (h : Chained.SameTable index (Chained.empty hash len)) (key : K) :
    index.bucket key = bucketFor hash len key :=
  h.bucket_eq key

theorem Chained.limit_empty (hash : K -> UInt64) (len : Nat) :
    (Chained.empty hash len).limit = chainLimit (bucketCount len) := by
  rw [Chained.limit, Chained.empty, Array.size_replicate]

theorem Chained.SameTable.limit_eq_chainLimit {hash : K -> UInt64}
    {index : Chained K} {len : Nat}
    (h : Chained.SameTable index (Chained.empty hash len)) :
    index.limit = chainLimit (bucketCount len) := by
  rw [h.limit_eq, Chained.limit_empty]

variable [BEq K]

/-- Some bucket of a table for `len` entries gets more different keys than a chain may hold. -/
def Crowded (hash : K -> UInt64) (len : Nat) (keys : List K) : Prop :=
  exists bucket,
    chainLimit (bucketCount len) < distinctCount (bucketKeys hash len bucket keys)

theorem crowded_iff_any {hash : K -> UInt64} {len : Nat} {keys : List K} :
    (keys.any fun key => decide (chainLimit (bucketCount len) <
        distinctCount (bucketKeys hash len (bucketFor hash len key) keys))) = true ↔
      Crowded hash len keys := by
  rw [List.any_eq_true]
  constructor
  · intro h
    rcases h with ⟨key, _, hlt⟩
    exact ⟨bucketFor hash len key, of_decide_eq_true hlt⟩
  · intro h
    rcases h with ⟨bucket, hlt⟩
    cases hkeys : bucketKeys hash len bucket keys with
    | nil =>
        rw [hkeys] at hlt
        exact absurd hlt (Nat.not_lt_zero _)
    | cons key rest =>
        have hmem : key ∈ bucketKeys hash len bucket keys := by
          rw [hkeys]
          exact List.mem_cons_self
        rcases mem_bucketKeys_iff.mp hmem with ⟨hkey, hbucket⟩
        rw [← hbucket] at hlt
        exact ⟨key, hkey, decide_eq_true hlt⟩

instance (hash : K -> UInt64) (len : Nat) (keys : List K) :
    Decidable (Crowded hash len keys) :=
  decidable_of_iff _ crowded_iff_any

section Respectful

variable {hash : K -> UInt64} (hhash : forall a b, (a == b) = true -> hash a = hash b)

include hhash

theorem covers_bucketKeys {keys others : List K} (h : Covers keys others)
    (len bucket : Nat) :
    Covers (bucketKeys hash len bucket keys) (bucketKeys hash len bucket others) := by
  intro other hother
  rcases mem_bucketKeys_iff.mp hother with ⟨hmem, hbucket⟩
  rcases h other hmem with ⟨key, hkey, heq⟩
  refine ⟨key, mem_bucketKeys_iff.mpr ⟨hkey, ?_⟩, heq⟩
  rw [← hbucket, bucketFor, bucketFor, hhash key other heq]

variable [EquivBEq K]

theorem Crowded.mono {len : Nat} {keys others : List K} (hcrowded : Crowded hash len others)
    (h : Covers keys others) :
    Crowded hash len keys := by
  rcases hcrowded with ⟨bucket, hlt⟩
  have hle := distinctCount_le (covers_bucketKeys hhash h len bucket)
  exact ⟨bucket, Nat.lt_of_lt_of_le hlt hle⟩

theorem crowded_congr {len : Nat} {keys others : List K} (hleft : Covers keys others)
    (hright : Covers others keys) :
    Crowded hash len keys ↔ Crowded hash len others :=
  ⟨fun h => h.mono hhash hright, fun h => h.mono hhash hleft⟩

end Respectful

theorem Crowded.lt_distinctCount [EquivBEq K] {hash : K -> UInt64} {len : Nat}
    {keys : List K} (h : Crowded hash len keys) :
    chainLimit (bucketCount len) < distinctCount keys := by
  rcases h with ⟨bucket, hlt⟩
  have hcovers : Covers keys (bucketKeys hash len bucket keys) :=
    Covers.of_subset fun key hkey => (mem_bucketKeys_iff.mp hkey).1
  exact Nat.lt_of_lt_of_le hlt (distinctCount_le hcovers)

/-! ## Lengths of chains -/

theorem length_eq_distinctCount_bucketKeys [EquivBEq K] {hash : K -> UInt64}
    (hhash : forall a b, (a == b) = true -> hash a = hash b) {entries : Array (Entry K V)}
    {positions : List Nat} {len bucket pos : Nat} (hnodup : positions.Nodup)
    (hmem : forall p, p ∈ positions ↔ (p < pos ∧ IsFirst entries p) ∧
      exists entry, entries[p]? = some entry ∧ bucketFor hash len entry.key = bucket) :
    positions.length =
      distinctCount (bucketKeys hash len bucket ((keysOf entries).take pos)) := by
  apply length_eq_distinctCount hnodup
  · intro p hp
    exact ((hmem p).mp hp).1.2
  · intro key hkey
    rcases mem_bucketKeys_iff.mp hkey with ⟨htake, hbucket⟩
    rcases mem_take_keysOf_iff.mp htake with ⟨p, entry, hlt, hentry, rfl⟩
    rcases exists_firstPosition?_le hentry with ⟨first, hfirst, hle⟩
    have hholds := (firstPosition?_eq_some_iff.mp hfirst).1
    rcases holdsAt_iff.mp hholds with ⟨other, hother, heq⟩
    have hisFirst := isFirst_of_firstPosition? hfirst
    have hbucket' : bucketFor hash len other.key = bucket := by
      rw [← hbucket, bucketFor, bucketFor, hhash other.key entry.key heq]
    have hposition := (hmem first).mpr
      ⟨⟨Nat.lt_of_le_of_lt hle hlt, hisFirst⟩, other, hother, hbucket'⟩
    exact ⟨other.key, mem_keysAt_iff.mpr ⟨first, other, hposition, hother, rfl⟩, heq⟩
  · apply Covers.of_subset
    intro key hkey
    rcases mem_keysAt_iff.mp hkey with ⟨p, entry, hp, hentry, rfl⟩
    rcases (hmem p).mp hp with ⟨⟨hlt, _⟩, other, hother, hbucket⟩
    rw [hentry] at hother
    cases hother
    exact mem_bucketKeys_iff.mpr
      ⟨mem_take_keysOf_iff.mpr ⟨p, entry, hlt, hentry, rfl⟩, hbucket⟩

section Placing

variable [EquivBEq K] {hash : K -> UInt64}
  (hhash : forall a b, (a == b) = true -> hash a = hash b)
  {entries : Array (Entry K V)} {pos : Nat} {index : Chained K} {indexed : List Nat}
  {repeats : List Repeat}
  (h : Claims entries (Chained.empty hash entries.size) pos index indexed repeats)

include hhash h

theorem mem_chain_iff_isFirst {bucket p : Nat} :
    p ∈ index.chain bucket ↔ (p < pos ∧ IsFirst entries p) ∧
      exists entry, entries[p]? = some entry ∧
        bucketFor hash entries.size entry.key = bucket := by
  rcases Chained.sound_of_claims h with ⟨htable, hsound, _⟩
  have hfirsts := (h.firsts (Chained.answers_of_claims hhash)).1
  rw [hsound.mem_chain_iff, hfirsts]
  simp only [Chained.Belongs, htable.bucket_eq_bucketFor]

theorem length_chain_eq (bucket : Nat) :
    (index.chain bucket).length =
      distinctCount (bucketKeys hash entries.size bucket ((keysOf entries).take pos)) := by
  rcases Chained.sound_of_claims h with ⟨_, hsound, _⟩
  apply length_eq_distinctCount_bucketKeys hhash
  · exact (hsound.descending bucket).imp fun hgt => Nat.ne_of_gt hgt
  · intro p
    exact mem_chain_iff_isFirst hhash h

theorem not_crowded_of_claims :
    ¬ Crowded hash entries.size ((keysOf entries).take pos) := by
  intro hcrowded
  rcases hcrowded with ⟨bucket, hlt⟩
  rcases Chained.sound_of_claims h with ⟨htable, hsound, _⟩
  have hle := hsound.length_le bucket
  rw [length_chain_eq hhash h, htable.limit_eq_chainLimit] at hle
  exact Nat.not_lt_of_le hle hlt

theorem crowded_of_full {entry : Entry K V} (hentry : entries[pos]? = some entry)
    (hfull : Placing.probe index entries entry.key = .full) :
    IsFirst entries pos ∧
      Crowded hash entries.size ((keysOf entries).take (pos + 1)) := by
  rcases Chained.sound_of_claims h with ⟨htable, hsound, hnew⟩
  have hanswers := Chained.answers_of_claims hhash h
  have hfirsts := (h.firsts (Chained.answers_of_claims hhash)).1
  have hfirst : IsFirst entries pos :=
    isFirst_of_not_repeated hanswers hfirsts hentry (by simp [hfull])
  have hlimit := Chained.probe_eq_full hfull
  have hbucket := htable.bucket_eq_bucketFor entry.key
  have hmem : forall p, p ∈ index.chain (index.bucket entry.key) ↔
      (p < pos ∧ IsFirst entries p) ∧
        exists other, entries[p]? = some other ∧
          bucketFor hash entries.size other.key = index.bucket entry.key :=
    fun p => mem_chain_iff_isFirst hhash h
  refine ⟨hfirst, index.bucket entry.key, ?_⟩
  -- With the key that found no room, the full chain counts one key more.
  have hlength : (pos :: index.chain (index.bucket entry.key)).length =
      distinctCount (bucketKeys hash entries.size (index.bucket entry.key)
        ((keysOf entries).take (pos + 1))) := by
    apply length_eq_distinctCount_bucketKeys hhash
    · apply List.nodup_cons.mpr
      refine ⟨?_, (hsound.descending _).imp fun hgt => Nat.ne_of_gt hgt⟩
      intro hpos
      exact Nat.lt_irrefl pos ((hmem pos).mp hpos).1.1
    · intro p
      rw [and_assoc]
      apply mem_cons_iff_lt_succ
      · intro p
        rw [hmem, and_assoc]
      · exact ⟨hfirst, entry, hentry, hbucket.symm⟩
  rw [← hlength, List.length_cons, ← htable.limit_eq_chainLimit]
  exact Nat.lt_succ_of_le hlimit

end Placing

/-! ## Whole placements -/

/-- The keys claimed unless a chain overflows: with `reject`, those before the first repeat. -/
def claimedKeys (reject : Bool) (entries : Array (Entry K V)) : List K :=
  match reject, (repeatsOf entries).head? with
  | true, some r => (keysOf entries).take r.later
  | _, _ => keysOf entries

theorem claimedKeys_of_no_repeats {entries : Array (Entry K V)} (h : repeatsOf entries = [])
    (reject : Bool) :
    claimedKeys reject entries = keysOf entries := by
  unfold claimedKeys
  rw [h]
  cases reject <;> rfl

theorem distinctCount_claimedKeys_le [EquivBEq K] (reject : Bool)
    (entries : Array (Entry K V)) :
    distinctCount (claimedKeys reject entries) ≤ distinctCount (keysOf entries) := by
  apply distinctCount_le
  apply Covers.of_subset
  intro key hkey
  unfold claimedKeys at hkey
  split at hkey
  next => exact List.mem_of_mem_take hkey
  next => exact hkey

theorem covers_claimedKeys [EquivBEq K] {entries : Array (Entry K V)} {pos : Nat}
    {reject : Bool} (hfirst : IsFirst entries pos)
    (hbelow : reject = true -> repeatsBelow entries pos = []) :
    Covers (claimedKeys reject entries) ((keysOf entries).take (pos + 1)) := by
  apply Covers.of_subset
  intro key hkey
  have hall : key ∈ keysOf entries := List.mem_of_mem_take hkey
  unfold claimedKeys
  split
  next r hhead =>
    rcases mem_take_keysOf_iff.mp hkey with ⟨p, entry, hlt, hentry, heq⟩
    have hr := mem_repeatsOf_iff.mp (List.mem_of_mem_head? hhead)
    have hlater : pos < r.later := by
      apply Nat.lt_of_not_le
      intro hle
      rcases Nat.lt_or_eq_of_le hle with hlt | heq
      · have hmem := mem_repeatsBelow_iff.mpr ⟨hlt, hr⟩
        rw [hbelow rfl] at hmem
        cases hmem
      · rw [heq, (repeatAt?_eq_none_iff hfirst.lt_size).mpr hfirst] at hr
        cases hr
    exact mem_take_keysOf_iff.mpr ⟨p, entry, Nat.lt_of_lt_of_le hlt hlater, hentry, heq⟩
  next => exact hall

/-- Placing overflows exactly if the keys it claims crowd a bucket. -/
theorem place_eq_overflow_iff [EquivBEq K] {hash : K -> UInt64}
    (hhash : forall a b, (a == b) = true -> hash a = hash b)
    {entries : Array (Entry K V)} {reject : Bool} :
    place reject entries (Chained.empty hash entries.size) = .overflow ↔
      Crowded hash entries.size (claimedKeys reject entries) := by
  have hjust := place_justified entries (Chained.empty hash entries.size) reject
  cases hplace : place reject entries (Chained.empty hash entries.size) with
  | done index repeats =>
      rw [hplace] at hjust
      rcases hjust with ⟨hreject, indexed, hclaims⟩
      rcases repeats_of_place_done (Chained.answers_of_claims hhash) hplace with ⟨hrepeats, _⟩
      have hkeys : claimedKeys reject entries = (keysOf entries).take entries.size := by
        rw [← length_keysOf, List.take_length]
        cases reject with
        | false => rfl
        | true => exact claimedKeys_of_no_repeats (hrepeats.symm.trans (hreject rfl)) true
      rw [hkeys]
      exact iff_of_false nofun (not_crowded_of_claims hhash hclaims)
  | rejected first second =>
      rw [hplace] at hjust
      rcases hjust with ⟨_, index, indexed, entry, hclaims, _, _⟩
      rcases repeats_of_place_rejected (Chained.answers_of_claims hhash) hplace with
        ⟨hreject, hhead⟩
      have hkeys : claimedKeys reject entries = (keysOf entries).take second := by
        unfold claimedKeys
        rw [hreject, hhead]
      rw [hkeys]
      exact iff_of_false nofun (not_crowded_of_claims hhash hclaims)
  | overflow =>
      rw [hplace] at hjust
      rcases hjust with ⟨pos, index, indexed, repeats, entry, hclaims, hentry, hfull, hreject⟩
      rcases crowded_of_full hhash hclaims hentry hfull with ⟨hfirst, hcrowded⟩
      have hrepeats := (hclaims.firsts (Chained.answers_of_claims hhash)).2
      have hcovers : Covers (claimedKeys reject entries) ((keysOf entries).take (pos + 1)) := by
        apply covers_claimedKeys hfirst
        intro h
        rw [← hrepeats, hreject h, List.reverse_nil]
      exact iff_of_true rfl (hcrowded.mono hhash hcovers)

end Index
end SealedMap
