import SealedMap.Index.Chained
import SealedMap.Proofs.Placement
import SealedMap.Proofs.Sizing

/-!
# Chains of a chained index

`Sound` is what every chained index keeps while keys are claimed: from each
bucket's head the links run through strictly decreasing positions to an end,
the chain of a bucket holds exactly the indexed positions whose keys belong
there, no two of them with equal keys, and it is no longer than the limit.
Positions decrease because a new one is put in front of its chain and is newer
than all others; so no chain can run in a circle or share a tail.
-/

namespace SealedMap
namespace Index
namespace Chained

variable {K V : Type}

/-! ## Following links -/

/-- The links lead from a cursor through these positions to an end. -/
inductive Linked (links : Array (Option Nat)) : Option Nat -> List Nat -> Prop where
  | ended : Linked links none []
  | next {pos : Nat} {link : Option Nat} {rest : List Nat} :
      links[pos]? = some link -> Linked links link rest ->
      Linked links (some pos) (pos :: rest)

theorem Linked.lt_size {links : Array (Option Nat)} {head : Option Nat}
    {chain : List Nat} (h : Linked links head chain) :
    forall pos, pos ∈ chain -> pos < links.size := by
  induction h with
  | ended =>
      intro pos hpos
      cases hpos
  | next hlink _ ih =>
      intro pos hpos
      rcases List.mem_cons.mp hpos with rfl | hpos
      · exact (Array.getElem?_eq_some_iff.mp hlink).1
      · exact ih pos hpos

theorem Linked.congr {links others : Array (Option Nat)} {head : Option Nat}
    {chain : List Nat} (h : Linked links head chain)
    (hsame : forall pos, pos ∈ chain -> others[pos]? = links[pos]?) :
    Linked others head chain := by
  induction h with
  | ended => exact Linked.ended
  | next hlink _ ih =>
      apply Linked.next
      · rw [hsame _ List.mem_cons_self]
        exact hlink
      · exact ih fun pos hpos => hsame pos (List.mem_cons_of_mem _ hpos)

theorem walk_eq_of_linked {links : Array (Option Nat)} {head : Option Nat}
    {chain : List Nat} {fuel : Nat} (h : Linked links head chain)
    (hfuel : chain.length ≤ fuel) :
    walk links fuel head = chain := by
  -- The chain and the fuel get shorter together.
  induction h generalizing fuel with
  | ended => cases fuel <;> rfl
  | next hlink _ ih =>
      cases fuel with
      | zero => cases hfuel
      | succ fuel =>
          rw [walk, hlink, Option.join_some, ih (Nat.le_of_succ_le_succ hfuel)]

theorem length_le_of_descending {chain : List Nat} {bound : Nat}
    (hdesc : chain.Pairwise (· > ·)) (hlt : forall pos, pos ∈ chain -> pos < bound) :
    chain.length ≤ bound := by
  induction chain generalizing bound with
  | nil => exact Nat.zero_le _
  | cons pos rest ih =>
      rcases List.pairwise_cons.mp hdesc with ⟨hpos, hrest⟩
      have hlen := ih hrest hpos
      have hbound := hlt pos List.mem_cons_self
      rw [List.length_cons]
      omega

theorem chain_eq_of_linked {index : Chained K} {bucket : Nat} {head : Option Nat}
    {chain : List Nat} (hhead : index.heads[bucket]? = some head)
    (hlinked : Linked index.links head chain) (hdesc : chain.Pairwise (· > ·)) :
    index.chain bucket = chain := by
  rw [Chained.chain, hhead, Option.join_some]
  exact walk_eq_of_linked hlinked (length_le_of_descending hdesc hlinked.lt_size)

theorem chain_of_no_head {index : Chained K} {bucket : Nat}
    (hhead : index.heads[bucket]? = none) :
    index.chain bucket = [] := by
  rw [Chained.chain, hhead]
  cases index.links.size <;> rfl

/-! ## The invariant -/

structure SameTable (index other : Chained K) : Prop where
  hash_eq : index.hash = other.hash
  size_heads : index.heads.size = other.heads.size
  shift_eq : index.shift = other.shift

theorem SameTable.bucket_eq {index other : Chained K} (h : SameTable index other)
    (key : K) :
    index.bucket key = other.bucket key := by
  rw [Chained.bucket, Chained.bucket, h.hash_eq, h.shift_eq]

theorem SameTable.limit_eq {index other : Chained K} (h : SameTable index other) :
    index.limit = other.limit := by
  rw [Chained.limit, Chained.limit, h.size_heads]

theorem SameTable.trans {a b c : Chained K} (hab : SameTable a b) (hbc : SameTable b c) :
    SameTable a c where
  hash_eq := hab.hash_eq.trans hbc.hash_eq
  size_heads := hab.size_heads.trans hbc.size_heads
  shift_eq := hab.shift_eq.trans hbc.shift_eq

/-- The heads are a table of a power of two of buckets, at least two. -/
def Sized (index : Chained K) : Prop :=
  exists e, 0 < e ∧ index.heads.size = 2 ^ e ∧ index.shift = bucketShift (2 ^ e)

theorem Sized.bucket_lt {index : Chained K} (h : index.Sized) (key : K) :
    index.bucket key < index.heads.size := by
  rcases h with ⟨e, he, hsize, hshift⟩
  rw [Chained.bucket, hshift, hsize]
  exact bucketOf_lt he _

theorem SameTable.sized {index other : Chained K} (h : SameTable index other)
    (hsized : other.Sized) :
    index.Sized := by
  rcases hsized with ⟨e, he, hsize, hshift⟩
  exact ⟨e, he, h.size_heads.trans hsize, h.shift_eq.trans hshift⟩

def Belongs (index : Chained K) (entries : Array (Entry K V)) (pos bucket : Nat) : Prop :=
  exists entry, entries[pos]? = some entry ∧ index.bucket entry.key = bucket

theorem SameTable.belongs_iff {index other : Chained K} (h : SameTable index other)
    {entries : Array (Entry K V)} {pos bucket : Nat} :
    Belongs index entries pos bucket ↔ Belongs other entries pos bucket := by
  simp only [Belongs, h.bucket_eq]

/-- The chains of `index` hold exactly the indexed positions of `entries`. -/
structure Sound [BEq K] (index : Chained K) (entries : Array (Entry K V))
    (indexed : Nat -> Prop) : Prop where
  sized : index.Sized
  size_links : index.links.size = entries.size
  linked : forall bucket head, index.heads[bucket]? = some head ->
    Linked index.links head (index.chain bucket)
  descending : forall bucket, (index.chain bucket).Pairwise (· > ·)
  mem_chain_iff : forall bucket pos,
    pos ∈ index.chain bucket ↔ indexed pos ∧ Belongs index entries pos bucket
  indexed_lt : forall pos, indexed pos -> pos < entries.size
  distinct : forall bucket, (index.chain bucket).Pairwise fun newer older =>
    forall entry, entries[newer]? = some entry -> holdsAt entries entry.key older = false
  length_le : forall bucket, (index.chain bucket).length ≤ index.limit

theorem sized_empty (hash : K -> UInt64) (len : Nat) :
    (empty hash len).Sized := by
  refine ⟨leastExponent len, leastExponent_pos len, ?_, ?_⟩
  · rw [empty, Array.size_replicate, bucketCount_eq]
  · rw [empty, bucketCount_eq]

theorem head_eq_none_of_empty {hash : K -> UInt64} {len bucket : Nat}
    {head : Option Nat} (hhead : (empty hash len).heads[bucket]? = some head) :
    head = none := by
  rw [empty, Array.getElem?_replicate] at hhead
  split at hhead
  next => exact (Option.some.inj hhead).symm
  next => cases hhead

theorem chain_empty (hash : K -> UInt64) (len bucket : Nat) :
    (empty hash len).chain bucket = [] := by
  cases hhead : (empty hash len).heads[bucket]? with
  | none => exact chain_of_no_head hhead
  | some head =>
      have hnone := head_eq_none_of_empty hhead
      subst hnone
      exact chain_eq_of_linked hhead Linked.ended List.Pairwise.nil

theorem sound_empty [BEq K] (hash : K -> UInt64) (entries : Array (Entry K V)) :
    (empty hash entries.size).Sound entries (fun _ => False) where
  sized := sized_empty hash entries.size
  size_links := Array.size_replicate
  linked := by
    intro bucket head hhead
    rw [chain_empty, head_eq_none_of_empty hhead]
    exact Linked.ended
  descending := by
    intro bucket
    rw [chain_empty]
    exact List.Pairwise.nil
  mem_chain_iff := by
    intro bucket pos
    rw [chain_empty]
    simp
  indexed_lt := by
    intro pos h
    cases h
  distinct := by
    intro bucket
    rw [chain_empty]
    exact List.Pairwise.nil
  length_le := by
    intro bucket
    rw [chain_empty]
    exact Nat.zero_le _

/-! ## Probing -/

theorem probe_def [BEq K] (index : Chained K) (entries : Array (Entry K V)) (key : K) :
    Placing.probe index entries key =
      match (index.chain (index.bucket key)).find? (holdsAt entries key) with
      | some first => .repeated first
      | none =>
          if index.limit ≤ (index.chain (index.bucket key)).length then .full
          else .vacant := rfl

theorem probe_eq_repeated [BEq K] {index : Chained K} {entries : Array (Entry K V)}
    {key : K} {first : Nat} (h : Placing.probe index entries key = .repeated first) :
    first ∈ index.chain (index.bucket key) ∧ holdsAt entries key first = true := by
  have hfind := (probe_eq_repeated_iff index entries key first).mp h
  exact ⟨List.mem_of_find?_eq_some hfind, List.find?_some hfind⟩

theorem probe_ne_repeated [BEq K] {index : Chained K} {entries : Array (Entry K V)}
    {key : K} (h : forall first, Placing.probe index entries key ≠ .repeated first) :
    forall pos, pos ∈ index.chain (index.bucket key) -> holdsAt entries key pos = false := by
  cases hfind : index.position? entries key with
  | some first => exact absurd ((probe_eq_repeated_iff index entries key first).mpr hfind) (h first)
  | none =>
      intro pos hpos
      have hnot := List.find?_eq_none.mp hfind pos hpos
      simpa using hnot

theorem probe_eq_vacant [BEq K] {index : Chained K} {entries : Array (Entry K V)}
    {key : K} (h : Placing.probe index entries key = .vacant) :
    (index.chain (index.bucket key)).length < index.limit := by
  rw [probe_def] at h
  split at h
  next => cases h
  next =>
    split at h
    next => cases h
    next hlt => exact Nat.lt_of_not_le hlt

theorem probe_eq_full [BEq K] {index : Chained K} {entries : Array (Entry K V)}
    {key : K} (h : Placing.probe index entries key = .full) :
    index.limit ≤ (index.chain (index.bucket key)).length := by
  rw [probe_def] at h
  split at h
  next => cases h
  next =>
    split at h
    next hle => exact hle
    next => cases h

/-! ## Inserting at a head -/

theorem heads_insert_eq (index : Chained K) (pos : Nat) (key : K) :
    (index.insert pos key).heads =
      index.heads.setIfInBounds (index.bucket key) (some pos) := rfl

theorem links_insert_eq (index : Chained K) (pos : Nat) (key : K) :
    (index.insert pos key).links =
      index.links.setIfInBounds pos index.heads[index.bucket key]?.join := rfl

theorem sameTable_insert (index : Chained K) (pos : Nat) (key : K) :
    SameTable (index.insert pos key) index := by
  cases index
  exact ⟨rfl, Array.size_setIfInBounds, rfl⟩

theorem heads_insert (index : Chained K) (pos : Nat) (key : K) (bucket : Nat) :
    (index.insert pos key).heads[bucket]? =
      if index.bucket key = bucket then
        if bucket < index.heads.size then some (some pos) else none
      else index.heads[bucket]? := by
  rw [heads_insert_eq, Array.getElem?_setIfInBounds]
  split
  next h => rw [h]
  next => rfl

theorem links_insert (index : Chained K) (pos : Nat) (key : K) (other : Nat) :
    (index.insert pos key).links[other]? =
      if pos = other then
        if other < index.links.size then
          some index.heads[index.bucket key]?.join
        else none
      else index.links[other]? := by
  rw [links_insert_eq, Array.getElem?_setIfInBounds]
  split
  next h => rw [h]
  next => rfl

section Insert

variable [BEq K] {index : Chained K} {entries : Array (Entry K V)}
  {indexed : Nat -> Prop} {entry : Entry K V} {pos : Nat}

theorem Sound.linked_insert (h : index.Sound entries indexed)
    (hnew : forall p, indexed p -> p < pos) {bucket : Nat} {head : Option Nat}
    (hhead : index.heads[bucket]? = some head) (key : K) :
    Linked (index.insert pos key).links head (index.chain bucket) := by
  -- The positions of a chain are older than the new one, whose link alone changes.
  apply (h.linked bucket head hhead).congr
  intro p hp
  have hne : pos ≠ p :=
    Nat.ne_of_gt (hnew p ((h.mem_chain_iff bucket p).mp hp).1)
  rw [links_insert, if_neg hne]

theorem Sound.descending_insert (h : index.Sound entries indexed)
    (hnew : forall p, indexed p -> p < pos) (bucket : Nat) :
    (pos :: index.chain bucket).Pairwise (· > ·) := by
  rw [List.pairwise_cons]
  refine ⟨?_, h.descending bucket⟩
  intro p hp
  exact hnew p ((h.mem_chain_iff bucket p).mp hp).1

theorem Sound.linked_insert_self (h : index.Sound entries indexed)
    (hpos : pos < entries.size) (hnew : forall p, indexed p -> p < pos) (key : K) :
    (index.insert pos key).heads[index.bucket key]? = some (some pos) ∧
      Linked (index.insert pos key).links (some pos)
        (pos :: index.chain (index.bucket key)) := by
  have hlt := h.sized.bucket_lt key
  have hhead := Array.getElem?_eq_getElem hlt
  constructor
  · rw [heads_insert, if_pos rfl, if_pos hlt]
  · apply Linked.next
    · rw [links_insert, if_pos rfl, if_pos (h.size_links ▸ hpos), hhead, Option.join_some]
    · exact h.linked_insert hnew hhead key

theorem Sound.chain_insert (h : index.Sound entries indexed)
    (hpos : pos < entries.size) (hnew : forall p, indexed p -> p < pos) (key : K)
    (bucket : Nat) :
    (index.insert pos key).chain bucket =
      if index.bucket key = bucket then pos :: index.chain bucket
      else index.chain bucket := by
  split
  next heq =>
    subst heq
    rcases h.linked_insert_self hpos hnew key with ⟨hhead, hlinked⟩
    exact chain_eq_of_linked hhead hlinked (h.descending_insert hnew _)
  next hne =>
    have hheads : (index.insert pos key).heads[bucket]? = index.heads[bucket]? := by
      rw [heads_insert, if_neg hne]
    cases hhead : index.heads[bucket]? with
    | none => rw [chain_of_no_head hhead, chain_of_no_head (hheads.trans hhead)]
    | some head =>
        exact chain_eq_of_linked (hheads.trans hhead) (h.linked_insert hnew hhead key)
          (h.descending bucket)

theorem Sound.of_iff {others : Nat -> Prop} (h : index.Sound entries indexed)
    (hiff : forall p, indexed p ↔ others p) :
    index.Sound entries others := by
  have heq : indexed = others := funext fun p => propext (hiff p)
  rw [← heq]
  exact h

theorem Sound.linked_chain_insert (h : index.Sound entries indexed)
    (hpos : pos < entries.size) (hnew : forall p, indexed p -> p < pos) (key : K)
    {bucket : Nat} {head : Option Nat}
    (hhead : (index.insert pos key).heads[bucket]? = some head) :
    Linked (index.insert pos key).links head ((index.insert pos key).chain bucket) := by
  rw [h.chain_insert hpos hnew key]
  split
  next heq =>
    subst heq
    rcases h.linked_insert_self hpos hnew key with ⟨hself, hlinked⟩
    rw [hself] at hhead
    cases hhead
    exact hlinked
  next hne =>
    rw [heads_insert, if_neg hne] at hhead
    exact h.linked_insert hnew hhead key

theorem Sound.mem_chain_insert_iff (h : index.Sound entries indexed)
    (hentry : entries[pos]? = some entry) (hnew : forall p, indexed p -> p < pos)
    (bucket p : Nat) :
    p ∈ (index.insert pos entry.key).chain bucket ↔
      (p = pos ∨ indexed p) ∧ Belongs index entries p bucket := by
  have hpos : pos < entries.size := (Array.getElem?_eq_some_iff.mp hentry).1
  have hself : Belongs index entries pos bucket ↔ index.bucket entry.key = bucket := by
    simp only [Belongs, hentry, Option.some.injEq, exists_eq_left']
  rw [h.chain_insert hpos hnew]
  split
  next heq =>
    rw [List.mem_cons, h.mem_chain_iff]
    constructor
    · intro hmem
      rcases hmem with rfl | ⟨hindexed, hp⟩
      · exact ⟨Or.inl rfl, hself.mpr heq⟩
      · exact ⟨Or.inr hindexed, hp⟩
    · intro hmem
      rcases hmem with ⟨rfl | hindexed, hp⟩
      · exact Or.inl rfl
      · exact Or.inr ⟨hindexed, hp⟩
  next hne =>
    rw [h.mem_chain_iff]
    constructor
    · intro hmem
      rcases hmem with ⟨hindexed, hp⟩
      exact ⟨Or.inr hindexed, hp⟩
    · intro hmem
      rcases hmem with ⟨rfl | hindexed, hp⟩
      · exact absurd (hself.mp hp) hne
      · exact ⟨hindexed, hp⟩

theorem Sound.distinct_insert (h : index.Sound entries indexed)
    (hentry : entries[pos]? = some entry) (hnew : forall p, indexed p -> p < pos)
    (hprobe : Placing.probe index entries entry.key = .vacant) (bucket : Nat) :
    ((index.insert pos entry.key).chain bucket).Pairwise fun newer older =>
      forall other, entries[newer]? = some other ->
        holdsAt entries other.key older = false := by
  have hpos : pos < entries.size := (Array.getElem?_eq_some_iff.mp hentry).1
  rw [h.chain_insert hpos hnew]
  split
  next heq =>
    -- The probe went through this chain and found no equal key in it.
    subst heq
    rw [List.pairwise_cons]
    refine ⟨?_, h.distinct _⟩
    intro older holder other hother
    rw [hentry] at hother
    cases hother
    exact probe_ne_repeated (by simp [hprobe]) older holder
  next => exact h.distinct bucket

/-- The step lemma: inserting a vacant key keeps the chains sound. -/
theorem Sound.insert (h : index.Sound entries indexed)
    (hentry : entries[pos]? = some entry) (hnew : forall p, indexed p -> p < pos)
    (hprobe : Placing.probe index entries entry.key = .vacant) :
    (index.insert pos entry.key).Sound entries (fun p => p = pos ∨ indexed p) := by
  have hpos : pos < entries.size := (Array.getElem?_eq_some_iff.mp hentry).1
  have htable := sameTable_insert index pos entry.key
  have hchain := h.chain_insert hpos hnew entry.key
  refine
    { sized := htable.sized h.sized
      size_links := ?_
      linked := fun _ _ hhead => h.linked_chain_insert hpos hnew entry.key hhead
      descending := ?_
      mem_chain_iff := ?_
      indexed_lt := ?_
      distinct := h.distinct_insert hentry hnew hprobe
      length_le := ?_ }
  · rw [links_insert_eq, Array.size_setIfInBounds]
    exact h.size_links
  · intro bucket
    rw [hchain]
    split
    next => exact h.descending_insert hnew bucket
    next => exact h.descending bucket
  · intro bucket p
    rw [htable.belongs_iff]
    exact h.mem_chain_insert_iff hentry hnew bucket p
  · intro p hp
    rcases hp with rfl | hindexed
    · exact hpos
    · exact h.indexed_lt p hindexed
  · intro bucket
    rw [hchain, htable.limit_eq]
    split
    next heq =>
      subst heq
      exact probe_eq_vacant hprobe
    next => exact h.length_le bucket

end Insert

/-! ## Whole placements -/

/-- The run lemma: every state that claims lead to is sound. -/
theorem sound_of_claims [BEq K] {hash : K -> UInt64} {entries : Array (Entry K V)}
    {pos : Nat} {index : Chained K} {indexed : List Nat} {repeats : List Repeat}
    (h : Claims entries (empty hash entries.size) pos index indexed repeats) :
    SameTable index (empty hash entries.size) ∧
      index.Sound entries (· ∈ indexed) ∧ forall p, p ∈ indexed -> p < pos := by
  induction h with
  | start =>
      refine ⟨⟨rfl, rfl, rfl⟩, ?_, ?_⟩
      · simpa using sound_empty hash entries
      · intro p hp
        cases hp
  | @vacant pos index next indexed repeats entry hclaims hentry hclaim ih =>
      rcases ih with ⟨htable, hsound, hlt⟩
      rcases claim_eq_vacant_iff.mp hclaim with ⟨hprobe, rfl⟩
      refine ⟨(sameTable_insert index pos entry.key).trans htable, ?_, ?_⟩
      · show (index.insert pos entry.key).Sound entries _
        simpa using hsound.insert hentry hlt hprobe
      · intro p hp
        rcases List.mem_cons.mp hp with rfl | hp
        · exact Nat.lt_succ_self p
        · exact Nat.lt_succ_of_lt (hlt p hp)
  | repeated hclaims hentry hclaim ih =>
      rcases ih with ⟨htable, hsound, hlt⟩
      rcases claim_eq_repeated_iff.mp hclaim with ⟨_, rfl⟩
      exact ⟨htable, hsound, fun p hp => Nat.lt_succ_of_lt (hlt p hp)⟩

theorem Sound.pointsInto [BEq K] {index : Chained K} {entries : Array (Entry K V)}
    {indexed : List Nat} (h : index.Sound entries (· ∈ indexed)) :
    PointsInto index entries indexed := by
  intro key first hprobe
  exact ((h.mem_chain_iff _ _).mp (probe_eq_repeated hprobe).1).1

theorem sound_of_place_done [BEq K] {hash : K -> UInt64} {entries : Array (Entry K V)}
    {index : Chained K} {reject : Bool} {repeats : List Repeat}
    (h : place reject entries (empty hash entries.size) = .done index repeats) :
    SameTable index (empty hash entries.size) ∧
      Resolvable entries.size repeats ∧
        index.Sound entries (fun p => p < entries.size ∧ Stays repeats p) := by
  rcases exists_claims_of_place_done (fun hclaims => (sound_of_claims hclaims).2.1.pointsInto) h
    with ⟨indexed, hclaims, hres, hindexed⟩
  rcases sound_of_claims hclaims with ⟨htable, hsound, _⟩
  exact ⟨htable, hres, hsound.of_iff hindexed⟩

theorem Sound.mem_chain_of_holdsAt [BEq K] {index : Chained K}
    {entries : Array (Entry K V)} {indexed : Nat -> Prop} {key : K} {pos : Nat}
    (h : index.Sound entries indexed)
    (hhash : forall a b : K, (a == b) = true -> index.hash a = index.hash b)
    (hindexed : indexed pos) (hholds : holdsAt entries key pos = true) :
    pos ∈ index.chain (index.bucket key) := by
  rcases holdsAt_iff.mp hholds with ⟨entry, hentry, heq⟩
  apply (h.mem_chain_iff _ _).mpr
  refine ⟨hindexed, entry, hentry, ?_⟩
  rw [Chained.bucket, Chained.bucket, hhash entry.key key heq]

theorem Sound.answers [BEq K] {index : Chained K} {entries : Array (Entry K V)}
    {indexed : List Nat} (h : index.Sound entries (· ∈ indexed))
    (hhash : forall a b : K, (a == b) = true -> index.hash a = index.hash b) :
    Answers index entries indexed where
  of_repeated := fun hprobe => ⟨h.pointsInto _ _ hprobe, (probe_eq_repeated hprobe).2⟩
  of_not_repeated := by
    intro key hprobe pos hpos
    cases hholds : holdsAt entries key pos with
    | false => rfl
    | true =>
        have hmem := h.mem_chain_of_holdsAt hhash hpos hholds
        rw [probe_ne_repeated hprobe pos hmem] at hholds
        cases hholds

theorem answers_of_claims [BEq K] {hash : K -> UInt64}
    (hhash : forall a b : K, (a == b) = true -> hash a = hash b)
    {entries : Array (Entry K V)} {pos : Nat} {index : Chained K} {indexed : List Nat}
    {repeats : List Repeat}
    (h : Claims entries (empty hash entries.size) pos index indexed repeats) :
    Answers index entries indexed := by
  rcases sound_of_claims h with ⟨htable, hsound, _⟩
  apply hsound.answers
  rw [htable.hash_eq]
  exact hhash

end Chained
end Index
end SealedMap
