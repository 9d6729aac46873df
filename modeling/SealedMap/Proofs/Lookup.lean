import SealedMap.Map
import SealedMap.Proofs.Chains
import SealedMap.Proofs.KeyedLookup

/-!
# Exact lookup

A layout is exact if it finds a key at a position exactly when the entry there
has that key.  It follows that no two entries have equal keys.  A layout of at
most one entry is exact; one with an index is exact if the index finds the
position of every entry.
-/

namespace SealedMap

open Index (Chained Keyed holdsAt)

variable {K V : Type} [BEq K]

/-! ## Chained indexes -/

theorem Index.Chained.Sound.chain_unique [EquivBEq K] {index : Chained K}
    {entries : Array (Entry K V)} {indexed : Nat -> Prop} (h : index.Sound entries indexed)
    {bucket p q : Nat} {key : K} (hp : p ∈ index.chain bucket) (hq : q ∈ index.chain bucket)
    (hpkey : holdsAt entries key p = true) (hqkey : holdsAt entries key q = true) :
    p = q := by
  have hdistinct : (index.chain bucket).Pairwise fun newer older =>
      holdsAt entries key newer = true -> holdsAt entries key older = false := by
    apply (h.distinct bucket).imp
    intro newer older hne hnewer
    rcases holdsAt_iff.mp hnewer with ⟨entry, hentry, heq⟩
    rw [← holdsAt_congr heq]
    exact hne entry hentry
  -- In either order of the two positions, the older one would not hold the key.
  have hsame : (index.chain bucket).Pairwise fun p q =>
      holdsAt entries key p = true -> holdsAt entries key q = true -> p = q := by
    apply hdistinct.imp
    intro newer older hne hnewer holder
    rw [hne hnewer] at holder
    cases holder
  have hflip : (index.chain bucket).Pairwise (flip fun p q =>
      holdsAt entries key p = true -> holdsAt entries key q = true -> p = q) := by
    apply hsame.imp
    intro newer older heq holder hnewer
    exact (heq hnewer holder).symm
  exact List.Pairwise.forall_of_forall_of_flip (fun _ _ _ _ => rfl) hsame hflip hp hq hpkey hqkey

theorem Index.Chained.Sound.position?_eq_some_iff [EquivBEq K] {index : Chained K}
    {entries : Array (Entry K V)} {indexed : Nat -> Prop} (h : index.Sound entries indexed)
    (hhash : forall a b : K, (a == b) = true -> index.hash a = index.hash b)
    {key : K} {pos : Nat} :
    index.position? entries key = some pos ↔ indexed pos ∧ holdsAt entries key pos = true := by
  constructor
  · intro hfind
    have hmem := List.mem_of_find?_eq_some hfind
    exact ⟨((h.mem_chain_iff _ _).mp hmem).1, List.find?_some hfind⟩
  · intro hboth
    rcases hboth with ⟨hindexed, hholds⟩
    have hmem := h.mem_chain_of_holdsAt hhash hindexed hholds
    cases hfind : index.position? entries key with
    | none => exact absurd hholds (List.find?_eq_none.mp hfind pos hmem)
    | some found =>
        have hfound := List.mem_of_find?_eq_some hfind
        rw [h.chain_unique hfound hmem (List.find?_some hfind) hholds]

/-! ## Layouts -/

namespace Layout

variable [Hashable K]

/-- The layout finds a key at a position exactly if the entry there has that key. -/
def Exact (layout : Layout K V) : Prop :=
  forall key pos,
    layout.position? key = some pos ↔ holdsAt layout.entries key pos = true

structure Presents (layout : Layout K V) (entries : Array (Entry K V)) : Prop where
  entries_eq : layout.entries = entries
  exact : layout.Exact

theorem exact_empty :
    (empty : Layout K V).Exact := by
  intro key pos
  simp [position?, entries, holdsAt]

theorem exact_single (entry : Entry K V) :
    (single entry).Exact := by
  intro key pos
  cases pos with
  | zero => simp [position?, entries, holdsAt]
  | succ pos => simp [position?, entries, holdsAt]

theorem presents_small {entries : Array (Entry K V)} (h : entries.size < 2) :
    (small entries).Presents entries := by
  rcases entries with ⟨items⟩
  cases items with
  | nil => exact ⟨rfl, exact_empty⟩
  | cons entry rest =>
      cases rest with
      | nil => exact ⟨rfl, exact_single entry⟩
      | cons other rest =>
          rw [List.size_toArray, List.length_cons, List.length_cons] at h
          omega

theorem presents_ofChained [EquivBEq K] {hash : K -> UInt64}
    (hhash : forall a b, (a == b) = true -> hash a = hash b)
    {entries : Array (Entry K V)} {index : Chained K} (hindex : index.hash = hash)
    (h : index.Sound entries (· < entries.size)) :
    (ofChained entries index).Presents entries := by
  subst hindex
  unfold ofChained
  split
  next hsize => exact presents_small hsize
  next =>
    refine ⟨rfl, ?_⟩
    intro key pos
    constructor
    · intro hfind
      exact ((h.position?_eq_some_iff hhash).mp hfind).2
    · intro hholds
      exact (h.position?_eq_some_iff hhash).mpr ⟨lt_size_of_holdsAt hholds, hholds⟩

theorem presents_ofKeyed {entries : Array (Entry K V)} {index : Keyed K}
    (h : index.Finds entries (· < entries.size)) :
    (ofKeyed entries index).Presents entries := by
  unfold ofKeyed
  split
  next hsize => exact presents_small hsize
  next =>
    refine ⟨rfl, ?_⟩
    intro key pos
    constructor
    · intro hfind
      exact ((h key pos).mp hfind).2
    · intro hholds
      exact (h key pos).mpr ⟨lt_size_of_holdsAt hholds, hholds⟩

theorem entries_ofKeyed (entries : Array (Entry K V)) (index : Keyed K) :
    (ofKeyed entries index).entries = entries := by
  unfold ofKeyed
  split
  next hsize => exact (presents_small hsize).entries_eq
  next => rfl

def isKeyed : Layout K V -> Bool
  | keyed _ _ => true
  | _ => false

theorem isKeyed_small (entries : Array (Entry K V)) :
    (small entries).isKeyed = false := by
  unfold small
  split <;> rfl

theorem isKeyed_ofChained (entries : Array (Entry K V)) (index : Chained K) :
    (ofChained entries index).isKeyed = false := by
  unfold ofChained
  split
  next => exact isKeyed_small entries
  next => rfl

theorem isKeyed_ofKeyed {entries : Array (Entry K V)} (h : 2 ≤ entries.size)
    (index : Keyed K) :
    (ofKeyed entries index).isKeyed = true := by
  rw [ofKeyed, if_neg (Nat.not_lt_of_le h)]
  rfl

theorem Presents.position?_eq {layout other : Layout K V}
    {entries : Array (Entry K V)} (h : layout.Presents entries)
    (hother : other.Presents entries) (key : K) :
    layout.position? key = other.position? key := by
  apply Option.ext
  intro pos
  rw [h.exact key pos, hother.exact key pos, h.entries_eq, hother.entries_eq]

end Layout

/-! ## What an exact map finds -/

namespace Map

variable [Hashable K] {map : Map K V}

theorem distinct_keys [EquivBEq K] (h : map.layout.Exact) :
    Distinct map.keys := by
  apply distinct_keysOf_iff.mpr
  intro p q entry hlt hentry
  cases hholds : holdsAt map.entries entry.key p with
  | false => rfl
  | true =>
      have hself : holdsAt map.entries entry.key q = true := by
        rw [holdsAt_eq hentry]
        exact BEq.rfl
      -- A lookup has one answer, so equal keys cannot stand at two positions.
      have hfirst := (h entry.key p).mpr hholds
      have hsecond := (h entry.key q).mpr hself
      rw [hfirst] at hsecond
      exact absurd (Option.some.inj hsecond) (Nat.ne_of_lt hlt)

theorem position?_eq_none_iff (h : map.layout.Exact) {key : K} :
    map.position? key = none ↔
      forall entry, entry ∈ map.entries -> (entry.key == key) = false := by
  constructor
  · intro hnone entry hmem
    rcases Array.getElem?_of_mem hmem with ⟨pos, hentry⟩
    cases hkey : entry.key == key with
    | false => rfl
    | true =>
        have hfound : map.position? key = some pos :=
          (h key pos).mpr (holdsAt_iff.mpr ⟨entry, hentry, hkey⟩)
        rw [hnone] at hfound
        cases hfound
  · intro hall
    cases hfound : map.position? key with
    | none => rfl
    | some pos =>
        rcases holdsAt_iff.mp ((h key pos).mp hfound) with ⟨entry, hentry, hkey⟩
        rw [hall entry (Array.mem_of_getElem? hentry)] at hkey
        cases hkey

end Map
end SealedMap
