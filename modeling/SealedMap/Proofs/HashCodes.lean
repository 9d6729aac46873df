import Mathlib
import SealedMap.HashCode
import SealedMap.Kind.Key
import SealedMap.Proofs.MapEquality
import SealedMap.Session.Kinds

/-!
# Hash codes of equal maps

A hash code is a sum over the entries in a commutative group of words, so it
does not see their order, nor the spelling of what feeds a hasher the same.
Equal maps are matched by a bijection between their entries, and the sum runs
over either side of it.
-/

namespace SealedMap
namespace Map

open Construction (Constructed)

variable {K V : Type} [BEq K] [BEq V]

def SameEntry (entry other : Entry K V) : Prop :=
  (entry.key == other.key) = true ∧ (entry.value == other.value) = true

/-- One list of entries is another one rearranged, up to equality. -/
def Rearranges (left right : List (Entry K V)) : Prop :=
  exists middle, left.Perm middle ∧ List.Forall₂ SameEntry middle right

/-! ## Hashing entries -/

section Respectful

variable [Feed K] [Feed V] (hkeys : forall a b : K, (a == b) = true -> feed a = feed b)
  (hvalues : forall v w : V, (v == w) = true -> feed v = feed w)

include hkeys hvalues

theorem SameEntry.stableHash_eq {entry other : Entry K V} (h : SameEntry entry other) :
    Hashing.stableHash entry = Hashing.stableHash other := by
  have hfeed : feed entry = feed other := by
    show feed entry.key ++ feed entry.value = feed other.key ++ feed other.value
    rw [hkeys _ _ h.1, hvalues _ _ h.2]
  rw [Hashing.stableHash, Hashing.stableHash, hfeed]

theorem map_stableHash_eq {items others : List (Entry K V)}
    (h : List.Forall₂ SameEntry items others) :
    items.map Hashing.stableHash = others.map Hashing.stableHash := by
  induction h with
  | nil => rfl
  | cons hentry _ ih =>
      rw [List.map_cons, List.map_cons, hentry.stableHash_eq hkeys hvalues, ih]

end Respectful

/-! ## The sum of the hashes -/

variable [Hashable K] [Feed K] [Feed V]

omit [BEq V] in
theorem hashCode_eq_sum (map : Map K V) :
    map.hashCode = (map.entries.toList.map Hashing.stableHash).sum := by
  rw [hashCode, ← Array.foldl_toList, List.sum_eq_foldl, List.foldl_map]

omit [BEq V] in
theorem hashCode_eq_sum_positions (map : Map K V) :
    map.hashCode =
      ∑ pos : Fin map.entries.size, Hashing.stableHash (getElem map.entries pos pos.isLt) := by
  rw [hashCode_eq_sum, ← Fin.sum_univ_fun_getElem]
  rfl

section Respectful

variable {left right : Map K V}
  (hkeys : forall a b : K, (a == b) = true -> feed a = feed b)
  (hvalues : forall v w : V, (v == w) = true -> feed v = feed w)

include hkeys hvalues

theorem hashCode_eq_of_rearranges
    (h : Rearranges left.entries.toList right.entries.toList) :
    left.hashCode = right.hashCode := by
  rcases h with ⟨middle, hperm, hmiddle⟩
  rw [hashCode_eq_sum, hashCode_eq_sum, ← map_stableHash_eq hkeys hvalues hmiddle]
  exact (hperm.map Hashing.stableHash).sum_eq

theorem hashCode_eq_of_matches {f : Fin left.entries.size ≃ Fin right.entries.size}
    (h : Matches left right f) :
    left.hashCode = right.hashCode := by
  rw [hashCode_eq_sum_positions, hashCode_eq_sum_positions, ← Equiv.sum_comp f]
  apply Finset.sum_congr rfl
  intro pos _
  have hsame : SameEntry right.entries[f pos] left.entries[pos] := h pos
  exact (hsame.stableHash_eq hkeys hvalues).symm

end Respectful

omit [Feed K] [Feed V] [Hashable K] in
theorem Rearranges.length_eq {items others : List (Entry K V)} (h : Rearranges items others) :
    items.length = others.length := by
  rcases h with ⟨middle, hperm, hmiddle⟩
  exact hperm.length_eq.trans hmiddle.length_eq

omit [BEq V] in
theorem feed_eq_of_hashCode_eq {left right : Map K V} (hsize : left.size = right.size)
    (hcode : left.hashCode = right.hashCode) :
    feed left = feed right := by
  show feed left.size.toUInt64 ++ feed left.hashCode =
    feed right.size.toUInt64 ++ feed right.hashCode
  rw [hsize, hcode]

/-! ## Constructed maps -/

/--
Where keys and values feed a hasher as their equality demands, equal maps have
one hash code and feed every hasher the same, their size and then that code,
whatever their hash functions, layouts and orders.  The hash code depends on the
associations only, and maps whose entries are rearrangements of each other share
it.
-/
theorem hashing_follows_equality [EquivBEq K] [LawfulHashable K]
    (hkeys : forall a b : K, (a == b) = true -> feed a = feed b)
    (hvalues : forall v w : V, (v == w) = true -> feed v = feed w)
    {first second : K -> UInt64}
    (hfirst : forall a b, (a == b) = true -> first a = first b)
    (hsecond : forall a b, (a == b) = true -> second a = second b)
    {entries others : Array (Entry K V)} {left right : Map K V}
    (hleft : Constructed first entries left) (hright : Constructed second others right) :
    ((left == right) = true ->
        left.hashCode = right.hashCode ∧ feed left = feed right ∧
        forall hasher : Hashing.Hasher, hasher.hashOf left = hasher.hashOf right) ∧
      (left.SameAssociations right -> left.hashCode = right.hashCode) ∧
      (Rearranges left.entries.toList right.entries.toList ->
        left.hashCode = right.hashCode ∧ feed left = feed right) ∧
      feed left = feed left.size.toUInt64 ++ feed left.hashCode := by
  have hl := hleft.exact hfirst
  have hr := hright.exact hsecond
  have hcode : (left == right) = true -> left.hashCode = right.hashCode := by
    intro heq
    rcases (beq_iff_exists_matches hl hr).mp heq with ⟨f, hf⟩
    exact hashCode_eq_of_matches hkeys hvalues hf
  refine ⟨?_, ?_, ?_, rfl⟩
  · intro heq
    have hsize := ((beq_iff_found hr).mp heq).1
    have hfeed := feed_eq_of_hashCode_eq hsize (hcode heq)
    refine ⟨hcode heq, hfeed, ?_⟩
    intro hasher
    rw [Hashing.Hasher.hashOf, Hashing.Hasher.hashOf, hfeed]
  · intro hsame
    exact hcode ((beq_iff_same hl hr).mpr hsame)
  · intro hrearranges
    have hsame := hashCode_eq_of_rearranges hkeys hvalues hrearranges
    exact ⟨hsame, feed_eq_of_hashCode_eq hrearranges.length_eq hsame⟩

def lowerCase : Map Caseless Int64 where
  layout :=
    .chained #[⟨⟨"a"⟩, 1⟩, ⟨⟨"b"⟩, 2⟩]
      { hash := fun _ => 0
        heads := #[some 1, none]
        links := #[none, some 0]
        shift := 63 }
  hash := fun _ => 0

/-- What is kept of three entries, by falling values and with the keys in another case. -/
def upperCase : Map Caseless Int64 where
  layout :=
    .chained #[⟨⟨"B"⟩, 2⟩, ⟨⟨"A"⟩, 1⟩]
      { hash := fun _ => 1
        heads := #[none, some 1]
        links := #[none, some 0]
        shift := 63 }
  hash := fun _ => 1

theorem hashing_follows_equality_otherCase :
    (lowerCase == upperCase) = true ∧ lowerCase.hashCode = upperCase.hashCode ∧
      feed lowerCase = feed upperCase ∧
      Rearranges lowerCase.entries.toList upperCase.entries.toList := by
  have hlower : ((Construction.construct (fun _ : Caseless => 0)
      (.reject : Policy Unit Caseless Int64) none
      #[⟨⟨"a"⟩, 1⟩, ⟨⟨"b"⟩, 2⟩]).run ()).1.outcome = .ok lowerCase := by cbv
  have hupper : ((Construction.construct (fun _ : Caseless => 1)
      (.keepLast : Policy Unit Caseless Int64) (some fun v w => compare w v)
      #[⟨⟨"A"⟩, 5⟩, ⟨⟨"B"⟩, 2⟩, ⟨⟨"A"⟩, 1⟩]).run ()).1.outcome = .ok upperCase := by cbv
  have hkeys : forall a b : Caseless, (a == b) = true -> feed a = feed b := by
    intro a b h
    rw [Caseless.beq_def, beq_iff_eq] at h
    show feed a.folded = feed b.folded
    rw [h]
  have hvalues : forall v w : Int64, (v == w) = true -> feed v = feed w := by
    intro v w h
    rw [eq_of_beq h]
  have hall := hashing_follows_equality hkeys hvalues (fun _ _ _ => rfl) (fun _ _ _ => rfl)
    (.construct hlower) (.construct hupper)
  have heq : (lowerCase == upperCase) = true := by cbv
  rcases hall.1 heq with ⟨hcode, hfeed, _⟩
  refine ⟨heq, hcode, hfeed, [⟨⟨"b"⟩, 2⟩, ⟨⟨"a"⟩, 1⟩], List.Perm.swap _ _ _, ?_⟩
  exact .cons ⟨by cbv, by cbv⟩ (.cons ⟨by cbv, by cbv⟩ .nil)

end Map
end SealedMap
