import Mathlib
import SealedMap.Proofs.Associations
import SealedMap.Proofs.Exactness
import SealedMap.View.Collection

/-!
# Equality of maps

Maps are compared by their sizes and by looking up each entry of the left one in
the right one.  Between exact maps this is sameness of associations: the keys of
both are distinct, so a map that has all keys of another one of its size has no
others.  Values are compared by an equality that need not be an equivalence.
-/

namespace SealedMap

theorem Covers.of_length_le {K : Type} [BEq K] [EquivBEq K] {keys others : List K}
    (hcovers : Covers keys others) (hdistinct : Distinct others)
    (hlen : keys.length ≤ others.length) :
    Covers others keys := by
  intro key hkey
  apply Classical.byContradiction
  intro hnone
  have hnew : Distinct (key :: others) := by
    refine List.Pairwise.cons ?_ hdistinct
    intro other hother
    cases heq : key == other with
    | false => rfl
    | true => exact absurd ⟨other, hother, BEq.symm heq⟩ hnone
  have hcovers' : Covers keys (key :: others) := by
    intro other hother
    rcases List.mem_cons.mp hother with rfl | hother
    · exact ⟨other, hkey, BEq.rfl⟩
    · exact hcovers other hother
  exact Nat.not_succ_le_self _ ((length_le_of_covers hnew hcovers').trans hlen)

namespace Map

open Construction (Constructed)

variable {K V : Type} [BEq K] [Hashable K]

/-- Each key is in neither map, or in both with equal values. -/
def SameAssociations [BEq V] (left right : Map K V) : Prop :=
  forall key, (¬ left.Has key ∧ ¬ right.Has key) ∨
    exists v w, left.Associates key v ∧ right.Associates key w ∧ (w == v) = true

/-- A bijection between the positions of two maps that matches their keys and values. -/
def Matches [BEq V] (left right : Map K V)
    (f : Fin left.entries.size ≃ Fin right.entries.size) : Prop :=
  forall pos, (right.entries[f pos].key == left.entries[pos].key) = true ∧
    (right.entries[f pos].value == left.entries[pos].value) = true

section Sameness

variable [BEq V] {left right : Map K V}

theorem SameAssociations.has_iff (h : left.SameAssociations right) (key : K) :
    left.Has key ↔ right.Has key := by
  rcases h key with ⟨hl, hr⟩ | ⟨v, w, hv, hw, _⟩
  · exact iff_of_false hl hr
  · exact iff_of_true hv.has hw.has

theorem SameAssociations.symm (hsymm : forall v w : V, (v == w) = true -> (w == v) = true)
    (h : left.SameAssociations right) :
    right.SameAssociations left := by
  intro key
  rcases h key with ⟨hl, hr⟩ | ⟨v, w, hv, hw, heq⟩
  · exact Or.inl ⟨hr, hl⟩
  · exact Or.inr ⟨w, v, hw, hv, hsymm w v heq⟩

theorem SameAssociations.trans {third : Map K V} (hright : right.layout.Exact)
    (htrans : forall u v w : V, (u == v) = true -> (v == w) = true -> (u == w) = true)
    (h : left.SameAssociations right) (h' : right.SameAssociations third) :
    left.SameAssociations third := by
  intro key
  rcases h key with ⟨hl, hr⟩ | ⟨v, w, hv, hw, heq⟩
  · rcases h' key with ⟨_, ht⟩ | ⟨_, _, hw, _, _⟩
    · exact Or.inl ⟨hl, ht⟩
    · exact absurd hw.has hr
  · rcases h' key with ⟨hr, _⟩ | ⟨w', x, hw', hx, heq'⟩
    · exact absurd hw.has hr
    · rw [hw'.unique hright hw] at heq'
      exact Or.inr ⟨v, x, hv, hx, htrans x w v heq' heq⟩

theorem beq_iff_found (hright : right.layout.Exact) :
    (left == right) = true ↔ left.size = right.size ∧
      forall entry, entry ∈ left.entries ->
        exists held, right.Associates entry.key held ∧ (held == entry.value) = true := by
  rw [beq_def, beq, Bool.and_eq_true, beq_iff_eq, Array.all_eq_true_iff_forall_mem]
  simp only [containsEntry_iff hright]

end Sameness

section Exact

variable [EquivBEq K] {left right : Map K V}

/-! ## Sizes and keys -/

theorem has_iff_of_size_eq (hleft : left.layout.Exact) (hsize : left.size = right.size)
    (hfound : forall key, left.Has key -> right.Has key) (key : K) :
    left.Has key ↔ right.Has key := by
  refine ⟨hfound key, ?_⟩
  have hlen : right.keys.length ≤ left.keys.length := by
    rw [length_keys, length_keys, hsize]
  have hcovers := (covers_keys_iff.mpr hfound).of_length_le (distinct_keys hleft) hlen
  exact covers_keys_iff.mp hcovers key

theorem size_eq_of_has_iff (hleft : left.layout.Exact) (hright : right.layout.Exact)
    (hhas : forall key, left.Has key ↔ right.Has key) :
    left.size = right.size := by
  rw [← length_keys, ← length_keys]
  apply Nat.le_antisymm
  · exact length_le_of_covers (distinct_keys hleft)
      (covers_keys_iff.mpr fun key => (hhas key).mp)
  · exact length_le_of_covers (distinct_keys hright)
      (covers_keys_iff.mpr fun key => (hhas key).mpr)

theorem keySet_beq_iff (hleft : left.layout.Exact) (hright : right.layout.Exact) :
    (left.keySet == right.keySet) = true ↔ forall key, left.Has key ↔ right.Has key := by
  have hbeq : (left.keySet == right.keySet) = true ↔ left.size = right.size ∧
      forall entry, entry ∈ left.entries -> right.Has entry.key := by
    show left.keySet.beq right.keySet = true ↔ _
    rw [KeySet.beq, Bool.and_eq_true, Array.all_eq_true_iff_forall_mem]
    simp only [KeySet.size, KeySet.contains, keySet, beq_iff_eq, contains_iff hright]
  rw [hbeq]
  constructor
  · intro h
    apply has_iff_of_size_eq hleft h.1
    intro key hhas
    rcases hhas with ⟨entry, hmem, hkey⟩
    exact (h.2 entry hmem).congr hkey
  · intro hhas
    refine ⟨size_eq_of_has_iff hleft hright hhas, ?_⟩
    intro entry hmem
    exact (hhas entry.key).mp (associates_of_mem hmem).has

/-! ## Sameness -/

variable [BEq V]

theorem beq_iff_same (hleft : left.layout.Exact) (hright : right.layout.Exact) :
    (left == right) = true ↔ left.SameAssociations right := by
  rw [beq_iff_found hright]
  constructor
  · intro h key
    rcases h with ⟨hsize, hfound⟩
    have hhas : forall key, left.Has key -> right.Has key := by
      intro key hhas
      rcases hhas with ⟨entry, hmem, hkey⟩
      rcases hfound entry hmem with ⟨held, hheld, _⟩
      exact hheld.has.congr hkey
    by_cases hkey : left.Has key
    · rcases hkey with ⟨entry, hmem, hkey⟩
      rcases hfound entry hmem with ⟨held, ⟨other, hother, hsame, hvalue⟩, heq⟩
      exact Or.inr ⟨entry.value, held, ⟨entry, hmem, hkey, rfl⟩,
        ⟨other, hother, BEq.trans hsame hkey, hvalue⟩, heq⟩
    · refine Or.inl ⟨hkey, ?_⟩
      rw [← has_iff_of_size_eq hleft hsize hhas key]
      exact hkey
  · intro h
    refine ⟨size_eq_of_has_iff hleft hright h.has_iff, ?_⟩
    intro entry hmem
    have hentry := associates_of_mem hmem
    rcases h entry.key with ⟨hnot, _⟩ | ⟨v, w, hv, hw, heq⟩
    · exact absurd hentry.has hnot
    · rw [hv.unique hleft hentry] at heq
      exact ⟨w, hw, heq⟩

/-! ## Bijections -/

theorem exists_equiv_of_found (hleft : left.layout.Exact) (hsize : left.size = right.size)
    (hfound : forall entry, entry ∈ left.entries ->
      exists held, right.Associates entry.key held ∧ (held == entry.value) = true) :
    exists f, Matches left right f := by
  have hpos : forall pos : Fin left.entries.size, exists other : Fin right.entries.size,
      (right.entries[other].key == left.entries[pos].key) = true ∧
        (right.entries[other].value == left.entries[pos].value) = true := by
    intro pos
    rcases hfound left.entries[pos] (Array.getElem_mem pos.isLt) with
      ⟨_, ⟨entry, hmem, hkey, rfl⟩, hvalue⟩
    rcases Array.getElem_of_mem hmem with ⟨other, hlt, rfl⟩
    exact ⟨⟨other, hlt⟩, hkey, hvalue⟩
  choose f hf using hpos
  -- The match of an entry has an equal key, so two entries do not have the same match.
  have hinjective : Function.Injective f := by
    intro p q heq
    have hkey : (left.entries[p].key == left.entries[q].key) = true := by
      have hq := (hf q).1
      rw [← heq] at hq
      exact BEq.trans (BEq.symm (hf p).1) hq
    have hp : left.position? left.entries[q].key = some p.val :=
      (position?_eq_some_iff hleft).mpr ⟨_, Array.getElem?_eq_getElem p.isLt, hkey⟩
    have hq : left.position? left.entries[q].key = some q.val :=
      (position?_eq_some_iff hleft).mpr ⟨_, Array.getElem?_eq_getElem q.isLt, BEq.rfl⟩
    rw [hp] at hq
    exact Fin.ext (Option.some.inj hq)
  have hbijective : Function.Bijective f := by
    rw [Fintype.bijective_iff_injective_and_card, Fintype.card_fin, Fintype.card_fin]
    exact ⟨hinjective, hsize⟩
  exact ⟨Equiv.ofBijective f hbijective, hf⟩

theorem beq_iff_exists_matches (hleft : left.layout.Exact) (hright : right.layout.Exact) :
    (left == right) = true ↔ exists f, Matches left right f := by
  rw [beq_iff_found hright]
  constructor
  · intro h
    exact exists_equiv_of_found hleft h.1 h.2
  · intro h
    rcases h with ⟨f, hf⟩
    refine ⟨Fin.equiv_iff_eq.mp ⟨f⟩, ?_⟩
    intro entry hmem
    rcases Array.getElem_of_mem hmem with ⟨pos, hlt, rfl⟩
    rcases hf ⟨pos, hlt⟩ with ⟨hkey, hvalue⟩
    exact ⟨_, ⟨_, Array.getElem_mem (f ⟨pos, hlt⟩).isLt, hkey, rfl⟩, hvalue⟩

theorem sameAssociations_self_iff (hleft : left.layout.Exact) :
    left.SameAssociations left ↔
      forall entry, entry ∈ left.entries -> (entry.value == entry.value) = true := by
  constructor
  · intro h entry hmem
    have hentry := associates_of_mem hmem
    rcases h entry.key with ⟨hnot, _⟩ | ⟨v, w, hv, hw, heq⟩
    · exact absurd hentry.has hnot
    · rw [hv.unique hleft hentry, hw.unique hleft hentry] at heq
      exact heq
  · intro h key
    by_cases hkey : left.Has key
    · rcases hkey with ⟨entry, hmem, hkey⟩
      have hentry : left.Associates key entry.value := ⟨entry, hmem, hkey, rfl⟩
      exact Or.inr ⟨_, _, hentry, hentry, h entry hmem⟩
    · exact Or.inl ⟨hkey, hkey⟩

end Exact

/-! ## Constructed maps -/

/--
Maps constructed under any two hash functions that respect equality are equal
exactly if they have the same associations, and exactly if a bijection matches
their entries.  Equality is symmetric and transitive where the equality of
values is, and a map is equal to itself exactly if its values are.  Sets of
entries are equal as their maps are, and sets of keys if they have the same
keys, as those of equal maps have.
-/
theorem equality_is_sameness [EquivBEq K] [LawfulHashable K] [BEq V]
    {first second : K -> UInt64}
    (hfirst : forall a b, (a == b) = true -> first a = first b)
    (hsecond : forall a b, (a == b) = true -> second a = second b)
    {entries others : Array (Entry K V)} {left right : Map K V}
    (hleft : Constructed first entries left) (hright : Constructed second others right) :
    ((left == right) = true ↔ left.SameAssociations right) ∧
      ((left == right) = true ↔ exists f, Matches left right f) ∧
      ((forall v w : V, (v == w) = true -> (w == v) = true) ->
        (left == right) = (right == left)) ∧
      ((forall u v w : V, (u == v) = true -> (v == w) = true -> (u == w) = true) ->
        forall (third : K -> UInt64) (more : Array (Entry K V)) (last : Map K V),
          (forall a b, (a == b) = true -> third a = third b) ->
          Constructed third more last ->
          (left == right) = true -> (right == last) = true -> (left == last) = true) ∧
      ((left == left) = true ↔
        forall entry, entry ∈ left.entries -> (entry.value == entry.value) = true) ∧
      (left.entrySet == right.entrySet) = (left == right) ∧
      ((left.keySet == right.keySet) = true ↔ forall key, left.Has key ↔ right.Has key) ∧
      ((left == right) = true -> (left.keySet == right.keySet) = true) := by
  have hl := hleft.exact hfirst
  have hr := hright.exact hsecond
  refine ⟨beq_iff_same hl hr, beq_iff_exists_matches hl hr, ?_, ?_, ?_, rfl,
    keySet_beq_iff hl hr, ?_⟩
  · intro hsymm
    rw [Bool.eq_iff_iff, beq_iff_same hl hr, beq_iff_same hr hl]
    exact ⟨SameAssociations.symm hsymm, SameAssociations.symm hsymm⟩
  · intro htrans third more last hthird hlast heq heq'
    have hl' := hlast.exact hthird
    rw [beq_iff_same hl hr] at heq
    rw [beq_iff_same hr hl'] at heq'
    rw [beq_iff_same hl hl']
    exact heq.trans hr htrans heq'
  · rw [beq_iff_same hl hl]
    exact sameAssociations_self_iff hl
  · intro heq
    rw [beq_iff_same hl hr] at heq
    exact (keySet_beq_iff hl hr).mpr heq.has_iff

def rising : Map Nat Nat where
  layout :=
    .chained #[⟨1, 10⟩, ⟨2, 20⟩]
      { hash := fun _ => 0
        heads := #[some 1, none]
        links := #[none, some 0]
        shift := 63 }
  hash := fun _ => 0

/-- What is kept of three entries: the same associations the other way round. -/
def sinking : Map Nat Nat where
  layout :=
    .chained #[⟨2, 20⟩, ⟨1, 10⟩]
      { hash := fun _ => 1
        heads := #[none, none, some 1, none]
        links := #[none, some 0]
        shift := 62 }
  hash := fun _ => 1

theorem equality_is_sameness_rising_sinking :
    (rising == sinking) = true ∧ rising.SameAssociations sinking ∧
      (exists f, Matches rising sinking f) ∧ (sinking == rising) = true := by
  have hrising : ((Construction.construct (fun _ : Nat => 0) (.reject : Policy Unit Nat Nat)
      none #[⟨1, 10⟩, ⟨2, 20⟩]).run ()).1.outcome = .ok rising := by cbv
  have hsinking : ((Construction.construct (fun _ : Nat => 1) (.keepLast : Policy Unit Nat Nat)
      none #[⟨2, 5⟩, ⟨1, 10⟩, ⟨2, 20⟩]).run ()).1.outcome = .ok sinking := by cbv
  have hall := equality_is_sameness (fun _ _ _ => rfl) (fun _ _ _ => rfl)
    (.construct hrising) (.construct hsinking)
  rcases hall with ⟨hsame, hmatches, hsymm, _⟩
  have heq : (rising == sinking) = true := by cbv
  refine ⟨heq, hsame.mp heq, hmatches.mp heq, ?_⟩
  rw [← hsymm fun v w h => BEq.symm h]
  exact heq

end Map
end SealedMap
