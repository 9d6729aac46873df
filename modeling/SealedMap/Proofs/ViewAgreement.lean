import SealedMap.Proofs.Associations
import SealedMap.Proofs.Exactness
import SealedMap.Proofs.InverseGroups
import SealedMap.View.Collection

/-!
# Agreement of the views

A map and its views are asked about positions, keys and values through a scan of
the entries, through the index of the layout, or through the hashed groups of
the inverse.  All of them answer as the entries do, so no two of them disagree.
-/

namespace SealedMap
namespace Map

open Construction (Constructed)

variable {K V : Type} [BEq K] [Hashable K] {map : Map K V}

/-! ## Positions -/

theorem getElem?_toList (map : Map K V) (place : Nat) :
    map.toList[place]? = (map.entrySet.at? place).map Entry.toPair := by
  unfold toList
  rw [List.getElem?_map, Array.getElem?_toList]
  rfl

theorem at?_keySet (map : Map K V) (place : Nat) :
    map.keySet.at? place = map.toList[place]?.map Prod.fst := by
  rw [getElem?_toList, Option.map_map]
  rfl

theorem at?_valueList (map : Map K V) (place : Nat) :
    map.valueList.at? place = map.toList[place]?.map Prod.snd := by
  rw [getElem?_toList, Option.map_map]
  rfl

theorem at?_entrySet (map : Map K V) (place : Nat) :
    map.entrySet.at? place = map.toList[place]?.map Entry.ofPair := by
  rw [getElem?_toList]
  cases map.entrySet.at? place <;> rfl

theorem getElem?_toList_eq_none_iff {place : Nat} :
    map.toList[place]? = none ↔ map.size ≤ place := by
  rw [List.getElem?_eq_none_iff, toList, List.length_map, Array.length_toList]
  rfl

/-! ## Keys -/

theorem isSome_get?_iff (h : map.layout.Exact) {key : K} :
    (map.get? key).isSome = true ↔ map.Has key := by
  rw [get?, Option.isSome_map, isSome_entry?_iff h]

theorem length_get_asMultimap (map : Map K V) (key : K) :
    (map.asMultimap.get key).length = 1 ↔ (map.get? key).isSome = true := by
  show (map.get? key).toList.length = 1 ↔ _
  cases map.get? key <;> simp

theorem get_asMultimap_eq_singleton_iff {key : K} {value : V} :
    map.asMultimap.get key = [value] ↔ map.get? key = some value := by
  show (map.get? key).toList = [value] ↔ _
  cases map.get? key <;> simp

/-! ## Values -/

variable [BEq V]

theorem containsValue_iff {value : V} :
    map.containsValue value = true ↔
      exists entry, entry ∈ map.entries ∧ (entry.value == value) = true := by
  rw [containsValue, Array.any_eq_true']

theorem containsPair_asMultimap (map : Map K V) (key : K) (value : V) :
    map.asMultimap.containsPair key value = map.containsEntry key value := by
  show (map.get? key).toList.any (· == value) = _
  unfold containsEntry
  cases map.get? key <;> simp

theorem exists_mem_get_inverse_iff [Hashable V] [PartialEquivBEq V] [LawfulHashable V]
    {key : K} {value : V} :
    (exists listed, listed ∈ map.asMultimap.inverse.get value ∧ (listed == key) = true) ↔
      exists held, map.Associates key held ∧ (held == value) = true := by
  show (exists listed, listed ∈ (Inverse.ofMap map).get value ∧ _) ↔ _
  rw [Inverse.get_ofMap]
  constructor
  · intro h
    rcases h with ⟨listed, hlisted, hkey⟩
    rcases List.mem_map.mp hlisted with ⟨entry, hmem, rfl⟩
    rcases List.mem_filter.mp hmem with ⟨hentry, hvalue⟩
    exact ⟨entry.value, ⟨entry, Array.mem_toList_iff.mp hentry, hkey, rfl⟩, hvalue⟩
  · intro h
    rcases h with ⟨_, ⟨entry, hentry, hkey, rfl⟩, hvalue⟩
    refine ⟨entry.key, List.mem_map_of_mem ?_, hkey⟩
    exact List.mem_filter.mpr ⟨Array.mem_toList_iff.mpr hentry, hvalue⟩

/-! ## Constructed maps -/

/--
Of a constructed map the views agree with the map, and with its entries: they
show the same pair at each place, have the same keys, associate the same values
with them, and have the same values.
-/
theorem views_agree [EquivBEq K] [LawfulHashable K] [PartialEquivBEq V] [Hashable V]
    [LawfulHashable V]
    {hash : K -> UInt64} (hhash : forall a b, (a == b) = true -> hash a = hash b)
    {entries : Array (Entry K V)} (h : Constructed hash entries map) :
    (forall place,
        map.keySet.at? place = map.toList[place]?.map Prod.fst ∧
        map.valueList.at? place = map.toList[place]?.map Prod.snd ∧
        map.entrySet.at? place = map.toList[place]?.map Entry.ofPair ∧
        (map.keySet.at? place = none ↔ map.size ≤ place) ∧
        (map.valueList.at? place = none ↔ map.size ≤ place) ∧
        (map.entrySet.at? place = none ↔ map.size ≤ place)) ∧
      (forall key,
        (map.contains key = true ↔ map.Has key) ∧
        (map.keySet.contains key = true ↔ map.Has key) ∧
        (map.asMultimap.containsKey key = true ↔ map.Has key) ∧
        ((map.get? key).isSome = true ↔ map.Has key) ∧
        ((map.entry? key).isSome = true ↔ map.Has key) ∧
        ((map.asMultimap.get key).length = 1 ↔ map.Has key) ∧
        (forall value, map.asMultimap.get key = [value] ↔ map.get? key = some value)) ∧
      (forall (key : K) (value : V),
        ((exists held, map.get? key = some held ∧ (held == value) = true) ↔
          map.entrySet.contains ⟨key, value⟩ = true) ∧
        (map.entrySet.contains ⟨key, value⟩ = true ↔
          map.asMultimap.containsPair key value = true) ∧
        (map.asMultimap.containsPair key value = true ↔
          exists listed, listed ∈ map.asMultimap.inverse.get value ∧
            (listed == key) = true) ∧
        (map.asMultimap.containsPair key value = true ↔
          exists held, map.Associates key held ∧ (held == value) = true)) ∧
      (forall value : V,
        map.valueList.contains value = map.containsValue value ∧
        map.asMultimap.inverse.containsValue value = map.containsValue value ∧
        (map.containsValue value = true ↔
          exists entry, entry ∈ map.entries ∧ (entry.value == value) = true)) := by
  have hexact := h.exact hhash
  refine ⟨?_, ?_, ?_, ?_⟩
  · intro place
    rw [at?_keySet, at?_valueList, at?_entrySet]
    simp only [Option.map_eq_none_iff, getElem?_toList_eq_none_iff, and_self]
  · intro key
    have hhas : map.contains key = true ↔ map.Has key := contains_iff hexact
    refine ⟨hhas, hhas, hhas, isSome_get?_iff hexact, isSome_entry?_iff hexact, ?_, ?_⟩
    · rw [length_get_asMultimap, isSome_get?_iff hexact]
    · intro value
      exact get_asMultimap_eq_singleton_iff
  · intro key value
    have hheld : map.containsEntry key value = true ↔
        exists held, map.Associates key held ∧ (held == value) = true :=
      containsEntry_iff hexact
    rw [containsPair_asMultimap, exists_mem_get_inverse_iff]
    simp only [get?_eq_some_iff hexact]
    exact ⟨hheld.symm, Iff.rfl, hheld, hheld⟩
  · intro value
    exact ⟨rfl, Inverse.containsValue_ofMap map value, containsValue_iff⟩

def sharing : Map Nat Nat where
  layout :=
    .chained #[⟨1, 10⟩, ⟨2, 20⟩, ⟨3, 10⟩]
      { hash := fun _ => 0
        heads := #[some 2, none, none, none]
        links := #[none, some 0, some 1]
        shift := 62 }
  hash := fun _ => 0

theorem views_agree_sharing :
    sharing.contains 3 = true ∧ sharing.keySet.contains 3 = true ∧
      sharing.asMultimap.get 3 = [10] ∧
      (exists listed, listed ∈ sharing.asMultimap.inverse.get 10 ∧ (listed == 3) = true) ∧
      sharing.asMultimap.inverse.containsValue 20 = true := by
  have houtcome : ((Construction.construct (fun _ : Nat => 0) (.reject : Policy Unit Nat Nat)
      none #[⟨1, 10⟩, ⟨2, 20⟩, ⟨3, 10⟩]).run ()).1.outcome = .ok sharing := by cbv
  have hall := views_agree (fun _ _ _ => rfl) (.construct houtcome)
  rcases hall with ⟨_, hkeys, hpairs, hvalues⟩
  rcases hkeys 3 with ⟨hcontains, hkeySet, _, _, _, _, hget⟩
  have hthird : sharing.entries[2]? = some ⟨3, 10⟩ := rfl
  have hhas : sharing.Has 3 := ⟨_, Array.mem_of_getElem? hthird, rfl⟩
  have hsecond : sharing.entries[1]? = some ⟨2, 20⟩ := rfl
  have hlisted := (hpairs 3 10).2.2.1
  refine ⟨hcontains.mpr hhas, hkeySet.mpr hhas, (hget 10).mpr rfl, hlisted.mp rfl, ?_⟩
  rw [(hvalues 20).2.1]
  exact (hvalues 20).2.2.mpr ⟨_, Array.mem_of_getElem? hsecond, rfl⟩

end Map
end SealedMap
