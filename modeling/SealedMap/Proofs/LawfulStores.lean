import SealedMap.Mutable.Mutation
import SealedMap.Proofs.DistinctKeys

/-!
# Lawful stores

What is looked up after a write is what was written, or else what was there
before it.  Both stores are lawful, for keys that are hashed and ordered by their
equality.
-/

namespace SealedMap

open Std (HashMap TreeMap TransOrd LawfulBEqOrd)

variable {K V : Type}

namespace Entry

theorem ofFound?_eq_some_iff {key : Option K} {value : Option V} {entry : Entry K V} :
    ofFound? key value = some entry ↔ key = some entry.key ∧ value = some entry.value := by
  constructor
  · intro h
    unfold ofFound? at h
    split at h
    next =>
      cases h
      exact ⟨rfl, rfl⟩
    next => cases h
  · intro h
    rw [h.1, h.2]
    rfl

theorem ofFound?_ite {p : Prop} [Decidable p] (key key' : Option K) (value value' : Option V) :
    ofFound? (if p then key else key') (if p then value else value') =
      if p then ofFound? key value else ofFound? key' value' := by
  split
  next => rfl
  next => rfl

theorem ofFound?_map {key : Option K} {value value' : Option V} (f : K -> V -> V)
    (hsome : forall stored, key = some stored -> value' = value.map (f stored)) :
    ofFound? key value' = (ofFound? key value).map (mapValue f) := by
  cases key with
  | none => rfl
  | some stored =>
      rw [hsome stored rfl]
      cases value with
      | none => rfl
      | some value => rfl

theorem mem_map_ofPair_iff {pairs : List (K × V)} {entry : Entry K V} :
    entry ∈ pairs.map ofPair ↔ (entry.key, entry.value) ∈ pairs := by
  rw [List.mem_map]
  constructor
  · intro h
    rcases h with ⟨pair, hpair, rfl⟩
    exact hpair
  · exact fun h => ⟨_, h, rfl⟩

end Entry

class LawfulStore (S : Type) (K V : outParam Type) [BEq K] [Store S K V] : Prop where
  entry?_empty (key : K) : Store.entry? (Store.empty : S) key = none
  entry?_set (store : S) (entry : Entry K V) (key : K) :
    Store.entry? (Store.set store entry) key =
      if entry.key == key then some entry else Store.entry? store key
  entry?_erase (store : S) (key other : K) :
    Store.entry? (Store.erase store key) other =
      if key == other then none else Store.entry? store other
  entry?_mapValues (f : K -> V -> V) (store : S) (key : K) :
    Store.entry? (Store.mapValues f store) key =
      (Store.entry? store key).map (Entry.mapValue f)
  entry?_congr (store : S) {a b : K} : (a == b) = true ->
    Store.entry? store a = Store.entry? store b
  key_of_entry? {store : S} {key : K} {entry : Entry K V} :
    Store.entry? store key = some entry -> (entry.key == key) = true
  mem_entries_iff {store : S} {entry : Entry K V} :
    entry ∈ Store.entries store ↔ Store.entry? store entry.key = some entry
  distinct_entries (store : S) : Distinct ((Store.entries store).map Entry.key)

/-! ## The two stores -/

section Instances

variable [BEq K] [EquivBEq K]

instance [Hashable K] [LawfulHashable K] : LawfulStore (HashStore K V) K V where
  entry?_empty key := by
    show Entry.ofFound? ((∅ : HashMap K V).getKey? key) (∅ : HashMap K V)[key]? = none
    rw [HashMap.getKey?_empty]
    rfl
  entry?_set store entry key := by
    show Entry.ofFound? ((store.table.insert entry.key entry.value).getKey? key)
      (store.table.insert entry.key entry.value)[key]? = _
    rw [HashMap.getKey?_insert, HashMap.getElem?_insert, Entry.ofFound?_ite]
    rfl
  entry?_erase store key other := by
    show Entry.ofFound? ((store.table.erase key).getKey? other)
      (store.table.erase key)[other]? = _
    rw [HashMap.getKey?_erase, HashMap.getElem?_erase, Entry.ofFound?_ite]
    rfl
  entry?_mapValues f store key := by
    show Entry.ofFound? ((store.table.map f).getKey? key) (store.table.map f)[key]? = _
    rw [HashMap.getKey?_map]
    exact Entry.ofFound?_map f fun _ => HashMap.getElem?_map_of_getKey?_eq_some
  entry?_congr store a b h := by
    show Entry.ofFound? (store.table.getKey? a) store.table[a]? = _
    rw [HashMap.getKey?_congr h, HashMap.getElem?_congr h]
    rfl
  key_of_entry? {store key entry} h := by
    have hkey : store.table.getKey? key = some entry.key :=
      (Entry.ofFound?_eq_some_iff.mp h).1
    have hequal := HashMap.getKey?_beq (m := store.table) (k := key)
    rw [hkey] at hequal
    exact hequal
  mem_entries_iff := by
    intro store entry
    show entry ∈ store.table.toList.map Entry.ofPair ↔ _
    rw [Entry.mem_map_ofPair_iff, HashMap.mem_toList_iff_getKey?_eq_some_and_getElem?_eq_some]
    exact Entry.ofFound?_eq_some_iff.symm
  distinct_entries store := by
    show Distinct ((store.table.toList.map Entry.ofPair).map Entry.key)
    rw [List.map_map]
    exact List.pairwise_map.mpr HashMap.distinct_keys_toList

instance [Ord K] [TransOrd K] [LawfulBEqOrd K] : LawfulStore (SortedStore K V) K V where
  entry?_empty key := by
    show Entry.ofFound? ((∅ : TreeMap K V).getKey? key) (∅ : TreeMap K V)[key]? = none
    rw [TreeMap.getKey?_emptyc]
    rfl
  entry?_set store entry key := by
    show Entry.ofFound? ((store.table.insert entry.key entry.value).getKey? key)
      (store.table.insert entry.key entry.value)[key]? = _
    rw [TreeMap.getKey?_insert, TreeMap.getElem?_insert, Entry.ofFound?_ite]
    simp only [LawfulBEqOrd.compare_eq_iff_beq]
    rfl
  entry?_erase store key other := by
    show Entry.ofFound? ((store.table.erase key).getKey? other)
      (store.table.erase key)[other]? = _
    rw [TreeMap.getKey?_erase, TreeMap.getElem?_erase, Entry.ofFound?_ite]
    simp only [LawfulBEqOrd.compare_eq_iff_beq]
    rfl
  entry?_mapValues f store key := by
    show Entry.ofFound? ((store.table.map f).getKey? key) (store.table.map f)[key]? = _
    rw [TreeMap.getKey?_map]
    exact Entry.ofFound?_map f fun _ => TreeMap.getElem?_map_of_getKey?_eq_some
  entry?_congr store a b h := by
    have hcompare : compare a b = .eq := LawfulBEqOrd.compare_eq_iff_beq.mpr h
    show Entry.ofFound? (store.table.getKey? a) store.table[a]? = _
    rw [TreeMap.getKey?_congr hcompare, TreeMap.getElem?_congr hcompare]
    rfl
  key_of_entry? {store key entry} h := by
    have hkey : store.table.getKey? key = some entry.key :=
      (Entry.ofFound?_eq_some_iff.mp h).1
    have hequal := TreeMap.compare_getKey?_self (t := store.table) (k := key)
    rw [hkey] at hequal
    exact LawfulBEqOrd.compare_eq_iff_beq.mp (of_decide_eq_true hequal)
  mem_entries_iff := by
    intro store entry
    show entry ∈ store.table.toList.map Entry.ofPair ↔ _
    rw [Entry.mem_map_ofPair_iff, TreeMap.mem_toList_iff_getKey?_eq_some_and_getElem?_eq_some]
    exact Entry.ofFound?_eq_some_iff.symm
  distinct_entries store := by
    show Distinct ((store.table.toList.map Entry.ofPair).map Entry.key)
    rw [List.map_map]
    refine List.pairwise_map.mpr (TreeMap.distinct_keys_toList.imp ?_)
    intro a b hne
    exact Bool.eq_false_iff.mpr (mt LawfulBEqOrd.compare_eq_iff_beq.mpr hne)

end Instances

/-! ## Entries and lookups -/

namespace LawfulStore

variable {S T : Type} [BEq K] [EquivBEq K] [Store S K V] [Store T K V] [LawfulStore S K V]
  [LawfulStore T K V]

theorem entries_nodup (store : S) :
    (Store.entries store).Nodup := by
  refine (List.pairwise_map.mp (distinct_entries store)).imp ?_
  intro a b hne heq
  rw [heq, BEq.rfl] at hne
  cases hne

theorem entries_perm {left : S} {right : T}
    (h : forall key, Store.entry? left key = Store.entry? right key) :
    (Store.entries left).Perm (Store.entries right) := by
  refine (List.perm_ext_iff_of_nodup (entries_nodup left) (entries_nodup right)).mpr ?_
  intro entry
  rw [mem_entries_iff, mem_entries_iff, h]

end LawfulStore
end SealedMap
