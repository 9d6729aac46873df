import SealedMap.Kind.Key
import SealedMap.Proofs.LawfulStores

/-!
# Writes on stores

Stores are followed by what they associate with every key.  A write of one key
decides what this key is associated with by what it was associated with before,
and leaves all others as they are.  Both stores do what is decided so, however
they go about it, and so they cannot be told apart.
-/

namespace SealedMap

open Std (TransOrd LawfulBEqOrd)

variable {K V S T : Type}

/-! ## What is decided -/

/-- What every key is associated with, with the key as it is stored. -/
abbrev Associations (K V : Type) : Type :=
  K -> Option (Entry K V)

structure Settled (K V : Type) where
  entry : Option (Entry K V)
  answer : Answered V
  calls : List (Callback K V)

namespace Associations

variable [BEq K]

def update (before : Associations K V) (key : K) (entry : Option (Entry K V)) :
    Associations K V := fun other =>
  if key == other then entry else before other

def put (before : Associations K V) (key : K) (value : V) : Associations K V :=
  before.update key (some ⟨((before key).map Entry.key).getD key, value⟩)

def settleAt (before : Associations K V) (key : K)
    (settle : Option (Entry K V) -> Settled K V) : Written (Associations K V) K V :=
  let settled := settle (before key)
  ⟨before.update key settled.entry, settled.answer, settled.calls⟩

end Associations

namespace Mutation

def key? : Mutation K V -> Option K
  | insert key _ | insertIfAbsent key _ | replace key _ | remove key => some key
  | merge key _ _ | compute key _ => some key
  | computeIfAbsent key _ | computeIfPresent key _ => some key
  | clear | replaceAll _ | extend _ => none

/-- What a write makes of associations, and what it tells and calls. -/
def reference [BEq K] (mutation : Mutation K V) (before : Associations K V) :
    Written (Associations K V) K V :=
  match mutation with
  | insert key value => before.settleAt key fun
      | none => ⟨some ⟨key, value⟩, .old none, []⟩
      | some entry => ⟨some ⟨entry.key, value⟩, .old (some entry.value), []⟩
  | insertIfAbsent key value => before.settleAt key fun
      | none => ⟨some ⟨key, value⟩, .added true, []⟩
      | some entry => ⟨some entry, .added false, []⟩
  | replace key value => before.settleAt key fun
      | none => ⟨none, .old none, []⟩
      | some entry => ⟨some ⟨entry.key, value⟩, .old (some entry.value), []⟩
  | remove key => before.settleAt key fun found => ⟨none, .old (found.map Entry.value), []⟩
  | clear => ⟨fun _ => none, .done, []⟩
  | merge key value combine => before.settleAt key fun
      | none => ⟨some ⟨key, value⟩, .done, []⟩
      | some entry =>
          ⟨(combine entry.value value).map (Entry.mk key), .done,
            [.combined entry.value value]⟩
  | compute key make => before.settleAt key fun found =>
      ⟨(make key (found.map Entry.value)).map (Entry.mk key), .done,
        [.computed key (found.map Entry.value)]⟩
  | computeIfAbsent key make => before.settleAt key fun
      | none => ⟨some ⟨key, make key⟩, .done, [.filled key]⟩
      | some entry => ⟨some entry, .done, []⟩
  | computeIfPresent key make => before.settleAt key fun
      | none => ⟨none, .done, []⟩
      | some entry =>
          ⟨(make entry.key entry.value).map (Entry.mk entry.key), .done,
            [.updated entry.key entry.value]⟩
  | replaceAll make => ⟨fun key => (before key).map (Entry.mapValue make), .done, []⟩
  | extend pairs =>
      ⟨pairs.foldl (fun before pair => before.put pair.1 pair.2) before, .done, []⟩

def runReference [BEq K] :
    List (Mutation K V) -> Associations K V -> List (Written (Associations K V) K V)
  | [], _ => []
  | mutation :: mutations, before =>
      let written := mutation.reference before
      written :: runReference mutations written.store

variable [BEq K]

theorem reference_store_of_ne (mutation : Mutation K V) {key other : K}
    (hkey : mutation.key? = some key) (hother : (key == other) = false)
    (before : Associations K V) :
    (mutation.reference before).store other = before other := by
  have hupdate : forall settle, (before.settleAt key settle).store other = before other := by
    intro settle
    exact if_neg (Bool.eq_false_iff.mp hother)
  cases mutation with
  | insert | insertIfAbsent | replace | remove | merge | compute | computeIfAbsent
  | computeIfPresent =>
      cases hkey
      rw [reference]
      exact hupdate _
  | clear | replaceAll | extend => cases hkey

theorem key_reference_replaceAll (make : K -> V -> V) (before : Associations K V) (key : K) :
    (((replaceAll make).reference before).store key).map Entry.key =
      (before key).map Entry.key := by
  rw [reference, Option.map_map]
  rfl

end Mutation

/-! ## What is done -/

section Lookups

variable [BEq K] [Store S K V] [LawfulStore S K V]

theorem entry?_empty_eq :
    Store.entry? (Store.empty : S) = fun _ => none :=
  funext LawfulStore.entry?_empty

theorem entry?_erase_eq (store : S) (key : K) :
    Store.entry? (Store.erase store key) = Associations.update (Store.entry? store) key none :=
  funext (LawfulStore.entry?_erase store key)

theorem entry?_mapValues_eq (f : K -> V -> V) (store : S) :
    Store.entry? (Store.mapValues f store) =
      fun key => (Store.entry? store key).map (Entry.mapValue f) :=
  funext (LawfulStore.entry?_mapValues f store)

theorem entry?_eq_update {store : S} {key : K} {found : Option (Entry K V)}
    (h : Store.entry? store key = found) :
    Store.entry? store = Associations.update (Store.entry? store) key found := by
  funext other
  unfold Associations.update
  split
  next hkey => rw [← h, LawfulStore.entry?_congr store hkey]
  next => rfl

variable [EquivBEq K]

theorem entry?_set_eq (store : S) {key stored : K} (hstored : (stored == key) = true)
    (value : V) :
    Store.entry? (Store.set store ⟨stored, value⟩) =
      Associations.update (Store.entry? store) key (some ⟨stored, value⟩) := by
  funext other
  have hkey : (stored == other) = (key == other) := BEq.congr_left hstored
  rw [LawfulStore.entry?_set, hkey]
  rfl

end Lookups

/-- A write, seen by what its store associates with every key. -/
def Written.seen [Store S K V] (written : Written S K V) : Written (Associations K V) K V :=
  ⟨Store.entry? written.store, written.answer, written.calls⟩

theorem seen_eq [Store S K V] {store : S} {after : Associations K V}
    (h : Store.entry? store = after) (answer : Answered V) (calls : List (Callback K V)) :
    (Written.mk store answer calls).seen = ⟨after, answer, calls⟩ := by
  rw [Written.seen, h]

theorem map_calls_map_seen [Store S K V] (writes : List (Written S K V)) :
    (writes.map Written.seen).map Written.calls = writes.map Written.calls := by
  rw [List.map_map]
  rfl

namespace Mutation

section Writes

variable [BEq K] [EquivBEq K] [Store S K V] [LawfulStore S K V]

theorem entry?_insertKeeping_eq (store : S) (key : K) (value : V) :
    Store.entry? (insertKeeping store key value) =
      Associations.put (Store.entry? store) key value := by
  unfold insertKeeping Associations.put
  cases hfound : Store.entry? store key with
  | none => exact entry?_set_eq store BEq.rfl value
  | some entry => exact entry?_set_eq store (LawfulStore.key_of_entry? hfound) value

theorem entry?_putBack_eq (store : S) {key stored : K} (hstored : (stored == key) = true)
    (value : Option V) :
    Store.entry? (putBack (Store.erase store key) stored value) =
      Associations.update (Store.entry? store) key (value.map (Entry.mk stored)) := by
  cases value with
  | none => exact entry?_erase_eq store key
  | some value =>
      have hgone : Store.entry? (Store.erase store key) stored = none := by
        rw [LawfulStore.entry?_erase, if_pos (BEq.symm hstored)]
      have hput := entry?_insertKeeping_eq (Store.erase store key) stored value
      rw [putBack, hput, Associations.put, hgone, entry?_erase_eq]
      funext other
      have hkey : (stored == other) = (key == other) := BEq.congr_left hstored
      unfold Associations.update
      rw [hkey]
      split
      next => rfl
      next => rfl

theorem entry?_foldl_insertKeeping_eq (pairs : List (K × V)) (store : S) :
    Store.entry? (pairs.foldl (fun store pair => insertKeeping store pair.1 pair.2) store) =
      pairs.foldl (fun before pair => Associations.put before pair.1 pair.2)
        (Store.entry? store) := by
  induction pairs generalizing store with
  | nil => rfl
  | cons pair pairs ih =>
      rw [List.foldl_cons, List.foldl_cons, ih, entry?_insertKeeping_eq]

theorem entry?_insertKeeping_of_none {store : S} {key : K}
    (h : Store.entry? store key = none) (value : V) :
    Store.entry? (insertKeeping store key value) =
      Associations.update (Store.entry? store) key (some ⟨key, value⟩) := by
  rw [entry?_insertKeeping_eq, Associations.put, h]
  rfl

/-- One write does to a store what is decided of its associations. -/
theorem seen_applyTo (mutation : Mutation K V) (store : S) :
    (mutation.applyTo store).seen = mutation.reference (Store.entry? store) := by
  cases mutation with
  | insert key value =>
      rw [applyTo, reference, Associations.settleAt,
        seen_eq (entry?_insertKeeping_eq store key value), Associations.put]
      cases Store.entry? store key with
      | none => rfl
      | some entry => rfl
  | insertIfAbsent key value =>
      rw [applyTo, reference, Associations.settleAt]
      cases hfound : Store.entry? store key with
      | none => exact seen_eq (entry?_insertKeeping_of_none hfound value) _ _
      | some entry => exact seen_eq (entry?_eq_update hfound) _ _
  | replace key value =>
      rw [applyTo, reference, Associations.settleAt]
      cases hfound : Store.entry? store key with
      | none => exact seen_eq (entry?_eq_update hfound) _ _
      | some entry =>
          exact seen_eq (entry?_set_eq store (LawfulStore.key_of_entry? hfound) value) _ _
  | remove key => exact seen_eq (entry?_erase_eq store key) _ _
  | clear => exact seen_eq entry?_empty_eq _ _
  | merge key value combine =>
      rw [applyTo, reference, Associations.settleAt]
      cases hfound : Store.entry? store key with
      | none => exact seen_eq (entry?_putBack_eq store BEq.rfl (some value)) _ _
      | some entry =>
          exact seen_eq (entry?_putBack_eq store BEq.rfl (combine entry.value value)) _ _
  | compute key make =>
      exact seen_eq (entry?_putBack_eq store BEq.rfl _) _ _
  | computeIfAbsent key make =>
      rw [applyTo, reference, Associations.settleAt]
      cases hfound : Store.entry? store key with
      | none => exact seen_eq (entry?_set_eq store BEq.rfl (make key)) _ _
      | some entry => exact seen_eq (entry?_eq_update hfound) _ _
  | computeIfPresent key make =>
      rw [applyTo, reference, Associations.settleAt]
      cases hfound : Store.entry? store key with
      | none => exact seen_eq (entry?_eq_update hfound) _ _
      | some entry =>
          have hstored := LawfulStore.key_of_entry? hfound
          exact seen_eq (entry?_putBack_eq store hstored (make entry.key entry.value)) _ _
  | replaceAll make => exact seen_eq (entry?_mapValues_eq make store) _ _
  | extend pairs => exact seen_eq (entry?_foldl_insertKeeping_eq pairs store) _ _

/-! ### Runs -/

theorem map_seen_run (mutations : List (Mutation K V)) (store : S) :
    (run mutations store).map Written.seen = runReference mutations (Store.entry? store) := by
  induction mutations generalizing store with
  | nil => rfl
  | cons mutation mutations ih =>
      have hseen := seen_applyTo mutation store
      have hstore : Store.entry? (mutation.applyTo store).store =
          (mutation.reference (Store.entry? store)).store := congrArg Written.store hseen
      rw [run, runReference, List.map_cons, hseen, ih, hstore]

end Writes

def respelling (stored given : K) (old new : V) (combine : V -> V -> V) :
    List (Mutation K V) :=
  [.insert stored old, .merge given new fun old new => some (combine old new),
    .computeIfPresent stored fun _ _ => none]

theorem calls_runReference_respelling [BEq K] [EquivBEq K] {stored given : K}
    (h : (stored == given) = true) (old new : V) (combine : V -> V -> V) :
    (runReference (respelling stored given old new combine) fun _ => none).map Written.calls =
      [[], [.combined old new], [.updated given (combine old new)]] := by
  simp only [respelling, runReference, reference, Associations.settleAt, Associations.update, h,
    BEq.symm h, if_true, Option.map_some, Option.map_none, List.map_cons, List.map_nil]

/--
A hash store and a sorted store that start with the same entries cannot be told
apart by any writes.  Every write does to both what is decided of their
associations, tells the same, calls the function of a single key with the same,
and leaves the same entries, so that one that goes over all of them goes over the
same ones.
What is decided for one key leaves the other keys as they are, and replacing all
values keeps every key as it is stored.
-/
theorem stores_follow_reference {K V : Type} [BEq K] [EquivBEq K] [Hashable K]
    [LawfulHashable K] [Ord K] [TransOrd K] [LawfulBEqOrd K] {hashed : HashStore K V}
    {sorted : SortedStore K V}
    (hstart : forall key, Store.entry? hashed key = Store.entry? sorted key)
    (mutations : List (Mutation K V)) :
    (run mutations hashed).map Written.seen =
        runReference mutations (Store.entry? hashed) ∧
      (run mutations sorted).map Written.seen =
        runReference mutations (Store.entry? hashed) ∧
      (Store.entries hashed).Perm (Store.entries sorted) ∧
      (forall (n : Nat) (left : Written (HashStore K V) K V)
        (right : Written (SortedStore K V) K V),
        (run mutations hashed)[n]? = some left -> (run mutations sorted)[n]? = some right ->
        (Store.entries left.store).Perm (Store.entries right.store)) ∧
      (forall (mutation : Mutation K V) (key other : K) (before : Associations K V),
        mutation.key? = some key -> (key == other) = false ->
        (mutation.reference before).store other = before other) ∧
      forall (make : K -> V -> V) (before : Associations K V) (key : K),
        (((replaceAll make).reference before).store key).map Entry.key =
          (before key).map Entry.key := by
  have hsame : Store.entry? hashed = Store.entry? sorted := funext hstart
  have hhashed := map_seen_run mutations hashed
  have hsorted := map_seen_run mutations sorted
  rw [← hsame] at hsorted
  refine ⟨hhashed, hsorted, LawfulStore.entries_perm hstart, ?_,
    fun mutation _ _ before hkey hother => reference_store_of_ne mutation hkey hother before,
    key_reference_replaceAll⟩
  intro n left right hleft hright
  have hseen : left.seen = right.seen := by
    have hnth := congrArg (fun writes => writes[n]?) (hhashed.trans hsorted.symm)
    simp only [List.getElem?_map, hleft, hright, Option.map_some, Option.some.injEq] at hnth
    exact hnth
  exact LawfulStore.entries_perm fun key => congrFun (congrArg Written.store hseen) key

theorem stores_follow_reference_respelling :
    let mutations := respelling (⟨"a"⟩ : Caseless) ⟨"A"⟩ (1 : Int64) 2 (· + ·)
    (forall key, Store.entry? (Store.empty : HashStore Caseless Int64) key =
      Store.entry? (Store.empty : SortedStore Caseless Int64) key) ∧
      (run mutations (Store.empty : HashStore Caseless Int64)).map Written.seen =
        (run mutations (Store.empty : SortedStore Caseless Int64)).map Written.seen ∧
      (run mutations (Store.empty : SortedStore Caseless Int64)).map Written.calls =
        [[], [.combined 1 2], [.updated ⟨"A"⟩ (1 + 2)]] := by
  intro mutations
  have hstart : forall key, Store.entry? (Store.empty : HashStore Caseless Int64) key =
      Store.entry? (Store.empty : SortedStore Caseless Int64) key := by
    intro key
    rw [entry?_empty_eq, entry?_empty_eq]
  have hruns := stores_follow_reference hstart mutations
  have hequal : ((⟨"a"⟩ : Caseless) == ⟨"A"⟩) = true := by decide +kernel
  refine ⟨hstart, hruns.1.trans hruns.2.1.symm, ?_⟩
  rw [← map_calls_map_seen, hruns.2.1, entry?_empty_eq]
  exact calls_runReference_respelling hequal 1 2 (· + ·)

end Mutation
end SealedMap
