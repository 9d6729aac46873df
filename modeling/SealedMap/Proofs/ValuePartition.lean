import Mathlib.Data.List.Nodup
import SealedMap.Builder
import SealedMap.Kind.Value
import SealedMap.Proofs.InverseGroups
import SealedMap.Proofs.ViewAgreement

/-!
# The partition of a map by its values

Being at one position or having equal values is an equivalence of positions, also
where values are not equal to themselves.  The groups of the inverse are its
classes: each position is in one group, and the groups stand in the order of the
positions that open them.
-/

namespace SealedMap

variable {K V : Type} [BEq V] {entries : Array (Entry K V)}

/-! ## Positions with one value -/

/-- The two positions are one, or they have equal values. -/
def SameValue (entries : Array (Entry K V)) (p q : Nat) : Prop :=
  p = q ∨ exists first second, entries[p]? = some first ∧ entries[q]? = some second ∧
    (first.value == second.value) = true

theorem SameValue.refl (p : Nat) : SameValue entries p p :=
  Or.inl rfl

theorem sameValue_iff {first second : Entry K V} {p q : Nat}
    (hfirst : entries[p]? = some first) (hsecond : entries[q]? = some second) :
    SameValue entries p q ↔ p = q ∨ (first.value == second.value) = true := by
  unfold SameValue
  rw [hfirst, hsecond]
  simp

theorem sameValue_iff_hasValueAt {second : Entry K V} {p q : Nat}
    (hsecond : entries[q]? = some second) :
    SameValue entries p q ↔ p = q ∨ hasValueAt entries second.value p = true := by
  unfold SameValue
  rw [hasValueAt_iff, hsecond]
  simp

theorem opens_iff_sameValue {pos : Nat} (hlt : pos < entries.size) :
    opens entries pos = true ↔ forall p, p < pos -> ¬ SameValue entries p pos := by
  have hentry := Array.getElem?_eq_getElem hlt
  rw [opens_iff hentry]
  apply forall₂_congr
  intro p hp
  rw [sameValue_iff_hasValueAt hentry, or_iff_right (Nat.ne_of_lt hp), Bool.not_eq_true]

theorem nodup_members (count first : Nat) :
    (members entries count first).Nodup :=
  List.nodup_range.filter _

theorem lt_of_mem_members {count first pos : Nat} (h : pos ∈ members entries count first) :
    pos < count :=
  List.mem_range.mp (List.mem_filter.mp h).1

theorem getElem?_zero_members {first : Nat} (h : first ∈ openers entries entries.size) :
    (members entries entries.size first).toArray[0]? = some first := by
  rcases mem_openers_iff.mp h with ⟨hlt, hopens⟩
  rw [List.getElem?_toArray, ← List.head?_eq_getElem?, head?_members hopens hlt]

section Equivalence

variable [PartialEquivBEq V] {p q r : Nat}

theorem SameValue.symm (h : SameValue entries p q) : SameValue entries q p := by
  rcases h with rfl | ⟨first, second, hfirst, hsecond, heq⟩
  · exact SameValue.refl p
  · exact Or.inr ⟨second, first, hsecond, hfirst, BEq.symm heq⟩

theorem SameValue.trans (h : SameValue entries p q) (k : SameValue entries q r) :
    SameValue entries p r := by
  rcases h with rfl | ⟨first, second, hfirst, hsecond, heq⟩
  · exact k
  · rcases k with rfl | ⟨other, third, hother, hthird, heq'⟩
    · exact Or.inr ⟨first, second, hfirst, hsecond, heq⟩
    · rw [hsecond] at hother
      cases hother
      exact Or.inr ⟨first, third, hfirst, hthird, BEq.trans heq heq'⟩

theorem joins_iff {first pos : Nat} (hlt : first < entries.size) :
    joins entries first pos = true ↔ SameValue entries first pos := by
  have hopener := Array.getElem?_eq_getElem hlt
  rw [joins_eq hopener, Bool.or_eq_true, beq_iff_eq, ← sameValue_iff_hasValueAt hopener]
  exact ⟨SameValue.symm, SameValue.symm⟩

/-! ## One group for each position -/

theorem mem_members_iff {count first pos : Nat} (hlt : first < entries.size) :
    pos ∈ members entries count first ↔ pos < count ∧ SameValue entries first pos := by
  rw [members, List.mem_filter, List.mem_range, joins_iff hlt]

theorem SameValue.eq_of_opens (h : SameValue entries p q) (hp : p ∈ openers entries entries.size)
    (hq : q ∈ openers entries entries.size) :
    p = q := by
  rcases mem_openers_iff.mp hp with ⟨hplt, hpopens⟩
  rcases mem_openers_iff.mp hq with ⟨hqlt, hqopens⟩
  rcases Nat.lt_trichotomy p q with hlt | heq | hlt
  · exact absurd h ((opens_iff_sameValue hqlt).mp hqopens p hlt)
  · exact heq
  · exact absurd h.symm ((opens_iff_sameValue hplt).mp hpopens q hlt)

theorem exists_sameValue_opener {pos : Nat} (hlt : pos < entries.size) :
    exists first, first ∈ openers entries entries.size ∧ SameValue entries first pos := by
  induction pos using Nat.strongRecOn with
  | ind pos ih =>
      by_cases hopens : opens entries pos = true
      · exact ⟨pos, mem_openers_iff.mpr ⟨hlt, hopens⟩, SameValue.refl pos⟩
      · simp only [opens_iff_sameValue hlt, not_forall, not_not] at hopens
        rcases hopens with ⟨p, hp, hsame⟩
        rcases ih p hp (Nat.lt_trans hp hlt) with ⟨first, hfirst, hgroup⟩
        exact ⟨first, hfirst, hgroup.trans hsame⟩

theorem disjoint_members (hp : p ∈ openers entries entries.size)
    (hq : q ∈ openers entries entries.size) (hne : p ≠ q) :
    List.Disjoint (members entries entries.size p) (members entries entries.size q) := by
  intro pos hpos hpos'
  have hsame := ((mem_members_iff (mem_openers_iff.mp hp).1).mp hpos).2
  have hsame' := ((mem_members_iff (mem_openers_iff.mp hq).1).mp hpos').2
  exact hne ((hsame.trans hsame'.symm).eq_of_opens hp hq)

theorem perm_flatMap_members (entries : Array (Entry K V)) :
    ((openers entries entries.size).flatMap (members entries entries.size)).Perm
      (List.range entries.size) := by
  have hnodup : ((openers entries entries.size).flatMap
      (members entries entries.size)).Nodup := by
    apply List.nodup_flatMap.mpr
    refine ⟨fun first _ => nodup_members entries.size first, ?_⟩
    apply (nodup_openers entries.size).imp_of_mem
    intro p q hp hq hne
    exact disjoint_members hp hq hne
  rw [List.perm_ext_iff_of_nodup hnodup List.nodup_range]
  intro pos
  rw [List.mem_flatMap, List.mem_range]
  constructor
  · intro h
    rcases h with ⟨first, _, hmem⟩
    exact lt_of_mem_members hmem
  · intro hlt
    rcases exists_sameValue_opener hlt with ⟨first, hfirst, hsame⟩
    exact ⟨first, hfirst, (mem_members_iff (mem_openers_iff.mp hfirst).1).mpr ⟨hlt, hsame⟩⟩

theorem exists_members_iff (hp : p < entries.size) (hq : q < entries.size) :
    (exists first, first ∈ openers entries entries.size ∧
        p ∈ members entries entries.size first ∧ q ∈ members entries entries.size first) ↔
      SameValue entries p q := by
  constructor
  · intro h
    rcases h with ⟨first, hfirst, hpmem, hqmem⟩
    have hlt := (mem_openers_iff.mp hfirst).1
    exact ((mem_members_iff hlt).mp hpmem).2.symm.trans ((mem_members_iff hlt).mp hqmem).2
  · intro h
    rcases exists_sameValue_opener hp with ⟨first, hfirst, hsame⟩
    have hlt := (mem_openers_iff.mp hfirst).1
    exact ⟨first, hfirst, (mem_members_iff hlt).mpr ⟨hp, hsame⟩,
      (mem_members_iff hlt).mpr ⟨hq, hsame.trans h⟩⟩

theorem sameValue_iff_of_ne_self {entry : Entry K V} (hentry : entries[p]? = some entry)
    (hne : (entry.value == entry.value) = false) :
    SameValue entries p q ↔ p = q := by
  constructor
  · intro h
    rcases h with heq | ⟨first, second, hfirst, _, heq⟩
    · exact heq
    · rw [hentry] at hfirst
      cases hfirst
      rw [BEq.trans heq (BEq.symm heq)] at hne
      cases hne
  · intro h
    exact Or.inl h

theorem members_of_ne_self {entry : Entry K V} (hentry : entries[p]? = some entry)
    (hne : (entry.value == entry.value) = false) :
    members entries entries.size p = [p] := by
  have hlt := (Array.getElem?_eq_some_iff.mp hentry).1
  rw [← List.perm_singleton, List.perm_ext_iff_of_nodup (nodup_members entries.size p)
    (List.nodup_singleton p)]
  intro pos
  rw [mem_members_iff hlt, sameValue_iff_of_ne_self hentry hne, List.mem_singleton]
  constructor
  · intro h
    exact h.2.symm
  · rintro rfl
    exact ⟨hlt, rfl⟩

end Equivalence

/-! ## The groups of the inverse -/

namespace Inverse

variable [BEq K] [Hashable K] [Hashable V] [PartialEquivBEq V] [LawfulHashable V]
  {map : Map K V}

theorem mem_groups_iff {group : Array Nat} :
    group ∈ (ofMap map).groups ↔ exists first, first ∈ openers map.entries map.entries.size ∧
      (members map.entries map.entries.size first).toArray = group := by
  rw [← Array.mem_toList_iff, (grouped_ofMap map).toList_groups, List.mem_map]

theorem groups_ascend (map : Map K V) :
    (ofMap map).groups.toList.Pairwise fun left right =>
      forall p q, left[0]? = some p -> right[0]? = some q -> p < q := by
  rw [(grouped_ofMap map).toList_groups, List.pairwise_map]
  apply (List.pairwise_lt_range.filter _).imp_of_mem
  intro first second hfirst hsecond hlt p q hp hq
  rw [getElem?_zero_members hfirst] at hp
  rw [getElem?_zero_members hsecond] at hq
  cases hp
  cases hq
  exact hlt

theorem perm_flatMap_groups (map : Map K V) :
    ((ofMap map).groups.toList.flatMap Array.toList).Perm (List.range map.entries.size) := by
  rw [(grouped_ofMap map).toList_groups, List.flatMap_map]
  exact perm_flatMap_members map.entries

theorem ne_empty_of_mem_groups {group : Array Nat} (hgroup : group ∈ (ofMap map).groups) :
    group ≠ #[] := by
  rcases mem_groups_iff.mp hgroup with ⟨first, hfirst, rfl⟩
  intro hnil
  have hzero := getElem?_zero_members hfirst
  rw [hnil] at hzero
  cases hzero

theorem ascending_of_mem_groups {group : Array Nat} (hgroup : group ∈ (ofMap map).groups) :
    group.toList.Pairwise (· < ·) := by
  rcases mem_groups_iff.mp hgroup with ⟨first, _, rfl⟩
  exact List.pairwise_lt_range.filter _

/-- The groups are the classes of positions with one value. -/
theorem exists_group_iff {p q : Nat} {first second : Entry K V}
    (hp : map.entries[p]? = some first) (hq : map.entries[q]? = some second) :
    (exists group, group ∈ (ofMap map).groups ∧ p ∈ group ∧ q ∈ group) ↔
      p = q ∨ (first.value == second.value) = true := by
  have hplt := (Array.getElem?_eq_some_iff.mp hp).1
  have hqlt := (Array.getElem?_eq_some_iff.mp hq).1
  rw [← sameValue_iff hp hq, ← exists_members_iff hplt hqlt]
  constructor
  · rintro ⟨group, hgroup, hpmem, hqmem⟩
    rcases mem_groups_iff.mp hgroup with ⟨opener, hopener, rfl⟩
    exact ⟨opener, hopener, List.mem_toArray.mp hpmem, List.mem_toArray.mp hqmem⟩
  · rintro ⟨opener, hopener, hpmem, hqmem⟩
    exact ⟨_, mem_groups_iff.mpr ⟨opener, hopener, rfl⟩, List.mem_toArray.mpr hpmem,
      List.mem_toArray.mpr hqmem⟩

theorem lt_size_of_mem_groups {group : Array Nat} (hgroup : group ∈ (ofMap map).groups)
    {pos : Nat} (hpos : pos ∈ group) :
    pos < map.entries.size := by
  rcases mem_groups_iff.mp hgroup with ⟨first, _, rfl⟩
  exact lt_of_mem_members (List.mem_toArray.mp hpos)

theorem exists_first_of_mem_groups {group : Array Nat} (hgroup : group ∈ (ofMap map).groups) :
    exists first entry, group[0]? = some first ∧ map.entries[first]? = some entry := by
  rcases mem_groups_iff.mp hgroup with ⟨first, hfirst, rfl⟩
  have hlt := (mem_openers_iff.mp hfirst).1
  exact ⟨first, _, getElem?_zero_members hfirst, Array.getElem?_eq_getElem hlt⟩

/-! ## Nothing is left out -/

theorem map_some_filterMap {α β : Type} {f : α -> Option β} {items : List α}
    (h : forall item, item ∈ items -> exists found, f item = some found) :
    (items.filterMap f).map some = items.map f := by
  rw [List.map_filterMap, List.filterMap_eq_map_iff_forall_eq_some]
  intro item hitem
  rcases h item hitem with ⟨found, hfound⟩
  rw [hfound]
  rfl

theorem map_some_keysAt {group : Array Nat} (hgroup : group ∈ (ofMap map).groups) :
    ((ofMap map).keysAt group).map some =
      group.toList.map fun pos => map.entries[pos]?.map Entry.key := by
  rw [keysAt, (grouped_ofMap map).map_eq]
  apply map_some_filterMap
  intro pos hpos
  have hlt := lt_size_of_mem_groups hgroup (Array.mem_toList_iff.mp hpos)
  rw [Array.getElem?_eq_getElem hlt]
  exact ⟨_, rfl⟩

def listed? (inverse : Inverse K V) (group : Array Nat) : Option (V × List K) :=
  (group[0]?.bind fun pos => inverse.map.entries[pos]?).map fun entry =>
    (entry.value, inverse.keysAt group)

theorem listed?_eq {group : Array Nat} {first : Nat} {entry : Entry K V}
    (hfirst : group[0]? = some first) (hentry : map.entries[first]? = some entry) :
    (ofMap map).listed? group = some (entry.value, (ofMap map).keysAt group) := by
  rw [listed?, hfirst, Option.bind_some, (grouped_ofMap map).map_eq, hentry, Option.map_some]

theorem map_some_toList (map : Map K V) :
    (ofMap map).toList.map some = (ofMap map).groups.toList.map (ofMap map).listed? := by
  apply map_some_filterMap
  intro group hgroup
  rcases exists_first_of_mem_groups (Array.mem_toList_iff.mp hgroup) with
    ⟨first, entry, hfirst, hentry⟩
  exact ⟨_, listed?_eq hfirst hentry⟩

theorem length_toList_ofMap (map : Map K V) :
    (ofMap map).toList.length = (ofMap map).groups.size := by
  have hlength := congrArg List.length (map_some_toList map)
  rw [List.length_map, List.length_map, Array.length_toList] at hlength
  exact hlength

theorem getElem?_toList_ofMap {n : Nat} {group : Array Nat}
    (hgroup : (ofMap map).groups[n]? = some group) :
    (ofMap map).toList[n]? = (ofMap map).listed? group := by
  have hheld : (ofMap map).groups.toList[n]? = some group :=
    Array.getElem?_toList.trans hgroup
  have hlisted := congrArg (·[n]?) (map_some_toList map)
  rw [List.getElem?_map, List.getElem?_map, hheld, Option.map_some] at hlisted
  cases hitem : (ofMap map).toList[n]? with
  | none =>
      rw [hitem] at hlisted
      cases hlisted
  | some item =>
      rw [hitem] at hlisted
      exact Option.some.inj hlisted

theorem containsValue_iff_get_ne_nil (map : Map K V) (value : V) :
    (ofMap map).containsValue value = true ↔ (ofMap map).get value ≠ [] := by
  rw [containsValue_ofMap, get_ofMap, Map.containsValue_iff, ne_eq, List.map_eq_nil_iff,
    List.filter_eq_nil_iff]
  simp only [not_forall, not_not, Array.mem_toList_iff, exists_prop]

/-! ## Values that are not equal to themselves -/

omit [Hashable V] [LawfulHashable V] in
theorem containsValue_of_ne_self (map : Map K V) {value : V} (hne : (value == value) = false) :
    map.containsValue value = false := by
  rw [← Bool.not_eq_true, Map.containsValue_iff]
  intro h
  rcases h with ⟨entry, _, heq⟩
  rw [BEq.trans (BEq.symm heq) heq] at hne
  cases hne

theorem mem_groups_of_ne_self {pos : Nat} {entry : Entry K V}
    (hentry : map.entries[pos]? = some entry) (hne : (entry.value == entry.value) = false) :
    #[pos] ∈ (ofMap map).groups := by
  have hlt := (Array.getElem?_eq_some_iff.mp hentry).1
  rcases exists_sameValue_opener hlt with ⟨first, hfirst, hsame⟩
  rcases (sameValue_iff_of_ne_self hentry hne).mp hsame.symm with rfl
  exact mem_groups_iff.mpr ⟨pos, hfirst, by rw [members_of_ne_self hentry hne]⟩

theorem group?_ne_of_ne_self {pos n : Nat} {entry : Entry K V} {value : V}
    (hentry : map.entries[pos]? = some entry) (hne : (entry.value == entry.value) = false)
    (hgroup : (ofMap map).groups[n]? = some #[pos]) :
    (ofMap map).group? value ≠ some n := by
  intro hfound
  rcases (grouped_ofMap map).group?_eq_some_iff.mp hfound with ⟨first, hfirst, hvalue⟩
  rw [(grouped_ofMap map).getElem?_groups hfirst] at hgroup
  have hzero := getElem?_zero_members (List.mem_of_getElem? hfirst)
  rw [Option.some.inj hgroup] at hzero
  have hpos : pos = first := Option.some.inj hzero
  rw [← hpos, hasValueAt_eq hentry] at hvalue
  rw [BEq.trans hvalue (BEq.symm hvalue)] at hne
  cases hne

end Inverse

namespace Map

open Inverse

variable [BEq K] [Hashable K] [Hashable V] [PartialEquivBEq V] [LawfulHashable V]

/--
The groups of the inverse partition the positions of a map, each of them in
ascending order.  Two positions share a group if they are one or have equal values.
The groups are listed in the order of their first positions, under the values
there, with the keys at all of their positions.  A value is looked up with the keys
of the entries that have it, in iteration order, and is there if the map has it.
An entry whose value is not equal to itself is alone in its group, which no value
finds.
-/
theorem inverse_partitions_by_value (map : Map K V) :
    let inverse := map.asMultimap.inverse
    (inverse.groups.toList.flatMap Array.toList).Perm (List.range map.size) ∧
    (forall group, group ∈ inverse.groups -> group ≠ #[] ∧ group.toList.Pairwise (· < ·)) ∧
    (forall (p q : Nat) (first second : Entry K V),
      map.entries[p]? = some first -> map.entries[q]? = some second ->
      ((exists group, group ∈ inverse.groups ∧ p ∈ group ∧ q ∈ group) ↔
        p = q ∨ (first.value == second.value) = true)) ∧
    (inverse.groups.toList.Pairwise fun left right =>
      forall p q, left[0]? = some p -> right[0]? = some q -> p < q) ∧
    inverse.toList.length = inverse.groups.size ∧
    (forall (n : Nat) (group : Array Nat), inverse.groups[n]? = some group ->
      exists first entry, group[0]? = some first ∧ map.entries[first]? = some entry ∧
        inverse.toList[n]? = some (entry.value, inverse.keysAt group) ∧
        (inverse.keysAt group).map some =
          group.toList.map fun pos => map.entries[pos]?.map Entry.key) ∧
    (forall value,
      inverse.get value =
        (map.entries.toList.filter fun entry => entry.value == value).map Entry.key ∧
      (inverse.containsValue value = true ↔ inverse.get value ≠ []) ∧
      inverse.containsValue value = map.containsValue value) ∧
    (forall (pos : Nat) (entry : Entry K V), map.entries[pos]? = some entry ->
      (entry.value == entry.value) = false ->
      #[pos] ∈ inverse.groups ∧
      (forall value n, inverse.groups[n]? = some #[pos] -> inverse.group? value ≠ some n) ∧
      inverse.get entry.value = [] ∧ inverse.containsValue entry.value = false) := by
  refine ⟨perm_flatMap_groups map, ?_, ?_, groups_ascend map, length_toList_ofMap map, ?_, ?_,
    ?_⟩
  · intro group hgroup
    exact ⟨ne_empty_of_mem_groups hgroup, ascending_of_mem_groups hgroup⟩
  · intro p q first second hp hq
    exact exists_group_iff hp hq
  · intro n group hgroup
    have hmem := Array.mem_of_getElem? hgroup
    rcases exists_first_of_mem_groups hmem with ⟨first, entry, hfirst, hentry⟩
    refine ⟨first, entry, hfirst, hentry, ?_, map_some_keysAt hmem⟩
    exact (getElem?_toList_ofMap hgroup).trans (listed?_eq hfirst hentry)
  · intro value
    exact ⟨get_ofMap map value, containsValue_iff_get_ne_nil map value,
      containsValue_ofMap map value⟩
  · intro pos entry hentry hne
    have hnone := (containsValue_ofMap map entry.value).trans (containsValue_of_ne_self map hne)
    refine ⟨mem_groups_of_ne_self hentry hne, ?_, ?_, hnone⟩
    · intro value n hgroup
      exact group?_ne_of_ne_self hentry hne hgroup
    · apply Classical.byContradiction
      intro hget
      rw [(containsValue_iff_get_ne_nil map entry.value).mpr hget] at hnone
      cases hnone

end Map

/-! ## Missing values -/

namespace Nullable

theorem beq_eq_true_iff {a b : Nullable} :
    (a == b) = true ↔ exists n, a = some n ∧ b = some n := by
  constructor
  · intro h
    rcases a with ⟨_ | m⟩
    · cases h
    · rcases b with ⟨_ | n⟩
      · cases h
      · cases LawfulBEq.eq_of_beq (show (m == n) = true from h)
        exact ⟨m, rfl, rfl⟩
  · rintro ⟨n, rfl, rfl⟩
    rw [some_beq_some, beq_self_eq_true]

instance : PartialEquivBEq Nullable where
  symm h := by
    rcases beq_eq_true_iff.mp h with ⟨n, rfl, rfl⟩
    exact h
  trans h k := by
    rcases beq_eq_true_iff.mp h with ⟨n, rfl, rfl⟩
    exact k

instance : LawfulHashable Nullable where
  hash_eq _ _ h := by
    rcases beq_eq_true_iff.mp h with ⟨n, rfl, rfl⟩
    rfl

end Nullable

namespace Map

def twoMissing : Map Nat Nullable where
  layout :=
    .chained #[⟨1, .some 5⟩, ⟨2, .nil⟩, ⟨3, .some 5⟩, ⟨4, .nil⟩]
      { hash := fun _ => 0
        heads := #[some 3, none, none, none]
        links := #[none, some 0, some 1, some 2]
        shift := 62 }
  hash := fun _ => 0

theorem inverse_partitions_by_value_twoMissing :
    (ofDistinct (fun _ => 0) twoMissing.toList).outcome = .ok twoMissing ∧
      twoMissing.asMultimap.inverse.get (.some 5) = [1, 3] ∧
      (exists group, group ∈ twoMissing.asMultimap.inverse.groups ∧ 0 ∈ group ∧ 2 ∈ group) ∧
      #[1] ∈ twoMissing.asMultimap.inverse.groups ∧
      #[3] ∈ twoMissing.asMultimap.inverse.groups ∧
      twoMissing.asMultimap.inverse.get .nil = [] ∧
      twoMissing.asMultimap.inverse.containsValue .nil = false := by
  rcases inverse_partitions_by_value twoMissing with ⟨_, _, hshare, _, _, _, hfind, halone⟩
  have hsecond := halone 1 ⟨2, .nil⟩ rfl rfl
  refine ⟨by cbv, ?_, ?_, hsecond.1, (halone 3 ⟨4, .nil⟩ rfl rfl).1, hsecond.2.2⟩
  · rw [(hfind (.some 5)).1]
    rfl
  · exact (hshare 0 2 ⟨1, .some 5⟩ ⟨3, .some 5⟩ rfl rfl).mpr (Or.inr rfl)

end Map

end SealedMap
