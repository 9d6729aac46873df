import SealedMap.Proofs.Placement
import SealedMap.Proofs.ValueGroups
import SealedMap.View.Inverse

/-!
# What the inverse finds

The inverse has the groups of equal values, in the order of their first
positions, and finds each by its value, whatever the hash function of values
does.  Letting one more position join keeps this, so it holds of the inverse of
every map.
-/

namespace SealedMap

variable {K V : Type} [BEq V]

namespace Inverse

open Index (getElem?_of_drop_eq_cons)

variable [BEq K] [Hashable K] [Hashable V]

/-- The inverse has the groups of the positions below `count`, and finds them by their values. -/
structure Grouped (map : Map K V) (count : Nat) (inverse : Inverse K V) : Prop where
  map_eq : inverse.map = map
  toList_groups : inverse.groups.toList =
    (openers map.entries count).map fun first => (members map.entries count first).toArray
  mem_buckets_iff : forall (code : UInt64) (group : Nat),
    group ∈ inverse.buckets.getD code [] ↔
      exists first opener, (openers map.entries count)[group]? = some first ∧
        map.entries[first]? = some opener ∧ hash opener.value = code

variable {map : Map K V} {count : Nat} {inverse : Inverse K V}

theorem grouped_start (map : Map K V) :
    Grouped map 0 (⟨map, #[], ∅⟩ : Inverse K V) := by
  refine ⟨rfl, rfl, ?_⟩
  intro code group
  simp [openers]

theorem Grouped.getElem?_groups (h : Grouped map count inverse) {group first : Nat}
    (hfirst : (openers map.entries count)[group]? = some first) :
    inverse.groups[group]? = some (members map.entries count first).toArray := by
  rw [← Array.getElem?_toList, h.toList_groups, List.getElem?_map, hfirst, Option.map_some]

theorem Grouped.size_groups (h : Grouped map count inverse) :
    inverse.groups.size = (openers map.entries count).length := by
  rw [← Array.length_toList, h.toList_groups, List.length_map]

theorem Grouped.representative?_eq (h : Grouped map count inverse) {group first : Nat}
    (hfirst : (openers map.entries count)[group]? = some first) :
    inverse.representative? group = map.entries[first]?.map Entry.value := by
  rcases opens_of_getElem? hfirst with ⟨hlt, hopens⟩
  have hhead : (members map.entries count first).toArray[0]? = some first := by
    rw [List.getElem?_toArray, ← List.head?_eq_getElem?, head?_members hopens hlt]
  unfold representative?
  rw [h.getElem?_groups hfirst]
  dsimp only
  rw [hhead, Option.bind_some, h.map_eq]

def isShownAs (inverse : Inverse K V) (value : V) (group : Nat) : Bool :=
  match inverse.representative? group with
  | some held => held == value
  | none => false

theorem group?_eq (inverse : Inverse K V) (value : V) :
    inverse.group? value =
      (inverse.buckets.getD (hash value) []).find? (inverse.isShownAs value) := rfl

theorem Grouped.isShownAs_eq (h : Grouped map count inverse) {group first : Nat}
    (hfirst : (openers map.entries count)[group]? = some first) (value : V) :
    inverse.isShownAs value group = hasValueAt map.entries value first := by
  unfold isShownAs hasValueAt
  rw [h.representative?_eq hfirst]
  cases map.entries[first]? <;> rfl

variable [PartialEquivBEq V] [LawfulHashable V]

theorem Grouped.group?_eq_some_iff (h : Grouped map count inverse) {value : V} {group : Nat} :
    inverse.group? value = some group ↔
      exists first, (openers map.entries count)[group]? = some first ∧
        hasValueAt map.entries value first = true := by
  have hsound : forall {group : Nat}, inverse.group? value = some group ->
      exists first, (openers map.entries count)[group]? = some first ∧
        hasValueAt map.entries value first = true := by
    intro group hfind
    rw [group?_eq] at hfind
    rcases (h.mem_buckets_iff _ _).mp (List.mem_of_find?_eq_some hfind) with ⟨first, _, hfirst, _⟩
    have hequal := List.find?_some hfind
    rw [h.isShownAs_eq hfirst] at hequal
    exact ⟨first, hfirst, hequal⟩
  refine ⟨hsound, ?_⟩
  intro hboth
  rcases hboth with ⟨first, hfirst, hvalue⟩
  rcases hasValueAt_iff.mp hvalue with ⟨opener, hopener, heq⟩
  have hmem : group ∈ inverse.buckets.getD (hash value) [] :=
    (h.mem_buckets_iff _ _).mpr ⟨first, opener, hfirst, hopener, hash_eq heq⟩
  cases hfind : inverse.group? value with
  | none =>
      rw [group?_eq] at hfind
      have hnot := List.find?_eq_none.mp hfind group hmem
      rw [h.isShownAs_eq hfirst] at hnot
      exact absurd hvalue hnot
  | some other =>
      rcases hsound hfind with ⟨first', hfirst', hvalue'⟩
      have hsame := opener_unique (opens_of_getElem? hfirst).2 (opens_of_getElem? hfirst').2
        hvalue hvalue'
      subst hsame
      have hlt := (List.getElem?_eq_some_iff.mp hfirst).1
      rw [(List.getElem?_inj hlt (nodup_openers count)).mp (hfirst.trans hfirst'.symm)]

theorem Grouped.group?_eq_none_iff (h : Grouped map count inverse) {value : V} :
    inverse.group? value = none ↔
      forall pos, pos < count -> hasValueAt map.entries value pos = false := by
  constructor
  · intro hnone pos hlt
    cases hvalue : hasValueAt map.entries value pos with
    | false => rfl
    | true =>
        rcases exists_opener hvalue with ⟨first, hle, hopens, hfirst⟩
        have hmem := mem_openers_iff.mpr ⟨Nat.lt_of_le_of_lt hle hlt, hopens⟩
        rcases List.getElem?_of_mem hmem with ⟨group, hgroup⟩
        rw [h.group?_eq_some_iff.mpr ⟨first, hgroup, hfirst⟩] at hnone
        cases hnone
  · intro hall
    cases hfind : inverse.group? value with
    | none => rfl
    | some group =>
        rcases h.group?_eq_some_iff.mp hfind with ⟨first, hfirst, hvalue⟩
        rw [hall first (opens_of_getElem? hfirst).1] at hvalue
        cases hvalue

/-! ## One more position -/

theorem getElem?_concat_iff {items : List α} {item other : α} {pos : Nat} :
    (items ++ [item])[pos]? = some other ↔
      items[pos]? = some other ∨ pos = items.length ∧ item = other := by
  rw [List.getElem?_append]
  split
  next hlt =>
    constructor
    · exact Or.inl
    · intro h
      rcases h with h | ⟨heq, _⟩
      · exact h
      · exact absurd heq (Nat.ne_of_lt hlt)
  next hge =>
    have hle := Nat.le_of_not_lt hge
    have hend : pos - items.length = 0 ↔ pos = items.length := by omega
    rw [List.getElem?_singleton, List.getElem?_eq_none hle]
    simp [hend]

section Insert

variable {pos : Nat} {entry : Entry K V} (h : Grouped map pos inverse)
  (hentry : map.entries[pos]? = some entry)

include h hentry

omit hentry in
theorem Grouped.hasValueAt_eq_false {value : V} {group other opener : Nat}
    (hgroup : inverse.group? value = some group)
    (hother : (openers map.entries pos)[other]? = some opener) (hne : group ≠ other) :
    hasValueAt map.entries value opener = false := by
  cases hvalue : hasValueAt map.entries value opener with
  | false => rfl
  | true =>
      have hfound := h.group?_eq_some_iff.mpr ⟨opener, hother, hvalue⟩
      rw [hgroup] at hfound
      exact absurd (Option.some.inj hfound) hne

theorem Grouped.join {group : Nat} (hgroup : inverse.group? entry.value = some group) :
    Grouped map (pos + 1)
      { inverse with groups := inverse.groups.modify group (·.push pos) } := by
  rcases h.group?_eq_some_iff.mp hgroup with ⟨first, hfirst, hvalue⟩
  have hopeners := openers_succ_of_hasValueAt hentry (opens_of_getElem? hfirst).1 hvalue
  refine ⟨h.map_eq, ?_, ?_⟩
  · rw [hopeners]
    apply List.ext_getElem?
    intro other
    rw [Array.getElem?_toList, Array.getElem?_modify, List.getElem?_map]
    cases hother : (openers map.entries pos)[other]? with
    | none =>
        have hnone : inverse.groups[other]? = none := by
          rw [Array.getElem?_eq_none_iff, h.size_groups]
          exact List.getElem?_eq_none_iff.mp hother
        rw [hnone]
        split <;> rfl
    | some opener =>
        rw [h.getElem?_groups hother, Option.map_some, Option.map_some]
        split
        next hsame =>
          subst hsame
          rw [hfirst] at hother
          cases hother
          rw [members_succ_of_hasValueAt hentry hvalue, List.push_toArray]
        next hne =>
          have hvalue' := h.hasValueAt_eq_false hgroup hother hne
          rw [members_succ_of_lt hentry (opens_of_getElem? hother).1 hvalue']
  · rw [hopeners]
    exact h.mem_buckets_iff

theorem Grouped.openGroup (hgroup : inverse.group? entry.value = none) :
    Grouped map (pos + 1)
      { inverse with
        groups := inverse.groups.push #[pos]
        buckets := inverse.buckets.insert (hash entry.value)
          (inverse.groups.size :: inverse.buckets.getD (hash entry.value) []) } := by
  have hnew := h.group?_eq_none_iff.mp hgroup
  have hopens := (opens_iff hentry).mpr hnew
  have hopeners := openers_succ_of_opens hopens
  refine ⟨h.map_eq, ?_, ?_⟩
  · rw [hopeners, Array.toList_push, h.toList_groups, List.map_append, List.map_singleton,
      members_opener hopens]
    congr 1
    apply List.map_congr_left
    intro first hmem
    have hlt := (mem_openers_iff.mp hmem).1
    rw [members_succ_of_lt hentry hlt (hnew first hlt)]
  · intro code group
    -- The new group is the last one; all others are in the buckets they were in.
    have hlast : (exists first opener, (group = inverse.groups.size ∧ pos = first) ∧
        map.entries[first]? = some opener ∧ hash opener.value = code) ↔
          group = inverse.groups.size ∧ hash entry.value = code := by
      constructor
      · intro hpos
        rcases hpos with ⟨_, opener, ⟨hgroup, rfl⟩, hopener, hcode⟩
        rw [hentry] at hopener
        cases hopener
        exact ⟨hgroup, hcode⟩
      · intro hboth
        exact ⟨pos, entry, ⟨hboth.1, rfl⟩, hentry, hboth.2⟩
    dsimp only
    rw [hopeners, Std.HashMap.getD_insert]
    simp only [getElem?_concat_iff, or_and_right, exists_or, ← h.size_groups, beq_iff_eq]
    rw [← h.mem_buckets_iff, hlast]
    split
    next hcode =>
      subst hcode
      rw [List.mem_cons, and_iff_left rfl, or_comm]
    next hcode =>
      constructor
      · exact Or.inl
      · intro hor
        exact hor.resolve_right fun hboth => hcode hboth.2

theorem Grouped.insert :
    Grouped map (pos + 1) (inverse.insert pos entry.value) := by
  unfold Inverse.insert
  cases hgroup : inverse.group? entry.value with
  | some group => exact h.join hentry hgroup
  | none => exact h.openGroup hentry hgroup

end Insert

/-- The run lemma: all entries are in their groups. -/
theorem grouped_insertFrom {rest : List (Entry K V)} {pos : Nat}
    (hrest : map.entries.toList.drop pos = rest) (hpos : pos ≤ map.entries.size)
    (h : Grouped map pos inverse) :
    Grouped map map.entries.size (insertFrom rest pos inverse) := by
  induction rest generalizing pos inverse with
  | nil =>
      have hend : map.entries.size ≤ pos := by
        rw [← Array.length_toList]
        exact List.drop_eq_nil_iff.mp hrest
      rw [← Nat.le_antisymm hpos hend]
      exact h
  | cons entry rest ih =>
      rcases getElem?_of_drop_eq_cons hrest with ⟨hentry, hrest'⟩
      exact ih hrest' (Array.getElem?_eq_some_iff.mp hentry).1 (h.insert hentry)

theorem grouped_ofMap (map : Map K V) :
    Grouped map map.entries.size (ofMap map) :=
  grouped_insertFrom rfl (Nat.zero_le _) (grouped_start map)

/-! ## Questions -/

omit [Hashable V] [PartialEquivBEq V] [LawfulHashable V] in
theorem keysAt_hasValueAt (hmap : inverse.map = map) (value : V) :
    inverse.keysAt ((List.range map.entries.size).filter
        (hasValueAt map.entries value)).toArray =
      (map.entries.toList.filter fun entry => entry.value == value).map Entry.key := by
  subst hmap
  unfold keysAt
  rw [← List.filterMap_eq_map, List.filterMap_filter, List.filterMap_filter,
    ← filterMap_range_getElem? inverse.map.entries.toList, Array.length_toList]
  congr 1
  funext pos
  rw [Array.getElem?_toList]
  unfold hasValueAt
  cases inverse.map.entries[pos]? with
  | none => rfl
  | some entry => rfl

theorem get_ofMap (map : Map K V) (value : V) :
    (ofMap map).get value =
      (map.entries.toList.filter fun entry => entry.value == value).map Entry.key := by
  have h := grouped_ofMap map
  rw [← keysAt_hasValueAt h.map_eq]
  unfold get
  cases hgroup : (ofMap map).group? value with
  | some group =>
      rcases h.group?_eq_some_iff.mp hgroup with ⟨first, hfirst, hvalue⟩
      dsimp only
      rw [h.getElem?_groups hfirst, Option.getD_some, members_eq hvalue]
  | none =>
      have hnone := h.group?_eq_none_iff.mp hgroup
      have hnil : (List.range map.entries.size).filter (hasValueAt map.entries value) = [] := by
        apply List.filter_eq_nil_iff.mpr
        intro pos hpos
        rw [hnone pos (List.mem_range.mp hpos)]
        exact Bool.false_ne_true
      rw [hnil]
      rfl

theorem containsValue_ofMap (map : Map K V) (value : V) :
    (ofMap map).containsValue value = map.containsValue value := by
  have h := grouped_ofMap map
  unfold containsValue Map.containsValue
  cases hgroup : (ofMap map).group? value with
  | some group =>
      rcases h.group?_eq_some_iff.mp hgroup with ⟨first, _, hvalue⟩
      rcases hasValueAt_iff.mp hvalue with ⟨entry, hentry, heq⟩
      rw [eq_comm, Option.isSome_some, Array.any_eq_true']
      exact ⟨entry, Array.mem_of_getElem? hentry, heq⟩
  | none =>
      have hnone := h.group?_eq_none_iff.mp hgroup
      rw [eq_comm, Option.isSome_none, Array.any_eq_false]
      intro pos hlt
      have hentry := Array.getElem?_eq_getElem hlt
      rw [← hasValueAt_eq hentry, hnone pos hlt]
      exact Bool.false_ne_true

end Inverse
end SealedMap
