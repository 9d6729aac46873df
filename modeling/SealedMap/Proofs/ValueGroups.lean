import SealedMap.Entry

/-!
# Groups of equal values

A position opens a group if no earlier one has an equal value, and the group that
it opens consists of itself and the positions whose values equal its own.
Equality of values need only be symmetric and transitive; a position whose value
is not equal to itself is alone in its group.
-/

namespace SealedMap

variable {K V : Type} [BEq V]

/-! ## Groups read off the entries -/

def hasValueAt (entries : Array (Entry K V)) (value : V) (pos : Nat) : Bool :=
  match entries[pos]? with
  | some entry => entry.value == value
  | none => false

/-- No earlier position has an equal value. -/
def opens (entries : Array (Entry K V)) (pos : Nat) : Bool :=
  match entries[pos]? with
  | some entry => (List.range pos).all fun p => !hasValueAt entries entry.value p
  | none => false

/-- The position is in the group that `first` opens. -/
def joins (entries : Array (Entry K V)) (first pos : Nat) : Bool :=
  match entries[first]? with
  | some opener => pos == first || hasValueAt entries opener.value pos
  | none => false

def openers (entries : Array (Entry K V)) (count : Nat) : List Nat :=
  (List.range count).filter (opens entries)

def members (entries : Array (Entry K V)) (count first : Nat) : List Nat :=
  (List.range count).filter (joins entries first)

variable {entries : Array (Entry K V)}

theorem hasValueAt_eq {entry : Entry K V} {pos : Nat} (hentry : entries[pos]? = some entry)
    (value : V) :
    hasValueAt entries value pos = (entry.value == value) := by
  unfold hasValueAt
  rw [hentry]

theorem hasValueAt_iff {value : V} {pos : Nat} :
    hasValueAt entries value pos = true ↔
      exists entry, entries[pos]? = some entry ∧ (entry.value == value) = true := by
  unfold hasValueAt
  cases entries[pos]? with
  | none => simp
  | some entry => simp

theorem opens_iff {entry : Entry K V} {pos : Nat} (hentry : entries[pos]? = some entry) :
    opens entries pos = true ↔
      forall p, p < pos -> hasValueAt entries entry.value p = false := by
  unfold opens
  rw [hentry]
  simp

theorem joins_eq {opener : Entry K V} {first : Nat} (hopener : entries[first]? = some opener)
    (pos : Nat) :
    joins entries first pos = (pos == first || hasValueAt entries opener.value pos) := by
  unfold joins
  rw [hopener]

theorem openers_succ (pos : Nat) :
    openers entries (pos + 1) =
      openers entries pos ++ if opens entries pos then [pos] else [] := by
  unfold openers
  rw [List.range_succ, List.filter_append, List.filter_cons, List.filter_nil]

theorem members_succ (pos first : Nat) :
    members entries (pos + 1) first =
      members entries pos first ++ if joins entries first pos then [pos] else [] := by
  unfold members
  rw [List.range_succ, List.filter_append, List.filter_cons, List.filter_nil]

theorem mem_openers_iff {count first : Nat} :
    first ∈ openers entries count ↔ first < count ∧ opens entries first = true := by
  unfold openers
  rw [List.mem_filter, List.mem_range]

theorem opens_of_getElem? {count group first : Nat}
    (h : (openers entries count)[group]? = some first) :
    first < count ∧ opens entries first = true :=
  mem_openers_iff.mp (List.mem_of_getElem? h)

theorem nodup_openers (count : Nat) :
    (openers entries count).Nodup :=
  List.nodup_range.filter _

theorem exists_entry_of_opens {pos : Nat} (h : opens entries pos = true) :
    exists entry, entries[pos]? = some entry := by
  unfold opens at h
  cases hentry : entries[pos]? with
  | none =>
      rw [hentry] at h
      cases h
  | some entry => exact ⟨entry, rfl⟩

theorem head?_members {count first : Nat} (hopens : opens entries first = true)
    (hlt : first < count) :
    (members entries count first).head? = some first := by
  rcases exists_entry_of_opens hopens with ⟨opener, hopener⟩
  unfold members
  rw [List.head?_filter, List.find?_range_eq_some]
  refine ⟨?_, List.mem_range.mpr hlt, ?_⟩
  · rw [joins_eq hopener, beq_self_eq_true, Bool.true_or]
  · intro p hp
    rw [joins_eq hopener, (opens_iff hopener).mp hopens p hp, beq_false_of_ne (Nat.ne_of_lt hp)]
    rfl

theorem openers_succ_of_opens {pos : Nat} (hopens : opens entries pos = true) :
    openers entries (pos + 1) = openers entries pos ++ [pos] := by
  rw [openers_succ, hopens, if_pos rfl]

theorem members_opener {pos : Nat} (hopens : opens entries pos = true) :
    members entries (pos + 1) pos = [pos] := by
  rcases exists_entry_of_opens hopens with ⟨opener, hopener⟩
  have hnone : members entries pos pos = [] := by
    unfold members
    rw [List.filter_eq_nil_iff]
    intro p hp
    have hlt := List.mem_range.mp hp
    rw [joins_eq hopener, (opens_iff hopener).mp hopens p hlt, beq_false_of_ne (Nat.ne_of_lt hlt)]
    simp
  have hself : joins entries pos pos = true := by
    rw [joins_eq hopener, beq_self_eq_true, Bool.true_or]
  rw [members_succ, hnone, hself, List.nil_append, if_pos rfl]

section Values

variable [PartialEquivBEq V]

theorem hasValueAt_congr {a b : V} (h : (a == b) = true) (pos : Nat) :
    hasValueAt entries a pos = hasValueAt entries b pos := by
  unfold hasValueAt
  cases entries[pos]? with
  | none => rfl
  | some entry => exact BEq.congr_right h

theorem not_opens_of_lt {value : V} {p q : Nat} (hlt : p < q)
    (hp : hasValueAt entries value p = true) (hq : hasValueAt entries value q = true) :
    opens entries q = false := by
  rcases hasValueAt_iff.mp hq with ⟨entry, hentry, heq⟩
  rw [← hasValueAt_congr heq] at hp
  cases hopens : opens entries q with
  | false => rfl
  | true =>
      rw [(opens_iff hentry).mp hopens p hlt] at hp
      cases hp

theorem openers_succ_of_hasValueAt {entry : Entry K V} {first pos : Nat}
    (hentry : entries[pos]? = some entry) (hlt : first < pos)
    (hfirst : hasValueAt entries entry.value first = true) :
    openers entries (pos + 1) = openers entries pos := by
  rcases hasValueAt_iff.mp hfirst with ⟨opener, _, heq⟩
  have hself : hasValueAt entries entry.value pos = true := by
    rw [hasValueAt_eq hentry]
    exact BEq.trans (BEq.symm heq) heq
  rw [openers_succ, not_opens_of_lt hlt hfirst hself]
  exact List.append_nil _

theorem opener_unique {value : V} {p q : Nat} (hp : opens entries p = true)
    (hq : opens entries q = true) (hpv : hasValueAt entries value p = true)
    (hqv : hasValueAt entries value q = true) :
    p = q := by
  rcases Nat.lt_trichotomy p q with hlt | heq | hlt
  · rw [not_opens_of_lt hlt hpv hqv] at hq
    cases hq
  · exact heq
  · rw [not_opens_of_lt hlt hqv hpv] at hp
    cases hp

theorem exists_opener {value : V} {pos : Nat} (h : hasValueAt entries value pos = true) :
    exists first, first ≤ pos ∧ opens entries first = true ∧
      hasValueAt entries value first = true := by
  induction pos using Nat.strongRecOn with
  | ind pos ih =>
      rcases hasValueAt_iff.mp h with ⟨entry, hentry, heq⟩
      by_cases hopens : opens entries pos = true
      · exact ⟨pos, Nat.le_refl pos, hopens, h⟩
      · simp only [opens_iff hentry, Classical.not_forall, Bool.not_eq_false] at hopens
        rcases hopens with ⟨p, hlt, hp⟩
        rw [hasValueAt_congr heq] at hp
        rcases ih p hlt hp with ⟨first, hle, hfirst⟩
        exact ⟨first, Nat.le_trans hle (Nat.le_of_lt hlt), hfirst⟩

theorem members_eq {value : V} {first : Nat} (hfirst : hasValueAt entries value first = true)
    (count : Nat) :
    members entries count first = (List.range count).filter (hasValueAt entries value) := by
  rcases hasValueAt_iff.mp hfirst with ⟨opener, hopener, heq⟩
  unfold members
  congr 1
  funext pos
  rw [joins_eq hopener, hasValueAt_congr heq]
  by_cases hpos : pos = first
  · subst hpos
    rw [hfirst, Bool.or_true]
  · rw [beq_false_of_ne hpos, Bool.false_or]

theorem members_succ_of_hasValueAt {entry : Entry K V} {first pos : Nat}
    (hentry : entries[pos]? = some entry)
    (hfirst : hasValueAt entries entry.value first = true) :
    members entries (pos + 1) first = members entries pos first ++ [pos] := by
  rcases hasValueAt_iff.mp hfirst with ⟨opener, hopener, heq⟩
  have hjoins : joins entries first pos = true := by
    rw [joins_eq hopener, hasValueAt_eq hentry, BEq.symm heq, Bool.or_true]
  rw [members_succ, hjoins, if_pos rfl]

theorem members_succ_of_lt {entry : Entry K V} {first pos : Nat}
    (hentry : entries[pos]? = some entry) (hlt : first < pos)
    (hfirst : hasValueAt entries entry.value first = false) :
    members entries (pos + 1) first = members entries pos first := by
  have hjoins : joins entries first pos = false := by
    have hopener := Array.getElem?_eq_getElem
      (Nat.lt_trans hlt (Array.getElem?_eq_some_iff.mp hentry).1)
    rw [hasValueAt_eq hopener] at hfirst
    rw [joins_eq hopener, beq_false_of_ne (Nat.ne_of_gt hlt), hasValueAt_eq hentry, BEq.comm,
      hfirst, Bool.or_false]
  rw [members_succ, hjoins]
  exact List.append_nil _

end Values

end SealedMap
