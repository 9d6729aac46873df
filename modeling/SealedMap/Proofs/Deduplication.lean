import SealedMap.Proofs.Resolution

/-!
# Entries without repeats

However repeats are resolved, what is left has each of the keys once.  So it has
as many entries as there are different keys, and the rest are repeats.
-/

namespace SealedMap

open Index (holdsAt)
open Repeats (Renumbers number? superseded)

variable {σ K V : Type}

/-! ## Counting first positions -/

def keysAt (entries : Array (Entry K V)) (positions : List Nat) : List K :=
  positions.filterMap fun pos => entries[pos]?.map Entry.key

theorem mem_keysAt_iff {entries : Array (Entry K V)} {positions : List Nat} {key : K} :
    key ∈ keysAt entries positions ↔
      exists (pos : Nat) (entry : Entry K V),
        pos ∈ positions ∧ entries[pos]? = some entry ∧ entry.key = key := by
  unfold keysAt
  rw [List.mem_filterMap]
  constructor
  · intro h
    rcases h with ⟨pos, hpos, hkey⟩
    rcases Option.map_eq_some_iff.mp hkey with ⟨entry, hentry, heq⟩
    exact ⟨pos, entry, hpos, hentry, heq⟩
  · intro h
    rcases h with ⟨pos, entry, hpos, hentry, heq⟩
    exact ⟨pos, hpos, Option.map_eq_some_iff.mpr ⟨entry, hentry, heq⟩⟩

theorem length_keysAt {entries : Array (Entry K V)} {positions : List Nat}
    (hlt : forall pos, pos ∈ positions -> pos < entries.size) :
    (keysAt entries positions).length = positions.length := by
  unfold keysAt
  rw [List.length_filterMap_eq_countP]
  apply List.countP_eq_length.mpr
  intro pos hpos
  rw [Option.isSome_map, Array.getElem?_eq_getElem (hlt pos hpos)]
  rfl

variable [BEq K]

theorem IsFirst.lt_size {entries : Array (Entry K V)} {pos : Nat}
    (h : IsFirst entries pos) :
    pos < entries.size := by
  rcases h with ⟨entry, hentry, _⟩
  exact (Array.getElem?_eq_some_iff.mp hentry).1

def firstPositions (entries : Array (Entry K V)) : List Nat :=
  (List.range entries.size).filter fun pos => (repeatAt? entries pos).isNone

theorem length_repeatsOf_add_firsts (entries : Array (Entry K V)) :
    (repeatsOf entries).length + (firstPositions entries).length = entries.size := by
  have hsplit := List.length_eq_countP_add_countP
    (fun pos => (repeatAt? entries pos).isSome) (l := List.range entries.size)
  have hnot : (fun pos => decide ¬ (repeatAt? entries pos).isSome = true) =
      fun pos => (repeatAt? entries pos).isNone := by
    funext pos
    cases repeatAt? entries pos <;> rfl
  rw [hnot, List.length_range] at hsplit
  rw [repeatsOf, repeatsBelow, firstPositions, List.length_filterMap_eq_countP,
    ← List.countP_eq_length_filter]
  exact hsplit.symm

variable [EquivBEq K]

theorem distinct_keysAt {entries : Array (Entry K V)} {positions : List Nat}
    (hnodup : positions.Nodup) (hfirst : forall pos, pos ∈ positions -> IsFirst entries pos) :
    Distinct (keysAt entries positions) := by
  unfold Distinct keysAt
  rw [List.pairwise_filterMap]
  apply hnodup.imp_of_mem
  intro p q hp hq hne a ha b hb
  rcases Option.map_eq_some_iff.mp ha with ⟨entryp, hentryp, rfl⟩
  rcases Option.map_eq_some_iff.mp hb with ⟨entryq, hentryq, rfl⟩
  cases heq : entryp.key == entryq.key with
  | false => rfl
  | true =>
      have hpkey : holdsAt entries entryq.key p = true := by
        rw [holdsAt_eq hentryp]
        exact heq
      have hqkey : holdsAt entries entryq.key q = true := by
        rw [holdsAt_eq hentryq]
        exact BEq.rfl
      exact absurd ((hfirst p hp).unique (hfirst q hq) hpkey hqkey) hne

theorem length_eq_distinctCount {entries : Array (Entry K V)} {positions : List Nat}
    {keys : List K} (hnodup : positions.Nodup)
    (hfirst : forall pos, pos ∈ positions -> IsFirst entries pos)
    (hcovers : Covers (keysAt entries positions) keys)
    (hcovered : Covers keys (keysAt entries positions)) :
    positions.length = distinctCount keys := by
  rw [distinctCount_eq (distinct_keysAt hnodup hfirst) hcovers hcovered,
    length_keysAt fun pos hpos => (hfirst pos hpos).lt_size]

theorem mem_firstPositions_iff {entries : Array (Entry K V)} {pos : Nat} :
    pos ∈ firstPositions entries ↔ IsFirst entries pos := by
  unfold firstPositions
  rw [List.mem_filter, List.mem_range]
  constructor
  · intro h
    rcases h with ⟨hlt, hnone⟩
    exact (repeatAt?_eq_none_iff hlt).mp (Option.isNone_iff_eq_none.mp hnone)
  · intro h
    have hnone := (repeatAt?_eq_none_iff h.lt_size).mpr h
    exact ⟨h.lt_size, Option.isNone_iff_eq_none.mpr hnone⟩

theorem length_repeatsOf_add (entries : Array (Entry K V)) :
    (repeatsOf entries).length + distinctCount (keysOf entries) = entries.size := by
  have hcount : (firstPositions entries).length = distinctCount (keysOf entries) := by
    apply length_eq_distinctCount
    · exact List.nodup_range.filter _
    · intro pos hpos
      exact mem_firstPositions_iff.mp hpos
    · intro key hkey
      rcases mem_keysOf_iff.mp hkey with ⟨pos, entry, hentry, rfl⟩
      rcases exists_firstPosition?_le hentry with ⟨first, hfirst, _⟩
      have hholds := (firstPosition?_eq_some_iff.mp hfirst).1
      rcases holdsAt_iff.mp hholds with ⟨other, hother, heq⟩
      have hmem := mem_firstPositions_iff.mpr (isFirst_of_firstPosition? hfirst)
      exact ⟨other.key, mem_keysAt_iff.mpr ⟨first, other, hmem, hother, rfl⟩, heq⟩
    · apply Covers.of_subset
      intro key hkey
      rcases mem_keysAt_iff.mp hkey with ⟨pos, entry, _, hentry, heq⟩
      exact mem_keysOf_iff.mpr ⟨pos, entry, hentry, heq⟩
  rw [← hcount]
  exact length_repeatsOf_add_firsts entries

theorem length_repeatsOf (entries : Array (Entry K V)) :
    (repeatsOf entries).length = entries.size - distinctCount (keysOf entries) := by
  have hadd := length_repeatsOf_add entries
  omega

theorem repeatsOf_eq_nil_of_distinct {entries : Array (Entry K V)}
    (h : Distinct (keysOf entries)) :
    repeatsOf entries = [] := by
  have hlength := length_repeatsOf entries
  rw [distinctCount_of_distinct h, length_keysOf, Nat.sub_self] at hlength
  exact List.length_eq_zero_iff.mp hlength

/-! ## What resolving keeps -/

/-- One array has each key of another one once. -/
structure Deduplicates (kept entries : Array (Entry K V)) : Prop where
  distinct : Distinct (keysOf kept)
  covers : Covers (keysOf kept) (keysOf entries)
  covered : Covers (keysOf entries) (keysOf kept)

theorem Deduplicates.size_eq {kept entries : Array (Entry K V)}
    (h : Deduplicates kept entries) :
    kept.size = distinctCount (keysOf entries) := by
  rw [distinctCount_eq h.distinct h.covers h.covered, length_keysOf]

theorem Deduplicates.perm {kept others entries : Array (Entry K V)}
    (h : Deduplicates kept entries) (hperm : others.toList.Perm kept.toList) :
    Deduplicates others entries := by
  have hkeys : (keysOf others).Perm (keysOf kept) := hperm.map Entry.key
  refine ⟨?_, ?_, ?_⟩
  · exact hkeys.symm.pairwise h.distinct fun hab => beq_comm_false hab
  · exact (Covers.of_subset fun key hkey => hkeys.mem_iff.mpr hkey).trans h.covers
  · exact h.covered.trans (Covers.of_subset fun key hkey => hkeys.mem_iff.mp hkey)

section Renumbered

variable {kept entries : Array (Entry K V)}
  (h : Renumbers (superseded entries.size (repeatsOf entries)) entries kept)

include h

theorem exists_first_of_kept {n : Nat} {after : Entry K V} (hafter : kept[n]? = some after) :
    exists pos, number? (superseded entries.size (repeatsOf entries)) pos = some n ∧
      IsFirst entries pos ∧
        exists before, entries[pos]? = some before ∧ after.key = before.key := by
  rcases h.onto (Array.getElem?_eq_some_iff.mp hafter).1 with ⟨pos, hpos⟩
  rcases h.key_eq hpos with ⟨before, other, hbefore, hother, hkey⟩
  rw [hafter] at hother
  cases hother
  have hfirst := superseded_repeatsOf_eq_false_iff.mp (Repeats.exists_number?_iff.mp ⟨n, hpos⟩)
  exact ⟨pos, hpos, hfirst.2, before, hbefore, hkey⟩

theorem distinct_of_renumbers :
    Distinct (keysOf kept) := by
  apply distinct_keysOf_iff.mpr
  intro m n later hlt hlater
  have hm : m < kept.size := Nat.lt_trans hlt (Array.getElem?_eq_some_iff.mp hlater).1
  have hearlier := Array.getElem?_eq_getElem hm
  rcases exists_first_of_kept h hearlier with ⟨p, hp, hpfirst, entryp, hentryp, hpkey⟩
  rcases exists_first_of_kept h hlater with ⟨q, hq, hqfirst, entryq, hentryq, hqkey⟩
  cases hholds : holdsAt kept later.key m with
  | false => rfl
  | true =>
      -- Two entries with one key would stem from the same first position.
      rw [holdsAt_eq hearlier, hpkey, hqkey, ← holdsAt_eq hentryp] at hholds
      have hself : holdsAt entries entryq.key q = true := by
        rw [holdsAt_eq hentryq]
        exact BEq.rfl
      have hpq := hpfirst.unique hqfirst hholds hself
      subst hpq
      rw [hp] at hq
      exact absurd (Option.some.inj hq) (Nat.ne_of_lt hlt)

theorem covers_of_renumbers :
    Covers (keysOf kept) (keysOf entries) := by
  intro key hkey
  rcases mem_keysOf_iff.mp hkey with ⟨pos, entry, hentry, rfl⟩
  rcases exists_firstPosition?_le hentry with ⟨first, hfirst, _⟩
  have hisFirst := isFirst_of_firstPosition? hfirst
  rcases Repeats.exists_number?_iff.mpr
    (superseded_repeatsOf_eq_false_iff.mpr ⟨hisFirst.lt_size, hisFirst⟩) with ⟨n, hn⟩
  rcases h.key_eq hn with ⟨before, after, hbefore, hafter, hsame⟩
  have hholds := (firstPosition?_eq_some_iff.mp hfirst).1
  rw [holdsAt_eq hbefore, ← hsame] at hholds
  exact ⟨after.key, mem_keysOf_iff.mpr ⟨n, after, hafter, rfl⟩, hholds⟩

theorem deduplicates_of_renumbers :
    Deduplicates kept entries where
  distinct := distinct_of_renumbers h
  covers := covers_of_renumbers h
  covered := by
    apply Covers.of_subset
    intro key hkey
    rcases mem_keysOf_iff.mp hkey with ⟨n, after, hafter, rfl⟩
    rcases exists_first_of_kept h hafter with ⟨pos, _, _, before, hbefore, hsame⟩
    exact mem_keysOf_iff.mpr ⟨pos, before, hbefore, hsame.symm⟩

end Renumbered

theorem deduplicates_of_settled {policy : Policy σ K V} {entries kept : Array (Entry K V)}
    {state : σ} (h : ((settled policy entries).run state).1 = .ok kept) :
    Deduplicates kept entries := by
  by_cases hrefuses : Refuses policy entries
  · rcases run_settled_of_refuses hrefuses state with ⟨r, _, hrun⟩
    rw [hrun] at h
    cases h
  · rw [run_settled_of_kept (repeatsOf_eq_nil_of_not_refuses hrefuses)] at h
    have hres := resolvable_repeatsOf entries
    have hrenumbers := Repeats.renumbers_fold hres policy.combine state
    cases h
    exact deduplicates_of_renumbers hrenumbers

end SealedMap
