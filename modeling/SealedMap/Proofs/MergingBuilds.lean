import Mathlib
import SealedMap.Builder
import SealedMap.Proofs.Arranging
import SealedMap.Proofs.MergeCalls

/-!
# Builds that combine values

A merging build leaves one entry for each key, where the key stands first and as
it is spelled there, with the values of the key folded from left to right.  The
combining function may use state: it is called once for each entry that repeats
a key, in the order of these entries, with what the key holds by then.  This
goes for every hash function, so an index that overflows and is made anew costs
no call and adds none.
-/

namespace SealedMap

variable {σ K V : Type}

namespace Construction

/-! ## Orders of values -/

def inOrder (order : Option (ValueOrder V)) (entries : Array (Entry K V)) :
    Array (Entry K V) :=
  match order with
  | none => entries
  | some order => sortByValue order entries

theorem sortByValue_of_size_lt {entries : Array (Entry K V)} (h : entries.size < 2)
    (order : ValueOrder V) :
    sortByValue order entries = entries := by
  rcases entries with ⟨entries⟩
  cases entries with
  | nil => rw [sortByValue, List.mergeSort_nil]
  | cons first rest =>
      cases rest with
      | nil => rw [sortByValue, List.mergeSort_singleton]
      | cons second rest => simp at h

/-! ## Without an index -/

variable [BEq K] [EquivBEq K]

theorem run_settled_merge (combine : K -> V -> V -> StateM σ V) (entries : Array (Entry K V))
    (state : σ) :
    (settled (.merge combine) entries).run state =
      (.ok (heldAfter combine entries.toList state).toArray,
        ((leftFold combine entries.toList).run state).2) :=
  run_settled_of_resolves rfl entries state

variable [Hashable K] [LawfulHashable K]

theorem run_arranged_merge (combine : K -> V -> V -> StateM σ V)
    (order : Option (ValueOrder V)) (entries : Array (Entry K V)) (state : σ) :
    (arranged (.merge combine) order entries).run state =
      (.ok (inOrder order (heldAfter combine entries.toList state).toArray),
        ((leftFold combine entries.toList).run state).2) := by
  cases order with
  | none => exact run_settled_merge combine entries state
  | some order =>
      have hsettled := run_settled_merge combine entries state
      by_cases hsize : entries.size < 2
      · have hnil := repeatsOf_eq_nil_of_size_lt hsize
        have hheld : (heldAfter combine entries.toList state).toArray = entries := by
          rw [run_settled_of_no_repeats hnil] at hsettled
          exact (Except.ok.inj (congrArg Prod.fst hsettled)).symm
        rw [arranged, if_pos hsize, hsettled, hheld, inOrder, sortByValue_of_size_lt hsize]
      · have hpolicy : Policy.merge combine ≠ .keepLast := by
          intro h
          cases h
        have hresolve := run_resolve hpolicy entries state
        rw [hsettled] at hresolve
        have hresolved := congrArg Prod.fst hresolve
        have hkept := deduplicates_sortByValue (deduplicates_of_resolve hresolved) order
        rw [run_arranged_some hsize, hresolve]
        exact run_settled_of_no_repeats (repeatsOf_eq_nil_of_distinct hkept.distinct) .reject _

theorem exists_construct_merge {hash : K -> UInt64}
    (hhash : forall a b, (a == b) = true -> hash a = hash b) (combine : K -> V -> V -> StateM σ V)
    (order : Option (ValueOrder V)) (entries : Array (Entry K V)) (state : σ) :
    exists map, ((construct hash (.merge combine) order entries).run state).1.outcome = .ok map ∧
      map.entries = inOrder order (heldAfter combine entries.toList state).toArray ∧
      ((construct hash (.merge combine) order entries).run state).2 =
        ((leftFold combine entries.toList).run state).2 := by
  have hagrees := construct_agrees hhash (.merge combine) order entries state
  rw [run_arranged_merge] at hagrees
  rcases hagrees.yields with ⟨map, houtcome, hpresents⟩
  exact ⟨map, houtcome, hpresents.entries_eq, hagrees.state_eq⟩

end Construction

namespace Builder

open Construction (inOrder)

variable [BEq K] [Hashable K] [EquivBEq K] [LawfulHashable K]

/--
A merging build ends with a map.  Before they are put in the order of values, its
entries are those that taking the builder's entries in from left to right holds,
with the keys that stand first; the calls noted on the way are one for each entry
that repeats a key, in the order of these entries, whatever the hash function and
whether or not the index overflows.  If the combining function has no state, the
entry of a key has the left fold of its values, and each call gets the fold of
the values before it.
-/
theorem merging_is_left_fold (builder : Builder K V)
    (hbuilder : forall a b, (a == b) = true -> builder.hash a = builder.hash b) :
    (forall (σ : Type) (combine : K -> V -> V -> StateM σ V) (state : σ),
      exists map noted,
        ((builder.buildWith (.merge combine)).run state).1.outcome = .ok map ∧
        map.entries =
          inOrder builder.order (heldAfter combine builder.entries.toList state).toArray ∧
        ((builder.buildWith (.merge (noting combine))).run (state, #[])).1.outcome = .ok noted ∧
        noted.entries = map.entries ∧
        ((builder.buildWith (.merge (noting combine))).run (state, #[])).2 =
          (((builder.buildWith (.merge combine)).run state).2,
            (callsMade combine builder.entries.toList state).toArray)) ∧
    (forall (σ : Type) (combine : K -> V -> V -> StateM σ V) (state : σ),
      (heldAfter combine builder.entries.toList state).map Entry.key =
          (firsts builder.entries.toList).map Entry.key ∧
        (callsMade combine builder.entries.toList state).length =
          builder.size - distinctCount (keysOf builder.entries)) ∧
    (forall combine : K -> V -> V -> V,
      exists map traced,
        (builder.buildMerging combine).outcome = .ok map ∧
        map.entries =
          inOrder builder.order ((firsts builder.entries.toList).map
            (foldedEntry combine builder.entries.toList)).toArray ∧
        (builder.buildMergingTraced combine).1.outcome = .ok traced ∧
        traced.entries = map.entries ∧
        (builder.buildMergingTraced combine).2 =
          ((List.range builder.size).filterMap
            (foldedCallAt? combine builder.entries.toList)).toArray) ∧
    (firsts builder.entries.toList).Sublist builder.entries.toList ∧
    Distinct ((firsts builder.entries.toList).map Entry.key) ∧
    (firsts builder.entries.toList).length = distinctCount (keysOf builder.entries) ∧
    (forall first, first ∈ firsts builder.entries.toList ->
      exists more, valuesOf builder.entries.toList first.key = first.value :: more) := by
  refine ⟨?_, ?_, ?_, ?_, ?_, ?_, ?_⟩
  · intro σ combine state
    rcases Construction.exists_construct_merge hbuilder combine builder.order builder.entries
      state with ⟨map, hmap, hentries, hafter⟩
    rcases Construction.exists_construct_merge hbuilder (noting combine) builder.order
      builder.entries (state, #[]) with ⟨noted, hnoted, hothers, hcalls⟩
    have hfold := run_leftFold_noting combine builder.entries.toList state
    rw [hfold] at hcalls
    rw [heldAfter, hfold] at hothers
    refine ⟨map, noted, hmap, hentries, hnoted, hothers.trans hentries.symm, ?_⟩
    rw [buildWith, hcalls, buildWith, hafter]
  · intro σ combine state
    refine ⟨map_key_heldAfter combine builder.entries.toList state, ?_⟩
    rw [length_callsMade, Array.length_toList]
    rfl
  · intro combine
    rcases Construction.exists_construct_merge hbuilder
      (fun key earlier later => (pure (combine key earlier later) : StateM Unit V))
      builder.order builder.entries () with ⟨map, hmap, hentries, _⟩
    rcases Construction.exists_construct_merge hbuilder (recording combine) builder.order
      builder.entries #[] with ⟨traced, htraced, hothers, hcalls⟩
    have hfold := run_leftFold_recording combine builder.entries.toList
    rw [hfold] at hcalls
    rw [heldAfter, hfold] at hothers
    rw [heldAfter_pure] at hentries
    exact ⟨map, traced, hmap, hentries, htraced, hothers.trans hentries.symm, hcalls⟩
  · exact firsts_sublist builder.entries.toList
  · exact distinct_firsts builder.entries.toList
  · exact length_firsts builder.entries.toList
  · intro first hfirst
    exact exists_valuesOf_eq_cons (firstWith?_of_mem_firsts hfirst)

def crowdedTwice : Builder Nat Nat :=
  ofList (fun _ => 0) ((List.range 12 ++ List.range 12).map fun n => (n, n + 1))

theorem merging_is_left_fold_crowdedTwice :
    (crowdedTwice.buildMergingTraced fun key earlier later => key + 10 * earlier + later).1.events =
        [.chainOverflow 24 9, .repeatsResolved 12] ∧
      (crowdedTwice.buildMergingTraced fun key earlier later => key + 10 * earlier + later).2 =
        ((List.range 12).map fun n => ⟨n, n + 1, n + 1⟩).toArray ∧
      exists map,
        (crowdedTwice.buildMerging fun key earlier later => key + 10 * earlier + later).outcome =
          .ok map ∧
        map.entries = ((List.range 12).map fun n => ⟨n, n + 10 * (n + 1) + (n + 1)⟩).toArray := by
  have hconst : forall a b, (a == b) = true -> crowdedTwice.hash a = crowdedTwice.hash b :=
    fun _ _ _ => rfl
  rcases merging_is_left_fold crowdedTwice hconst with ⟨_, _, hpure, _⟩
  rcases hpure fun key earlier later => key + 10 * earlier + later with
    ⟨map, traced, hmap, hentries, _, _, hcalls⟩
  refine ⟨by cbv, ?_, map, hmap, ?_⟩
  · rw [hcalls]
    cbv
  · rw [hentries]
    cbv

end Builder
end SealedMap
