import SealedMap.Proofs.Deduplication
import SealedMap.Proofs.Outcomes

/-!
# Arranging entries by value

To order a map by value its repeats are resolved first, and only then the
entries are sorted and indexed.  What is sorted has each key once already, so
indexing it meets no repeats.
-/

namespace SealedMap
namespace Construction

open Index (Keyed Placed place)

variable {σ K V : Type} [BEq K]

/-! ## Sorting -/

omit [BEq K] in
theorem perm_sortByValue (order : ValueOrder V) (entries : Array (Entry K V)) :
    (sortByValue order entries).toList.Perm entries.toList :=
  List.mergeSort_perm _ _

theorem deduplicates_sortByValue [EquivBEq K] {resolved entries : Array (Entry K V)}
    (h : Deduplicates resolved entries) (order : ValueOrder V) :
    Deduplicates (sortByValue order resolved) entries :=
  h.perm (perm_sortByValue order resolved)

variable [Hashable K]

/-! ## Keeping last occurrences -/

def lastStep (entry : Entry K V) (state : Std.HashSet K × List (Entry K V)) :
    Std.HashSet K × List (Entry K V) :=
  if state.1.contains entry.key then state
  else (state.1.insert entry.key, entry :: state.2)

theorem lastOccurrences_eq (entries : Array (Entry K V)) :
    lastOccurrences entries = (entries.toList.foldr lastStep (∅, [])).2.toArray := by
  rw [lastOccurrences, ← Array.foldr_toList]
  rfl

/-- The entries taken have the keys seen, each of them once. -/
structure LastTaken (items : List (Entry K V))
    (state : Std.HashSet K × List (Entry K V)) : Prop where
  contains_iff : forall key, state.1.contains key = true ↔
    exists entry, entry ∈ state.2 ∧ (entry.key == key) = true
  distinct : Distinct (state.2.map Entry.key)
  covers : Covers (state.2.map Entry.key) (items.map Entry.key)
  mem : forall entry, entry ∈ state.2 -> entry ∈ items

theorem LastTaken.skip {items : List (Entry K V)}
    {state : Std.HashSet K × List (Entry K V)} (h : LastTaken items state)
    {entry : Entry K V} (hseen : state.1.contains entry.key = true) :
    LastTaken (entry :: items) state where
  contains_iff := h.contains_iff
  distinct := h.distinct
  covers := by
    intro key hkey
    rw [List.map_cons, List.mem_cons] at hkey
    rcases hkey with rfl | hkey
    · rcases (h.contains_iff entry.key).mp hseen with ⟨taken, hmem, heq⟩
      exact ⟨taken.key, List.mem_map_of_mem hmem, heq⟩
    · exact h.covers key hkey
  mem := by
    intro taken hmem
    exact List.mem_cons_of_mem entry (h.mem taken hmem)

variable [EquivBEq K] [LawfulHashable K]

theorem LastTaken.take {items : List (Entry K V)}
    {state : Std.HashSet K × List (Entry K V)} (h : LastTaken items state)
    {entry : Entry K V} (hnew : ¬ state.1.contains entry.key = true) :
    LastTaken (entry :: items) (state.1.insert entry.key, entry :: state.2) where
  contains_iff := by
    intro key
    rw [Std.HashSet.contains_insert, Bool.or_eq_true, h.contains_iff]
    constructor
    · intro hkey
      rcases hkey with heq | ⟨taken, hmem, heq⟩
      · exact ⟨entry, List.mem_cons_self, heq⟩
      · exact ⟨taken, List.mem_cons_of_mem entry hmem, heq⟩
    · intro hkey
      rcases hkey with ⟨taken, hmem, heq⟩
      rcases List.mem_cons.mp hmem with rfl | hmem
      · exact Or.inl heq
      · exact Or.inr ⟨taken, hmem, heq⟩
  distinct := by
    rw [List.map_cons]
    apply List.Pairwise.cons
    · intro key hkey
      rcases List.mem_map.mp hkey with ⟨taken, hmem, rfl⟩
      cases heq : entry.key == taken.key with
      | false => rfl
      | true => exact absurd ((h.contains_iff entry.key).mpr ⟨taken, hmem, BEq.symm heq⟩) hnew
    · exact h.distinct
  covers := by
    intro key hkey
    rw [List.map_cons, List.mem_cons] at hkey
    rw [List.map_cons]
    rcases hkey with rfl | hkey
    · exact ⟨entry.key, List.mem_cons_self, BEq.rfl⟩
    · rcases h.covers key hkey with ⟨other, hmem, heq⟩
      exact ⟨other, List.mem_cons_of_mem _ hmem, heq⟩
  mem := by
    intro taken hmem
    rcases List.mem_cons.mp hmem with rfl | hmem
    · exact List.mem_cons_self
    · exact List.mem_cons_of_mem entry (h.mem taken hmem)

theorem LastTaken.step {items : List (Entry K V)}
    {state : Std.HashSet K × List (Entry K V)} (h : LastTaken items state)
    (entry : Entry K V) :
    LastTaken (entry :: items) (lastStep entry state) := by
  unfold lastStep
  split
  next hseen => exact h.skip hseen
  next hnew => exact h.take hnew

theorem lastTaken_foldr (items : List (Entry K V)) :
    LastTaken items (items.foldr lastStep (∅, [])) := by
  induction items with
  | nil =>
      refine ⟨?_, List.Pairwise.nil, ?_, ?_⟩
      · intro key
        simp
      · intro key hkey
        cases hkey
      · intro entry hmem
        exact hmem
  | cons entry rest ih => exact ih.step entry

theorem deduplicates_lastOccurrences (entries : Array (Entry K V)) :
    Deduplicates (lastOccurrences entries) entries := by
  have htaken := lastTaken_foldr entries.toList
  rw [lastOccurrences_eq]
  refine ⟨htaken.distinct, htaken.covers, ?_⟩
  apply Covers.of_subset
  intro key hkey
  rcases List.mem_map.mp hkey with ⟨entry, hmem, rfl⟩
  exact List.mem_map_of_mem (htaken.mem entry hmem)

/-! ## Resolving -/

def resolvePlaced (policy : Policy σ K V) (entries : Array (Entry K V)) :
    Placed (Keyed K) -> StateM σ (Except Refusal (Array (Entry K V)))
  | .rejected first second => pure (.error (.duplicateKey first second))
  | .done _ repeats => do
      let kept <- Repeats.fold policy.combine entries repeats
      pure (.ok kept)
  | .overflow => pure (.ok entries)

omit [EquivBEq K] [LawfulHashable K] in
theorem resolve_eq_resolvePlaced {policy : Policy σ K V} (hpolicy : policy ≠ .keepLast)
    (entries : Array (Entry K V)) :
    resolve policy entries =
      resolvePlaced policy entries (place policy.rejects entries (Keyed.empty : Keyed K)) := by
  cases policy with
  | keepLast => exact absurd rfl hpolicy
  | reject => rfl
  | merge combine => rfl

theorem run_resolve {policy : Policy σ K V} (hpolicy : policy ≠ .keepLast)
    (entries : Array (Entry K V)) (state : σ) :
    (resolve policy entries).run state = (settled policy entries).run state := by
  rw [resolve_eq_resolvePlaced hpolicy]
  cases hplace : place policy.rejects entries (Keyed.empty : Keyed K) with
  | done index repeats =>
      rcases Index.repeats_of_place_done Keyed.answers_of_claims hplace with
        ⟨rfl, hrejects⟩
      rw [run_settled_of_kept hrejects]
      rfl
  | rejected first second =>
      rcases Index.repeats_of_place_rejected Keyed.answers_of_claims hplace with
        ⟨hrejects, hhead⟩
      rw [run_settled_of_head? hrejects hhead]
      rfl
  | overflow => exact absurd hplace (Keyed.place_ne_overflow _ _)

theorem deduplicates_of_resolve {policy : Policy σ K V} {entries resolved : Array (Entry K V)}
    {state : σ} (h : ((resolve policy entries).run state).1 = .ok resolved) :
    Deduplicates resolved entries := by
  by_cases hpolicy : policy = .keepLast
  · subst hpolicy
    cases h
    exact deduplicates_lastOccurrences entries
  · rw [run_resolve hpolicy] at h
    exact deduplicates_of_settled h

theorem run_resolve_of_refuses {policy : Policy σ K V} {entries : Array (Entry K V)}
    (h : Refuses policy entries) (state : σ) :
    exists r, (repeatsOf entries).head? = some r ∧
      (resolve policy entries).run state =
        (.error (.duplicateKey r.first r.later), state) := by
  have hpolicy : policy ≠ .keepLast := by
    intro hkeep
    have hrejects := h.1
    rw [hkeep] at hrejects
    cases hrejects
  rw [run_resolve hpolicy]
  exact run_settled_of_refuses h state

theorem resolve_ok_iff {policy : Policy σ K V} {entries : Array (Entry K V)} (state : σ) :
    (exists resolved, ((resolve policy entries).run state).1 = .ok resolved) ↔
      ¬ Refuses policy entries := by
  constructor
  · intro h hrefuses
    rcases h with ⟨resolved, hresolved⟩
    rcases run_resolve_of_refuses hrefuses state with ⟨r, _, hrun⟩
    rw [hrun] at hresolved
    cases hresolved
  · intro h
    by_cases hpolicy : policy = .keepLast
    · subst hpolicy
      exact ⟨lastOccurrences entries, rfl⟩
    · rw [run_resolve hpolicy, run_settled_of_kept (repeatsOf_eq_nil_of_not_refuses h)]
      exact ⟨_, rfl⟩

end Construction
end SealedMap
