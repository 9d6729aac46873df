import SealedMap.Builder
import SealedMap.Proofs.LastEntries
import SealedMap.Proofs.MergingBuilds
import SealedMap.Proofs.RejectingBuilds
import SealedMap.Proofs.StableSorting

/-!
# Builds that order by value

A build with an order of values resolves the repeats first, by the order in which
the entries were put, and then sorts what is left without moving ties.  Which
entries are left depends on the policy: a build that keeps last values keeps the
last entry of each key whole, where it stands, so a value that is put over by a
later one has no part in the sorting.  The hash function has no part in it either.
-/

namespace SealedMap

variable {σ K V : Type} [BEq K]

/--
The entries that a policy leaves: all of them, the last one of each key, or the
first one of each key with the values combined.
-/
def resolvedBy (policy : Policy σ K V) (entries : List (Entry K V)) (state : σ) :
    List (Entry K V) :=
  match policy with
  | .reject => entries
  | .keepLast => lasts entries
  | .merge combine => heldAfter combine entries state

theorem resolvedBy_of_size_lt {entries : Array (Entry K V)} (h : entries.size < 2)
    (policy : Policy σ K V) (state : σ) :
    resolvedBy policy entries.toList state = entries.toList := by
  rcases entries with ⟨entries⟩
  cases entries with
  | nil => cases policy <;> rfl
  | cons first rest =>
      cases rest with
      | nil => cases policy <;> rfl
      | cons second rest => simp at h

variable [EquivBEq K]

theorem not_refuses_iff {policy : Policy σ K V} {entries : Array (Entry K V)} :
    ¬ Refuses policy entries ↔ (policy.rejects = true -> Distinct (keysOf entries)) := by
  constructor
  · intro h hrejects
    exact distinct_of_repeatsOf_eq_nil (repeatsOf_eq_nil_of_not_refuses h hrejects)
  · intro h hrefuses
    exact hrefuses.2 (repeatsOf_eq_nil_of_distinct (h hrefuses.1))

namespace Construction

variable [Hashable K] [LawfulHashable K]

/-! ## Resolving -/

theorem foldr_lastStep (entries : List (Entry K V)) :
    (entries.foldr lastStep ((∅ : Std.HashSet K), [])).2 = lasts entries := by
  induction entries with
  | nil => rfl
  | cons entry rest ih =>
      have hseen : (rest.foldr lastStep ((∅ : Std.HashSet K), [])).1.contains entry.key =
          hasKey rest entry.key := by
        rw [Bool.eq_iff_iff, (lastTaken_foldr rest).contains_iff, ih, ← hasKey_lasts, hasKey,
          List.any_eq_true]
      rw [List.foldr_cons, lastStep, hseen, lasts]
      split
      next => exact ih
      next => rw [ih]

theorem run_resolve_ok {policy : Policy σ K V} {entries : Array (Entry K V)}
    (h : ¬ Refuses policy entries) (state : σ) :
    ((resolve policy entries).run state).1 =
      .ok (resolvedBy policy entries.toList state).toArray := by
  cases policy with
  | reject =>
      have hnil := repeatsOf_eq_nil_of_not_refuses h rfl
      have hpolicy : (Policy.reject : Policy σ K V) ≠ .keepLast := nofun
      rw [run_resolve hpolicy, run_settled_of_no_repeats hnil]
      rfl
  | keepLast =>
      have hlasts : lastOccurrences entries = (lasts entries.toList).toArray := by
        rw [lastOccurrences_eq, foldr_lastStep]
      rw [resolvedBy, ← hlasts]
      rfl
  | merge combine =>
      have hpolicy : Policy.merge combine ≠ .keepLast := nofun
      rw [run_resolve hpolicy, run_settled_merge]
      rfl

/-! ## Sorting what is left -/

theorem construct_some_keeps {policy : Policy σ K V} {entries : Array (Entry K V)}
    (h : ¬ Refuses policy entries) (hash : K -> UInt64) (order : ValueOrder V) (state : σ) :
    ((construct hash policy (some order) entries).run state).1.Keeps
      (sortByValue order (resolvedBy policy entries.toList state).toArray) := by
  by_cases hsize : entries.size < 2
  · rw [resolvedBy_of_size_lt hsize, Array.toArray_toList, sortByValue_of_size_lt hsize,
      construct, if_pos hsize, index, if_pos hsize]
    exact keeps_built (entries_small hsize) hash
  · have hresolved := run_resolve_ok h state
    have hkept := deduplicates_sortByValue (deduplicates_of_resolve hresolved) order
    rw [run_construct_some hsize]
    rcases hrun : (resolve policy entries).run state with ⟨result, after⟩
    rw [hrun] at hresolved
    subst hresolved
    exact index_keeps hkept.distinct hash after

theorem construct_some_of_refuses {policy : Policy σ K V} {entries : Array (Entry K V)}
    (h : Refuses policy entries) (hash : K -> UInt64) (order : ValueOrder V) (state : σ)
    (map : Map K V) :
    ((construct hash policy (some order) entries).run state).1.outcome ≠ .ok map := by
  have hsize : ¬ entries.size < 2 := fun hsize => h.2 (repeatsOf_eq_nil_of_size_lt hsize)
  rcases run_resolve_of_refuses h state with ⟨r, _, hrun⟩
  rw [run_construct_some hsize, hrun]
  nofun

theorem construct_some_ok_iff (hash : K -> UInt64) (policy : Policy σ K V)
    (order : ValueOrder V) (entries : Array (Entry K V)) (state : σ) :
    (exists map, ((construct hash policy (some order) entries).run state).1.outcome = .ok map) ↔
      (policy.rejects = true -> Distinct (keysOf entries)) := by
  rw [← not_refuses_iff]
  constructor
  · intro h hrefuses
    rcases h with ⟨map, hmap⟩
    exact construct_some_of_refuses hrefuses hash order state map hmap
  · intro h
    rcases construct_some_keeps h hash order state with ⟨map, hmap, _⟩
    exact ⟨map, hmap⟩

theorem stablySorted_of_construct {hash : K -> UInt64} {policy : Policy σ K V}
    {order : ValueOrder V} [Std.TransCmp order] {entries : Array (Entry K V)} {state : σ}
    {map : Map K V}
    (h : ((construct hash policy (some order) entries).run state).1.outcome = .ok map) :
    StablySorted order map.entries.toList (resolvedBy policy entries.toList state) := by
  have hrefuses : ¬ Refuses policy entries := fun hrefuses =>
    construct_some_of_refuses hrefuses hash order state map h
  rcases construct_some_keeps hrefuses hash order state with ⟨kept, hkept, hentries⟩
  rw [hkept] at h
  cases h
  rw [hentries]
  exact stablySorted_sortByValue order (resolvedBy policy entries.toList state).toArray

end Construction

namespace Builder

variable [Hashable K] [LawfulHashable K]

theorem exists_buildKeepingLast_ordered (builder : Builder K V) {order : ValueOrder V}
    (horder : builder.order = some order) :
    exists map, builder.buildKeepingLast.outcome = .ok map ∧
      map.entries = Construction.sortByValue order (lasts builder.entries.toList).toArray := by
  rw [buildKeepingLast, buildWith, horder]
  exact Construction.construct_some_keeps (not_refuses_of_keeps rfl builder.entries)
    builder.hash order ()

theorem buildKeepingLast_superseded {builder : Builder K V} {order : ValueOrder V}
    (horder : builder.order = some order) {front back : List (Entry K V)} {entry : Entry K V}
    (hsplit : builder.entries.toList = front ++ entry :: back)
    (hlater : hasKey back entry.key = true) (value : V) :
    exists map other, builder.buildKeepingLast.outcome = .ok map ∧
      ({ builder with entries := (front ++ ⟨entry.key, value⟩ :: back).toArray }
        : Builder K V).buildKeepingLast.outcome = .ok other ∧
      other.entries = map.entries := by
  rcases exists_buildKeepingLast_ordered builder horder with ⟨map, hmap, hentries⟩
  let revised : Builder K V :=
    { builder with entries := (front ++ ⟨entry.key, value⟩ :: back).toArray }
  rcases exists_buildKeepingLast_ordered revised horder with ⟨other, hother, hothers⟩
  have hlasts : lasts revised.entries.toList = lasts builder.entries.toList := by
    rw [hsplit]
    exact lasts_superseded hlater value
  exact ⟨map, other, hmap, hother, by rw [hothers, hentries, hlasts]⟩

/--
With an order of values and any hash function, a build ends with a map unless its
policy rejects and a key repeats.  The entries of the map are those that the
policy leaves, stably sorted, and there is no other such arrangement of them.
A policy that keeps last values leaves the last entries of the keys as they stand,
and whatever value an earlier one has, the map is the same.  One that combines
values leaves the first keys in their places, each with the fold of its values.
-/
theorem ordering_sorts_what_is_left (builder : Builder K V) {order : ValueOrder V}
    [Std.TransCmp order] (horder : builder.order = some order) :
    let entries := builder.entries.toList
    (forall (σ : Type) (policy : Policy σ K V) (state : σ),
      ((exists map, ((builder.buildWith policy).run state).1.outcome = .ok map) ↔
        (policy.rejects = true -> Distinct (keysOf builder.entries))) ∧
      forall map, ((builder.buildWith policy).run state).1.outcome = .ok map ->
        StablySorted order map.entries.toList (resolvedBy policy entries state) ∧
        forall others, StablySorted order others (resolvedBy policy entries state) ->
          others = map.entries.toList) ∧
    (lasts entries).Sublist entries ∧
    Distinct ((lasts entries).map Entry.key) ∧
    (forall key, firstWith? (lasts entries) key = lastWith? entries key) ∧
    lasts entries = (firsts entries.reverse).reverse ∧
    (forall front entry back value, entries = front ++ entry :: back ->
      hasKey back entry.key = true -> exists map other,
        builder.buildKeepingLast.outcome = .ok map ∧
        ({ builder with entries := (front ++ ⟨entry.key, value⟩ :: back).toArray }
          : Builder K V).buildKeepingLast.outcome = .ok other ∧
        other.entries = map.entries) ∧
    (forall (σ : Type) (combine : K -> V -> V -> StateM σ V) (state : σ),
      (heldAfter combine entries state).map Entry.key = (firsts entries).map Entry.key) ∧
    forall combine : K -> V -> V -> V,
      resolvedBy (.merge fun key earlier later => pure (combine key earlier later)) entries () =
        (firsts entries).map (foldedEntry combine entries) := by
  refine ⟨?_, lasts_sublist _, distinct_lasts _, firstWith?_lasts _, lasts_eq_reverse _, ?_, ?_,
    ?_⟩
  · intro σ policy state
    rw [buildWith, horder]
    refine ⟨Construction.construct_some_ok_iff _ _ _ _ _, ?_⟩
    intro map hmap
    have hsorted := Construction.stablySorted_of_construct hmap
    exact ⟨hsorted, fun others hothers => hothers.unique hsorted⟩
  · intro front entry back value hsplit hlater
    exact buildKeepingLast_superseded horder hsplit hlater value
  · intro σ combine state
    exact map_key_heldAfter combine builder.entries.toList state
  · intro combine
    exact heldAfter_pure combine builder.entries.toList ()

def lastDigit : ValueOrder Nat :=
  compareOn fun value => value % 10

instance : Std.TransCmp lastDigit :=
  inferInstanceAs (Std.TransCmp (compareOn fun value : Nat => value % 10))

def tiedTwice : Builder Nat Nat :=
  { ofList (fun _ => 0) [(1, 15), (2, 5), (1, 25), (3, 11)] with order := some lastDigit }

theorem ordering_sorts_what_is_left_tiedTwice :
    (exists map, tiedTwice.buildKeepingLast.outcome = .ok map ∧
        map.entries.toList = [⟨3, 11⟩, ⟨2, 5⟩, ⟨1, 25⟩]) ∧
      (exists map, (tiedTwice.buildMerging fun _ earlier later => earlier + later).outcome =
          .ok map ∧
        map.entries.toList = [⟨1, 40⟩, ⟨3, 11⟩, ⟨2, 5⟩]) ∧
      ¬ exists map, tiedTwice.build.outcome = .ok map := by
  have horder : tiedTwice.order = some lastDigit := rfl
  rcases ordering_sorts_what_is_left tiedTwice horder with ⟨hbuilds, _⟩
  refine ⟨?_, ?_, ?_⟩
  · rcases hbuilds Unit .keepLast () with ⟨hsucceeds, hsorted⟩
    rcases hsucceeds.mpr fun h => absurd h Bool.false_ne_true with ⟨map, hmap⟩
    have hstable := stablySorted_sortByValue lastDigit
      (resolvedBy (.keepLast : Policy Unit Nat Nat) tiedTwice.entries.toList ()).toArray
    refine ⟨map, hmap, ?_⟩
    rw [← (hsorted map hmap).2 _ hstable]
    cbv
  · rcases hbuilds Unit (.merge fun _ earlier later => pure (earlier + later)) () with
      ⟨hsucceeds, hsorted⟩
    rcases hsucceeds.mpr fun h => absurd h Bool.false_ne_true with ⟨map, hmap⟩
    have hstable := stablySorted_sortByValue lastDigit
      (resolvedBy (.merge fun _ earlier later => pure (earlier + later))
        tiedTwice.entries.toList ()).toArray
    refine ⟨map, hmap, ?_⟩
    rw [← (hsorted map hmap).2 _ hstable]
    cbv
  · intro h
    have hdistinct := (hbuilds Unit .reject ()).1.mp h rfl
    exact hdistinct.not_repeatsAt 0 2 ⟨by decide, 1, 1, rfl, rfl, rfl⟩

end Builder
end SealedMap
