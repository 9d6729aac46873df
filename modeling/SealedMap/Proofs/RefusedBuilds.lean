import SealedMap.Proofs.BuilderLogs
import SealedMap.Proofs.ValueOrderedBuilds

/-!
# Refused builds

A build that rejects repeats fails exactly if a key repeats, and then it names the
first repeat by the positions in which the entries were put.  This holds whether
the repeat is met by the chained index, by the keyed one that takes over from it
or before the entries are sorted.  What is put later does not move the two entries
that were named.
-/

namespace SealedMap

open Session (Building Putting State)

/-! ## Rejecting policies -/

namespace Construction

variable {σ K V : Type} [BEq K] [EquivBEq K] [Hashable K] [LawfulHashable K]
  {policy : Policy σ K V} {entries : Array (Entry K V)}

theorem run_resolve_of_rejects (h : policy.rejects = true) (state : σ) :
    (resolve policy entries).run state = (settled policy entries).run state := by
  apply run_resolve
  intro hkeep
  rw [hkeep] at h
  cases h

theorem run_arranged_of_firstRepeat (hrejects : policy.rejects = true) {first second : Nat}
    (h : FirstRepeat (keysOf entries) first second) (order : Option (ValueOrder V))
    (state : σ) :
    (arranged policy order entries).run state =
      (.error (.duplicateKey first second), state) := by
  have hsettled := run_settled_of_head? hrejects h.head?_repeatsOf
  cases order with
  | none => exact hsettled state
  | some order =>
      by_cases hsize : entries.size < 2
      · rw [arranged, if_pos hsize, hsettled]
      · rw [run_arranged_some hsize, run_resolve_of_rejects hrejects, hsettled]

theorem construct_keeps_of_distinct (hrejects : policy.rejects = true)
    (h : Distinct (keysOf entries)) (hash : K -> UInt64) (order : Option (ValueOrder V))
    (state : σ) :
    ((construct hash policy order entries).run state).1.Keeps (inOrder order entries) := by
  cases policy with
  | keepLast => cases hrejects
  | merge combine => cases hrejects
  | reject =>
      cases order with
      | none => exact index_keeps h hash state
      | some order => exact construct_some_keeps (not_refuses_iff.mpr fun _ => h) hash order state

theorem constructKeyed_keeps (h : Distinct (keysOf entries)) (hash : K -> UInt64) (state : σ) :
    ((constructKeyed hash (.reject : Policy σ K V) entries).run state).1.Keeps entries := by
  unfold constructKeyed
  split
  next hsize => exact keeps_built (entries_small hsize) hash
  next => exact indexKeyed_keeps h hash state

end Construction

/-! ## Builds that reject -/

namespace Session.Building

variable {K V : Type}

/-- The build refuses repeats; one with a keyed index needs a builder without an order. -/
def Rejects (building : Building K V) (builder : Builder K V) : Prop :=
  match building with
  | .under policy _ => policy.rejects = true
  | .keyed => builder.order = none

variable [BEq K] [EquivBEq K] [Hashable K] [LawfulHashable K] {building : Building K V}
  {builder : Builder K V} (hrejects : building.Rejects builder)

include hrejects

theorem Rejects.keeps (h : Distinct (keysOf builder.entries)) :
    (building.construct builder).Keeps (Construction.inOrder builder.order builder.entries) := by
  cases building with
  | under policy state =>
      exact Construction.construct_keeps_of_distinct hrejects h builder.hash builder.order state
  | keyed =>
      have horder : builder.order = none := hrejects
      rw [construct, Builder.buildKeyed, horder]
      exact Construction.constructKeyed_keeps h builder.hash ()

variable (hbuilder : forall a b, (a == b) = true -> builder.hash a = builder.hash b)

include hbuilder

theorem Rejects.outcome_eq {first second : Nat}
    (h : FirstRepeat (keysOf builder.entries) first second) :
    (building.construct builder).outcome = .error (.duplicateKey first second) := by
  cases building with
  | under policy state =>
      have hagrees := Construction.construct_agrees hbuilder policy builder.order
        builder.entries state
      rw [Construction.run_arranged_of_firstRepeat hrejects h] at hagrees
      exact hagrees.yields
  | keyed =>
      have horder : builder.order = none := hrejects
      have hagrees := Construction.constructKeyed_agrees builder.hash (.reject : Policy Unit K V)
        builder.entries ()
      rw [run_settled_of_head? rfl h.head?_repeatsOf] at hagrees
      rw [construct, Builder.buildKeyed, horder]
      exact hagrees.yields

theorem Rejects.firstRepeat {refusal : Refusal}
    (h : (building.construct builder).outcome = .error refusal) :
    exists first second, refusal = .duplicateKey first second ∧
      FirstRepeat (keysOf builder.entries) first second := by
  rcases distinct_or_firstRepeat builder.entries with hdistinct | ⟨first, second, hfirst⟩
  · rcases hrejects.keeps hdistinct with ⟨map, hmap, _⟩
    rw [hmap] at h
    cases h
  · rw [hrejects.outcome_eq hbuilder hfirst] at h
    cases h
    exact ⟨first, second, rfl, hfirst⟩

theorem Rejects.entries_eq {map : Map K V} (h : (building.construct builder).outcome = .ok map) :
    map.entries = Construction.inOrder builder.order builder.entries := by
  rcases distinct_or_firstRepeat builder.entries with hdistinct | ⟨first, second, hfirst⟩
  · rcases hrejects.keeps hdistinct with ⟨kept, hkept, hentries⟩
    rw [hkept] at h
    cases h
    exact hentries
  · rw [hrejects.outcome_eq hbuilder hfirst] at h
    cases h

end Session.Building

/-! ## Entries that were named -/

theorem RepeatsAt.exists_entries {K V : Type} [BEq K] {entries : Array (Entry K V)}
    {first second : Nat} (h : RepeatsAt (keysOf entries) first second) :
    exists earlier later, entries[first]? = some earlier ∧ entries[second]? = some later ∧
      (earlier.key == later.key) = true := by
  rcases repeatsAt_keysOf_iff.mp h with ⟨_, later, hlater, hholds⟩
  rcases holdsAt_iff.mp hholds with ⟨earlier, hearlier, heq⟩
  exact ⟨earlier, later, hearlier, hlater, heq⟩

namespace Builder

variable {K V : Type}

inductive Grows (builder : Builder K V) : Builder K V -> Prop where
  | same : Grows builder builder
  | put {later more : Builder K V} {putting : Putting K V} :
      Grows builder later -> putting.into later = .ok more -> Grows builder more
  | combine {later : Builder K V} (appended : Builder K V) :
      Grows builder later -> Grows builder (later.combine appended)
  | order {later more : Builder K V} {order : ValueOrder V} :
      Grows builder later -> later.orderByValue order = .ok more -> Grows builder more

theorem into_eq_grown {putting : Putting K V} {builder more : Builder K V}
    (h : putting.into builder = .ok more) :
    exists entries, more = builder.grown entries none := by
  rw [Putting.into_eq] at h
  cases hentries : putting.entries? with
  | error refusal =>
      rw [hentries] at h
      cases h
  | ok entries =>
      rw [hentries] at h
      cases h
      exact ⟨entries, putEntries_eq_grown builder entries⟩

theorem orderByValue_eq_grown {builder more : Builder K V} {order : ValueOrder V}
    (h : builder.orderByValue order = .ok more) :
    more = builder.grown [] (some order) := by
  unfold orderByValue at h
  split at h
  next => cases h
  next hnone =>
    cases h
    rw [grown, hnone, Option.none_or, Array.append_empty]

theorem Grows.exists_grown {builder later : Builder K V} (h : builder.Grows later) :
    exists entries order, later = builder.grown entries order := by
  induction h with
  | same => exact ⟨[], none, builder.grown_nil_none.symm⟩
  | put _ hput ih =>
      rcases ih with ⟨entries, order, rfl⟩
      rcases into_eq_grown hput with ⟨others, rfl⟩
      exact ⟨_, _, grown_grown builder entries others order none⟩
  | combine appended _ ih =>
      rcases ih with ⟨entries, order, rfl⟩
      rw [combine_eq_grown]
      exact ⟨_, _, grown_grown builder entries _ order none⟩
  | order _ hordered ih =>
      rcases ih with ⟨entries, order, rfl⟩
      rw [orderByValue_eq_grown hordered]
      exact ⟨_, _, grown_grown builder entries [] order _⟩

theorem Grows.conflict?_eq {builder grown : Builder K V} (h : builder.Grows grown)
    {first second : Nat} {earlier later : Entry K V}
    (hearlier : builder.entries[first]? = some earlier)
    (hlater : builder.entries[second]? = some later) :
    grown.conflict? (.duplicateKey first second) = some (earlier, later) := by
  rcases h.exists_grown with ⟨entries, order, rfl⟩
  have hkeeps : forall {pos : Nat} {entry : Entry K V}, builder.entries[pos]? = some entry ->
      (builder.grown entries order).entries[pos]? = some entry := by
    intro pos entry hentry
    have hlt := (Array.getElem?_eq_some_iff.mp hentry).1
    rw [Builder.grown, Array.getElem?_append_left hlt, hentry]
  rw [conflict?, hkeeps hearlier, hkeeps hlater]
  rfl

variable [BEq K] [EquivBEq K] [Hashable K] [LawfulHashable K]

/--
A rejecting build fails if and only if a key repeats, and then it names the first
repeat.  The two entries that it names have equal keys, and they are found by the
refusal in the builder and in whatever it grows into.  Otherwise it ends with a map
of the entries as they were put or, if there is an order of values, stably sorted.
A build into a register, which may use the builder up, refuses the same.
-/
theorem rejecting_names_first_repeat (builder : Builder K V) (building : Building K V)
    (hbuilder : forall a b, (a == b) = true -> builder.hash a = builder.hash b)
    (hrejects : building.Rejects builder) :
    ((exists refusal, (building.construct builder).outcome = .error refusal) ↔
      exists p q, RepeatsAt (keysOf builder.entries) p q) ∧
    (forall refusal, (building.construct builder).outcome = .error refusal ->
      exists first second earlier later,
        refusal = .duplicateKey first second ∧
        FirstRepeat (keysOf builder.entries) first second ∧
        builder.entries[first]? = some earlier ∧
        builder.entries[second]? = some later ∧
        (earlier.key == later.key) = true ∧
        forall grown, builder.Grows grown ->
          grown.conflict? refusal = some (earlier, later)) ∧
    (forall map, (building.construct builder).outcome = .ok map ->
      map.entries = Construction.inOrder builder.order builder.entries ∧
      (builder.order = none -> map.entries = builder.entries) ∧
      forall (order : ValueOrder V) [Std.TransCmp order], builder.order = some order ->
        StablySorted order map.entries.toList builder.entries.toList) ∧
    (forall (state : State K V) (name target : String) (consuming : Bool) (refusal : Refusal),
      (state.buildFrom name builder target building consuming).refusal = some refusal ↔
        (building.construct builder).outcome = .error refusal) := by
  refine ⟨⟨?_, ?_⟩, ?_, ?_, ?_⟩
  · intro h
    rcases h with ⟨refusal, hrefusal⟩
    rcases hrejects.firstRepeat hbuilder hrefusal with ⟨first, second, _, hfirst⟩
    exact ⟨first, second, hfirst.repeats⟩
  · intro h
    rcases h with ⟨p, q, hrepeats⟩
    rcases distinct_or_firstRepeat builder.entries with hdistinct | ⟨first, second, hfirst⟩
    · exact absurd hrepeats (hdistinct.not_repeatsAt p q)
    · exact ⟨_, hrejects.outcome_eq hbuilder hfirst⟩
  · intro refusal hrefusal
    rcases hrejects.firstRepeat hbuilder hrefusal with ⟨first, second, rfl, hfirst⟩
    rcases hfirst.repeats.exists_entries with ⟨earlier, later, hearlier, hlater, heq⟩
    exact ⟨first, second, earlier, later, rfl, hfirst, hearlier, hlater, heq,
      fun _ hgrows => hgrows.conflict?_eq hearlier hlater⟩
  · intro map hmap
    have hentries := hrejects.entries_eq hbuilder hmap
    refine ⟨hentries, ?_, ?_⟩
    · intro hnone
      rw [hentries, hnone]
      rfl
    · intro order _ horder
      rw [hentries, horder]
      exact stablySorted_sortByValue order builder.entries
  · intro state name target consuming refusal
    unfold State.buildFrom
    cases (building.construct builder).outcome with
    | ok map => exact ⟨nofun, nofun⟩
    | error other => exact ⟨fun h => congrArg _ (Option.some.inj h), fun h => by cases h; rfl⟩

def crowdedRepeats : Builder Nat Nat :=
  ofList (fun _ => 0) (List.range 12 ++ [7, 3]).zipIdx

def orderedRepeats : Builder Nat Nat :=
  { crowdedRepeats with order := some fun left right => compare right left }

theorem rejecting_names_first_repeat_crowdedRepeats :
    crowdedRepeats.build.events = [.chainOverflow 14 9] ∧
      crowdedRepeats.build.outcome = .error (.duplicateKey 7 12) ∧
      crowdedRepeats.buildKeyed.outcome = .error (.duplicateKey 7 12) ∧
      orderedRepeats.build.outcome = .error (.duplicateKey 7 12) ∧
      ((crowdedRepeats.put 3 0).combine orderedRepeats).conflict? (.duplicateKey 7 12) =
        some (⟨7, 7⟩, ⟨7, 12⟩) := by
  have hrepeats : exists p q, RepeatsAt (keysOf crowdedRepeats.entries) p q :=
    ⟨7, 12, by decide, 7, 7, by decide, by decide, rfl⟩
  have hhead : (repeatsOf crowdedRepeats.entries).head? = some ⟨7, 12⟩ := by cbv
  have hrefused : forall (builder : Builder Nat Nat) (building : Building Nat Nat),
      builder.entries = crowdedRepeats.entries -> builder.hash = crowdedRepeats.hash ->
      building.Rejects builder ->
      (building.construct builder).outcome = .error (.duplicateKey 7 12) ∧
        forall grown, builder.Grows grown ->
          grown.conflict? (.duplicateKey 7 12) = some (⟨7, 7⟩, ⟨7, 12⟩) := by
    intro builder building hentries hhash hrejects
    have hconst : forall a b, (a == b) = true -> builder.hash a = builder.hash b := by
      intro a b _
      rw [hhash]
      rfl
    rcases rejecting_names_first_repeat builder building hconst hrejects with
      ⟨hfails, hnames, _⟩
    rcases hfails.mpr (hentries ▸ hrepeats) with ⟨refusal, hrefusal⟩
    rcases hnames refusal hrefusal with
      ⟨first, second, earlier, later, rfl, hfirst, hearlier, hlater, _, hconflict⟩
    have hnamed := hfirst.head?_repeatsOf
    rw [hentries, hhead] at hnamed
    cases hnamed
    rw [hentries] at hearlier hlater
    cases hearlier
    cases hlater
    exact ⟨hrefusal, hconflict⟩
  have hchained := hrefused crowdedRepeats (.under (.reject : Policy Unit Nat Nat) ()) rfl rfl rfl
  refine ⟨by cbv, hchained.1, ?_, ?_, ?_⟩
  · exact (hrefused crowdedRepeats .keyed rfl rfl rfl).1
  · exact (hrefused orderedRepeats (.under (.reject : Policy Unit Nat Nat) ()) rfl rfl rfl).1
  · have hone : (Putting.one 3 0).into crowdedRepeats = .ok (crowdedRepeats.put 3 0) := rfl
    have hput : crowdedRepeats.Grows (crowdedRepeats.put 3 0) := .put .same hone
    exact hchained.2 _ (.combine orderedRepeats hput)

end Builder
end SealedMap
