import Mathlib
import SealedMap.Builder
import SealedMap.Kind.Key
import SealedMap.Proofs.Associations
import SealedMap.Proofs.LastEntries
import SealedMap.Proofs.MergeCalls
import SealedMap.Proofs.Outcomes
import SealedMap.Session.Action

/-!
# Builds that keep last values

A build that keeps the last values, without an order, is a merging build whose
function gives the later of two values.  So the left fold of the values of a key
comes to the last one, while the key stays where it was put first and as it was
spelled there.  Whichever layout results, a key is found with that value.
-/

namespace SealedMap

variable {σ K V : Type} [BEq K] [EquivBEq K]

/-! ## Folding to the last value -/

theorem foldl_later (values : List V) (start : V) :
    values.foldl (fun _ later => later) start = values.getLast?.getD start := by
  induction values generalizing start with
  | nil => rfl
  | cons value rest ih => rw [List.foldl_cons, ih, List.getLast?_cons, Option.getD_some]

omit [EquivBEq K] in
theorem foldedEntry_later {entries : List (Entry K V)} {first : Entry K V}
    (h : firstWith? entries first.key = some first) :
    foldedEntry (fun _ _ later => later) entries first = updated entries first := by
  rcases exists_valuesOf_eq_cons h with ⟨more, hmore⟩
  rcases exists_lastWith? h with ⟨last, hlast⟩
  have hvalue := getLast?_valuesOf entries first.key
  rw [hmore, hlast, Option.map_some, List.getLast?_cons, Option.some.injEq] at hvalue
  rw [foldedEntry, hmore, List.tail_cons, foldl_later, hvalue, updated_eq hlast]

/-- Keeping last values leaves the first entries, each with the last value of its key. -/
theorem run_settled_keepLast (entries : Array (Entry K V)) (state : σ) :
    ((settled (.keepLast : Policy σ K V) entries).run state).1 =
      .ok ((firsts entries.toList).map (updated entries.toList)).toArray := by
  have hheld : heldAfter (Policy.keepLast : Policy σ K V).combine entries.toList state =
      (firsts entries.toList).map (foldedEntry (fun _ _ later => later) entries.toList) :=
    heldAfter_pure (fun _ _ later => later) entries.toList state
  have hupdated : (firsts entries.toList).map
      (foldedEntry (fun _ _ later => later) entries.toList) =
        (firsts entries.toList).map (updated entries.toList) := by
    apply List.map_congr_left
    intro first hfirst
    exact foldedEntry_later (firstWith?_of_mem_firsts hfirst)
  rw [run_settled_of_resolves rfl, hheld, hupdated]

/-! ## What is found -/

theorem firstWith?_map_updated (entries : List (Entry K V)) (key : K) :
    firstWith? ((firsts entries).map (updated entries)) key =
      (firstWith? entries key).map (updated entries) := by
  rw [← firstWith?_firsts entries, firstWith?, List.find?_map]
  rfl

theorem map_value_updated (entries : List (Entry K V)) (key : K) :
    ((firstWith? entries key).map (updated entries)).map Entry.value =
      (lastWith? entries key).map Entry.value := by
  cases hfirst : firstWith? entries key with
  | none =>
      have hnone := hasKey_eq_false_iff.mpr (firstWith?_eq_none_iff.mp hfirst)
      rw [lastWith?_eq_none_iff.mpr hnone]
      rfl
  | some first =>
      rcases exists_lastWith? hfirst with ⟨last, hlast⟩
      have hkey := (exists_split_of_firstWith? hfirst).1
      rw [Option.map_some, updated_eq ((lastWith?_congr hkey entries).trans hlast), hlast]
      rfl

variable [Hashable K]

omit [EquivBEq K] in
theorem Map.entry?_eq_firstWith? {map : Map K V} (h : map.layout.Exact) (key : K) :
    map.entry? key = firstWith? map.entries.toList key := by
  cases hfirst : firstWith? map.entries.toList key with
  | some entry =>
      have hmem := Array.mem_toList_iff.mp (List.mem_of_find?_eq_some hfirst)
      exact (entry?_eq_some_iff h).mpr ⟨hmem, (exists_split_of_firstWith? hfirst).1⟩
  | none =>
      apply Option.eq_none_iff_forall_ne_some.mpr
      intro entry hentry
      rcases (entry?_eq_some_iff h).mp hentry with ⟨hmem, hkey⟩
      rw [firstWith?_eq_none_iff.mp hfirst entry (Array.mem_toList_iff.mpr hmem)] at hkey
      cases hkey

theorem Map.entry?_of_presents_updated {map : Map K V} {entries : List (Entry K V)}
    (h : map.layout.Presents ((firsts entries).map (updated entries)).toArray) (key : K) :
    map.entry? key = (firstWith? entries key).map (updated entries) := by
  have hentries : map.entries = _ := h.entries_eq
  rw [Map.entry?_eq_firstWith? h.exact, hentries, firstWith?_map_updated]

theorem Map.get?_of_presents_updated {map : Map K V} {entries : List (Entry K V)}
    (h : map.layout.Presents ((firsts entries).map (updated entries)).toArray) (key : K) :
    map.get? key = (lastWith? entries key).map Entry.value := by
  rw [Map.get?, Map.entry?_of_presents_updated h, map_value_updated]

omit [BEq K] [EquivBEq K] [Hashable K] in
theorem ofPair_toPair_toArray (entries : Array (Entry K V)) :
    ((entries.toList.map Entry.toPair).map Entry.ofPair).toArray = entries := by
  rw [List.map_map]
  exact congrArg List.toArray (List.map_id entries.toList)

namespace Builder

variable [LawfulHashable K]

theorem exists_buildKeepingLast (builder : Builder K V)
    (hbuilder : forall a b, (a == b) = true -> builder.hash a = builder.hash b)
    (horder : builder.order = none) :
    exists map, builder.buildKeepingLast.outcome = .ok map ∧
      map.layout.Presents
        ((firsts builder.entries.toList).map (updated builder.entries.toList)).toArray := by
  have hagrees := Construction.construct_agrees hbuilder (.keepLast : Policy Unit K V) none
    builder.entries ()
  have hyields := hagrees.yields
  rw [Construction.arranged, run_settled_keepLast] at hyields
  rw [buildKeepingLast, buildWith, horder]
  exact hyields

/--
Without an order, a build that keeps last values ends with a map of one entry for
each key: the first entry with the key, in its place and with its spelling, but
with the value of the last one.  Whichever layout the map has, a key is found in
that entry.  A build that uses the builder up and a map made of the pairs alone
are this same map.
-/
theorem keeping_last_updates_in_place (builder : Builder K V)
    (hbuilder : forall a b, (a == b) = true -> builder.hash a = builder.hash b)
    (horder : builder.order = none) :
    let entries := builder.entries.toList
    exists map, builder.buildKeepingLast.outcome = .ok map ∧
      (forall (state : Session.State K V) (name target : String) (consuming : Bool),
        state.buildFrom name builder target (.under (.keepLast : Policy Unit K V) ()) consuming =
          ⟨none, (if consuming then state.dropBuilder name else state).addMap target map⟩) ∧
      (Map.ofList builder.hash (entries.map Entry.toPair)).outcome = .ok map ∧
      map.entries = ((firsts entries).map (updated entries)).toArray ∧
      (forall first, first ∈ firsts entries -> exists last,
        lastWith? entries first.key = some last ∧
          updated entries first = ⟨first.key, last.value⟩) ∧
      (firsts entries).Sublist entries ∧ Distinct map.keys ∧
      map.size = distinctCount (keysOf builder.entries) ∧
      (forall key, map.entry? key = (firstWith? entries key).map (updated entries) ∧
        map.get? key = (lastWith? entries key).map Entry.value) := by
  dsimp only
  rcases exists_buildKeepingLast builder hbuilder horder with ⟨map, hmap, hpresents⟩
  have hentries : map.entries = _ := hpresents.entries_eq
  refine ⟨map, hmap, ?_, ?_, hentries, ?_, firsts_sublist _,
    Map.distinct_keys hpresents.exact, ?_, ?_⟩
  · intro state name target consuming
    have houtcome : ((Session.Building.under (.keepLast : Policy Unit K V) ()).construct
        builder).outcome = .ok map := hmap
    rw [Session.State.buildFrom, houtcome]
  · rw [Map.ofList, buildKeepingLast, buildWith, entries_ofList, ofPair_toPair_toArray]
    rw [buildKeepingLast, buildWith, horder] at hmap
    exact hmap
  · intro first hfirst
    rcases exists_lastWith? (firstWith?_of_mem_firsts hfirst) with ⟨last, hlast⟩
    exact ⟨last, hlast, updated_eq hlast⟩
  · rw [Map.size, hentries, List.size_toArray, List.length_map, length_firsts]
    rfl
  · intro key
    exact ⟨Map.entry?_of_presents_updated hpresents key,
      Map.get?_of_presents_updated hpresents key⟩

def respelled : Builder Caseless Nat :=
  ofList (fun _ => 0) [(⟨"A"⟩, 1), (⟨"b"⟩, 2), (⟨"a"⟩, 3)]

theorem beq_lowered (left right : Caseless) :
    (left == right) =
      (left.text.toList.map Char.toLower == right.text.toList.map Char.toLower) := by
  rw [Caseless.beq_def, Bool.eq_iff_iff, beq_iff_eq, beq_iff_eq, Caseless.folded,
    Caseless.folded, ← String.toList_inj, String.toList_map, String.toList_map]

theorem updated_respelled :
    (firsts respelled.entries.toList).map (updated respelled.entries.toList) =
        [⟨⟨"A"⟩, 3⟩, ⟨⟨"b"⟩, 2⟩] ∧
      (lastWith? respelled.entries.toList ⟨"B"⟩).map Entry.value = some 2 := by
  have haA : ((⟨"a"⟩ : Caseless) == ⟨"A"⟩) = true := by rw [beq_lowered]; decide
  have hbA : ((⟨"b"⟩ : Caseless) == ⟨"A"⟩) = false := by rw [beq_lowered]; decide
  have hab : ((⟨"a"⟩ : Caseless) == ⟨"b"⟩) = false := by rw [beq_lowered]; decide
  have haB : ((⟨"a"⟩ : Caseless) == ⟨"B"⟩) = false := by rw [beq_lowered]; decide
  have hbB : ((⟨"b"⟩ : Caseless) == ⟨"B"⟩) = true := by rw [beq_lowered]; decide
  simp [respelled, firsts, updated, lastWith?, haA, hbA, hab, haB, hbB]

def crowdedRising : Builder Nat Nat :=
  ofList (fun _ => 0) ((List.range 24).map fun n => (n % 12, n))

theorem keeping_last_updates_in_place_respelled :
    (exists map, respelled.buildKeepingLast.outcome = .ok map ∧
      map.entries = #[⟨⟨"A"⟩, 3⟩, ⟨⟨"b"⟩, 2⟩] ∧ map.get? ⟨"B"⟩ = some 2) ∧
      crowdedRising.buildKeepingLast.events = [.chainOverflow 24 9, .repeatsResolved 12] ∧
      exists map, crowdedRising.buildKeepingLast.outcome = .ok map ∧
        map.entries = ((List.range 12).map fun n => ⟨n, n + 12⟩).toArray ∧
        map.get? 7 = some 19 := by
  refine ⟨?_, by cbv, ?_⟩
  · rcases keeping_last_updates_in_place respelled (fun _ _ _ => rfl) rfl with
      ⟨map, hmap, _, _, hentries, _, _, _, _, hfound⟩
    refine ⟨map, hmap, ?_, ?_⟩
    · rw [hentries, updated_respelled.1]
    · rw [(hfound ⟨"B"⟩).2, updated_respelled.2]
  · rcases keeping_last_updates_in_place crowdedRising (fun _ _ _ => rfl) rfl with
      ⟨map, hmap, _, _, hentries, _, _, _, _, hfound⟩
    refine ⟨map, hmap, ?_, ?_⟩
    · rw [hentries]
      cbv
    · rw [(hfound 7).2]
      cbv

end Builder
end SealedMap
