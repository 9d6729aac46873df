import SealedMap.Proofs.BuilderLogs
import SealedMap.Proofs.Lineages
import SealedMap.Proofs.MemoryRuns

/-!
# Builders as logs and maps as snapshots

Over any run, and wherever memory is shared, a builder has what it was opened with
and what it was given since, and a map or a view in a register is the one that was
constructed when it came about, whatever was done since to the builder it was
built from.
-/

namespace SealedMap
namespace Session

open Memory (Allocator Machine lowestFree)

variable {K V : Type} [BEq K] [Hashable K] [BEq V] [Hashable V]

/--
After any actions, wherever memory is shared: every builder has the entries it was
opened with and those it was given since, in turn, and the order it was opened with
or else the one that was accepted since; a put of pairs of which one lacks a part
is refused for the first such pair and puts nothing; an order is accepted exactly
if there is none yet; a build that is refused and uses nothing up changes nothing,
nor does a write to a map; every map is the one that was made by the construction
it stems from, and every view is that of such a map; and memory shows just these
builders, maps and views.
-/
theorem builders_log_and_maps_keep (hasher : Hashing.Hasher) (allocator : Allocator)
    (actions : List (Action K V)) :
    let start : State K V := .start hasher
    let state := start.actAll actions
    let machine := (Machine.start : Machine K V).actAll allocator actions
    (forall name builder, state.builders[name]? = some builder ->
      (exists before opening since origin, actions = before ++ opening :: since ∧
        Logged start before opening since name origin builder) ∧
      (forall pairs : List (Option K × Option V),
        (exists entries : List (Entry K V), pairs = entries.map partsOf ∧
          state.act (.put name (.parts pairs)) =
            ⟨none, state.setBuilder name (builder.putEntries entries)⟩) ∨
        exists refusal, FirstOffends pairs refusal ∧
          state.act (.put name (.parts pairs)) = ⟨some refusal, state⟩) ∧
      (forall order : ValueOrder V, state.act (.order name order) =
        if builder.order.isSome then ⟨some (.illegalState .orderAlreadySet), state⟩
        else ⟨none, state.setBuilder name { builder with order := some order }⟩) ∧
      (forall (target : String) (building : Building K V) refusal,
        (building.construct builder).outcome = .error refusal ->
          state.act (.build name target building false) = ⟨some refusal, state⟩)) ∧
    (forall name inst, state.maps[name]? = some inst ->
      (exists time, Stems start actions name time ∧ Born start actions time inst) ∧
      (forall mutation : Mutation K V, state.act (.mutate name mutation) =
        ⟨some (.unsupportedMutation mutation.operation), state⟩)) ∧
    (forall name view, state.views[name]? = some view ->
      exists kind time inst, ViewStems start actions name kind time ∧
        Born start actions time inst ∧ view = .ofMap inst.map kind) ∧
    (forall name, machine.builder? name = state.builders[name]?) ∧
    (forall name, machine.map? name = state.maps[name]?.map Instance.map) ∧
    (forall name, machine.view? name = state.views[name]?) := by
  dsimp only
  have hshows := Memory.shows_run hasher allocator actions
  have hnone : forall name : String, (State.start hasher : State K V).maps[name]? = none :=
    fun _ => Std.HashMap.getElem?_empty
  refine ⟨?_, ?_, ?_, hshows.builder?_eq, hshows.map?_eq, hshows.view?_eq⟩
  · intro name builder hbuilder
    refine ⟨exists_logged (fun _ => Std.HashMap.getElem?_empty) hbuilder,
      act_put_parts hbuilder, ?_, ?_⟩
    · intro order
      cases horder : builder.order with
      | none => exact State.act_order hbuilder horder
      | some first => exact State.act_order_refused hbuilder horder
    · intro target building refusal houtcome
      exact State.act_build_refused hbuilder houtcome target false
  · intro name inst hinst
    rcases exists_stems hnone hinst with ⟨time, hstems⟩
    refine ⟨⟨time, hstems, hstems.born hinst⟩, ?_⟩
    intro mutation
    exact State.act_mutate hinst mutation
  · intro name view hview
    rcases exists_viewStems hnone (fun _ => Std.HashMap.getElem?_empty) hview with
      ⟨kind, time, hstems⟩
    rcases hstems.exists_born with ⟨inst, hheld, hborn⟩
    rw [hview] at hheld
    cases hheld
    exact ⟨kind, time, inst, hstems, hborn, rfl⟩

def sharingRun : List (Action Nat Nat) :=
  [.newBuilder "first" UInt64.ofNat [(1, 30), (2, 20)],
    .build "first" "map" (.under .reject ()) false,
    .cloneBuilder "first" "second",
    .put "first" (.one 1 10),
    .combine "second" "first"]

def sharedPairs : Builder Nat Nat :=
  .ofList UInt64.ofNat [(1, 30), (2, 20)]

def sharedSealed : Map Nat Nat where
  layout :=
    .chained #[⟨1, 30⟩, ⟨2, 20⟩]
      { hash := UInt64.ofNat
        heads := #[some 1, some 0]
        links := #[none, none]
        shift := 63 }
  hash := UInt64.ofNat

theorem registers_sharingRun (hasher : Hashing.Hasher) :
    ((State.start hasher).actAll sharingRun).builders["second"]? =
        some (sharedPairs.combine (sharedPairs.put 1 10)) ∧
      ((State.start hasher).actAll sharingRun).maps["map"]? = some ⟨sharedSealed, 0⟩ := by
  have hbuilt : ((Building.under (.reject : Policy Unit Nat Nat) ()).construct
      sharedPairs).outcome = .ok sharedSealed := by cbv
  have hopened : Builder.ofList UInt64.ofNat [(1, 30), (2, 20)] = sharedPairs := rfl
  simp [sharingRun, hopened, hbuilt, State.act, State.through, State.buildFrom, State.start,
    State.setBuilder, State.dropBuilder, State.addMap, State.setMap, Putting.into,
    Std.HashMap.getElem_insert]

theorem builders_log_and_maps_keep_sharingRun :
    let state := (State.start .zero).actAll sharingRun
    let machine := Machine.start.actAll lowestFree sharingRun
    machine.builder? "second" =
        some ⟨#[⟨1, 30⟩, ⟨2, 20⟩, ⟨1, 30⟩, ⟨2, 20⟩, ⟨1, 10⟩], none, UInt64.ofNat⟩ ∧
      machine.map? "map" = some sharedSealed ∧
      (exists before opening since origin, sharingRun = before ++ opening :: since ∧
        Logged (.start .zero) before opening since "second" origin
          (sharedPairs.combine (sharedPairs.put 1 10))) ∧
      state.act (.put "second" (.parts [(some 3, some 5), (some 4, none), (none, some 6)])) =
        ⟨some (.nullArgument .value), state⟩ ∧
      (exists time, Stems (.start .zero) sharingRun "map" time) ∧
      state.act (.mutate "map" .clear) = ⟨some (.unsupportedMutation .clear), state⟩ := by
  rcases registers_sharingRun .zero with ⟨hbuilder, hmap⟩
  rcases builders_log_and_maps_keep .zero lowestFree sharingRun with
    ⟨hbuilders, hmaps, _, hseen, hseenMaps, _⟩
  rcases hbuilders "second" _ hbuilder with ⟨hlogged, hparts, _⟩
  rcases hmaps "map" _ hmap with ⟨⟨time, hstems, _⟩, hmutate⟩
  refine ⟨?_, ?_, hlogged, ?_, ⟨time, hstems⟩, hmutate .clear⟩
  · rw [hseen, hbuilder]
    rfl
  · rw [hseenMaps, hmap]
    rfl
  · rcases hparts [(some 3, some 5), (some 4, none), (none, some 6)] with
      ⟨entries, hentries, _⟩ | ⟨refusal, hoffends, hact⟩
    · have hmissing : (some 4, none) ∈ entries.map partsOf := hentries ▸ by simp
      rcases List.mem_map.mp hmissing with ⟨entry, _, hentry⟩
      exact absurd (congrArg Prod.snd hentry) (Option.some_ne_none entry.value)
    · rw [hact]
      cases hoffends with
      | head hpair => cases hpair
      | tail hrest =>
          cases hrest with
          | head hpair =>
              cases hpair
              rfl

end Session
end SealedMap
