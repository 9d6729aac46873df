import SealedMap.Memory.Machine
import SealedMap.Proofs.RejectingBuilds

/-!
# Builds that leave the entries as they are

A build that neither sorts nor drops entries ends with a map of the very entries
it was given, whichever index it makes.  So the map can refer to the arena of the
builder.  This needs nothing of the keys or of the hash function.
-/

namespace SealedMap
namespace Construction

open Memory.Machine (resolves)

variable {σ K V : Type} [BEq K] [Hashable K]

/-- Unless entries were dropped, a map that this ends with has these entries. -/
def Retains (construction : Construction K V) (entries : Array (Entry K V)) : Prop :=
  forall map, construction.outcome = .ok map -> resolves construction.events = false ->
    map.entries = entries

theorem retains_built {layout : Layout K V} {entries : Array (Entry K V)}
    (h : layout.entries = entries) (hash : K -> UInt64) :
    (built ⟨layout, hash⟩).Retains entries := by
  intro map houtcome _
  cases houtcome
  exact h

theorem retains_refused (refusal : Refusal) (entries : Array (Entry K V)) :
    (refused refusal : Construction K V).Retains entries := by
  intro map houtcome _
  cases houtcome

theorem Retains.report_overflow {construction : Construction K V} {entries : Array (Entry K V)}
    (h : construction.Retains entries) (len limit : Nat) :
    (construction.report (.chainOverflow len limit)).Retains entries := by
  intro map houtcome hresolves
  exact h map houtcome hresolves

theorem retains_settle {I : Type} [Index.Placing I K] {entries : Array (Entry K V)} {index : I}
    {layout : Array (Entry K V) -> I -> Layout K V} (h : (layout entries index).entries = entries)
    (hash : K -> UInt64) (policy : Policy σ K V) (repeats : List Index.Repeat) (state : σ) :
    ((settle hash policy entries index repeats layout).run state).1.Retains entries := by
  cases repeats with
  | nil =>
      rw [run_settle_nil]
      exact retains_built h hash
  | cons r rest =>
      rw [run_settle_of_ne_nil (List.cons_ne_nil r rest)]
      intro map _ hresolves
      cases hresolves

theorem retains_indexKeyed (hash : K -> UInt64) (policy : Policy σ K V)
    (entries : Array (Entry K V)) (state : σ) :
    ((indexKeyed hash policy entries).run state).1.Retains entries := by
  unfold indexKeyed
  cases hplace : Index.place policy.rejects entries (Index.Keyed.empty : Index.Keyed K) with
  | done index repeats =>
      exact retains_settle (Layout.entries_ofKeyed entries index) hash policy repeats state
  | rejected first second => exact retains_refused (.duplicateKey first second) entries
  | overflow => exact absurd hplace (Index.Keyed.place_ne_overflow _ _)

theorem retains_index (hash : K -> UInt64) (policy : Policy σ K V)
    (entries : Array (Entry K V)) (state : σ) :
    ((index hash policy entries).run state).1.Retains entries := by
  unfold index
  split
  next hsize => exact retains_built (entries_small hsize) hash
  next =>
    dsimp only
    cases Index.place policy.rejects entries (Index.Chained.empty hash entries.size) with
    | done index repeats =>
        exact retains_settle (entries_ofChained entries index) hash policy repeats state
    | rejected first second => exact retains_refused (.duplicateKey first second) entries
    | overflow => exact (retains_indexKeyed hash policy entries state).report_overflow _ _

theorem retains_building (building : Session.Building K V) {builder : Builder K V}
    (h : builder.order = none) :
    (building.construct builder).Retains builder.entries := by
  cases building with
  | under policy state =>
      rw [Session.Building.construct, Builder.buildWith, h]
      exact retains_index builder.hash policy builder.entries state
  | keyed =>
      rw [Session.Building.construct, Builder.buildKeyed, h]
      dsimp only
      unfold constructKeyed
      split
      next hsize => exact retains_built (entries_small hsize) builder.hash
      next => exact retains_indexKeyed builder.hash .reject builder.entries ()

end Construction
end SealedMap
