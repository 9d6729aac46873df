import Mathlib
import SealedMap.Builder
import SealedMap.Proofs.Outcomes

/-!
# Independence of the hash function

Two constructions that differ in the hash function only end alike, though one
may overflow and start over where the other does not: both agree with resolving
the entries without an index.  Since combining may use any state, they also make
the same calls in the same order.
-/

namespace SealedMap
namespace Construction

variable {σ K V : Type} [BEq K] [Hashable K]

/--
The constructions end with the same refusal, or with the same entries, found at
the same positions.
-/
def EndAlike (left right : Construction K V) : Prop :=
  match left.outcome, right.outcome with
  | .error refusal, .error other => refusal = other
  | .ok map, .ok other =>
      map.entries = other.entries ∧
        forall key, map.position? key = other.position? key ∧
          map.entry? key = other.entry? key ∧ map.get? key = other.get? key
  | _, _ => False

theorem EndAlike.entries_eq {left right : Construction K V} {map other : Map K V}
    (h : left.EndAlike right) (hmap : left.outcome = .ok map)
    (hother : right.outcome = .ok other) :
    map.entries = other.entries := by
  unfold EndAlike at h
  rw [hmap, hother] at h
  exact h.1

theorem Yields.endAlike {left right : Construction K V}
    {result : Except Refusal (Array (Entry K V))} (hleft : left.Yields result)
    (hright : right.Yields result) :
    left.EndAlike right := by
  unfold EndAlike
  cases result with
  | error refusal =>
      have hl : left.outcome = .error refusal := hleft
      have hr : right.outcome = .error refusal := hright
      rw [hl, hr]
  | ok kept =>
      rcases hleft with ⟨map, hmap, hpresents⟩
      rcases hright with ⟨other, hother, hpresents'⟩
      rw [hmap, hother]
      have hentries : map.entries = other.entries :=
        hpresents.entries_eq.trans hpresents'.entries_eq.symm
      refine ⟨hentries, ?_⟩
      intro key
      have hpos : map.position? key = other.position? key :=
        hpresents.position?_eq hpresents' key
      have hentry : map.entry? key = other.entry? key := by
        rw [Map.entry?, Map.entry?, hpos, hentries]
      refine ⟨hpos, hentry, ?_⟩
      rw [Map.get?, Map.get?, hentry]

variable [EquivBEq K] [LawfulHashable K]

theorem construct_endAlike {first second : K -> UInt64}
    (hfirst : forall a b, (a == b) = true -> first a = first b)
    (hsecond : forall a b, (a == b) = true -> second a = second b)
    (policy : Policy σ K V) (order : Option (ValueOrder V)) (entries : Array (Entry K V))
    (state : σ) :
    ((construct first policy order entries).run state).1.EndAlike
        ((construct second policy order entries).run state).1 ∧
      ((construct first policy order entries).run state).2 =
        ((construct second policy order entries).run state).2 := by
  have hleft := construct_agrees hfirst policy order entries state
  have hright := construct_agrees hsecond policy order entries state
  exact ⟨hleft.yields.endAlike hright.yields, hleft.state_eq.trans hright.state_eq.symm⟩

end Construction

namespace Builder

open Construction (EndAlike)

variable {K V : Type} [BEq K] [Hashable K] [EquivBEq K] [LawfulHashable K]

/--
Under any two hash functions that respect equality a builder's constructions
end alike, in the same state and with the same calls of a combining function;
and without an order, so do those with a keyed index and with a chained one.
-/
theorem hash_independent (builder : Builder K V) (hash : K -> UInt64)
    (hbuilder : forall a b, (a == b) = true -> builder.hash a = builder.hash b)
    (hhash : forall a b, (a == b) = true -> hash a = hash b) :
    (forall (σ : Type) (policy : Policy σ K V) (state : σ),
      ((builder.buildWith policy).run state).1.EndAlike
          (({ builder with hash := hash }.buildWith policy).run state).1 ∧
        ((builder.buildWith policy).run state).2 =
          (({ builder with hash := hash }.buildWith policy).run state).2) ∧
      (forall combine : K -> V -> V -> V,
        (builder.buildMergingTraced combine).1.EndAlike
            ({ builder with hash := hash }.buildMergingTraced combine).1 ∧
          (builder.buildMergingTraced combine).2 =
            ({ builder with hash := hash }.buildMergingTraced combine).2) ∧
      (builder.order = none -> builder.buildKeyed.EndAlike builder.build) := by
  refine ⟨?_, ?_, ?_⟩
  · intro σ policy state
    exact Construction.construct_endAlike hbuilder hhash policy builder.order
      builder.entries state
  · intro combine
    exact Construction.construct_endAlike hbuilder hhash (.merge (recording combine))
      builder.order builder.entries #[]
  · intro horder
    have hkeyed := Construction.constructKeyed_agrees builder.hash
      (.reject : Policy Unit K V) builder.entries ()
    have hbuild := Construction.construct_agrees hbuilder
      (.reject : Policy Unit K V) none builder.entries ()
    rw [build, buildKeyed, buildWith, horder]
    exact hkeyed.yields.endAlike hbuild.yields

def crowded : Builder Nat Nat :=
  ofList (fun _ => 0) ((List.range 12).map fun n => (n, n))

theorem hash_independent_crowded :
    crowded.build.events.length = 1 ∧
      ({ crowded with hash := Nat.toUInt64 }.build).events.length = 0 ∧
        crowded.build.EndAlike ({ crowded with hash := Nat.toUInt64 }.build) ∧
          crowded.buildKeyed.EndAlike crowded.build := by
  have hconst : forall a b, (a == b) = true -> crowded.hash a = crowded.hash b :=
    fun _ _ _ => rfl
  have hword : forall a b : Nat, (a == b) = true -> Nat.toUInt64 a = Nat.toUInt64 b := by
    intro a b h
    rw [eq_of_beq h]
  have halike := hash_independent crowded Nat.toUInt64 hconst hword
  rcases halike with ⟨hpolicy, _, hkeyed⟩
  refine ⟨by cbv, by cbv, ?_, hkeyed rfl⟩
  exact (hpolicy Unit .reject ()).1

end Builder
end SealedMap
