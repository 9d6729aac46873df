import Mathlib
import SealedMap.Proofs.Outcomes

/-!
# Exactness of constructed maps

Every map that a construction ends with is exact, whatever the policy, the
order of values and the layout, and however bad the hash function, as long as
equal keys have equal hashes.
-/

namespace SealedMap
namespace Construction

variable {K V : Type} [BEq K] [Hashable K]

/-- The maps that constructions of these entries with this hash function end with. -/
inductive Constructed (hash : K -> UInt64) (entries : Array (Entry K V)) :
    Map K V -> Prop where
  | construct {σ : Type} {policy : Policy σ K V} {order : Option (ValueOrder V)}
      {state : σ} {map : Map K V} :
      ((construct hash policy order entries).run state).1.outcome = .ok map ->
      Constructed hash entries map
  | constructKeyed {σ : Type} {policy : Policy σ K V} {state : σ} {map : Map K V} :
      ((constructKeyed hash policy entries).run state).1.outcome = .ok map ->
      Constructed hash entries map

theorem constructed_empty (hash : K -> UInt64) :
    Constructed hash #[] (.empty hash : Map K V) := by
  have houtcome : ((construct hash (.reject : Policy Unit K V) none #[]).run ()).1.outcome =
      .ok (.empty hash) := rfl
  exact .construct houtcome

theorem constructed_unit (hash : K -> UInt64) (entry : Entry K V) :
    Constructed hash #[entry] (.unit hash entry) := by
  have houtcome : ((construct hash (.reject : Policy Unit K V) none #[entry]).run ()).1.outcome =
      .ok (.unit hash entry) := rfl
  exact .construct houtcome

variable [EquivBEq K] [LawfulHashable K]

theorem Constructed.exact {hash : K -> UInt64}
    (hhash : forall a b, (a == b) = true -> hash a = hash b)
    {entries : Array (Entry K V)} {map : Map K V} (h : Constructed hash entries map) :
    map.layout.Exact := by
  cases h with
  | @construct σ policy order state _ houtcome =>
      have hagrees := construct_agrees hhash policy order entries state
      rcases hagrees.yields.presents houtcome with ⟨kept, _, hpresents⟩
      exact hpresents.exact
  | @constructKeyed σ policy state _ houtcome =>
      have hagrees := constructKeyed_agrees hash policy entries state
      rcases hagrees.yields.presents houtcome with ⟨kept, _, hpresents⟩
      exact hpresents.exact

/--
The keys of a constructed map are distinct, a key is found at a position exactly
if the entry there has that key, it is not found exactly if no entry has it, and
what is got for it is the stored entry and its value.
-/
theorem lookup_exact {hash : K -> UInt64}
    (hhash : forall a b, (a == b) = true -> hash a = hash b)
    {entries : Array (Entry K V)} {map : Map K V} (h : Constructed hash entries map) :
    Distinct map.keys ∧
      (forall key pos, map.position? key = some pos ↔
        exists entry, map.entries[pos]? = some entry ∧ (entry.key == key) = true) ∧
      (forall key, map.position? key = none ↔
        forall entry, entry ∈ map.entries -> (entry.key == key) = false) ∧
      (forall key pos entry, map.position? key = some pos ->
        map.entries[pos]? = some entry ->
          map.entry? key = some entry ∧ map.get? key = some entry.value) ∧
      (forall key, map.position? key = none ->
        map.entry? key = none ∧ map.get? key = none) := by
  have hexact := h.exact hhash
  refine ⟨Map.distinct_keys hexact, ?_, ?_, ?_, ?_⟩
  · intro key pos
    rw [← holdsAt_iff]
    exact hexact key pos
  · intro key
    exact Map.position?_eq_none_iff hexact
  · intro key pos entry hpos hentry
    have hfound : map.entry? key = some entry := by
      rw [Map.entry?, hpos, Option.bind_some, hentry]
    refine ⟨hfound, ?_⟩
    rw [Map.get?, hfound, Option.map_some]
  · intro key hpos
    have hfound : map.entry? key = none := by
      rw [Map.entry?, hpos, Option.bind_none]
    refine ⟨hfound, ?_⟩
    rw [Map.get?, hfound, Option.map_none]

/-- What is kept of three entries in one bucket, two of them with one key. -/
def oneBucket : Map Nat Nat where
  layout :=
    .chained #[⟨1, 30⟩, ⟨2, 20⟩]
      { hash := fun _ => 0
        heads := #[some 1, none, none, none]
        links := #[none, some 0]
        shift := 62 }
  hash := fun _ => 0

theorem lookup_exact_oneBucket :
    ((construct (fun _ : Nat => 0) (.keepLast : Policy Unit Nat Nat) none
      #[⟨1, 10⟩, ⟨2, 20⟩, ⟨1, 30⟩]).run ()).1.outcome = .ok oneBucket ∧
      Distinct oneBucket.keys ∧ oneBucket.position? 1 = some 0 ∧
      oneBucket.get? 1 = some 30 ∧ oneBucket.position? 3 = none := by
  have houtcome : ((construct (fun _ : Nat => 0) (.keepLast : Policy Unit Nat Nat) none
      #[⟨1, 10⟩, ⟨2, 20⟩, ⟨1, 30⟩]).run ()).1.outcome = .ok oneBucket := by cbv
  have hexact := lookup_exact (fun _ _ _ => rfl) (.construct houtcome)
  rcases hexact with ⟨hdistinct, hfound, hmissing, hget, _⟩
  have hpos : oneBucket.position? 1 = some 0 := (hfound 1 0).mpr ⟨⟨1, 30⟩, rfl, rfl⟩
  refine ⟨houtcome, hdistinct, hpos, (hget 1 0 ⟨1, 30⟩ hpos rfl).2, ?_⟩
  apply (hmissing 3).mpr
  intro entry hmem
  have hentries : oneBucket.entries = #[⟨1, 30⟩, ⟨2, 20⟩] := rfl
  rw [hentries] at hmem
  simp only [List.mem_toArray, List.mem_cons, List.not_mem_nil, or_false] at hmem
  rcases hmem with rfl | rfl
  · rfl
  · rfl

end Construction
end SealedMap
