import SealedMap.Proofs.CoveredKinds
import SealedMap.Proofs.InstanceIdentity
import SealedMap.Proofs.SessionActions

/-!
# What sessions tell of instances

A session tells two maps apart by comparing their views and by comparing the maps.
After any steps both answers tell whether the maps stem from one construction, the
second of them unless both are empty.  Whatever a session makes a map of, the map
is constructed with the hash function of the session, which respects equality, and
so maps that are told to be the same are equal.
-/

namespace SealedMap
namespace Session

open Construction (Constructed)

/-! ## What maps are made of -/

section Sources

variable {K V : Type} [BEq K] [Hashable K] {hash : K -> UInt64} {pairs : List (K × V)}
  {map : Map K V}

theorem constructed_of_ofList {σ : Type} {policy : Policy σ K V} {state : σ}
    (h : (((Builder.ofList hash pairs).buildWith policy).run state).1.outcome = .ok map) :
    exists entries, Constructed hash entries map :=
  ⟨_, .construct h⟩

theorem constructed_of_ofPairsRead {after : Except Json.Fault Unit}
    (h : (Map.ofPairsRead hash pairs after).outcome = .ok map) :
    exists entries, Constructed hash entries map := by
  cases hbuild : (Map.ofDistinct hash pairs).outcome with
  | error refusal =>
      rw [Map.ofPairsRead, hbuild] at h
      cases h
  | ok built =>
      rw [Map.ofPairsRead, hbuild] at h
      cases after with
      | error fault => cases h
      | ok _ =>
          cases h
          exact constructed_of_ofList hbuild

theorem constructed_of_ofJson [Json.Name K] [Json.Value V] {text : String}
    (h : (Map.ofJson hash text).outcome = .ok map) :
    exists entries, Constructed hash entries map := by
  unfold Map.ofJson at h
  split at h
  next => cases h
  next => exact constructed_of_ofPairsRead h

theorem constructed_of_ofTree [Json.OfName K] [Json.OfTree V] {tree : Json.Tree}
    (h : (Map.ofTree hash tree).outcome = .ok map) :
    exists entries, Constructed hash entries map := by
  unfold Map.ofTree at h
  split at h
  next =>
    split at h
    next => cases h
    next => exact constructed_of_ofPairsRead h
  next => cases h

theorem constructed_of_ofBytes [Binary.Laid K] [Binary.Laid V] {convention : Binary.Convention}
    {bytes : List UInt8} {used : Nat}
    (h : (Map.ofBytes hash convention bytes).outcome = .ok (map, used)) :
    exists entries, Constructed hash entries map := by
  unfold Map.ofBytes at h
  split at h
  next => cases h
  next pairs _ _ =>
    cases hbuild : (Map.ofDistinct hash pairs).outcome with
    | error refusal =>
        simp only [hbuild] at h
        cases h
    | ok built =>
        simp only [hbuild] at h
        cases h
        exact constructed_of_ofList hbuild

theorem eq_ok_of_toOption {ε α : Type} {outcome : Except ε α} {a : α}
    (h : outcome.toOption = some a) :
    outcome = .ok a := by
  cases outcome with
  | error fault => cases h
  | ok held =>
      cases h
      rfl

end Sources

variable {K V : Type} [KeyKind K]

theorem KeyKind.Covered.hash_eq (h : KeyKind.Covered K) (state : State K V) (a b : K)
    (heq : (a == b) = true) :
    state.hash a = state.hash b := by
  rw [State.hash, State.hash, Hashing.Hasher.hashOf, Hashing.Hasher.hashOf, h.feed_eq heq]

variable [ValueKind V]

theorem State.constructed_of_made? {state : State K V} {source : Source K V} {map : Map K V}
    (h : state.made? source = some map) :
    exists entries, Constructed state.hash entries map := by
  cases source with
  | nothing =>
      cases h
      exact ⟨_, Construction.constructed_empty state.hash⟩
  | single pair =>
      cases h
      exact ⟨_, Construction.constructed_unit state.hash (.ofPair pair)⟩
  | distinct pairs => exact constructed_of_ofList (eq_ok_of_toOption h)
  | collected pairs => exact constructed_of_ofList (eq_ok_of_toOption h)
  | sorted pairs => exact constructed_of_ofList (eq_ok_of_toOption h)
  | json text => exact constructed_of_ofJson (eq_ok_of_toOption h)
  | tree tree => exact constructed_of_ofTree (eq_ok_of_toOption h)
  | bytes convention bytes =>
      rcases Option.map_eq_some_iff.mp h with ⟨⟨made, used⟩, hread, rfl⟩
      exact constructed_of_ofBytes (eq_ok_of_toOption hread)

/-! ## The actions of a session -/

namespace State

theorem lawful_actions (hkeys : KeyKind.Covered K) (state : State K V) (step : Step K V) :
    forall action, action ∈ state.actions step -> action.Lawful := by
  intro action hmem
  cases step with
  | newBuilder name pairs =>
      rw [List.mem_singleton.mp hmem]
      exact hkeys.hash_eq state
  | make source target quiet =>
      rcases List.mem_map.mp hmem with ⟨map, hmade, rfl⟩
      rcases constructed_of_made? (Option.mem_toList.mp hmade) with ⟨entries, hconstructed⟩
      exact ⟨_, entries, hkeys.hash_eq state, hconstructed⟩
  | put | putAll | tryPut | order | cloneBuilder | combine | build | cloneMap | ownView
  | viewOfMap | cloneView | dropView =>
      rw [List.mem_singleton.mp hmem]
      trivial
  | dropMap | mutate =>
      rcases List.mem_map.mp hmem with ⟨_, _, rfl⟩
      trivial
  | iterate name traversal script =>
      rw [actions] at hmem
      split at hmem
      next =>
        rcases List.mem_map.mp hmem with ⟨_, _, rfl⟩
        trivial
      next => cases hmem
  | sameViews name other =>
      rw [actions] at hmem
      split at hmem
      next =>
        rcases List.mem_flatMap.mp hmem with ⟨kind, _, haccess⟩
        simp only [List.mem_cons, List.not_mem_nil, or_false] at haccess
        rcases haccess with rfl | rfl
        · trivial
        · trivial
      next => cases hmem
  | _ => cases hmem

/-- All steps of a session act lawfully, as its hash functions respect equality. -/
theorem lawful_actionsAll (hkeys : KeyKind.Covered K) (state : State K V)
    (steps : List (Step K V)) :
    forall action, action ∈ state.actionsAll steps -> action.Lawful := by
  induction steps generalizing state with
  | nil =>
      intro action hmem
      cases hmem
  | cons step rest ih =>
      intro action hmem
      rcases List.mem_append.mp hmem with hfirst | hrest
      · exact lawful_actions hkeys state step action hfirst
      · exact ih _ action hrest

end State

/-! ## What sessions tell -/

theorem answer_sameViews {state : State K V} {name other : String} {left right : Instance K V}
    (hsound : state.Sound) (hleft : state.maps[name]? = some left)
    (hright : state.maps[other]? = some right) :
    (state.step (.sameViews name other)).answer =
      .sharedViews
        ⟨left.serial == right.serial, left.serial == right.serial, left.serial == right.serial,
          left.serial == right.serial, left.serial == right.serial⟩ := by
  show (state.sameViews name other).answer = _
  unfold State.sameViews State.withMap
  rw [hleft, hright]
  have hshared : forall ledger : ViewLedger, ledger.Sound -> forall kind,
      ledger.shares left.serial right.serial kind =
        (left.serial == right.serial, (ledger.shares left.serial right.serial kind).2) :=
    fun ledger h kind => Prod.ext (ViewLedger.shares_eq h left.serial right.serial kind) rfl
  have hentries := hsound.ledger.shares left.serial right.serial .entries
  have hkeys := hentries.shares left.serial right.serial .keys
  have hvalues := hkeys.shares left.serial right.serial .values
  have hmulti := hvalues.shares left.serial right.serial .multi
  dsimp only
  rw [hshared _ hsound.ledger, hshared _ hentries, hshared _ hkeys, hshared _ hvalues,
    hshared _ hmulti]
  rfl

theorem answers_tell_lineage (hasher : Hashing.Hasher) (steps : List (Step K V))
    {name other : String} {time later : Nat}
    (h : Stems (.start hasher) ((State.start hasher).actionsAll steps) name time)
    (hother : Stems (.start hasher) ((State.start hasher).actionsAll steps) other later) :
    let state := (State.start hasher).after steps
    let once := time == later
    (state.step (.sameViews name other)).answer = .sharedViews ⟨once, once, once, once, once⟩ ∧
      exists left right, state.maps[name]? = some left ∧ state.maps[other]? = some right ∧
        (state.step (.compare name other)).answer =
          .compared (comparison left.map right.map)
            (once || (left.map.isEmpty && right.map.isEmpty)) := by
  intro state once
  have hafter : state = (State.start hasher).actAll _ := State.after_eq_actAll _ steps
  rcases h.exists_born with ⟨left, hleft, hborn⟩
  rcases hother.exists_born with ⟨right, hright, hrightBorn⟩
  have hserial : (left.serial == right.serial) = once := by
    rw [Bool.eq_iff_iff, beq_iff_eq, beq_iff_eq]
    exact hborn.serial_eq_iff hrightBorn
  rw [← hafter] at hleft hright
  have hsound : state.Sound := hafter ▸ (State.sound_start hasher).actAll _
  refine ⟨?_, left, right, hleft, hright, ?_⟩
  · rw [answer_sameViews hsound hleft hright, hserial]
  · show (state.compare name other).answer = _
    unfold State.compare State.withMap
    rw [hleft, hright]
    show Answer.compared _ (left.same right) = _
    rw [Instance.same, hserial]

/-- Maps that a session tells to be the same are equal if every value is equal to itself. -/
theorem isEqual_of_same (hkeys : KeyKind.Covered K) (hasher : Hashing.Hasher)
    (steps : List (Step K V)) {name other : String} {inst : Instance K V} {told : Comparison}
    (hinst : ((State.start hasher).after steps).maps[name]? = some inst)
    (htold : (((State.start hasher).after steps).step (.compare name other)).answer =
      .compared told true)
    (hvalues : forall value, value ∈ inst.map.values -> (value == value) = true) :
    told.isEqual = true := by
  have := hkeys.equivBEq
  have := hkeys.lawfulHashable
  rw [State.after_eq_actAll] at hinst htold
  have hsound := (State.sound_start hasher).actAll ((State.start hasher).actionsAll steps)
  have hlawful := State.lawful_actionsAll hkeys (State.start hasher) steps
  rcases exists_stems (maps_start hasher) hinst with ⟨time, hstems⟩
  have hexact := (hstems.born hinst).exact (fun _ => Std.HashMap.getElem?_empty) hlawful
  change (State.compare _ name other).answer = _ at htold
  unfold State.compare State.withMap at htold
  rw [hinst] at htold
  dsimp only at htold
  split at htold
  next copy hcopy =>
    injection htold with hcomparison hsame
    rw [← hcomparison]
    exact beq_of_same hsound hinst hcopy hexact hsame hvalues
  next => cases htold

end Session
end SealedMap
