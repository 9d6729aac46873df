import SealedMap.Proofs.Registers
import SealedMap.Proofs.ViewLedgers
import SealedMap.Session.Action

/-!
# What actions do to the registers of maps

An action makes a map, copies one, drops one, asks one for a view, or leaves all
of them as they are.  Everything about maps over a run follows from these cases.
Serial numbers are given once, so two maps of one number are the same map.
-/

namespace SealedMap
namespace Session

variable {K V : Type} [BEq K] [Hashable K]

inductive Makes (state : State K V) : Action K V -> String -> Map K V -> Prop where
  | built {name target : String} {building : Building K V} {consuming : Bool}
      {builder : Builder K V} {map : Map K V} :
      state.builders[name]? = some builder ->
      (building.construct builder).outcome = .ok map ->
      Makes state (.build name target building consuming) target map
  | made {target : String} {map : Map K V} :
      Makes state (.make target map) target map

/-- What an action does to maps, their serial numbers and the ledger of views. -/
inductive MapStep (before : State K V) : Action K V -> State K V -> Prop where
  | made {action : Action K V} {target : String} {map : Map K V} {after : State K V} :
      Makes before action target map ->
      after.maps = before.maps.insert target ⟨map, before.nextSerial⟩ ->
      after.nextSerial = before.nextSerial + 1 -> after.ledger = before.ledger ->
      MapStep before action after
  | copied {name target : String} {inst : Instance K V} :
      before.maps[name]? = some inst ->
      MapStep before (.cloneMap name target) (before.setMap target inst)
  | dropped {name : String} : MapStep before (.dropMap name) (before.dropMap name)
  | asked {action : Action K V} {name : String} {inst : Instance K V} {kind : ViewKind}
      {after : State K V} :
      before.maps[name]? = some inst -> after.maps = before.maps ->
      after.nextSerial = before.nextSerial ->
      after.ledger = (before.ledger.view inst.serial kind).2 ->
      MapStep before action after
  | kept {action : Action K V} {after : State K V} :
      after.maps = before.maps -> after.nextSerial = before.nextSerial ->
      after.ledger = before.ledger -> MapStep before action after

namespace State

variable {α : Type} {state : State K V}

theorem mapStep_through {action : Action K V} {register : Option α} {use : α -> Effect K V}
    (h : forall held, register = some held -> MapStep state action (use held).state) :
    MapStep state action (state.through register use).state := by
  cases register with
  | none => exact .kept rfl rfl rfl
  | some held => exact h held rfl

/-! ## Serial numbers -/

theorem nextSerial_le_of_mapStep {action : Action K V} {after : State K V}
    (h : MapStep state action after) :
    state.nextSerial ≤ after.nextSerial := by
  cases h with
  | made _ _ hserial _ => exact hserial ▸ Nat.le_succ _
  | copied _ => exact Nat.le_refl _
  | dropped => exact Nat.le_refl _
  | asked _ _ hserial _ => exact Nat.le_of_eq hserial.symm
  | kept _ hserial _ => exact Nat.le_of_eq hserial.symm

/--
Maps have serial numbers that were given, views are those of maps that were made,
and a serial number belongs to one map.
-/
structure Sound (state : State K V) : Prop where
  ledger : state.ledger.Sound
  serial_lt : forall (name : String) inst, state.maps[name]? = some inst ->
    inst.serial < state.nextSerial
  owner_lt : forall serial kind number,
    state.ledger.lookup (.instance serial kind) = some number -> serial < state.nextSerial
  map_eq : forall (name other : String) inst copy, state.maps[name]? = some inst ->
    state.maps[other]? = some copy -> inst.serial = copy.serial -> inst = copy

theorem sound_start (hasher : Hashing.Hasher) : (start hasher : State K V).Sound where
  ledger := ViewLedger.sound_empty
  serial_lt := by
    intro name inst h
    rw [start, Std.HashMap.getElem?_empty] at h
    cases h
  owner_lt := nofun
  map_eq := by
    intro name other inst copy h
    rw [start, Std.HashMap.getElem?_empty] at h
    cases h

theorem Sound.of_subset {after : State K V} (h : state.Sound)
    (hmaps : forall (name : String) inst, after.maps[name]? = some inst ->
      exists source : String, state.maps[source]? = some inst)
    (hserial : after.nextSerial = state.nextSerial) (hledger : after.ledger = state.ledger) :
    after.Sound where
  ledger := hledger ▸ h.ledger
  serial_lt := by
    intro name inst hinst
    rcases hmaps name inst hinst with ⟨source, hsource⟩
    exact hserial ▸ h.serial_lt source inst hsource
  owner_lt := by
    rw [hserial, hledger]
    exact h.owner_lt
  map_eq := by
    intro name other inst copy hinst hcopy
    rcases hmaps name inst hinst with ⟨source, hsource⟩
    rcases hmaps other copy hcopy with ⟨second, hsecond⟩
    exact h.map_eq source second inst copy hsource hsecond

theorem Sound.of_made {after : State K V} {target : String} {map : Map K V} (h : state.Sound)
    (hmaps : after.maps = state.maps.insert target ⟨map, state.nextSerial⟩)
    (hserial : after.nextSerial = state.nextSerial + 1) (hledger : after.ledger = state.ledger) :
    after.Sound where
  ledger := hledger ▸ h.ledger
  serial_lt := by
    intro name inst hinst
    rw [hmaps] at hinst
    rw [hserial]
    rcases getElem?_insert_eq_some_iff.mp hinst with ⟨_, rfl⟩ | ⟨_, hold⟩
    · exact Nat.lt_succ_self _
    · exact Nat.lt_succ_of_lt (h.serial_lt name inst hold)
  owner_lt := by
    intro serial kind number hnumber
    rw [hledger] at hnumber
    exact hserial ▸ Nat.lt_succ_of_lt (h.owner_lt serial kind number hnumber)
  map_eq := by
    intro name other inst copy hinst hcopy heq
    rw [hmaps] at hinst hcopy
    rcases getElem?_insert_eq_some_iff.mp hinst with ⟨_, rfl⟩ | ⟨_, hold⟩
    · rcases getElem?_insert_eq_some_iff.mp hcopy with ⟨_, rfl⟩ | ⟨_, hold'⟩
      · rfl
      · exact absurd heq (Nat.ne_of_gt (h.serial_lt other copy hold'))
    · rcases getElem?_insert_eq_some_iff.mp hcopy with ⟨_, rfl⟩ | ⟨_, hold'⟩
      · exact absurd heq (Nat.ne_of_lt (h.serial_lt name inst hold))
      · exact h.map_eq name other inst copy hold hold' heq

theorem Sound.of_asked {after : State K V} {name : String} {inst : Instance K V}
    {kind : ViewKind} (h : state.Sound) (hinst : state.maps[name]? = some inst)
    (hmaps : after.maps = state.maps) (hserial : after.nextSerial = state.nextSerial)
    (hledger : after.ledger = (state.ledger.view inst.serial kind).2) :
    after.Sound where
  ledger := hledger ▸ h.ledger.view inst.serial kind
  serial_lt := by
    rw [hmaps, hserial]
    exact h.serial_lt
  owner_lt := by
    intro serial otherKind number hnumber
    rw [hserial]
    by_cases hsame : serial = inst.serial
    · exact hsame ▸ h.serial_lt name inst hinst
    · rw [hledger, ViewLedger.lookup_instance_view hsame] at hnumber
      exact h.owner_lt serial otherKind number hnumber
  map_eq := by
    rw [hmaps]
    exact h.map_eq

theorem Sound.of_mapStep {action : Action K V} {after : State K V} (h : state.Sound)
    (hstep : MapStep state action after) :
    after.Sound := by
  cases hstep with
  | made _ hmaps hserial hledger => exact h.of_made hmaps hserial hledger
  | @copied name target inst hinst =>
      have hmaps : forall (other : String) copy,
          (state.maps.insert target inst)[other]? = some copy ->
          exists source : String, state.maps[source]? = some copy := by
        intro other copy hcopy
        rcases getElem?_insert_eq_some_iff.mp hcopy with ⟨_, rfl⟩ | ⟨_, hold⟩
        · exact ⟨name, hinst⟩
        · exact ⟨other, hold⟩
      exact h.of_subset hmaps rfl rfl
  | @dropped name =>
      have hmaps : forall (other : String) copy, (state.maps.erase name)[other]? = some copy ->
          exists source : String, state.maps[source]? = some copy := by
        intro other copy hcopy
        exact ⟨other, (getElem?_erase_eq_some_iff.mp hcopy).2⟩
      exact h.of_subset hmaps rfl rfl
  | asked hinst hmaps hserial hledger => exact h.of_asked hinst hmaps hserial hledger
  | kept hmaps hserial hledger =>
      refine h.of_subset ?_ hserial hledger
      intro other copy hcopy
      exact ⟨other, hmaps ▸ hcopy⟩

theorem Sound.known?_nextSerial (h : state.Sound) (kind : ViewKind) :
    state.ledger.known? state.nextSerial kind = none := by
  have hlookup : forall kind, state.ledger.lookup (.instance state.nextSerial kind) = none := by
    intro kind
    cases hkind : state.ledger.lookup (.instance state.nextSerial kind) with
    | none => rfl
    | some number => exact absurd (h.owner_lt _ kind number hkind) (Nat.lt_irrefl _)
  by_cases hkind : kind = .inverse
  · rw [hkind]
    exact ViewLedger.known?_inverse_of_none (hlookup .multi)
  · rw [ViewLedger.known?_of_ne_inverse state.ledger state.nextSerial hkind]
    exact hlookup kind

theorem Sound.dropIf (h : state.Sound) (name : String) (consuming : Bool) :
    (if consuming then state.dropBuilder name else state).Sound := by
  cases consuming with
  | true => exact ⟨h.ledger, h.serial_lt, h.owner_lt, h.map_eq⟩
  | false => exact h

/-! ## Acting -/

variable [BEq V] [Hashable V]

theorem mapStep_act (state : State K V) (action : Action K V) :
    MapStep state action (state.act action).state := by
  cases action with
  | newBuilder name hash pairs => exact .kept rfl rfl rfl
  | put name putting =>
      apply mapStep_through
      intro builder _
      cases putting.into builder <;> exact .kept rfl rfl rfl
  | combine name other =>
      apply mapStep_through
      intro builder _
      apply mapStep_through
      intro appended _
      exact .kept rfl rfl rfl
  | cloneBuilder name target =>
      apply mapStep_through
      intro builder _
      exact .kept rfl rfl rfl
  | order name order =>
      apply mapStep_through
      intro builder _
      cases builder.orderByValue order <;> exact .kept rfl rfl rfl
  | build name target building consuming =>
      apply mapStep_through
      intro builder hbuilder
      unfold buildFrom
      cases houtcome : (building.construct builder).outcome with
      | error refusal => cases consuming <;> exact .kept rfl rfl rfl
      | ok map => cases consuming <;> exact .made (.built hbuilder houtcome) rfl rfl rfl
  | dropBuilder name => exact .kept rfl rfl rfl
  | make target map => exact .made .made rfl rfl rfl
  | cloneMap name target =>
      apply mapStep_through
      intro inst hinst
      exact .copied hinst
  | dropMap name => exact .dropped
  | mutate name mutation =>
      apply mapStep_through
      intro inst _
      exact .kept rfl rfl rfl
  | access name kind =>
      apply mapStep_through
      intro inst hinst
      exact .asked hinst rfl rfl rfl
  | ownView name kind target =>
      apply mapStep_through
      intro inst hinst
      exact .asked hinst rfl rfl rfl
  | cloneView name target =>
      apply mapStep_through
      intro view _
      exact .kept rfl rfl rfl
  | dropView name => exact .kept rfl rfl rfl

theorem Sound.act (h : state.Sound) (action : Action K V) :
    (state.act action).state.Sound :=
  h.of_mapStep (mapStep_act state action)

theorem Sound.actAll (h : state.Sound) (actions : List (Action K V)) :
    (state.actAll actions).Sound := by
  induction actions generalizing state with
  | nil => exact h
  | cons action rest ih => exact ih (h.act action)

end State
end Session
end SealedMap
