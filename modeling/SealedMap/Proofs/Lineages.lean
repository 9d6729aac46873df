import Mathlib.Data.List.Induction
import SealedMap.Proofs.ActionSteps

/-!
# Which construction a map stems from

After a run a register's map stems from one of the run's actions, the one that
constructed it, through copies of registers that were in use.  It is the map that
was constructed then, and its serial number tells the construction.  A view in a
register stems from the construction of the map that it was asked of.
-/

namespace SealedMap
namespace Session

variable {K V : Type} [BEq K] [Hashable K]

inductive Overwrites (state : State K V) : Action K V -> String -> Prop where
  | made {action : Action K V} {name : String} {map : Map K V} :
      Makes state action name map -> Overwrites state action name
  | copied {source name : String} {inst : Instance K V} :
      state.maps[source]? = some inst -> Overwrites state (.cloneMap source name) name
  | dropped {name : String} : Overwrites state (.dropMap name) name

def Action.written? : Action K V -> Option String
  | .build _ target _ _ => some target
  | .make target _ => some target
  | .cloneMap _ target => some target
  | .dropMap name => some name
  | _ => none

theorem not_overwrites {state : State K V} {action : Action K V} {name : String}
    (h : action.written? ≠ some name) :
    ¬ Overwrites state action name := by
  intro hover
  cases hover with
  | made hmakes => cases hmakes <;> exact h rfl
  | copied _ => exact h rfl
  | dropped => exact h rfl

inductive OverwritesView (state : State K V) : Action K V -> String -> Prop where
  | asked {source name : String} {kind : ViewKind} {inst : Instance K V} :
      state.maps[source]? = some inst -> OverwritesView state (.ownView source kind name) name
  | copied {source name : String} {view : View K V} :
      state.views[source]? = some view -> OverwritesView state (.cloneView source name) name
  | dropped {name : String} : OverwritesView state (.dropView name) name

variable [BEq V] [Hashable V]

/--
After the actions the register has a map that was constructed by the action at a
time, or copied from a register with such a map, and was not overwritten since.
-/
inductive Stems (start : State K V) : List (Action K V) -> String -> Nat -> Prop where
  | made {before : List (Action K V)} {action : Action K V} {name : String} {map : Map K V} :
      Makes (start.actAll before) action name map ->
      Stems start (before ++ [action]) name before.length
  | copied {before : List (Action K V)} {name target : String} {time : Nat} :
      Stems start before name time ->
      Stems start (before ++ [.cloneMap name target]) target time
  | kept {before : List (Action K V)} {action : Action K V} {name : String} {time : Nat} :
      Stems start before name time -> ¬ Overwrites (start.actAll before) action name ->
      Stems start (before ++ [action]) name time

/--
After the actions the register has a view of a kind that was asked of a map, or
copied from a register with such a view, and was not overwritten since.  The map
stems from the construction at a time.
-/
inductive ViewStems (start : State K V) :
    List (Action K V) -> String -> ViewKind -> Nat -> Prop where
  | asked {before : List (Action K V)} {source name : String} {kind : ViewKind} {time : Nat} :
      Stems start before source time ->
      ViewStems start (before ++ [.ownView source kind name]) name kind time
  | copied {before : List (Action K V)} {source name : String} {kind : ViewKind} {time : Nat} :
      ViewStems start before source kind time ->
      ViewStems start (before ++ [.cloneView source name]) name kind time
  | kept {before : List (Action K V)} {action : Action K V} {name : String} {kind : ViewKind}
      {time : Nat} :
      ViewStems start before name kind time ->
      ¬ OverwritesView (start.actAll before) action name ->
      ViewStems start (before ++ [action]) name kind time

/-! ## Single actions -/

section Steps

variable {state : State K V} {action : Action K V} {name target : String} {map : Map K V}
  {inst : Instance K V}

theorem Makes.getElem?_act (h : Makes state action target map) :
    (state.act action).state.maps[target]? = some ⟨map, state.nextSerial⟩ := by
  cases h with
  | @built name _ building consuming builder _ hbuilder houtcome =>
      rw [State.act_build hbuilder houtcome]
      cases consuming <;> exact Std.HashMap.getElem?_insert_self
  | made => exact Std.HashMap.getElem?_insert_self

theorem Makes.nextSerial_act (h : Makes state action target map) :
    (state.act action).state.nextSerial = state.nextSerial + 1 := by
  cases h with
  | @built name _ building consuming builder _ hbuilder houtcome =>
      rw [State.act_build hbuilder houtcome]
      cases consuming <;> rfl
  | made => rfl

theorem getElem?_act_of_not_overwrites (h : ¬ Overwrites state action name) :
    (state.act action).state.maps[name]? = state.maps[name]? := by
  have hstep := State.mapStep_act state action
  generalize (state.act action).state = after at hstep ⊢
  cases hstep with
  | @made _ target map _ hmakes hmaps _ _ =>
      rw [hmaps]
      apply getElem?_insert_of_ne
      rintro rfl
      exact h (.made hmakes)
  | @copied source target inst hinst =>
      apply getElem?_insert_of_ne
      rintro rfl
      exact h (.copied hinst)
  | @dropped source =>
      apply getElem?_erase_of_ne
      rintro rfl
      exact h .dropped
  | asked _ hmaps _ _ => rw [hmaps]
  | kept hmaps _ _ => rw [hmaps]

theorem views_act_of_not_overwrites (h : ¬ OverwritesView state action name) :
    (state.act action).state.views[name]? = state.views[name]? := by
  cases action with
  | newBuilder target hash pairs => rfl
  | put target putting =>
      apply State.through_keeps (·.views[name]?)
      intro builder _
      cases putting.into builder <;> rfl
  | combine target other =>
      apply State.through_keeps (·.views[name]?)
      intro builder _
      exact State.through_keeps (·.views[name]?) fun _ _ => rfl
  | cloneBuilder source target => exact State.through_keeps (·.views[name]?) fun _ _ => rfl
  | order target order =>
      apply State.through_keeps (·.views[name]?)
      intro builder _
      cases builder.orderByValue order <;> rfl
  | build source target building consuming =>
      apply State.through_keeps (·.views[name]?)
      intro builder _
      unfold State.buildFrom
      cases (building.construct builder).outcome <;> cases consuming <;> rfl
  | dropBuilder target => rfl
  | make target map => rfl
  | cloneMap source target => exact State.through_keeps (·.views[name]?) fun _ _ => rfl
  | dropMap target => rfl
  | mutate source mutation => exact State.through_keeps (·.views[name]?) fun _ _ => rfl
  | access source kind => exact State.through_keeps (·.views[name]?) fun _ _ => rfl
  | ownView source kind target =>
      apply State.through_keeps (·.views[name]?)
      intro inst hinst
      apply getElem?_insert_of_ne
      rintro rfl
      exact h (.asked hinst)
  | cloneView source target =>
      apply State.through_keeps (·.views[name]?)
      intro view hview
      apply getElem?_insert_of_ne
      rintro rfl
      exact h (.copied hview)
  | dropView target =>
      apply getElem?_erase_of_ne
      rintro rfl
      exact h .dropped

end Steps

/-! ## Runs -/

section Runs

variable {start : State K V} {actions before : List (Action K V)} {action : Action K V}
  {name other : String} {time later : Nat} {map : Map K V} {inst copy : Instance K V}

/-- The action at a time constructed a map, and it gave it this serial number. -/
structure Born (start : State K V) (actions : List (Action K V)) (time : Nat)
    (inst : Instance K V) : Prop where
  made : exists action target, actions[time]? = some action ∧
    Makes (start.actAll (actions.take time)) action target inst.map
  serial_eq : inst.serial = (start.actAll (actions.take time)).nextSerial

theorem Born.lt_length (h : Born start actions time inst) : time < actions.length := by
  rcases h.made with ⟨action, _, haction, _⟩
  exact (List.getElem?_eq_some_iff.mp haction).1

theorem Born.append (h : Born start before time inst) (rest : List (Action K V)) :
    Born start (before ++ rest) time inst := by
  have hlt := h.lt_length
  have htake : (before ++ rest).take time = before.take time :=
    List.take_append_of_le_length (Nat.le_of_lt hlt)
  refine ⟨?_, ?_⟩
  · rw [htake, List.getElem?_append_left hlt]
    exact h.made
  · rw [htake]
    exact h.serial_eq

theorem Stems.exists_born (h : Stems start actions name time) :
    exists inst, (start.actAll actions).maps[name]? = some inst ∧
      Born start actions time inst := by
  induction h with
  | @made before action name map hmakes =>
      refine ⟨⟨map, (start.actAll before).nextSerial⟩, ?_, ?_, ?_⟩
      · rw [State.actAll_concat]
        exact hmakes.getElem?_act
      · refine ⟨action, name, List.getElem?_concat_length, ?_⟩
        rw [List.take_left]
        exact hmakes
      · rw [List.take_left]
  | @copied before name target time _ ih =>
      rcases ih with ⟨inst, hinst, hborn⟩
      refine ⟨inst, ?_, hborn.append _⟩
      rw [State.actAll_concat, State.act_cloneMap hinst]
      exact Std.HashMap.getElem?_insert_self
  | @kept before action name time _ hkept ih =>
      rcases ih with ⟨inst, hinst, hborn⟩
      refine ⟨inst, ?_, hborn.append [action]⟩
      rw [State.actAll_concat, getElem?_act_of_not_overwrites hkept, hinst]

theorem exists_stems (hstart : forall name : String, start.maps[name]? = none)
    (h : (start.actAll actions).maps[name]? = some inst) :
    exists time, Stems start actions name time := by
  induction actions using List.reverseRecOn generalizing name inst with
  | nil =>
      rw [State.actAll_nil, hstart] at h
      cases h
  | append_singleton before action ih =>
      by_cases hover : Overwrites (start.actAll before) action name
      · cases hover with
        | made hmakes => exact ⟨before.length, .made hmakes⟩
        | copied hsource =>
            rcases ih hsource with ⟨time, htime⟩
            exact ⟨time, .copied htime⟩
        | dropped =>
            rw [State.actAll_concat] at h
            exact absurd rfl (getElem?_erase_eq_some_iff.mp h).1
      · rw [State.actAll_concat, getElem?_act_of_not_overwrites hover] at h
        rcases ih h with ⟨time, htime⟩
        exact ⟨time, .kept htime hover⟩

theorem ViewStems.exists_born {kind : ViewKind} (h : ViewStems start actions name kind time) :
    exists inst, (start.actAll actions).views[name]? = some (.ofMap inst.map kind) ∧
      Born start actions time inst := by
  induction h with
  | @asked before source name kind time hstems =>
      rcases hstems.exists_born with ⟨inst, hinst, hborn⟩
      refine ⟨inst, ?_, hborn.append _⟩
      rw [State.actAll_concat, State.act_ownView hinst]
      exact Std.HashMap.getElem?_insert_self
  | @copied before source name kind time _ ih =>
      rcases ih with ⟨inst, hview, hborn⟩
      refine ⟨inst, ?_, hborn.append _⟩
      rw [State.actAll_concat, State.act_cloneView hview]
      exact Std.HashMap.getElem?_insert_self
  | @kept before action name kind time _ hkept ih =>
      rcases ih with ⟨inst, hview, hborn⟩
      refine ⟨inst, ?_, hborn.append [action]⟩
      rw [State.actAll_concat, views_act_of_not_overwrites hkept, hview]

theorem exists_viewStems {view : View K V}
    (hmaps : forall name : String, start.maps[name]? = none)
    (hviews : forall name : String, start.views[name]? = none)
    (h : (start.actAll actions).views[name]? = some view) :
    exists kind time, ViewStems start actions name kind time := by
  induction actions using List.reverseRecOn generalizing name view with
  | nil =>
      rw [State.actAll_nil, hviews] at h
      cases h
  | append_singleton before action ih =>
      by_cases hover : OverwritesView (start.actAll before) action name
      · cases hover with
        | @asked _ _ kind inst hsource =>
            rcases exists_stems hmaps hsource with ⟨time, htime⟩
            exact ⟨kind, time, .asked htime⟩
        | copied hsource =>
            rcases ih hsource with ⟨kind, time, htime⟩
            exact ⟨kind, time, .copied htime⟩
        | dropped =>
            rw [State.actAll_concat] at h
            exact absurd rfl (getElem?_erase_eq_some_iff.mp h).1
      · rw [State.actAll_concat, views_act_of_not_overwrites hover] at h
        rcases ih h with ⟨kind, time, htime⟩
        exact ⟨kind, time, .kept htime hover⟩

/-! ## Serial numbers of constructions -/

theorem nextSerial_le_actAll (start : State K V) (actions : List (Action K V)) :
    start.nextSerial ≤ (start.actAll actions).nextSerial := by
  induction actions generalizing start with
  | nil => exact Nat.le_refl _
  | cons action rest ih =>
      exact Nat.le_trans (State.nextSerial_le_of_mapStep (State.mapStep_act start action)) (ih _)

theorem Born.serial_lt_of_lt (h : Born start actions time inst)
    (hlater : Born start actions later copy) (hlt : time < later) :
    inst.serial < copy.serial := by
  rcases h.made with ⟨action, target, haction, hmakes⟩
  rcases List.getElem?_eq_some_iff.mp haction with ⟨hlength, hget⟩
  have hsplit : actions.take later =
      (actions.take time ++ [action]) ++ (actions.take later).drop (time + 1) := by
    rw [← hget, List.take_append_getElem hlength]
    have hprefix : (actions.take later).take (time + 1) = actions.take (time + 1) := by
      rw [List.take_take, Nat.min_eq_left hlt]
    rw [← hprefix, List.take_append_drop]
  rw [h.serial_eq, hlater.serial_eq, hsplit, State.actAll_append, State.actAll_concat]
  apply Nat.lt_of_lt_of_le _ (nextSerial_le_actAll _ _)
  rw [hmakes.nextSerial_act]
  exact Nat.lt_succ_self _

theorem Born.serial_eq_iff (h : Born start actions time inst)
    (hother : Born start actions later copy) :
    inst.serial = copy.serial ↔ time = later := by
  constructor
  · intro hserial
    rcases Nat.lt_trichotomy time later with hlt | heq | hlt
    · exact absurd hserial (Nat.ne_of_lt (h.serial_lt_of_lt hother hlt))
    · exact heq
    · exact absurd hserial (Nat.ne_of_gt (hother.serial_lt_of_lt h hlt))
  · rintro rfl
    rw [h.serial_eq, hother.serial_eq]

theorem Stems.born (h : Stems start actions name time)
    (hinst : (start.actAll actions).maps[name]? = some inst) :
    Born start actions time inst := by
  rcases h.exists_born with ⟨held, hheld, hborn⟩
  rw [hinst] at hheld
  cases hheld
  exact hborn

theorem Stems.time_unique (h : Stems start actions name time)
    (hother : Stems start actions name later) :
    time = later := by
  rcases h.exists_born with ⟨inst, hinst, hborn⟩
  exact (hborn.serial_eq_iff (hother.born hinst)).mp rfl

end Runs
end Session
end SealedMap
