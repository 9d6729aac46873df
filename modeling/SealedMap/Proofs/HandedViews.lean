import SealedMap.Proofs.ActionSteps

/-!
# Views that are handed out over a run

The number of a view that was handed out stays known whatever is done afterwards.
So a register hands out the same view later on exactly if it has the same map and
is asked for the same kind of view.
-/

namespace SealedMap
namespace Session

variable {K V : Type} [BEq K] [Hashable K]

inductive Asks : Action K V -> String -> ViewKind -> Prop where
  | access {name : String} {kind : ViewKind} : Asks (.access name kind) name kind
  | ownView {name target : String} {kind : ViewKind} : Asks (.ownView name kind target) name kind

variable {state after : State K V} {action asking : Action K V} {actions : List (Action K V)}
  {name other : String} {kind otherKind : ViewKind} {serial number : Nat}
  {inst copy : Instance K V}

namespace State

/-! ## Numbers that stay known -/

theorem known?_mapStep (h : state.Sound) (hstep : MapStep state action after)
    (hnumber : state.ledger.known? serial kind = some number) :
    after.ledger.known? serial kind = some number := by
  cases hstep with
  | made _ _ _ hledger => rwa [hledger]
  | copied _ => exact hnumber
  | dropped => exact hnumber
  | asked _ _ _ hledger =>
      rw [hledger]
      exact ViewLedger.known?_view_mono h.ledger _ _ hnumber
  | kept _ _ hledger => rwa [hledger]

/-! ## Handing out -/

theorem handed?_of_live (h : state.maps[name]? = some inst) (kind : ViewKind) :
    state.handed? name kind = some (state.ledger.view inst.serial kind).1 := by
  rw [handed?, h, Option.map_some]

variable [BEq V] [Hashable V]

theorem known?_actAll (h : state.Sound) (actions : List (Action K V))
    (hnumber : state.ledger.known? serial kind = some number) :
    (state.actAll actions).ledger.known? serial kind = some number := by
  induction actions generalizing state with
  | nil => exact hnumber
  | cons action rest ih =>
      exact ih (h.act action) (known?_mapStep h (mapStep_act state action) hnumber)

theorem known?_of_asks (h : state.maps[name]? = some inst) (hasks : Asks asking name kind) :
    (state.act asking).state.ledger.known? inst.serial kind =
      some (state.ledger.view inst.serial kind).1 := by
  cases hasks with
  | access =>
      rw [act_access h]
      exact ViewLedger.known?_view_self state.ledger inst.serial kind
  | ownView =>
      rw [act_ownView h]
      exact ViewLedger.known?_view_self state.ledger inst.serial kind

/-- A view that was handed out is handed out again for the same map and kind, and for no other. -/
theorem handed?_iff (hsound : state.Sound) (h : state.maps[name]? = some inst)
    (hasks : Asks asking name kind)
    (hcopy : ((state.act asking).state.actAll actions).maps[other]? = some copy)
    (otherKind : ViewKind) :
    state.handed? name kind =
        ((state.act asking).state.actAll actions).handed? other otherKind ↔
      inst.serial = copy.serial ∧ kind = otherKind := by
  have hlater := (hsound.act asking).actAll actions
  have hknown := known?_actAll (hsound.act asking) actions (known?_of_asks h hasks)
  rw [handed?_of_live h, handed?_of_live hcopy, Option.some_inj]
  exact ViewLedger.view_eq_iff hlater.ledger hknown copy.serial otherKind

end State
end Session
end SealedMap
