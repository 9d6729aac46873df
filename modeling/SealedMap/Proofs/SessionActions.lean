import SealedMap.Session.Action
import SealedMap.Session.Run

/-!
# Steps as actions

A step of a session leaves what its actions leave: none for one that only asks,
one for most of those that write, and an access of either map for each kind of
view for one that compares views.  So what holds after any actions holds after any
steps.
-/

namespace SealedMap
namespace Session

variable {K V : Type} [KeyKind K]

namespace State

/-! ## Registers that are not in use -/

section Registers

variable {state : State K V} {name : String}

theorem state_withBuilder {use : Builder K V -> Outcome K V} {act : Builder K V -> Effect K V}
    (h : forall builder, state.builders[name]? = some builder ->
      (use builder).state = (act builder).state) :
    (state.withBuilder name use).state = (state.through state.builders[name]? act).state := by
  unfold withBuilder
  cases hbuilder : state.builders[name]? with
  | none => rfl
  | some builder => exact h builder hbuilder

theorem state_withMap {use : Instance K V -> Outcome K V} {act : Instance K V -> Effect K V}
    (h : forall inst, state.maps[name]? = some inst -> (use inst).state = (act inst).state) :
    (state.withMap name use).state = (state.through state.maps[name]? act).state := by
  unfold withMap
  cases hinst : state.maps[name]? with
  | none => rfl
  | some inst => exact h inst hinst

theorem state_withView {use : View K V -> Outcome K V} {act : View K V -> Effect K V}
    (h : forall view, state.views[name]? = some view -> (use view).state = (act view).state) :
    (state.withView name use).state = (state.through state.views[name]? act).state := by
  unfold withView
  cases hview : state.views[name]? with
  | none => rfl
  | some view => exact h view hview

theorem state_asked {α : Type} (state : State K V) (register : Option α) :
    (state.through register fun _ => ⟨none, state⟩).state = state :=
  through_keeps id fun _ _ => rfl

theorem state_ask {use : Instance K V -> Outcome K V} (h : forall inst, (use inst).state = state) :
    (state.withMap name use).state = state :=
  (state_withMap fun inst _ => h inst).trans (state_asked state state.maps[name]?)

theorem state_askBuilder {use : Builder K V -> Outcome K V}
    (h : forall builder, (use builder).state = state) :
    (state.withBuilder name use).state = state :=
  (state_withBuilder fun builder _ => h builder).trans (state_asked state state.builders[name]?)

end Registers

/-! ## The actions of a step -/

variable [ValueKind V]

def building (request : BuildRequest) : Building K V :=
  match request.mode with
  | .reject => .under .reject ()
  | .keyed => .keyed
  | .keepLast => .under .keepLast ()
  | .merge =>
      .under
        (.merge (Builder.recording fun key earlier later =>
          Ruled.combine request.rule (Shown.plain key) earlier later))
        #[]

def made? (state : State K V) : Source K V -> Option (Map K V)
  | .nothing => some (.empty state.hash)
  | .single pair => some (.unit state.hash (.ofPair pair))
  | .distinct pairs => (Map.ofDistinct state.hash pairs).outcome.toOption
  | .collected pairs => (Map.ofList state.hash pairs).outcome.toOption
  | .sorted pairs =>
      (Map.ofList state.hash ((sortedEntries pairs).map Entry.toPair)).outcome.toOption
  | .json text => (Map.ofJson state.hash text).outcome.toOption
  | .tree tree => (Map.ofTree state.hash tree).outcome.toOption
  | .bytes convention bytes =>
      (Map.ofBytes state.hash convention bytes).outcome.toOption.map Prod.fst

def accesses (name other : String) : List (Action K V) :=
  [ViewKind.entries, .keys, .values, .multi, .inverse].flatMap fun kind =>
    [.access name kind, .access other kind]

def actions (state : State K V) : Step K V -> List (Action K V)
  | .newBuilder name pairs => [.newBuilder name state.hash pairs]
  | .put name key value => [.put name (.one key value)]
  | .putAll name pairs => [.put name (.pairs pairs)]
  | .tryPut name pairs => [.put name (.parts pairs)]
  | .order name rule => [.order name (Ruled.order rule)]
  | .cloneBuilder name target => [.cloneBuilder name target]
  | .combine name other => [.combine name other]
  | .build request =>
      [.build request.builder request.target (building request) request.consuming]
  | .make source target _ => (state.made? source).toList.map (.make target)
  | .cloneMap name target => [.cloneMap name target]
  | .dropMap name => state.maps[name]?.toList.map fun _ => .dropMap name
  | .sameViews name other =>
      if state.maps[name]?.isSome && state.maps[other]?.isSome then accesses name other else []
  | .iterate name traversal _ =>
      if traversal = .into then state.maps[name]?.toList.map fun _ => .dropMap name else []
  | .mutate name key value => (everyMutation key value).map (.mutate name)
  | .ownView name kind target => [.ownView name kind target]
  | .viewOfMap name query _ => [.access name query.kind]
  | .cloneView name target => [.cloneView name target]
  | .dropView name => [.dropView name]
  | _ => []

/-! ## Steps leave what their actions leave -/

variable {state : State K V} {name other : String}

theorem construct_building (request : BuildRequest) (builder : Builder K V) :
    (construct builder request).1 = (building request).construct builder := by
  unfold construct building
  cases request.mode <;> rfl

theorem step_build (state : State K V) (request : BuildRequest) :
    (state.step (.build request)).state = state.actAll (state.actions (.build request)) := by
  apply state_withBuilder
  intro builder _
  unfold buildFrom
  rw [← construct_building request builder]
  dsimp only
  rcases construct builder request with ⟨construction, calls⟩
  cases construction.outcome <;> rfl

theorem step_make (state : State K V) (source : Source K V) (target : String) (quiet : Bool) :
    (state.step (.make source target quiet)).state =
      state.actAll (state.actions (.make source target quiet)) := by
  have hkeep : forall construction : Construction K V,
      (state.keepMap target quiet construction).state =
        state.actAll (construction.outcome.toOption.toList.map (.make target)) := by
    intro construction
    unfold keepMap
    cases construction.outcome <;> rfl
  have hjson : forall read : JsonRead K V, (state.keepJson target quiet read).state =
      state.actAll (read.outcome.toOption.toList.map (.make target)) := by
    intro read
    unfold keepJson
    cases read.outcome <;> rfl
  show (state.make source target quiet).state =
    state.actAll ((state.made? source).toList.map (.make target))
  unfold make made?
  cases source with
  | nothing => exact hkeep _
  | single pair => exact hkeep _
  | distinct pairs => exact hkeep _
  | collected pairs => exact hkeep _
  | sorted pairs => exact hkeep _
  | json text => exact hjson _
  | tree tree => exact hjson _
  | bytes convention bytes =>
      dsimp only
      cases (Map.ofBytes state.hash convention bytes : Map.BytesRead K V).outcome <;> rfl

theorem actAll_accesses {left right : Instance K V} (hleft : state.maps[name]? = some left)
    (hright : state.maps[other]? = some right) (kinds : List ViewKind) :
    state.actAll (kinds.flatMap fun kind => [.access name kind, .access other kind]) =
      { state with
        ledger := kinds.foldl
          (fun ledger kind => (ledger.shares left.serial right.serial kind).2) state.ledger } := by
  induction kinds generalizing state with
  | nil => rfl
  | cons kind rest ih =>
      have hkept : (state.handOut left kind).maps[other]? = some right := hright
      rw [List.flatMap_cons, List.cons_append, List.singleton_append, actAll_cons, actAll_cons,
        act_access hleft, act_access hkept]
      exact ih hleft hright

theorem step_sameViews (state : State K V) (name other : String) :
    (state.step (.sameViews name other)).state =
      state.actAll (state.actions (.sameViews name other)) := by
  show (state.sameViews name other).state = state.actAll
    (if state.maps[name]?.isSome && state.maps[other]?.isSome then accesses name other else [])
  unfold sameViews withMap
  cases hleft : state.maps[name]? with
  | none => rfl
  | some left =>
      cases hright : state.maps[other]? with
      | none => rfl
      | some right =>
          show _ = state.actAll (if true then accesses name other else [])
          rw [if_pos rfl, accesses, actAll_accesses hleft hright]
          simp only [List.foldl_cons, List.foldl_nil]
          rcases state.ledger.shares left.serial right.serial .entries with ⟨entries, ledger⟩
          rcases ledger.shares left.serial right.serial .keys with ⟨keys, ledger⟩
          rcases ledger.shares left.serial right.serial .values with ⟨values, ledger⟩
          rcases ledger.shares left.serial right.serial .multi with ⟨multi, ledger⟩
          rcases ledger.shares left.serial right.serial .inverse with ⟨inverse, ledger⟩
          rfl

theorem state_dropMap (state : State K V) (name : String) :
    (state.through state.maps[name]? fun _ => ⟨none, state.dropMap name⟩).state =
      state.actAll (state.maps[name]?.toList.map fun _ => .dropMap name) := by
  cases state.maps[name]? <;> rfl

theorem step_iterate (state : State K V) (name : String) (traversal : Traversal)
    (script : List Move) :
    (state.step (.iterate name traversal script)).state =
      state.actAll (state.actions (.iterate name traversal script)) := by
  show (state.iterate name traversal script).state = state.actAll
    (if traversal = .into then state.maps[name]?.toList.map fun _ => .dropMap name else [])
  by_cases hinto : traversal = .into
  · rw [if_pos hinto, ← state_dropMap]
    apply state_withMap
    intro inst _
    rw [if_pos hinto]
    rfl
  · rw [if_neg hinto]
    apply state_ask
    intro inst
    rw [if_neg hinto]
    rfl

theorem actAll_mutations (state : State K V) (name : String) (mutations : List (Mutation K V)) :
    state.actAll (mutations.map (.mutate name)) = state := by
  induction mutations with
  | nil => rfl
  | cons mutation rest ih => rw [List.map_cons, actAll_cons, state_act_mutate, ih]

theorem step_makeFromHashed (state : State K V) (pairs : List (K × V)) :
    (state.step (.makeFromHashed pairs)).state = state := by
  show (state.makeFromHashed pairs).state = state
  unfold makeFromHashed
  dsimp only
  split <;> rfl

theorem step_compareWith (state : State K V) (name : String) (pairs : List (K × V))
    (hasher : Hashing.Hasher) :
    (state.step (.compareWith name pairs hasher)).state = state := by
  apply state_ask
  intro inst
  dsimp only
  split <;> rfl

/-- A step leaves the state that its actions leave. -/
theorem state_step (state : State K V) (step : Step K V) :
    (state.step step).state = state.actAll (state.actions step) := by
  cases step with
  | newBuilder name pairs => rfl
  | put name key value => exact state_withBuilder fun _ _ => rfl
  | putAll name pairs => exact state_withBuilder fun _ _ => rfl
  | tryPut name pairs =>
      apply state_withBuilder
      intro builder _
      dsimp only [Putting.into]
      cases builder.tryPutAll pairs <;> rfl
  | order name rule =>
      apply state_withBuilder
      intro builder _
      cases builder.orderByValue (Ruled.order rule) <;> rfl
  | cloneBuilder name target => exact state_withBuilder fun _ _ => rfl
  | builderSize name => exact state_askBuilder fun _ => rfl
  | builderText name lines => exact state_askBuilder fun _ => rfl
  | combine name other => exact state_withBuilder fun _ _ => state_withBuilder fun _ _ => rfl
  | conflict name refusal => exact state_askBuilder fun _ => rfl
  | build request => exact step_build state request
  | make source target quiet => exact step_make state source target quiet
  | makeFromHashed pairs => exact step_makeFromHashed state pairs
  | cloneMap name target => exact state_withMap fun _ _ => rfl
  | dropMap name => exact (state_withMap fun _ _ => rfl).trans (state_dropMap state name)
  | compare name other => exact state_ask fun _ => state_ask fun _ => rfl
  | compareWith name pairs hasher => exact step_compareWith state name pairs hasher
  | sameViews name other => exact step_sameViews state name other
  | iterate name traversal script => exact step_iterate state name traversal script
  | mutate name key value =>
      show (state.mutate name key value).state =
        state.actAll ((everyMutation key value).map (.mutate name))
      rw [actAll_mutations]
      exact state_ask fun _ => rfl
  | ownView name kind target => exact state_withMap fun _ _ => rfl
  | viewOfMap name query literal => exact state_withMap fun _ _ => rfl
  | view name query literal =>
      exact (state_withView fun _ _ => rfl).trans (state_asked state state.views[name]?)
  | cloneView name target => exact state_withView fun _ _ => rfl
  | dropView name => rfl
  | entry x y => rfl
  | _ => exact state_ask fun _ => rfl

def actionsAll (state : State K V) : List (Step K V) -> List (Action K V)
  | [] => []
  | step :: steps => state.actions step ++ (state.step step).state.actionsAll steps

theorem after_eq_actAll (state : State K V) (steps : List (Step K V)) :
    state.after steps = state.actAll (state.actionsAll steps) := by
  induction steps generalizing state with
  | nil => rfl
  | cons step rest ih => rw [after_cons, ih, actionsAll, actAll_append, ← state_step]

end State
end Session
end SealedMap
