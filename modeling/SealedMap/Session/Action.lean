import SealedMap.Mutable.Mutation
import SealedMap.Session.State

/-!
# Actions on registers

What steps do to the registers of a session, told without their answers, and for
any hash function, any order of values and any way to combine values.  An action
on a register that is not in use does nothing.
-/

namespace SealedMap
namespace Session

inductive Putting (K V : Type) where
  | one (key : K) (value : V)
  | entry (entry : Entry K V)
  | pairs (pairs : List (K × V))
  | entries (entries : List (Entry K V))
  | parts (pairs : List (Option K × Option V))

namespace Putting

def entries? : Putting K V -> Except Refusal (List (Entry K V))
  | one key value => .ok [⟨key, value⟩]
  | entry given => .ok [given]
  | pairs given => .ok (given.map Entry.ofPair)
  | entries given => .ok given
  | parts given => given.mapM fun (key, value) => Entry.ofParts key value

def into (putting : Putting K V) (builder : Builder K V) : Except Refusal (Builder K V) :=
  match putting with
  | .one key value => .ok (builder.put key value)
  | .entry given => .ok (builder.putEntry given)
  | .pairs given => .ok (builder.putAll given)
  | .entries given => .ok (builder.putEntries given)
  | .parts given => builder.tryPutAll given

theorem into_eq (putting : Putting K V) (builder : Builder K V) :
    putting.into builder = putting.entries?.map builder.putEntries := by
  cases putting with
  | one key value => rfl
  | entry given => rfl
  | pairs given => rfl
  | entries given => rfl
  | parts given =>
      unfold into entries? Builder.tryPutAll
      cases given.mapM fun (key, value) => Entry.ofParts key value <;> rfl

end Putting

/-- A policy with the state its function starts from, or a keyed index from the start. -/
inductive Building (K V : Type) : Type 1 where
  | under {σ : Type} (policy : Policy σ K V) (state : σ)
  | keyed

namespace Building

def construct [BEq K] [Hashable K] (building : Building K V) (builder : Builder K V) :
    Construction K V :=
  match building with
  | .under policy state => ((builder.buildWith policy).run state).1
  | .keyed => builder.buildKeyed

end Building

inductive Action (K V : Type) [BEq K] [Hashable K] : Type 1 where
  -- builders
  | newBuilder (name : String) (hash : K -> UInt64) (pairs : List (K × V))
  | put (name : String) (putting : Putting K V)
  | combine (name other : String)
  | cloneBuilder (name target : String)
  | order (name : String) (order : ValueOrder V)
  | build (name target : String) (building : Building K V) (consuming : Bool)
  | dropBuilder (name : String)
  -- maps
  /-- A map that is made without a register for its builder. -/
  | make (target : String) (map : Map K V)
  | cloneMap (name target : String)
  | dropMap (name : String)
  | mutate (name : String) (mutation : Mutation K V)
  -- views
  | access (name : String) (kind : ViewKind)
  | ownView (name : String) (kind : ViewKind) (target : String)
  | cloneView (name target : String)
  | dropView (name : String)

structure Effect (K V : Type) [BEq K] [Hashable K] where
  refusal : Option Refusal
  state : State K V

namespace State

variable {K V : Type} [BEq K] [Hashable K]

def through {α : Type} (state : State K V) (register : Option α)
    (use : α -> Effect K V) : Effect K V :=
  match register with
  | some held => use held
  | none => ⟨none, state⟩

theorem through_keeps {state : State K V} {α β : Type} (read : State K V -> β)
    {register : Option α} {use : α -> Effect K V}
    (h : forall held, register = some held -> read (use held).state = read state) :
    read (state.through register use).state = read state := by
  cases register with
  | none => rfl
  | some held => exact h held rfl

/-- Builds a map into its register; a consuming build uses the builder up even if refused. -/
def buildFrom (state : State K V) (name : String) (builder : Builder K V) (target : String)
    (building : Building K V) (consuming : Bool) : Effect K V :=
  let left := if consuming then state.dropBuilder name else state
  match (building.construct builder).outcome with
  | .ok map => ⟨none, left.addMap target map⟩
  | .error refusal => ⟨some refusal, left⟩

def handed? (state : State K V) (name : String) (kind : ViewKind) : Option Nat :=
  state.maps[name]?.map fun inst => (state.ledger.view inst.serial kind).1

def same? (state : State K V) (name other : String) : Option Bool :=
  state.maps[name]?.bind fun left => state.maps[other]?.map left.same

variable [BEq V] [Hashable V]

def act (state : State K V) : Action K V -> Effect K V
  | .newBuilder name hash pairs => ⟨none, state.setBuilder name (Builder.ofList hash pairs)⟩
  | .put name putting =>
      state.through state.builders[name]? fun builder =>
        match putting.into builder with
        | .ok builder => ⟨none, state.setBuilder name builder⟩
        | .error refusal => ⟨some refusal, state⟩
  | .combine name other =>
      state.through state.builders[name]? fun builder =>
        state.through state.builders[other]? fun appended =>
          ⟨none, (state.dropBuilder other).setBuilder name (builder.combine appended)⟩
  | .cloneBuilder name target =>
      state.through state.builders[name]? fun builder => ⟨none, state.setBuilder target builder⟩
  | .order name order =>
      state.through state.builders[name]? fun builder =>
        match builder.orderByValue order with
        | .ok builder => ⟨none, state.setBuilder name builder⟩
        | .error refusal => ⟨some refusal, state⟩
  | .build name target building consuming =>
      state.through state.builders[name]? fun builder =>
        state.buildFrom name builder target building consuming
  | .dropBuilder name => ⟨none, state.dropBuilder name⟩
  | .make target map => ⟨none, state.addMap target map⟩
  | .cloneMap name target =>
      state.through state.maps[name]? fun inst => ⟨none, state.setMap target inst⟩
  | .dropMap name => ⟨none, state.dropMap name⟩
  | .mutate name mutation =>
      state.through state.maps[name]? fun inst => ⟨some (mutation.refusedBy inst.map), state⟩
  | .access name kind =>
      state.through state.maps[name]? fun inst => ⟨none, state.handOut inst kind⟩
  | .ownView name kind target =>
      state.through state.maps[name]? fun inst =>
        ⟨none, (state.handOut inst kind).setView target (.ofMap inst.map kind)⟩
  | .cloneView name target =>
      state.through state.views[name]? fun view => ⟨none, state.setView target view⟩
  | .dropView name => ⟨none, state.dropView name⟩

/-! ### Acting on registers in use -/

section Equations

variable {state : State K V} {name other target : String} {builder appended grown : Builder K V}
  {putting : Putting K V} {order : ValueOrder V} {building : Building K V} {map : Map K V}
  {inst : Instance K V} {view : View K V} {refusal : Refusal}

theorem act_put (h : state.builders[name]? = some builder)
    (hput : putting.into builder = .ok grown) :
    state.act (.put name putting) = ⟨none, state.setBuilder name grown⟩ := by
  show state.through state.builders[name]? _ = _
  rw [h, through, hput]

theorem act_put_refused (h : state.builders[name]? = some builder)
    (hput : putting.into builder = .error refusal) :
    state.act (.put name putting) = ⟨some refusal, state⟩ := by
  show state.through state.builders[name]? _ = _
  rw [h, through, hput]

theorem act_combine (h : state.builders[name]? = some builder)
    (hother : state.builders[other]? = some appended) :
    state.act (.combine name other) =
      ⟨none, (state.dropBuilder other).setBuilder name (builder.combine appended)⟩ := by
  show state.through state.builders[name]? _ = _
  rw [h, through, hother, through]

theorem act_cloneBuilder (h : state.builders[name]? = some builder) (target : String) :
    state.act (.cloneBuilder name target) = ⟨none, state.setBuilder target builder⟩ := by
  show state.through state.builders[name]? _ = _
  rw [h, through]

theorem act_order (h : state.builders[name]? = some builder) (hnone : builder.order = none) :
    state.act (.order name order) =
      ⟨none, state.setBuilder name { builder with order := some order }⟩ := by
  show state.through state.builders[name]? _ = _
  rw [h, through, Builder.orderByValue, hnone]

theorem act_order_refused {first : ValueOrder V} (h : state.builders[name]? = some builder)
    (hsome : builder.order = some first) :
    state.act (.order name order) = ⟨some (.illegalState .orderAlreadySet), state⟩ := by
  show state.through state.builders[name]? _ = _
  rw [h, through, Builder.orderByValue, hsome]

theorem act_build (h : state.builders[name]? = some builder)
    (houtcome : (building.construct builder).outcome = .ok map) (target : String)
    (consuming : Bool) :
    state.act (.build name target building consuming) =
      ⟨none, (if consuming then state.dropBuilder name else state).addMap target map⟩ := by
  show state.through state.builders[name]? _ = _
  rw [h, through, buildFrom, houtcome]

theorem act_build_refused (h : state.builders[name]? = some builder)
    (houtcome : (building.construct builder).outcome = .error refusal) (target : String)
    (consuming : Bool) :
    state.act (.build name target building consuming) =
      ⟨some refusal, if consuming then state.dropBuilder name else state⟩ := by
  show state.through state.builders[name]? _ = _
  rw [h, through, buildFrom, houtcome]

theorem act_cloneMap (h : state.maps[name]? = some inst) (target : String) :
    state.act (.cloneMap name target) = ⟨none, state.setMap target inst⟩ := by
  show state.through state.maps[name]? _ = _
  rw [h, through]

theorem act_mutate (h : state.maps[name]? = some inst) (mutation : Mutation K V) :
    state.act (.mutate name mutation) = ⟨some (mutation.refusedBy inst.map), state⟩ := by
  show state.through state.maps[name]? _ = _
  rw [h, through]

theorem state_act_mutate (state : State K V) (name : String) (mutation : Mutation K V) :
    (state.act (.mutate name mutation)).state = state :=
  through_keeps id fun _ _ => rfl

theorem act_access (h : state.maps[name]? = some inst) (kind : ViewKind) :
    state.act (.access name kind) = ⟨none, state.handOut inst kind⟩ := by
  show state.through state.maps[name]? _ = _
  rw [h, through]

theorem act_ownView (h : state.maps[name]? = some inst) (kind : ViewKind) (target : String) :
    state.act (.ownView name kind target) =
      ⟨none, (state.handOut inst kind).setView target (.ofMap inst.map kind)⟩ := by
  show state.through state.maps[name]? _ = _
  rw [h, through]

theorem act_cloneView (h : state.views[name]? = some view) (target : String) :
    state.act (.cloneView name target) = ⟨none, state.setView target view⟩ := by
  show state.through state.views[name]? _ = _
  rw [h, through]

end Equations

/-! ### Acting in turn -/

def actAll (state : State K V) (actions : List (Action K V)) : State K V :=
  actions.foldl (fun state action => (state.act action).state) state

@[simp] theorem actAll_nil (state : State K V) :
    state.actAll [] = state := rfl

@[simp] theorem actAll_cons (state : State K V) (action : Action K V)
    (actions : List (Action K V)) :
    state.actAll (action :: actions) = (state.act action).state.actAll actions := rfl

theorem actAll_append (state : State K V) (first second : List (Action K V)) :
    state.actAll (first ++ second) = (state.actAll first).actAll second :=
  List.foldl_append

theorem actAll_concat (state : State K V) (actions : List (Action K V)) (action : Action K V) :
    state.actAll (actions ++ [action]) = ((state.actAll actions).act action).state := by
  rw [actAll_append, actAll_cons, actAll_nil]

end State
end Session
end SealedMap
