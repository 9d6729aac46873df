import SealedMap.Session.ViewSteps

/-!
# Running a session

A session starts with all registers empty and takes its steps one by one.
-/

namespace SealedMap
namespace Session

variable {K V : Type} [KeyKind K] [ValueKind V]

def State.step (state : State K V) : Step K V -> Outcome K V
  | .newBuilder name pairs => state.newBuilder name pairs
  | .put name key value => state.put name key value
  | .putAll name pairs => state.putAll name pairs
  | .tryPut name pairs => state.tryPut name pairs
  | .order name rule => state.order name rule
  | .cloneBuilder name target => state.cloneBuilder name target
  | .builderSize name => state.builderSize name
  | .builderText name lines => state.builderText name lines
  | .combine name other => state.combine name other
  | .conflict name refusal => state.conflict name refusal
  | .build request => state.build request
  | .make source target quiet => state.make source target quiet
  | .makeFromHashed pairs => state.makeFromHashed pairs
  | .cloneMap name target => state.cloneMap name target
  | .dropMap name => state.discardMap name
  | .dump name => state.ask name fun map => .dump map.toList map.keys map.values
  | .get name keys => state.ask name fun map => .lookups (keys.map (lookup map))
  | .hasValue name values => state.ask name fun map => .has (values.map map.containsValue)
  | .hasherName name => state.ask name fun _ => .hasherName state.hasher.name
  | .toJson name => state.ask name fun map => .json map.toJson
  | .toBytes name convention => state.ask name fun map => .bytes (map.toBytes convention)
  | .texts name => state.ask name fun map =>
      .texts (Shown.plain map) (Shown.literal map) map.literalLines
  | .display name => state.ask name fun map => .display (Shown.plain map)
  | .hashes name => state.ask name State.hashes
  | .compare name other => state.compare name other
  | .compareWith name pairs hasher => state.compareWith name pairs hasher
  | .sameViews name other => state.sameViews name other
  | .iterate name traversal script => state.iterate name traversal script
  | .mutate name key value => state.mutate name key value
  | .ownView name kind target => state.ownView name kind target
  | .viewOfMap name query literal => state.viewOfMap name query literal
  | .view name query literal => state.viewRegister name query literal
  | .cloneView name target => state.cloneView name target
  | .dropView name => state.discardView name
  | .entry x y => state.answer (entryReport x y)

def State.run (state : State K V) : List (Step K V) -> List (Outcome K V)
  | [] => []
  | step :: steps =>
      let outcome := state.step step
      outcome :: outcome.state.run steps

def State.after (state : State K V) (steps : List (Step K V)) : State K V :=
  steps.foldl (fun state step => (state.step step).state) state

@[simp] theorem State.after_nil (state : State K V) :
    state.after ([] : List (Step K V)) = state := rfl

@[simp] theorem State.after_cons (state : State K V) (step : Step K V)
    (steps : List (Step K V)) :
    state.after (step :: steps) = (state.step step).state.after steps := rfl

def run (hasher : Hashing.Hasher) (steps : List (Step K V)) : List (Outcome K V) :=
  (State.start hasher).run steps

end Session
end SealedMap
