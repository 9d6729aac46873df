import SealedMap.Session.State
import SealedMap.Text.Listing

/-!
# Steps on builders
-/

namespace SealedMap
namespace Session
namespace State

variable {K V : Type} [KeyKind K] [ValueKind V]

def keepBuilder (state : State K V) (name : String) (builder : Builder K V) :
    Outcome K V :=
  (state.setBuilder name builder).answer (.size builder.size)

def newBuilder (state : State K V) (name : String) (pairs : List (K × V)) :
    Outcome K V :=
  state.keepBuilder name (Builder.ofList state.hash pairs)

def put (state : State K V) (name : String) (key : K) (value : V) : Outcome K V :=
  state.withBuilder name fun builder => state.keepBuilder name (builder.put key value)

def putAll (state : State K V) (name : String) (pairs : List (K × V)) : Outcome K V :=
  state.withBuilder name fun builder => state.keepBuilder name (builder.putAll pairs)

def tryPut (state : State K V) (name : String) (pairs : List (Option K × Option V)) :
    Outcome K V :=
  state.withBuilder name fun builder =>
    match builder.tryPutAll pairs with
    | .ok builder => state.keepBuilder name builder
    | .error refusal => state.answer (.putRefused refusal builder.size)

def order (state : State K V) (name : String) (rule : OrderRule) : Outcome K V :=
  state.withBuilder name fun builder =>
    match builder.orderByValue (Ruled.order rule) with
    | .ok builder => state.keepBuilder name builder
    | .error refusal => state.answer (.refused refusal)

def cloneBuilder (state : State K V) (name target : String) : Outcome K V :=
  state.withBuilder name fun builder => state.keepBuilder target builder

def builderSize (state : State K V) (name : String) : Outcome K V :=
  state.withBuilder name fun builder =>
    state.answer (.occupancy builder.size builder.isEmpty)

def builderText (state : State K V) (name : String) (lines : Bool) : Outcome K V :=
  state.withBuilder name fun builder =>
    state.answer (.literal (if lines then builder.literalLines else builder.literal))

/-- The other builder is used up, unless it is the same one. -/
def combine (state : State K V) (name other : String) : Outcome K V :=
  state.withBuilder name fun builder =>
    state.withBuilder other fun appended =>
      (state.dropBuilder other).keepBuilder name (builder.combine appended)

def conflict (state : State K V) (name : String) (refusal : Refusal) : Outcome K V :=
  state.withBuilder name fun builder =>
    state.answer (.conflict (builder.conflict? refusal))

def contents (map : Map K V) (quiet : Bool) : Contents K V :=
  if quiet then .size map.size else .pairs map.toList

def construct (builder : Builder K V) (request : BuildRequest) :
    Construction K V × Option (Array (Builder.Call K V)) :=
  match request.mode with
  | .reject => (builder.build, none)
  | .keyed => (builder.buildKeyed, none)
  | .keepLast => (builder.buildKeepingLast, none)
  | .merge =>
      let (construction, calls) :=
        builder.buildMergingTraced fun key earlier later =>
          Ruled.combine request.rule (Shown.plain key) earlier later
      (construction, some calls)

/--
Builds a map into its register; a refused build leaves that as it was.  A
consuming build uses the builder up in either case.
-/
def build (state : State K V) (request : BuildRequest) : Outcome K V :=
  state.withBuilder request.builder fun builder =>
    let left := if request.consuming then state.dropBuilder request.builder else state
    let (construction, calls) := construct builder request
    match construction.outcome with
    | .ok map =>
        let contents := contents map request.quiet
        let answer : Answer K V :=
          match calls with
          | some calls => .merged contents calls.toList
          | none => .contents contents
        ⟨answer, construction.events, left.addMap request.target map⟩
    | .error refusal =>
        let conflict :=
          if request.consuming && request.unique then none else builder.conflict? refusal
        ⟨.buildRefused refusal conflict, construction.events, left⟩

end State
end Session
end SealedMap
