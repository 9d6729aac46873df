import SealedMap.Session.MapSteps

/-!
# Steps on views and entries
-/

namespace SealedMap
namespace Session

variable {K V : Type} [KeyKind K] [ValueKind V]

namespace View

def keyScript : List Move :=
  [.remaining, .next, .bounds, .next, .remaining]

def multiItem (item : K × List V) : Item K V :=
  .values item.1 item.2

def inverseItem (item : V × List K) : Item K V :=
  .keys item.1 (Cursor.play Cursor.forward keyScript ⟨item.2⟩)

def literalIf (literal : Bool) (text : Unit -> String) : Option String :=
  if literal then some (text ()) else none

def showInverse (view : Inverse K V) (has : List V) (script : Option (List Move))
    (literal : Bool) : Answer K V :=
  .view (.inverse view.groupCount view.pairCount view.toList
      (has.map fun value =>
        let keys := view.get value
        (keys.length, keys, view.containsValue value)))
    (script.map fun moves =>
      Cursor.play Cursor.forward moves ⟨view.toList.map inverseItem⟩)
    (literalIf literal fun _ => view.literal)

/-- What a view shows when it is asked; only the inverse can stand in for its multimap. -/
def show? (view : View K V) (query : ViewQuery K V) (literal : Bool) :
    Option (Answer K V) :=
  match view, query with
  | keys view, .keys places has =>
      some (.view (.keys view.toList (places.map view.at?) (has.map view.contains))
        none (literalIf literal fun _ => view.literal))
  | values view, .values places has =>
      some (.view (.values view.toList (places.map view.at?) (has.map view.contains))
        none (literalIf literal fun _ => view.literal))
  | entries view, .entries places has =>
      some (.view (.entries (view.toList.map Entry.toPair)
          (places.map fun place => (view.at? place).map Entry.toPair)
          (has.map fun pair => view.contains (.ofPair pair)))
        none (literalIf literal fun _ => view.literal))
  | multi view, .multi has holds script =>
      some (.view (.multi view.keyCount view.pairCount view.keys view.toList
          (has.map fun key => (view.get key, view.containsKey key))
          (holds.map fun pair => view.containsPair pair.1 pair.2))
        (script.map fun moves =>
          Cursor.play Cursor.full moves ⟨view.toList.map multiItem⟩)
        (literalIf literal fun _ => view.literal))
  | multi view, .inverse has script => some (showInverse view.inverse has script literal)
  | inverse view, .inverse has script => some (showInverse view has script literal)
  | _, _ => none

end View

namespace State

def ownView (state : State K V) (name : String) (kind : ViewKind) (target : String) :
    Outcome K V :=
  state.withMap name fun inst =>
    ((state.handOut inst kind).setView target (.ofMap inst.map kind)).answer (.done true)

def showView (state : State K V) (view : View K V) (query : ViewQuery K V)
    (literal : Bool) : Outcome K V :=
  state.answer ((view.show? query literal).getD .missing)

def viewOfMap (state : State K V) (name : String) (query : ViewQuery K V)
    (literal : Bool) : Outcome K V :=
  state.withMap name fun inst =>
    (state.handOut inst query.kind).showView (.ofMap inst.map query.kind) query literal

def viewRegister (state : State K V) (name : String) (query : ViewQuery K V)
    (literal : Bool) : Outcome K V :=
  state.withView name fun view => state.showView view query literal

def cloneView (state : State K V) (name target : String) : Outcome K V :=
  state.withView name fun view => (state.setView target view).answer (.done true)

def discardView (state : State K V) (name : String) : Outcome K V :=
  (state.dropView name).answer (.done (state.views.contains name))

end State

def entryReport (x y : Option K × Option V) : Answer K V :=
  match Entry.ofParts x.1 x.2, Entry.ofParts y.1 y.2 with
  | .error refusal, _ => .refused refusal
  | .ok _, .error refusal => .refused refusal
  | .ok x, .ok y =>
      .entry
        { x := x.toPair
          y := y.toPair
          isEqual := x == y
          isSelfEqual := x == x
          order := x.compare? PartialOrdering.compare? y
          plain := Shown.plain x
          literal := Shown.literal x
          hashes := [Hashing.stableHash x, Hashing.stableHash y]
          defaultLiteral := Shown.literal (default : Entry K V)
          json := x.toJson }

end Session
end SealedMap
