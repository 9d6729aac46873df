import Std.Data.HashMap
import SealedMap.Session.Answer
import SealedMap.Session.Instance
import SealedMap.Session.Kinds
import SealedMap.View.Collection
import SealedMap.View.Inverse

/-!
# The state of a session

Registers of builders, maps and views, and the numbers given to constructions
and views.  Builders and maps are values, so a register that is written to
changes nothing that another one holds.
-/

namespace SealedMap
namespace Session

abbrev Registers (α : Type) := Std.HashMap String α

/-- A view on its own, which lives on without the register of its map. -/
inductive View (K V : Type) [BEq K] [Hashable K] where
  | keys (view : KeySet K V)
  | values (view : ValueList K V)
  | entries (view : EntrySet K V)
  | multi (view : Multimap K V)
  | inverse (view : Inverse K V)

namespace View

def ofMap [BEq K] [Hashable K] [BEq V] [Hashable V] (map : Map K V) :
    ViewKind -> View K V
  | .keys => keys map.keySet
  | .values => values map.valueList
  | .entries => entries map.entrySet
  | .multi => multi map.asMultimap
  | .inverse => inverse map.asMultimap.inverse

end View

structure State (K V : Type) [BEq K] [Hashable K] where
  hasher : Hashing.Hasher
  builders : Registers (Builder K V)
  maps : Registers (Instance K V)
  views : Registers (View K V)
  nextSerial : Nat
  ledger : ViewLedger

structure Outcome (K V : Type) [BEq K] [Hashable K] where
  answer : Answer K V
  events : List Event
  state : State K V

namespace State

variable {K V : Type} [BEq K] [Hashable K]

def start (hasher : Hashing.Hasher) : State K V where
  hasher := hasher
  builders := ∅
  maps := ∅
  views := ∅
  nextSerial := 0
  ledger := .empty

def answer (state : State K V) (answer : Answer K V) : Outcome K V :=
  ⟨answer, [], state⟩

def hash [Feed K] (state : State K V) (key : K) : UInt64 :=
  state.hasher.hashOf key

def setBuilder (state : State K V) (name : String) (builder : Builder K V) : State K V :=
  { state with builders := state.builders.insert name builder }

def dropBuilder (state : State K V) (name : String) : State K V :=
  { state with builders := state.builders.erase name }

def setMap (state : State K V) (name : String) (inst : Instance K V) : State K V :=
  { state with maps := state.maps.insert name inst }

def dropMap (state : State K V) (name : String) : State K V :=
  { state with maps := state.maps.erase name }

def setView (state : State K V) (name : String) (view : View K V) : State K V :=
  { state with views := state.views.insert name view }

def dropView (state : State K V) (name : String) : State K V :=
  { state with views := state.views.erase name }

/-- Stores a map that was just constructed as an instance of its own. -/
def addMap (state : State K V) (name : String) (map : Map K V) : State K V :=
  { state.setMap name ⟨map, state.nextSerial⟩ with nextSerial := state.nextSerial + 1 }

def handOut (state : State K V) (inst : Instance K V) (kind : ViewKind) : State K V :=
  { state with ledger := (state.ledger.view inst.serial kind).2 }

def withBuilder (state : State K V) (name : String)
    (use : Builder K V -> Outcome K V) : Outcome K V :=
  match state.builders[name]? with
  | some builder => use builder
  | none => state.answer .missing

def withMap (state : State K V) (name : String)
    (use : Instance K V -> Outcome K V) : Outcome K V :=
  match state.maps[name]? with
  | some inst => use inst
  | none => state.answer .missing

def withView (state : State K V) (name : String)
    (use : View K V -> Outcome K V) : Outcome K V :=
  match state.views[name]? with
  | some view => use view
  | none => state.answer .missing

end State
end Session
end SealedMap
