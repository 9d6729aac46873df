import SealedMap.Memory.Heap
import SealedMap.Session.Action

/-!
# Acting on shared memory

The actions on registers, with registers that hold references.  A builder appends
in place if nothing else refers to its arena, and to a copy of it otherwise; a
builder without entries takes over the arena of another one; and a build leaves
its map in the builder's own arena, unless entries were dropped or put in order.
Copies of a map share its table and its cells, where a view is made when it is
first asked for.
-/

namespace SealedMap
namespace Memory

open Session (Action Building Putting Registers View ViewKind)

structure Machine (K V : Type) [BEq K] [Hashable K] where
  builders : Registers (BuilderRef K V)
  maps : Registers MapRef
  views : Registers ViewRef
  heap : Heap K V
  time : Nat
  nextView : Nat

namespace Machine

variable {K V : Type} [BEq K] [Hashable K]

def start : Machine K V where
  builders := ∅
  maps := ∅
  views := ∅
  heap := .empty
  time := 0
  nextView := 0

def through {α : Type} (machine : Machine K V) (register : Option α)
    (use : α -> Machine K V) : Machine K V :=
  match register with
  | some held => use held
  | none => machine

/-! ## What is referred to -/

def refs {α : Type} (registers : Registers α) : List α :=
  registers.toList.map Prod.snd

def cellsHeld (machine : Machine K V) : List Address :=
  (refs machine.maps).map MapRef.cells

def tablesHeld (machine : Machine K V) : List Address :=
  (refs machine.maps).map MapRef.table ++
    machine.cellsHeld.flatMap (fun address =>
      [ViewKind.keys, .values, .entries, .multi, .inverse].filterMap fun kind =>
        (machine.heap.cells address kind).map Cell.table) ++
    (refs machine.views).map ViewRef.table

def arenasHeld (machine : Machine K V) : List Address :=
  (refs machine.builders).map BuilderRef.arena ++
    machine.tablesHeld.filterMap fun address => (machine.heap.tables address).arena?

/-! ## Registers -/

def setBuilder (machine : Machine K V) (name : String) (ref : BuilderRef K V) : Machine K V :=
  { machine with builders := machine.builders.insert name ref }

def dropBuilder (machine : Machine K V) (name : String) : Machine K V :=
  { machine with builders := machine.builders.erase name }

def setMap (machine : Machine K V) (name : String) (ref : MapRef) : Machine K V :=
  { machine with maps := machine.maps.insert name ref }

def dropMap (machine : Machine K V) (name : String) : Machine K V :=
  { machine with maps := machine.maps.erase name }

def setView (machine : Machine K V) (name : String) (ref : ViewRef) : Machine K V :=
  { machine with views := machine.views.insert name ref }

def dropView (machine : Machine K V) (name : String) : Machine K V :=
  { machine with views := machine.views.erase name }

/-! ## Builders -/

section Allocation

variable (allocator : Allocator)

def freshArena (machine : Machine K V) : Address :=
  allocator.fresh machine.time .arenas machine.arenasHeld

def newBuilder (machine : Machine K V) (name : String) (hash : K -> UInt64)
    (pairs : List (K × V)) : Machine K V :=
  let arena := machine.freshArena allocator
  let heap := machine.heap.writeArena arena (pairs.map Entry.ofPair).toArray
  { machine with heap := heap }.setBuilder name ⟨arena, none, hash⟩

/-- Where a builder may write: in place if nothing but its register refers to its arena. -/
def ownArena (machine : Machine K V) (name : String) (arena : Address) : Address :=
  if arena ∈ (machine.dropBuilder name).arenasHeld then machine.freshArena allocator else arena

def append (machine : Machine K V) (name : String) (ref : BuilderRef K V)
    (entries : Array (Entry K V)) : Machine K V :=
  let arena := machine.ownArena allocator name ref.arena
  let heap := machine.heap.writeArena arena (machine.heap.arenas ref.arena ++ entries)
  { machine.dropBuilder name with heap := heap }.setBuilder name { ref with arena := arena }

def put (machine : Machine K V) (name : String) (putting : Putting K V) : Machine K V :=
  machine.through machine.builders[name]? fun ref =>
    match putting.entries? with
    | .ok entries => machine.append allocator name ref entries.toArray
    | .error _ => machine

/-- Appends the entries of another builder, or takes its arena over if there is nothing yet. -/
def appendBuilder (machine : Machine K V) (name : String) (ref appended : BuilderRef K V) :
    Machine K V :=
  let entries := machine.heap.arenas appended.arena
  if (machine.heap.arenas ref.arena).isEmpty then
    machine.setBuilder name { ref with arena := appended.arena }
  else if entries.isEmpty then machine.setBuilder name ref
  else machine.append allocator name ref entries

def combine (machine : Machine K V) (name other : String) : Machine K V :=
  machine.through machine.builders[name]? fun ref =>
    machine.through machine.builders[other]? fun appended =>
      (machine.dropBuilder other).appendBuilder allocator name ref appended

def order (machine : Machine K V) (name : String) (order : ValueOrder V) : Machine K V :=
  machine.through machine.builders[name]? fun ref =>
    match ref.order with
    | some _ => machine
    | none => machine.setBuilder name { ref with order := some order }

/-! ## Maps -/

def addMap (machine : Machine K V) (target : String) (arena : Address) (map : Map K V) :
    Machine K V :=
  let table := allocator.fresh machine.time .tables machine.tablesHeld
  let cells := allocator.fresh machine.time .cells machine.cellsHeld
  let heap := (machine.heap.writeTable table (.ofMap arena map)).writeCells cells fun _ => none
  { machine with heap := heap }.setMap target ⟨table, cells⟩

def addOwnMap (machine : Machine K V) (target : String) (map : Map K V) : Machine K V :=
  let arena := machine.freshArena allocator
  { machine with heap := machine.heap.writeArena arena map.entries }.addMap allocator target
    arena map

def resolves (events : List Event) : Bool :=
  events.any fun event =>
    match event with
    | .repeatsResolved _ => true
    | .chainOverflow _ _ => false

/--
Builds a map.  It shares the builder's arena, unless it uses up the builder or
entries were dropped or sorted.
-/
def build (machine : Machine K V) (name : String) (ref : BuilderRef K V) (target : String)
    (building : Building K V) (consuming : Bool) : Machine K V :=
  let left := if consuming then machine.dropBuilder name else machine
  let construction := building.construct (machine.heap.builder ref)
  match construction.outcome with
  | .error _ => left
  | .ok map =>
      if consuming || ref.order.isSome || resolves construction.events then
        left.addOwnMap allocator target map
      else left.addMap allocator target ref.arena map

end Allocation

/-! ## Views -/

def fill (machine : Machine K V) (ref : MapRef) (kind : ViewKind) : Machine K V :=
  match machine.heap.cells ref.cells kind with
  | some _ => machine
  | none =>
      { machine with
        heap := machine.heap.fillCell ref.cells kind ⟨machine.nextView, ref.table⟩
        nextView := machine.nextView + 1 }

/-- Hands out a view; an inverse is asked of the multimap view. -/
def access (machine : Machine K V) (ref : MapRef) : ViewKind -> Machine K V
  | .inverse => (machine.fill ref .multi).fill ref .inverse
  | kind => machine.fill ref kind

theorem maps_fill (machine : Machine K V) (ref : MapRef) (kind : ViewKind) :
    (machine.fill ref kind).maps = machine.maps := by
  unfold Machine.fill
  split <;> rfl

theorem access_of_ne_inverse (machine : Machine K V) (ref : MapRef) (h : kind ≠ .inverse) :
    machine.access ref kind = machine.fill ref kind := by
  cases kind with
  | inverse => exact absurd rfl h
  | _ => rfl

theorem maps_access (machine : Machine K V) (ref : MapRef) (kind : ViewKind) :
    (machine.access ref kind).maps = machine.maps := by
  cases kind with
  | inverse => exact (maps_fill _ ref .inverse).trans (maps_fill machine ref .multi)
  | _ => exact maps_fill machine ref _

def handed? (machine : Machine K V) (name : String) (kind : ViewKind) : Option Nat :=
  machine.maps[name]?.bind fun ref =>
    ((machine.access ref kind).heap.cells ref.cells kind).map Cell.view

/-- Two maps have one table, or neither has entries. -/
def same (machine : Machine K V) (left right : MapRef) : Bool :=
  left.table == right.table ||
    ((machine.heap.map left.table).isEmpty && (machine.heap.map right.table).isEmpty)

def ownView (machine : Machine K V) (ref : MapRef) (kind : ViewKind) (target : String) :
    Machine K V :=
  let machine := machine.access ref kind
  match machine.heap.cells ref.cells kind with
  | some cell => machine.setView target ⟨kind, cell.table⟩
  | none => machine

/-! ## Actions -/

/-- Copies of a builder share its arena, and copies of a map its table and its cells. -/
def perform (allocator : Allocator) (machine : Machine K V) : Action K V -> Machine K V
  | .newBuilder name hash pairs => machine.newBuilder allocator name hash pairs
  | .put name putting => machine.put allocator name putting
  | .combine name other => machine.combine allocator name other
  | .cloneBuilder name target =>
      machine.through machine.builders[name]? fun ref => machine.setBuilder target ref
  | .order name order => machine.order name order
  | .build name target building consuming =>
      machine.through machine.builders[name]? fun ref =>
        machine.build allocator name ref target building consuming
  | .dropBuilder name => machine.dropBuilder name
  | .make target map => machine.addOwnMap allocator target map
  | .cloneMap name target =>
      machine.through machine.maps[name]? fun ref => machine.setMap target ref
  | .dropMap name => machine.dropMap name
  | .mutate _ _ => machine
  | .access name kind => machine.through machine.maps[name]? fun ref => machine.access ref kind
  | .ownView name kind target =>
      machine.through machine.maps[name]? fun ref => machine.ownView ref kind target
  | .cloneView name target =>
      machine.through machine.views[name]? fun ref => machine.setView target ref
  | .dropView name => machine.dropView name

def act (allocator : Allocator) (machine : Machine K V) (action : Action K V) : Machine K V :=
  { machine.perform allocator action with time := machine.time + 1 }

def actAll (allocator : Allocator) (machine : Machine K V) (actions : List (Action K V)) :
    Machine K V :=
  actions.foldl (act allocator) machine

/-! ## What is seen -/

def builder? (machine : Machine K V) (name : String) : Option (Builder K V) :=
  machine.builders[name]?.map machine.heap.builder

def map? (machine : Machine K V) (name : String) : Option (Map K V) :=
  machine.maps[name]?.map fun ref => machine.heap.map ref.table

def view? [BEq V] [Hashable V] (machine : Machine K V) (name : String) : Option (View K V) :=
  machine.views[name]?.map machine.heap.view

def same? (machine : Machine K V) (name other : String) : Option Bool :=
  machine.maps[name]?.bind fun left => machine.maps[other]?.map (machine.same left)

end Machine
end Memory
end SealedMap
