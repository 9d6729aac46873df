import SealedMap.Session.State

/-!
# Shared memory

Builders and maps refer to what they are made of.  A builder refers to an arena
of entries; a map to a table and to the cells of its views; and an indexed table
to an arena, which may be that of a builder.  What nothing refers to any longer
is free, and an allocator may choose its address again.
-/

namespace SealedMap
namespace Memory

open Index (Chained Keyed)
open Session (View ViewKind)

abbrev Address := Nat

inductive Region where
  | arenas
  | tables
  | cells
deriving DecidableEq

/--
Chooses an address that is not held, which may have been held before.  The choice
may depend on the time, that is, on everything that went before.
-/
structure Allocator where
  fresh : Nat -> Region -> List Address -> Address
  fresh_notMem : forall time region held, fresh time region held ∉ held

/-! ## References -/

structure BuilderRef (K V : Type) where
  arena : Address
  order : Option (ValueOrder V)
  hash : K -> UInt64

structure MapRef where
  table : Address
  cells : Address

structure ViewRef where
  kind : ViewKind
  table : Address

/-! ## What is in memory -/

/-- A map; its entries are in an arena if there is an index over them. -/
inductive Table (K V : Type) [BEq K] [Hashable K] where
  | empty (hash : K -> UInt64)
  | single (entry : Entry K V) (hash : K -> UInt64)
  | chained (arena : Address) (index : Chained K) (hash : K -> UInt64)
  | keyed (arena : Address) (index : Keyed K) (hash : K -> UInt64)

namespace Table

variable {K V : Type} [BEq K] [Hashable K]

def arena? : Table K V -> Option Address
  | empty _ => none
  | single _ _ => none
  | chained arena _ _ => some arena
  | keyed arena _ _ => some arena

def ofMap (arena : Address) (map : Map K V) : Table K V :=
  match map.layout with
  | .empty => empty map.hash
  | .single entry => single entry map.hash
  | .chained _ index => chained arena index map.hash
  | .keyed _ index => keyed arena index map.hash

def read (arenas : Address -> Array (Entry K V)) : Table K V -> Map K V
  | empty hash => ⟨.empty, hash⟩
  | single entry hash => ⟨.single entry, hash⟩
  | chained arena index hash => ⟨.chained (arenas arena) index, hash⟩
  | keyed arena index hash => ⟨.keyed (arenas arena) index, hash⟩

theorem read_ofMap {arenas : Address -> Array (Entry K V)} {arena : Address} {map : Map K V}
    (h : arenas arena = map.entries) :
    (ofMap arena map).read arenas = map := by
  rcases map with ⟨layout, hash⟩
  cases layout with
  | empty => rfl
  | single entry => rfl
  | chained entries index =>
      show (⟨.chained (arenas arena) index, hash⟩ : Map K V) = _
      rw [h]
      rfl
  | keyed entries index =>
      show (⟨.keyed (arenas arena) index, hash⟩ : Map K V) = _
      rw [h]
      rfl

theorem read_congr {arenas others : Address -> Array (Entry K V)} {table : Table K V}
    (h : forall arena, table.arena? = some arena -> arenas arena = others arena) :
    table.read arenas = table.read others := by
  cases table with
  | empty hash => rfl
  | single entry hash => rfl
  | chained arena index hash => rw [read, read, h arena rfl]
  | keyed arena index hash => rw [read, read, h arena rfl]

end Table

/-- The number of a view that was made, with the table that it refers to. -/
structure Cell where
  view : Nat
  table : Address

/--
All of memory, with whatever is left at free addresses.  The cells of a map hold
its views once they were asked for, the inverse within the multimap view.
-/
structure Heap (K V : Type) [BEq K] [Hashable K] where
  arenas : Address -> Array (Entry K V)
  tables : Address -> Table K V
  cells : Address -> ViewKind -> Option Cell

def write {α : Type} (memory : Address -> α) (address : Address) (content : α) : Address -> α :=
  fun other => if other = address then content else memory other

theorem write_self {α : Type} (memory : Address -> α) (address : Address) (content : α) :
    write memory address content address = content :=
  if_pos rfl

theorem write_of_ne {α : Type} {memory : Address -> α} {address other : Address} {content : α}
    (h : other ≠ address) :
    write memory address content other = memory other :=
  if_neg h

namespace Heap

variable {K V : Type} [BEq K] [Hashable K]

def empty : Heap K V where
  arenas := fun _ => #[]
  tables := fun _ => .empty fun _ => 0
  cells := fun _ _ => none

def builder (heap : Heap K V) (ref : BuilderRef K V) : Builder K V where
  entries := heap.arenas ref.arena
  order := ref.order
  hash := ref.hash

def map (heap : Heap K V) (table : Address) : Map K V :=
  (heap.tables table).read heap.arenas

def view [BEq V] [Hashable V] (heap : Heap K V) (ref : ViewRef) : View K V :=
  .ofMap (heap.map ref.table) ref.kind

def writeArena (heap : Heap K V) (address : Address) (entries : Array (Entry K V)) : Heap K V :=
  { heap with arenas := write heap.arenas address entries }

def writeTable (heap : Heap K V) (address : Address) (table : Table K V) : Heap K V :=
  { heap with tables := write heap.tables address table }

def writeCells (heap : Heap K V) (address : Address) (cells : ViewKind -> Option Cell) :
    Heap K V :=
  { heap with cells := write heap.cells address cells }

def fillCell (heap : Heap K V) (address : Address) (kind : ViewKind) (cell : Cell) : Heap K V :=
  heap.writeCells address fun other =>
    if other = kind then some cell else heap.cells address other

/-! ### Reading past a write -/

section Writes

variable {heap : Heap K V} {address table : Address} {ref : BuilderRef K V}

theorem builder_writeArena_of_ne (h : ref.arena ≠ address) (entries : Array (Entry K V)) :
    (heap.writeArena address entries).builder ref = heap.builder ref := by
  show (⟨write heap.arenas address entries ref.arena, ref.order, ref.hash⟩ : Builder K V) = _
  rw [write_of_ne h]
  rfl

theorem builder_writeArena_self (heap : Heap K V) (ref : BuilderRef K V)
    (entries : Array (Entry K V)) :
    (heap.writeArena ref.arena entries).builder ref = ⟨entries, ref.order, ref.hash⟩ := by
  show (⟨write heap.arenas ref.arena entries ref.arena, ref.order, ref.hash⟩ : Builder K V) = _
  rw [write_self]

theorem map_writeArena_of_ne (h : (heap.tables table).arena? ≠ some address)
    (entries : Array (Entry K V)) :
    (heap.writeArena address entries).map table = heap.map table := by
  apply Table.read_congr
  intro arena harena
  apply write_of_ne
  rintro rfl
  exact h harena

theorem map_writeTable_of_ne (h : table ≠ address) (content : Table K V) :
    (heap.writeTable address content).map table = heap.map table := by
  show (write heap.tables address content table).read heap.arenas = _
  rw [write_of_ne h]
  rfl

theorem map_writeTable_self (heap : Heap K V) (address : Address) (content : Table K V) :
    (heap.writeTable address content).map address = content.read heap.arenas := by
  show (write heap.tables address content address).read heap.arenas = _
  rw [write_self]

theorem cells_writeCells_of_ne {other : Address} (h : other ≠ address)
    (cells : ViewKind -> Option Cell) :
    (heap.writeCells address cells).cells other = heap.cells other :=
  write_of_ne h

theorem cells_writeCells_self (heap : Heap K V) (address : Address)
    (cells : ViewKind -> Option Cell) :
    (heap.writeCells address cells).cells address = cells :=
  write_self heap.cells address cells

theorem cells_fillCell_self (heap : Heap K V) (address : Address) (kind other : ViewKind)
    (cell : Cell) :
    (heap.fillCell address kind cell).cells address other =
      if other = kind then some cell else heap.cells address other := by
  rw [fillCell, cells_writeCells_self]

theorem cells_fillCell_of_ne {other : Address} (h : other ≠ address) (kind : ViewKind)
    (cell : Cell) :
    (heap.fillCell address kind cell).cells other = heap.cells other :=
  cells_writeCells_of_ne h _

end Writes

end Heap
end Memory
end SealedMap
