import SealedMap.Proofs.ActionSteps

/-!
# What memory shows

A machine shows a state if its registers refer to what the state's registers
hold, if two maps have one table, and one set of cells, exactly if they are the
same instance, and if the cells have the views that the ledger knows.  Writing to
an address that nothing refers to changes nothing that is shown.
-/

namespace SealedMap
namespace Memory

open Session (Instance Matches State View ViewKind ViewLedger mem_refs_iff
  getElem?_insert_eq_some_iff getElem?_erase_eq_some_iff)

variable {K V : Type} [BEq K] [Hashable K]

/-- A reference to a map stands for an instance. -/
structure Stands (heap : Heap K V) (ledger : ViewLedger) (ref : MapRef)
    (inst : Instance K V) : Prop where
  map_eq : heap.map ref.table = inst.map
  view_eq : forall kind,
    (heap.cells ref.cells kind).map Cell.view = ledger.known? inst.serial kind
  table_eq : forall kind cell, heap.cells ref.cells kind = some cell -> cell.table = ref.table

/-- A register refers to the map that stands in the state's register of the same name. -/
def Paired (machine : Machine K V) (state : State K V) (ref : MapRef)
    (inst : Instance K V) : Prop :=
  exists name : String, machine.maps[name]? = some ref ∧ state.maps[name]? = some inst

theorem paired_setMap {machine : Machine K V} {state : State K V} {ref copy : MapRef}
    {inst second : Instance K V} {target : String}
    (h : Paired (machine.setMap target ref) (state.setMap target inst) copy second) :
    (copy = ref ∧ second = inst) ∨ Paired machine state copy second := by
  rcases h with ⟨name, hcopy, hsecond⟩
  rcases getElem?_insert_eq_some_iff.mp hcopy with ⟨rfl, rfl⟩ | ⟨hne, hcopy⟩
  · rcases getElem?_insert_eq_some_iff.mp hsecond with ⟨_, rfl⟩ | ⟨hne, _⟩
    · exact Or.inl ⟨rfl, rfl⟩
    · exact absurd rfl hne
  · rcases getElem?_insert_eq_some_iff.mp hsecond with ⟨heq, _⟩ | ⟨_, hsecond⟩
    · exact absurd heq hne
    · exact Or.inr ⟨name, hcopy, hsecond⟩

/-! ## What is held -/

section Held

variable {machine : Machine K V} {name : String} {arena table : Address}

theorem arena_mem_of_builder {ref : BuilderRef K V} (h : machine.builders[name]? = some ref) :
    ref.arena ∈ machine.arenasHeld :=
  List.mem_append_left _ (List.mem_map_of_mem (mem_refs_iff.mpr ⟨name, h⟩))

theorem table_mem_of_map {ref : MapRef} (h : machine.maps[name]? = some ref) :
    ref.table ∈ machine.tablesHeld :=
  List.mem_append_left _
    (List.mem_append_left _ (List.mem_map_of_mem (mem_refs_iff.mpr ⟨name, h⟩)))

theorem table_mem_of_view {ref : ViewRef} (h : machine.views[name]? = some ref) :
    ref.table ∈ machine.tablesHeld :=
  List.mem_append_right _ (List.mem_map_of_mem (mem_refs_iff.mpr ⟨name, h⟩))

theorem cells_mem_of_map {ref : MapRef} (h : machine.maps[name]? = some ref) :
    ref.cells ∈ machine.cellsHeld :=
  List.mem_map_of_mem (mem_refs_iff.mpr ⟨name, h⟩)

theorem arena_mem_of_table (h : table ∈ machine.tablesHeld)
    (harena : (machine.heap.tables table).arena? = some arena) :
    arena ∈ machine.arenasHeld :=
  List.mem_append_right _ (List.mem_filterMap.mpr ⟨table, h, harena⟩)

theorem arenasHeld_dropBuilder_subset (machine : Machine K V) (name : String) :
    (machine.dropBuilder name).arenasHeld ⊆ machine.arenasHeld := by
  intro arena harena
  rcases List.mem_append.mp harena with hbuilder | htable
  · rcases List.mem_map.mp hbuilder with ⟨ref, href, rfl⟩
    rcases mem_refs_iff.mp href with ⟨other, hother⟩
    exact arena_mem_of_builder (getElem?_erase_eq_some_iff.mp hother).2
  · exact List.mem_append_right _ htable

theorem freshArena_notMem (allocator : Allocator) (machine : Machine K V) :
    machine.freshArena allocator ∉ machine.arenasHeld :=
  allocator.fresh_notMem machine.time .arenas machine.arenasHeld

theorem ownArena_notMem (allocator : Allocator) (machine : Machine K V) (name : String)
    (arena : Address) :
    machine.ownArena allocator name arena ∉ (machine.dropBuilder name).arenasHeld := by
  unfold Machine.ownArena
  split
  next =>
    intro hmem
    exact freshArena_notMem allocator machine (arenasHeld_dropBuilder_subset machine name hmem)
  next hfree => exact hfree

end Held

/-! ## Cells -/

section Cells

variable {heap : Heap K V} {ledger after : ViewLedger} {ref copy : MapRef}
  {inst second : Instance K V} {kind : ViewKind}

theorem Stands.fillCell (hold : Stands heap ledger copy second)
    (hsettles : ledger.Settles after inst.serial kind)
    (hnone : ledger.known? inst.serial kind = none)
    (hsame : (copy.table = ref.table ↔ second.serial = inst.serial) ∧
      (copy.cells = ref.cells ↔ second.serial = inst.serial)) :
    Stands (heap.fillCell ref.cells kind ⟨ledger.next, ref.table⟩) after copy second := by
  by_cases hcells : copy.cells = ref.cells
  · have hserial := hsame.2.mp hcells
    have htable := hsame.1.mpr hserial
    refine ⟨hold.map_eq, ?_, ?_⟩
    · intro otherKind
      rw [hcells, Heap.cells_fillCell_self, hserial]
      by_cases hkind : otherKind = kind
      · rw [if_pos hkind, hkind, hsettles.known?_self, hnone]
        rfl
      · rw [if_neg hkind, hsettles.known?_of_ne fun hboth => hkind hboth.2, ← hcells, ← hserial]
        exact hold.view_eq otherKind
    · intro otherKind cell hcell
      rw [hcells, Heap.cells_fillCell_self] at hcell
      split at hcell
      next =>
        cases hcell
        exact htable.symm
      next => exact hold.table_eq otherKind cell (hcells ▸ hcell)
  · have hserial := fun heq => hcells (hsame.2.mpr heq)
    refine ⟨hold.map_eq, ?_, ?_⟩
    · intro otherKind
      rw [Heap.cells_fillCell_of_ne hcells, hsettles.known?_of_ne fun hboth => hserial hboth.1]
      exact hold.view_eq otherKind
    · rw [Heap.cells_fillCell_of_ne hcells]
      exact hold.table_eq

theorem Stands.settle (hold : Stands heap ledger copy second)
    (hsettles : ledger.Settles after inst.serial kind) {number : Nat}
    (hsome : ledger.known? inst.serial kind = some number) :
    Stands heap after copy second := by
  refine ⟨hold.map_eq, ?_, hold.table_eq⟩
  intro otherKind
  rw [hsettles.known?_eq, hold.view_eq otherKind]
  split
  next hboth => rw [hboth.1, hboth.2, hsome, Option.getD_some]
  next => rfl

end Cells

variable [BEq V] [Hashable V]

structure Shows (machine : Machine K V) (state : State K V) : Prop where
  builders : Matches (fun ref builder => machine.heap.builder ref = builder) machine.builders
    state.builders
  maps : Matches (Stands machine.heap state.ledger) machine.maps state.maps
  views : Matches (fun ref view => machine.heap.view ref = view) machine.views state.views
  same_iff : forall ref copy inst second, Paired machine state ref inst ->
    Paired machine state copy second ->
    (ref.table = copy.table ↔ inst.serial = second.serial) ∧
      (ref.cells = copy.cells ↔ inst.serial = second.serial)
  nextView_eq : machine.nextView = state.ledger.next

/-! ## Registers -/

section Registers

variable {machine : Machine K V} {state : State K V} {name : String}

theorem shows_start (hasher : Hashing.Hasher) :
    Shows (Machine.start : Machine K V) (State.start hasher) where
  builders := Session.matches_empty
  maps := Session.matches_empty
  views := Session.matches_empty
  same_iff := by
    intro ref copy inst second h
    rcases h with ⟨name, href, _⟩
    rw [Machine.start, Std.HashMap.getElem?_empty] at href
    cases href
  nextView_eq := rfl

theorem Shows.dropBuilder (h : Shows machine state) (name : String) :
    Shows (machine.dropBuilder name) (state.dropBuilder name) where
  builders := h.builders.erase name
  maps := h.maps
  views := h.views
  same_iff := h.same_iff
  nextView_eq := h.nextView_eq

theorem Shows.setBuilder {ref : BuilderRef K V} {builder : Builder K V} (h : Shows machine state)
    (href : machine.heap.builder ref = builder) (name : String) :
    Shows (machine.setBuilder name ref) (state.setBuilder name builder) where
  builders := h.builders.insert href name
  maps := h.maps
  views := h.views
  same_iff := h.same_iff
  nextView_eq := h.nextView_eq

theorem Shows.of_dropped {builder : Builder K V}
    (h : Shows machine ((state.dropBuilder name).setBuilder name builder)) :
    Shows machine (state.setBuilder name builder) where
  builders := by
    intro other
    have hother := h.builders other
    show Option.Rel _ _ ((state.builders.insert name builder)[other]?)
    have hsame : ((state.builders.erase name).insert name builder)[other]? =
        (state.builders.insert name builder)[other]? := by
      rw [Std.HashMap.getElem?_insert, Std.HashMap.getElem?_insert, Std.HashMap.getElem?_erase]
      split <;> rfl
    rw [← hsame]
    exact hother
  maps := h.maps
  views := h.views
  same_iff := h.same_iff
  nextView_eq := h.nextView_eq

theorem Shows.setView {ref : ViewRef} {view : View K V} (h : Shows machine state)
    (href : machine.heap.view ref = view) (name : String) :
    Shows (machine.setView name ref) (state.setView name view) where
  builders := h.builders
  maps := h.maps
  views := h.views.insert href name
  same_iff := h.same_iff
  nextView_eq := h.nextView_eq

theorem Shows.dropView (h : Shows machine state) (name : String) :
    Shows (machine.dropView name) (state.dropView name) where
  builders := h.builders
  maps := h.maps
  views := h.views.erase name
  same_iff := h.same_iff
  nextView_eq := h.nextView_eq

theorem Shows.copyMap {ref : MapRef} {inst : Instance K V} (h : Shows machine state)
    (href : machine.maps[name]? = some ref) (hinst : state.maps[name]? = some inst)
    (target : String) :
    Shows (machine.setMap target ref) (state.setMap target inst) where
  builders := h.builders
  maps := h.maps.insert (h.maps.rel href hinst) target
  views := h.views
  same_iff := by
    have hold : forall copy second,
        Paired (machine.setMap target ref) (state.setMap target inst) copy second ->
          Paired machine state copy second := by
      intro copy second hpaired
      rcases paired_setMap hpaired with ⟨rfl, rfl⟩ | hpaired
      · exact ⟨name, href, hinst⟩
      · exact hpaired
    intro ref' copy inst' second hfirst hsecond
    exact h.same_iff ref' copy inst' second (hold ref' inst' hfirst) (hold copy second hsecond)
  nextView_eq := h.nextView_eq

theorem Shows.dropMap (h : Shows machine state) (name : String) :
    Shows (machine.dropMap name) (state.dropMap name) where
  builders := h.builders
  maps := h.maps.erase name
  views := h.views
  same_iff := by
    have hold : forall copy second,
        Paired (machine.dropMap name) (state.dropMap name) copy second ->
          Paired machine state copy second := by
      rintro copy second ⟨other, hcopy, hsecond⟩
      exact ⟨other, (getElem?_erase_eq_some_iff.mp hcopy).2,
        (getElem?_erase_eq_some_iff.mp hsecond).2⟩
    intro ref copy inst second hfirst hsecond
    exact h.same_iff ref copy inst second (hold ref inst hfirst) (hold copy second hsecond)
  nextView_eq := h.nextView_eq

end Registers

/-! ## Writes to free addresses -/

section Writes

variable {machine : Machine K V} {state : State K V} {address : Address}

theorem Shows.writeArena (h : Shows machine state) (hfree : address ∉ machine.arenasHeld)
    (entries : Array (Entry K V)) :
    Shows { machine with heap := machine.heap.writeArena address entries } state := by
  -- What registers refer to is in arenas that are held, and this one is not.
  have htable : forall table, table ∈ machine.tablesHeld ->
      (machine.heap.writeArena address entries).map table = machine.heap.map table := by
    intro table hmem
    have hne : (machine.heap.tables table).arena? ≠ some address :=
      fun harena => hfree (arena_mem_of_table hmem harena)
    exact Heap.map_writeArena_of_ne hne entries
  refine ⟨?_, ?_, ?_, h.same_iff, h.nextView_eq⟩
  · apply h.builders.mono
    rintro name ref builder href _ rfl
    have hne : ref.arena ≠ address := by
      rintro rfl
      exact hfree (arena_mem_of_builder href)
    exact Heap.builder_writeArena_of_ne hne entries
  · apply h.maps.mono
    intro name ref inst href _ hstands
    exact ⟨(htable ref.table (table_mem_of_map href)).trans hstands.map_eq, hstands.view_eq,
      hstands.table_eq⟩
  · apply h.views.mono
    rintro name ref view href _ rfl
    rw [Heap.view, Heap.view, htable ref.table (table_mem_of_view href)]

theorem Shows.writeTable (h : Shows machine state) (hfree : address ∉ machine.tablesHeld)
    (table : Table K V) :
    Shows { machine with heap := machine.heap.writeTable address table } state := by
  have htable : forall other, other ∈ machine.tablesHeld ->
      (machine.heap.writeTable address table).map other = machine.heap.map other := by
    intro other hmem
    have hne : other ≠ address := by
      rintro rfl
      exact hfree hmem
    exact Heap.map_writeTable_of_ne hne table
  refine ⟨h.builders, ?_, ?_, h.same_iff, h.nextView_eq⟩
  · apply h.maps.mono
    intro name ref inst href _ hstands
    exact ⟨(htable ref.table (table_mem_of_map href)).trans hstands.map_eq, hstands.view_eq,
      hstands.table_eq⟩
  · apply h.views.mono
    rintro name ref view href _ rfl
    rw [Heap.view, Heap.view, htable ref.table (table_mem_of_view href)]

theorem Shows.writeCells (h : Shows machine state) (hfree : address ∉ machine.cellsHeld)
    (cells : ViewKind -> Option Cell) :
    Shows { machine with heap := machine.heap.writeCells address cells } state := by
  refine ⟨h.builders, ?_, h.views, h.same_iff, h.nextView_eq⟩
  apply h.maps.mono
  intro name ref inst href _ hstands
  have hsame : (machine.heap.writeCells address cells).cells ref.cells =
      machine.heap.cells ref.cells := by
    apply Heap.cells_writeCells_of_ne
    rintro rfl
    exact hfree (cells_mem_of_map href)
  refine ⟨hstands.map_eq, ?_, ?_⟩
  · rw [hsame]
    exact hstands.view_eq
  · rw [hsame]
    exact hstands.table_eq

end Writes
end Memory
end SealedMap
