import Mathlib.Data.Fintype.EquivFin
import Mathlib.Data.Nat.Find
import SealedMap.Proofs.MemoryReads
import SealedMap.Proofs.SharedArenas

/-!
# Acting on memory shows acting on values

Every action leads a machine that shows a state to one that shows the next state,
whatever addresses are chosen.  So no write, no takeover of an arena, no sharing
of one and no reuse of an address is seen through another reference.
-/

namespace SealedMap
namespace Memory

open Session (Action Instance Matches State View ViewKind ViewLedger getElem?_insert_eq_some_iff)

variable {K V : Type} [BEq K] [Hashable K] [BEq V] [Hashable V]
  {machine : Machine K V} {state : State K V}

/-! ## Builders -/

section Builders

variable {ref copy : BuilderRef K V} {builder appended : Builder K V}

theorem Shows.giveArena {arena : Address} (h : Shows machine state)
    (hfree : arena ∉ machine.arenasHeld) (entries : Array (Entry K V)) (name : String)
    (order : Option (ValueOrder V)) (hash : K -> UInt64) :
    Shows ({ machine with heap := machine.heap.writeArena arena entries }.setBuilder name
        ⟨arena, order, hash⟩)
      (state.setBuilder name ⟨entries, order, hash⟩) := by
  have href : (machine.heap.writeArena arena entries).builder ⟨arena, order, hash⟩ =
      ⟨entries, order, hash⟩ :=
    Heap.builder_writeArena_self machine.heap ⟨arena, order, hash⟩ entries
  exact (h.writeArena hfree entries).setBuilder href name

theorem Shows.append (h : Shows machine state) (href : machine.heap.builder ref = builder)
    (allocator : Allocator) (name : String) (entries : Array (Entry K V)) :
    Shows (machine.append allocator name ref entries)
      (state.setBuilder name { builder with entries := builder.entries ++ entries }) := by
  subst href
  have hfree := ownArena_notMem allocator machine name ref.arena
  exact ((h.dropBuilder name).giveArena hfree _ name ref.order ref.hash).of_dropped

theorem Shows.newBuilder (h : Shows machine state) (allocator : Allocator) (name : String)
    (hash : K -> UInt64) (pairs : List (K × V)) :
    Shows (machine.newBuilder allocator name hash pairs)
      (state.setBuilder name (Builder.ofList hash pairs)) := by
  have hfree := freshArena_notMem allocator machine
  have hgiven := h.giveArena hfree (pairs.map Entry.ofPair).toArray name none hash
  have hlist : Builder.ofList hash pairs = ⟨(pairs.map Entry.ofPair).toArray, none, hash⟩ := by
    rw [← Builder.entries_ofList hash pairs]
    rfl
  rw [hlist]
  exact hgiven

theorem Shows.appendBuilder (h : Shows machine state)
    (href : machine.heap.builder ref = builder) (hcopy : machine.heap.builder copy = appended)
    (allocator : Allocator) (name : String) :
    Shows (machine.appendBuilder allocator name ref copy)
      (state.setBuilder name (builder.combine appended)) := by
  subst href hcopy
  unfold Machine.appendBuilder Builder.combine Builder.isEmpty
  dsimp only
  show Shows _ (state.setBuilder name (if (machine.heap.arenas ref.arena).isEmpty then _
    else if (machine.heap.arenas copy.arena).isEmpty then _ else _))
  split
  next => exact h.setBuilder rfl name
  next =>
    split
    next => exact h.setBuilder rfl name
    next => exact h.append rfl allocator name _

end Builders

/-! ## Maps -/

section Maps

variable {arena : Address} {map : Map K V}

theorem Shows.addMap (h : Shows machine state) (hsound : state.Sound)
    (harena : machine.heap.arenas arena = map.entries) (allocator : Allocator)
    (target : String) :
    Shows (machine.addMap allocator target arena map) (state.addMap target map) := by
  have htable := allocator.fresh_notMem machine.time .tables machine.tablesHeld
  have hcells := allocator.fresh_notMem machine.time .cells machine.cellsHeld
  have hwritten := (h.writeTable htable (.ofMap arena map)).writeCells hcells fun _ => none
  unfold Machine.addMap
  generalize allocator.fresh machine.time .tables machine.tablesHeld = table at *
  generalize allocator.fresh machine.time .cells machine.cellsHeld = cells at *
  have hstands : Stands ((machine.heap.writeTable table (.ofMap arena map)).writeCells cells
      fun _ => none) state.ledger ⟨table, cells⟩ ⟨map, state.nextSerial⟩ := by
    refine ⟨?_, ?_, ?_⟩
    · exact (Heap.map_writeTable_self machine.heap table _).trans (Table.read_ofMap harena)
    · intro kind
      rw [Heap.cells_writeCells_self, hsound.known?_nextSerial]
      rfl
    · intro kind cell hcell
      rw [Heap.cells_writeCells_self] at hcell
      cases hcell
  refine ⟨hwritten.builders, hwritten.maps.insert hstands target, hwritten.views, ?_,
    hwritten.nextView_eq⟩
  have hne : forall ref inst, Paired machine state ref inst ->
      ref.table ≠ table ∧ ref.cells ≠ cells ∧ inst.serial ≠ state.nextSerial := by
    rintro ref inst ⟨name, href, hinst⟩
    refine ⟨?_, ?_, Nat.ne_of_lt (hsound.serial_lt name inst hinst)⟩
    · rintro rfl
      exact htable (table_mem_of_map href)
    · rintro rfl
      exact hcells (cells_mem_of_map href)
  intro ref copy inst second hfirst hsecond
  rcases paired_setMap hfirst with ⟨rfl, rfl⟩ | hfirst
  · rcases paired_setMap hsecond with ⟨rfl, rfl⟩ | hsecond
    · exact ⟨iff_of_true rfl rfl, iff_of_true rfl rfl⟩
    · rcases hne copy second hsecond with ⟨htables, hcellses, hserials⟩
      exact ⟨iff_of_false htables.symm hserials.symm, iff_of_false hcellses.symm hserials.symm⟩
  · rcases paired_setMap hsecond with ⟨rfl, rfl⟩ | hsecond
    · rcases hne ref inst hfirst with ⟨htables, hcellses, hserials⟩
      exact ⟨iff_of_false htables hserials, iff_of_false hcellses hserials⟩
    · exact h.same_iff ref copy inst second hfirst hsecond

theorem Shows.addOwnMap (h : Shows machine state) (hsound : state.Sound) (allocator : Allocator)
    (target : String) (map : Map K V) :
    Shows (machine.addOwnMap allocator target map) (state.addMap target map) := by
  have hwritten := h.writeArena (freshArena_notMem allocator machine) map.entries
  exact hwritten.addMap hsound (write_self _ _ _) allocator target

theorem Shows.dropIf (h : Shows machine state) (name : String) (consuming : Bool) :
    Shows (if consuming then machine.dropBuilder name else machine)
      (if consuming then state.dropBuilder name else state) := by
  cases consuming with
  | true => exact h.dropBuilder name
  | false => exact h

/-- Where the builder's arena is shared, it has the entries of the map. -/
theorem Shows.build {ref : BuilderRef K V} (h : Shows machine state) (hsound : state.Sound)
    (allocator : Allocator) (name target : String) (building : Session.Building K V)
    (consuming : Bool) :
    Shows (machine.build allocator name ref target building consuming)
      (state.buildFrom name (machine.heap.builder ref) target building consuming).state := by
  have hleft := h.dropIf name consuming
  have hleftSound := hsound.dropIf name consuming
  unfold Machine.build State.buildFrom
  dsimp only
  cases houtcome : (building.construct (machine.heap.builder ref)).outcome with
  | error refusal => exact hleft
  | ok map =>
      dsimp only
      split
      next => exact hleft.addOwnMap hleftSound allocator target map
      next hshared =>
        rw [Bool.or_eq_true, Bool.or_eq_true, not_or, not_or] at hshared
        rcases hshared with ⟨⟨hconsuming, horder⟩, hresolves⟩
        have hnone : (machine.heap.builder ref).order = none := by
          rwa [Bool.not_eq_true, Option.isSome_eq_false_iff, Option.isNone_iff_eq_none] at horder
        have hentries := Construction.retains_building building hnone map houtcome
          (Bool.eq_false_iff.mpr hresolves)
        rw [Bool.eq_false_iff.mpr hconsuming] at hleft hleftSound ⊢
        exact hleft.addMap hleftSound hentries.symm allocator target

end Maps

/-! ## Views -/

section Views

variable {ref : MapRef} {inst : Instance K V} {kind : ViewKind} {after : ViewLedger}

theorem Shows.fill (h : Shows machine state) (hpaired : Paired machine state ref inst)
    (hsettles : state.ledger.Settles after inst.serial kind) :
    Shows (machine.fill ref kind) { state with ledger := after } := by
  rcases hpaired with ⟨name, href, hinst⟩
  have hview := (h.maps.rel href hinst).view_eq kind
  unfold Machine.fill
  cases hcell : machine.heap.cells ref.cells kind with
  | some cell =>
      rw [hcell, Option.map_some] at hview
      refine ⟨h.builders, ?_, h.views, h.same_iff, ?_⟩
      · apply h.maps.mono
        intro other copy second _ _ hold
        exact hold.settle hsettles hview.symm
      · show machine.nextView = after.next
        rw [hsettles.next_eq, ← hview, h.nextView_eq]
        rfl
  | none =>
      rw [hcell, Option.map_none] at hview
      refine ⟨h.builders, ?_, h.views, h.same_iff, ?_⟩
      · apply h.maps.mono
        intro other copy second hcopy hsecond hold
        have hsame := h.same_iff copy ref second inst ⟨other, hcopy, hsecond⟩ ⟨name, href, hinst⟩
        rw [h.nextView_eq]
        exact hold.fillCell hsettles hview.symm hsame
      · show machine.nextView + 1 = after.next
        rw [hsettles.next_eq, ← hview, h.nextView_eq]
        rfl

theorem Shows.access (h : Shows machine state) (hsound : state.Sound)
    (hpaired : Paired machine state ref inst) (kind : ViewKind) :
    Shows (machine.access ref kind) (state.handOut inst kind) := by
  by_cases hkind : kind = .inverse
  · subst hkind
    have hne : ViewKind.multi ≠ .inverse := nofun
    have hmulti := ViewLedger.settles_request_instance hsound.ledger inst.serial hne
    have hinverse := ViewLedger.settles_request_multimap
      (hsound.ledger.request_instance inst.serial .multi)
      (ViewLedger.known?_multi_request state.ledger inst.serial)
    have hfilled := h.fill hpaired hmulti
    apply hfilled.fill _ hinverse
    rcases hpaired with ⟨name, href, hinst⟩
    exact ⟨name, (Machine.maps_fill machine ref .multi).symm ▸ href, hinst⟩
  · have hsettles := ViewLedger.settles_request_instance hsound.ledger inst.serial hkind
    rw [← ViewLedger.view_eq_of_ne_inverse state.ledger inst.serial hkind] at hsettles
    rw [Machine.access_of_ne_inverse machine ref hkind]
    exact h.fill hpaired hsettles

theorem Shows.exists_cell (h : Shows machine state) (hsound : state.Sound)
    (hpaired : Paired machine state ref inst) (kind : ViewKind) :
    exists cell, (machine.access ref kind).heap.cells ref.cells kind = some cell ∧
      cell.view = (state.ledger.view inst.serial kind).1 ∧ cell.table = ref.table := by
  have haccess := h.access hsound hpaired kind
  rcases hpaired with ⟨name, href, hinst⟩
  have hstands := haccess.maps.rel ((Machine.maps_access machine ref kind).symm ▸ href) hinst
  have hview := hstands.view_eq kind
  rw [State.handOut, ViewLedger.known?_view_self, Option.map_eq_some_iff] at hview
  rcases hview with ⟨cell, hcell, hnumber⟩
  exact ⟨cell, hcell, hnumber, hstands.table_eq kind cell hcell⟩

theorem Shows.ownView (h : Shows machine state) (hsound : state.Sound)
    (hpaired : Paired machine state ref inst) (kind : ViewKind) (target : String) :
    Shows (machine.ownView ref kind target)
      ((state.handOut inst kind).setView target (.ofMap inst.map kind)) := by
  have haccess := h.access hsound hpaired kind
  rcases h.exists_cell hsound hpaired kind with ⟨cell, hcell, _, htable⟩
  rcases hpaired with ⟨name, href, hinst⟩
  have hstands := haccess.maps.rel ((Machine.maps_access machine ref kind).symm ▸ href) hinst
  unfold Machine.ownView
  dsimp only
  rw [hcell]
  apply haccess.setView
  show View.ofMap ((machine.access ref kind).heap.map cell.table) kind = _
  rw [htable, hstands.map_eq]

theorem Shows.handed?_eq (h : Shows machine state) (hsound : state.Sound) (name : String)
    (kind : ViewKind) :
    machine.handed? name kind = state.handed? name kind := by
  unfold Machine.handed? State.handed?
  cases href : machine.maps[name]? with
  | none =>
      rw [h.maps.right_none href]
      rfl
  | some ref =>
      rcases h.maps.exists_right href with ⟨inst, hinst, _⟩
      rcases h.exists_cell hsound ⟨name, href, hinst⟩ kind with ⟨cell, hcell, hnumber, _⟩
      rw [hinst, Option.bind_some, Option.map_some, hcell, Option.map_some, hnumber]

theorem Shows.same_eq (h : Shows machine state) {copy : MapRef} {second : Instance K V}
    (hpaired : Paired machine state ref inst) (hother : Paired machine state copy second) :
    machine.same ref copy = inst.same second := by
  have hsame := (h.same_iff ref copy inst second hpaired hother).1
  rcases hpaired with ⟨name, href, hinst⟩
  rcases hother with ⟨other, hcopy, hsecond⟩
  unfold Machine.same Instance.same
  rw [(h.maps.rel href hinst).map_eq, (h.maps.rel hcopy hsecond).map_eq,
    Bool.eq_iff_iff.mpr (beq_iff_eq.trans (hsame.trans beq_iff_eq.symm))]

theorem Shows.same?_eq (h : Shows machine state) (name other : String) :
    machine.same? name other = state.same? name other := by
  unfold Machine.same? State.same?
  cases href : machine.maps[name]? with
  | none =>
      rw [h.maps.right_none href]
      rfl
  | some ref =>
      rcases h.maps.exists_right href with ⟨inst, hinst, _⟩
      rw [hinst, Option.bind_some, Option.bind_some]
      cases hcopy : machine.maps[other]? with
      | none =>
          rw [h.maps.right_none hcopy]
          rfl
      | some copy =>
          rcases h.maps.exists_right hcopy with ⟨second, hsecond, _⟩
          rw [hsecond, Option.map_some, Option.map_some,
            h.same_eq ⟨name, href, hinst⟩ ⟨other, hcopy, hsecond⟩]

end Views

/-! ## Registers -/

theorem Shows.builder?_eq (h : Shows machine state) (name : String) :
    machine.builder? name = state.builders[name]? :=
  h.builders.map_eq name

theorem Shows.map?_eq (h : Shows machine state) (name : String) :
    machine.map? name = state.maps[name]?.map Instance.map := by
  have hmaps : Matches (fun ref inst => machine.heap.map ref.table = inst.map) machine.maps
      state.maps :=
    h.maps.mono fun _ _ _ _ _ hstands => hstands.map_eq
  exact hmaps.map_eq_map name

theorem Shows.view?_eq (h : Shows machine state) (name : String) :
    machine.view? name = state.views[name]? :=
  h.views.map_eq name

/-! ## Actions -/

theorem Shows.through {α β : Type} {R : α -> β -> Prop} {refs : Session.Registers α}
    {registers : Session.Registers β} {name : String} {use : α -> Machine K V}
    {useValue : β -> Session.Effect K V} (h : Shows machine state)
    (hmatches : Matches R refs registers)
    (huse : forall ref held, refs[name]? = some ref -> registers[name]? = some held ->
      R ref held -> Shows (use ref) (useValue held).state) :
    Shows (machine.through refs[name]? use) (state.through registers[name]? useValue).state := by
  cases href : refs[name]? with
  | none =>
      rw [hmatches.right_none href]
      exact h
  | some ref =>
      rcases hmatches.exists_right href with ⟨held, hheld, hrel⟩
      rw [hheld]
      exact huse ref held href hheld hrel

theorem Shows.perform (h : Shows machine state) (hsound : state.Sound) (allocator : Allocator)
    (action : Action K V) :
    Shows (machine.perform allocator action) (state.act action).state := by
  cases action with
  | newBuilder name hash pairs => exact h.newBuilder allocator name hash pairs
  | put name putting =>
      apply h.through h.builders
      intro ref builder _ _ hbuilder
      rw [Session.Putting.into_eq]
      cases putting.entries? with
      | ok entries =>
          have hput : builder.putEntries entries =
              { builder with entries := builder.entries ++ entries.toArray } := by
            rw [← Builder.entries_putEntries]
            rfl
          show Shows _ (state.setBuilder name (builder.putEntries entries))
          rw [hput]
          exact h.append hbuilder allocator name entries.toArray
      | error refusal => exact h
  | combine name other =>
      apply h.through h.builders
      intro ref builder _ _ hbuilder
      apply h.through h.builders
      intro copy appended _ _ happended
      exact (h.dropBuilder other).appendBuilder hbuilder happended allocator name
  | cloneBuilder name target =>
      apply h.through h.builders
      intro ref builder _ _ hbuilder
      exact h.setBuilder hbuilder target
  | order name order =>
      apply h.through h.builders
      rintro ref builder _ _ rfl
      unfold Builder.orderByValue
      cases horder : ref.order with
      | some first =>
          have hsome : (machine.heap.builder ref).order = some first := horder
          rw [hsome]
          exact h
      | none =>
          have hnone : (machine.heap.builder ref).order = none := horder
          rw [hnone]
          exact h.setBuilder rfl name
  | build name target building consuming =>
      apply h.through h.builders
      rintro ref builder href hbuilder rfl
      exact h.build hsound allocator name target building consuming
  | dropBuilder name => exact h.dropBuilder name
  | make target map => exact h.addOwnMap hsound allocator target map
  | cloneMap name target =>
      apply h.through h.maps
      intro ref inst href hinst _
      exact h.copyMap href hinst target
  | dropMap name => exact h.dropMap name
  | mutate name mutation =>
      rw [State.state_act_mutate]
      exact h
  | access name kind =>
      apply h.through h.maps
      intro ref inst href hinst _
      exact h.access hsound ⟨name, href, hinst⟩ kind
  | ownView name kind target =>
      apply h.through h.maps
      intro ref inst href hinst _
      exact h.ownView hsound ⟨name, href, hinst⟩ kind target
  | cloneView name target =>
      apply h.through h.views
      intro ref view _ _ hview
      exact h.setView hview target
  | dropView name => exact h.dropView name

theorem Shows.act (h : Shows machine state) (hsound : state.Sound) (allocator : Allocator)
    (action : Action K V) :
    Shows (machine.act allocator action) (state.act action).state := by
  have hperform := h.perform hsound allocator action
  exact ⟨hperform.builders, hperform.maps, hperform.views, hperform.same_iff,
    hperform.nextView_eq⟩

theorem Shows.actAll (h : Shows machine state) (hsound : state.Sound) (allocator : Allocator)
    (actions : List (Action K V)) :
    Shows (machine.actAll allocator actions) (state.actAll actions) := by
  induction actions generalizing machine state with
  | nil => exact h
  | cons action rest ih => exact ih (h.act hsound allocator action) (hsound.act action)

/-- From the start on, memory shows the registers whichever addresses are chosen. -/
theorem shows_run (hasher : Hashing.Hasher) (allocator : Allocator)
    (actions : List (Action K V)) :
    Shows ((Machine.start : Machine K V).actAll allocator actions)
      ((State.start hasher).actAll actions) :=
  (shows_start hasher).actAll (State.sound_start hasher) allocator actions

/-! ## Using addresses again -/

theorem exists_free (held : List Address) :
    exists address : Address, address ∉ held := by
  rcases Infinite.exists_notMem_finset held.toFinset with ⟨address, hfree⟩
  exact ⟨address, fun hmem => hfree (List.mem_toFinset.mpr hmem)⟩

def lowestFree : Allocator where
  fresh _ _ held := Nat.find (exists_free held)
  fresh_notMem _ _ held := Nat.find_spec (exists_free held)

end Memory
end SealedMap
