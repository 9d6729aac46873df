import SealedMap.Proofs.BuilderLogs
import SealedMap.Proofs.Exactness
import SealedMap.Proofs.HandedViews
import SealedMap.Proofs.Lineages
import SealedMap.Proofs.MapEquality
import SealedMap.Proofs.MemoryRuns

/-!
# Instances over a run

Two registers hold the same instance exactly if their maps stem from the same
construction.  They refer to one table and to one set of cells then, and are handed
out the same views, whatever copies were dropped or overwritten in between.  Empty
maps count as the same map, but their views are told apart.
-/

namespace SealedMap

namespace Map

variable {K V : Type} [BEq K] [Hashable K] [BEq V] {left right : Map K V}

theorem beq_of_isEmpty (hleft : left.isEmpty = true) (hright : right.isEmpty = true) :
    (left == right) = true := by
  have hnil : left.entries = #[] := Array.eq_empty_of_size_eq_zero (beq_iff_eq.mp hleft)
  have hsize : left.size = right.size :=
    (beq_iff_eq.mp hleft).trans (beq_iff_eq.mp hright).symm
  rw [beq_def, beq, hnil, Bool.and_eq_true, Array.all_eq_true_iff_forall_mem]
  exact ⟨beq_iff_eq.mpr hsize, fun entry hmem => absurd hmem (Array.not_mem_empty entry)⟩

theorem beq_self_of_values [EquivBEq K] (hexact : left.layout.Exact)
    (hvalues : forall value, value ∈ left.values -> (value == value) = true) :
    (left == left) = true := by
  rw [beq_iff_same hexact hexact, sameAssociations_self_iff hexact]
  intro entry hmem
  exact hvalues entry.value (List.mem_map_of_mem (Array.mem_toList_iff.mpr hmem))

end Map

namespace Session

open Memory (Allocator Machine MapRef lowestFree)

variable {K V : Type} [BEq K] [Hashable K]

/-! ## Constructed maps -/

/-- Hash functions respect equality, and a map that is made has been constructed with one. -/
def Action.Lawful : Action K V -> Prop
  | .newBuilder _ hash _ => forall a b, (a == b) = true -> hash a = hash b
  | .make _ map => exists hash entries,
      (forall a b, (a == b) = true -> hash a = hash b) ∧
        Construction.Constructed hash entries map
  | _ => True

section Exact

variable {start : State K V} {actions : List (Action K V)} {name : String}
  {builder : Builder K V} {map : Map K V} {time : Nat} {inst : Instance K V}

theorem constructed_building {building : Building K V}
    (h : (building.construct builder).outcome = .ok map) :
    Construction.Constructed builder.hash builder.entries map := by
  cases building with
  | under policy state => exact .construct h
  | keyed =>
      rw [Building.construct, Builder.buildKeyed] at h
      cases horder : builder.order with
      | some order =>
          rw [horder] at h
          cases h
      | none =>
          rw [horder] at h
          exact .constructKeyed h

variable [BEq V] [Hashable V]

theorem hash_respects (hstart : forall name : String, start.builders[name]? = none)
    (hlawful : forall action, action ∈ actions -> action.Lawful)
    (h : (start.actAll actions).builders[name]? = some builder) (a b : K)
    (heq : (a == b) = true) :
    builder.hash a = builder.hash b := by
  induction hlength : actions.length using Nat.strong_induction_on
    generalizing actions name builder with
  | h length ih =>
    rcases exists_logged hstart h with ⟨before, opening, since, origin, rfl, hlogged⟩
    rw [hlogged.hash_eq]
    have hlt : before.length < length := by
      rw [← hlength, List.length_append, List.length_cons]
      omega
    have hbefore : forall action, action ∈ before -> action.Lawful :=
      fun action hmem => hlawful action (List.mem_append_left _ hmem)
    cases hlogged.opens with
    | made => exact hlawful _ (List.mem_append_right _ List.mem_cons_self) a b heq
    -- A copied builder hashes as the one it was copied from, which was opened before.
    | cloned hsource => exact ih before.length hlt hbefore hsource rfl

theorem Born.exact [EquivBEq K] [LawfulHashable K]
    (hstart : forall name : String, start.builders[name]? = none)
    (hlawful : forall action, action ∈ actions -> action.Lawful)
    (h : Born start actions time inst) :
    inst.map.layout.Exact := by
  rcases h.made with ⟨action, target, haction, hmakes⟩
  cases hmakes with
  | built hbuilder houtcome =>
      have htake : forall action, action ∈ actions.take time -> action.Lawful :=
        fun action hmem => hlawful action (List.mem_of_mem_take hmem)
      exact (constructed_building houtcome).exact (hash_respects hstart htake hbuilder)
  | made =>
      rcases hlawful _ (List.mem_of_getElem? haction) with ⟨_, _, hhash, hconstructed⟩
      exact hconstructed.exact hhash

end Exact

/-! ## Identity -/

section Identity

variable {start : State K V} {actions : List (Action K V)} {name other : String}
  {inst copy third : Instance K V} {time later : Nat}

theorem same_iff : inst.same copy = true ↔
    inst.serial = copy.serial ∨ (inst.map.isEmpty = true ∧ copy.map.isEmpty = true) := by
  rw [Instance.same, Bool.or_eq_true, Bool.and_eq_true, beq_iff_eq]

theorem same?_iff {state : State K V} : state.same? name other = some true ↔
    exists inst copy, state.maps[name]? = some inst ∧ state.maps[other]? = some copy ∧
      inst.same copy = true := by
  unfold State.same?
  cases hinst : state.maps[name]? with
  | none => simp
  | some inst =>
      cases hcopy : state.maps[other]? with
      | none => simp
      | some copy => simp

theorem same_symm (h : inst.same copy = true) : copy.same inst = true := by
  rw [same_iff] at h ⊢
  exact h.imp Eq.symm And.symm

theorem same_trans {state : State K V} (hsound : state.Sound)
    {name other last : String} (hinst : state.maps[name]? = some inst)
    (hcopy : state.maps[other]? = some copy) (hthird : state.maps[last]? = some third)
    (h : inst.same copy = true) (hnext : copy.same third = true) :
    inst.same third = true := by
  rw [same_iff] at h hnext ⊢
  -- One serial number belongs to one map, which is empty in both registers or in neither.
  rcases h with hserial | ⟨hempty, _⟩
  · rwa [hsound.map_eq name other inst copy hinst hcopy hserial]
  · rcases hnext with hserial | ⟨_, hthirdEmpty⟩
    · have heq := hsound.map_eq other last copy third hcopy hthird hserial
      subst heq
      exact Or.inr ⟨hempty, by assumption⟩
    · exact Or.inr ⟨hempty, hthirdEmpty⟩

theorem beq_of_same [BEq V] [EquivBEq K] {state : State K V} (hsound : state.Sound)
    (hinst : state.maps[name]? = some inst) (hcopy : state.maps[other]? = some copy)
    (hexact : inst.map.layout.Exact) (h : inst.same copy = true)
    (hvalues : forall value, value ∈ inst.map.values -> (value == value) = true) :
    (inst.map == copy.map) = true := by
  rcases same_iff.mp h with hserial | ⟨hempty, hcopyEmpty⟩
  · rw [← hsound.map_eq name other inst copy hinst hcopy hserial]
    exact Map.beq_self_of_values hexact hvalues
  · exact Map.beq_of_isEmpty hempty hcopyEmpty

end Identity

/-! ## Runs -/

section Runs

theorem maps_start (hasher : Hashing.Hasher) (name : String) :
    (State.start hasher : State K V).maps[name]? = none :=
  Std.HashMap.getElem?_empty

variable [BEq V] [Hashable V] {hasher : Hashing.Hasher} {actions : List (Action K V)}
  {name other : String} {kind : ViewKind} {time later : Nat}

theorem isSome_map?_iff (hasher : Hashing.Hasher) (allocator : Allocator)
    (actions : List (Action K V)) (name : String) :
    ((Machine.start.actAll allocator actions).map? name).isSome = true ↔
      exists time, Stems (.start hasher) actions name time := by
  rw [(Memory.shows_run hasher allocator actions).map?_eq, Option.isSome_map,
    Option.isSome_iff_exists]
  constructor
  · intro h
    rcases h with ⟨inst, hinst⟩
    exact exists_stems (maps_start hasher) hinst
  · intro h
    rcases h with ⟨time, hstems⟩
    rcases hstems.exists_born with ⟨inst, hinst, _⟩
    exact ⟨inst, hinst⟩

theorem addresses_eq_iff (allocator : Allocator) (h : Stems (.start hasher) actions name time)
    (hother : Stems (.start hasher) actions other later) {ref copy : MapRef}
    (href : (Machine.start.actAll allocator actions).maps[name]? = some ref)
    (hcopy : (Machine.start.actAll allocator actions).maps[other]? = some copy) :
    (ref.table = copy.table ↔ time = later) ∧ (ref.cells = copy.cells ↔ time = later) := by
  rcases h.exists_born with ⟨inst, hinst, hborn⟩
  rcases hother.exists_born with ⟨second, hsecond, hsecondBorn⟩
  have hshows := Memory.shows_run hasher allocator actions
  rw [← hborn.serial_eq_iff hsecondBorn]
  exact hshows.same_iff ref copy inst second ⟨name, href, hinst⟩ ⟨other, hcopy, hsecond⟩

theorem handed?_run {inst : Instance K V} (allocator : Allocator)
    (h : ((State.start hasher).actAll actions).maps[name]? = some inst) (kind : ViewKind) :
    (Machine.start.actAll allocator actions).handed? name kind =
      some (((State.start hasher).actAll actions).ledger.view inst.serial kind).1 := by
  have hsound := (State.sound_start hasher).actAll actions
  rw [(Memory.shows_run hasher allocator actions).handed?_eq hsound, State.handed?_of_live h]

/-- A view that was handed out is recognised however the run goes on. -/
theorem exists_handed {asking : Action K V} (allocator : Allocator)
    (h : Stems (.start hasher) actions name time) (hasks : Asks asking name kind) :
    exists number, (Machine.start.actAll allocator actions).handed? name kind = some number ∧
      forall rest other later otherKind,
        Stems (.start hasher) (actions ++ asking :: rest) other later ->
          exists hand,
            (Machine.start.actAll allocator (actions ++ asking :: rest)).handed? other otherKind =
              some hand ∧
            (number = hand ↔ time = later ∧ kind = otherKind) := by
  rcases h.exists_born with ⟨inst, hinst, hborn⟩
  refine ⟨_, handed?_run allocator hinst kind, ?_⟩
  intro rest other later otherKind hother
  rcases hother.exists_born with ⟨copy, hcopy, hcopyBorn⟩
  refine ⟨_, handed?_run allocator hcopy otherKind, ?_⟩
  have hsound := (State.sound_start hasher).actAll actions
  rw [State.actAll_append, State.actAll_cons] at hcopy ⊢
  have hiff := State.handed?_iff hsound hinst hasks hcopy otherKind
  rw [State.handed?_of_live hinst, State.handed?_of_live hcopy, Option.some_inj] at hiff
  rw [hiff, (hborn.append _).serial_eq_iff hcopyBorn]

theorem handed?_ne (allocator : Allocator) (h : Stems (.start hasher) actions name time)
    (hother : Stems (.start hasher) actions other later) (hne : time ≠ later) (kind : ViewKind) :
    (Machine.start.actAll allocator (actions ++ [.access name kind])).handed? other kind ≠
      (Machine.start.actAll allocator actions).handed? name kind := by
  rcases exists_handed allocator h .access with ⟨number, hnumber, hlater⟩
  have hkept : Stems (.start hasher) (actions ++ [.access name kind]) other later :=
    .kept hother (not_overwrites nofun)
  rcases hlater [] other later kind hkept with ⟨hand, hhand, hiff⟩
  rw [hnumber, hhand]
  intro heq
  exact hne (hiff.mp (Option.some.inj heq).symm).1

theorem same?_run (allocator : Allocator) (h : Stems (.start hasher) actions name time)
    (hother : Stems (.start hasher) actions other later) :
    exists map otherMap, (Machine.start.actAll allocator actions).map? name = some map ∧
      (Machine.start.actAll allocator actions).map? other = some otherMap ∧
      ((Machine.start.actAll allocator actions).same? name other = some true ↔
        time = later ∨ (map.isEmpty = true ∧ otherMap.isEmpty = true)) := by
  rcases h.exists_born with ⟨inst, hinst, hborn⟩
  rcases hother.exists_born with ⟨copy, hcopy, hcopyBorn⟩
  have hshows := Memory.shows_run hasher allocator actions
  refine ⟨inst.map, copy.map, ?_, ?_, ?_⟩
  · rw [hshows.map?_eq, hinst, Option.map_some]
  · rw [hshows.map?_eq, hcopy, Option.map_some]
  · rw [hshows.same?_eq, State.same?, hinst, hcopy, Option.bind_some, Option.map_some,
      Option.some_inj, same_iff, hborn.serial_eq_iff hcopyBorn]

end Runs

/--
After any actions, wherever memory is shared, every register in use has a map that
stems from one construction.  Two registers refer to one table and to one set of
cells exactly if theirs is the same construction.  A view that is handed out is
handed out later on exactly where the construction and the kind are the same,
whatever was done in between.  Two registers refer to the same map exactly if the
construction is the same or both maps are empty, which is an equivalence and, if
hash functions respect equality, makes the maps equal as soon as every value is
equal to itself.  Empty maps that were constructed apart are the same map with
views of their own.
-/
theorem identity_is_lineage [BEq V] [Hashable V] [EquivBEq K] [LawfulHashable K]
    (hasher : Hashing.Hasher) (allocator : Allocator) (actions : List (Action K V)) :
    let start : State K V := .start hasher
    let machine := (Machine.start : Machine K V).actAll allocator actions
    (forall name, (machine.map? name).isSome = true ↔ exists time, Stems start actions name time) ∧
    (forall name time later, Stems start actions name time -> Stems start actions name later ->
      time = later) ∧
    (forall name other time later, Stems start actions name time ->
      Stems start actions other later ->
        (forall ref copy, machine.maps[name]? = some ref -> machine.maps[other]? = some copy ->
          (ref.table = copy.table ↔ time = later) ∧ (ref.cells = copy.cells ↔ time = later)) ∧
        (exists map otherMap, machine.map? name = some map ∧ machine.map? other = some otherMap ∧
          (machine.same? name other = some true ↔
            time = later ∨ (map.isEmpty = true ∧ otherMap.isEmpty = true)) ∧
          (time ≠ later -> map.isEmpty = true -> otherMap.isEmpty = true ->
            machine.same? name other = some true ∧
              forall kind, ((Machine.start : Machine K V).actAll allocator
                (actions ++ [.access name kind])).handed? other kind ≠
                  machine.handed? name kind))) ∧
    (forall name time asking kind, Stems start actions name time -> Asks asking name kind ->
      exists number, machine.handed? name kind = some number ∧
        forall rest other later otherKind,
          Stems start (actions ++ asking :: rest) other later ->
            exists hand, ((Machine.start : Machine K V).actAll allocator
              (actions ++ asking :: rest)).handed? other otherKind = some hand ∧
              (number = hand ↔ time = later ∧ kind = otherKind)) ∧
    (forall name, (machine.map? name).isSome = true -> machine.same? name name = some true) ∧
    (forall name other, machine.same? name other = some true ->
      machine.same? other name = some true) ∧
    (forall name other last, machine.same? name other = some true ->
      machine.same? other last = some true -> machine.same? name last = some true) ∧
    ((forall action, action ∈ actions -> action.Lawful) ->
      forall name other map otherMap, machine.map? name = some map ->
        machine.map? other = some otherMap -> machine.same? name other = some true ->
          (forall value, value ∈ map.values -> (value == value) = true) ->
            (map == otherMap) = true) := by
  intro start machine
  have hshows := Memory.shows_run hasher allocator actions
  have hsound := (State.sound_start (K := K) (V := V) hasher).actAll actions
  refine ⟨isSome_map?_iff hasher allocator actions, fun _ _ _ h hother => h.time_unique hother,
    ?_, fun _ _ _ _ h hasks => exists_handed allocator h hasks, ?_, ?_, ?_, ?_⟩
  · intro name other time later h hother
    refine ⟨fun ref copy href hcopy => addresses_eq_iff allocator h hother href hcopy, ?_⟩
    rcases same?_run allocator h hother with ⟨map, otherMap, hmap, hotherMap, hiff⟩
    refine ⟨map, otherMap, hmap, hotherMap, hiff, ?_⟩
    intro hne hempty hotherEmpty
    exact ⟨hiff.mpr (Or.inr ⟨hempty, hotherEmpty⟩), handed?_ne allocator h hother hne⟩
  · intro name hlive
    rcases (isSome_map?_iff hasher allocator actions name).mp hlive with ⟨time, hstems⟩
    rcases same?_run allocator hstems hstems with ⟨_, _, _, _, hiff⟩
    exact hiff.mpr (Or.inl rfl)
  · intro name other h
    rw [hshows.same?_eq] at h ⊢
    rcases same?_iff.mp h with ⟨inst, copy, hinst, hcopy, hsame⟩
    exact same?_iff.mpr ⟨copy, inst, hcopy, hinst, same_symm hsame⟩
  · intro name other last h hnext
    rw [hshows.same?_eq] at h hnext ⊢
    rcases same?_iff.mp h with ⟨inst, copy, hinst, hcopy, hsame⟩
    rcases same?_iff.mp hnext with ⟨copy', third, hcopy', hthird, hsame'⟩
    rw [hcopy] at hcopy'
    cases hcopy'
    exact same?_iff.mpr ⟨inst, third, hinst, hthird,
      same_trans hsound hinst hcopy hthird hsame hsame'⟩
  · intro hlawful name other map otherMap hmap hotherMap h hvalues
    rw [hshows.same?_eq] at h
    rcases same?_iff.mp h with ⟨inst, copy, hinst, hcopy, hsame⟩
    rw [hshows.map?_eq, hinst] at hmap
    rw [hshows.map?_eq, hcopy] at hotherMap
    cases hmap
    cases hotherMap
    rcases exists_stems (maps_start hasher) hinst with ⟨time, hstems⟩
    have hexact := (hstems.born hinst).exact (fun _ => Std.HashMap.getElem?_empty) hlawful
    exact beq_of_same hsound hinst hcopy hexact hsame hvalues

/-- The map of two pairs and a copy of it, and two empty maps that are made apart. -/
def copyingRun : List (Action Nat Nat) :=
  [.newBuilder "pairs" UInt64.ofNat [(1, 10), (2, 20)],
    .build "pairs" "full" (.under .reject ()) false, .cloneMap "full" "copy",
    .make "left" (.empty UInt64.ofNat), .make "right" (.empty UInt64.ofNat)]

def droppingRun : List (Action Nat Nat) :=
  copyingRun ++ .access "full" .keys :: [.dropMap "full"]

def fullMap : Map Nat Nat where
  layout :=
    .chained #[⟨1, 10⟩, ⟨2, 20⟩]
      { hash := UInt64.ofNat
        heads := #[some 1, some 0]
        links := #[none, none]
        shift := 63 }
  hash := UInt64.ofNat

theorem outcome_fullMap :
    ((Building.under (.reject : Policy Unit Nat Nat) ()).construct
      (.ofList UInt64.ofNat [(1, 10), (2, 20)])).outcome = .ok fullMap := by
  cbv

theorem stems_copyingRun (hasher : Hashing.Hasher) :
    Stems (.start hasher) copyingRun "full" 1 ∧ Stems (.start hasher) copyingRun "copy" 1 ∧
      Stems (.start hasher) copyingRun "left" 3 ∧ Stems (.start hasher) copyingRun "right" 4 := by
  have hbuilt : Stems (.start hasher)
      ([(.newBuilder "pairs" UInt64.ofNat [(1, 10), (2, 20)] : Action Nat Nat)] ++
        [.build "pairs" "full" (.under .reject ()) false]) "full" 1 :=
    .made (.built Std.HashMap.getElem?_insert_self outcome_fullMap)
  have hcopied : Stems (.start hasher) (_ ++ [.cloneMap "full" "copy"]) "copy" 1 :=
    .copied hbuilt
  have hfull : Stems (.start hasher) (_ ++ [.cloneMap "full" "copy"]) "full" 1 :=
    .kept hbuilt (not_overwrites (by decide))
  have hleft : Stems (.start hasher)
      (copyingRun.take 3 ++ [.make "left" (.empty UInt64.ofNat)]) "left" 3 :=
    .made .made
  have hright : Stems (.start hasher)
      (copyingRun.take 4 ++ [.make "right" (.empty UInt64.ofNat)]) "right" 4 :=
    .made .made
  exact ⟨.kept (.kept hfull (not_overwrites (by decide))) (not_overwrites (by decide)),
    .kept (.kept hcopied (not_overwrites (by decide))) (not_overwrites (by decide)),
    .kept hleft (not_overwrites (by decide)), hright⟩

theorem stems_droppingRun (hasher : Hashing.Hasher) :
    Stems (.start hasher) droppingRun "copy" 1 ∧ Stems (.start hasher) droppingRun "left" 3 := by
  rcases stems_copyingRun hasher with ⟨_, hcopy, hleft, _⟩
  have hcopyAsked : Stems (.start hasher) (copyingRun ++ [.access "full" .keys]) "copy" 1 :=
    .kept hcopy (not_overwrites (by decide))
  have hleftAsked : Stems (.start hasher) (copyingRun ++ [.access "full" .keys]) "left" 3 :=
    .kept hleft (not_overwrites (by decide))
  exact ⟨.kept hcopyAsked (not_overwrites (by decide)),
    .kept hleftAsked (not_overwrites (by decide))⟩

theorem maps_copyingRun (hasher : Hashing.Hasher) :
    ((State.start hasher).actAll copyingRun).maps["full"]? = some ⟨fullMap, 0⟩ ∧
      ((State.start hasher).actAll copyingRun).maps["copy"]? = some ⟨fullMap, 0⟩ ∧
      ((State.start hasher).actAll copyingRun).maps["left"]? = some ⟨.empty UInt64.ofNat, 1⟩ ∧
      ((State.start hasher).actAll copyingRun).maps["right"]? =
        some ⟨.empty UInt64.ofNat, 2⟩ := by
  simp [copyingRun, outcome_fullMap, State.act, State.through, State.buildFrom, State.start,
    State.setBuilder, State.addMap, State.setMap, Std.HashMap.getElem_insert]

theorem lawful_copyingRun (action : Action Nat Nat) (hmem : action ∈ copyingRun) :
    action.Lawful := by
  have hhash : forall a b : Nat, (a == b) = true -> UInt64.ofNat a = UInt64.ofNat b :=
    fun _ _ h => congrArg UInt64.ofNat (beq_iff_eq.mp h)
  simp only [copyingRun, List.mem_cons, List.not_mem_nil, or_false] at hmem
  rcases hmem with rfl | rfl | rfl | rfl | rfl
  · exact hhash
  · exact trivial
  · exact trivial
  · exact ⟨_, _, hhash, Construction.constructed_empty UInt64.ofNat⟩
  · exact ⟨_, _, hhash, Construction.constructed_empty UInt64.ofNat⟩

theorem identity_is_lineage_copyingRun :
    let machine := Machine.start.actAll lowestFree copyingRun
    let later := Machine.start.actAll lowestFree droppingRun
    (forall action, action ∈ copyingRun -> action.Lawful) ∧
      machine.same? "full" "copy" = some true ∧
      machine.same? "copy" "left" ≠ some true ∧
      machine.same? "left" "right" = some true ∧
      machine.map? "copy" = some fullMap ∧ (fullMap == fullMap) = true ∧
      exists number hand, machine.handed? "full" .keys = some number ∧
        later.handed? "copy" .keys = some number ∧ later.handed? "left" .keys = some hand ∧
          number ≠ hand := by
  rcases stems_copyingRun .zero with ⟨hfull, hcopy, hleft, hright⟩
  rcases stems_droppingRun .zero with ⟨hcopyLater, hleftLater⟩
  rcases maps_copyingRun .zero with ⟨hfullMap, hcopyMap, hleftMap, hrightMap⟩
  have hshows := Memory.shows_run .zero lowestFree copyingRun
  have hseen : forall {name : String} {inst : Instance Nat Nat},
      ((State.start .zero).actAll copyingRun).maps[name]? = some inst ->
        (Machine.start.actAll lowestFree copyingRun).map? name = some inst.map := by
    intro name inst hinst
    rw [hshows.map?_eq, hinst, Option.map_some]
  rcases identity_is_lineage .zero lowestFree copyingRun with
    ⟨_, _, hpairs, hviews, _, _, _, hequal⟩
  rcases (hpairs "full" "copy" 1 1 hfull hcopy).2 with ⟨_, _, _, _, honce, _⟩
  rcases (hpairs "copy" "left" 1 3 hcopy hleft).2 with ⟨map, _, hmap, _, hapart, _⟩
  rcases (hpairs "left" "right" 3 4 hleft hright).2 with
    ⟨leftMap, rightMap, hleftSeen, hrightSeen, _, hempty⟩
  rw [hseen hcopyMap] at hmap
  rw [hseen hleftMap] at hleftSeen
  rw [hseen hrightMap] at hrightSeen
  cases hmap
  cases hleftSeen
  cases hrightSeen
  have hsame := honce.mpr (Or.inl rfl)
  have hvalues : forall value, value ∈ fullMap.values -> (value == value) = true :=
    fun value _ => beq_self_eq_true value
  have hbeq := hequal lawful_copyingRun "full" "copy" fullMap fullMap (hseen hfullMap)
    (hseen hcopyMap) hsame hvalues
  rcases hviews "full" 1 (.access "full" .keys) .keys hfull .access with ⟨number, hnumber, hlater⟩
  rcases hlater [.dropMap "full"] "copy" 1 .keys hcopyLater with ⟨kept, hkept, hkeptIff⟩
  rcases hlater [.dropMap "full"] "left" 3 .keys hleftLater with ⟨hand, hhand, hhandIff⟩
  refine ⟨lawful_copyingRun, hsame, ?_, (hempty (by decide) rfl rfl).1, hseen hcopyMap, hbeq,
    number, hand, hnumber, ?_, hhand, ?_⟩
  · intro hcopyLeft
    rcases hapart.mp hcopyLeft with htime | ⟨hnone, _⟩
    · exact absurd htime (by decide)
    · exact absurd hnone (by decide)
  · rw [hkeptIff.mpr ⟨rfl, rfl⟩]
    exact hkept
  · intro heq
    exact absurd (hhandIff.mp heq).1 (by decide)

end Session
end SealedMap
