import Mathlib.Data.List.Induction
import SealedMap.Proofs.Registers
import SealedMap.Session.Action

/-!
# What builders were given

A builder in a register was opened by some action, and since then it was given
entries by puts and by other builders that were combined into it.  Its entries are
those it was opened with and what it was given, in that order.  It has the order
it was opened with or else the first one that was asked for since.
-/

namespace SealedMap

namespace Builder

variable {K V : Type}

/-- A builder that was given entries, and an order that counts if it had none. -/
def grown (builder : Builder K V) (entries : List (Entry K V)) (order : Option (ValueOrder V)) :
    Builder K V where
  entries := builder.entries ++ entries.toArray
  order := builder.order.or order
  hash := builder.hash

@[simp] theorem grown_nil_none (builder : Builder K V) : builder.grown [] none = builder := by
  rcases builder with ⟨entries, order, hash⟩
  rw [grown, Option.or_none]
  exact congrArg (Builder.mk · order hash) Array.append_empty

theorem map_grown_nil_none (register : Option (Builder K V)) :
    (register.map fun builder => builder.grown [] none) = register := by
  cases register with
  | none => rfl
  | some builder => exact congrArg some builder.grown_nil_none

theorem grown_of_ordered {builder : Builder K V} {first : ValueOrder V}
    (h : builder.order = some first) (order : Option (ValueOrder V)) :
    builder.grown [] order = builder := by
  have hsame : builder.grown [] order = builder.grown [] none := by
    rw [grown, grown, h, Option.some_or, Option.some_or]
  rw [hsame, grown_nil_none]

theorem grown_grown (builder : Builder K V) (first second : List (Entry K V))
    (order later : Option (ValueOrder V)) :
    (builder.grown first order).grown second later =
      builder.grown (first ++ second) (order.or later) := by
  simp only [grown, Array.append_assoc, List.append_toArray, Option.or_assoc]

theorem putEntries_eq_grown (builder : Builder K V) (entries : List (Entry K V)) :
    builder.putEntries entries = builder.grown entries none := by
  rw [grown, Option.or_none, ← entries_putEntries]
  rfl

theorem combine_eq_grown (builder appended : Builder K V) :
    builder.combine appended = builder.grown appended.entries.toList none := by
  rw [grown, Option.or_none, Array.toArray_toList, ← entries_combine]
  conv_rhs => rw [← order_combine builder appended, ← hash_combine builder appended]

end Builder

namespace Session

variable {K V : Type}

/-! ## Pairs of which a part may be missing -/

/-- The pair lacks a part, and of its parts the key is noticed first. -/
inductive Offends : Option K × Option V -> Refusal -> Prop where
  | key {value : Option V} : Offends (none, value) (.nullArgument .key)
  | value {key : K} : Offends (some key, none) (.nullArgument .value)

inductive FirstOffends : List (Option K × Option V) -> Refusal -> Prop where
  | head {pair : Option K × Option V} {rest : List (Option K × Option V)} {refusal : Refusal} :
      Offends pair refusal -> FirstOffends (pair :: rest) refusal
  | tail {key : K} {value : V} {rest : List (Option K × Option V)} {refusal : Refusal} :
      FirstOffends rest refusal -> FirstOffends ((some key, some value) :: rest) refusal

def partsOf (entry : Entry K V) : Option K × Option V :=
  (some entry.key, some entry.value)

theorem entries?_parts (pairs : List (Option K × Option V)) :
    (exists entries : List (Entry K V), pairs = entries.map partsOf ∧
        (Putting.parts pairs).entries? = .ok entries) ∨
      exists refusal, FirstOffends pairs refusal ∧
        (Putting.parts pairs).entries? = .error refusal := by
  unfold Putting.entries?
  dsimp only
  induction pairs with
  | nil => exact Or.inl ⟨[], rfl, rfl⟩
  | cons pair rest ih =>
      rw [List.mapM_cons]
      rcases pair with ⟨_ | key, _ | value⟩
      · exact Or.inr ⟨_, .head .key, rfl⟩
      · exact Or.inr ⟨_, .head .key, rfl⟩
      · exact Or.inr ⟨_, .head .value, rfl⟩
      · rcases ih with ⟨entries, rfl, hentries⟩ | ⟨refusal, hoffends, hrefusal⟩
        · refine Or.inl ⟨⟨key, value⟩ :: entries, rfl, ?_⟩
          rw [hentries]
          rfl
        · refine Or.inr ⟨refusal, .tail hoffends, ?_⟩
          rw [hrefusal]
          rfl

/-! ## Opening and closing registers -/

variable [BEq K] [Hashable K]

inductive Opens (state : State K V) : Action K V -> String -> Builder K V -> Prop where
  | made {name : String} {hash : K -> UInt64} {pairs : List (K × V)} :
      Opens state (.newBuilder name hash pairs) name (Builder.ofList hash pairs)
  | cloned {source name : String} {builder : Builder K V} :
      state.builders[source]? = some builder ->
      Opens state (.cloneBuilder source name) name builder

inductive Closes (state : State K V) : Action K V -> String -> Prop where
  | dropped {name : String} : Closes state (.dropBuilder name) name
  | combined {name other : String} {builder : Builder K V} :
      name ≠ other -> state.builders[name]? = some builder ->
      Closes state (.combine name other) other
  | consumed {name target : String} {building : Building K V} :
      Closes state (.build name target building true) name

/-! ## What an action gives -/

def Action.ordering? (name : String) : Action K V -> Option (ValueOrder V)
  | .order target asked => if target = name then some asked else none
  | _ => none

theorem eq_order_of_ordering? {name : String} {action : Action K V}
    {order : ValueOrder V} (h : action.ordering? name = some order) :
    action = .order name order := by
  cases action with
  | order target asked =>
      rw [Action.ordering?, Option.ite_none_right_eq_some] at h
      rw [h.1, Option.some.inj h.2]
  | _ => cases h

namespace State

def given (state : State K V) (name : String) : Action K V -> List (Entry K V)
  | .put target putting =>
      if target = name then
        match putting.entries? with
        | .ok entries => entries
        | .error _ => []
      else []
  | .combine target other =>
      if target = name then
        match state.builders[other]? with
        | some appended => appended.entries.toList
        | none => []
      else []
  | _ => []

variable {state : State K V} {name : String} {action : Action K V}

theorem grown_of_kept {after : State K V} (hgiven : state.given name action = [])
    (horder : action.ordering? name = none)
    (hkept : after.builders[name]? = state.builders[name]?) :
    after.builders[name]? = state.builders[name]?.map fun builder =>
      builder.grown (state.given name action) (action.ordering? name) := by
  rw [hkept, hgiven, horder, Builder.map_grown_nil_none]

variable [BEq V] [Hashable V]

theorem builders_put (state : State K V) (name target : String) (putting : Putting K V) :
    (state.act (.put target putting)).state.builders[name]? =
      state.builders[name]?.map fun builder =>
        builder.grown (state.given name (.put target putting)) none := by
  by_cases hname : target = name
  · subst hname
    cases hbuilder : state.builders[target]? with
    | none =>
        show (state.through state.builders[target]? _).state.builders[target]? = _
        rw [hbuilder]
        exact hbuilder
    | some builder =>
        rw [given, if_pos rfl]
        cases hentries : putting.entries? with
        | ok entries =>
            have hput : putting.into builder = .ok (builder.putEntries entries) := by
              rw [Putting.into_eq, hentries]
              rfl
            rw [act_put hbuilder hput, Option.map_some, ← Builder.putEntries_eq_grown]
            exact Std.HashMap.getElem?_insert_self
        | error refusal =>
            have hput : putting.into builder = .error refusal := by
              rw [Putting.into_eq, hentries]
              rfl
            rw [act_put_refused hbuilder hput, Option.map_some, Builder.grown_nil_none]
            exact hbuilder
  · have hgiven : state.given name (.put target putting) = [] := if_neg hname
    apply grown_of_kept hgiven rfl
    apply through_keeps (·.builders[name]?)
    intro builder _
    cases putting.into builder with
    | ok grown => exact getElem?_insert_of_ne (Ne.symm hname)
    | error refusal => rfl

theorem builders_combine {target other : String}
    (hcloses : ¬ Closes state (.combine target other) name) :
    (state.act (.combine target other)).state.builders[name]? =
      state.builders[name]?.map fun builder =>
        builder.grown (state.given name (.combine target other)) none := by
  by_cases hname : target = name
  · subst hname
    cases hbuilder : state.builders[target]? with
    | none =>
        show (state.through state.builders[target]? _).state.builders[target]? = _
        rw [hbuilder]
        exact hbuilder
    | some builder =>
        rw [given, if_pos rfl]
        cases hother : state.builders[other]? with
        | none =>
            show (state.through state.builders[target]? _).state.builders[target]? = _
            rw [hbuilder, through, hother, Option.map_some, Builder.grown_nil_none]
            exact hbuilder
        | some appended =>
            rw [act_combine hbuilder hother, Option.map_some, ← Builder.combine_eq_grown]
            exact Std.HashMap.getElem?_insert_self
  · have hgiven : state.given name (.combine target other) = [] := if_neg hname
    apply grown_of_kept hgiven rfl
    apply through_keeps (·.builders[name]?)
    intro builder hbuilder
    apply through_keeps (·.builders[name]?)
    intro appended _
    have hne : name ≠ other := by
      rintro rfl
      exact hcloses (.combined hname hbuilder)
    exact (getElem?_insert_of_ne (Ne.symm hname)).trans (getElem?_erase_of_ne hne)

theorem builders_order (state : State K V) (name target : String) (order : ValueOrder V) :
    (state.act (.order target order)).state.builders[name]? =
      state.builders[name]?.map fun builder =>
        builder.grown [] ((Action.order target order : Action K V).ordering? name) := by
  by_cases hname : target = name
  · subst hname
    rw [Action.ordering?, if_pos rfl]
    cases hbuilder : state.builders[target]? with
    | none =>
        show (state.through state.builders[target]? _).state.builders[target]? = _
        rw [hbuilder]
        exact hbuilder
    | some builder =>
        cases horder : builder.order with
        | none =>
            rw [act_order hbuilder horder, Option.map_some, Builder.grown, horder]
            exact Std.HashMap.getElem?_insert_self
        | some first =>
            rw [act_order_refused hbuilder horder, Option.map_some,
              Builder.grown_of_ordered horder]
            exact hbuilder
  · have hasked : (Action.order target order : Action K V).ordering? name = none := if_neg hname
    apply grown_of_kept rfl hasked
    apply through_keeps (·.builders[name]?)
    intro builder _
    cases builder.orderByValue order with
    | ok ordered => exact getElem?_insert_of_ne (Ne.symm hname)
    | error refusal => rfl

theorem builders_act (hopens : forall builder, ¬ Opens state action name builder)
    (hcloses : ¬ Closes state action name) :
    (state.act action).state.builders[name]? = state.builders[name]?.map fun builder =>
      builder.grown (state.given name action) (action.ordering? name) := by
  cases action with
  | newBuilder target hash pairs =>
      apply grown_of_kept rfl rfl
      apply getElem?_insert_of_ne
      rintro rfl
      exact hopens _ .made
  | put target putting => exact builders_put state name target putting
  | combine target other => exact builders_combine hcloses
  | cloneBuilder source target =>
      apply grown_of_kept rfl rfl
      apply through_keeps (·.builders[name]?)
      intro builder hbuilder
      apply getElem?_insert_of_ne
      rintro rfl
      exact hopens builder (.cloned hbuilder)
  | order target order => exact builders_order state name target order
  | build source target building consuming =>
      have hleft : (if consuming then state.dropBuilder source else state).builders[name]? =
          state.builders[name]? := by
        cases consuming with
        | false => rfl
        | true =>
            apply getElem?_erase_of_ne
            rintro rfl
            exact hcloses .consumed
      apply grown_of_kept rfl rfl
      apply through_keeps (·.builders[name]?)
      intro builder _
      unfold buildFrom
      dsimp only
      cases (building.construct builder).outcome with
      | ok map => exact hleft
      | error refusal => exact hleft
  | dropBuilder target =>
      apply grown_of_kept rfl rfl
      apply getElem?_erase_of_ne
      rintro rfl
      exact hcloses .dropped
  | make target map => exact grown_of_kept rfl rfl rfl
  | cloneMap source target =>
      exact grown_of_kept rfl rfl (through_keeps (·.builders[name]?) fun _ _ => rfl)
  | dropMap target => exact grown_of_kept rfl rfl rfl
  | mutate source mutation =>
      exact grown_of_kept rfl rfl (through_keeps (·.builders[name]?) fun _ _ => rfl)
  | access source kind =>
      exact grown_of_kept rfl rfl (through_keeps (·.builders[name]?) fun _ _ => rfl)
  | ownView source kind target =>
      exact grown_of_kept rfl rfl (through_keeps (·.builders[name]?) fun _ _ => rfl)
  | cloneView source target =>
      exact grown_of_kept rfl rfl (through_keeps (·.builders[name]?) fun _ _ => rfl)
  | dropView target => exact grown_of_kept rfl rfl rfl

def givenAll (state : State K V) (name : String) : List (Action K V) -> List (Entry K V)
  | [] => []
  | action :: rest => state.given name action ++ (state.act action).state.givenAll name rest

end State

/-! ## Runs -/

section Runs

variable [BEq V] [Hashable V]

inductive Stays (name : String) : State K V -> List (Action K V) -> Prop where
  | nil {state : State K V} : Stays name state []
  | cons {state : State K V} {action : Action K V} {rest : List (Action K V)} :
      (forall builder, ¬ Opens state action name builder) -> ¬ Closes state action name ->
      Stays name (state.act action).state rest -> Stays name state (action :: rest)

variable {start state : State K V} {actions before since : List (Action K V)}
  {action opening : Action K V} {name : String} {origin builder : Builder K V}

theorem Opens.getElem?_act (h : Opens state action name builder) :
    (state.act action).state.builders[name]? = some builder := by
  cases h with
  | made => exact Std.HashMap.getElem?_insert_self
  | cloned hsource =>
      rw [State.act_cloneBuilder hsource]
      exact Std.HashMap.getElem?_insert_self

theorem Closes.getElem?_act (h : Closes state action name) :
    (state.act action).state.builders[name]? = none := by
  cases h with
  | dropped => exact Std.HashMap.getElem?_erase_self
  | @combined target _ builder hne hbuilder =>
      cases hother : state.builders[name]? with
      | none =>
          show (state.through state.builders[target]? _).state.builders[name]? = none
          rw [hbuilder, State.through, hother]
          exact hother
      | some appended =>
          rw [State.act_combine hbuilder hother]
          exact (getElem?_insert_of_ne (Ne.symm hne)).trans Std.HashMap.getElem?_erase_self
  | @consumed _ target building =>
      cases hbuilder : state.builders[name]? with
      | none =>
          show (state.through state.builders[name]? _).state.builders[name]? = none
          rw [hbuilder]
          exact hbuilder
      | some builder =>
          cases houtcome : (building.construct builder).outcome with
          | ok map =>
              rw [State.act_build hbuilder houtcome]
              exact Std.HashMap.getElem?_erase_self
          | error refusal =>
              rw [State.act_build_refused hbuilder houtcome]
              exact Std.HashMap.getElem?_erase_self

theorem Stays.builders_actAll (h : Stays name state actions) :
    (state.actAll actions).builders[name]? = state.builders[name]?.map fun builder =>
      builder.grown (state.givenAll name actions) (actions.findSome? (Action.ordering? name)) := by
  induction h with
  | @nil state => exact (Builder.map_grown_nil_none _).symm
  | @cons state action rest hopens hcloses _ ih =>
      rw [State.actAll_cons, ih, State.builders_act hopens hcloses, Option.map_map]
      congr 1
      funext builder
      rw [Function.comp_apply, Builder.grown_grown, List.findSome?_cons]
      cases action.ordering? name <;> rfl

theorem Stays.concat (h : Stays name state actions)
    (hopens : forall builder, ¬ Opens (state.actAll actions) action name builder)
    (hcloses : ¬ Closes (state.actAll actions) action name) :
    Stays name state (actions ++ [action]) := by
  induction h with
  | nil => exact .cons hopens hcloses .nil
  | cons hfirst hsecond _ ih => exact .cons hfirst hsecond (ih hopens hcloses)

/-- The register was opened by one of the actions and neither opened nor closed since. -/
structure Opened (start : State K V) (before : List (Action K V)) (opening : Action K V)
    (since : List (Action K V)) (name : String) (origin : Builder K V) : Prop where
  opens : Opens (start.actAll before) opening name origin
  stays : Stays name (start.actAll (before ++ [opening])) since

theorem exists_opened (hstart : forall name : String, start.builders[name]? = none)
    (h : (start.actAll actions).builders[name]? = some builder) :
    exists before opening since origin, actions = before ++ opening :: since ∧
      Opened start before opening since name origin := by
  induction actions using List.reverseRecOn generalizing builder with
  | nil =>
      rw [State.actAll_nil, hstart] at h
      cases h
  | append_singleton actions action ih =>
      by_cases hopens : exists origin, Opens (start.actAll actions) action name origin
      · rcases hopens with ⟨origin, hopens⟩
        exact ⟨actions, action, [], origin, rfl, hopens, .nil⟩
      · by_cases hcloses : Closes (start.actAll actions) action name
        · rw [State.actAll_concat, hcloses.getElem?_act] at h
          cases h
        · rw [State.actAll_concat, State.builders_act (not_exists.mp hopens) hcloses,
            Option.map_eq_some_iff] at h
          rcases h with ⟨earlier, hearlier, _⟩
          rcases ih hearlier with ⟨before, opening, since, origin, rfl, hopened⟩
          refine ⟨before, opening, since ++ [action], origin, ?_, hopened.opens, ?_⟩
          · rw [List.append_assoc, List.cons_append]
          · apply hopened.stays.concat
            · rw [← State.actAll_append, List.append_assoc, List.singleton_append]
              exact not_exists.mp hopens
            · rw [← State.actAll_append, List.append_assoc, List.singleton_append]
              exact hcloses

/-- What a register holds is what it was opened with and what it was given since. -/
theorem Opened.builders_actAll (h : Opened start before opening since name origin) :
    (start.actAll (before ++ opening :: since)).builders[name]? =
      some (origin.grown ((start.actAll (before ++ [opening])).givenAll name since)
        (since.findSome? (Action.ordering? name))) := by
  have hopening := h.opens.getElem?_act
  rw [← State.actAll_concat] at hopening
  have hsince := h.stays.builders_actAll
  rw [hopening, Option.map_some, ← State.actAll_append, List.append_assoc,
    List.singleton_append] at hsince
  exact hsince

theorem Stays.of_append {later : List (Action K V)} (h : Stays name state (actions ++ later)) :
    Stays name state actions := by
  induction actions generalizing state with
  | nil => exact .nil
  | cons action rest ih =>
      cases h with
      | cons hopens hcloses hrest => exact .cons hopens hcloses (ih hrest)

theorem Opened.of_append {later : List (Action K V)}
    (h : Opened start before opening (since ++ later) name origin) :
    Opened start before opening since name origin :=
  ⟨h.opens, h.stays.of_append⟩

theorem Opened.order_eq_some_iff (h : Opened start before opening since name origin)
    (hbuilder : (start.actAll (before ++ opening :: since)).builders[name]? = some builder)
    (order : ValueOrder V) :
    builder.order = some order ↔
      origin.order = some order ∨
        exists first second, since = first ++ .order name order :: second ∧
          ((start.actAll (before ++ opening :: first)).act (.order name order)).refusal = none := by
  rw [h.builders_actAll] at hbuilder
  cases hbuilder
  show origin.order.or _ = some order ↔ _
  constructor
  · intro horder
    cases horigin : origin.order with
    | some first =>
        rw [horigin, Option.some_or] at horder
        exact Or.inl horder
    | none =>
        rw [horigin, Option.none_or, List.findSome?_eq_some_iff] at horder
        rcases horder with ⟨first, action, second, rfl, haction, hfirst⟩
        cases eq_order_of_ordering? haction
        refine Or.inr ⟨first, second, rfl, ?_⟩
        have hnone : (origin.grown ((start.actAll (before ++ [opening])).givenAll name first)
            (first.findSome? (Action.ordering? name))).order = none := by
          show origin.order.or _ = none
          rw [horigin, Option.none_or, List.findSome?_eq_none_iff]
          exact hfirst
        rw [State.act_order h.of_append.builders_actAll hnone]
  · rintro (horigin | ⟨first, second, rfl, haccepted⟩)
    · rw [horigin, Option.some_or]
    · have hlive := h.of_append.builders_actAll
      cases hfirst : origin.order.or (first.findSome? (Action.ordering? name)) with
      | some other =>
          rw [State.act_order_refused hlive hfirst] at haccepted
          cases haccepted
      | none =>
          rw [Option.or_eq_none_iff] at hfirst
          rw [hfirst.1, Option.none_or, List.findSome?_append, hfirst.2, Option.none_or,
            List.findSome?_cons, Action.ordering?, if_pos rfl]

/-- A builder with the actions before its register was opened, the opening, and those since. -/
structure Logged (start : State K V) (before : List (Action K V)) (opening : Action K V)
    (since : List (Action K V)) (name : String) (origin builder : Builder K V) : Prop
    extends Opened start before opening since name origin where
  entries_eq : builder.entries.toList =
    origin.entries.toList ++ (start.actAll (before ++ [opening])).givenAll name since
  order_iff : forall order, builder.order = some order ↔
    origin.order = some order ∨
      exists first second, since = first ++ .order name order :: second ∧
        ((start.actAll (before ++ opening :: first)).act (.order name order)).refusal = none
  hash_eq : builder.hash = origin.hash

theorem exists_logged (hstart : forall name : String, start.builders[name]? = none)
    (h : (start.actAll actions).builders[name]? = some builder) :
    exists before opening since origin, actions = before ++ opening :: since ∧
      Logged start before opening since name origin builder := by
  rcases exists_opened hstart h with ⟨before, opening, since, origin, rfl, hopened⟩
  refine ⟨before, opening, since, origin, rfl, hopened, ?_, hopened.order_eq_some_iff h, ?_⟩
  · rw [hopened.builders_actAll] at h
    cases h
    rw [Builder.grown, Array.toList_append]
  · rw [hopened.builders_actAll] at h
    cases h
    rfl

theorem act_put_parts (h : state.builders[name]? = some builder)
    (pairs : List (Option K × Option V)) :
    (exists entries : List (Entry K V), pairs = entries.map partsOf ∧
        state.act (.put name (.parts pairs)) =
          ⟨none, state.setBuilder name (builder.putEntries entries)⟩) ∨
      exists refusal, FirstOffends pairs refusal ∧
        state.act (.put name (.parts pairs)) = ⟨some refusal, state⟩ := by
  rcases entries?_parts pairs with ⟨entries, hpairs, hentries⟩ | ⟨refusal, hoffends, hrefusal⟩
  · refine Or.inl ⟨entries, hpairs, State.act_put h ?_⟩
    rw [Putting.into_eq, hentries]
    rfl
  · refine Or.inr ⟨refusal, hoffends, State.act_put_refused h ?_⟩
    rw [Putting.into_eq, hrefusal]
    rfl

end Runs
end Session
end SealedMap
