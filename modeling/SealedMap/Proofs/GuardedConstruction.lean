import SealedMap.Proofs.GuardedFolding
import SealedMap.Proofs.GuardedKeeping
import SealedMap.Proofs.GuardedRenumbering

/-!
# Constructing with every access checked

A checked construction has no result if any of its steps would leave an array,
if an indexed position would lose its number, or if a keyed index were to
overflow.  It has one all the same, under every policy and every hash function:
that of the construction, in the same state.
-/

namespace SealedMap
namespace Construction

open Index (Chained Guarded Keyed Placed Placing Repeat Resolvable Stays place place?)
open Repeats (fold? numbering superseded superseded?)

variable {σ K V : Type} [BEq K] [Hashable K]

def settle? {I : Type} [Guarded I K] (hash : K -> UInt64) (policy : Policy σ K V)
    (entries : Array (Entry K V)) (index : I) (repeats : List Repeat)
    (layout : Array (Entry K V) -> I -> Layout K V) :
    StateT σ Option (Construction K V) :=
  if repeats.isEmpty then
    pure (built ⟨layout entries index, hash⟩)
  else do
    let kept <- fold? policy.combine entries repeats
    let gone <- superseded? entries.size repeats
    let moved <- Guarded.renumber? index (numbering gone)
    let map : Map K V := ⟨layout kept moved, hash⟩
    pure ((built map).report (.repeatsResolved repeats.length))

def indexKeyed? (hash : K -> UInt64) (policy : Policy σ K V)
    (entries : Array (Entry K V)) : StateT σ Option (Construction K V) := do
  match <- place? policy.rejects entries (Keyed.empty : Keyed K) with
  | .done index repeats => settle? hash policy entries index repeats Layout.ofKeyed
  | .rejected first second => pure (refused (.duplicateKey first second))
  | .overflow => failure

def index? (hash : K -> UInt64) (policy : Policy σ K V)
    (entries : Array (Entry K V)) : StateT σ Option (Construction K V) :=
  if entries.size < 2 then
    pure (built ⟨Layout.small entries, hash⟩)
  else do
    let start := Chained.empty hash entries.size
    let limit := start.limit
    match <- place? policy.rejects entries start with
    | .done index repeats => settle? hash policy entries index repeats Layout.ofChained
    | .rejected first second => pure (refused (.duplicateKey first second))
    | .overflow => do
        let fallback <- indexKeyed? hash policy entries
        pure (fallback.report (.chainOverflow entries.size limit))

def resolvePlaced? (policy : Policy σ K V) (entries : Array (Entry K V)) :
    Placed (Keyed K) -> StateT σ Option (Except Refusal (Array (Entry K V)))
  | .rejected first second => pure (.error (.duplicateKey first second))
  | .done _ repeats => do
      let kept <- fold? policy.combine entries repeats
      pure (.ok kept)
  | .overflow => failure

def resolve? (policy : Policy σ K V) (entries : Array (Entry K V)) :
    StateT σ Option (Except Refusal (Array (Entry K V))) :=
  match policy with
  | .keepLast => do
      let kept <- lastOccurrences? entries
      pure (.ok kept)
  | _ => do
      let placed <- place? policy.rejects entries (Keyed.empty : Keyed K)
      resolvePlaced? policy entries placed

def construct? (hash : K -> UInt64) (policy : Policy σ K V)
    (order : Option (ValueOrder V)) (entries : Array (Entry K V)) :
    StateT σ Option (Construction K V) :=
  match order with
  | none => index? hash policy entries
  | some order =>
      if entries.size < 2 then index? hash policy entries
      else do
        match <- resolve? policy entries with
        | .error refusal => pure (refused refusal)
        | .ok resolved => index? hash .reject (sortByValue order resolved)

/-! ## Settling -/

theorem settle?_eq_certain {I : Type} [Placing I K] [Guarded I K] {entries : Array (Entry K V)}
    {index : I} {repeats : List Repeat} (hres : Resolvable entries.size repeats)
    (hmoved : Guarded.renumber? index (numbering (superseded entries.size repeats)) =
      some (Placing.renumber index (numbering (superseded entries.size repeats))))
    (hash : K -> UInt64) (policy : Policy σ K V)
    (layout : Array (Entry K V) -> I -> Layout K V) :
    settle? hash policy entries index repeats layout =
      certain (settle hash policy entries index repeats layout) := by
  unfold settle? settle
  split
  next => rfl
  next =>
    rw [Repeats.fold?_eq_certain hres, Repeats.superseded?_eq_some hres.later_lt]
    simp only [lift_some_bind, hmoved]
    rfl

variable [EquivBEq K] [LawfulHashable K]

theorem place?_keyed (reject : Bool) (entries : Array (Entry K V)) :
    place? reject entries (Keyed.empty : Keyed K) =
      some (place reject entries (Keyed.empty : Keyed K)) := by
  apply Index.place?_eq_some
  intro pos index indexed repeats entry hclaims hentry
  exact (Keyed.finds_of_claims hclaims).claim?_eq_some hentry

omit [Hashable K] [LawfulHashable K] [EquivBEq K] in
theorem place?_chained (hash : K -> UInt64) (reject : Bool) (entries : Array (Entry K V)) :
    place? reject entries (Chained.empty hash entries.size) =
      some (place reject entries (Chained.empty hash entries.size)) := by
  apply Index.place?_eq_some
  intro pos index indexed repeats entry hclaims hentry
  exact (Chained.sound_of_claims hclaims).2.1.claim?_eq_some hentry

theorem stays_iff_superseded {len : Nat} {repeats : List Repeat} (p : Nat) :
    (p < len ∧ Stays repeats p) ↔ (superseded len repeats)[p]? = some false :=
  Repeats.superseded_eq_false_iff.symm

/-! ## Constructions -/

theorem indexKeyed?_eq_certain (hash : K -> UInt64) (policy : Policy σ K V)
    (entries : Array (Entry K V)) :
    indexKeyed? hash policy entries = certain (indexKeyed hash policy entries) := by
  unfold indexKeyed? indexKeyed
  rw [place?_keyed, lift_some_bind]
  cases hplace : place policy.rejects entries (Keyed.empty : Keyed K) with
  | done index repeats =>
      rcases Keyed.finds_of_place_done hplace with ⟨hres, hfinds⟩
      exact settle?_eq_certain hres (hfinds.renumber?_eq_some stays_iff_superseded) hash policy _
  | rejected first second => rfl
  | overflow => exact absurd hplace (Keyed.place_ne_overflow _ _)

theorem index?_eq_certain (hash : K -> UInt64) (policy : Policy σ K V)
    (entries : Array (Entry K V)) :
    index? hash policy entries = certain (index hash policy entries) := by
  unfold index? index
  split
  next => rfl
  next =>
    dsimp only
    rw [place?_chained, lift_some_bind]
    cases hplace : place policy.rejects entries (Chained.empty hash entries.size) with
    | done index repeats =>
        rcases Chained.sound_of_place_done hplace with ⟨_, hres, hsound⟩
        have hmoved := hsound.renumber?_eq_some (Repeats.size_superseded _ _) stays_iff_superseded
        exact settle?_eq_certain hres hmoved hash policy _
    | rejected first second => rfl
    | overflow =>
        dsimp only
        rw [indexKeyed?_eq_certain, certain_bind]
        rfl

theorem resolve?_eq_certain (policy : Policy σ K V) (entries : Array (Entry K V)) :
    resolve? policy entries = certain (resolve policy entries) := by
  by_cases hpolicy : policy = .keepLast
  · subst hpolicy
    rw [resolve?, lastOccurrences?_eq_some, lift_some_bind]
    rfl
  · rw [resolve?, place?_keyed, lift_some_bind, resolve_eq_resolvePlaced hpolicy]
    rotate_left
    · exact hpolicy
    cases hplace : place policy.rejects entries (Keyed.empty : Keyed K) with
    | done index repeats =>
        rcases Keyed.finds_of_place_done hplace with ⟨hres, _⟩
        rw [resolvePlaced?, Repeats.fold?_eq_certain hres]
        rfl
    | rejected first second => rfl
    | overflow => exact absurd hplace (Keyed.place_ne_overflow _ _)

theorem construct?_eq_certain (hash : K -> UInt64) (policy : Policy σ K V)
    (order : Option (ValueOrder V)) (entries : Array (Entry K V)) :
    construct? hash policy order entries = certain (construct hash policy order entries) := by
  cases order with
  | none => exact index?_eq_certain hash policy entries
  | some order =>
      unfold construct? construct
      dsimp only
      split
      next => exact index?_eq_certain hash policy entries
      next =>
        rw [resolve?_eq_certain, certain_bind]
        congr 1
        funext result
        cases result with
        | error refusal => rfl
        | ok resolved => exact index?_eq_certain hash .reject (sortByValue order resolved)

end Construction
end SealedMap
