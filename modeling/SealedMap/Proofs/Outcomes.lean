import SealedMap.Construction
import SealedMap.Proofs.ChainRenumbering
import SealedMap.Proofs.Lookup
import SealedMap.Proofs.Resolution

/-!
# What constructions end with

Whichever index a construction uses, and whether or not it starts over with
another one, it ends as resolving the entries without an index does: with the
same refusal, or with an exact map of the same entries, and in the same state.
-/

namespace SealedMap
namespace Construction

open Index (Chained Keyed Placing Repeat place holdsAt)
open Repeats (Renumbers numbering superseded)

variable {σ K V : Type} [BEq K] [Hashable K]

/-- The construction ends with an exact map of the entries, or with the refusal. -/
def Yields (construction : Construction K V) :
    Except Refusal (Array (Entry K V)) -> Prop
  | .ok entries => exists map,
      construction.outcome = .ok map ∧ map.layout.Presents entries
  | .error refusal => construction.outcome = .error refusal

/-- One run ends in the state of another, with the map or refusal that it tells. -/
structure Agrees (run : Construction K V × σ)
    (result : Except Refusal (Array (Entry K V)) × σ) : Prop where
  yields : run.1.Yields result.1
  state_eq : run.2 = result.2

def arranged (policy : Policy σ K V) (order : Option (ValueOrder V))
    (entries : Array (Entry K V)) : StateM σ (Except Refusal (Array (Entry K V))) :=
  match order with
  | none => settled policy entries
  | some order =>
      if entries.size < 2 then settled policy entries
      else do
        match <- resolve policy entries with
        | .error refusal => pure (.error refusal)
        | .ok resolved => settled .reject (sortByValue order resolved)

theorem run_construct_some {entries : Array (Entry K V)} (hsize : ¬ entries.size < 2)
    (hash : K -> UInt64) (policy : Policy σ K V) (order : ValueOrder V) (state : σ) :
    (construct hash policy (some order) entries).run state =
      match (resolve policy entries).run state with
      | (.error refusal, after) => (refused refusal, after)
      | (.ok resolved, after) =>
          (index hash .reject (sortByValue order resolved)).run after := by
  rw [construct, if_neg hsize, StateT.run_bind]
  rcases (resolve policy entries).run state with ⟨result, after⟩
  cases result <;> rfl

theorem run_arranged_some {entries : Array (Entry K V)} (hsize : ¬ entries.size < 2)
    (policy : Policy σ K V) (order : ValueOrder V) (state : σ) :
    (arranged policy (some order) entries).run state =
      match (resolve policy entries).run state with
      | (.error refusal, after) => (.error refusal, after)
      | (.ok resolved, after) => (settled .reject (sortByValue order resolved)).run after := by
  rw [arranged, if_neg hsize, StateT.run_bind]
  rcases (resolve policy entries).run state with ⟨result, after⟩
  cases result <;> rfl

theorem yields_built {layout : Layout K V} {entries : Array (Entry K V)}
    (h : layout.Presents entries) (hash : K -> UInt64) :
    (built ⟨layout, hash⟩).Yields (.ok entries) :=
  ⟨⟨layout, hash⟩, rfl, h⟩

theorem Yields.report {construction : Construction K V}
    {result : Except Refusal (Array (Entry K V))} (h : construction.Yields result)
    (event : Event) :
    (construction.report event).Yields result := by
  cases result with
  | error refusal => exact h
  | ok entries => exact h

theorem Yields.presents {construction : Construction K V}
    {result : Except Refusal (Array (Entry K V))} {map : Map K V}
    (h : construction.Yields result) (houtcome : construction.outcome = .ok map) :
    exists kept, result = .ok kept ∧ map.layout.Presents kept := by
  cases result with
  | error refusal =>
      have herror : construction.outcome = .error refusal := h
      rw [houtcome] at herror
      cases herror
  | ok kept =>
      rcases h with ⟨other, hother, hpresents⟩
      rw [houtcome] at hother
      cases hother
      exact ⟨kept, rfl, hpresents⟩

/-! ## Settling -/

section Settle

variable {I : Type} [Placing I K] {hash : K -> UInt64} {policy : Policy σ K V}
  {entries : Array (Entry K V)} {index : I} {repeats : List Repeat}
  {layout : Array (Entry K V) -> I -> Layout K V}

theorem run_settle_nil (state : σ) :
    (settle hash policy entries index [] layout).run state =
      (built ⟨layout entries index, hash⟩, state) := rfl

theorem run_settle_of_ne_nil (h : repeats ≠ []) (state : σ) :
    (settle hash policy entries index repeats layout).run state =
      ((built ⟨layout ((Repeats.fold policy.combine entries repeats).run state).1
          (Placing.renumber index (numbering (superseded entries.size repeats))), hash⟩).report
        (.repeatsResolved repeats.length),
        ((Repeats.fold policy.combine entries repeats).run state).2) := by
  cases repeats with
  | nil => exact absurd rfl h
  | cons r rest => rfl

theorem settle_layout {state : σ} {map : Map K V}
    (h : ((settle hash policy entries index repeats layout).run state).1.outcome = .ok map) :
    exists (kept : Array (Entry K V)) (moved : I), map.layout = layout kept moved := by
  cases repeats with
  | nil =>
      cases h
      exact ⟨entries, index, rfl⟩
  | cons r rest =>
      cases h
      exact ⟨_, _, rfl⟩

theorem settle_agrees (hrepeats : repeats = repeatsOf entries)
    (hrejects : policy.rejects = true -> repeats = [])
    (hres : Index.Resolvable entries.size repeats)
    (hall : repeats = [] -> (layout entries index).Presents entries)
    (hkept : forall kept : Array (Entry K V),
      Renumbers (superseded entries.size repeats) entries kept ->
      (layout kept (Placing.renumber index
        (numbering (superseded entries.size repeats)))).Presents kept)
    (state : σ) :
    Agrees ((settle hash policy entries index repeats layout).run state)
      ((settled policy entries).run state) := by
  subst hrepeats
  rw [run_settled_of_kept hrejects]
  by_cases hnil : repeatsOf entries = []
  · have hpresents := hall hnil
    rw [hnil, run_settle_nil, Repeats.run_fold_nil]
    exact ⟨yields_built hpresents hash, rfl⟩
  · rw [run_settle_of_ne_nil hnil]
    have hrenumbers := Repeats.renumbers_fold hres policy.combine state
    exact ⟨(yields_built (hkept _ hrenumbers) hash).report _, rfl⟩

end Settle

/-! ## The two indexes -/

variable [EquivBEq K] [LawfulHashable K]

theorem indexKeyed_agrees (hash : K -> UInt64) (policy : Policy σ K V)
    (entries : Array (Entry K V)) (state : σ) :
    Agrees ((indexKeyed hash policy entries).run state)
      ((settled policy entries).run state) := by
  unfold indexKeyed
  cases hplace : place policy.rejects entries (Keyed.empty : Keyed K) with
  | done index repeats =>
      rcases Keyed.finds_of_place_done hplace with ⟨hres, hfinds⟩
      rcases Index.repeats_of_place_done Keyed.answers_of_claims hplace with
        ⟨hrepeats, hrejects⟩
      apply settle_agrees hrepeats hrejects hres
      · intro hnil
        subst hnil
        apply Layout.presents_ofKeyed
        intro key pos
        rw [hfinds key pos]
        simp [Index.Stays]
      · intro kept hkept
        apply Layout.presents_ofKeyed
        apply hfinds.renumber hkept
        intro p
        exact Repeats.superseded_eq_false_iff.symm
  | rejected first second =>
      rcases Index.repeats_of_place_rejected Keyed.answers_of_claims hplace with
        ⟨hrejects, hhead⟩
      rw [run_settled_of_head? hrejects hhead]
      exact ⟨rfl, rfl⟩
  | overflow => exact absurd hplace (Keyed.place_ne_overflow _ _)

theorem constructKeyed_agrees (hash : K -> UInt64) (policy : Policy σ K V)
    (entries : Array (Entry K V)) (state : σ) :
    Agrees ((constructKeyed hash policy entries).run state)
      ((settled policy entries).run state) := by
  unfold constructKeyed
  split
  next hsize =>
    rw [run_settled_of_no_repeats (repeatsOf_eq_nil_of_size_lt hsize)]
    exact ⟨yields_built (Layout.presents_small hsize) hash, rfl⟩
  next => exact indexKeyed_agrees hash policy entries state

section Respectful

variable {hash : K -> UInt64}
  (hhash : forall a b : K, (a == b) = true -> hash a = hash b)

include hhash

theorem index_agrees (policy : Policy σ K V) (entries : Array (Entry K V)) (state : σ) :
    Agrees ((index hash policy entries).run state)
      ((settled policy entries).run state) := by
  unfold index
  split
  next hsize =>
    rw [run_settled_of_no_repeats (repeatsOf_eq_nil_of_size_lt hsize)]
    exact ⟨yields_built (Layout.presents_small hsize) hash, rfl⟩
  next =>
    dsimp only
    cases hplace : place policy.rejects entries (Chained.empty hash entries.size) with
    | done index repeats =>
        rcases Chained.sound_of_place_done hplace with ⟨htable, hres, hsound⟩
        rcases Index.repeats_of_place_done (Chained.answers_of_claims hhash) hplace with
          ⟨hrepeats, hrejects⟩
        apply settle_agrees hrepeats hrejects hres
        · intro hnil
          subst hnil
          exact Layout.presents_ofChained hhash htable.hash_eq hsound.of_no_repeats
        · intro kept hkept
          have hmoved := Chained.sameTable_renumber index (superseded entries.size repeats)
          apply Layout.presents_ofChained hhash (hmoved.hash_eq.trans htable.hash_eq)
          exact hsound.renumber_superseded hkept
    | rejected first second =>
        rcases Index.repeats_of_place_rejected (Chained.answers_of_claims hhash) hplace with
          ⟨hrejects, hhead⟩
        rw [run_settled_of_head? hrejects hhead]
        exact ⟨rfl, rfl⟩
    | overflow =>
        have hkeyed := indexKeyed_agrees hash policy entries state
        exact ⟨hkeyed.yields.report _, hkeyed.state_eq⟩

/-! ## Constructions -/

/-- Constructing agrees with resolving and sorting without an index. -/
theorem construct_agrees (policy : Policy σ K V) (order : Option (ValueOrder V))
    (entries : Array (Entry K V)) (state : σ) :
    Agrees ((construct hash policy order entries).run state)
      ((arranged policy order entries).run state) := by
  cases order with
  | none => exact index_agrees hhash policy entries state
  | some order =>
      by_cases hsize : entries.size < 2
      · rw [construct, arranged, if_pos hsize, if_pos hsize]
        exact index_agrees hhash policy entries state
      · rw [run_construct_some hsize, run_arranged_some hsize]
        rcases (resolve policy entries).run state with ⟨result, after⟩
        cases result with
        | error refusal => exact ⟨rfl, rfl⟩
        | ok resolved => exact index_agrees hhash .reject (sortByValue order resolved) after

end Respectful

end Construction
end SealedMap
