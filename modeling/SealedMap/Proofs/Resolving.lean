import SealedMap.Builder
import SealedMap.Proofs.GuardedConstruction

/-!
# Builds that resolve repeats

A build that resolves repeats always ends with a map.  Without an order only a
rejecting policy can refuse.  With one, what is indexed after sorting has each
key once, in whatever order, so even the rejecting policy finds nothing to
refuse, in a chained index and in the keyed one that takes over from it.
-/

namespace SealedMap

open Index (Chained Claims Keyed Placing PointsInto place holdsAt)

namespace Index

variable {I K V : Type} [Placing I K]

theorem place_true_of_ne_rejected {entries : Array (Entry K V)} {start : I}
    (h : forall first second, place true entries start ≠ .rejected first second) :
    place true entries start = .overflow ∨
      exists index, place true entries start = .done index [] := by
  have hjust := place_justified entries start true
  cases hplace : place true entries start with
  | done index repeats =>
      rw [hplace] at hjust
      rw [hjust.1 rfl]
      exact Or.inr ⟨index, rfl⟩
  | rejected first second => exact absurd hplace (h first second)
  | overflow => exact Or.inl rfl

variable [BEq K]

theorem place_ne_rejected {entries : Array (Entry K V)} {start : I} {reject : Bool}
    (hrepeated : forall {pos : Nat} {index : I} {indexed : List Nat} {repeats : List Repeat},
      Claims entries start pos index indexed repeats ->
      forall {key : K} {first : Nat}, Placing.probe index entries key = .repeated first ->
        first ∈ indexed ∧ holdsAt entries key first = true)
    (hdistinct : reject = true -> Distinct (keysOf entries)) (first second : Nat) :
    place reject entries start ≠ .rejected first second := by
  intro h
  have hjust := place_justified entries start reject
  rw [h] at hjust
  rcases hjust with ⟨hreject, index, indexed, entry, hclaims, hentry, hprobe⟩
  rcases hrepeated hclaims hprobe with ⟨hmem, hholds⟩
  have hres := hclaims.resolvable fun hclaims _ _ hprobe => (hrepeated hclaims hprobe).1
  have hlt := ((hres.2 first).mp hmem).1
  rw [distinct_keysOf_iff.mp (hdistinct hreject) first second entry hlt hentry] at hholds
  cases hholds

theorem Chained.place_ne_rejected {entries : Array (Entry K V)} {reject : Bool}
    (hash : K -> UInt64) (hdistinct : reject = true -> Distinct (keysOf entries))
    (first second : Nat) :
    place reject entries (Chained.empty hash entries.size) ≠ .rejected first second := by
  apply Index.place_ne_rejected _ hdistinct
  intro pos index indexed repeats hclaims key first hprobe
  exact ⟨(Chained.sound_of_claims hclaims).2.1.pointsInto _ _ hprobe,
    (Chained.probe_eq_repeated hprobe).2⟩

end Index

namespace Construction

variable {σ K V : Type} [BEq K] [Hashable K]

def Succeeds (construction : Construction K V) : Prop :=
  exists map, construction.outcome = .ok map

theorem settle_succeeds {I : Type} [Placing I K] (hash : K -> UInt64) (policy : Policy σ K V)
    (entries : Array (Entry K V)) (index : I) (repeats : List Index.Repeat)
    (layout : Array (Entry K V) -> I -> Layout K V) (state : σ) :
    ((settle hash policy entries index repeats layout).run state).1.Succeeds := by
  cases repeats with
  | nil => exact ⟨_, rfl⟩
  | cons r rest => exact ⟨_, rfl⟩

variable [EquivBEq K] [LawfulHashable K]

theorem keyed_place_ne_rejected {entries : Array (Entry K V)} {reject : Bool}
    (hdistinct : reject = true -> Distinct (keysOf entries)) (first second : Nat) :
    place reject entries (Keyed.empty : Keyed K) ≠ .rejected first second := by
  apply Index.place_ne_rejected _ hdistinct
  intro pos index indexed repeats hclaims key first hprobe
  exact (Keyed.answers_of_claims hclaims).of_repeated hprobe

section Indexing

variable {policy : Policy σ K V} {entries : Array (Entry K V)}
  (hdistinct : policy.rejects = true -> Distinct (keysOf entries))

include hdistinct

theorem indexKeyed_succeeds (hash : K -> UInt64) (state : σ) :
    ((indexKeyed hash policy entries).run state).1.Succeeds := by
  unfold indexKeyed
  cases hplace : place policy.rejects entries (Keyed.empty : Keyed K) with
  | done index repeats => exact settle_succeeds hash policy entries index repeats _ state
  | rejected first second =>
      exact absurd hplace (keyed_place_ne_rejected hdistinct first second)
  | overflow => exact ⟨_, rfl⟩

theorem index_succeeds (hash : K -> UInt64) (state : σ) :
    ((index hash policy entries).run state).1.Succeeds := by
  unfold index
  split
  next => exact ⟨_, rfl⟩
  next =>
    dsimp only
    cases hplace : place policy.rejects entries (Chained.empty hash entries.size) with
    | done index repeats => exact settle_succeeds hash policy entries index repeats _ state
    | rejected first second =>
        exact absurd hplace (Index.Chained.place_ne_rejected hash hdistinct first second)
    | overflow => exact indexKeyed_succeeds hdistinct hash state

end Indexing

theorem construct_succeeds {policy : Policy σ K V} (hkeeps : policy.rejects = false)
    (hash : K -> UInt64) (order : Option (ValueOrder V)) (entries : Array (Entry K V))
    (state : σ) :
    ((construct hash policy order entries).run state).1.Succeeds := by
  have hdistinct : policy.rejects = true -> Distinct (keysOf entries) := by
    intro hrejects
    rw [hkeeps] at hrejects
    cases hrejects
  cases order with
  | none => exact index_succeeds hdistinct hash state
  | some order =>
      by_cases hsize : entries.size < 2
      · rw [construct, if_pos hsize]
        exact index_succeeds hdistinct hash state
      · rw [run_construct_some hsize]
        rcases (resolve_ok_iff state).mpr (not_refuses_of_keeps hkeeps entries) with
          ⟨resolved, hresolved⟩
        rcases hrun : (resolve policy entries).run state with ⟨result, after⟩
        rw [hrun] at hresolved
        cases hresolved
        have hkept : Deduplicates resolved entries := by
          apply deduplicates_of_resolve
          rw [hrun]
        exact index_succeeds (fun _ => (deduplicates_sortByValue hkept order).distinct) hash after

/-! ## All resolving builds -/

/--
Under a policy that rejects nothing every construction ends with a map.  However
the entries that a resolve left are rearranged, indexing them meets no repeat:
the chained index takes them all or overflows, and the keyed index takes them
all.  A keyed index never overflows.  And a construction under any policy has
the result of the checked one, so every access is within its array and every
position that is kept in an index has a new number.
-/
theorem resolving_never_fails (hash : K -> UInt64) (policy : Policy σ K V)
    (order : Option (ValueOrder V)) (entries : Array (Entry K V)) (state : σ) :
    (policy.rejects = false ->
        ((construct hash policy order entries).run state).1.Succeeds) ∧
      (forall builder : Builder K V, builder.buildKeepingLast.Succeeds ∧
        forall combine, (builder.buildMerging combine).Succeeds) ∧
      (forall (resolved others : Array (Entry K V)) (after : σ),
        (resolve policy entries).run state = (.ok resolved, after) ->
        others.toList.Perm resolved.toList ->
          (place true others (Chained.empty hash others.size) = .overflow ∨
            exists index, place true others (Chained.empty hash others.size) =
              .done index []) ∧
          (exists index, place true others (Keyed.empty : Keyed K) = .done index []) ∧
          ((index hash (.reject : Policy σ K V) others).run after).1.Succeeds) ∧
      (forall (reject : Bool) (others : Array (Entry K V)),
        place reject others (Keyed.empty : Keyed K) ≠ .overflow) ∧
      (construct? hash policy order entries).run state =
        some ((construct hash policy order entries).run state) := by
  refine ⟨?_, ?_, ?_, Keyed.place_ne_overflow, ?_⟩
  · intro hkeeps
    exact construct_succeeds hkeeps hash order entries state
  · intro builder
    refine ⟨?_, ?_⟩
    · exact construct_succeeds rfl builder.hash builder.order builder.entries ()
    · intro combine
      exact construct_succeeds rfl builder.hash builder.order builder.entries ()
  · intro resolved others after hrun hperm
    have hresolved : Deduplicates resolved entries := by
      apply deduplicates_of_resolve
      rw [hrun]
    have hdistinct := (hresolved.perm hperm).distinct
    have hkeyed := Index.place_true_of_ne_rejected (keyed_place_ne_rejected fun _ => hdistinct)
    refine ⟨?_, ?_, index_succeeds (fun _ => hdistinct) hash after⟩
    · apply Index.place_true_of_ne_rejected
      exact Index.Chained.place_ne_rejected hash fun _ => hdistinct
    · exact hkeyed.resolve_left (Keyed.place_ne_overflow true others)
  · rw [construct?_eq_certain, run_certain]

def fallingTwice : Array (Entry Nat Nat) :=
  ((List.range 24).map fun n => ⟨n % 12, 24 - n⟩).toArray

theorem resolving_never_fails_fallingTwice :
    ((construct (fun _ : Nat => 0) (.keepLast : Policy Unit Nat Nat) (some compare)
        fallingTwice).run ()).1.Succeeds ∧
      (exists index, place true (lastOccurrences fallingTwice) (Keyed.empty : Keyed Nat) =
        .done index []) ∧
      (construct? (fun _ : Nat => 0) (.keepLast : Policy Unit Nat Nat) (some compare)
        fallingTwice).run () =
          some ((construct (fun _ : Nat => 0) (.keepLast : Policy Unit Nat Nat) (some compare)
            fallingTwice).run ()) := by
  have hall := resolving_never_fails (fun _ : Nat => 0) (.keepLast : Policy Unit Nat Nat)
    (some compare) fallingTwice ()
  rcases hall with ⟨hsucceeds, _, hindexed, _, hchecked⟩
  exact ⟨hsucceeds rfl, (hindexed _ _ () rfl (List.Perm.refl _)).2.1, hchecked⟩

end Construction
end SealedMap
