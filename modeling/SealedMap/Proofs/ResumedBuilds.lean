import Mathlib
import SealedMap.Proofs.Exactness
import SealedMap.Proofs.MergeCalls
import SealedMap.Proofs.RejectingBuilds

/-!
# Builds that go on from a map

What was put so far matters to a build that resolves repeats only through what is
held by then.  So building a map of the first entries, and then one of its pairs
and the other entries, comes to the same as building a map of all of them: the
values of a key are combined from left to right, and the pairs of a map, which
have distinct keys, are taken in again without a call.
-/

namespace SealedMap

variable {σ K V : Type} [BEq K]

/-! ## Taking in what is held -/

section Resuming

variable (combine : K -> V -> V -> StateM σ V)

theorem run_leftFold_append (front back : List (Entry K V)) (state : σ) :
    (leftFold combine (front ++ back)).run state =
      (back.foldlM (fun held entry => takeIn combine entry held)
        (heldAfter combine front state)).run ((leftFold combine front).run state).2 := by
  rw [leftFold, List.foldlM_append, StateT.run_bind]
  rfl

theorem run_leftFold_of_distinct {entries : List (Entry K V)}
    (h : Distinct (entries.map Entry.key)) (state : σ) :
    (leftFold combine entries).run state = (entries, state) := by
  induction entries using List.reverseRecOn with
  | nil => rfl
  | append_singleton entries entry ih =>
      rw [Distinct, List.map_append, List.pairwise_append] at h
      rcases h with ⟨hentries, _, hacross⟩
      rw [run_leftFold_concat, ih hentries]
      apply run_takeIn_of_new
      intro other hother
      exact hacross other.key (List.mem_map_of_mem hother) entry.key List.mem_cons_self

variable [EquivBEq K]

theorem distinct_heldAfter (entries : List (Entry K V)) (state : σ) :
    Distinct ((heldAfter combine entries state).map Entry.key) := by
  rw [map_key_heldAfter]
  exact distinct_firsts entries

/--
Going on from the entries held, in the state left, is taking all entries in: the
entries held are taken in again without a call, which leaves that state alone.
-/
theorem run_leftFold_heldAfter_append (front back : List (Entry K V)) (state : σ) :
    (leftFold combine (heldAfter combine front state ++ back)).run
        ((leftFold combine front).run state).2 =
      (leftFold combine (front ++ back)).run state := by
  have hheld := run_leftFold_of_distinct combine (distinct_heldAfter combine front state)
    ((leftFold combine front).run state).2
  rw [run_leftFold_append, run_leftFold_append, heldAfter, hheld]

end Resuming

section Calls

variable (combine : K -> V -> V -> V)

theorem run_leftFold_recording_from (entries : List (Entry K V))
    (calls : Array (Builder.Call K V)) :
    (leftFold (Builder.recording combine) entries).run calls =
      (((leftFold (Builder.recording combine) entries).run #[]).1,
        calls ++ ((leftFold (Builder.recording combine) entries).run #[]).2) := by
  have hbehind : forall key earlier later (noted : Array (Builder.Call K V)),
      (Builder.recording combine key earlier later).run (calls ++ noted) =
        (((Builder.recording combine key earlier later).run noted).1,
          calls ++ ((Builder.recording combine key earlier later).run noted).2) := by
    intro key earlier later noted
    exact congrArg (Prod.mk (combine key earlier later)) Array.push_append
  have hmap := run_leftFold_map hbehind entries #[]
  rw [Array.append_empty] at hmap
  exact hmap

variable [EquivBEq K]

theorem heldAfter_recording (entries : List (Entry K V)) (state : σ) :
    heldAfter (Builder.recording combine) entries #[] =
      heldAfter (fun key earlier later => pure (combine key earlier later)) entries state := by
  rw [heldAfter, run_leftFold_recording, heldAfter_pure]

theorem calls_append (front back : List (Entry K V)) :
    ((leftFold (Builder.recording combine) (front ++ back)).run #[]).2 =
      ((leftFold (Builder.recording combine) front).run #[]).2 ++
        ((leftFold (Builder.recording combine)
          (heldAfter (Builder.recording combine) front #[] ++ back)).run #[]).2 := by
  rw [← run_leftFold_heldAfter_append, run_leftFold_recording_from]

end Calls

/-! ## Building from the pairs of a map -/

namespace Map

variable [Hashable K]

theorem map_ofPair_toList (map : Map K V) :
    map.toList.map Entry.ofPair = map.entries.toList := by
  rw [toList, List.map_map]
  exact List.map_id map.entries.toList

end Map

namespace Builder

variable [EquivBEq K] [Hashable K] [LawfulHashable K]

theorem exists_buildWith_ofList {hash : K -> UInt64}
    (hhash : forall a b, (a == b) = true -> hash a = hash b) (policy : Policy σ K V)
    (h : policy.rejects = false) (pairs : List (K × V)) (state : σ) :
    exists map, (((ofList hash pairs).buildWith policy).run state).1.outcome = .ok map ∧
      map.entries.toList = heldAfter policy.combine (pairs.map Entry.ofPair) state ∧
      (((ofList hash pairs).buildWith policy).run state).2 =
        ((leftFold policy.combine (pairs.map Entry.ofPair)).run state).2 := by
  have hagrees := Construction.construct_agrees hhash policy none
    (pairs.map Entry.ofPair).toArray state
  rw [Construction.arranged, run_settled_of_resolves h] at hagrees
  rcases hagrees.yields with ⟨map, houtcome, hpresents⟩
  rw [buildWith, entries_ofList]
  exact ⟨map, houtcome, congrArg Array.toList hpresents.entries_eq, hagrees.state_eq⟩

section Resumed

variable {first second third : K -> UInt64}
  (hfirst : forall a b, (a == b) = true -> first a = first b)
  (hsecond : forall a b, (a == b) = true -> second a = second b)
  (hthird : forall a b, (a == b) = true -> third a = third b)

include hfirst hsecond hthird

theorem exists_resumed (policy : Policy σ K V) (h : policy.rejects = false)
    (xs ys : List (K × V)) (state : σ) :
    exists prior resumed whole : Map K V,
      (((ofList first xs).buildWith policy).run state).1.outcome = .ok prior ∧
      (((ofList second (prior.toList ++ ys)).buildWith policy).run
        (((ofList first xs).buildWith policy).run state).2).1.outcome = .ok resumed ∧
      (((ofList third (xs ++ ys)).buildWith policy).run state).1.outcome = .ok whole ∧
      prior.entries.toList = heldAfter policy.combine (xs.map Entry.ofPair) state ∧
      whole.keys = (firsts ((xs ++ ys).map Entry.ofPair)).map Entry.key ∧
      resumed.toList = whole.toList := by
  rcases exists_buildWith_ofList hfirst policy h xs state with ⟨prior, hprior, hheld, hafter⟩
  rcases exists_buildWith_ofList hsecond policy h (prior.toList ++ ys)
    (((ofList first xs).buildWith policy).run state).2 with ⟨resumed, hresumed, hentries, _⟩
  rcases exists_buildWith_ofList hthird policy h (xs ++ ys) state with ⟨whole, hwhole, hothers, _⟩
  have hkeys : whole.keys = (firsts ((xs ++ ys).map Entry.ofPair)).map Entry.key := by
    rw [Map.keys, hothers, map_key_heldAfter]
  refine ⟨prior, resumed, whole, hprior, hresumed, hwhole, hheld, hkeys, ?_⟩
  rw [List.map_append, Map.map_ofPair_toList, hheld, hafter, heldAfter,
    run_leftFold_heldAfter_append] at hentries
  rw [List.map_append, heldAfter] at hothers
  rw [Map.toList, Map.toList, hentries, hothers]

end Resumed

theorem exists_rebuilt {hash other : K -> UInt64}
    (hhash : forall a b, (a == b) = true -> hash a = hash b)
    (hother : forall a b, (a == b) = true -> other a = other b)
    {entries : Array (Entry K V)} {map : Map K V}
    (h : Construction.Constructed hash entries map) (policy : Policy σ K V) (state : σ) :
    exists rebuilt,
      (((ofList other map.toList).buildWith policy).run state).1.outcome = .ok rebuilt ∧
      rebuilt.toList = map.toList ∧
      (((ofList other map.toList).buildWith policy).run state).2 = state := by
  have hdistinct : Distinct (keysOf (map.toList.map Entry.ofPair).toArray) := by
    rw [keysOf_ofPair, Map.map_fst_toList]
    exact Map.distinct_keys (h.exact hhash)
  have hagrees := Construction.construct_agrees hother policy none
    (map.toList.map Entry.ofPair).toArray state
  rw [Construction.arranged,
    run_settled_of_no_repeats (repeatsOf_eq_nil_of_distinct hdistinct)] at hagrees
  rcases hagrees.yields with ⟨rebuilt, houtcome, hpresents⟩
  rw [buildWith, entries_ofList]
  exact ⟨rebuilt, houtcome, Map.toList_of_entries hpresents.entries_eq, hagrees.state_eq⟩

theorem calls_buildMergingTraced {hash : K -> UInt64}
    (hhash : forall a b, (a == b) = true -> hash a = hash b) (combine : K -> V -> V -> V)
    (pairs : List (K × V)) :
    ((ofList hash pairs).buildMergingTraced combine).2 =
      ((leftFold (recording combine) (pairs.map Entry.ofPair)).run #[]).2 := by
  rcases exists_buildWith_ofList hhash (.merge (recording combine)) rfl pairs #[] with
    ⟨_, _, _, hcalls⟩
  exact hcalls

/--
Resolving the repeats of a front part first changes nothing.  A merging build of
the pairs of a map made of `xs`, followed by `ys`, ends with the pairs that a
merging build of `xs` followed by `ys` ends with, and makes the calls that are
then still to be made; the keys are the first ones put, as they were spelled.
The same goes for a build that keeps last values.  And the pairs of a map,
however it was constructed, make it again under every policy, where no value is
combined.  The hash functions do not matter.
-/
theorem resolving_a_front_part_changes_nothing (first second third : K -> UInt64)
    (hfirst : forall a b, (a == b) = true -> first a = first b)
    (hsecond : forall a b, (a == b) = true -> second a = second b)
    (hthird : forall a b, (a == b) = true -> third a = third b) :
    (forall (combine : K -> V -> V -> V) (xs ys : List (K × V)),
      exists prior resumed whole,
        ((ofList first xs).buildMerging combine).outcome = .ok prior ∧
        ((ofList second (prior.toList ++ ys)).buildMerging combine).outcome = .ok resumed ∧
        ((ofList third (xs ++ ys)).buildMerging combine).outcome = .ok whole ∧
        whole.keys = (firsts ((xs ++ ys).map Entry.ofPair)).map Entry.key ∧
        resumed.toList = whole.toList ∧
        ((ofList third (xs ++ ys)).buildMergingTraced combine).2 =
          ((ofList first xs).buildMergingTraced combine).2 ++
            ((ofList second (prior.toList ++ ys)).buildMergingTraced combine).2) ∧
    (forall xs ys : List (K × V),
      exists prior resumed whole,
        (ofList first xs).buildKeepingLast.outcome = .ok prior ∧
        (ofList second (prior.toList ++ ys)).buildKeepingLast.outcome = .ok resumed ∧
        (ofList third (xs ++ ys)).buildKeepingLast.outcome = .ok whole ∧
        whole.keys = (firsts ((xs ++ ys).map Entry.ofPair)).map Entry.key ∧
        resumed.toList = whole.toList) ∧
    (forall (entries : Array (Entry K V)) (map : Map K V),
      Construction.Constructed first entries map ->
        (forall (σ : Type) (policy : Policy σ K V) (state : σ),
          exists rebuilt,
            (((ofList second map.toList).buildWith policy).run state).1.outcome = .ok rebuilt ∧
            rebuilt.toList = map.toList ∧
            (((ofList second map.toList).buildWith policy).run state).2 = state) ∧
        forall combine : K -> V -> V -> V,
          ((ofList second map.toList).buildMergingTraced combine).2 = #[]) := by
  refine ⟨?_, ?_, ?_⟩
  · intro combine xs ys
    rcases exists_resumed hfirst hsecond hthird
      (.merge fun key earlier later => (pure (combine key earlier later) : StateM Unit V)) rfl
      xs ys () with
      ⟨prior, resumed, whole, hprior, hresumed, hwhole, hheld, hkeys, hpairs⟩
    refine ⟨prior, resumed, whole, hprior, hresumed, hwhole, hkeys, hpairs, ?_⟩
    rw [calls_buildMergingTraced hthird, calls_buildMergingTraced hfirst,
      calls_buildMergingTraced hsecond, List.map_append, List.map_append,
      Map.map_ofPair_toList, hheld, calls_append, heldAfter_recording combine _ ()]
    rfl
  · intro xs ys
    rcases exists_resumed hfirst hsecond hthird (.keepLast : Policy Unit K V) rfl
      xs ys () with ⟨prior, resumed, whole, hprior, hresumed, hwhole, _, hkeys, hpairs⟩
    exact ⟨prior, resumed, whole, hprior, hresumed, hwhole, hkeys, hpairs⟩
  · intro entries map hmap
    refine ⟨fun σ policy state => exists_rebuilt hfirst hsecond hmap policy state, ?_⟩
    intro combine
    rcases exists_rebuilt hfirst hsecond hmap (.merge (recording combine)) #[] with
      ⟨_, _, _, hcalls⟩
    exact hcalls

theorem resolving_a_front_part_changes_nothing_twice :
    let combine := fun key earlier later => key + 10 * earlier + later
    exists prior resumed : Map Nat Nat,
      ((ofList (fun _ => 0) [(1, 2), (3, 4), (1, 5)]).buildMerging combine).outcome =
        .ok prior ∧
      ((ofList UInt64.ofNat (prior.toList ++ [(3, 6), (7, 8), (1, 9)])).buildMerging
        combine).outcome = .ok resumed ∧
      resumed.toList = [(1, 270), (3, 49), (7, 8)] ∧
      ((ofList (fun _ => 0) [(1, 2), (3, 4), (1, 5)]).buildMergingTraced combine).2 =
        #[⟨1, 2, 5⟩] ∧
      ((ofList UInt64.ofNat (prior.toList ++ [(3, 6), (7, 8), (1, 9)])).buildMergingTraced
        combine).2 = #[⟨3, 4, 6⟩, ⟨1, 26, 9⟩] ∧
      exists rebuilt, (ofList UInt64.ofNat prior.toList).build.outcome = .ok rebuilt ∧
        rebuilt.toList = prior.toList := by
  intro combine
  have hofNat : forall a b : Nat, (a == b) = true -> UInt64.ofNat a = UInt64.ofNat b :=
    fun _ _ h => congrArg UInt64.ofNat (eq_of_beq h)
  have hnothing := resolving_a_front_part_changes_nothing (V := Nat) (fun _ => 0) UInt64.ofNat
    UInt64.ofNat (fun _ _ _ => rfl) hofNat hofNat
  rcases hnothing.1 combine [(1, 2), (3, 4), (1, 5)] [(3, 6), (7, 8), (1, 9)] with
    ⟨prior, resumed, whole, hprior, hresumed, hwhole, _, hpairs, hcalls⟩
  have hbefore : ((ofList (fun _ => 0) [(1, 2), (3, 4), (1, 5)]).buildMergingTraced
      combine).2 = #[⟨1, 2, 5⟩] := by cbv
  have hall : ((ofList UInt64.ofNat ([(1, 2), (3, 4), (1, 5)] ++
      [(3, 6), (7, 8), (1, 9)])).buildMergingTraced combine).2 =
        #[⟨1, 2, 5⟩] ++ #[⟨3, 4, 6⟩, ⟨1, 26, 9⟩] := by cbv
  have hpairsOf : ((ofList UInt64.ofNat ([(1, 2), (3, 4), (1, 5)] ++
      [(3, 6), (7, 8), (1, 9)])).buildMerging combine).outcome.map Map.toList =
        .ok [(1, 270), (3, 49), (7, 8)] := by cbv
  rw [hwhole] at hpairsOf
  rw [hall, hbefore] at hcalls
  rcases (hnothing.2.2 _ prior (.construct hprior)).1 Unit .reject () with
    ⟨rebuilt, hrebuilt, hsame, _⟩
  exact ⟨prior, resumed, hprior, hresumed, hpairs.trans (Except.ok.inj hpairsOf), hbefore,
    (Array.append_right_inj _).mp hcalls.symm, rebuilt, hrebuilt, hsame⟩

end Builder
end SealedMap
