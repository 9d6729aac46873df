import Mathlib
import SealedMap.Builder
import SealedMap.Proofs.Arranging
import SealedMap.Proofs.Crowding

/-!
# The events of a construction

What a construction reports follows from the keys and their hashes: it overflows
and starts over exactly if a bucket is crowded, and it resolves repeats, of which
there are as many as entries beyond the different keys, exactly if there are some
and the policy keeps them.
-/

namespace SealedMap

namespace Construction

open Index (Chained Keyed Placing Crowded bucketCount bucketCount_least chainLimit
  claimedKeys place)

variable {σ K V : Type} [BEq K]

/-! ## What is to be reported -/

/-- The number of entries indexed: under an order, those left after resolving repeats. -/
def indexedCount (order : Option (ValueOrder V)) (entries : Array (Entry K V)) : Nat :=
  match order with
  | none => entries.size
  | some _ => distinctCount (keysOf entries)

/--
Indexing the entries crowds a bucket.  Under an order nothing is indexed when a
repeat is refused; else a refused repeat ends the claims.
-/
def Floods (hash : K -> UInt64) (policy : Policy σ K V) (order : Option (ValueOrder V))
    (entries : Array (Entry K V)) : Prop :=
  2 ≤ indexedCount order entries ∧
    match order with
    | none => Crowded hash entries.size (claimedKeys policy.rejects entries)
    | some _ => ¬ Refuses policy entries ∧
        Crowded hash (distinctCount (keysOf entries)) (keysOf entries)

instance (policy : Policy σ K V) (entries : Array (Entry K V)) :
    Decidable (Refuses policy entries) :=
  inferInstanceAs (Decidable (_ ∧ _))

instance (hash : K -> UInt64) (policy : Policy σ K V) (order : Option (ValueOrder V))
    (entries : Array (Entry K V)) :
    Decidable (Floods hash policy order entries) :=
  match order with
  | none => inferInstanceAs (Decidable (_ ∧ _))
  | some _ => inferInstanceAs (Decidable (_ ∧ _ ∧ _))

def Resolves (policy : Policy σ K V) (order : Option (ValueOrder V))
    (entries : Array (Entry K V)) : Prop :=
  order.isNone = true ∧ policy.rejects = false ∧ repeatsOf entries ≠ []

instance (policy : Policy σ K V) (order : Option (ValueOrder V))
    (entries : Array (Entry K V)) :
    Decidable (Resolves policy order entries) :=
  inferInstanceAs (Decidable (_ ∧ _ ∧ _))

def floodEvents (hash : K -> UInt64) (policy : Policy σ K V)
    (order : Option (ValueOrder V)) (entries : Array (Entry K V)) : List Event :=
  let len := indexedCount order entries
  if Floods hash policy order entries then
    [.chainOverflow len (chainLimit (bucketCount len))]
  else []

def repeatEvents (policy : Policy σ K V) (order : Option (ValueOrder V))
    (entries : Array (Entry K V)) : List Event :=
  if Resolves policy order entries then
    [.repeatsResolved (entries.size - distinctCount (keysOf entries))]
  else []

theorem repeatEvents_of_rejects {policy : Policy σ K V} (h : policy.rejects = true)
    (order : Option (ValueOrder V)) (entries : Array (Entry K V)) :
    repeatEvents policy order entries = [] := by
  unfold repeatEvents
  apply if_neg
  intro hresolves
  have hkeeps := hresolves.2.1
  rw [h] at hkeeps
  cases hkeeps

theorem repeatEvents_of_settled [EquivBEq K] {policy : Policy σ K V}
    {entries : Array (Entry K V)} (hrejects : policy.rejects = true -> repeatsOf entries = []) :
    repeatEvents policy none entries =
      if repeatsOf entries = [] then [] else [.repeatsResolved (repeatsOf entries).length] := by
  unfold repeatEvents
  rw [length_repeatsOf]
  by_cases hnil : repeatsOf entries = []
  · rw [if_pos hnil, if_neg fun h => h.2.2 hnil]
  · have hkeeps : policy.rejects = false := by
      cases hpolicy : policy.rejects with
      | false => rfl
      | true => exact absurd (hrejects hpolicy) hnil
    rw [if_neg hnil, if_pos ⟨rfl, hkeeps, hnil⟩]

theorem not_two_le_of_size_lt [EquivBEq K] {entries : Array (Entry K V)}
    (h : entries.size < 2) (order : ValueOrder V) :
    ¬ 2 ≤ indexedCount (some order) entries := by
  have hadd := length_repeatsOf_add entries
  show ¬ 2 ≤ distinctCount (keysOf entries)
  omega

theorem floods_congr [EquivBEq K] {τ : Type} {hash : K -> UInt64}
    (hhash : forall a b, (a == b) = true -> hash a = hash b) {policy : Policy σ K V}
    {other : Policy τ K V} {order : Option (ValueOrder V)} {entries others : Array (Entry K V)}
    (hpolicy : policy.rejects = false) (hother : other.rejects = false)
    (hcount : indexedCount order entries = indexedCount order others)
    (hleft : Covers (keysOf entries) (keysOf others))
    (hright : Covers (keysOf others) (keysOf entries)) :
    Floods hash policy order entries ↔ Floods hash other order others := by
  unfold Floods
  rw [hcount]
  apply and_congr_right
  intro _
  cases order with
  | none =>
      have hsize : entries.size = others.size := hcount
      dsimp only
      rw [hpolicy, hother, hsize]
      exact Index.crowded_congr hhash hleft hright
  | some order =>
      have hdistinct : distinctCount (keysOf entries) = distinctCount (keysOf others) := hcount
      dsimp only
      rw [hdistinct, and_iff_right (not_refuses_of_keeps hpolicy entries),
        and_iff_right (not_refuses_of_keeps hother others)]
      exact Index.crowded_congr hhash hleft hright

theorem place_eq_overflow_iff_floods [EquivBEq K] {hash : K -> UInt64}
    (hhash : forall a b, (a == b) = true -> hash a = hash b) (policy : Policy σ K V)
    {entries : Array (Entry K V)} (hsize : ¬ entries.size < 2) :
    place policy.rejects entries (Chained.empty hash entries.size) = .overflow ↔
      Floods hash policy none entries := by
  rw [Index.place_eq_overflow_iff hhash]
  exact (and_iff_right (Nat.le_of_not_lt hsize)).symm

section Deduplicated

variable [EquivBEq K] {hash : K -> UInt64}
  (hhash : forall a b, (a == b) = true -> hash a = hash b) {policy : Policy σ K V}
  {kept entries : Array (Entry K V)} (h : Deduplicates kept entries)
  (hrefuses : ¬ Refuses policy entries) (order : ValueOrder V)

include hhash h hrefuses

theorem floods_of_deduplicates :
    Floods hash (.reject : Policy σ K V) none kept ↔
      Floods hash policy (some order) entries := by
  have hcount : indexedCount none kept = indexedCount (some order) entries := h.size_eq
  have hkeys := Index.claimedKeys_of_no_repeats (repeatsOf_eq_nil_of_distinct h.distinct) true
  have hcrowded : Crowded hash kept.size (claimedKeys true kept) ↔
      Crowded hash (distinctCount (keysOf entries)) (keysOf entries) := by
    rw [hkeys, h.size_eq]
    exact Index.crowded_congr hhash h.covers h.covered
  unfold Floods
  rw [hcount]
  exact and_congr_right fun _ => hcrowded.trans (and_iff_right hrefuses).symm

theorem floodEvents_of_deduplicates :
    floodEvents hash (.reject : Policy σ K V) none kept =
      floodEvents hash policy (some order) entries := by
  have hcount : indexedCount none kept = indexedCount (some order) entries := h.size_eq
  have hfloods := floods_of_deduplicates hhash h hrefuses order
  unfold floodEvents
  rw [hcount]
  by_cases hflood : Floods hash policy (some order) entries
  · rw [if_pos hflood, if_pos (hfloods.mpr hflood)]
  · rw [if_neg hflood, if_neg ((not_congr hfloods).mpr hflood)]

end Deduplicated

/-! ## Indexing -/

variable [Hashable K]

theorem settle_events {I : Type} [Placing I K] {hash : K -> UInt64} {policy : Policy σ K V}
    {entries : Array (Entry K V)} {index : I} {repeats : List Index.Repeat}
    {layout : Array (Entry K V) -> I -> Layout K V} (state : σ) :
    ((settle hash policy entries index repeats layout).run state).1.events =
      if repeats = [] then [] else [.repeatsResolved repeats.length] := by
  cases repeats with
  | nil => rfl
  | cons r rest => rfl

variable [EquivBEq K] [LawfulHashable K]

theorem indexKeyed_events (hash : K -> UInt64) (policy : Policy σ K V)
    (entries : Array (Entry K V)) (state : σ) :
    ((indexKeyed hash policy entries).run state).1.events =
      repeatEvents policy none entries := by
  unfold indexKeyed
  cases hplace : place policy.rejects entries (Keyed.empty : Keyed K) with
  | done index repeats =>
      rcases Index.repeats_of_place_done Keyed.answers_of_claims hplace with
        ⟨rfl, hrejects⟩
      rw [repeatEvents_of_settled hrejects]
      exact settle_events state
  | rejected first second =>
      rcases Index.repeats_of_place_rejected Keyed.answers_of_claims hplace with
        ⟨hrejects, _⟩
      rw [repeatEvents_of_rejects hrejects]
      rfl
  | overflow => exact absurd hplace (Keyed.place_ne_overflow _ _)

theorem index_events {hash : K -> UInt64}
    (hhash : forall a b, (a == b) = true -> hash a = hash b) (policy : Policy σ K V)
    (entries : Array (Entry K V)) (state : σ) :
    ((index hash policy entries).run state).1.events =
      floodEvents hash policy none entries ++ repeatEvents policy none entries := by
  unfold index floodEvents
  split
  next hsize =>
    have hrepeats := repeatsOf_eq_nil_of_size_lt hsize
    rw [if_neg fun h => absurd h.1 (Nat.not_le_of_lt hsize),
      repeatEvents_of_settled (fun _ => hrepeats), hrepeats]
    rfl
  next hsize =>
    have hfloods := place_eq_overflow_iff_floods hhash policy hsize
    dsimp only
    cases hplace : place policy.rejects entries (Chained.empty hash entries.size) with
    | done index repeats =>
        rw [hplace] at hfloods
        rcases Index.repeats_of_place_done (Chained.answers_of_claims hhash) hplace with
          ⟨rfl, hrejects⟩
        rw [if_neg ((not_congr hfloods).mp nofun),
          repeatEvents_of_settled hrejects]
        exact settle_events state
    | rejected first second =>
        rw [hplace] at hfloods
        rcases Index.repeats_of_place_rejected (Chained.answers_of_claims hhash) hplace with
          ⟨hrejects, _⟩
        rw [if_neg ((not_congr hfloods).mp nofun),
          repeatEvents_of_rejects hrejects]
        rfl
    | overflow =>
        rw [hplace] at hfloods
        rw [if_pos (hfloods.mp rfl), Chained.limit_empty,
          ← indexKeyed_events hash policy entries state]
        rfl

/-! ## Constructing -/

theorem construct_events {hash : K -> UInt64}
    (hhash : forall a b, (a == b) = true -> hash a = hash b) (policy : Policy σ K V)
    (order : Option (ValueOrder V)) (entries : Array (Entry K V)) (state : σ) :
    ((construct hash policy order entries).run state).1.events =
      floodEvents hash policy order entries ++ repeatEvents policy order entries := by
  cases order with
  | none => exact index_events hhash policy entries state
  | some order =>
      have hrepeats : repeatEvents policy (some order) entries = [] := if_neg nofun
      rw [hrepeats, List.append_nil]
      by_cases hsize : entries.size < 2
      · have hfew := not_two_le_of_size_lt hsize order
        rw [construct, if_pos hsize, index, if_pos hsize, floodEvents,
          if_neg fun h => hfew h.1]
        rfl
      · rw [run_construct_some hsize]
        by_cases hrefuses : Refuses policy entries
        · rcases run_resolve_of_refuses hrefuses state with ⟨r, _, hrun⟩
          rw [hrun, floodEvents, if_neg fun h => h.2.1 hrefuses]
          rfl
        · rcases (resolve_ok_iff state).mpr hrefuses with ⟨resolved, hresolved⟩
          have hkept := deduplicates_sortByValue (deduplicates_of_resolve hresolved) order
          cases hrun : (resolve policy entries).run state with
          | mk result after =>
              rw [hrun] at hresolved
              cases hresolved
              dsimp only
              rw [index_events hhash, floodEvents_of_deduplicates hhash hkept hrefuses order,
                repeatEvents_of_rejects rfl, List.append_nil]

/-! ## Layouts -/

theorem isKeyed_of_crowded {hash : K -> UInt64} {policy : Policy σ K V}
    {entries : Array (Entry K V)} {state : σ} {map : Map K V} {len : Nat}
    (h : ((indexKeyed hash policy entries).run state).1.outcome = .ok map)
    (hcrowded : Crowded hash len (claimedKeys policy.rejects entries)) :
    map.layout.isKeyed = true := by
  have hagrees := indexKeyed_agrees hash policy entries state
  rcases hagrees.yields.presents h with ⟨kept, hkept, hpresents⟩
  have hsize := (deduplicates_of_settled hkept).size_eq
  -- A crowded bucket leaves more keys than one, so an index is kept for them.
  have hlimit : 8 ≤ chainLimit (bucketCount len) := Nat.le_add_right 8 _
  have hmany := hcrowded.lt_distinctCount
  have hfew := Index.distinctCount_claimedKeys_le policy.rejects entries
  have htwo : 2 ≤ kept.size := by omega
  unfold indexKeyed at h
  cases hplace : place policy.rejects entries (Keyed.empty : Keyed K) with
  | done index repeats =>
      rw [hplace] at h
      rcases settle_layout h with ⟨others, moved, hlayout⟩
      have hentries := hpresents.entries_eq
      rw [hlayout, Layout.entries_ofKeyed] at hentries
      rw [hlayout, hentries]
      exact Layout.isKeyed_ofKeyed htwo moved
  | rejected first second =>
      rw [hplace] at h
      cases h
  | overflow => exact absurd hplace (Keyed.place_ne_overflow _ _)

theorem index_isKeyed_iff {hash : K -> UInt64}
    (hhash : forall a b, (a == b) = true -> hash a = hash b) {policy : Policy σ K V}
    {entries : Array (Entry K V)} {state : σ} {map : Map K V}
    (h : ((index hash policy entries).run state).1.outcome = .ok map) :
    map.layout.isKeyed = true ↔ Floods hash policy none entries := by
  unfold index at h
  split at h
  next hsize =>
    cases h
    rw [Layout.isKeyed_small]
    exact iff_of_false Bool.false_ne_true fun hflood => absurd hflood.1 (Nat.not_le_of_lt hsize)
  next hsize =>
    have hfloods := place_eq_overflow_iff_floods hhash policy hsize
    dsimp only at h
    cases hplace : place policy.rejects entries (Chained.empty hash entries.size) with
    | done index repeats =>
        rw [hplace] at h hfloods
        rcases settle_layout h with ⟨kept, moved, hlayout⟩
        rw [hlayout, Layout.isKeyed_ofChained]
        exact iff_of_false Bool.false_ne_true ((not_congr hfloods).mp nofun)
    | rejected first second =>
        rw [hplace] at h
        cases h
    | overflow =>
        rw [hplace] at h hfloods
        have hflood := hfloods.mp rfl
        exact iff_of_true (isKeyed_of_crowded h hflood.2) hflood

theorem construct_isKeyed_iff {hash : K -> UInt64}
    (hhash : forall a b, (a == b) = true -> hash a = hash b) {policy : Policy σ K V}
    {order : Option (ValueOrder V)} {entries : Array (Entry K V)} {state : σ} {map : Map K V}
    (h : ((construct hash policy order entries).run state).1.outcome = .ok map) :
    map.layout.isKeyed = true ↔ Floods hash policy order entries := by
  cases order with
  | none => exact index_isKeyed_iff hhash h
  | some order =>
      by_cases hsize : entries.size < 2
      · rw [construct, if_pos hsize, index, if_pos hsize] at h
        cases h
        rw [Layout.isKeyed_small]
        exact iff_of_false Bool.false_ne_true fun hflood =>
          not_two_le_of_size_lt hsize order hflood.1
      · rw [run_construct_some hsize] at h
        cases hrun : (resolve policy entries).run state with
        | mk result after =>
            rw [hrun] at h
            cases result with
            | error refusal => cases h
            | ok resolved =>
                have hresolved : ((resolve policy entries).run state).1 = .ok resolved := by
                  rw [hrun]
                have hkept :=
                  deduplicates_sortByValue (deduplicates_of_resolve hresolved) order
                have hrefuses := (resolve_ok_iff state).mp ⟨resolved, hresolved⟩
                rw [index_isKeyed_iff hhash h]
                exact floods_of_deduplicates hhash hkept hrefuses order

/-! ## What is reported -/

theorem buildKeyed_events (builder : Builder K V) :
    builder.buildKeyed.events = [] := by
  unfold Builder.buildKeyed
  cases builder.order with
  | some order => rfl
  | none =>
      by_cases hsize : builder.entries.size < 2
      · rw [constructKeyed, if_pos hsize]
        rfl
      · rw [constructKeyed, if_neg hsize]
        dsimp only
        rw [indexKeyed_events, repeatEvents_of_rejects rfl]

/--
What a construction reports is determined by the keys and their hashes: the
overflow, if and only if a bucket of the least fitting table gets more different
keys than eight and a quarter of the doublings, and then a keyed index is used;
and the repeats resolved.  Unless repeats are refused, an overflow depends on
neither the order nor the multiplicity of the entries beyond their number.  A
construction with a keyed index from the start reports nothing.
-/
theorem flooding_determined {hash : K -> UInt64}
    (hhash : forall a b, (a == b) = true -> hash a = hash b) (policy : Policy σ K V)
    (order : Option (ValueOrder V)) (entries : Array (Entry K V)) (state : σ) :
    (forall len, ((exists e, bucketCount len = 2 ^ e) ∧ max len 2 ≤ bucketCount len ∧
        forall e, max len 2 ≤ 2 ^ e -> bucketCount len ≤ 2 ^ e) ∧
      chainLimit (bucketCount len) = 8 + (bucketCount len).log2 / 4) ∧
    (forall resolved, ((resolve policy entries).run state).1 = .ok resolved ->
      resolved.size = distinctCount (keysOf entries)) ∧
    ((construct hash policy order entries).run state).1.events =
      floodEvents hash policy order entries ++ repeatEvents policy order entries ∧
    (forall map, ((construct hash policy order entries).run state).1.outcome = .ok map ->
      (map.layout.isKeyed = true ↔ Floods hash policy order entries)) ∧
    (forall (τ : Type) (other : Policy τ K V) (others : Array (Entry K V)),
      policy.rejects = false -> other.rejects = false ->
      indexedCount order entries = indexedCount order others ->
      Covers (keysOf entries) (keysOf others) -> Covers (keysOf others) (keysOf entries) ->
      (Floods hash policy order entries ↔ Floods hash other order others)) ∧
    (forall builder : Builder K V, builder.buildKeyed.events = []) := by
  refine ⟨?_, ?_, ?_, ?_, ?_, ?_⟩
  · intro len
    exact ⟨bucketCount_least len, rfl⟩
  · intro resolved hresolved
    exact (deduplicates_of_resolve hresolved).size_eq
  · exact construct_events hhash policy order entries state
  · intro map houtcome
    exact construct_isKeyed_iff hhash houtcome
  · intro τ other others hpolicy hother hcount hleft hright
    exact floods_congr hhash hpolicy hother hcount hleft hright
  · intro builder
    exact buildKeyed_events builder

def twelveKeys : Array (Entry Nat Nat) :=
  ((0 :: List.range 12).map fun n => ⟨n, n⟩).toArray

theorem flooding_determined_twelveKeys :
    ((construct (fun _ => 0) (.keepLast : Policy Unit Nat Nat) none twelveKeys).run
      ()).1.events = [.chainOverflow 13 9, .repeatsResolved 1] := by
  have hhash : forall a b : Nat, (a == b) = true ->
      (fun _ => 0 : Nat -> UInt64) a = (fun _ => 0 : Nat -> UInt64) b :=
    fun _ _ _ => rfl
  have hdetermined := flooding_determined hhash
    (.keepLast : Policy Unit Nat Nat) none twelveKeys ()
  rw [hdetermined.2.2.1]
  cbv

end Construction
end SealedMap
