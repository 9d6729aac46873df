import Mathlib
import SealedMap.Proofs.Outcomes

/-!
# Walks along chains

`Seeks` is the loop that looks for a key from a cursor on, with the number of
keys it compares.  In a sound index it stays within the arrays, ends with what
`position?` answers, and compares no more keys than the limit allows.  Sound are
the indexes of all states of placing and of all constructed maps, under any
hash function.
-/

namespace SealedMap
namespace Index
namespace Chained

variable {K V : Type} [BEq K]

/-- Looking for a key from a cursor on compares so many keys and ends with this answer. -/
inductive Seeks (links : Array (Option Nat)) (entries : Array (Entry K V)) (key : K) :
    Option Nat -> Nat -> Option Nat -> Prop where
  | ended : Seeks links entries key none 0 none
  | found {pos : Nat} {entry : Entry K V} :
      entries[pos]? = some entry -> (entry.key == key) = true ->
      Seeks links entries key (some pos) 1 (some pos)
  | passed {pos count : Nat} {entry : Entry K V} {link answer : Option Nat} :
      entries[pos]? = some entry -> (entry.key == key) = false ->
      links[pos]? = some link -> Seeks links entries key link count answer ->
      Seeks links entries key (some pos) (count + 1) answer

theorem seeks_of_linked {links : Array (Option Nat)} {entries : Array (Entry K V)}
    {head : Option Nat} {chain : List Nat} (h : Linked links head chain)
    (hlt : forall pos, pos ∈ chain -> pos < entries.size) (key : K) :
    exists count,
      Seeks links entries key head count (chain.find? (holdsAt entries key)) ∧
        count ≤ chain.length ∧
          (chain.find? (holdsAt entries key) = none -> count = chain.length) := by
  induction h with
  | ended => exact ⟨0, Seeks.ended, Nat.le_refl 0, fun _ => rfl⟩
  | @next pos link rest hlink _ ih =>
      have hpos : pos < entries.size := hlt pos List.mem_cons_self
      have hentry := Array.getElem?_eq_getElem hpos
      have hholds := holdsAt_eq hentry key
      -- The search stops where `find?` does, or follows the link to the rest.
      rw [List.find?_cons, hholds, List.length_cons]
      cases hkey : entries[pos].key == key with
      | true => exact ⟨1, Seeks.found hentry hkey, Nat.succ_le_succ (Nat.zero_le _), nofun⟩
      | false =>
          rcases ih fun p hp => hlt p (List.mem_cons_of_mem pos hp) with
            ⟨count, hseeks, hle, hall⟩
          refine ⟨count + 1, Seeks.passed hentry hkey hlink hseeks, Nat.succ_le_succ hle, ?_⟩
          intro hnone
          exact congrArg (· + 1) (hall hnone)

/--
Every search in the index starts at a head, stays within the arrays, and ends
after at most as many comparisons as the limit of the table.  A lookup answers
what it found, and a claim what it found or else whether the chain has room.
-/
def WalksBounded (index : Chained K) (entries : Array (Entry K V)) : Prop :=
  forall key, exists head count,
    index.heads[index.bucket key]? = some head ∧
      Seeks index.links entries key head count (index.position? entries key) ∧
        count ≤ chainLimit index.heads.size ∧
          Placing.probe index entries key =
            match index.position? entries key with
            | some first => .repeated first
            | none => if chainLimit index.heads.size ≤ count then .full else .vacant

theorem Sound.walksBounded {index : Chained K} {entries : Array (Entry K V)}
    {indexed : Nat -> Prop} (h : index.Sound entries indexed) :
    index.WalksBounded entries := by
  intro key
  have hhead := Array.getElem?_eq_getElem (h.sized.bucket_lt key)
  have hlinked := h.linked _ _ hhead
  have hlt : forall pos, pos ∈ index.chain (index.bucket key) -> pos < entries.size := by
    intro pos hpos
    rw [← h.size_links]
    exact hlinked.lt_size pos hpos
  rcases seeks_of_linked hlinked hlt key with ⟨count, hseeks, hle, hall⟩
  refine ⟨_, count, hhead, hseeks, Nat.le_trans hle (h.length_le _), ?_⟩
  rw [probe_def, position?]
  cases hfind : (index.chain (index.bucket key)).find? (holdsAt entries key) with
  | some first => rfl
  | none =>
      rw [hall hfind]
      rfl

end Chained
end Index

/-! ## Constructed maps -/

namespace Construction

open Index (Chained Keyed Placing Repeat place)
open Repeats (Renumbers numbering superseded)

variable {σ K V : Type} [BEq K] [Hashable K]

def SoundLayout (layout : Layout K V) : Prop :=
  forall entries index, layout = .chained entries index ->
    index.Sound entries (· < entries.size)

def EndsSound (construction : Construction K V) : Prop :=
  forall map, construction.outcome = .ok map -> SoundLayout map.layout

theorem soundLayout_small (entries : Array (Entry K V)) :
    SoundLayout (Layout.small entries) := by
  intro kept index heq
  unfold Layout.small at heq
  split at heq
  next => cases heq
  next => cases heq

theorem soundLayout_ofKeyed (entries : Array (Entry K V)) (index : Keyed K) :
    SoundLayout (Layout.ofKeyed entries index) := by
  unfold Layout.ofKeyed
  split
  next => exact soundLayout_small entries
  next =>
    intro kept other heq
    cases heq

theorem soundLayout_ofChained {entries : Array (Entry K V)} {index : Chained K}
    (h : index.Sound entries (· < entries.size)) :
    SoundLayout (Layout.ofChained entries index) := by
  unfold Layout.ofChained
  split
  next => exact soundLayout_small entries
  next =>
    intro kept other heq
    cases heq
    exact h

theorem endsSound_built {layout : Layout K V} (h : SoundLayout layout)
    (hash : K -> UInt64) :
    (built ⟨layout, hash⟩).EndsSound := by
  intro map houtcome
  cases houtcome
  exact h

theorem endsSound_refused (refusal : Refusal) :
    (refused refusal : Construction K V).EndsSound := by
  intro map houtcome
  cases houtcome

theorem settle_endsSound {I : Type} [Placing I K] {hash : K -> UInt64}
    {policy : Policy σ K V} {entries : Array (Entry K V)} {index : I}
    {repeats : List Repeat} {layout : Array (Entry K V) -> I -> Layout K V} {state : σ}
    (hall : repeats = [] -> SoundLayout (layout entries index))
    (hkept : SoundLayout
      (layout ((Repeats.fold policy.combine entries repeats).run state).1
        (Placing.renumber index (numbering (superseded entries.size repeats))))) :
    ((settle hash policy entries index repeats layout).run state).1.EndsSound := by
  by_cases hnil : repeats = []
  · have hsound := hall hnil
    subst hnil
    exact endsSound_built hsound hash
  · rw [run_settle_of_ne_nil hnil]
    exact endsSound_built hkept hash

theorem indexKeyed_endsSound (hash : K -> UInt64) (policy : Policy σ K V)
    (entries : Array (Entry K V)) (state : σ) :
    ((indexKeyed hash policy entries).run state).1.EndsSound := by
  unfold indexKeyed
  cases hplace : place policy.rejects entries (Keyed.empty : Keyed K) with
  | done index repeats =>
      apply settle_endsSound
      · intro _
        exact soundLayout_ofKeyed entries index
      · exact soundLayout_ofKeyed _ _
  | rejected first second => exact endsSound_refused _
  | overflow => exact endsSound_built (soundLayout_small entries) hash

theorem index_endsSound (hash : K -> UInt64) (policy : Policy σ K V)
    (entries : Array (Entry K V)) (state : σ) :
    ((index hash policy entries).run state).1.EndsSound := by
  unfold index
  split
  next => exact endsSound_built (soundLayout_small entries) hash
  next =>
    dsimp only
    cases hplace : place policy.rejects entries (Chained.empty hash entries.size) with
    | done index repeats =>
        rcases Chained.sound_of_place_done hplace with ⟨_, hres, hsound⟩
        apply settle_endsSound
        · intro hnil
          subst hnil
          exact soundLayout_ofChained hsound.of_no_repeats
        · apply soundLayout_ofChained
          have hrenumbers := Repeats.renumbers_fold hres policy.combine state
          exact hsound.renumber_superseded hrenumbers
    | rejected first second => exact endsSound_refused _
    | overflow =>
        intro map houtcome
        exact indexKeyed_endsSound hash policy entries state map houtcome

theorem construct_endsSound (hash : K -> UInt64) (policy : Policy σ K V)
    (order : Option (ValueOrder V)) (entries : Array (Entry K V)) (state : σ) :
    ((construct hash policy order entries).run state).1.EndsSound := by
  cases order with
  | none => exact index_endsSound hash policy entries state
  | some order =>
      by_cases hsize : entries.size < 2
      · rw [construct, if_pos hsize]
        exact index_endsSound hash policy entries state
      · rw [run_construct_some hsize]
        rcases (resolve policy entries).run state with ⟨result, after⟩
        cases result with
        | error refusal => exact endsSound_refused refusal
        | ok resolved => exact index_endsSound hash .reject (sortByValue order resolved) after

/-! ## Every chained index there is -/

/--
The chained indexes that arise under a hash function, the entries they index and
the positions that are indexed: all states of placing, and constructed maps.
-/
inductive Arises (hash : K -> UInt64) :
    Chained K -> Array (Entry K V) -> (Nat -> Prop) -> Prop where
  | placing {entries : Array (Entry K V)} {pos : Nat} {index : Chained K}
      {indexed : List Nat} {repeats : List Repeat} :
      Index.Claims entries (Chained.empty hash entries.size) pos index indexed repeats ->
      Arises hash index entries (· ∈ indexed)
  | constructed {σ : Type} {policy : Policy σ K V} {order : Option (ValueOrder V)}
      {entries kept : Array (Entry K V)} {state : σ} {map : Map K V} {index : Chained K} :
      ((construct hash policy order entries).run state).1.outcome = .ok map ->
      map.layout = .chained kept index ->
      Arises hash index kept (· < kept.size)

/--
Whatever the hash function, every chained index that arises is sound, a claim
that finds a repeat or no room leaves it as it is, and all walks are bounded.
-/
theorem chains_sound_and_walks_bounded {hash : K -> UInt64} {index : Chained K}
    {entries : Array (Entry K V)} {indexed : Nat -> Prop}
    (h : Arises hash index entries indexed) :
    index.Sound entries indexed ∧ index.WalksBounded entries ∧
      forall pos key, (Index.claim index entries pos key).1 ≠ .vacant ->
        (Index.claim index entries pos key).2 = index := by
  have hsound : index.Sound entries indexed := by
    cases h with
    | placing hclaims => exact (Chained.sound_of_claims hclaims).2.1
    | @constructed σ policy order source _ state map _ houtcome hlayout =>
        exact construct_endsSound hash policy order source state map houtcome _ _ hlayout
  refine ⟨hsound, hsound.walksBounded, ?_⟩
  intro pos key hvacant
  exact Index.claim_snd_of_ne_vacant hvacant

/-- A chain of two keys, after a repeat between them was dropped. -/
def chainOfTwo : Chained Nat where
  hash := fun _ => 0
  heads := #[some 1, none, none, none]
  links := #[none, some 0]
  shift := 62

theorem chains_sound_chainOfTwo :
    chainOfTwo.Sound (#[⟨7, 3⟩, ⟨8, 4⟩] : Array (Entry Nat Nat)) (· < 2) ∧
      chainOfTwo.WalksBounded (#[⟨7, 3⟩, ⟨8, 4⟩] : Array (Entry Nat Nat)) := by
  have houtcome : ((construct (fun _ : Nat => 0)
      (.merge fun _ a b => pure (a + b) : Policy Unit Nat Nat) none
      #[⟨7, 1⟩, ⟨7, 2⟩, ⟨8, 4⟩]).run ()).1.outcome =
        .ok ⟨.chained #[⟨7, 3⟩, ⟨8, 4⟩] chainOfTwo, fun _ => 0⟩ := by cbv
  have hsound := chains_sound_and_walks_bounded (.constructed houtcome rfl)
  exact ⟨hsound.1, hsound.2.1⟩

end Construction
end SealedMap
