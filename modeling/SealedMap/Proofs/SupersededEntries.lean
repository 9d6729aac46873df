import Mathlib
import SealedMap.Index.Chained
import SealedMap.Index.Keyed
import SealedMap.Proofs.Chains
import SealedMap.Proofs.Folding
import SealedMap.Proofs.KeyedLookup

/-!
# Superseded entries

Folding empties slots, and settling marks positions, each without regard to the
other.  Both come to the same for the repeats that placing finds, in whichever
index: a position is the later one of at most one repeat, and then the first one
of none.  So a repeat finds what the ones before it left in its first slot, and
an untouched value in its later one, and no value is taken and not put back.
-/

namespace SealedMap
namespace Repeats

open Index (Repeat Resolvable Stays Chained Keyed place)

variable {σ K V : Type}

/-! ## What a repeat leaves alone -/

section Untouched

variable {combine : K -> V -> V -> StateM σ V} {entries : Array (Entry K V)} {pos : Nat}

theorem foldStep_untouched {slots : Array (Option V)} {r : Repeat} (hfirst : r.first ≠ pos)
    (hlater : r.later ≠ pos) (state : σ) :
    ((foldStep combine entries slots r).run state).1[pos]? = slots[pos]? := by
  have htaken : ((slots.setIfInBounds r.first none).setIfInBounds r.later none)[pos]? =
      slots[pos]? := by
    rw [Array.getElem?_setIfInBounds_ne hlater, Array.getElem?_setIfInBounds_ne hfirst]
  unfold foldStep
  dsimp only
  split
  next =>
    rw [← htaken]
    exact Array.getElem?_setIfInBounds_ne hfirst
  next => exact htaken

theorem foldValues_untouched {repeats : List Repeat}
    (h : forall r, r ∈ repeats -> r.first ≠ pos ∧ r.later ≠ pos) (state : σ) :
    ((foldValues combine entries repeats).run state).1[pos]? =
      entries[pos]?.map fun entry => some entry.value := by
  induction repeats using List.reverseRecOn with
  | nil => exact Array.getElem?_map
  | append_singleton repeats r ih =>
      rcases h r (List.mem_append_right repeats List.mem_cons_self) with ⟨hfirst, hlater⟩
      rw [run_foldValues_concat, foldStep_untouched hfirst hlater]
      exact ih fun s hs => h s (List.mem_append_left [r] hs)

end Untouched

/-! ## Repeats that can be resolved -/

section Resolved

variable {entries : Array (Entry K V)} {done rest repeats : List Repeat} {r : Repeat}

theorem later_untouched {len : Nat} (h : Resolvable len (done ++ r :: rest)) :
    forall s, s ∈ done -> s.first ≠ r.later ∧ s.later ≠ r.later := by
  intro s hs
  have hlt := (List.pairwise_append.mp h.ascending).2.2 s hs r List.mem_cons_self
  have hfirst := h.of_append.first_lt s hs
  exact ⟨Nat.ne_of_lt (Nat.lt_trans hfirst hlt), Nat.ne_of_lt hlt⟩

theorem exists_run_foldValues_concat (h : Resolvable entries.size (done ++ r :: rest))
    (combine : K -> V -> V -> StateM σ V) (state : σ) :
    let before := (foldValues combine entries done).run state
    exists (first later : Entry K V) (earlier : V),
      entries[r.first]? = some first ∧ entries[r.later]? = some later ∧
      before.1[r.first]? = some (some earlier) ∧
      before.1[r.later]? = some (some later.value) ∧
      (foldValues combine entries (done ++ [r])).run state =
        ((before.1.setIfInBounds r.later none).setIfInBounds r.first
            (some ((combine first.key earlier later.value).run before.2).1),
          ((combine first.key earlier later.value).run before.2).2) := by
  intro before
  have hr : r ∈ done ++ r :: rest := List.mem_append_right _ List.mem_cons_self
  have hlt := h.first_lt r hr
  have hlaterLt := h.later_lt r hr
  have hfirstLt := Nat.lt_trans hlt hlaterLt
  have hfirst := Array.getElem?_eq_getElem hfirstLt
  have hlater := Array.getElem?_eq_getElem hlaterLt
  have hfilled := filled_foldValues h.of_append combine state
  -- The first slot holds what is left by the repeats before, and the later one what was put.
  rcases (hfilled.2 r.first hfirstLt).mpr (stays_of_resolvable h).1 with ⟨earlier, hearlier⟩
  have hvalue : before.1[r.later]? = some (some entries[r.later].value) := by
    rw [foldValues_untouched (later_untouched h), hlater, Option.map_some]
  refine ⟨entries[r.first], entries[r.later], earlier, hfirst, hlater, hearlier, hvalue, ?_⟩
  rw [run_foldValues_concat]
  exact run_foldStep hfirst hearlier hvalue (Nat.ne_of_lt hlt) before.2

theorem Filled.eq_none_iff {len pos : Nat} {slots : Array (Option V)}
    (h : Filled len repeats slots) :
    slots[pos]? = some none ↔ (superseded len repeats)[pos]? = some true := by
  rcases h with ⟨hsize, hslots⟩
  rw [superseded_eq_true_iff]
  by_cases hpos : pos < len
  · have hlt : pos < slots.size := by rw [hsize]; exact hpos
    rw [← hslots pos hpos, Array.getElem?_eq_getElem hlt]
    cases slots[pos] with
    | none => simp [hpos]
    | some value => simp
  · have hslot : slots[pos]? = none := Array.getElem?_eq_none (by omega)
    rw [hslot]
    simp [hpos]

end Resolved

/-! ## Repeats that placing finds -/

variable [BEq K] [EquivBEq K] [Hashable K] [LawfulHashable K]

/--
The repeats that placing finds without rejecting, in either index, have ascending
later positions, and none of these is a first one.  Each of them finds in its
slots what the repeats before it left, the later value being the one put, and
combines the two.  In the end the slots without a value are those of the marked
positions, which get no new number; the entry at any other position stands at its
number among those kept, with the value of its slot, and nothing else is kept.
-/
theorem dropped_entries_are_superseded {hash : K -> UInt64} {entries : Array (Entry K V)}
    {reject : Bool} {repeats : List Repeat}
    (h : (exists index, place reject entries (Chained.empty hash entries.size) =
        .done index repeats) ∨
      (exists index, place reject entries (Keyed.empty : Keyed K) = .done index repeats))
    (combine : K -> V -> V -> StateM σ V) (state : σ) :
    let gone := superseded entries.size repeats
    let slots := ((foldValues combine entries repeats).run state).1
    let kept := ((fold combine entries repeats).run state).1
    (repeats.map Repeat.later).Pairwise (· < ·) ∧ (repeats.map Repeat.later).Nodup ∧
      (forall r, r ∈ repeats ->
        r.first < r.later ∧ r.later < entries.size ∧ r.first ∉ repeats.map Repeat.later) ∧
      (forall (done : List Repeat) (r : Repeat) (rest : List Repeat), repeats = done ++ r :: rest ->
        let before := (foldValues combine entries done).run state
        exists (first later : Entry K V) (earlier : V),
          entries[r.first]? = some first ∧ entries[r.later]? = some later ∧
          before.1[r.first]? = some (some earlier) ∧
          before.1[r.later]? = some (some later.value) ∧
          (foldValues combine entries (done ++ [r])).run state =
            ((before.1.setIfInBounds r.later none).setIfInBounds r.first
                (some ((combine first.key earlier later.value).run before.2).1),
              ((combine first.key earlier later.value).run before.2).2)) ∧
      gone.size = entries.size ∧ slots.size = entries.size ∧
      (forall pos : Nat, slots[pos]? = some none ↔ gone[pos]? = some true) ∧
      (forall pos : Nat, gone[pos]? = some true -> (numbering gone)[pos]? = some none) ∧
      (forall pos : Nat, gone[pos]? = some false ->
        exists n entry value, (numbering gone)[pos]? = some (some n) ∧
          entries[pos]? = some entry ∧ slots[pos]? = some (some value) ∧
          kept[n]? = some ⟨entry.key, value⟩) ∧
      forall n : Nat, n < kept.size ->
        exists pos : Nat, (numbering gone)[pos]? = some (some n) := by
  intro gone slots kept
  have hres : Resolvable entries.size repeats := by
    rcases h with ⟨index, hplace⟩ | ⟨index, hplace⟩
    · exact (Chained.sound_of_place_done hplace).2.1
    · exact (Keyed.finds_of_place_done hplace).1
  have hfilled := filled_foldValues hres combine state
  have hascending : (repeats.map Repeat.later).Pairwise (· < ·) :=
    List.pairwise_map.mpr hres.ascending
  refine ⟨hascending, hascending.imp Nat.ne_of_lt, ?_, ?_, size_superseded _ _, hfilled.1, ?_, ?_,
    ?_, ?_⟩
  · intro r hr
    refine ⟨hres.first_lt r hr, hres.later_lt r hr, ?_⟩
    intro hmem
    rcases List.mem_map.mp hmem with ⟨s, hs, heq⟩
    exact hres.first_stays r hr s hs heq
  · intro done r rest hsplit
    rw [hsplit] at hres
    exact exists_run_foldValues_concat hres combine state
  · intro pos
    exact hfilled.eq_none_iff
  · intro pos hgone
    exact getElem?_numbering_of_gone hgone
  · intro pos hstays
    rcases exists_number?_iff.mpr hstays with ⟨n, hnumber⟩
    rcases exists_getElem?_fold hres combine state hnumber with ⟨entry, value, hentry⟩
    exact ⟨n, entry, value, getElem?_numbering_eq_some_iff.mpr hnumber, hentry⟩
  · intro n hn
    rcases (renumbers_fold hres combine state).onto hn with ⟨pos, hpos⟩
    exact ⟨pos, getElem?_numbering_eq_some_iff.mpr hpos⟩

def interleaved : Array (Entry Nat Nat) :=
  #[⟨1, 1⟩, ⟨2, 2⟩, ⟨1, 3⟩, ⟨3, 4⟩, ⟨2, 5⟩, ⟨1, 6⟩]

theorem dropped_entries_are_superseded_interleaved :
    let repeats := [⟨0, 2⟩, ⟨1, 4⟩, ⟨0, 5⟩]
    let gone := superseded interleaved.size repeats
    let combine := fun (_ : Nat) earlier later => (pure (10 * earlier + later) : StateM Unit Nat)
    (exists index, place false interleaved (Chained.empty (fun _ : Nat => 0) interleaved.size) =
        .done index repeats) ∧
      (exists index, place false interleaved (Keyed.empty : Keyed Nat) = .done index repeats) ∧
      numbering gone = #[some 0, some 1, none, some 2, none, none] ∧
      ((fold combine interleaved repeats).run ()).1 = #[⟨1, 136⟩, ⟨2, 25⟩, ⟨3, 4⟩] ∧
      forall pos : Nat, ((foldValues combine interleaved repeats).run ()).1[pos]? = some none ↔
        gone[pos]? = some true := by
  intro repeats gone combine
  have hchained : exists index, place false interleaved
      (Chained.empty (fun _ : Nat => 0) interleaved.size) = .done index repeats :=
    ⟨_, by cbv⟩
  have hkeyed : exists index, place false interleaved (Keyed.empty : Keyed Nat) =
      .done index repeats :=
    ⟨_, by cbv⟩
  rcases dropped_entries_are_superseded (Or.inl hchained) combine () with
    ⟨_, _, _, _, _, _, hempty, _⟩
  exact ⟨hchained, hkeyed, by cbv, by cbv, hempty⟩

end Repeats
end SealedMap
