import Mathlib.Data.List.Basic
import SealedMap.Proofs.Resolution

/-!
# Folding repeats is a left fold over the entries

Folding takes values out of slots along the list of repeats, many keys
interleaved.  Taking the entries in one by one, each into the entry already held
for its key or behind all others, calls the combining function with the same
arguments in the same order, and leaves the same entries.
-/

namespace SealedMap

open Index (Repeat holdsAt)
open Repeats (foldStep foldValues keepFilled refill)

variable {σ K V : Type}

/-! ## Taking entries in -/

section TakeIn

variable [BEq K]

/-- Combines an entry into the one held for its key, or holds it behind the others. -/
def takeIn (combine : K -> V -> V -> StateM σ V) (entry : Entry K V) :
    List (Entry K V) -> StateM σ (List (Entry K V))
  | [] => pure [entry]
  | held :: rest =>
      if held.key == entry.key then do
        let value <- combine held.key held.value entry.value
        pure (⟨held.key, value⟩ :: rest)
      else do
        let taken <- takeIn combine entry rest
        pure (held :: taken)

def leftFold (combine : K -> V -> V -> StateM σ V) (entries : List (Entry K V)) :
    StateM σ (List (Entry K V)) :=
  entries.foldlM (fun held entry => takeIn combine entry held) []

variable {combine : K -> V -> V -> StateM σ V} {entry held : Entry K V}
  {items front back : List (Entry K V)}

theorem run_takeIn_cons_of_ne (h : (held.key == entry.key) = false) (state : σ) :
    (takeIn combine entry (held :: items)).run state =
      (held :: ((takeIn combine entry items).run state).1,
        ((takeIn combine entry items).run state).2) := by
  rw [takeIn, h]
  rfl

theorem run_takeIn_of_new
    (h : forall other, other ∈ items -> (other.key == entry.key) = false) (state : σ) :
    (takeIn combine entry items).run state = (items ++ [entry], state) := by
  induction items with
  | nil => rfl
  | cons other rest ih =>
      have hrest := ih fun third hthird => h third (List.mem_cons_of_mem other hthird)
      rw [run_takeIn_cons_of_ne (h other List.mem_cons_self), hrest]
      rfl

theorem run_takeIn_of_held
    (hfront : forall other, other ∈ front -> (other.key == entry.key) = false)
    (hheld : (held.key == entry.key) = true) (state : σ) :
    (takeIn combine entry (front ++ held :: back)).run state =
      (front ++ ⟨held.key, ((combine held.key held.value entry.value).run state).1⟩ :: back,
        ((combine held.key held.value entry.value).run state).2) := by
  induction front with
  | nil =>
      rw [List.nil_append, takeIn, hheld]
      rfl
  | cons other rest ih =>
      have hrest := ih fun third hthird => hfront third (List.mem_cons_of_mem other hthird)
      rw [List.cons_append, run_takeIn_cons_of_ne (hfront other List.mem_cons_self), hrest]
      rfl

theorem run_leftFold_concat (state : σ) :
    (leftFold combine (items ++ [entry])).run state =
      (takeIn combine entry ((leftFold combine items).run state).1).run
        ((leftFold combine items).run state).2 := by
  unfold leftFold
  rw [List.foldlM_append, StateT.run_bind]
  rcases (items.foldlM (fun held entry => takeIn combine entry held) []).run state with
    ⟨held, after⟩
  rfl

end TakeIn

/-! ## Slots as held entries -/

def heldAt (entries : Array (Entry K V)) (slots : Array (Option V)) (pos : Nat) :
    Option (Entry K V) :=
  entries[pos]?.bind fun entry => slots[pos]?.join.map fun value => ⟨entry.key, value⟩

def heldBelow (entries : Array (Entry K V)) (slots : Array (Option V)) (pos : Nat) :
    List (Entry K V) :=
  (List.range pos).filterMap (heldAt entries slots)

section Slots

variable {entries : Array (Entry K V)} {slots others : Array (Option V)} {pos first : Nat}

theorem heldAt_of_some {entry : Entry K V} {value : V} (hentry : entries[pos]? = some entry)
    (hslot : slots[pos]? = some (some value)) :
    heldAt entries slots pos = some ⟨entry.key, value⟩ := by
  rw [heldAt, hentry, hslot]
  rfl

theorem heldAt_of_none (hslot : slots[pos]? = some none) :
    heldAt entries slots pos = none := by
  rw [heldAt, hslot]
  cases entries[pos]? <;> rfl

theorem heldAt_congr (h : slots[pos]? = others[pos]?) :
    heldAt entries slots pos = heldAt entries others pos := by
  rw [heldAt, heldAt, h]

theorem heldBelow_key_ne [BEq K] {held : Entry K V} {key : K}
    (hkey : forall p, p < pos -> holdsAt entries key p = false)
    (hheld : held ∈ heldBelow entries slots pos) :
    (held.key == key) = false := by
  rcases List.mem_filterMap.mp hheld with ⟨p, hp, hsome⟩
  rcases Option.bind_eq_some_iff.mp hsome with ⟨entry, hentry, hmap⟩
  rcases Option.map_eq_some_iff.mp hmap with ⟨value, _, rfl⟩
  rw [← holdsAt_eq hentry]
  exact hkey p (List.mem_range.mp hp)

theorem heldBelow_succ (entries : Array (Entry K V)) (slots : Array (Option V)) (pos : Nat) :
    heldBelow entries slots (pos + 1) =
      heldBelow entries slots pos ++ (heldAt entries slots pos).toList := by
  unfold heldBelow
  rw [List.range_succ, List.filterMap_append]
  cases h : heldAt entries slots pos with
  | none => simp [h]
  | some held => simp [h]

def heldBetween (entries : Array (Entry K V)) (slots : Array (Option V)) (first pos : Nat) :
    List (Entry K V) :=
  ((List.range (pos - (first + 1))).map (first + 1 + ·)).filterMap (heldAt entries slots)

theorem heldBelow_split (hlt : first < pos) :
    heldBelow entries slots pos =
      heldBelow entries slots first ++
        ((heldAt entries slots first).toList ++ heldBetween entries slots first pos) := by
  have hpos : pos = first + 1 + (pos - (first + 1)) := by omega
  rw [← List.append_assoc, ← heldBelow_succ, heldBetween, heldBelow, heldBelow,
    ← List.filterMap_append, ← List.range_add, ← hpos]

theorem heldBelow_congr (h : forall p, p < pos -> slots[p]? = others[p]?) :
    heldBelow entries slots pos = heldBelow entries others pos := by
  unfold heldBelow
  apply List.filterMap_congr
  intro p hp
  exact heldAt_congr (h p (List.mem_range.mp hp))

theorem heldBetween_congr
    (h : forall p, first < p -> p < pos -> slots[p]? = others[p]?) :
    heldBetween entries slots first pos = heldBetween entries others first pos := by
  unfold heldBetween
  apply List.filterMap_congr
  intro p hp
  rcases List.mem_map.mp hp with ⟨offset, hoffset, rfl⟩
  have hlt := List.mem_range.mp hoffset
  exact heldAt_congr (h _ (by omega) (by omega))

theorem toList_keepFilled_eq_heldBelow (hsize : slots.size = entries.size) :
    (keepFilled entries slots).toList = heldBelow entries slots entries.size := by
  have hlen : (entries.toList.zip slots.toList).length = entries.size := by
    rw [List.length_zip, Array.length_toList, Array.length_toList, hsize, Nat.min_self]
  rw [Repeats.toList_keepFilled, ← filterMap_range_getElem?, hlen, heldBelow]
  apply List.filterMap_congr
  intro p hp
  have hlt := List.mem_range.mp hp
  have hentry := Array.getElem?_eq_getElem hlt
  have hslot : slots[p]? = some slots[p] := Array.getElem?_eq_getElem (hsize ▸ hlt)
  have hitem : (entries.toList.zip slots.toList)[p]? = some (entries[p], slots[p]) := by
    rw [List.getElem?_zip_eq_some, Array.getElem?_toList, Array.getElem?_toList]
    exact ⟨hentry, hslot⟩
  rw [hitem, heldAt, hentry, hslot]
  rfl

end Slots

/-! ## The fold, position by position -/

variable [BEq K]

/-- Slots in which the repeats below a position have been folded. -/
structure Folded (entries : Array (Entry K V)) (pos : Nat) (slots : Array (Option V)) :
    Prop where
  size_eq : slots.size = entries.size
  ahead : forall {p : Nat} {entry : Entry K V}, pos ≤ p -> entries[p]? = some entry ->
    slots[p]? = some (some entry.value)
  first : forall {p : Nat}, p < pos -> IsFirst entries p ->
    exists value, slots[p]? = some (some value)

theorem folded_start (entries : Array (Entry K V)) :
    Folded entries 0 (entries.map fun entry => some entry.value) where
  size_eq := Array.size_map
  ahead := by
    intro p entry _ hentry
    rw [Array.getElem?_map, hentry]
    rfl
  first := by
    intro p hlt
    cases hlt

section Step

variable {entries : Array (Entry K V)} {slots : Array (Option V)} {pos : Nat}
  {entry : Entry K V} (h : Folded entries pos slots) (hentry : entries[pos]? = some entry)

include h hentry

theorem Folded.step_of_first :
    Folded entries (pos + 1) slots where
  size_eq := h.size_eq
  ahead := fun hle hother => h.ahead (Nat.le_of_succ_le hle) hother
  first := by
    intro p hlt hfirst
    rcases Nat.lt_succ_iff_lt_or_eq.mp hlt with hlt | rfl
    · exact h.first hlt hfirst
    · exact ⟨entry.value, h.ahead (Nat.le_refl p) hentry⟩

theorem heldBelow_succ_of_first :
    heldBelow entries slots (pos + 1) = heldBelow entries slots pos ++ [entry] := by
  rw [heldBelow_succ, heldAt_of_some hentry (h.ahead (Nat.le_refl pos) hentry)]
  rfl

theorem Folded.step_of_repeat {first : Nat} (hnot : ¬ IsFirst entries pos) (hlt : first < pos)
    (value : V) :
    Folded entries (pos + 1)
      ((slots.setIfInBounds pos none).setIfInBounds first (some value)) where
  size_eq := by
    rw [Array.size_setIfInBounds, Array.size_setIfInBounds, h.size_eq]
  ahead := by
    intro p other hle hother
    rw [Array.getElem?_setIfInBounds_ne (by omega), Array.getElem?_setIfInBounds_ne (by omega)]
    exact h.ahead (Nat.le_of_succ_le hle) hother
  first := by
    intro p hp hfirst
    have hsize := (Array.getElem?_eq_some_iff.mp hentry).1
    by_cases hpfirst : first = p
    · subst hpfirst
      refine ⟨value, Array.getElem?_setIfInBounds_self_of_lt ?_⟩
      rw [Array.size_setIfInBounds, h.size_eq]
      omega
    · have hne : pos ≠ p := by
        intro heq
        exact hnot (heq ▸ hfirst)
      rw [Array.getElem?_setIfInBounds_ne hpfirst, Array.getElem?_setIfInBounds_ne hne]
      exact h.first (by omega) hfirst

theorem heldBelow_succ_of_repeat {first : Nat} {held : Entry K V} (hlt : first < pos)
    (hheld : entries[first]? = some held) (value : V) :
    heldBelow entries ((slots.setIfInBounds pos none).setIfInBounds first (some value))
        (pos + 1) =
      heldBelow entries slots first ++
        ⟨held.key, value⟩ :: heldBetween entries slots first pos := by
  have hpos : pos < slots.size := by
    rw [h.size_eq]
    exact (Array.getElem?_eq_some_iff.mp hentry).1
  have hsame : forall p, p ≠ first -> p < pos ->
      ((slots.setIfInBounds pos none).setIfInBounds first (some value))[p]? = slots[p]? := by
    intro p hne hp
    rw [Array.getElem?_setIfInBounds_ne (Ne.symm hne),
      Array.getElem?_setIfInBounds_ne (Nat.ne_of_gt hp)]
  have hgone : ((slots.setIfInBounds pos none).setIfInBounds first (some value))[pos]? =
      some none := by
    rw [Array.getElem?_setIfInBounds_ne (Nat.ne_of_lt hlt),
      Array.getElem?_setIfInBounds_self_of_lt hpos]
  have hfirst : ((slots.setIfInBounds pos none).setIfInBounds first (some value))[first]? =
      some (some value) := by
    apply Array.getElem?_setIfInBounds_self_of_lt
    rw [Array.size_setIfInBounds]
    omega
  rw [heldBelow_succ, heldAt_of_none hgone, heldBelow_split hlt,
    heldAt_of_some hheld hfirst,
    heldBelow_congr fun p hp => hsame p (Nat.ne_of_lt hp) (Nat.lt_trans hp hlt),
    heldBetween_congr fun p hp hp' => hsame p (Nat.ne_of_gt hp) hp']
  exact List.append_nil _

end Step

/-! ## Folding all repeats -/

def foldedBelow (combine : K -> V -> V -> StateM σ V) (entries : Array (Entry K V))
    (pos : Nat) : StateM σ (Array (Option V)) :=
  (repeatsBelow entries pos).foldlM (foldStep combine entries)
    (entries.map fun entry => some entry.value)

theorem foldedBelow_succ_of_none {entries : Array (Entry K V)} {pos : Nat}
    (h : repeatAt? entries pos = none) (combine : K -> V -> V -> StateM σ V) :
    foldedBelow combine entries (pos + 1) = foldedBelow combine entries pos := by
  rw [foldedBelow, repeatsBelow_succ, h]
  simp [foldedBelow]

theorem run_foldedBelow_succ_of_some {entries : Array (Entry K V)} {pos : Nat} {r : Repeat}
    (h : repeatAt? entries pos = some r) (combine : K -> V -> V -> StateM σ V) (state : σ) :
    (foldedBelow combine entries (pos + 1)).run state =
      (foldStep combine entries ((foldedBelow combine entries pos).run state).1 r).run
        ((foldedBelow combine entries pos).run state).2 := by
  rw [foldedBelow, repeatsBelow_succ, h]
  exact Repeats.run_foldValues_concat combine entries (repeatsBelow entries pos) r state

/-- Below a position the slots hold what the left fold holds, in the same state. -/
def FoldsLeft (combine : K -> V -> V -> StateM σ V) (entries : Array (Entry K V))
    (state : σ) (pos : Nat) : Prop :=
  Folded entries pos ((foldedBelow combine entries pos).run state).1 ∧
    (leftFold combine (entries.toList.take pos)).run state =
      (heldBelow entries ((foldedBelow combine entries pos).run state).1 pos,
        ((foldedBelow combine entries pos).run state).2)

theorem run_leftFold_take_succ {combine : K -> V -> V -> StateM σ V}
    {entries : Array (Entry K V)} {state : σ} {pos : Nat} {entry : Entry K V}
    (h : FoldsLeft combine entries state pos) (hentry : entries[pos]? = some entry) :
    (leftFold combine (entries.toList.take (pos + 1))).run state =
      (takeIn combine entry
        (heldBelow entries ((foldedBelow combine entries pos).run state).1 pos)).run
          ((foldedBelow combine entries pos).run state).2 := by
  have htake : entries.toList.take (pos + 1) = entries.toList.take pos ++ [entry] := by
    rw [List.take_add_one, Array.getElem?_toList, hentry]
    rfl
  rw [htake, run_leftFold_concat, h.2]

theorem FoldsLeft.step_of_first {combine : K -> V -> V -> StateM σ V}
    {entries : Array (Entry K V)} {state : σ} {pos : Nat}
    (h : FoldsLeft combine entries state pos) (hfirst : IsFirst entries pos)
    (hrepeat : repeatAt? entries pos = none) :
    FoldsLeft combine entries state (pos + 1) := by
  rcases hfirst with ⟨entry, hentry, hposition⟩
  have hnew := (firstPosition?_eq_some_iff.mp hposition).2
  refine ⟨?_, ?_⟩
  · rw [foldedBelow_succ_of_none hrepeat]
    exact h.1.step_of_first hentry
  · rw [run_leftFold_take_succ h hentry, foldedBelow_succ_of_none hrepeat,
      heldBelow_succ_of_first h.1 hentry]
    exact run_takeIn_of_new (fun held hheld => heldBelow_key_ne hnew hheld) _

variable [EquivBEq K]

theorem FoldsLeft.step_of_repeat {combine : K -> V -> V -> StateM σ V}
    {entries : Array (Entry K V)} {state : σ} {pos : Nat}
    (h : FoldsLeft combine entries state pos) {first : Nat}
    (hrepeat : repeatAt? entries pos = some ⟨first, pos⟩) :
    FoldsLeft combine entries state (pos + 1) := by
  rcases repeatAt?_eq_some_iff.mp hrepeat with ⟨_, hlt, entry, hentry, hposition⟩
  have hnot : ¬ IsFirst entries pos := by
    rw [← repeatAt?_eq_none_iff (Array.getElem?_eq_some_iff.mp hentry).1, hrepeat]
    exact Option.some_ne_none _
  rcases firstPosition?_eq_some_iff.mp hposition with ⟨hholds, hnew⟩
  rcases holdsAt_iff.mp hholds with ⟨held, hheld, hkey⟩
  rcases h.1.first hlt (isFirst_of_firstPosition? hposition) with ⟨earlier, hearlier⟩
  have hlater := h.1.ahead (Nat.le_refl pos) hentry
  have hstep := @Repeats.run_foldStep σ K V combine entries _ ⟨first, pos⟩ held earlier entry.value
    hheld hearlier hlater (Nat.ne_of_lt hlt) ((foldedBelow combine entries pos).run state).2
  refine ⟨?_, ?_⟩
  · rw [run_foldedBelow_succ_of_some hrepeat, hstep]
    exact h.1.step_of_repeat hentry hnot hlt _
  · rw [run_leftFold_take_succ h hentry, run_foldedBelow_succ_of_some hrepeat, hstep,
      heldBelow_split hlt, heldAt_of_some hheld hearlier,
      heldBelow_succ_of_repeat h.1 hentry hlt hheld]
    have hsame : ((⟨held.key, earlier⟩ : Entry K V).key == entry.key) = true := hkey
    exact run_takeIn_of_held (fun other hother => heldBelow_key_ne hnew hother) hsame _

theorem foldsLeft_of_le (combine : K -> V -> V -> StateM σ V) (entries : Array (Entry K V))
    (state : σ) {pos : Nat} (hpos : pos ≤ entries.size) :
    FoldsLeft combine entries state pos := by
  induction pos with
  | zero => exact ⟨folded_start entries, rfl⟩
  | succ pos ih =>
      have h := ih (Nat.le_of_succ_le hpos)
      cases hrepeat : repeatAt? entries pos with
      | none => exact h.step_of_first ((repeatAt?_eq_none_iff hpos).mp hrepeat) hrepeat
      | some r =>
          have hlater := (repeatAt?_eq_some_iff.mp hrepeat).1
          have hr : r = ⟨r.first, pos⟩ := by rw [← hlater]
          exact h.step_of_repeat (hr ▸ hrepeat)

/-- Folding the repeats of entries is taking the entries in from left to right. -/
theorem run_leftFold_toList (combine : K -> V -> V -> StateM σ V)
    (entries : Array (Entry K V)) (state : σ) :
    (leftFold combine entries.toList).run state =
      (((Repeats.fold combine entries (repeatsOf entries)).run state).1.toList,
        ((Repeats.fold combine entries (repeatsOf entries)).run state).2) := by
  rcases foldsLeft_of_le combine entries state (Nat.le_refl entries.size) with ⟨hfolded, hrun⟩
  rw [← Array.length_toList, List.take_length] at hrun
  rw [hrun, Repeats.run_fold, toList_keepFilled_eq_heldBelow, Array.length_toList]
  · rfl
  · exact hfolded.size_eq

end SealedMap
