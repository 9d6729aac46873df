import SealedMap.Proofs.Renumbering

/-!
# Folding repeats

Each repeat takes the values out of its two slots and puts the combined value
back into the first one, so the slots that are empty in the end are those of
the later positions.  Every repeat finds both its values.  What is left are the
entries that stay, in their order and with their keys.
-/

namespace SealedMap
namespace Repeats

open Index (Repeat Resolvable Stays stays_concat_iff)

variable {σ K V : Type}

/-- The slots that hold a value are those of the positions that stay. -/
def Filled (len : Nat) (repeats : List Repeat) (slots : Array (Option V)) : Prop :=
  slots.size = len ∧
    forall pos, pos < len -> ((exists v, slots[pos]? = some (some v)) ↔ Stays repeats pos)

theorem stays_of_resolvable {len : Nat} {done rest : List Repeat} {r : Repeat}
    (h : Resolvable len (done ++ r :: rest)) :
    Stays done r.first ∧ Stays done r.later := by
  have hr : r ∈ done ++ r :: rest := List.mem_append_right _ List.mem_cons_self
  constructor
  · intro s hs
    exact h.first_stays r hr s (List.mem_append_left _ hs)
  · intro s hs
    have hasc := (List.pairwise_append.mp h.ascending).2.2
    exact Nat.ne_of_lt (hasc s hs r List.mem_cons_self)

theorem filled_start (entries : Array (Entry K V)) :
    Filled entries.size [] (entries.map fun entry => some entry.value) := by
  refine ⟨Array.size_map, ?_⟩
  intro pos hpos
  constructor
  · intro _ r hr
    cases hr
  · intro _
    refine ⟨entries[pos].value, ?_⟩
    rw [Array.getElem?_map, Array.getElem?_eq_getElem hpos]
    rfl

/-! ## One repeat -/

theorem setIfInBounds_putBack (slots : Array (Option V)) {first later : Nat}
    (hne : first ≠ later) (value : Option V) :
    ((slots.setIfInBounds first none).setIfInBounds later none).setIfInBounds first value =
      (slots.setIfInBounds later none).setIfInBounds first value := by
  rw [Array.setIfInBounds_comm _ _ hne, Array.setIfInBounds_setIfInBounds]

theorem run_foldStep {combine : K -> V -> V -> StateM σ V} {entries : Array (Entry K V)}
    {slots : Array (Option V)} {r : Repeat} {entry : Entry K V} {earlier later : V}
    (hentry : entries[r.first]? = some entry)
    (hfirst : slots[r.first]? = some (some earlier))
    (hlater : slots[r.later]? = some (some later)) (hne : r.first ≠ r.later) (state : σ) :
    (foldStep combine entries slots r).run state =
      ((slots.setIfInBounds r.later none).setIfInBounds r.first
          (some ((combine entry.key earlier later).run state).1),
        ((combine entry.key earlier later).run state).2) := by
  have hrest : (slots.setIfInBounds r.first none)[r.later]? = some (some later) := by
    rw [Array.getElem?_setIfInBounds_ne hne, hlater]
  unfold foldStep
  dsimp only
  rw [hentry, hfirst, hrest, ← setIfInBounds_putBack slots hne]
  rfl

theorem filled_set {len : Nat} {done : List Repeat} {slots : Array (Option V)}
    {r : Repeat} (hfilled : Filled len done slots) (hfirst : Stays done r.first)
    (hlt : r.first < r.later) (hlater : r.later < len) (value : V) :
    Filled len (done ++ [r])
      ((slots.setIfInBounds r.later none).setIfInBounds r.first (some value)) := by
  rcases hfilled with ⟨hsize, hslots⟩
  refine ⟨by rw [Array.size_setIfInBounds, Array.size_setIfInBounds, hsize], ?_⟩
  intro pos hpos
  rw [stays_concat_iff, Array.getElem?_setIfInBounds, Array.getElem?_setIfInBounds,
    Array.size_setIfInBounds, hsize]
  by_cases hposfirst : r.first = pos
  · subst hposfirst
    simp [hpos, hfirst, Nat.ne_of_gt hlt]
  · by_cases hposlater : r.later = pos
    · subst hposlater
      simp [hposfirst, hlater]
    · simp [hposfirst, hposlater, hslots pos hpos]

/-- The step lemma: combining a repeat empties exactly its later slot. -/
theorem filled_foldStep (combine : K -> V -> V -> StateM σ V)
    {entries : Array (Entry K V)} {done rest : List Repeat} {slots : Array (Option V)}
    {r : Repeat} (hres : Resolvable entries.size (done ++ r :: rest))
    (hfilled : Filled entries.size done slots) (state : σ) :
    Filled entries.size (done ++ [r])
      ((foldStep combine entries slots r).run state).1 := by
  have hr : r ∈ done ++ r :: rest := List.mem_append_right _ List.mem_cons_self
  have hlt := hres.first_lt r hr
  have hlater := hres.later_lt r hr
  have hfirst := Nat.lt_trans hlt hlater
  rcases stays_of_resolvable hres with ⟨hstaysFirst, hstaysLater⟩
  rcases (hfilled.2 r.first hfirst).mpr hstaysFirst with ⟨a, ha⟩
  rcases (hfilled.2 r.later hlater).mpr hstaysLater with ⟨b, hb⟩
  rw [run_foldStep (Array.getElem?_eq_getElem hfirst) ha hb (Nat.ne_of_lt hlt)]
  exact filled_set hfilled hstaysFirst hlt hlater _

/-! ## All repeats -/

theorem run_foldlM_cons {combine : K -> V -> V -> StateM σ V}
    {entries : Array (Entry K V)} {slots : Array (Option V)} {r : Repeat}
    {rest : List Repeat} (state : σ) :
    ((r :: rest).foldlM (foldStep combine entries) slots).run state =
      (rest.foldlM (foldStep combine entries)
        ((foldStep combine entries slots r).run state).1).run
          ((foldStep combine entries slots r).run state).2 := by
  rw [List.foldlM_cons]
  rfl

theorem filled_foldlM {combine : K -> V -> V -> StateM σ V}
    {entries : Array (Entry K V)} {done rest : List Repeat} {slots : Array (Option V)}
    (hres : Resolvable entries.size (done ++ rest))
    (hfilled : Filled entries.size done slots) (state : σ) :
    Filled entries.size (done ++ rest)
      ((rest.foldlM (foldStep combine entries) slots).run state).1 := by
  -- On the repeats still to come; `done` are those that the slots account for.
  induction rest generalizing done slots state with
  | nil =>
      rw [List.append_nil]
      exact hfilled
  | cons r rest ih =>
      rw [run_foldlM_cons]
      have hstep := filled_foldStep combine hres hfilled state
      rw [List.append_cons] at hres ⊢
      exact ih hres hstep _

theorem run_foldValues_concat (combine : K -> V -> V -> StateM σ V) (entries : Array (Entry K V))
    (repeats : List Repeat) (r : Repeat) (state : σ) :
    (foldValues combine entries (repeats ++ [r])).run state =
      (foldStep combine entries ((foldValues combine entries repeats).run state).1 r).run
        ((foldValues combine entries repeats).run state).2 := by
  have hconcat : foldValues combine entries (repeats ++ [r]) =
      foldValues combine entries repeats >>= fun slots => foldStep combine entries slots r := by
    rw [foldValues, List.foldlM_append]
    simp [foldValues]
  rw [hconcat, StateT.run_bind]
  rfl

/-- The run lemma: in the end the slots of the positions that stay are filled. -/
theorem filled_foldValues {entries : Array (Entry K V)} {repeats : List Repeat}
    (hres : Resolvable entries.size repeats) (combine : K -> V -> V -> StateM σ V)
    (state : σ) :
    Filled entries.size repeats ((foldValues combine entries repeats).run state).1 := by
  have hstart := filled_start entries
  exact filled_foldlM hres hstart state

theorem run_fold (combine : K -> V -> V -> StateM σ V) (entries : Array (Entry K V))
    (repeats : List Repeat) (state : σ) :
    (fold combine entries repeats).run state =
      (keepFilled entries ((foldValues combine entries repeats).run state).1,
        ((foldValues combine entries repeats).run state).2) := rfl

/-! ## What is kept -/

def refill (item : Entry K V × Option V) : Option (Entry K V) :=
  item.2.map fun value => ⟨item.1.key, value⟩

theorem toList_keepFilled (entries : Array (Entry K V)) (slots : Array (Option V)) :
    (keepFilled entries slots).toList =
      (entries.toList.zip slots.toList).filterMap refill := by
  rw [keepFilled, Array.toList_filterMap, Array.toList_zip]
  rfl

theorem run_fold_nil (combine : K -> V -> V -> StateM σ V) (entries : Array (Entry K V))
    (state : σ) :
    (fold combine entries []).run state = (entries, state) := by
  have hkeep : keepFilled entries (entries.map fun entry => some entry.value) = entries := by
    apply Array.toList_inj.mp
    rw [toList_keepFilled, Array.toList_map]
    induction entries.toList with
    | nil => rfl
    | cons entry rest ih =>
        have hentry : refill (entry, some entry.value) = some entry := rfl
        rw [List.map_cons, List.zip_cons_cons, List.filterMap_cons_some hentry, ih]
  exact Prod.ext hkeep rfl

theorem selects_refill {entries : Array (Entry K V)} {slots : Array (Option V)}
    {repeats : List Repeat} (hfilled : Filled entries.size repeats slots) :
    Selects refill (entries.toList.zip slots.toList)
      (superseded entries.size repeats).toList := by
  rcases hfilled with ⟨hsize, hslots⟩
  apply selects_zip
  · intro entry slot
    exact Option.isSome_map
  · apply Nat.le_of_eq
    rw [Array.length_toList, Array.length_toList, hsize]
  · apply List.ext_getElem?
    intro pos
    rw [List.getElem?_map, List.getElem?_map, Array.getElem?_toList, Array.getElem?_toList,
      superseded_getElem?]
    split
    next hlt =>
      have hslot : slots[pos]? = some slots[pos] := Array.getElem?_eq_getElem (hsize ▸ hlt)
      have hsome : slots[pos].isSome = true ↔ Stays repeats pos := by
        rw [← hslots pos hlt, hslot, Option.isSome_iff_exists]
        simp
      rw [hslot, Option.map_some, Option.map_some, Option.some.injEq, Bool.eq_iff_iff, hsome,
        Bool.not_eq_true', any_later_eq_false_iff]
    next hge =>
      rw [Array.getElem?_eq_none (by omega)]
      rfl

section Kept

variable {entries : Array (Entry K V)} {repeats : List Repeat}
  (hres : Resolvable entries.size repeats) (combine : K -> V -> V -> StateM σ V) (state : σ)

include hres

theorem exists_getElem?_fold {pos n : Nat}
    (hnumber : number? (superseded entries.size repeats) pos = some n) :
    exists entry value, entries[pos]? = some entry ∧
      ((foldValues combine entries repeats).run state).1[pos]? = some (some value) ∧
      ((fold combine entries repeats).run state).1[n]? = some ⟨entry.key, value⟩ := by
  have hfilled := filled_foldValues hres combine state
  have hselects := selects_refill hfilled
  rw [run_fold]
  generalize ((foldValues combine entries repeats).run state).1 = slots at *
  have hkept := exists_number?_iff.mp ⟨n, hnumber⟩
  rcases superseded_eq_false_iff.mp hkept with ⟨hlt, hstays⟩
  rcases (hfilled.2 pos hlt).mpr hstays with ⟨value, hvalue⟩
  have hentry := Array.getElem?_eq_getElem hlt
  have hitem : (entries.toList.zip slots.toList)[pos]? = some (entries[pos], some value) := by
    rw [List.getElem?_zip_eq_some, Array.getElem?_toList, Array.getElem?_toList]
    exact ⟨hentry, hvalue⟩
  refine ⟨entries[pos], value, hentry, hvalue, ?_⟩
  rw [← Array.getElem?_toList, toList_keepFilled]
  exact getElem?_filterMap_numberFrom hselects (number?_eq_some_iff.mp hnumber) hitem

theorem renumbers_fold :
    Renumbers (superseded entries.size repeats) entries
      ((fold combine entries repeats).run state).1 := by
  refine ⟨size_superseded _ _, ?_, ?_⟩
  · intro pos n hnumber
    rcases exists_getElem?_fold hres combine state hnumber with ⟨entry, value, hentry, _, hafter⟩
    exact ⟨entry, ⟨entry.key, value⟩, hentry, hafter, rfl⟩
  · intro n hn
    rw [run_fold, ← Array.length_toList, toList_keepFilled] at hn
    rcases exists_numberFrom 0 (selects_refill (filled_foldValues hres combine state)) hn with
      ⟨pos, hpos⟩
    rw [Nat.zero_add] at hpos
    exact ⟨pos, number?_eq_some_iff.mpr hpos⟩

end Kept

end Repeats
end SealedMap
