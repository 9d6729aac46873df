import SealedMap.Proofs.Placement
import SealedMap.Repeats

/-!
# New numbers for the positions that stay

When later occurrences are dropped, the positions that stay are counted again
from zero.  A kept position's number is where its entry stands afterwards, the
numbers ascend with the positions, and none is left out.  `Renumbers` collects
what an index needs to know to follow its entries.
-/

namespace SealedMap
namespace Repeats

open Index (Repeat Resolvable Stays)

variable {α β γ K V : Type}

/-! ## Counting positions -/

theorem numberFrom_stays (next : Nat) (gone : List Bool) :
    numberFrom next (false :: gone) = some next :: numberFrom (next + 1) gone := rfl

theorem numberFrom_gone (next : Nat) (gone : List Bool) :
    numberFrom next (true :: gone) = none :: numberFrom next gone := rfl

theorem length_numberFrom (next : Nat) (gone : List Bool) :
    (numberFrom next gone).length = gone.length := by
  induction gone generalizing next with
  | nil => rfl
  | cons g gone ih =>
      cases g with
      | false => rw [numberFrom_stays, List.length_cons, List.length_cons, ih]
      | true => rw [numberFrom_gone, List.length_cons, List.length_cons, ih]

theorem isSome_numberFrom (next : Nat) (gone : List Bool) :
    (numberFrom next gone).map Option.isSome = gone.map not := by
  induction gone generalizing next with
  | nil => rfl
  | cons g gone ih =>
      cases g with
      | false =>
          rw [numberFrom_stays, List.map_cons, List.map_cons, ih, Option.isSome_some,
            Bool.not_false]
      | true =>
          rw [numberFrom_gone, List.map_cons, List.map_cons, ih, Option.isSome_none,
            Bool.not_true]

theorem le_of_numberFrom {next pos n : Nat} {gone : List Bool}
    (h : (numberFrom next gone)[pos]? = some (some n)) :
    next ≤ n := by
  induction gone generalizing next pos with
  | nil => cases h
  | cons g gone ih =>
      cases pos with
      | zero =>
          cases g with
          | false =>
              cases h
              exact Nat.le_refl _
          | true => cases h
      | succ pos =>
          cases g with
          | false =>
              rw [numberFrom_stays, List.getElem?_cons_succ] at h
              exact Nat.le_of_succ_le (ih h)
          | true =>
              rw [numberFrom_gone, List.getElem?_cons_succ] at h
              exact ih h

theorem numberFrom_lt {next p q m n : Nat} {gone : List Bool}
    (hp : (numberFrom next gone)[p]? = some (some m))
    (hq : (numberFrom next gone)[q]? = some (some n)) (hlt : p < q) :
    m < n := by
  induction gone generalizing next p q with
  | nil => cases hp
  | cons g gone ih =>
      cases q with
      | zero => cases hlt
      | succ q =>
          cases p with
          | zero =>
              cases g with
              | false =>
                  cases hp
                  rw [numberFrom_stays, List.getElem?_cons_succ] at hq
                  exact le_of_numberFrom hq
              | true => cases hp
          | succ p =>
              have hlt' := Nat.lt_of_succ_lt_succ hlt
              cases g with
              | false =>
                  rw [numberFrom_stays, List.getElem?_cons_succ] at hp hq
                  exact ih hp hq hlt'
              | true =>
                  rw [numberFrom_gone, List.getElem?_cons_succ] at hp hq
                  exact ih hp hq hlt'

/-! ## Keeping what stays -/

/-- The selection keeps an item exactly if its position is not gone. -/
def Selects (f : α -> Option β) (items : List α) (gone : List Bool) : Prop :=
  items.map (fun item => (f item).isSome) = gone.map not

theorem Selects.of_cons {f : α -> Option β} {item : α} {items : List α} {g : Bool}
    {gone : List Bool} (h : Selects f (item :: items) (g :: gone)) :
    (f item).isSome = !g ∧ Selects f items gone := by
  unfold Selects at h
  rw [List.map_cons, List.map_cons] at h
  injection h with hhead htail
  exact ⟨hhead, htail⟩

theorem selects_zip {f : α × Option β -> Option γ} {items : List α}
    {marks : List (Option β)} {gone : List Bool}
    (hf : forall a b, (f (a, b)).isSome = b.isSome)
    (hlen : marks.length ≤ items.length)
    (hmarks : marks.map Option.isSome = gone.map not) :
    Selects f (items.zip marks) gone := by
  have hsnd : (items.zip marks).map (fun item => (f item).isSome) =
      ((items.zip marks).map Prod.snd).map Option.isSome := by
    rw [List.map_map]
    exact List.map_congr_left fun item _ => hf item.1 item.2
  rw [Selects, hsnd, List.map_snd_zip hlen]
  exact hmarks

theorem getElem?_filterMap_numberFrom {f : α -> Option β} {next pos n : Nat}
    {gone : List Bool} {items : List α} {item : α} (hselects : Selects f items gone)
    (hnumber : (numberFrom next gone)[pos]? = some (some n))
    (hitem : items[pos]? = some item) :
    (items.filterMap f)[n - next]? = f item := by
  -- `next` counts the items kept so far, which the result does not show.
  induction gone generalizing next pos items with
  | nil => cases hnumber
  | cons g gone ih =>
      cases items with
      | nil => cases hitem
      | cons first rest =>
          rcases hselects.of_cons with ⟨hfirst, hrest⟩
          cases g with
          | false =>
              rcases Option.isSome_iff_exists.mp hfirst with ⟨b, hb⟩
              rw [List.filterMap_cons_some hb]
              cases pos with
              | zero =>
                  cases hnumber
                  cases hitem
                  rw [Nat.sub_self, List.getElem?_cons_zero, hb]
              | succ pos =>
                  rw [numberFrom_stays, List.getElem?_cons_succ] at hnumber
                  rw [List.getElem?_cons_succ] at hitem
                  have hle := le_of_numberFrom hnumber
                  rw [show n - next = n - (next + 1) + 1 by omega, List.getElem?_cons_succ]
                  exact ih hrest hnumber hitem
          | true =>
              have hnone : f first = none := by simpa using hfirst
              rw [List.filterMap_cons_none hnone]
              cases pos with
              | zero => cases hnumber
              | succ pos =>
                  rw [numberFrom_gone, List.getElem?_cons_succ] at hnumber
                  rw [List.getElem?_cons_succ] at hitem
                  exact ih hrest hnumber hitem

theorem exists_numberFrom {f : α -> Option β} (next : Nat) {n : Nat} {gone : List Bool}
    {items : List α} (hselects : Selects f items gone)
    (hn : n < (items.filterMap f).length) :
    exists pos : Nat, (numberFrom next gone)[pos]? = some (some (next + n)) := by
  induction gone generalizing next n items with
  | nil =>
      have hitems : items = [] := List.map_eq_nil_iff.mp hselects
      subst hitems
      cases hn
  | cons g gone ih =>
      cases items with
      | nil => cases hn
      | cons first rest =>
          rcases hselects.of_cons with ⟨hfirst, hrest⟩
          cases g with
          | false =>
              rcases Option.isSome_iff_exists.mp hfirst with ⟨b, hb⟩
              rw [List.filterMap_cons_some hb, List.length_cons] at hn
              cases n with
              | zero => exact ⟨0, rfl⟩
              | succ n =>
                  rcases ih (next + 1) hrest (Nat.lt_of_succ_lt_succ hn) with
                    ⟨pos, hpos⟩
                  refine ⟨pos + 1, ?_⟩
                  rw [numberFrom_stays, List.getElem?_cons_succ, hpos,
                    show next + 1 + n = next + (n + 1) by omega]
          | true =>
              have hnone : f first = none := by simpa using hfirst
              rw [List.filterMap_cons_none hnone] at hn
              rcases ih next hrest hn with ⟨pos, hpos⟩
              refine ⟨pos + 1, ?_⟩
              rw [numberFrom_gone, List.getElem?_cons_succ, hpos]

/-! ## The numbering of an array -/

def number? (gone : Array Bool) (pos : Nat) : Option Nat :=
  (numbering gone)[pos]?.join

theorem toList_numbering (gone : Array Bool) :
    (numbering gone).toList = numberFrom 0 gone.toList := rfl

theorem map_isSome_numbering (gone : Array Bool) (pos : Nat) :
    (numbering gone)[pos]?.map Option.isSome = gone[pos]?.map not := by
  rw [← Array.getElem?_toList, ← Array.getElem?_toList, toList_numbering, ← List.getElem?_map,
    ← List.getElem?_map, isSome_numberFrom]

theorem getElem?_numbering_of_gone {gone : Array Bool} {pos : Nat}
    (h : gone[pos]? = some true) :
    (numbering gone)[pos]? = some none := by
  have hsome := map_isSome_numbering gone pos
  rw [h] at hsome
  rcases Option.map_eq_some_iff.mp hsome with ⟨number, hnumber, hnone⟩
  cases number with
  | none => exact hnumber
  | some n => cases hnone

theorem number?_eq_some_iff {gone : Array Bool} {pos n : Nat} :
    number? gone pos = some n ↔ (numberFrom 0 gone.toList)[pos]? = some (some n) := by
  rw [number?, ← Array.getElem?_toList, toList_numbering]
  cases (numberFrom 0 gone.toList)[pos]? with
  | none => simp
  | some number => cases number <;> simp

theorem getElem?_numbering_eq_some_iff {gone : Array Bool} {pos n : Nat} :
    (numbering gone)[pos]? = some (some n) ↔ number? gone pos = some n := by
  rw [number?_eq_some_iff, ← Array.getElem?_toList, toList_numbering]

theorem number?_lt {gone : Array Bool} {p q m n : Nat} (hp : number? gone p = some m)
    (hq : number? gone q = some n) (hlt : p < q) :
    m < n :=
  numberFrom_lt (number?_eq_some_iff.mp hp) (number?_eq_some_iff.mp hq) hlt

theorem exists_number?_iff {gone : Array Bool} {pos : Nat} :
    (exists n, number? gone pos = some n) ↔ gone[pos]? = some false := by
  have hsome := map_isSome_numbering gone pos
  simp only [← getElem?_numbering_eq_some_iff]
  constructor
  · intro hnumber
    rcases hnumber with ⟨n, hn⟩
    rw [hn, Option.map_some, Option.isSome_some] at hsome
    rcases Option.map_eq_some_iff.mp hsome.symm with ⟨g, hg, hnot⟩
    rw [hg, (Bool.not_eq_true' g).mp hnot]
  · intro hgone
    rw [hgone, Option.map_some, Bool.not_false] at hsome
    rcases Option.map_eq_some_iff.mp hsome with ⟨number, hnumber, hisSome⟩
    rcases Option.isSome_iff_exists.mp hisSome with ⟨n, rfl⟩
    exact ⟨n, hnumber⟩

/-- The entries of `new` are those of `old` that are not gone, with the same keys. -/
structure Renumbers (gone : Array Bool) (old new : Array (Entry K V)) : Prop where
  size_eq : gone.size = old.size
  key_eq : forall {pos n : Nat}, number? gone pos = some n ->
    exists before after,
      old[pos]? = some before ∧ new[n]? = some after ∧ after.key = before.key
  onto : forall {n : Nat}, n < new.size -> exists pos, number? gone pos = some n

/-! ## Which positions are superseded -/

theorem foldl_mark_getElem? (repeats : List Repeat) (gone : Array Bool) (pos : Nat) :
    (repeats.foldl (fun gone r => gone.setIfInBounds r.later true) gone)[pos]? =
      gone[pos]?.map fun g => g || repeats.any fun r => r.later == pos := by
  induction repeats generalizing gone with
  | nil => simp
  | cons r repeats ih =>
      rw [List.foldl_cons, ih, Array.getElem?_setIfInBounds]
      by_cases hpos : r.later = pos
      · subst hpos
        cases hgone : gone[r.later]? with
        | none =>
            have hge : gone.size ≤ r.later := Array.getElem?_eq_none_iff.mp hgone
            simp [Nat.not_lt.mpr hge]
        | some g =>
            have hlt := (Array.getElem?_eq_some_iff.mp hgone).1
            simp [hlt]
      · have hbeq : (r.later == pos) = false := beq_false_of_ne hpos
        rw [if_neg hpos, List.any_cons, hbeq, Bool.false_or]

theorem superseded_getElem? (len : Nat) (repeats : List Repeat) (pos : Nat) :
    (superseded len repeats)[pos]? =
      if pos < len then some (repeats.any fun r => r.later == pos) else none := by
  rw [superseded, foldl_mark_getElem?, Array.getElem?_replicate]
  split <;> simp

theorem any_later_eq_false_iff {pos : Nat} {repeats : List Repeat} :
    (repeats.any fun r => r.later == pos) = false ↔ Stays repeats pos := by
  rw [List.any_eq_false]
  simp [Stays]

theorem superseded_eq_false_iff {len pos : Nat} {repeats : List Repeat} :
    (superseded len repeats)[pos]? = some false ↔ pos < len ∧ Stays repeats pos := by
  rw [superseded_getElem?]
  split
  next hlt =>
    rw [Option.some.injEq, any_later_eq_false_iff]
    simp [hlt]
  next hge => simp [hge]

theorem superseded_eq_true_iff {len pos : Nat} {repeats : List Repeat} :
    (superseded len repeats)[pos]? = some true ↔ pos < len ∧ ¬Stays repeats pos := by
  rw [← any_later_eq_false_iff, Bool.not_eq_false, superseded_getElem?]
  split
  next hlt => simp [hlt]
  next hge => simp [hge]

theorem foldl_mark_size (repeats : List Repeat) (gone : Array Bool) :
    (repeats.foldl (fun gone r => gone.setIfInBounds r.later true) gone).size =
      gone.size := by
  induction repeats generalizing gone with
  | nil => rfl
  | cons r repeats ih => rw [List.foldl_cons, ih, Array.size_setIfInBounds]

theorem size_superseded (len : Nat) (repeats : List Repeat) :
    (superseded len repeats).size = len := by
  rw [superseded, foldl_mark_size, Array.size_replicate]

end Repeats
end SealedMap
