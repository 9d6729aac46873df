import SealedMap.Entry
import SealedMap.Proofs.FirstEntries

/-!
# Last entries

What a list of entries says about its keys when it is read from the right.  The
last entry with a key has the value that was put last under it, and the entries
that no later one supersedes are the last ones with their keys.
-/

namespace SealedMap

variable {K V : Type} [BEq K]

def lastWith? (entries : List (Entry K V)) (key : K) : Option (Entry K V) :=
  entries.findRev? fun entry => entry.key == key

def hasKey (entries : List (Entry K V)) (key : K) : Bool :=
  entries.any fun entry => entry.key == key

/-- The entries whose keys no later entry has. -/
def lasts : List (Entry K V) -> List (Entry K V)
  | [] => []
  | entry :: rest => if hasKey rest entry.key then lasts rest else entry :: lasts rest

/-- An entry with the value that was put last under its key. -/
def updated (entries : List (Entry K V)) (entry : Entry K V) : Entry K V :=
  ⟨entry.key, ((lastWith? entries entry.key).getD entry).value⟩

/-! ## The last entry with a key -/

theorem hasKey_eq_false_iff {entries : List (Entry K V)} {key : K} :
    hasKey entries key = false ↔ forall other, other ∈ entries -> (other.key == key) = false := by
  unfold hasKey
  rw [List.any_eq_false]
  simp only [Bool.not_eq_true]

theorem lastWith?_cons (entry : Entry K V) (entries : List (Entry K V)) (key : K) :
    lastWith? (entry :: entries) key =
      (lastWith? entries key).or (if entry.key == key then some entry else none) := by
  unfold lastWith?
  rw [List.findRev?]
  cases entries.findRev? fun entry => entry.key == key <;> rfl

theorem isSome_firstWith? (entries : List (Entry K V)) (key : K) :
    (firstWith? entries key).isSome = hasKey entries key :=
  List.isSome_find?

theorem isSome_lastWith? (entries : List (Entry K V)) (key : K) :
    (lastWith? entries key).isSome = hasKey entries key := by
  rw [lastWith?, List.findRev?_eq_find?_reverse, List.isSome_find?, List.any_reverse, hasKey]

theorem lastWith?_eq_none_iff {entries : List (Entry K V)} {key : K} :
    lastWith? entries key = none ↔ hasKey entries key = false := by
  rw [← isSome_lastWith?, Option.isSome_eq_false_iff, Option.isNone_iff_eq_none]

theorem getLast?_valuesOf (entries : List (Entry K V)) (key : K) :
    (valuesOf entries key).getLast? = (lastWith? entries key).map Entry.value := by
  rw [valuesOf, List.getLast?_map, List.getLast?_filter, lastWith?,
    List.findRev?_eq_find?_reverse]

theorem exists_lastWith? {entries : List (Entry K V)} {key : K} {first : Entry K V}
    (h : firstWith? entries key = some first) :
    exists last, lastWith? entries key = some last := by
  cases hlast : lastWith? entries key with
  | some last => exact ⟨last, rfl⟩
  | none =>
      have hnone := hasKey_eq_false_iff.mp (lastWith?_eq_none_iff.mp hlast)
      rw [firstWith?_eq_none_iff.mpr hnone] at h
      cases h

theorem updated_eq {entries : List (Entry K V)} {entry last : Entry K V}
    (h : lastWith? entries entry.key = some last) :
    updated entries entry = ⟨entry.key, last.value⟩ := by
  rw [updated, h, Option.getD_some]

theorem lasts_sublist (entries : List (Entry K V)) :
    (lasts entries).Sublist entries := by
  induction entries with
  | nil => exact List.Sublist.slnil
  | cons entry rest ih =>
      rw [lasts]
      split
      next => exact ih.cons entry
      next => exact ih.cons_cons entry

theorem lasts_superseded {front back : List (Entry K V)} {entry : Entry K V}
    (h : hasKey back entry.key = true) (value : V) :
    lasts (front ++ ⟨entry.key, value⟩ :: back) = lasts (front ++ entry :: back) := by
  induction front with
  | nil => rw [List.nil_append, List.nil_append, lasts, lasts, if_pos h, if_pos h]
  | cons first rest ih =>
      have hkeys : hasKey (rest ++ ⟨entry.key, value⟩ :: back) first.key =
          hasKey (rest ++ entry :: back) first.key := by
        simp only [hasKey, List.any_append, List.any_cons]
      rw [List.cons_append, List.cons_append, lasts, lasts, hkeys, ih]

section Equivalence

variable [EquivBEq K]

theorem lastWith?_congr {a b : K} (h : (a == b) = true) (entries : List (Entry K V)) :
    lastWith? entries a = lastWith? entries b := by
  unfold lastWith?
  congr 1
  funext entry
  exact BEq.congr_right h

theorem hasKey_congr {a b : K} (h : (a == b) = true) (entries : List (Entry K V)) :
    hasKey entries a = hasKey entries b := by
  unfold hasKey
  congr 1
  funext entry
  exact BEq.congr_right h

theorem firstWith?_lasts (entries : List (Entry K V)) (key : K) :
    firstWith? (lasts entries) key = lastWith? entries key := by
  induction entries with
  | nil => rfl
  | cons entry rest ih =>
      rw [lasts, lastWith?_cons]
      cases hentry : entry.key == key with
      | false =>
          have hskip : firstWith? (entry :: lasts rest) key = lastWith? rest key := by
            rw [firstWith?_cons_of_ne hentry, ih]
          rw [if_neg Bool.false_ne_true, Option.or_none]
          split
          next => exact ih
          next => exact hskip
      | true =>
          rw [if_pos rfl, hasKey_congr hentry]
          split
          next hsuperseded =>
            cases hlast : lastWith? rest key with
            | some last => rw [ih, hlast, Option.some_or]
            | none =>
                rw [lastWith?_eq_none_iff.mp hlast] at hsuperseded
                cases hsuperseded
          next hkept =>
            rw [lastWith?_eq_none_iff.mpr (Bool.not_eq_true _ ▸ hkept), Option.none_or,
              firstWith?_cons_of_eq hentry]

theorem hasKey_lasts (entries : List (Entry K V)) (key : K) :
    hasKey (lasts entries) key = hasKey entries key := by
  rw [← isSome_firstWith?, firstWith?_lasts, isSome_lastWith?]

theorem lasts_eq_reverse (entries : List (Entry K V)) :
    lasts entries = (firsts entries.reverse).reverse := by
  induction entries with
  | nil => rfl
  | cons entry rest ih =>
      rw [lasts, List.reverse_cons, firsts_concat, isSome_firstWith?, hasKey, hasKey,
        List.any_reverse, List.reverse_append, ← ih]
      split <;> rfl

theorem distinct_lasts (entries : List (Entry K V)) :
    Distinct ((lasts entries).map Entry.key) := by
  induction entries with
  | nil => exact List.Pairwise.nil
  | cons entry rest ih =>
      rw [lasts]
      split
      next => exact ih
      next hkept =>
        rw [List.map_cons]
        apply List.Pairwise.cons
        · intro key hkey
          rcases List.mem_map.mp hkey with ⟨other, hother, rfl⟩
          have hrest := (lasts_sublist rest).subset hother
          exact beq_comm_false (hasKey_eq_false_iff.mp (Bool.not_eq_true _ ▸ hkept) other hrest)
        · exact ih

end Equivalence

end SealedMap
