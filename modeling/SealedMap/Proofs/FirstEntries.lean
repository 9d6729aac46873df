import SealedMap.Entry
import SealedMap.Proofs.DistinctKeys

/-!
# First entries and the values of a key

What a list of entries says about its keys when it is read from the left: which
entries are the first with their keys, and which values were put under a key.
Both are described by what one more entry at the end changes.
-/

namespace SealedMap

variable {K V : Type} [BEq K]

/-- The entries that are the first with their keys. -/
def firsts : List (Entry K V) -> List (Entry K V)
  | [] => []
  | entry :: rest => entry :: (firsts rest).filter fun other => !other.key == entry.key

def firstWith? (entries : List (Entry K V)) (key : K) : Option (Entry K V) :=
  entries.find? fun entry => entry.key == key

def valuesOf (entries : List (Entry K V)) (key : K) : List V :=
  (entries.filter fun entry => entry.key == key).map Entry.value

/-! ## The first entry with a key -/

theorem firstWith?_eq_none_iff {entries : List (Entry K V)} {key : K} :
    firstWith? entries key = none ↔
      forall other, other ∈ entries -> (other.key == key) = false := by
  unfold firstWith?
  rw [List.find?_eq_none]
  simp only [Bool.not_eq_true]

theorem firstWith?_cons_of_ne {entries : List (Entry K V)} {entry : Entry K V} {key : K}
    (h : (entry.key == key) = false) :
    firstWith? (entry :: entries) key = firstWith? entries key := by
  rw [firstWith?, List.find?_cons, h]
  rfl

theorem firstWith?_cons_of_eq {entries : List (Entry K V)} {entry : Entry K V} {key : K}
    (h : (entry.key == key) = true) :
    firstWith? (entry :: entries) key = some entry := by
  rw [firstWith?, List.find?_cons, h]

theorem exists_split_of_firstWith? {entries : List (Entry K V)} {key : K} {first : Entry K V}
    (h : firstWith? entries key = some first) :
    (first.key == key) = true ∧ exists front back, entries = front ++ first :: back ∧
      forall other, other ∈ front -> (other.key == key) = false := by
  rcases List.find?_eq_some_iff_append.mp h with ⟨hkey, front, back, heq, hfront⟩
  refine ⟨hkey, front, back, heq, ?_⟩
  intro other hother
  simpa using hfront other hother

theorem firstWith?_of_split {front back : List (Entry K V)} {first : Entry K V} {key : K}
    (hfront : forall other, other ∈ front -> (other.key == key) = false)
    (hkey : (first.key == key) = true) :
    firstWith? (front ++ first :: back) key = some first := by
  apply List.find?_eq_some_iff_append.mpr
  refine ⟨hkey, front, back, rfl, ?_⟩
  intro other hother
  simp [hfront other hother]

theorem firsts_sublist (entries : List (Entry K V)) :
    (firsts entries).Sublist entries := by
  induction entries with
  | nil => exact List.Sublist.slnil
  | cons first rest ih => exact (List.filter_sublist.trans ih).cons_cons first

/-! ## One more value -/

theorem valuesOf_concat_of_eq {entries : List (Entry K V)} {entry : Entry K V} {key : K}
    (h : (entry.key == key) = true) :
    valuesOf (entries ++ [entry]) key = valuesOf entries key ++ [entry.value] := by
  simp [valuesOf, h]

theorem valuesOf_concat_of_ne {entries : List (Entry K V)} {entry : Entry K V} {key : K}
    (h : (entry.key == key) = false) :
    valuesOf (entries ++ [entry]) key = valuesOf entries key := by
  simp [valuesOf, h]

theorem valuesOf_eq_nil {entries : List (Entry K V)} {key : K}
    (h : firstWith? entries key = none) :
    valuesOf entries key = [] := by
  rw [valuesOf, List.filter_eq_nil_iff.mpr]
  · rfl
  · intro entry hmem
    simp [firstWith?_eq_none_iff.mp h entry hmem]

theorem exists_valuesOf_eq_cons {entries : List (Entry K V)} {first : Entry K V} {key : K}
    (h : firstWith? entries key = some first) :
    exists more, valuesOf entries key = first.value :: more := by
  rcases exists_split_of_firstWith? h with ⟨hkey, front, back, rfl, hfront⟩
  have hnone : valuesOf front key = [] := valuesOf_eq_nil (firstWith?_eq_none_iff.mpr hfront)
  refine ⟨valuesOf back key, ?_⟩
  unfold valuesOf at *
  rw [List.filter_append, List.map_append, hnone]
  simp [hkey]

/-! ## One more first entry -/

section Equivalence

variable [EquivBEq K]

theorem firstWith?_congr {a b : K} (h : (a == b) = true) (entries : List (Entry K V)) :
    firstWith? entries a = firstWith? entries b := by
  unfold firstWith?
  congr 1
  funext entry
  exact BEq.congr_right h

theorem distinct_firsts (entries : List (Entry K V)) :
    Distinct ((firsts entries).map Entry.key) := by
  induction entries with
  | nil => exact List.Pairwise.nil
  | cons first rest ih =>
      rw [firsts, List.map_cons]
      apply List.Pairwise.cons
      · intro key hkey
        rcases List.mem_map.mp hkey with ⟨other, hother, rfl⟩
        exact beq_comm_false (by simpa using (List.mem_filter.mp hother).2)
      · exact List.Pairwise.sublist (List.filter_sublist.map Entry.key) ih

theorem firstWith?_firsts (entries : List (Entry K V)) (key : K) :
    firstWith? (firsts entries) key = firstWith? entries key := by
  induction entries with
  | nil => rfl
  | cons first rest ih =>
      rw [firsts]
      cases hfirst : first.key == key with
      | true => rw [firstWith?_cons_of_eq hfirst, firstWith?_cons_of_eq hfirst]
      | false =>
          rw [firstWith?_cons_of_ne hfirst, firstWith?_cons_of_ne hfirst, ← ih, firstWith?,
            firstWith?, List.find?_filter]
          congr 1
          funext other
          cases hother : other.key == key with
          | false => simp
          | true =>
              have hne : (other.key == first.key) = false := by
                rw [BEq.congr_left hother]
                exact beq_comm_false hfirst
              simp [hne]

theorem exists_firsts_split {entries : List (Entry K V)} {key : K} {first : Entry K V}
    (h : firstWith? entries key = some first) :
    (first.key == key) = true ∧ exists front back, firsts entries = front ++ first :: back ∧
      (forall other, other ∈ front -> (other.key == key) = false) ∧
        forall other, other ∈ back -> (other.key == key) = false := by
  rw [← firstWith?_firsts] at h
  rcases exists_split_of_firstWith? h with ⟨hkey, front, back, heq, hfront⟩
  have hdistinct := distinct_firsts entries
  rw [heq, List.map_append, List.map_cons] at hdistinct
  have hafter := (List.pairwise_cons.mp (List.pairwise_append.mp hdistinct).2.1).1
  refine ⟨hkey, front, back, heq, hfront, ?_⟩
  intro other hother
  rw [← BEq.congr_right hkey]
  exact beq_comm_false (hafter other.key (List.mem_map_of_mem hother))

theorem firstWith?_of_mem_firsts {entries : List (Entry K V)} {first : Entry K V}
    (h : first ∈ firsts entries) :
    firstWith? entries first.key = some first := by
  rcases List.append_of_mem h with ⟨front, back, heq⟩
  have hdistinct := distinct_firsts entries
  rw [heq, List.map_append, List.map_cons] at hdistinct
  have hacross := (List.pairwise_append.mp hdistinct).2.2
  rw [← firstWith?_firsts, heq]
  apply firstWith?_of_split
  · intro other hother
    exact hacross other.key (List.mem_map_of_mem hother) first.key List.mem_cons_self
  · exact BEq.rfl

theorem firsts_concat (entries : List (Entry K V)) (entry : Entry K V) :
    firsts (entries ++ [entry]) =
      firsts entries ++ if (firstWith? entries entry.key).isSome then [] else [entry] := by
  induction entries with
  | nil => rfl
  | cons first rest ih =>
      rw [List.cons_append, firsts, firsts, ih, List.filter_append, List.cons_append]
      congr 2
      cases hfirst : first.key == entry.key with
      | true =>
          rw [firstWith?_cons_of_eq hfirst]
          split <;> simp [BEq.symm hfirst]
      | false =>
          rw [firstWith?_cons_of_ne hfirst]
          split <;> simp [beq_comm_false hfirst]

theorem firsts_concat_of_none {entries : List (Entry K V)} {entry : Entry K V}
    (h : firstWith? entries entry.key = none) :
    firsts (entries ++ [entry]) = firsts entries ++ [entry] := by
  rw [firsts_concat, h]
  rfl

theorem firsts_concat_of_some {entries : List (Entry K V)} {entry first : Entry K V}
    (h : firstWith? entries entry.key = some first) :
    firsts (entries ++ [entry]) = firsts entries := by
  rw [firsts_concat, h]
  exact List.append_nil _

theorem length_firsts (entries : List (Entry K V)) :
    (firsts entries).length = distinctCount (entries.map Entry.key) := by
  rw [distinctCount_eq (distinct_firsts entries), List.length_map]
  · intro key hkey
    rcases List.mem_map.mp hkey with ⟨entry, hmem, rfl⟩
    cases hfirst : firstWith? entries entry.key with
    | none =>
        have hself := firstWith?_eq_none_iff.mp hfirst entry hmem
        rw [BEq.rfl] at hself
        cases hself
    | some first =>
        have heq := (exists_split_of_firstWith? hfirst).1
        rw [← firstWith?_firsts] at hfirst
        exact ⟨first.key, List.mem_map_of_mem (List.mem_of_find?_eq_some hfirst), heq⟩
  · apply Covers.of_subset
    intro key hkey
    rcases List.mem_map.mp hkey with ⟨entry, hmem, rfl⟩
    exact List.mem_map_of_mem ((firsts_sublist entries).subset hmem)

end Equivalence

end SealedMap
