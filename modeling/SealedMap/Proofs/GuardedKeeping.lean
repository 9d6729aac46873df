import SealedMap.Proofs.Arranging
import SealedMap.Proofs.GuardedPlacing

/-!
# Keeping last occurrences with every access checked

Positions are claimed from the last one to the first, and one that repeats a
later key is marked.  Then the entries are gone through once more, and each is
kept unless its position is marked.  No claim, mark or look at a mark leaves its
array, and what is kept are the last occurrences.
-/

namespace SealedMap
namespace Construction

open Index (Keyed Placing)

variable {K V : Type} [BEq K] [Hashable K]

def markBelow? (entries : Array (Entry K V)) :
    Nat -> Keyed K -> Array Bool -> Option (Array Bool)
  | 0, _, marks => some marks
  | pos + 1, index, marks => do
      let (answer, next) <- index.claim? entries pos
      let marked <- write? marks pos (answer matches .repeated _)
      markBelow? entries pos next marked

def keepUnmarked? (marks : Array Bool) : List α -> Nat -> Option (List α)
  | [], _ => some []
  | item :: rest, pos => do
      let marked <- marks[pos]?
      let kept <- keepUnmarked? marks rest (pos + 1)
      some (if marked then kept else item :: kept)

def lastOccurrences? (entries : Array (Entry K V)) : Option (Array (Entry K V)) := do
  let marks <- markBelow? entries entries.size Keyed.empty
    (Array.replicate entries.size false)
  let kept <- keepUnmarked? marks entries.toList 0
  some kept.toArray

theorem keepUnmarked?_setIfInBounds {marks : Array Bool} {pos : Nat} (mark : Bool)
    {items : List α} {start : Nat} (h : pos < start) :
    keepUnmarked? (marks.setIfInBounds pos mark) items start =
      keepUnmarked? marks items start := by
  induction items generalizing start with
  | nil => rfl
  | cons item rest ih =>
      rw [keepUnmarked?, keepUnmarked?, Array.getElem?_setIfInBounds_ne (Nat.ne_of_lt h),
        ih (Nat.lt_succ_of_lt h)]

def lastFrom (entries : Array (Entry K V)) (pos : Nat) :
    Std.HashSet K × List (Entry K V) :=
  (entries.toList.drop pos).foldr lastStep (∅, [])

theorem lastFrom_of_getElem? {entries : Array (Entry K V)} {pos : Nat} {entry : Entry K V}
    (h : entries[pos]? = some entry) :
    lastFrom entries pos = lastStep entry (lastFrom entries (pos + 1)) := by
  rcases Array.getElem?_eq_some_iff.mp h with ⟨hlt, rfl⟩
  unfold lastFrom
  rw [List.drop_eq_getElem_cons hlt]
  rfl

/-- The positions from `pos` on are claimed and marked. -/
structure Marked (entries : Array (Entry K V)) (pos : Nat) (index : Keyed K)
    (marks : Array Bool) : Prop where
  finds : exists indexed, index.Finds entries indexed
  isSome_position? : forall key,
    (index.position? key).isSome = (lastFrom entries pos).1.contains key
  size_marks : marks.size = entries.size
  kept : keepUnmarked? marks (entries.toList.drop pos) pos =
    some (lastFrom entries pos).2

theorem marked_start (entries : Array (Entry K V)) :
    Marked entries entries.size Keyed.empty (Array.replicate entries.size false) := by
  have hlast : lastFrom entries entries.size = (∅, []) := by
    rw [lastFrom, ← Array.length_toList, List.drop_length]
    rfl
  refine ⟨⟨_, Keyed.finds_empty entries⟩, ?_, Array.size_replicate, ?_⟩
  · intro key
    rw [Keyed.position?_empty, hlast]
    simp
  · rw [hlast, ← Array.length_toList, List.drop_length]
    rfl

theorem Marked.keepUnmarked?_mark {entries : Array (Entry K V)} {pos : Nat}
    {entry : Entry K V} {index : Keyed K} {marks : Array Bool}
    (h : Marked entries (pos + 1) index marks) (hentry : entries[pos]? = some entry)
    (mark : Bool) :
    keepUnmarked? (marks.setIfInBounds pos mark) (entries.toList.drop pos) pos =
      some (if mark then (lastFrom entries (pos + 1)).2
        else entry :: (lastFrom entries (pos + 1)).2) := by
  rcases Array.getElem?_eq_some_iff.mp hentry with ⟨hlt, rfl⟩
  have hpos : pos < marks.size := by
    rw [h.size_marks]
    exact hlt
  have hrest : keepUnmarked? (marks.setIfInBounds pos mark) (entries.toList.drop (pos + 1))
      (pos + 1) = some (lastFrom entries (pos + 1)).2 := by
    rw [keepUnmarked?_setIfInBounds mark (Nat.lt_succ_self pos), h.kept]
  rw [List.drop_eq_getElem_cons hlt, keepUnmarked?, hrest,
    Array.getElem?_setIfInBounds_self_of_lt hpos]
  rfl

theorem Marked.repeated {entries : Array (Entry K V)} {pos first : Nat} {entry : Entry K V}
    {index : Keyed K} {marks : Array Bool} (h : Marked entries (pos + 1) index marks)
    (hentry : entries[pos]? = some entry) (hfound : index.position? entry.key = some first) :
    Marked entries pos index (marks.setIfInBounds pos true) := by
  have hseen := h.isSome_position? entry.key
  rw [hfound, Option.isSome_some] at hseen
  have hlast : lastFrom entries pos = lastFrom entries (pos + 1) := by
    rw [lastFrom_of_getElem? hentry]
    exact if_pos hseen.symm
  refine ⟨h.finds, ?_, ?_, ?_⟩
  · rw [hlast]
    exact h.isSome_position?
  · rw [Array.size_setIfInBounds, h.size_marks]
  · rw [hlast]
    exact h.keepUnmarked?_mark hentry true

variable [EquivBEq K] [LawfulHashable K]

theorem Marked.vacant {entries : Array (Entry K V)} {pos : Nat} {entry : Entry K V}
    {index : Keyed K} {marks : Array Bool} (h : Marked entries (pos + 1) index marks)
    (hentry : entries[pos]? = some entry) (hvacant : index.position? entry.key = none) :
    Marked entries pos (index.insert pos entry.key) (marks.setIfInBounds pos false) := by
  rcases h.finds with ⟨indexed, hfinds⟩
  have hnew := h.isSome_position? entry.key
  rw [hvacant, Option.isSome_none] at hnew
  have hlast : lastFrom entries pos =
      ((lastFrom entries (pos + 1)).1.insert entry.key,
        entry :: (lastFrom entries (pos + 1)).2) := by
    rw [lastFrom_of_getElem? hentry]
    exact if_neg (by rw [← hnew]; simp)
  refine ⟨⟨_, hfinds.insert hentry hvacant⟩, ?_, ?_, ?_⟩
  · intro key
    rw [hlast, Keyed.position?_insert, Std.HashSet.contains_insert, ← h.isSome_position?]
    cases entry.key == key <;> rfl
  · rw [Array.size_setIfInBounds, h.size_marks]
  · rw [hlast]
    exact h.keepUnmarked?_mark hentry false

/-- The step lemma: claiming and marking one more position. -/
theorem Marked.step {entries : Array (Entry K V)} {pos : Nat} {entry : Entry K V}
    {index : Keyed K} {marks : Array Bool} (h : Marked entries (pos + 1) index marks)
    (hentry : entries[pos]? = some entry) :
    exists answer next marked,
      index.claim? entries pos = some (answer, next) ∧
        write? marks pos (answer matches .repeated _) = some marked ∧
          Marked entries pos next marked := by
  rcases h.finds with ⟨indexed, hfinds⟩
  have hpos : pos < marks.size := by
    rw [h.size_marks]
    exact (Array.getElem?_eq_some_iff.mp hentry).1
  have hclaim := hfinds.claim?_eq_some hentry
  cases hfound : index.position? entry.key with
  | some first =>
      have hprobe := (Keyed.probe_eq_repeated_iff index entries entry.key first).mpr hfound
      rw [Index.claim_eq_repeated_iff.mpr ⟨hprobe, rfl⟩] at hclaim
      exact ⟨_, _, _, hclaim, write?_of_lt hpos _, h.repeated hentry hfound⟩
  | none =>
      have hprobe : Placing.probe index entries entry.key = .vacant := by
        show index.probe entries entry.key = .vacant
        rw [Keyed.probe, hfound]
      rw [Index.claim_eq_vacant_iff.mpr ⟨hprobe, rfl⟩] at hclaim
      exact ⟨_, _, _, hclaim, write?_of_lt hpos _, h.vacant hentry hfound⟩

theorem markBelow?_eq_some {entries : Array (Entry K V)} {pos : Nat} {index : Keyed K}
    {marks : Array Bool} (h : Marked entries pos index marks) (hpos : pos ≤ entries.size) :
    exists marked, markBelow? entries pos index marks = some marked ∧
      keepUnmarked? marked entries.toList 0 = some (lastFrom entries 0).2 := by
  induction pos generalizing index marks with
  | zero => exact ⟨marks, rfl, h.kept⟩
  | succ pos ih =>
      rcases h.step (Array.getElem?_eq_getElem hpos) with
        ⟨answer, next, marked, hclaim, hwrite, hmarked⟩
      rcases ih hmarked (Nat.le_of_succ_le hpos) with ⟨final, hrest, hkept⟩
      refine ⟨final, ?_, hkept⟩
      simp only [markBelow?, hclaim, Option.bind_eq_bind, Option.bind_some, hwrite, hrest]

theorem lastOccurrences?_eq_some (entries : Array (Entry K V)) :
    lastOccurrences? entries = some (lastOccurrences entries) := by
  rcases markBelow?_eq_some (marked_start entries) (Nat.le_refl _) with ⟨marked, hmarks, hkept⟩
  rw [lastOccurrences?, hmarks, Option.bind_eq_bind, Option.bind_some, hkept,
    Option.bind_eq_bind, Option.bind_some, lastOccurrences_eq]
  rfl

end Construction
end SealedMap
