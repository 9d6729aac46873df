import SealedMap.Index.Placing
import SealedMap.Proofs.DistinctKeys

/-!
# First and repeated occurrences of keys

Among entries in a fixed order, a position either is the first with its key or
repeats the first position with an equal key.  This is what placing finds out
step by step; here it is read off the entries alone, and the repeats are
counted.
-/

namespace SealedMap

open Index (Repeat holdsAt)

/-! ## Positions of a list -/

theorem filterMap_range_getElem? {α β : Type} (items : List α) (f : α -> Option β) :
    ((List.range items.length).filterMap fun pos => items[pos]?.bind f) = items.filterMap f := by
  have hitems : (List.range items.length).map (fun pos => items[pos]?) = items.map some := by
    apply List.ext_getElem?
    intro pos
    by_cases hlt : pos < items.length
    · simp [hlt]
    · simp [Nat.le_of_not_lt hlt]
  have hbind : (fun pos : Nat => items[pos]?.bind f) =
      (fun item : Option α => item.bind f) ∘ fun pos => items[pos]? := rfl
  rw [hbind, ← List.filterMap_map, hitems, List.filterMap_map]
  rfl

/-! ## Keys of entries -/

variable {K V : Type}

def keysOf (entries : Array (Entry K V)) : List K :=
  entries.toList.map Entry.key

theorem getElem?_keysOf (entries : Array (Entry K V)) (pos : Nat) :
    (keysOf entries)[pos]? = entries[pos]?.map Entry.key := by
  rw [keysOf, List.getElem?_map, Array.getElem?_toList]

theorem length_keysOf (entries : Array (Entry K V)) :
    (keysOf entries).length = entries.size := by
  rw [keysOf, List.length_map, Array.length_toList]

theorem mem_keysOf_iff {entries : Array (Entry K V)} {key : K} :
    key ∈ keysOf entries ↔
      exists (pos : Nat) (entry : Entry K V),
        entries[pos]? = some entry ∧ entry.key = key := by
  rw [List.mem_iff_getElem?]
  simp only [getElem?_keysOf, Option.map_eq_some_iff]

theorem mem_take_keysOf_iff {entries : Array (Entry K V)} {pos : Nat} {key : K} :
    key ∈ (keysOf entries).take pos ↔
      exists (p : Nat) (entry : Entry K V),
        p < pos ∧ entries[p]? = some entry ∧ entry.key = key := by
  rw [List.mem_iff_getElem?]
  constructor
  · intro h
    rcases h with ⟨p, hp⟩
    rw [List.getElem?_take] at hp
    split at hp
    next hlt =>
      rw [getElem?_keysOf] at hp
      rcases Option.map_eq_some_iff.mp hp with ⟨entry, hentry, heq⟩
      exact ⟨p, entry, hlt, hentry, heq⟩
    next => cases hp
  · intro h
    rcases h with ⟨p, entry, hlt, hentry, heq⟩
    refine ⟨p, ?_⟩
    rw [List.getElem?_take, if_pos hlt, getElem?_keysOf, hentry, Option.map_some, heq]

/-! ## Holding a key -/

variable [BEq K]

theorem holdsAt_iff {entries : Array (Entry K V)} {key : K} {pos : Nat} :
    holdsAt entries key pos = true ↔
      exists entry, entries[pos]? = some entry ∧ (entry.key == key) = true := by
  unfold holdsAt
  cases entries[pos]? with
  | none => simp
  | some entry => simp

theorem holdsAt_eq {entries : Array (Entry K V)} {entry : Entry K V} {pos : Nat}
    (hentry : entries[pos]? = some entry) (key : K) :
    holdsAt entries key pos = (entry.key == key) := by
  unfold holdsAt
  rw [hentry]

theorem lt_size_of_holdsAt {entries : Array (Entry K V)} {key : K} {pos : Nat}
    (h : holdsAt entries key pos = true) :
    pos < entries.size := by
  rcases holdsAt_iff.mp h with ⟨entry, hentry, _⟩
  exact (Array.getElem?_eq_some_iff.mp hentry).1

theorem distinct_keysOf_iff {entries : Array (Entry K V)} :
    Distinct (keysOf entries) ↔
      forall (p q : Nat) (entry : Entry K V), p < q -> entries[q]? = some entry ->
        holdsAt entries entry.key p = false := by
  unfold Distinct keysOf
  rw [List.pairwise_map, List.pairwise_iff_getElem]
  constructor
  · intro h p q entry hlt hentry
    rcases Array.getElem?_eq_some_iff.mp hentry with ⟨hq, rfl⟩
    have hp : p < entries.size := Nat.lt_trans hlt hq
    rw [holdsAt_eq (Array.getElem?_eq_getElem hp)]
    exact h p q hp hq hlt
  · intro h p q hp hq hlt
    have hfalse := h p q entries[q] hlt (Array.getElem?_eq_getElem hq)
    rw [holdsAt_eq (Array.getElem?_eq_getElem hp)] at hfalse
    exact hfalse

/-! ## First positions -/

def firstPosition? (entries : Array (Entry K V)) (key : K) : Option Nat :=
  entries.findIdx? fun entry => entry.key == key

def IsFirst (entries : Array (Entry K V)) (pos : Nat) : Prop :=
  exists entry, entries[pos]? = some entry ∧
    firstPosition? entries entry.key = some pos

theorem firstPosition?_eq_some_iff {entries : Array (Entry K V)} {key : K} {pos : Nat} :
    firstPosition? entries key = some pos ↔
      holdsAt entries key pos = true ∧
        forall earlier, earlier < pos -> holdsAt entries key earlier = false := by
  unfold firstPosition?
  rw [Array.findIdx?_eq_some_iff_getElem]
  constructor
  · intro h
    rcases h with ⟨hpos, hkey, hearlier⟩
    constructor
    · rw [holdsAt_eq (Array.getElem?_eq_getElem hpos)]
      exact hkey
    · intro earlier hlt
      rw [holdsAt_eq (Array.getElem?_eq_getElem (Nat.lt_trans hlt hpos))]
      simpa using hearlier earlier hlt
  · intro h
    rcases h with ⟨hkey, hearlier⟩
    rcases holdsAt_iff.mp hkey with ⟨entry, hentry, heq⟩
    rcases Array.getElem?_eq_some_iff.mp hentry with ⟨hpos, rfl⟩
    refine ⟨hpos, heq, ?_⟩
    intro earlier hlt
    have h := hearlier earlier hlt
    rw [holdsAt_eq (Array.getElem?_eq_getElem (Nat.lt_trans hlt hpos))] at h
    simpa using h

theorem firstPosition?_eq_none_iff {entries : Array (Entry K V)} {key : K} :
    firstPosition? entries key = none ↔
      forall pos, holdsAt entries key pos = false := by
  unfold firstPosition?
  rw [Array.findIdx?_eq_none_iff]
  constructor
  · intro h pos
    cases hentry : entries[pos]? with
    | none =>
        unfold holdsAt
        rw [hentry]
    | some entry =>
        rw [holdsAt_eq hentry]
        exact h entry (Array.mem_of_getElem? hentry)
  · intro h entry hmem
    rcases Array.getElem?_of_mem hmem with ⟨pos, hentry⟩
    rw [← holdsAt_eq hentry]
    exact h pos

section Equivalence

variable [EquivBEq K]

theorem holdsAt_congr {a b : K} (h : (a == b) = true)
    (entries : Array (Entry K V)) (pos : Nat) :
    holdsAt entries a pos = holdsAt entries b pos := by
  unfold holdsAt
  cases entries[pos]? with
  | none => rfl
  | some entry => exact BEq.congr_right h

theorem firstPosition?_congr {a b : K} (h : (a == b) = true)
    (entries : Array (Entry K V)) :
    firstPosition? entries a = firstPosition? entries b := by
  unfold firstPosition?
  congr 1
  funext entry
  exact BEq.congr_right h

theorem firstPosition?_of_holdsAt {entries : Array (Entry K V)}
    {entry : Entry K V} {key : K} {pos : Nat} (hentry : entries[pos]? = some entry)
    (hholds : holdsAt entries key pos = true) :
    firstPosition? entries key = firstPosition? entries entry.key := by
  rw [holdsAt_eq hentry] at hholds
  exact (firstPosition?_congr hholds entries).symm

theorem exists_firstPosition?_le {entries : Array (Entry K V)} {entry : Entry K V}
    {pos : Nat} (hentry : entries[pos]? = some entry) :
    exists first, firstPosition? entries entry.key = some first ∧ first ≤ pos := by
  have hself : holdsAt entries entry.key pos = true := by
    rw [holdsAt_eq hentry]
    exact BEq.rfl
  cases hfirst : firstPosition? entries entry.key with
  | none =>
      rw [firstPosition?_eq_none_iff.mp hfirst pos] at hself
      cases hself
  | some first =>
      refine ⟨first, rfl, ?_⟩
      apply Nat.le_of_not_lt
      intro hlt
      rw [(firstPosition?_eq_some_iff.mp hfirst).2 pos hlt] at hself
      cases hself

theorem isFirst_of_firstPosition? {entries : Array (Entry K V)} {key : K} {pos : Nat}
    (h : firstPosition? entries key = some pos) :
    IsFirst entries pos := by
  have hholds := (firstPosition?_eq_some_iff.mp h).1
  rcases holdsAt_iff.mp hholds with ⟨entry, hentry, _⟩
  refine ⟨entry, hentry, ?_⟩
  rw [← firstPosition?_of_holdsAt hentry hholds]
  exact h

theorem IsFirst.unique {entries : Array (Entry K V)} {key : K} {p q : Nat}
    (hp : IsFirst entries p) (hq : IsFirst entries q)
    (hpkey : holdsAt entries key p = true) (hqkey : holdsAt entries key q = true) :
    p = q := by
  rcases hp with ⟨entryp, hentryp, hfirstp⟩
  rcases hq with ⟨entryq, hentryq, hfirstq⟩
  rw [← firstPosition?_of_holdsAt hentryp hpkey] at hfirstp
  rw [← firstPosition?_of_holdsAt hentryq hqkey] at hfirstq
  exact Option.some.inj (hfirstp.symm.trans hfirstq)

end Equivalence

/-! ## Repeats -/

/-- The position as a repeat of the first one with its key. -/
def repeatAt? (entries : Array (Entry K V)) (pos : Nat) : Option Repeat := do
  let entry <- entries[pos]?
  let first <- firstPosition? entries entry.key
  if first < pos then some ⟨first, pos⟩ else none

def repeatsBelow (entries : Array (Entry K V)) (pos : Nat) : List Repeat :=
  (List.range pos).filterMap (repeatAt? entries)

def repeatsOf (entries : Array (Entry K V)) : List Repeat :=
  repeatsBelow entries entries.size

theorem repeatAt?_eq_some_iff {entries : Array (Entry K V)} {pos : Nat} {r : Repeat} :
    repeatAt? entries pos = some r ↔
      r.later = pos ∧ r.first < pos ∧
        exists entry, entries[pos]? = some entry ∧
          firstPosition? entries entry.key = some r.first := by
  unfold repeatAt?
  rcases r with ⟨first, later⟩
  cases hentry : entries[pos]? with
  | none => simp
  | some entry =>
      cases hfirst : firstPosition? entries entry.key with
      | none => simp [hfirst]
      | some found =>
          simp only [Option.bind_eq_bind, Option.bind_some, hfirst]
          split
          next hlt =>
            simp only [Option.some.injEq, Repeat.mk.injEq, exists_eq_left', hfirst]
            omega
          next hge =>
            simp only [Option.some.injEq, exists_eq_left', hfirst]
            constructor
            · intro h
              cases h
            · intro h
              rcases h with ⟨_, hlt, rfl⟩
              exact absurd hlt hge

theorem repeatsBelow_succ (entries : Array (Entry K V)) (pos : Nat) :
    repeatsBelow entries (pos + 1) =
      repeatsBelow entries pos ++ (repeatAt? entries pos).toList := by
  unfold repeatsBelow
  rw [List.range_succ, List.filterMap_append]
  cases h : repeatAt? entries pos with
  | none => simp [h]
  | some r => simp [h]

theorem repeatsBelow_add (entries : Array (Entry K V)) (pos count : Nat) :
    repeatsBelow entries (pos + count) =
      repeatsBelow entries pos ++
        ((List.range count).map (pos + ·)).filterMap (repeatAt? entries) := by
  unfold repeatsBelow
  rw [List.range_add, List.filterMap_append]

theorem head?_repeatsOf {entries : Array (Entry K V)} {pos : Nat} {r : Repeat}
    (hbelow : repeatsBelow entries pos = []) (hrepeat : repeatAt? entries pos = some r) :
    (repeatsOf entries).head? = some r := by
  have hlt : pos < entries.size := by
    rcases repeatAt?_eq_some_iff.mp hrepeat with ⟨_, _, entry, hentry, _⟩
    exact (Array.getElem?_eq_some_iff.mp hentry).1
  have hsize : entries.size = pos + 1 + (entries.size - (pos + 1)) := by omega
  rw [repeatsOf, hsize, repeatsBelow_add, repeatsBelow_succ, hbelow, hrepeat]
  rfl

theorem repeatAt?_eq_none_iff [EquivBEq K] {entries : Array (Entry K V)} {pos : Nat}
    (hpos : pos < entries.size) :
    repeatAt? entries pos = none ↔ IsFirst entries pos := by
  have hentry := Array.getElem?_eq_getElem hpos
  rcases exists_firstPosition?_le hentry with ⟨first, hfirst, hle⟩
  constructor
  · intro h
    have hnot : ¬ first < pos := by
      intro hlt
      have hsome := repeatAt?_eq_some_iff (r := ⟨first, pos⟩).mpr
        ⟨rfl, hlt, _, hentry, hfirst⟩
      rw [h] at hsome
      cases hsome
    have heq : first = pos := by omega
    exact ⟨_, hentry, heq ▸ hfirst⟩
  · intro h
    rcases h with ⟨other, hother, hfirst'⟩
    cases hr : repeatAt? entries pos with
    | none => rfl
    | some r =>
        rcases repeatAt?_eq_some_iff.mp hr with ⟨_, hlt, third, hthird, hfirst''⟩
        have hsame : other = third := Option.some.inj (hother.symm.trans hthird)
        subst hsame
        have hpos' := Option.some.inj (hfirst'.symm.trans hfirst'')
        omega

end SealedMap
