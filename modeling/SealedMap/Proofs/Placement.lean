import SealedMap.Proofs.Occurrences

/-!
# Placing, claim by claim

Placing makes one claim after the other.  `Claims` relates the state it starts
in to each state that claims lead to, with the positions that were indexed on
the way and the repeats that were met, the newest in front.  Whatever placing
answers is justified by such a state, and an index that answers exactly for the
positions it indexed makes it find the first positions and the repeats.
-/

namespace SealedMap
namespace Index

variable {I K V : Type} [Placing I K]

/-- The states of placing `entries`, starting with `start`. -/
inductive Claims (entries : Array (Entry K V)) (start : I) :
    Nat -> I -> List Nat -> List Repeat -> Prop where
  | start : Claims entries start 0 start [] []
  | vacant {pos : Nat} {index next : I} {indexed : List Nat} {repeats : List Repeat}
      {entry : Entry K V} :
      Claims entries start pos index indexed repeats ->
      entries[pos]? = some entry ->
      claim index entries pos entry.key = (.vacant, next) ->
      Claims entries start (pos + 1) next (pos :: indexed) repeats
  | repeated {pos : Nat} {index next : I} {indexed : List Nat} {repeats : List Repeat}
      {entry : Entry K V} {first : Nat} :
      Claims entries start pos index indexed repeats ->
      entries[pos]? = some entry ->
      claim index entries pos entry.key = (.repeated first, next) ->
      Claims entries start (pos + 1) next indexed (⟨first, pos⟩ :: repeats)

/-! ## One claim -/

theorem claim_fst (index : I) (entries : Array (Entry K V)) (pos : Nat) (key : K) :
    (claim index entries pos key).1 = Placing.probe index entries key := by
  unfold claim
  cases Placing.probe index entries key <;> rfl

theorem claim_snd_of_ne_vacant {index : I} {entries : Array (Entry K V)} {pos : Nat}
    {key : K} (h : (claim index entries pos key).1 ≠ .vacant) :
    (claim index entries pos key).2 = index := by
  rw [claim_fst] at h
  unfold claim
  cases hprobe : Placing.probe index entries key with
  | vacant => exact absurd hprobe h
  | repeated first => rfl
  | full => rfl

theorem claim_eq_vacant_iff {index next : I} {entries : Array (Entry K V)} {pos : Nat}
    {key : K} :
    claim index entries pos key = (.vacant, next) ↔
      Placing.probe index entries key = .vacant ∧ Placing.insert index pos key = next := by
  unfold claim
  cases Placing.probe index entries key <;> simp

theorem claim_eq_repeated_iff {index next : I} {entries : Array (Entry K V)} {pos first : Nat}
    {key : K} :
    claim index entries pos key = (.repeated first, next) ↔
      Placing.probe index entries key = .repeated first ∧ index = next := by
  unfold claim
  cases Placing.probe index entries key <;> simp

/-! ## Whole placements -/

theorem mem_cons_iff_lt_succ {P : Nat -> Prop} {pos : Nat} {indexed : List Nat}
    (h : forall p, p ∈ indexed ↔ p < pos ∧ P p) (hpos : P pos) (p : Nat) :
    p ∈ pos :: indexed ↔ p < pos + 1 ∧ P p := by
  rw [List.mem_cons, h]
  constructor
  · intro hmem
    rcases hmem with rfl | ⟨hlt, hp⟩
    · exact ⟨Nat.lt_succ_self p, hpos⟩
    · exact ⟨Nat.lt_succ_of_lt hlt, hp⟩
  · intro hboth
    rcases hboth with ⟨hlt, hp⟩
    rcases Nat.lt_succ_iff_lt_or_eq.mp hlt with hlt | rfl
    · exact Or.inr ⟨hlt, hp⟩
    · exact Or.inl rfl

theorem mem_iff_lt_succ {P : Nat -> Prop} {pos : Nat} {indexed : List Nat}
    (h : forall p, p ∈ indexed ↔ p < pos ∧ P p) (hpos : ¬ P pos) (p : Nat) :
    p ∈ indexed ↔ p < pos + 1 ∧ P p := by
  rw [h]
  constructor
  · intro hboth
    exact ⟨Nat.lt_succ_of_lt hboth.1, hboth.2⟩
  · intro hboth
    rcases hboth with ⟨hlt, hp⟩
    rcases Nat.lt_succ_iff_lt_or_eq.mp hlt with hlt | rfl
    · exact ⟨hlt, hp⟩
    · exact absurd hp hpos

theorem Claims.pos_le_size {entries : Array (Entry K V)} {start index : I} {pos : Nat}
    {indexed : List Nat} {repeats : List Repeat}
    (h : Claims entries start pos index indexed repeats) :
    pos ≤ entries.size := by
  cases h with
  | start => exact Nat.zero_le _
  | vacant _ hentry _ => exact (Array.getElem?_eq_some_iff.mp hentry).1
  | repeated _ hentry _ => exact (Array.getElem?_eq_some_iff.mp hentry).1

/-- An answer of placing that some state of claims explains. -/
def Placed.Justified (entries : Array (Entry K V)) (start : I) (reject : Bool) :
    Placed I -> Prop
  | .done index repeats =>
      (reject = true -> repeats = []) ∧
        exists indexed, Claims entries start entries.size index indexed repeats.reverse
  | .rejected first second =>
      reject = true ∧
        exists (index : I) (indexed : List Nat) (entry : Entry K V),
          Claims entries start second index indexed [] ∧
            entries[second]? = some entry ∧
              Placing.probe index entries entry.key = .repeated first
  | .overflow =>
      exists (pos : Nat) (index : I) (indexed : List Nat) (repeats : List Repeat)
        (entry : Entry K V),
        Claims entries start pos index indexed repeats ∧
          entries[pos]? = some entry ∧
            Placing.probe index entries entry.key = .full ∧
              (reject = true -> repeats = [])

theorem getElem?_of_drop_eq_cons {items : Array α} {pos : Nat} {item : α} {rest : List α}
    (h : items.toList.drop pos = item :: rest) :
    items[pos]? = some item ∧ items.toList.drop (pos + 1) = rest := by
  constructor
  · rw [← Array.getElem?_toList, ← List.head?_drop, h, List.head?_cons]
  · rw [← List.tail_drop, h, List.tail_cons]

theorem placeFrom_justified {entries : Array (Entry K V)} {start : I} {reject : Bool}
    {rest : List (Entry K V)} {pos : Nat} {index : I} {indexed : List Nat}
    {repeats : List Repeat} (hrest : entries.toList.drop pos = rest)
    (hclaims : Claims entries start pos index indexed repeats)
    (hreject : reject = true -> repeats = []) :
    (placeFrom reject entries rest pos index repeats).Justified entries start reject := by
  -- On the entries still to come: each step adds the claim at the position they start at.
  induction rest generalizing pos index indexed repeats with
  | nil =>
      have hlen := hclaims.pos_le_size
      have hend : entries.toList.length ≤ pos := List.drop_eq_nil_iff.mp hrest
      have hpos : pos = entries.size := by
        rw [Array.length_toList] at hend
        omega
      subst hpos
      refine ⟨?_, indexed, ?_⟩
      · intro h
        rw [hreject h, List.reverse_nil]
      · rw [List.reverse_reverse]
        exact hclaims
  | cons entry rest ih =>
      rcases getElem?_of_drop_eq_cons hrest with ⟨hentry, hrest'⟩
      unfold placeFrom
      split
      next next hclaim =>
        have hprobe : Placing.probe index entries entry.key = .full := by
          rw [← claim_fst index entries pos, hclaim]
        exact ⟨pos, index, indexed, repeats, entry, hclaims, hentry, hprobe, hreject⟩
      next next hclaim =>
        exact ih hrest' (hclaims.vacant hentry hclaim) hreject
      next first next hclaim =>
        split
        next hrejects =>
          rw [hreject hrejects] at hclaims
          exact ⟨hrejects, index, indexed, entry, hclaims, hentry,
            (claim_eq_repeated_iff.mp hclaim).1⟩
        next hkeeps =>
          exact ih hrest' (hclaims.repeated hentry hclaim)
            (fun h => absurd h hkeeps)

theorem place_justified (entries : Array (Entry K V)) (start : I) (reject : Bool) :
    (place reject entries start).Justified entries start reject :=
  placeFrom_justified rfl Claims.start (fun _ => rfl)

/-! ## Repeats of indexed positions -/

def Stays (repeats : List Repeat) (pos : Nat) : Prop :=
  forall r, r ∈ repeats -> r.later ≠ pos

/--
Repeats among `len` positions that stand in the order of their later positions
and lead back to positions that stay.
-/
structure Resolvable (len : Nat) (repeats : List Repeat) : Prop where
  ascending : repeats.Pairwise fun r s => r.later < s.later
  later_lt : forall r, r ∈ repeats -> r.later < len
  first_lt : forall r, r ∈ repeats -> r.first < r.later
  first_stays : forall r, r ∈ repeats -> Stays repeats r.first

def PointsInto (index : I) (entries : Array (Entry K V)) (indexed : List Nat) : Prop :=
  forall key first, Placing.probe index entries key = .repeated first -> first ∈ indexed

theorem stays_concat_iff {repeats : List Repeat} {r : Repeat} {pos : Nat} :
    Stays (repeats ++ [r]) pos ↔ Stays repeats pos ∧ r.later ≠ pos := by
  constructor
  · intro h
    exact ⟨fun s hs => h s (List.mem_append_left _ hs),
      h r (List.mem_append_right _ List.mem_cons_self)⟩
  · intro h s hs
    rcases h with ⟨hrepeats, hr⟩
    rcases List.mem_append.mp hs with hs | hs
    · exact hrepeats s hs
    · rw [List.mem_singleton.mp hs]
      exact hr

theorem resolvable_nil (len : Nat) :
    Resolvable len [] where
  ascending := List.Pairwise.nil
  later_lt := by simp
  first_lt := by simp
  first_stays := by simp

theorem Resolvable.concat {len first : Nat} {repeats : List Repeat}
    (h : Resolvable len repeats) (hlt : first < len) (hstays : Stays repeats first) :
    Resolvable (len + 1) (repeats ++ [⟨first, len⟩]) where
  ascending := by
    rw [List.pairwise_append]
    refine ⟨h.ascending, List.pairwise_singleton _ _, ?_⟩
    intro r hr s hs
    rw [List.mem_singleton.mp hs]
    exact h.later_lt r hr
  later_lt := by
    intro r hr
    rcases List.mem_append.mp hr with hr | hr
    · exact Nat.lt_succ_of_lt (h.later_lt r hr)
    · rw [List.mem_singleton.mp hr]
      exact Nat.lt_succ_self len
  first_lt := by
    intro r hr
    rcases List.mem_append.mp hr with hr | hr
    · exact h.first_lt r hr
    · rw [List.mem_singleton.mp hr]
      exact hlt
  first_stays := by
    intro r hr
    rw [stays_concat_iff]
    rcases List.mem_append.mp hr with hr | hr
    · have hfirst := Nat.lt_trans (h.first_lt r hr) (h.later_lt r hr)
      exact ⟨h.first_stays r hr, Nat.ne_of_gt hfirst⟩
    · rw [List.mem_singleton.mp hr]
      exact ⟨hstays, Nat.ne_of_gt hlt⟩

theorem Resolvable.mono {len more : Nat} {repeats : List Repeat}
    (h : Resolvable len repeats) (hle : len ≤ more) :
    Resolvable more repeats where
  ascending := h.ascending
  later_lt := fun r hr => Nat.lt_of_lt_of_le (h.later_lt r hr) hle
  first_lt := h.first_lt
  first_stays := h.first_stays

theorem Resolvable.of_append {len : Nat} {front back : List Repeat}
    (h : Resolvable len (front ++ back)) :
    Resolvable len front where
  ascending := (List.pairwise_append.mp h.ascending).1
  later_lt := fun r hr => h.later_lt r (List.mem_append_left back hr)
  first_lt := fun r hr => h.first_lt r (List.mem_append_left back hr)
  first_stays := by
    intro r hr s hs
    exact h.first_stays r (List.mem_append_left back hr) s (List.mem_append_left back hs)

/-- Each position seen so far is indexed or the later one of a repeat, and never both. -/
theorem Claims.resolvable {entries : Array (Entry K V)} {start index : I} {pos : Nat}
    {indexed : List Nat} {repeats : List Repeat}
    (hpoints : forall {pos : Nat} {index : I} {indexed : List Nat} {repeats : List Repeat},
      Claims entries start pos index indexed repeats -> PointsInto index entries indexed)
    (h : Claims entries start pos index indexed repeats) :
    Resolvable pos repeats.reverse ∧
      forall p, p ∈ indexed ↔ p < pos ∧ Stays repeats.reverse p := by
  induction h with
  | start =>
      refine ⟨resolvable_nil 0, ?_⟩
      intro p
      simp
  | @vacant pos index next indexed repeats entry hclaims hentry hclaim ih =>
      rcases ih with ⟨hres, hindexed⟩
      refine ⟨hres.mono (Nat.le_succ pos), ?_⟩
      apply mem_cons_iff_lt_succ hindexed
      intro r hr
      exact Nat.ne_of_lt (hres.later_lt r hr)
  | @repeated pos index next indexed repeats entry first hclaims hentry hclaim ih =>
      rcases ih with ⟨hres, hindexed⟩
      have hprobe := (claim_eq_repeated_iff.mp hclaim).1
      -- What is reported is indexed, so it stays and can be led back to.
      rcases (hindexed first).mp (hpoints hclaims _ first hprobe) with ⟨hlt, hstays⟩
      rw [List.reverse_cons]
      refine ⟨hres.concat hlt hstays, ?_⟩
      intro p
      rw [hindexed, stays_concat_iff]
      constructor
      · intro hboth
        rcases hboth with ⟨hp, hpstays⟩
        exact ⟨Nat.lt_succ_of_lt hp, hpstays, Nat.ne_of_gt hp⟩
      · intro hboth
        rcases hboth with ⟨hp, hpstays, hne⟩
        exact ⟨Nat.lt_of_le_of_ne (Nat.le_of_lt_succ hp) (Ne.symm hne), hpstays⟩

theorem exists_claims_of_place_done {entries : Array (Entry K V)} {start index : I}
    {reject : Bool} {repeats : List Repeat}
    (hpoints : forall {pos : Nat} {index : I} {indexed : List Nat} {repeats : List Repeat},
      Claims entries start pos index indexed repeats -> PointsInto index entries indexed)
    (h : place reject entries start = .done index repeats) :
    exists indexed,
      Claims entries start entries.size index indexed repeats.reverse ∧
        Resolvable entries.size repeats ∧
          forall p, p ∈ indexed ↔ p < entries.size ∧ Stays repeats p := by
  have hjust := place_justified entries start reject
  rw [h] at hjust
  rcases hjust with ⟨_, indexed, hclaims⟩
  have hres := hclaims.resolvable hpoints
  rw [List.reverse_reverse] at hres
  exact ⟨indexed, hclaims, hres⟩

/-! ## Indexes that answer exactly -/

variable [BEq K]

/-- The index reports a key exactly if it stands at an indexed position. -/
structure Answers (index : I) (entries : Array (Entry K V)) (indexed : List Nat) : Prop where
  of_repeated : forall {key : K} {first : Nat},
    Placing.probe index entries key = .repeated first ->
    first ∈ indexed ∧ holdsAt entries key first = true
  of_not_repeated : forall {key : K},
    (forall first, Placing.probe index entries key ≠ .repeated first) ->
    forall {pos : Nat}, pos ∈ indexed -> holdsAt entries key pos = false

theorem Answers.pointsInto {index : I} {entries : Array (Entry K V)} {indexed : List Nat}
    (h : Answers index entries indexed) :
    PointsInto index entries indexed :=
  fun _ _ hprobe => (h.of_repeated hprobe).1

variable [EquivBEq K]

theorem isFirst_of_not_repeated {index : I} {entries : Array (Entry K V)}
    {indexed : List Nat} {entry : Entry K V} {pos : Nat}
    (hanswers : Answers index entries indexed)
    (hindexed : forall p, p ∈ indexed ↔ p < pos ∧ IsFirst entries p)
    (hentry : entries[pos]? = some entry)
    (hprobe : forall first, Placing.probe index entries entry.key ≠ .repeated first) :
    IsFirst entries pos := by
  rcases exists_firstPosition?_le hentry with ⟨first, hfirst, hle⟩
  rcases Nat.lt_or_eq_of_le hle with hlt | rfl
  · have hmem := (hindexed first).mpr ⟨hlt, isFirst_of_firstPosition? hfirst⟩
    have hnot := hanswers.of_not_repeated hprobe hmem
    rw [(firstPosition?_eq_some_iff.mp hfirst).1] at hnot
    cases hnot
  · exact ⟨entry, hentry, hfirst⟩

theorem repeatAt?_of_repeated {index : I} {entries : Array (Entry K V)}
    {indexed : List Nat} {entry : Entry K V} {pos first : Nat}
    (hanswers : Answers index entries indexed)
    (hindexed : forall p, p ∈ indexed ↔ p < pos ∧ IsFirst entries p)
    (hentry : entries[pos]? = some entry)
    (hprobe : Placing.probe index entries entry.key = .repeated first) :
    repeatAt? entries pos = some ⟨first, pos⟩ := by
  rcases hanswers.of_repeated hprobe with ⟨hmem, hholds⟩
  rcases (hindexed first).mp hmem with ⟨hlt, other, hother, hfirst⟩
  apply repeatAt?_eq_some_iff.mpr
  refine ⟨rfl, hlt, entry, hentry, ?_⟩
  rw [firstPosition?_of_holdsAt hother hholds]
  exact hfirst

variable {entries : Array (Entry K V)} {start : I}
  (hanswers : forall {pos : Nat} {index : I} {indexed : List Nat} {repeats : List Repeat},
    Claims entries start pos index indexed repeats -> Answers index entries indexed)

include hanswers

theorem Claims.firsts {pos : Nat} {index : I} {indexed : List Nat} {repeats : List Repeat}
    (h : Claims entries start pos index indexed repeats) :
    (forall p, p ∈ indexed ↔ p < pos ∧ IsFirst entries p) ∧
      repeats.reverse = repeatsBelow entries pos := by
  induction h with
  | start =>
      refine ⟨?_, rfl⟩
      intro p
      simp
  | @vacant pos index next indexed repeats entry hclaims hentry hclaim ih =>
      rcases ih with ⟨hindexed, hrepeats⟩
      have hprobe := (claim_eq_vacant_iff.mp hclaim).1
      have hfirst : IsFirst entries pos :=
        isFirst_of_not_repeated (hanswers hclaims) hindexed hentry (by simp [hprobe])
      have hnone : repeatAt? entries pos = none :=
        (repeatAt?_eq_none_iff (Array.getElem?_eq_some_iff.mp hentry).1).mpr hfirst
      constructor
      · exact mem_cons_iff_lt_succ hindexed hfirst
      · rw [repeatsBelow_succ, hnone, hrepeats, Option.toList_none, List.append_nil]
  | @repeated pos index next indexed repeats entry first hclaims hentry hclaim ih =>
      rcases ih with ⟨hindexed, hrepeats⟩
      have hprobe := (claim_eq_repeated_iff.mp hclaim).1
      have hrepeat := repeatAt?_of_repeated (hanswers hclaims) hindexed hentry hprobe
      have hnot : ¬ IsFirst entries pos := by
        intro hfirst
        have hnone := (repeatAt?_eq_none_iff
          (Array.getElem?_eq_some_iff.mp hentry).1).mpr hfirst
        rw [hrepeat] at hnone
        cases hnone
      constructor
      · exact mem_iff_lt_succ hindexed hnot
      · rw [List.reverse_cons, repeatsBelow_succ, hrepeat, hrepeats, Option.toList_some]

theorem repeats_of_place_done {reject : Bool} {index : I} {repeats : List Repeat}
    (h : place reject entries start = .done index repeats) :
    repeats = repeatsOf entries ∧ (reject = true -> repeats = []) := by
  have hjust := place_justified entries start reject
  rw [h] at hjust
  rcases hjust with ⟨hreject, indexed, hclaims⟩
  have hrepeats := (hclaims.firsts hanswers).2
  rw [List.reverse_reverse] at hrepeats
  exact ⟨hrepeats, hreject⟩

theorem repeats_of_place_rejected {reject : Bool} {first second : Nat}
    (h : place reject entries start = .rejected first second) :
    reject = true ∧ (repeatsOf entries).head? = some ⟨first, second⟩ := by
  have hjust := place_justified entries start reject
  rw [h] at hjust
  rcases hjust with ⟨hreject, index, indexed, entry, hclaims, hentry, hprobe⟩
  rcases hclaims.firsts hanswers with ⟨hindexed, hrepeats⟩
  have hrepeat := repeatAt?_of_repeated (hanswers hclaims) hindexed hentry hprobe
  refine ⟨hreject, ?_⟩
  exact head?_repeatsOf hrepeats.symm hrepeat

end Index
end SealedMap
