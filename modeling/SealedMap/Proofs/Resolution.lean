import SealedMap.Refusal
import SealedMap.Proofs.Folding

/-!
# Resolving the repeats of entries

The repeats of an array of entries, as they are read off the entries alone, can
be folded; what stays are the first positions.  `settled` is what resolving
comes to without any index.
-/

namespace SealedMap

open Index (Repeat Resolvable Stays)

variable {σ K V : Type} [BEq K]

/-! ## Settling without an index -/

/-- The entries that a policy leaves of these, or the repeat that it refuses. -/
def settled (policy : Policy σ K V) (entries : Array (Entry K V)) :
    StateM σ (Except Refusal (Array (Entry K V))) :=
  match policy.rejects, repeatsOf entries with
  | true, r :: _ => pure (.error (.duplicateKey r.first r.later))
  | _, repeats => do
      let kept <- Repeats.fold policy.combine entries repeats
      pure (.ok kept)

theorem run_settled_of_head? {policy : Policy σ K V} {entries : Array (Entry K V)}
    {r : Repeat} (hrejects : policy.rejects = true)
    (hrepeat : (repeatsOf entries).head? = some r) (state : σ) :
    (settled policy entries).run state = (.error (.duplicateKey r.first r.later), state) := by
  rcases List.head?_eq_some_iff.mp hrepeat with ⟨rest, hrest⟩
  unfold settled
  rw [hrejects, hrest]
  rfl

theorem run_settled_of_kept {policy : Policy σ K V} {entries : Array (Entry K V)}
    (h : policy.rejects = true -> repeatsOf entries = []) (state : σ) :
    (settled policy entries).run state =
      (.ok ((Repeats.fold policy.combine entries (repeatsOf entries)).run state).1,
        ((Repeats.fold policy.combine entries (repeatsOf entries)).run state).2) := by
  unfold settled
  cases hrejects : policy.rejects with
  | true =>
      rw [h hrejects]
      rfl
  | false => rfl

def Refuses (policy : Policy σ K V) (entries : Array (Entry K V)) : Prop :=
  policy.rejects = true ∧ repeatsOf entries ≠ []

theorem run_settled_of_refuses {policy : Policy σ K V} {entries : Array (Entry K V)}
    (h : Refuses policy entries) (state : σ) :
    exists r, (repeatsOf entries).head? = some r ∧
      (settled policy entries).run state =
        (.error (.duplicateKey r.first r.later), state) := by
  rcases h with ⟨hrejects, hne⟩
  cases hrepeats : repeatsOf entries with
  | nil => exact absurd hrepeats hne
  | cons r rest =>
      have hhead : (repeatsOf entries).head? = some r := by
        rw [hrepeats, List.head?_cons]
      exact ⟨r, rfl, run_settled_of_head? hrejects hhead state⟩

theorem repeatsOf_eq_nil_of_not_refuses {policy : Policy σ K V}
    {entries : Array (Entry K V)} (h : ¬ Refuses policy entries)
    (hrejects : policy.rejects = true) :
    repeatsOf entries = [] :=
  Classical.byContradiction fun hne => h ⟨hrejects, hne⟩

theorem not_refuses_of_keeps {policy : Policy σ K V} (h : policy.rejects = false)
    (entries : Array (Entry K V)) :
    ¬ Refuses policy entries := by
  intro hrefuses
  have hrejects := hrefuses.1
  rw [h] at hrejects
  cases hrejects

theorem run_settled_of_no_repeats {entries : Array (Entry K V)}
    (h : repeatsOf entries = []) (policy : Policy σ K V) (state : σ) :
    (settled policy entries).run state = (.ok entries, state) := by
  rw [run_settled_of_kept (fun _ => h), h, Repeats.run_fold_nil]

/-! ## The repeats of an array -/

theorem mem_repeatsBelow_iff {entries : Array (Entry K V)} {pos : Nat} {r : Repeat} :
    r ∈ repeatsBelow entries pos ↔
      r.later < pos ∧ repeatAt? entries r.later = some r := by
  unfold repeatsBelow
  rw [List.mem_filterMap]
  constructor
  · intro h
    rcases h with ⟨later, hlater, hrepeat⟩
    rw [(repeatAt?_eq_some_iff.mp hrepeat).1]
    exact ⟨List.mem_range.mp hlater, hrepeat⟩
  · intro h
    rcases h with ⟨hlater, hrepeat⟩
    exact ⟨r.later, List.mem_range.mpr hlater, hrepeat⟩

theorem mem_repeatsOf_iff {entries : Array (Entry K V)} {r : Repeat} :
    r ∈ repeatsOf entries ↔ repeatAt? entries r.later = some r := by
  unfold repeatsOf
  rw [mem_repeatsBelow_iff]
  constructor
  · intro h
    exact h.2
  · intro h
    rcases repeatAt?_eq_some_iff.mp h with ⟨_, _, entry, hentry, _⟩
    exact ⟨(Array.getElem?_eq_some_iff.mp hentry).1, h⟩

theorem ascending_repeatsOf (entries : Array (Entry K V)) :
    (repeatsOf entries).Pairwise fun r s => r.later < s.later := by
  unfold repeatsOf repeatsBelow
  rw [List.pairwise_filterMap]
  apply List.pairwise_lt_range.imp
  intro p q hlt r hr s hs
  rw [(repeatAt?_eq_some_iff.mp hr).1, (repeatAt?_eq_some_iff.mp hs).1]
  exact hlt

variable [EquivBEq K]

theorem stays_repeatsOf_iff {entries : Array (Entry K V)} {pos : Nat}
    (hpos : pos < entries.size) :
    Stays (repeatsOf entries) pos ↔ IsFirst entries pos := by
  rw [← repeatAt?_eq_none_iff hpos]
  constructor
  · intro h
    cases hrepeat : repeatAt? entries pos with
    | none => rfl
    | some r =>
        have heq := (repeatAt?_eq_some_iff.mp hrepeat).1
        have hmem : r ∈ repeatsOf entries := mem_repeatsOf_iff.mpr (heq ▸ hrepeat)
        exact absurd heq (h r hmem)
  · intro h r hr heq
    subst heq
    rw [mem_repeatsOf_iff.mp hr] at h
    cases h

theorem resolvable_repeatsOf (entries : Array (Entry K V)) :
    Resolvable entries.size (repeatsOf entries) where
  ascending := ascending_repeatsOf entries
  later_lt := fun _ hr => (mem_repeatsBelow_iff.mp hr).1
  first_lt := fun _ hr => (repeatAt?_eq_some_iff.mp (mem_repeatsOf_iff.mp hr)).2.1
  first_stays := by
    intro r hr
    rcases repeatAt?_eq_some_iff.mp (mem_repeatsOf_iff.mp hr) with
      ⟨_, hlt, entry, hentry, hfirst⟩
    have hsize := (Array.getElem?_eq_some_iff.mp hentry).1
    exact (stays_repeatsOf_iff (Nat.lt_trans hlt hsize)).mpr
      (isFirst_of_firstPosition? hfirst)

theorem superseded_repeatsOf_eq_false_iff {entries : Array (Entry K V)} {pos : Nat} :
    (Repeats.superseded entries.size (repeatsOf entries))[pos]? = some false ↔
      pos < entries.size ∧ IsFirst entries pos := by
  rw [Repeats.superseded_eq_false_iff]
  constructor
  · intro h
    rcases h with ⟨hpos, hstays⟩
    exact ⟨hpos, (stays_repeatsOf_iff hpos).mp hstays⟩
  · intro h
    rcases h with ⟨hpos, hfirst⟩
    exact ⟨hpos, (stays_repeatsOf_iff hpos).mpr hfirst⟩

theorem repeatsOf_eq_nil_of_size_lt {entries : Array (Entry K V)} (h : entries.size < 2) :
    repeatsOf entries = [] := by
  apply List.eq_nil_iff_forall_not_mem.mpr
  intro r hr
  have hres := resolvable_repeatsOf entries
  have hlt := hres.first_lt r hr
  have hlater := hres.later_lt r hr
  omega

end SealedMap
