import SealedMap.Construction
import SealedMap.Proofs.Arranging

/-!
# Stable sorting

Sorting entries by a total preorder of values puts smaller values first and keeps
the entries with equivalent values in the order they had.  There is only one such
arrangement of given entries.
-/

namespace SealedMap

variable {K V : Type} {order : ValueOrder V} {entries left right : List (Entry K V)}

def tied (order : ValueOrder V) (value : V) (entries : List (Entry K V)) : List (Entry K V) :=
  entries.filter fun entry => order entry.value value == .eq

/-- The entries with no value before a smaller one, and with ties as they were. -/
structure StablySorted (order : ValueOrder V) (sorted entries : List (Entry K V)) : Prop where
  perm : sorted.Perm entries
  ordered : sorted.Pairwise fun earlier later => order earlier.value later.value ≠ .gt
  stable : forall value, tied order value sorted = tied order value entries

theorem mem_tied_iff {value : V} {entry : Entry K V} :
    entry ∈ tied order value entries ↔ entry ∈ entries ∧ order entry.value value = .eq := by
  rw [tied, List.mem_filter, beq_iff_eq]

theorem tied_cons_of_eq {value : V} {entry : Entry K V} (h : order entry.value value = .eq) :
    tied order value (entry :: entries) = entry :: tied order value entries := by
  rw [tied, List.filter_cons, h]
  rfl

theorem tied_cons_of_ne {value : V} {entry : Entry K V} (h : order entry.value value ≠ .eq) :
    tied order value (entry :: entries) = tied order value entries := by
  rw [tied, List.filter_cons, beq_false_of_ne h]
  rfl

theorem tied_tied (value : V) :
    tied order value (tied order value entries) = tied order value entries := by
  rw [tied, tied, List.filter_filter]
  simp only [Bool.and_self]

variable [Std.TransCmp order]

/-! ## Sorting is stable -/

theorem isLE_of_mem_tied {value : V} {first second : Entry K V}
    (hfirst : first ∈ tied order value entries) (hsecond : second ∈ tied order value entries) :
    (order first.value second.value).isLE = true := by
  have hvalue := Std.OrientedCmp.eq_symm (mem_tied_iff.mp hsecond).2
  rw [Std.TransCmp.eq_trans (mem_tied_iff.mp hfirst).2 hvalue]
  rfl

theorem isLE_total (first second : Entry K V) :
    ((order first.value second.value).isLE || (order second.value first.value).isLE) = true := by
  cases hcompare : order first.value second.value with
  | lt => rfl
  | eq => rfl
  | gt =>
      rw [Std.OrientedCmp.gt_iff_lt.mp hcompare]
      rfl

variable (order) in
theorem stablySorted_sortByValue (entries : Array (Entry K V)) :
    StablySorted order (Construction.sortByValue order entries).toList entries.toList := by
  have htrans : forall a b c : Entry K V, (order a.value b.value).isLE = true ->
      (order b.value c.value).isLE = true -> (order a.value c.value).isLE = true :=
    fun _ _ _ => Std.TransCmp.isLE_trans
  have hperm := Construction.perm_sortByValue order entries
  refine ⟨hperm, ?_, ?_⟩
  · apply (List.pairwise_mergeSort htrans isLE_total entries.toList).imp
    intro earlier later hle hgt
    rw [hgt] at hle
    cases hle
  · intro value
    -- The ties stay together, in their order, as every sorted part of the entries does.
    have hties : (tied order value entries.toList).Pairwise fun first second =>
        (order first.value second.value).isLE = true :=
      List.pairwise_of_forall_mem_list fun _ hfirst _ hsecond => isLE_of_mem_tied hfirst hsecond
    have hkept := (List.sublist_mergeSort htrans isLE_total hties List.filter_sublist).filter
      fun entry => order entry.value value == .eq
    change (tied order value (tied order value entries.toList)).Sublist
      (tied order value (Construction.sortByValue order entries).toList) at hkept
    rw [tied_tied] at hkept
    exact (hkept.eq_of_length (hperm.filter _).length_eq.symm).symm

/-! ## One stable arrangement -/

theorem eq_of_heads {first second : Entry K V} {rest others : List (Entry K V)}
    (hperm : (first :: rest).Perm (second :: others))
    (hleft : forall later, later ∈ rest -> order first.value later.value ≠ .gt)
    (hright : forall later, later ∈ others -> order second.value later.value ≠ .gt) :
    order second.value first.value = .eq := by
  have hsecond : second = first ∨ second ∈ rest :=
    List.mem_cons.mp (hperm.mem_iff.mpr List.mem_cons_self)
  have hfirst : first = second ∨ first ∈ others :=
    List.mem_cons.mp (hperm.mem_iff.mp List.mem_cons_self)
  rcases hsecond with rfl | hsecond
  · exact Std.ReflCmp.compare_self
  · rcases hfirst with rfl | hfirst
    · exact Std.ReflCmp.compare_self
    · have hle := hleft second hsecond
      have hge := hright first hfirst
      cases hcompare : order second.value first.value with
      | eq => rfl
      | gt => exact absurd hcompare hge
      | lt => exact absurd (Std.OrientedCmp.gt_iff_lt.mpr hcompare) hle

theorem eq_of_ties (hperm : left.Perm right)
    (hleft : left.Pairwise fun earlier later => order earlier.value later.value ≠ .gt)
    (hright : right.Pairwise fun earlier later => order earlier.value later.value ≠ .gt)
    (hties : forall value, tied order value left = tied order value right) :
    left = right := by
  induction left generalizing right with
  | nil => exact hperm.nil_eq
  | cons first rest ih =>
      cases right with
      | nil => exact absurd hperm.symm.nil_eq (List.cons_ne_nil first rest).symm
      | cons second others =>
          rcases List.pairwise_cons.mp hleft with ⟨hfirst, hrest⟩
          rcases List.pairwise_cons.mp hright with ⟨hsecond, hothers⟩
          -- Both heads are least, so they tie, and each is the first of the entries it ties with.
          have hself : order first.value first.value = .eq := Std.ReflCmp.compare_self
          have hheads := hties first.value
          rw [tied_cons_of_eq hself, tied_cons_of_eq (eq_of_heads hperm hfirst hsecond)] at hheads
          rcases List.cons.inj hheads with ⟨rfl, _⟩
          have htails : forall value, tied order value rest = tied order value others := by
            intro value
            have hvalue := hties value
            by_cases heq : order first.value value = .eq
            · rw [tied_cons_of_eq heq, tied_cons_of_eq heq] at hvalue
              exact (List.cons.inj hvalue).2
            · rw [tied_cons_of_ne heq, tied_cons_of_ne heq] at hvalue
              exact hvalue
          rw [ih hperm.cons_inv hrest hothers htails]

theorem StablySorted.unique (h : StablySorted order left entries)
    (k : StablySorted order right entries) :
    left = right :=
  eq_of_ties (h.perm.trans k.perm.symm) h.ordered k.ordered fun value =>
    (h.stable value).trans (k.stable value).symm

end SealedMap
