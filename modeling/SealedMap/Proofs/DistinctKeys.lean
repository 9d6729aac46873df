/-!
# Counting keys up to equality

Keys are compared by an equivalence, so keys that are written differently may
count as one.  A list of pairwise different keys that stands for every key of
another list counts that list's keys, whichever spellings it picks.
-/

namespace SealedMap

variable {K : Type} [BEq K]

def Distinct (keys : List K) : Prop :=
  keys.Pairwise fun a b => (a == b) = false

/-- Every key of `others` is equal to one of `keys`. -/
def Covers (keys others : List K) : Prop :=
  forall other, other ∈ others -> exists key, key ∈ keys ∧ (key == other) = true

def distinctCount (keys : List K) : Nat :=
  keys.eraseDups.length

theorem beq_comm_false [EquivBEq K] {a b : K} (h : (a == b) = false) :
    (b == a) = false := by
  rw [BEq.comm]
  exact h

theorem Covers.of_subset [EquivBEq K] {keys others : List K}
    (h : forall key, key ∈ others -> key ∈ keys) :
    Covers keys others := by
  intro key hkey
  exact ⟨key, h key hkey, BEq.rfl⟩

theorem Covers.trans [EquivBEq K] {xs ys zs : List K}
    (hxy : Covers xs ys) (hyz : Covers ys zs) :
    Covers xs zs := by
  intro z hz
  rcases hyz z hz with ⟨y, hy, hyz⟩
  rcases hxy y hy with ⟨x, hx, hxy⟩
  exact ⟨x, hx, BEq.trans hxy hyz⟩

/-! ## Removing repetitions -/

theorem length_filter_lt_cons (first : K) (rest : List K) :
    (rest.filter fun b => !b == first).length < (first :: rest).length :=
  Nat.lt_succ_of_le (List.length_filter_le _ _)

theorem mem_of_mem_eraseDups {key : K} :
    forall {keys : List K}, key ∈ keys.eraseDups -> key ∈ keys
  | [], h => by simp at h
  | first :: rest, h => by
      rw [List.eraseDups_cons, List.mem_cons] at h
      rcases h with rfl | h
      · exact List.mem_cons_self
      · have hlen := length_filter_lt_cons first rest
        have hmem := mem_of_mem_eraseDups h
        exact List.mem_cons_of_mem first (List.mem_filter.mp hmem).1
termination_by keys => keys.length
decreasing_by exact hlen

theorem distinct_eraseDups [EquivBEq K] :
    forall keys : List K, Distinct keys.eraseDups
  | [] => List.Pairwise.nil
  | first :: rest => by
      rw [List.eraseDups_cons]
      have hlen := length_filter_lt_cons first rest
      apply List.Pairwise.cons
      · intro key hkey
        have hfilter := (List.mem_filter.mp (mem_of_mem_eraseDups hkey)).2
        exact beq_comm_false (by simpa using hfilter)
      · exact distinct_eraseDups _
termination_by keys => keys.length
decreasing_by exact hlen

theorem covers_eraseDups [EquivBEq K] :
    forall keys : List K, Covers keys.eraseDups keys
  | [] => by
      intro other h
      cases h
  | first :: rest => by
      have hlen := length_filter_lt_cons first rest
      intro other hother
      rw [List.eraseDups_cons]
      cases hfirst : first == other with
      | true => exact ⟨first, List.mem_cons_self, hfirst⟩
      | false =>
          have hrest : other ∈ rest.filter fun b => !b == first := by
            rcases List.mem_cons.mp hother with rfl | hmem
            · rw [BEq.rfl] at hfirst
              cases hfirst
            · exact List.mem_filter.mpr ⟨hmem, by simp [beq_comm_false hfirst]⟩
          rcases covers_eraseDups _ other hrest with ⟨key, hkey, heq⟩
          exact ⟨key, List.mem_cons_of_mem first hkey, heq⟩
termination_by keys => keys.length
decreasing_by exact hlen

/-! ## Counting -/

theorem length_le_of_covers [EquivBEq K] {keys others : List K}
    (hdistinct : Distinct others) (hcovers : Covers keys others) :
    others.length ≤ keys.length := by
  induction others generalizing keys with
  | nil => exact Nat.zero_le _
  | cons other rest ih =>
      rcases hcovers other List.mem_cons_self with ⟨key, hkey, heq⟩
      rcases List.append_of_mem hkey with ⟨front, back, rfl⟩
      rcases List.pairwise_cons.mp hdistinct with ⟨hother, hrest⟩
      have hcovers' : Covers (front ++ back) rest := by
        intro later hlater
        rcases hcovers later (List.mem_cons_of_mem other hlater) with ⟨k, hk, hkl⟩
        rcases List.mem_append.mp hk with hfront | hback
        · exact ⟨k, List.mem_append_left back hfront, hkl⟩
        · rcases List.mem_cons.mp hback with rfl | hback
          · -- One key cannot stand for two different ones.
            have hsame : (other == later) = true := BEq.trans (BEq.symm heq) hkl
            rw [hother later hlater] at hsame
            cases hsame
          · exact ⟨k, List.mem_append_right front hback, hkl⟩
      have hlen := ih hrest hcovers'
      simp only [List.length_append, List.length_cons] at hlen ⊢
      omega

theorem distinctCount_eq [EquivBEq K] {keys others : List K}
    (hdistinct : Distinct others) (hcovers : Covers others keys)
    (hcovered : Covers keys others) :
    distinctCount keys = others.length := by
  apply Nat.le_antisymm
  · exact length_le_of_covers (distinct_eraseDups keys)
      (hcovers.trans (Covers.of_subset fun _ => mem_of_mem_eraseDups))
  · exact length_le_of_covers hdistinct ((covers_eraseDups keys).trans hcovered)

theorem distinctCount_le [EquivBEq K] {keys others : List K} (h : Covers others keys) :
    distinctCount keys ≤ distinctCount others :=
  length_le_of_covers (distinct_eraseDups keys)
    ((covers_eraseDups others).trans
      (h.trans (Covers.of_subset fun _ => mem_of_mem_eraseDups)))

theorem distinctCount_of_distinct [EquivBEq K] {keys : List K}
    (hdistinct : Distinct keys) :
    distinctCount keys = keys.length :=
  distinctCount_eq hdistinct (Covers.of_subset fun _ h => h)
    (Covers.of_subset fun _ h => h)

end SealedMap
