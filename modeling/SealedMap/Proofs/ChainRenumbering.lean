import SealedMap.Proofs.Chains
import SealedMap.Proofs.Renumbering

/-!
# Renumbering a chained index

After entries were dropped, the heads and links of a chained index are moved to
the new numbers.  Every chain keeps its positions under their new numbers, in
the same order, so a sound index stays sound; and since only positions that
stay were indexed, it then indexes every entry there is.
-/

namespace SealedMap
namespace Index
namespace Chained

open Repeats (Renumbers Selects number? numbering numberFrom superseded)

variable {K V : Type}

def moved (gone : Array Bool) (link : Option Nat) : Option Nat :=
  link.bind (number? gone)

theorem heads_renumber (index : Chained K) (gone : Array Bool) (bucket : Nat) :
    (index.renumber (numbering gone)).heads[bucket]? =
      index.heads[bucket]?.map (moved gone) :=
  Array.getElem?_map

def keepLink (gone : Array Bool) (item : Option Nat × Option Nat) : Option (Option Nat) :=
  item.2.map fun _ => moved gone item.1

theorem toList_links_renumber (index : Chained K) (gone : Array Bool) :
    (index.renumber (numbering gone)).links.toList =
      (index.links.toList.zip (numberFrom 0 gone.toList)).filterMap (keepLink gone) := by
  rw [← Repeats.toList_numbering, ← Array.toList_zip]
  exact Array.toList_filterMap

theorem sameTable_renumber (index : Chained K) (gone : Array Bool) :
    SameTable (index.renumber (numbering gone)) index := by
  cases index
  exact ⟨rfl, Array.size_map, rfl⟩

section Links

variable {index : Chained K} {gone : Array Bool} (hsize : index.links.size = gone.size)

include hsize

theorem selects_keepLink :
    Selects (keepLink gone) (index.links.toList.zip (numberFrom 0 gone.toList))
      gone.toList := by
  apply Repeats.selects_zip
  · intro link number
    exact Option.isSome_map
  · apply Nat.le_of_eq
    rw [Repeats.length_numberFrom, Array.length_toList, Array.length_toList, hsize]
  · exact Repeats.isSome_numberFrom 0 gone.toList

theorem links_renumber {pos n : Nat} {link : Option Nat}
    (hlink : index.links[pos]? = some link) (hnumber : number? gone pos = some n) :
    (index.renumber (numbering gone)).links[n]? = some (moved gone link) := by
  have hnumber' := Repeats.number?_eq_some_iff.mp hnumber
  have hitem : (index.links.toList.zip (numberFrom 0 gone.toList))[pos]? =
      some (link, some n) := by
    rw [List.getElem?_zip_eq_some, Array.getElem?_toList]
    exact ⟨hlink, hnumber'⟩
  rw [← Array.getElem?_toList, toList_links_renumber]
  exact Repeats.getElem?_filterMap_numberFrom (selects_keepLink hsize) hnumber' hitem

theorem exists_number?_of_lt_links {n : Nat}
    (hn : n < (index.renumber (numbering gone)).links.size) :
    exists pos, number? gone pos = some n := by
  rw [← Array.length_toList, toList_links_renumber] at hn
  rcases Repeats.exists_numberFrom 0 (selects_keepLink hsize) hn with ⟨pos, hpos⟩
  rw [Nat.zero_add] at hpos
  exact ⟨pos, Repeats.number?_eq_some_iff.mpr hpos⟩

theorem Linked.renumber {head : Option Nat} {chain : List Nat}
    (h : Linked index.links head chain)
    (hstays : forall pos, pos ∈ chain -> gone[pos]? = some false) :
    Linked (index.renumber (numbering gone)).links (moved gone head)
      (chain.filterMap (number? gone)) := by
  induction h with
  | ended => exact Linked.ended
  | @next pos link rest hlink _ ih =>
      rcases Repeats.exists_number?_iff.mpr (hstays pos List.mem_cons_self) with ⟨n, hn⟩
      rw [moved, Option.bind_some, hn, List.filterMap_cons_some hn]
      apply Linked.next (links_renumber hsize hlink hn)
      exact ih fun later hlater => hstays later (List.mem_cons_of_mem pos hlater)

theorem size_links_renumber {old new : Array (Entry K V)} (hnew : Renumbers gone old new) :
    (index.renumber (numbering gone)).links.size = new.size := by
  apply Nat.le_antisymm
  · apply Nat.le_of_not_lt
    intro hlt
    rcases exists_number?_of_lt_links hsize hlt with ⟨pos, hpos⟩
    rcases hnew.key_eq hpos with ⟨_, after, _, hafter, _⟩
    exact Nat.lt_irrefl _ (Array.getElem?_eq_some_iff.mp hafter).1
  · apply Nat.le_of_not_lt
    intro hlt
    rcases hnew.onto hlt with ⟨pos, hpos⟩
    rcases hnew.key_eq hpos with ⟨_, _, hbefore, _, _⟩
    have hpos' : pos < index.links.size := by
      rw [hsize, hnew.size_eq]
      exact (Array.getElem?_eq_some_iff.mp hbefore).1
    have hlink := links_renumber hsize (Array.getElem?_eq_getElem hpos') hpos
    exact Nat.lt_irrefl _ (Array.getElem?_eq_some_iff.mp hlink).1

end Links

/-! ## Sound chains stay sound -/

section Renumber

variable [BEq K] {index : Chained K} {old new : Array (Entry K V)} {gone : Array Bool}
  {indexed : Nat -> Prop}

theorem Sound.linked_renumber (h : index.Sound old indexed)
    (hnew : Renumbers gone old new) (hindexed : forall p, indexed p -> gone[p]? = some false)
    {bucket : Nat} {head : Option Nat} (hhead : index.heads[bucket]? = some head) :
    Linked (index.renumber (numbering gone)).links (moved gone head)
      ((index.chain bucket).filterMap (number? gone)) := by
  apply Linked.renumber (h.size_links.trans hnew.size_eq.symm) (h.linked bucket head hhead)
  intro p hp
  exact hindexed p ((h.mem_chain_iff bucket p).mp hp).1

theorem Sound.descending_renumber (h : index.Sound old indexed) (gone : Array Bool)
    (bucket : Nat) :
    ((index.chain bucket).filterMap (number? gone)).Pairwise (· > ·) := by
  rw [List.pairwise_filterMap]
  apply (h.descending bucket).imp
  intro newer older hlt m hm n hn
  exact Repeats.number?_lt hn hm hlt

theorem Sound.chain_renumber (h : index.Sound old indexed)
    (hnew : Renumbers gone old new) (hindexed : forall p, indexed p -> gone[p]? = some false)
    (bucket : Nat) :
    (index.renumber (numbering gone)).chain bucket =
      (index.chain bucket).filterMap (number? gone) := by
  have hheads := heads_renumber index gone bucket
  cases hhead : index.heads[bucket]? with
  | none =>
      rw [hhead, Option.map_none] at hheads
      rw [chain_of_no_head hhead, chain_of_no_head hheads, List.filterMap_nil]
  | some head =>
      rw [hhead, Option.map_some] at hheads
      exact chain_eq_of_linked hheads (h.linked_renumber hnew hindexed hhead)
        (h.descending_renumber gone bucket)

theorem Sound.mem_chain_renumber_iff (h : index.Sound old indexed)
    (hnew : Renumbers gone old new)
    (hindexed : forall p, indexed p ↔ gone[p]? = some false) (bucket n : Nat) :
    n ∈ (index.renumber (numbering gone)).chain bucket ↔
      n < new.size ∧ Belongs index new n bucket := by
  rw [h.chain_renumber hnew (fun p => (hindexed p).mp), List.mem_filterMap]
  constructor
  · intro hmem
    rcases hmem with ⟨pos, hpos, hn⟩
    rcases hnew.key_eq hn with ⟨before, after, hbefore, hafter, hkey⟩
    rcases ((h.mem_chain_iff bucket pos).mp hpos).2 with ⟨entry, hentry, hbucket⟩
    rw [hbefore] at hentry
    cases hentry
    refine ⟨(Array.getElem?_eq_some_iff.mp hafter).1, after, hafter, ?_⟩
    rw [hkey]
    exact hbucket
  · intro hmem
    rcases hmem with ⟨hlt, after, hafter, hbucket⟩
    -- Each new position is the number of an old one that stays and was indexed.
    rcases hnew.onto hlt with ⟨pos, hn⟩
    rcases hnew.key_eq hn with ⟨before, other, hbefore, hother, hkey⟩
    rw [hafter] at hother
    cases hother
    rw [hkey] at hbucket
    have hstays := Repeats.exists_number?_iff.mp ⟨n, hn⟩
    exact ⟨pos, (h.mem_chain_iff bucket pos).mpr
      ⟨(hindexed pos).mpr hstays, before, hbefore, hbucket⟩, hn⟩

theorem Sound.distinct_renumber (h : index.Sound old indexed)
    (hnew : Renumbers gone old new) (bucket : Nat) :
    ((index.chain bucket).filterMap (number? gone)).Pairwise fun newer older =>
      forall entry, new[newer]? = some entry -> holdsAt new entry.key older = false := by
  rw [List.pairwise_filterMap]
  apply (h.distinct bucket).imp
  intro newer older hne m hm n hn entry hentry
  rcases hnew.key_eq hm with ⟨before, after, hbefore, hafter, hkey⟩
  rcases hnew.key_eq hn with ⟨before', after', hbefore', hafter', hkey'⟩
  rw [hafter] at hentry
  cases hentry
  have hold := hne before hbefore
  rw [holdsAt_eq hbefore'] at hold
  rw [holdsAt_eq hafter', hkey, hkey']
  exact hold

/-- Renumbering an index of the positions that stay makes it one of all new positions. -/
theorem Sound.renumber (h : index.Sound old indexed) (hnew : Renumbers gone old new)
    (hindexed : forall p, indexed p ↔ gone[p]? = some false) :
    (index.renumber (numbering gone)).Sound new (· < new.size) := by
  have htable := sameTable_renumber index gone
  have hgone : forall p, indexed p -> gone[p]? = some false := fun p => (hindexed p).mp
  have hchain := h.chain_renumber hnew hgone
  refine
    { sized := htable.sized h.sized
      size_links := size_links_renumber (h.size_links.trans hnew.size_eq.symm) hnew
      linked := ?_
      descending := ?_
      mem_chain_iff := ?_
      indexed_lt := fun _ hlt => hlt
      distinct := ?_
      length_le := ?_ }
  · intro bucket head hhead
    rw [heads_renumber] at hhead
    rcases Option.map_eq_some_iff.mp hhead with ⟨before, hbefore, rfl⟩
    rw [hchain]
    exact h.linked_renumber hnew hgone hbefore
  · intro bucket
    rw [hchain]
    exact h.descending_renumber gone bucket
  · intro bucket n
    rw [htable.belongs_iff]
    exact h.mem_chain_renumber_iff hnew hindexed bucket n
  · intro bucket
    rw [hchain]
    exact h.distinct_renumber hnew bucket
  · intro bucket
    rw [hchain, htable.limit_eq]
    exact Nat.le_trans (List.length_filterMap_le _ _) (h.length_le bucket)

theorem Sound.of_no_repeats (h : index.Sound old (fun p => p < old.size ∧ Stays [] p)) :
    index.Sound old (· < old.size) := by
  apply h.of_iff
  intro p
  simp [Stays]

theorem Sound.renumber_superseded {repeats : List Repeat}
    (h : index.Sound old (fun p => p < old.size ∧ Stays repeats p))
    (hnew : Renumbers (superseded old.size repeats) old new) :
    (index.renumber (numbering (superseded old.size repeats))).Sound new (· < new.size) := by
  apply h.renumber hnew
  intro p
  exact Repeats.superseded_eq_false_iff.symm

end Renumber

end Chained
end Index
end SealedMap
