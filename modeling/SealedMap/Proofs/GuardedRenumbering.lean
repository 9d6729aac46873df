import SealedMap.Proofs.ChainRenumbering
import SealedMap.Proofs.GuardedPlacing

/-!
# Renumbering with every access checked

The links of the positions that stay are written one by one to their new places,
in an array made for as many, and each link leads to a position that stays as
well.  So renumbering never leaves its arrays and never loses a position that is
indexed.
-/

namespace SealedMap
namespace Index

open Repeats (Renumbers number? numberFrom numbering superseded)

variable {K V : Type}

namespace Chained

/-! ## Moving links -/

/-- Moves a link.  There is no result for a position without a number. -/
def relink? (numbers : Array (Option Nat)) : Option Nat -> Option (Option Nat)
  | none => some none
  | some old => (numbers[old]?.join).map some

def relinkFrom? (links numbers : Array (Option Nat)) :
    List (Option Nat) -> Nat -> Array (Option Nat) -> Option (Array (Option Nat))
  | [], _, moved => some moved
  | none :: rest, old, moved => relinkFrom? links numbers rest (old + 1) moved
  | some new :: rest, old, moved => do
      let link <- links[old]?
      let target <- relink? numbers link
      let written <- write? moved new target
      relinkFrom? links numbers rest (old + 1) written

def relinkHeads? (numbers : Array (Option Nat)) :
    List (Option Nat) -> Option (List (Option Nat))
  | [] => some []
  | head :: rest => do
      let target <- relink? numbers head
      let targets <- relinkHeads? numbers rest
      some (target :: targets)

def renumber? (index : Chained K) (numbers : Array (Option Nat)) : Option (Chained K) := do
  let kept := numbers.toList.countP Option.isSome
  let links <- relinkFrom? index.links numbers numbers.toList 0 (Array.replicate kept none)
  let heads <- relinkHeads? numbers index.heads.toList
  some { index with heads := heads.toArray, links := links }

theorem relink?_eq_some {gone : Array Bool} {link : Option Nat}
    (h : forall pos, link = some pos -> gone[pos]? = some false) :
    relink? (numbering gone) link = some (moved gone link) := by
  cases link with
  | none => rfl
  | some pos =>
      rcases Repeats.exists_number?_iff.mpr (h pos rfl) with ⟨n, hn⟩
      have hnumber : (numbering gone)[pos]?.join = some n := hn
      simp [relink?, hnumber, moved, hn]

theorem relinkHeads?_eq_some {gone : Array Bool} {heads : List (Option Nat)}
    (h : forall pos, some pos ∈ heads -> gone[pos]? = some false) :
    relinkHeads? (numbering gone) heads = some (heads.map (moved gone)) := by
  induction heads with
  | nil => rfl
  | cons head rest ih =>
      have hhead : relink? (numbering gone) head = some (moved gone head) := by
        apply relink?_eq_some
        intro pos hpos
        exact h pos (hpos ▸ List.mem_cons_self)
      have hrest := ih fun pos hpos => h pos (List.mem_cons_of_mem head hpos)
      simp [relinkHeads?, hhead, hrest]

theorem take_succ_setIfInBounds {items : Array α} {pos : Nat} (h : pos < items.size)
    (item : α) :
    (items.setIfInBounds pos item).toList.take (pos + 1) = items.toList.take pos ++ [item] := by
  rw [Array.toList_setIfInBounds, List.take_add_one, List.take_set_of_le (Nat.le_refl pos)]
  simp [h]

/--
What is written are the moved links of the positions that stay, behind the
`next` links that were written before.
-/
theorem relinkFrom?_eq_some {links : Array (Option Nat)} {gone : Array Bool}
    (hlinks : forall (pos : Nat) (link : Option Nat), gone[pos]? = some false ->
      links[pos]? = some link -> relink? (numbering gone) link = some (moved gone link))
    {rest : List Bool} {others : List (Option Nat)} {next old : Nat}
    {target : Array (Option Nat)} (hrest : gone.toList.drop old = rest)
    (hothers : links.toList.drop old = others) (hlen : others.length = rest.length)
    (htarget : target.size = next + (numberFrom next rest).countP Option.isSome) :
    relinkFrom? links (numbering gone) (numberFrom next rest) old target =
      some (target.toList.take next ++
        (others.zip (numberFrom next rest)).filterMap (keepLink gone)).toArray := by
  -- On the positions still to come; `next` of them stayed so far.
  induction rest generalizing others next old target with
  | nil =>
      have hsize : target.toList.length ≤ next := by simpa [numberFrom] using htarget.le
      simp [numberFrom, relinkFrom?, List.take_of_length_le hsize]
  | cons g rest ih =>
      cases others with
      | nil => cases hlen
      | cons link others =>
          rcases getElem?_of_drop_eq_cons hrest with ⟨hgone, hrest'⟩
          rcases getElem?_of_drop_eq_cons hothers with ⟨hlink, hothers'⟩
          have hlen' : others.length = rest.length := Nat.succ.inj hlen
          cases g with
          | true =>
              rw [Repeats.numberFrom_gone] at htarget ⊢
              have hnone : keepLink gone (link, none) = none := rfl
              rw [relinkFrom?, ih hrest' hothers' hlen' (by simpa using htarget),
                List.zip_cons_cons, List.filterMap_cons_none hnone]
          | false =>
              rw [Repeats.numberFrom_stays] at htarget ⊢
              have hnext : next < target.size := by
                rw [htarget]
                simp
              have hmoved := hlinks old link hgone hlink
              have hsome : keepLink gone (link, some next) = some (moved gone link) := rfl
              have hsize : (target.setIfInBounds next (moved gone link)).size =
                  next + 1 + (numberFrom (next + 1) rest).countP Option.isSome := by
                rw [Array.size_setIfInBounds, htarget]
                simp [Nat.add_comm, Nat.add_assoc]
              have hwritten := take_succ_setIfInBounds hnext (moved gone link)
              simp only [relinkFrom?, hlink, hmoved, write?_of_lt hnext, Option.bind_eq_bind,
                Option.bind_some]
              rw [ih hrest' hothers' hlen' hsize, hwritten, List.zip_cons_cons,
                List.filterMap_cons_some hsome, List.append_assoc, List.singleton_append]

/-! ## Chained indexes -/

theorem Linked.link_mem {links : Array (Option Nat)} {head : Option Nat} {chain : List Nat}
    (h : Linked links head chain) {pos next : Nat} (hpos : pos ∈ chain)
    (hlink : links[pos]? = some (some next)) :
    next ∈ chain := by
  induction h with
  | ended => cases hpos
  | @next first link rest hfirst hrest ih =>
      apply List.mem_cons_of_mem
      rcases List.mem_cons.mp hpos with rfl | hpos
      · rw [hfirst] at hlink
        cases hlink
        cases hrest with
        | next _ _ => exact List.mem_cons_self
      · exact ih hpos

theorem Linked.head_mem {links : Array (Option Nat)} {pos : Nat} {chain : List Nat}
    (h : Linked links (some pos) chain) :
    pos ∈ chain := by
  cases h with
  | next _ _ => exact List.mem_cons_self

section Renumber

variable [BEq K] {index : Chained K} {old : Array (Entry K V)} {gone : Array Bool}
  {indexed : Nat -> Prop}

theorem Sound.relink?_link (h : index.Sound old indexed)
    (hindexed : forall p, indexed p ↔ gone[p]? = some false) {pos : Nat} {link : Option Nat}
    (hpos : gone[pos]? = some false) (hlink : index.links[pos]? = some link) :
    relink? (numbering gone) link = some (moved gone link) := by
  apply relink?_eq_some
  intro next hnext
  subst hnext
  -- The chain of the position's bucket holds the position that its link leads to.
  have hmem := (hindexed pos).mpr hpos
  have hlt := h.indexed_lt pos hmem
  have hchain := (h.mem_chain_iff _ pos).mpr ⟨hmem, _, Array.getElem?_eq_getElem hlt, rfl⟩
  have hhead := Array.getElem?_eq_getElem (h.sized.bucket_lt old[pos].key)
  have hnext := (h.linked _ _ hhead).link_mem hchain hlink
  exact (hindexed next).mp ((h.mem_chain_iff _ next).mp hnext).1

theorem Sound.relinkHeads?_heads (h : index.Sound old indexed)
    (hindexed : forall p, indexed p ↔ gone[p]? = some false) :
    relinkHeads? (numbering gone) index.heads.toList =
      some (index.heads.toList.map (moved gone)) := by
  apply relinkHeads?_eq_some
  intro pos hmem
  rcases List.getElem?_of_mem hmem with ⟨bucket, hbucket⟩
  rw [Array.getElem?_toList] at hbucket
  have hchain := (h.linked bucket _ hbucket).head_mem
  exact (hindexed pos).mp ((h.mem_chain_iff _ pos).mp hchain).1

theorem Sound.relinkFrom?_links (h : index.Sound old indexed) (hsize : gone.size = old.size)
    (hindexed : forall p, indexed p ↔ gone[p]? = some false) :
    relinkFrom? index.links (numbering gone) (numbering gone).toList 0
        (Array.replicate ((numbering gone).toList.countP Option.isSome) none) =
      some (index.renumber (numbering gone)).links := by
  have hlen : index.links.toList.length = gone.toList.length := by
    rw [Array.length_toList, Array.length_toList, h.size_links, hsize]
  rw [Repeats.toList_numbering,
    relinkFrom?_eq_some (fun _ _ => h.relink?_link hindexed) List.drop_zero List.drop_zero hlen
      (by rw [Array.size_replicate, Nat.zero_add]),
    List.take_zero, List.nil_append, ← toList_links_renumber, Array.toArray_toList]

theorem Sound.renumber?_eq_some (h : index.Sound old indexed) (hsize : gone.size = old.size)
    (hindexed : forall p, indexed p ↔ gone[p]? = some false) :
    index.renumber? (numbering gone) = some (index.renumber (numbering gone)) := by
  have hheads : (index.heads.toList.map (moved gone)).toArray =
      (index.renumber (numbering gone)).heads := by
    rw [← Array.toList_map, Array.toArray_toList]
    rfl
  unfold renumber?
  dsimp only
  rw [h.relinkFrom?_links hsize hindexed, Option.bind_eq_bind, Option.bind_some,
    h.relinkHeads?_heads hindexed, Option.bind_eq_bind, Option.bind_some, hheads]
  rfl

end Renumber

instance [BEq K] : Guarded (Chained K) K where
  claim? := claim?
  renumber? := renumber?

end Chained

/-! ## Keyed indexes -/

namespace Keyed

variable [BEq K] [Hashable K]

def renumber? (index : Keyed K) (numbers : Array (Option Nat)) : Option (Keyed K) :=
  if index.allPositions fun old => numbers[old]?.join.isSome then
    some (index.renumber numbers)
  else none

instance : Guarded (Keyed K) K where
  claim? := claim?
  renumber? := renumber?

theorem Finds.renumber?_eq_some [EquivBEq K] [LawfulHashable K] {index : Keyed K}
    {old : Array (Entry K V)} {gone : Array Bool} {indexed : Nat -> Prop}
    (h : index.Finds old indexed) (hindexed : forall p, indexed p ↔ gone[p]? = some false) :
    index.renumber? (numbering gone) = some (index.renumber (numbering gone)) := by
  apply if_pos
  apply allPositions_iff.mpr
  intro key pos hpos
  have hstays := (hindexed pos).mp ((h key pos).mp hpos).1
  exact Option.isSome_iff_exists.mpr (Repeats.exists_number?_iff.mpr hstays)

end Keyed
end Index
end SealedMap
