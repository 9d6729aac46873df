import SealedMap.Proofs.ChainWalks
import SealedMap.Proofs.KeyedLookup

/-!
# Placing with every access checked

Here claims read and write arrays one position at a time, and a claim that would
reach outside an array has no result at all.  In every state that placing leads
to, a checked claim has the result of an unchecked one; so placing never leaves
its arrays.
-/

namespace SealedMap

def write? (items : Array α) (pos : Nat) (item : α) : Option (Array α) :=
  if pos < items.size then some (items.setIfInBounds pos item) else none

@[simp] theorem write?_of_lt {items : Array α} {pos : Nat} (h : pos < items.size)
    (item : α) :
    write? items pos item = some (items.setIfInBounds pos item) :=
  if_pos h

namespace Index

/--
The steps of an index with every access checked.  A step has no result if it
would reach outside an array or leave an indexed position without a number.
-/
class Guarded (I : Type) (K : outParam Type) where
  claim? : {V : Type} -> I -> Array (Entry K V) -> Nat -> Option (Probe × I)
  renumber? : I -> Array (Option Nat) -> Option I

variable {I K V : Type}

/-! ## Placing -/

def placeFrom? [Guarded I K] (reject : Bool) (entries : Array (Entry K V)) :
    Nat -> Nat -> I -> List Repeat -> Option (Placed I)
  | 0, _, index, repeats => some (.done index repeats.reverse)
  | count + 1, pos, index, repeats =>
      match Guarded.claim? index entries pos with
      | none => none
      | some (.full, _) => some .overflow
      | some (.vacant, next) => placeFrom? reject entries count (pos + 1) next repeats
      | some (.repeated first, next) =>
          if reject then some (.rejected first pos)
          else placeFrom? reject entries count (pos + 1) next (⟨first, pos⟩ :: repeats)

def place? [Guarded I K] (reject : Bool) (entries : Array (Entry K V)) (index : I) :
    Option (Placed I) :=
  placeFrom? reject entries entries.size 0 index []

section Generic

variable [Placing I K] [Guarded I K]

theorem placeFrom?_eq_some {entries : Array (Entry K V)} {start : I} {reject : Bool}
    (hguard : forall {pos : Nat} {index : I} {indexed : List Nat} {repeats : List Repeat}
      {entry : Entry K V}, Claims entries start pos index indexed repeats ->
      entries[pos]? = some entry ->
      Guarded.claim? index entries pos = some (claim index entries pos entry.key))
    {rest : List (Entry K V)} {pos : Nat} {index : I} {indexed : List Nat}
    {repeats : List Repeat} (hrest : entries.toList.drop pos = rest)
    (hclaims : Claims entries start pos index indexed repeats) :
    placeFrom? reject entries rest.length pos index repeats =
      some (placeFrom reject entries rest pos index repeats) := by
  -- On the entries still to come; `hclaims` is the state that the claims so far led to.
  induction rest generalizing pos index indexed repeats with
  | nil => rfl
  | cons entry rest ih =>
      rcases getElem?_of_drop_eq_cons hrest with ⟨hentry, hrest'⟩
      rw [List.length_cons, placeFrom?, placeFrom, hguard hclaims hentry]
      cases hclaim : claim index entries pos entry.key with
      | mk answer next =>
          cases answer with
          | full => rfl
          | vacant => exact ih hrest' (hclaims.vacant hentry hclaim)
          | repeated first =>
              cases reject with
              | true => rfl
              | false => exact ih hrest' (hclaims.repeated hentry hclaim)

theorem place?_eq_some {entries : Array (Entry K V)} {start : I}
    (hguard : forall {pos : Nat} {index : I} {indexed : List Nat} {repeats : List Repeat}
      {entry : Entry K V}, Claims entries start pos index indexed repeats ->
      entries[pos]? = some entry ->
      Guarded.claim? index entries pos = some (claim index entries pos entry.key))
    (reject : Bool) :
    place? reject entries start = some (place reject entries start) := by
  have hrun : placeFrom? reject entries entries.toList.length 0 start [] =
      some (placeFrom reject entries entries.toList 0 start []) :=
    placeFrom?_eq_some hguard List.drop_zero Claims.start
  rw [Array.length_toList] at hrun
  exact hrun

end Generic

/-! ## Chained indexes -/

namespace Chained

variable [BEq K]

def seek? (links : Array (Option Nat)) (entries : Array (Entry K V)) (key : K) :
    Nat -> Option Nat -> Option (Option Nat × Nat)
  | _, none => some (none, 0)
  | 0, some _ => none
  | fuel + 1, some pos =>
      match entries[pos]? with
      | none => none
      | some entry =>
          if entry.key == key then some (some pos, 1)
          else
            match links[pos]? with
            | none => none
            | some link =>
                (seek? links entries key fuel link).map fun (found, count) =>
                  (found, count + 1)

theorem seek?_eq_some {links : Array (Option Nat)} {entries : Array (Entry K V)} {key : K}
    {cursor answer : Option Nat} {count fuel : Nat}
    (h : Seeks links entries key cursor count answer) (hfuel : count ≤ fuel) :
    seek? links entries key fuel cursor = some (answer, count) := by
  induction h generalizing fuel with
  | ended => cases fuel <;> rfl
  | found hentry hkey =>
      cases fuel with
      | zero => cases hfuel
      | succ fuel => simp [seek?, hentry, hkey]
  | passed hentry hkey hlink _ ih =>
      cases fuel with
      | zero => cases hfuel
      | succ fuel =>
          have hrest := ih (Nat.le_of_succ_le_succ hfuel)
          simp [seek?, hentry, hkey, hlink, hrest]

def insert? (index : Chained K) (pos bucket : Nat) (head : Option Nat) :
    Option (Chained K) := do
  let links <- write? index.links pos head
  let heads <- write? index.heads bucket (some pos)
  some { index with heads := heads, links := links }

def claimAfter? (index : Chained K) (pos bucket : Nat) (head : Option Nat) :
    Option Nat × Nat -> Option (Probe × Chained K)
  | (some first, _) => some (.repeated first, index)
  | (none, count) =>
      if index.limit ≤ count then some (.full, index)
      else (index.insert? pos bucket head).map fun next => (.vacant, next)

def claim? (index : Chained K) (entries : Array (Entry K V)) (pos : Nat) :
    Option (Probe × Chained K) := do
  let entry <- entries[pos]?
  let bucket := index.bucket entry.key
  let head <- index.heads[bucket]?
  let search <- seek? index.links entries entry.key index.limit head
  index.claimAfter? pos bucket head search

omit [BEq K] in
theorem insert?_eq_some {index : Chained K} {pos : Nat} {key : K} {head : Option Nat}
    (hpos : pos < index.links.size) (hbucket : index.bucket key < index.heads.size)
    (hhead : index.heads[index.bucket key]? = some head) :
    index.insert? pos (index.bucket key) head = some (index.insert pos key) := by
  have hjoin : index.heads[index.bucket key]?.join = head := by
    rw [hhead, Option.join_some]
  unfold insert?
  rw [write?_of_lt hpos, write?_of_lt hbucket, ← hjoin]
  rfl

omit [BEq K] in
theorem claimAfter?_full {index : Chained K} {pos bucket count : Nat} {head : Option Nat}
    (hfull : index.limit ≤ count) :
    index.claimAfter? pos bucket head (none, count) = some (.full, index) :=
  if_pos hfull

omit [BEq K] in
theorem claimAfter?_vacant {index : Chained K} {pos count : Nat} {key : K}
    {head : Option Nat} (hroom : ¬ index.limit ≤ count) (hpos : pos < index.links.size)
    (hbucket : index.bucket key < index.heads.size)
    (hhead : index.heads[index.bucket key]? = some head) :
    index.claimAfter? pos (index.bucket key) head (none, count) =
      some (.vacant, index.insert pos key) := by
  rw [claimAfter?, if_neg hroom, insert?_eq_some hpos hbucket hhead, Option.map_some]

theorem claim?_of_seek? {index : Chained K} {entries : Array (Entry K V)} {pos : Nat}
    {entry : Entry K V} {head : Option Nat} {search : Option Nat × Nat}
    (hentry : entries[pos]? = some entry)
    (hhead : index.heads[index.bucket entry.key]? = some head)
    (hseek : seek? index.links entries entry.key index.limit head = some search) :
    index.claim? entries pos =
      index.claimAfter? pos (index.bucket entry.key) head search := by
  unfold claim?
  rw [hentry, Option.bind_eq_bind, Option.bind_some]
  dsimp only
  rw [hhead, Option.bind_eq_bind, Option.bind_some, hseek, Option.bind_eq_bind, Option.bind_some]

theorem Sound.claim?_eq_some {index : Chained K} {entries : Array (Entry K V)}
    {indexed : Nat -> Prop} (h : index.Sound entries indexed) {pos : Nat}
    {entry : Entry K V} (hentry : entries[pos]? = some entry) :
    index.claim? entries pos = some (claim index entries pos entry.key) := by
  have hbucket := h.sized.bucket_lt entry.key
  have hpos : pos < index.links.size := by
    rw [h.size_links]
    exact (Array.getElem?_eq_some_iff.mp hentry).1
  rcases h.walksBounded entry.key with ⟨head, count, hhead, hseeks, hle, hprobe⟩
  have hseek : seek? index.links entries entry.key index.limit head =
      some (index.position? entries entry.key, count) := seek?_eq_some hseeks hle
  rw [claim?_of_seek? hentry hhead hseek, claim, hprobe]
  cases index.position? entries entry.key with
  | some first => rfl
  | none =>
      by_cases hfull : chainLimit index.heads.size ≤ count
      · rw [claimAfter?_full hfull, if_pos hfull]
      · rw [claimAfter?_vacant hfull hpos hbucket hhead, if_neg hfull]
        rfl

end Chained

/-! ## Keyed indexes -/

namespace Keyed

variable [BEq K] [Hashable K]

/-- All positions that the index holds, under whichever key, are of this kind. -/
def allPositions (index : Keyed K) (p : Nat -> Bool) : Bool :=
  index.positions.all fun _ pos => p pos

theorem allPositions_iff [EquivBEq K] [LawfulHashable K] {index : Keyed K}
    {p : Nat -> Bool} :
    index.allPositions p = true ↔
      forall key pos, index.position? key = some pos -> p pos = true := by
  unfold allPositions position?
  rw [Std.HashMap.all_eq_true_iff_forall_mem_getKey_getElem]
  constructor
  · intro h key pos hpos
    rcases Std.HashMap.getElem?_eq_some_iff.mp hpos with ⟨hmem, rfl⟩
    exact h key hmem
  · intro h key hmem
    exact h key _ (Std.HashMap.getElem?_eq_some_getElem hmem)

def claim? (index : Keyed K) (entries : Array (Entry K V)) (pos : Nat) :
    Option (Probe × Keyed K) := do
  let entry <- entries[pos]?
  if index.allPositions fun other => decide (other < entries.size) then
    some (claim index entries pos entry.key)
  else none

theorem Finds.claim?_eq_some [EquivBEq K] [LawfulHashable K] {index : Keyed K}
    {entries : Array (Entry K V)} {indexed : Nat -> Prop} (h : index.Finds entries indexed)
    {pos : Nat} {entry : Entry K V} (hentry : entries[pos]? = some entry) :
    index.claim? entries pos = some (claim index entries pos entry.key) := by
  have hall : (index.allPositions fun other => decide (other < entries.size)) = true := by
    apply allPositions_iff.mpr
    intro key other hother
    exact decide_eq_true (lt_size_of_holdsAt ((h key other).mp hother).2)
  simp [claim?, hentry, hall]

end Keyed
end Index
end SealedMap
