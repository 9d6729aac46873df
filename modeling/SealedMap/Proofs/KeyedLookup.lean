import SealedMap.Index.Keyed
import SealedMap.Proofs.Placement
import SealedMap.Proofs.Renumbering

/-!
# What a keyed index finds

A keyed index finds a key at a position exactly if that position is indexed and
holds an equal key.  Claims keep this, because a key is only inserted when it is
found nowhere, and so does renumbering.
-/

namespace SealedMap
namespace Index
namespace Keyed

open Repeats (Renumbers number? numbering)

variable {K V : Type} [BEq K] [Hashable K]

/-- The index finds the indexed positions of `entries`, each by its key. -/
def Finds (index : Keyed K) (entries : Array (Entry K V)) (indexed : Nat -> Prop) : Prop :=
  forall key pos,
    index.position? key = some pos ↔ indexed pos ∧ holdsAt entries key pos = true

theorem position?_empty (key : K) :
    (empty : Keyed K).position? key = none :=
  Std.HashMap.getElem?_empty

theorem position?_of_probe_vacant {index : Keyed K} {entries : Array (Entry K V)} {key : K}
    (h : Placing.probe index entries key = .vacant) :
    index.position? key = none := by
  cases hpos : index.position? key with
  | none => rfl
  | some first =>
      rw [show Placing.probe index entries key = .repeated first from
        (probe_eq_repeated_iff index entries key first).mpr hpos] at h
      cases h

theorem Finds.answers {index : Keyed K} {entries : Array (Entry K V)} {indexed : List Nat}
    (h : index.Finds entries (· ∈ indexed)) :
    Answers index entries indexed where
  of_repeated := by
    intro key first hprobe
    exact (h key first).mp ((probe_eq_repeated_iff index entries key first).mp hprobe)
  of_not_repeated := by
    intro key hprobe pos hpos
    cases hholds : holdsAt entries key pos with
    | false => rfl
    | true =>
        have hfound := (h key pos).mpr ⟨hpos, hholds⟩
        exact absurd ((probe_eq_repeated_iff index entries key pos).mpr hfound) (hprobe pos)

theorem finds_empty (entries : Array (Entry K V)) :
    (empty : Keyed K).Finds entries (fun _ => False) := by
  intro key pos
  rw [position?_empty]
  simp

theorem place_ne_overflow (reject : Bool) (entries : Array (Entry K V)) :
    place reject entries (empty : Keyed K) ≠ .overflow := by
  intro h
  have hjust := place_justified entries (empty : Keyed K) reject
  rw [h] at hjust
  rcases hjust with ⟨_, index, _, _, entry, _, _, hfull, _⟩
  exact probe_ne_full index entries entry.key hfull

variable [EquivBEq K] [LawfulHashable K]

theorem position?_insert (index : Keyed K) (pos : Nat) (key other : K) :
    (index.insert pos key).position? other =
      if key == other then some pos else index.position? other :=
  Std.HashMap.getElem?_insert

theorem position?_renumber (index : Keyed K) (gone : Array Bool) (key : K) :
    (index.renumber (numbering gone)).position? key =
      (index.position? key).bind (number? gone) := by
  unfold position? renumber
  rw [Std.HashMap.getElem?_filterMap]
  cases index.positions[key]? <;> rfl

theorem Finds.insert {index : Keyed K} {entries : Array (Entry K V)}
    {indexed : Nat -> Prop} {entry : Entry K V} {pos : Nat}
    (h : index.Finds entries indexed) (hentry : entries[pos]? = some entry)
    (hvacant : index.position? entry.key = none) :
    (index.insert pos entry.key).Finds entries (fun p => p = pos ∨ indexed p) := by
  intro key p
  rw [position?_insert]
  split
  next heq =>
    constructor
    · intro hsame
      cases hsame
      refine ⟨Or.inl rfl, ?_⟩
      rw [holdsAt_eq hentry]
      exact heq
    · intro hboth
      rcases hboth with ⟨rfl | hindexed, hholds⟩
      · rfl
      · rw [← holdsAt_congr heq] at hholds
        rw [(h entry.key p).mpr ⟨hindexed, hholds⟩] at hvacant
        cases hvacant
  next hne =>
    rw [h key p]
    constructor
    · intro hboth
      rcases hboth with ⟨hindexed, hholds⟩
      exact ⟨Or.inr hindexed, hholds⟩
    · intro hboth
      rcases hboth with ⟨rfl | hindexed, hholds⟩
      · rw [holdsAt_eq hentry] at hholds
        exact absurd hholds hne
      · exact ⟨hindexed, hholds⟩

theorem finds_of_claims {entries : Array (Entry K V)} {pos : Nat} {index : Keyed K}
    {indexed : List Nat} {repeats : List Repeat}
    (h : Claims entries (empty : Keyed K) pos index indexed repeats) :
    index.Finds entries (· ∈ indexed) := by
  induction h with
  | start => simpa using finds_empty entries
  | @vacant pos index next indexed repeats entry hclaims hentry hclaim ih =>
      rcases claim_eq_vacant_iff.mp hclaim with ⟨hprobe, rfl⟩
      show (index.insert pos entry.key).Finds entries _
      simpa using ih.insert hentry (position?_of_probe_vacant hprobe)
  | repeated _ _ hclaim ih =>
      rcases claim_eq_repeated_iff.mp hclaim with ⟨_, rfl⟩
      exact ih

theorem answers_of_claims {entries : Array (Entry K V)} {pos : Nat} {index : Keyed K}
    {indexed : List Nat} {repeats : List Repeat}
    (h : Claims entries (empty : Keyed K) pos index indexed repeats) :
    Answers index entries indexed :=
  (finds_of_claims h).answers

theorem finds_of_place_done {entries : Array (Entry K V)} {index : Keyed K}
    {reject : Bool} {repeats : List Repeat}
    (h : place reject entries (empty : Keyed K) = .done index repeats) :
    Resolvable entries.size repeats ∧
      index.Finds entries (fun p => p < entries.size ∧ Stays repeats p) := by
  rcases exists_claims_of_place_done
    (fun hclaims => (answers_of_claims hclaims).pointsInto) h
    with ⟨indexed, hclaims, hres, hindexed⟩
  refine ⟨hres, ?_⟩
  intro key pos
  rw [finds_of_claims hclaims key pos]
  exact and_congr_left fun _ => hindexed pos

theorem Finds.renumber {index : Keyed K} {old new : Array (Entry K V)} {gone : Array Bool}
    {indexed : Nat -> Prop} (h : index.Finds old indexed) (hnew : Renumbers gone old new)
    (hindexed : forall p, indexed p ↔ gone[p]? = some false) :
    (index.renumber (numbering gone)).Finds new (· < new.size) := by
  intro key n
  rw [position?_renumber, Option.bind_eq_some_iff]
  constructor
  · intro hfound
    rcases hfound with ⟨pos, hpos, hn⟩
    rcases hnew.key_eq hn with ⟨before, after, hbefore, hafter, hkey⟩
    have hholds := ((h key pos).mp hpos).2
    refine ⟨(Array.getElem?_eq_some_iff.mp hafter).1, ?_⟩
    rw [holdsAt_eq hbefore] at hholds
    rw [holdsAt_eq hafter, hkey]
    exact hholds
  · intro hboth
    rcases hboth with ⟨hlt, hholds⟩
    rcases hnew.onto hlt with ⟨pos, hn⟩
    rcases hnew.key_eq hn with ⟨before, after, hbefore, hafter, hkey⟩
    rw [holdsAt_eq hafter, hkey, ← holdsAt_eq hbefore] at hholds
    have hstays := (hindexed pos).mpr (Repeats.exists_number?_iff.mp ⟨n, hn⟩)
    exact ⟨pos, (h key pos).mpr ⟨hstays, hholds⟩, hn⟩

end Keyed
end Index
end SealedMap
