import SealedMap.Proofs.Lookup

/-!
# The associations of a map

Which keys a map has, and with which values, can be read off its entries, without
any index.  An exact map answers all questions about one key accordingly.
-/

namespace SealedMap
namespace Map

variable {K V : Type} [BEq K] [Hashable K]

def Has (map : Map K V) (key : K) : Prop :=
  exists entry, entry ∈ map.entries ∧ (entry.key == key) = true

/-- Some entry has an equal key and this value. -/
def Associates (map : Map K V) (key : K) (value : V) : Prop :=
  exists entry, entry ∈ map.entries ∧ (entry.key == key) = true ∧ entry.value = value

theorem Associates.has {map : Map K V} {key : K} {value : V}
    (h : map.Associates key value) :
    map.Has key := by
  rcases h with ⟨entry, hmem, hkey, _⟩
  exact ⟨entry, hmem, hkey⟩

theorem mem_keys_iff {map : Map K V} {key : K} :
    key ∈ map.keys ↔ exists entry, entry ∈ map.entries ∧ entry.key = key := by
  unfold keys
  rw [List.mem_map]
  simp only [Array.mem_toList_iff]

theorem length_keys (map : Map K V) :
    map.keys.length = map.size := by
  rw [keys, List.length_map, Array.length_toList]
  rfl

section Equivalence

variable [EquivBEq K]

theorem Has.congr {map : Map K V} {a b : K} (h : map.Has a) (heq : (a == b) = true) :
    map.Has b := by
  rcases h with ⟨entry, hmem, hkey⟩
  exact ⟨entry, hmem, BEq.trans hkey heq⟩

theorem associates_of_mem {map : Map K V} {entry : Entry K V} (h : entry ∈ map.entries) :
    map.Associates entry.key entry.value :=
  ⟨entry, h, BEq.rfl, rfl⟩

theorem covers_keys_iff {left right : Map K V} :
    Covers right.keys left.keys ↔ forall key, left.Has key -> right.Has key := by
  constructor
  · intro h key hhas
    rcases hhas with ⟨entry, hmem, hkey⟩
    rcases h entry.key (mem_keys_iff.mpr ⟨entry, hmem, rfl⟩) with ⟨found, hfound, heq⟩
    rcases mem_keys_iff.mp hfound with ⟨other, hother, rfl⟩
    exact ⟨other, hother, BEq.trans heq hkey⟩
  · intro h key hmem
    rcases mem_keys_iff.mp hmem with ⟨entry, hentry, rfl⟩
    rcases h entry.key (associates_of_mem hentry).has with ⟨other, hother, heq⟩
    exact ⟨other.key, mem_keys_iff.mpr ⟨other, hother, rfl⟩, heq⟩

end Equivalence

/-! ## What an exact map answers -/

section Exact

variable {map : Map K V} (h : map.layout.Exact)

include h

theorem position?_eq_some_iff {key : K} {pos : Nat} :
    map.position? key = some pos ↔
      exists entry, map.entries[pos]? = some entry ∧ (entry.key == key) = true :=
  (h key pos).trans holdsAt_iff

theorem entry?_eq_some_iff {key : K} {entry : Entry K V} :
    map.entry? key = some entry ↔ entry ∈ map.entries ∧ (entry.key == key) = true := by
  unfold entry?
  rw [Option.bind_eq_some_iff]
  constructor
  · intro hfound
    rcases hfound with ⟨pos, hpos, hentry⟩
    rcases (position?_eq_some_iff h).mp hpos with ⟨other, hother, hkey⟩
    rw [hentry] at hother
    cases hother
    exact ⟨Array.mem_of_getElem? hentry, hkey⟩
  · intro hboth
    rcases hboth with ⟨hmem, hkey⟩
    rcases Array.getElem?_of_mem hmem with ⟨pos, hentry⟩
    exact ⟨pos, (position?_eq_some_iff h).mpr ⟨entry, hentry, hkey⟩, hentry⟩

theorem get?_eq_some_iff {key : K} {value : V} :
    map.get? key = some value ↔ map.Associates key value := by
  unfold get? Associates
  rw [Option.map_eq_some_iff]
  simp only [entry?_eq_some_iff h, and_assoc]

theorem isSome_entry?_iff {key : K} :
    (map.entry? key).isSome = true ↔ map.Has key := by
  unfold Has
  rw [Option.isSome_iff_exists]
  simp only [entry?_eq_some_iff h]

theorem contains_iff {key : K} :
    map.contains key = true ↔ map.Has key := by
  unfold contains Has
  rw [Option.isSome_iff_exists]
  simp only [position?_eq_some_iff h, Array.mem_iff_getElem?]
  constructor
  · intro hfound
    rcases hfound with ⟨pos, entry, hentry, hkey⟩
    exact ⟨entry, ⟨pos, hentry⟩, hkey⟩
  · intro hhas
    rcases hhas with ⟨entry, ⟨pos, hentry⟩, hkey⟩
    exact ⟨pos, entry, hentry, hkey⟩

theorem containsEntry_iff [BEq V] {key : K} {value : V} :
    map.containsEntry key value = true ↔
      exists held, map.Associates key held ∧ (held == value) = true := by
  unfold containsEntry
  simp only [← get?_eq_some_iff h]
  cases map.get? key with
  | none => simp
  | some held => simp

theorem Associates.unique {key : K} {v w : V} (hv : map.Associates key v)
    (hw : map.Associates key w) :
    v = w := by
  rw [← get?_eq_some_iff h] at hv hw
  rw [hv] at hw
  exact Option.some.inj hw

end Exact

end Map
end SealedMap
