import SealedMap.Memory.Machine

/-!
# Named registers

What registers hold after a write, and registers of two kinds that are in use for
the same names with related contents.
-/

namespace SealedMap
namespace Session

variable {α β : Type} {registers : Registers α} {others : Registers β} {name target : String}
  {held found : α}

/-! ## Writes -/

theorem getElem?_insert_of_ne (h : name ≠ target) :
    (registers.insert target held)[name]? = registers[name]? := by
  rw [Std.HashMap.getElem?_insert, beq_false_of_ne (Ne.symm h)]
  rfl

theorem getElem?_erase_of_ne (h : name ≠ target) :
    (registers.erase target)[name]? = registers[name]? := by
  rw [Std.HashMap.getElem?_erase, beq_false_of_ne (Ne.symm h)]
  rfl

theorem getElem?_insert_eq_some_iff :
    (registers.insert target held)[name]? = some found ↔
      (name = target ∧ held = found) ∨ (name ≠ target ∧ registers[name]? = some found) := by
  rw [Std.HashMap.getElem?_insert]
  by_cases h : target = name
  · simp [h]
  · simp [h, Ne.symm h]

theorem getElem?_erase_eq_some_iff :
    (registers.erase target)[name]? = some found ↔
      name ≠ target ∧ registers[name]? = some found := by
  rw [Std.HashMap.getElem?_erase]
  by_cases h : target = name
  · simp [h]
  · simp [h, Ne.symm h]

theorem mem_refs_iff :
    found ∈ Memory.Machine.refs registers ↔
      exists name : String, registers[name]? = some found := by
  unfold Memory.Machine.refs
  rw [List.mem_map]
  constructor
  · intro h
    rcases h with ⟨⟨name, held⟩, hmem, rfl⟩
    exact ⟨name, Std.HashMap.mem_toList_iff_getElem?_eq_some.mp hmem⟩
  · intro h
    rcases h with ⟨name, hname⟩
    exact ⟨(name, found), Std.HashMap.mem_toList_iff_getElem?_eq_some.mpr hname, rfl⟩

/-! ## Related contents -/

/-- The registers are in use for the same names, with related contents. -/
def Matches (R : α -> β -> Prop) (registers : Registers α) (others : Registers β) : Prop :=
  forall name : String, Option.Rel R registers[name]? others[name]?

variable {R S : α -> β -> Prop} {other : β}

theorem matches_empty : Matches R ∅ ∅ := by
  intro name
  rw [Std.HashMap.getElem?_empty, Std.HashMap.getElem?_empty]
  exact .none

theorem Matches.insert (h : Matches R registers others) (hheld : R held other)
    (target : String) :
    Matches R (registers.insert target held) (others.insert target other) := by
  intro name
  rw [Std.HashMap.getElem?_insert, Std.HashMap.getElem?_insert]
  split
  next => exact .some hheld
  next => exact h name

theorem Matches.erase (h : Matches R registers others) (target : String) :
    Matches R (registers.erase target) (others.erase target) := by
  intro name
  rw [Std.HashMap.getElem?_erase, Std.HashMap.getElem?_erase]
  split
  next => exact .none
  next => exact h name

theorem Matches.exists_right (h : Matches R registers others)
    (hheld : registers[name]? = some held) :
    exists other, others[name]? = some other ∧ R held other := by
  have hname := h name
  rw [hheld] at hname
  cases hother : others[name]? with
  | none =>
      rw [hother] at hname
      cases hname
  | some other =>
      rw [hother] at hname
      cases hname with
      | some hrel => exact ⟨other, rfl, hrel⟩

theorem Matches.exists_left (h : Matches R registers others)
    (hother : others[name]? = some other) :
    exists held, registers[name]? = some held ∧ R held other := by
  have hname := h name
  rw [hother] at hname
  cases hheld : registers[name]? with
  | none =>
      rw [hheld] at hname
      cases hname
  | some held =>
      rw [hheld] at hname
      cases hname with
      | some hrel => exact ⟨held, rfl, hrel⟩

theorem Matches.rel (h : Matches R registers others) (hheld : registers[name]? = some held)
    (hother : others[name]? = some other) :
    R held other := by
  rcases h.exists_right hheld with ⟨third, hthird, hrel⟩
  rw [hother] at hthird
  cases hthird
  exact hrel

theorem Matches.right_none (h : Matches R registers others) (hheld : registers[name]? = none) :
    others[name]? = none := by
  cases hother : others[name]? with
  | none => rfl
  | some other =>
      rcases h.exists_left hother with ⟨held, hsome, _⟩
      rw [hheld] at hsome
      cases hsome

theorem Matches.map_eq_map {γ : Type} {read : α -> γ} {readOther : β -> γ}
    (h : Matches (fun held other => read held = readOther other) registers others)
    (name : String) :
    registers[name]?.map read = others[name]?.map readOther := by
  cases hheld : registers[name]? with
  | none =>
      rw [h.right_none hheld]
      rfl
  | some held =>
      rcases h.exists_right hheld with ⟨other, hother, hrel⟩
      rw [hother, Option.map_some, Option.map_some, hrel]

theorem Matches.map_eq {read : α -> β}
    (h : Matches (fun held other => read held = other) registers others) (name : String) :
    registers[name]?.map read = others[name]? := by
  have hread : Matches (fun held other => read held = id other) registers others := h
  rw [hread.map_eq_map name, Option.map_id]
  rfl

theorem Matches.mono (h : Matches R registers others)
    (himp : forall (name : String) held other, registers[name]? = some held ->
      others[name]? = some other -> R held other -> S held other) :
    Matches S registers others := by
  intro name
  cases hheld : registers[name]? with
  | none =>
      rw [h.right_none hheld]
      exact .none
  | some held =>
      rcases h.exists_right hheld with ⟨other, hother, hrel⟩
      rw [hother]
      exact .some (himp name held other hheld hother hrel)

end Session
end SealedMap
