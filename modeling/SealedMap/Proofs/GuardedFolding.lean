import SealedMap.Proofs.Folding
import SealedMap.Proofs.GuardedPlacing

/-!
# Folding with every access checked

Here the values of a repeat are taken out of their slots one after the other,
the combined value is put back, and superseded positions are marked one by one,
each only within its array.  For repeats that can be resolved this has the
result of folding unchecked, in the same state.
-/

namespace SealedMap

/-- A computation that always has a result, among those that may have none. -/
def certain {σ α : Type} (run : StateM σ α) : StateT σ Option α :=
  fun state => some (run.run state)

section Certain

variable {σ α β : Type}

theorem run_certain (run : StateM σ α) (state : σ) :
    (certain run).run state = some (run.run state) := rfl

theorem certain_bind (run : StateM σ α) (next : α -> StateM σ β) :
    certain (run >>= next) = certain run >>= fun a => certain (next a) := rfl

theorem lift_some_bind (a : α) (next : α -> StateT σ Option β) :
    (liftM (some a) : StateT σ Option α) >>= next = next a := rfl

end Certain

namespace Repeats

open Index (Repeat Resolvable Stays)

variable {σ K V : Type}

/-! ## Marking -/

def superseded? (len : Nat) (repeats : List Repeat) : Option (Array Bool) :=
  repeats.foldlM (fun gone r => write? gone r.later true) (Array.replicate len false)

theorem superseded?_eq_some {len : Nat} {repeats : List Repeat}
    (h : forall r, r ∈ repeats -> r.later < len) :
    superseded? len repeats = some (superseded len repeats) := by
  unfold superseded? superseded
  have hsize : (Array.replicate len false).size = len := Array.size_replicate
  generalize Array.replicate len false = gone at hsize
  induction repeats generalizing gone with
  | nil => rfl
  | cons r repeats ih =>
      have hlater : r.later < gone.size := by
        rw [hsize]
        exact h r List.mem_cons_self
      rw [List.foldlM_cons, write?_of_lt hlater]
      apply ih (fun s hs => h s (List.mem_cons_of_mem r hs))
      rw [Array.size_setIfInBounds, hsize]

/-! ## Folding -/

def foldStep? (combine : K -> V -> V -> StateM σ V) (entries : Array (Entry K V))
    (slots : Array (Option V)) (r : Repeat) : StateT σ Option (Array (Option V)) := do
  let earlier <- slots[r.first]?
  let slots <- write? slots r.first none
  let later <- slots[r.later]?
  let slots <- write? slots r.later none
  match earlier, later with
  | some earlier, some later => do
      let entry <- entries[r.first]?
      let value <- certain (combine entry.key earlier later)
      write? slots r.first (some value)
  | _, _ => pure slots

def fold? (combine : K -> V -> V -> StateM σ V) (entries : Array (Entry K V))
    (repeats : List Repeat) : StateT σ Option (Array (Entry K V)) := do
  let slots <- repeats.foldlM (foldStep? combine entries)
    (entries.map fun entry => some entry.value)
  pure (keepFilled entries slots)

theorem run_foldStep? {combine : K -> V -> V -> StateM σ V} {entries : Array (Entry K V)}
    {slots : Array (Option V)} {r : Repeat} {entry : Entry K V} {earlier later : V}
    (hentry : entries[r.first]? = some entry)
    (hfirst : slots[r.first]? = some (some earlier))
    (hlater : slots[r.later]? = some (some later)) (hne : r.first ≠ r.later) (state : σ) :
    (foldStep? combine entries slots r).run state =
      some ((foldStep combine entries slots r).run state) := by
  have hfirstLt := (Array.getElem?_eq_some_iff.mp hfirst).1
  have hlaterLt := (Array.getElem?_eq_some_iff.mp hlater).1
  have htaken : (slots.setIfInBounds r.first none)[r.later]? = some (some later) := by
    rw [Array.getElem?_setIfInBounds, if_neg hne, hlater]
  have hemptied : forall value, write? ((slots.setIfInBounds r.first none).setIfInBounds
      r.later none) r.first (some value) =
        some ((slots.setIfInBounds r.later none).setIfInBounds r.first (some value)) := by
    intro value
    rw [write?_of_lt (by simpa using hfirstLt), setIfInBounds_putBack slots hne]
  rw [run_foldStep hentry hfirst hlater hne, foldStep?, hfirst, lift_some_bind,
    write?_of_lt hfirstLt, lift_some_bind, htaken, lift_some_bind,
    write?_of_lt (by simpa using hlaterLt), lift_some_bind]
  dsimp only
  rw [hentry, lift_some_bind, StateT.run_bind, run_certain, Option.bind_eq_bind,
    Option.bind_some, hemptied]
  rfl

theorem run_foldlM? {combine : K -> V -> V -> StateM σ V} {entries : Array (Entry K V)}
    {done rest : List Repeat} {slots : Array (Option V)}
    (hres : Resolvable entries.size (done ++ rest))
    (hfilled : Filled entries.size done slots) (state : σ) :
    (rest.foldlM (foldStep? combine entries) slots).run state =
      some ((rest.foldlM (foldStep combine entries) slots).run state) := by
  -- On the repeats still to come; `done` are those that the slots account for.
  induction rest generalizing done slots state with
  | nil => rfl
  | cons r rest ih =>
      have hr : r ∈ done ++ r :: rest := List.mem_append_right _ List.mem_cons_self
      have hlt := hres.first_lt r hr
      have hlater := hres.later_lt r hr
      have hfirst := Nat.lt_trans hlt hlater
      rcases stays_of_resolvable hres with ⟨hstaysFirst, hstaysLater⟩
      rcases (hfilled.2 r.first hfirst).mpr hstaysFirst with ⟨a, ha⟩
      rcases (hfilled.2 r.later hlater).mpr hstaysLater with ⟨b, hb⟩
      have hstep : (foldStep? combine entries slots r).run state =
          some ((foldStep combine entries slots r).run state) :=
        run_foldStep? (Array.getElem?_eq_getElem hfirst) ha hb (Nat.ne_of_lt hlt) state
      have hnext := filled_foldStep combine hres hfilled state
      rw [run_foldlM_cons, List.foldlM_cons, StateT.run_bind, hstep]
      rw [List.append_cons] at hres
      exact ih hres hnext _

theorem fold?_eq_certain {entries : Array (Entry K V)} {repeats : List Repeat}
    (hres : Resolvable entries.size repeats) (combine : K -> V -> V -> StateM σ V) :
    fold? combine entries repeats = certain (fold combine entries repeats) := by
  funext state
  have hrun : (repeats.foldlM (foldStep? combine entries)
      (entries.map fun entry => some entry.value)).run state = _ :=
    run_foldlM? hres (filled_start entries) state
  show (fold? combine entries repeats).run state = _
  rw [fold?, StateT.run_bind, hrun]
  rfl

end Repeats
end SealedMap
