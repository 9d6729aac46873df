import SealedMap.Index.Placing

/-!
# Resolving repeated keys

Placing leaves a list of repeats, pairs of a first and a later position.  The
values are folded along that list into the first positions, the later entries
are dropped, and the positions that stay are numbered anew.
-/

namespace SealedMap

open Index (Repeat)

inductive Policy (σ K V : Type) where
  | reject
  | keepLast
  | merge (combine : K -> V -> V -> StateM σ V)

namespace Policy

def rejects : Policy σ K V -> Bool
  | reject => true
  | _ => false

def combine : Policy σ K V -> K -> V -> V -> StateM σ V
  | merge combine => combine
  | _ => fun _ _ later => pure later

end Policy

namespace Repeats

/--
Takes the values at the two positions of a repeat, one after the other, and puts
the combined value into the first slot.  Unless both are there, none is put back.
-/
def foldStep (combine : K -> V -> V -> StateM σ V) (entries : Array (Entry K V))
    (slots : Array (Option V)) (r : Repeat) : StateM σ (Array (Option V)) :=
  let earlier? := slots[r.first]?.join
  let rest := slots.setIfInBounds r.first none
  let later? := rest[r.later]?.join
  let taken := rest.setIfInBounds r.later none
  match entries[r.first]?, earlier?, later? with
  | some entry, some earlier, some later => do
      let value <- combine entry.key earlier later
      pure (taken.setIfInBounds r.first (some value))
  | _, _, _ => pure taken

def foldValues (combine : K -> V -> V -> StateM σ V) (entries : Array (Entry K V))
    (repeats : List Repeat) : StateM σ (Array (Option V)) :=
  repeats.foldlM (foldStep combine entries) (entries.map fun entry => some entry.value)

def keepFilled (entries : Array (Entry K V)) (slots : Array (Option V)) :
    Array (Entry K V) :=
  (entries.zip slots).filterMap fun (entry, slot) =>
    slot.map fun value => ⟨entry.key, value⟩

/-- Folds repeated values into the first positions and drops the later entries. -/
def fold (combine : K -> V -> V -> StateM σ V) (entries : Array (Entry K V))
    (repeats : List Repeat) : StateM σ (Array (Entry K V)) := do
  let slots <- foldValues combine entries repeats
  pure (keepFilled entries slots)

def superseded (len : Nat) (repeats : List Repeat) : Array Bool :=
  repeats.foldl (fun gone r => gone.setIfInBounds r.later true) (Array.replicate len false)

def numberFrom : Nat -> List Bool -> List (Option Nat)
  | _, [] => []
  | next, true :: rest => none :: numberFrom next rest
  | next, false :: rest => some next :: numberFrom (next + 1) rest

def numbering (gone : Array Bool) : Array (Option Nat) :=
  (numberFrom 0 gone.toList).toArray

end Repeats
end SealedMap
