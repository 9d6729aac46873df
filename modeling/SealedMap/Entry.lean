import SealedMap.Refusal

/-!
# Entries

An entry is a key with its value.  Keys are compared by an equivalence and may
differ in spelling when they are equal; values are compared by an equality that
need not be reflexive, so an entry need not be equal to itself.
-/

namespace SealedMap

structure Entry (K V : Type) where
  key : K
  value : V

namespace Entry

def ofPair (pair : K × V) : Entry K V :=
  ⟨pair.1, pair.2⟩

def toPair (entry : Entry K V) : K × V :=
  (entry.key, entry.value)

@[simp] theorem key_ofPair (pair : K × V) : (ofPair pair).key = pair.1 := rfl

@[simp] theorem value_ofPair (pair : K × V) : (ofPair pair).value = pair.2 := rfl

/-- Both parts must be present, and a missing key is noticed first. -/
def ofParts : Option K -> Option V -> Except Refusal (Entry K V)
  | none, _ => .error (.nullArgument .key)
  | some _, none => .error (.nullArgument .value)
  | some key, some value => .ok ⟨key, value⟩

instance [BEq K] [BEq V] : BEq (Entry K V) where
  beq left right := left.key == right.key && left.value == right.value

instance [Inhabited K] [Inhabited V] : Inhabited (Entry K V) where
  default := ⟨default, default⟩

def compare? [Ord K] (values : V -> V -> Option Ordering)
    (left right : Entry K V) : Option Ordering :=
  match compare left.key right.key with
  | .eq => values left.value right.value
  | decided => some decided

end Entry

end SealedMap
