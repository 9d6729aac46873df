import SealedMap.Construction

/-!
# Builders

A builder is a list of entries that only grows, with a hash function and at most
one order of values.  Nothing is checked before a build, and every build sees
all entries put so far.  A builder is a value, so a map built from it does not
see what is put later.
-/

namespace SealedMap

structure Builder (K V : Type) where
  entries : Array (Entry K V)
  order : Option (ValueOrder V)
  hash : K -> UInt64

namespace Builder

def empty (hash : K -> UInt64) : Builder K V where
  entries := #[]
  order := none
  hash := hash

def size (builder : Builder K V) : Nat :=
  builder.entries.size

def isEmpty (builder : Builder K V) : Bool :=
  builder.entries.isEmpty

/-! ## Putting entries -/

def putEntry (builder : Builder K V) (entry : Entry K V) : Builder K V :=
  { builder with entries := builder.entries.push entry }

def put (builder : Builder K V) (key : K) (value : V) : Builder K V :=
  builder.putEntry ⟨key, value⟩

def putEntries (builder : Builder K V) (entries : List (Entry K V)) : Builder K V :=
  { builder with entries := builder.entries.appendList entries }

def putAll (builder : Builder K V) (pairs : List (K × V)) : Builder K V :=
  builder.putEntries (pairs.map Entry.ofPair)

/-- Puts all pairs or, if a part of one is missing, none of them. -/
def tryPutAll (builder : Builder K V) (pairs : List (Option K × Option V)) :
    Except Refusal (Builder K V) := do
  let entries <- pairs.mapM fun (key, value) => Entry.ofParts key value
  pure (builder.putEntries entries)

def ofList (hash : K -> UInt64) (pairs : List (K × V)) : Builder K V :=
  (empty hash).putAll pairs

/--
Appends the entries of another builder, taking them over as they are when there
are none to append to.  The order and the hash function are those of the left.
-/
def combine (left right : Builder K V) : Builder K V :=
  if left.isEmpty then { left with entries := right.entries }
  else if right.isEmpty then left
  else { left with entries := left.entries ++ right.entries }

def orderByValue (builder : Builder K V) (order : ValueOrder V) :
    Except Refusal (Builder K V) :=
  match builder.order with
  | some _ => .error (.illegalState .orderAlreadySet)
  | none => .ok { builder with order := some order }

def conflict? (builder : Builder K V) : Refusal -> Option (Entry K V × Entry K V)
  | .duplicateKey first second => do
      let earlier <- builder.entries[first]?
      let later <- builder.entries[second]?
      pure (earlier, later)
  | _ => none

/-! ### What the operations do to the entries -/

@[simp] theorem entries_empty (hash : K -> UInt64) :
    (empty hash : Builder K V).entries = #[] := rfl

@[simp] theorem entries_put (builder : Builder K V) (key : K) (value : V) :
    (builder.put key value).entries = builder.entries.push ⟨key, value⟩ := rfl

@[simp] theorem entries_putEntries (builder : Builder K V) (entries : List (Entry K V)) :
    (builder.putEntries entries).entries = builder.entries ++ entries.toArray := by
  simp [putEntries, ← Array.toList_inj]

@[simp] theorem entries_putAll (builder : Builder K V) (pairs : List (K × V)) :
    (builder.putAll pairs).entries =
      builder.entries ++ (pairs.map Entry.ofPair).toArray := by
  rw [putAll, entries_putEntries]

@[simp] theorem entries_ofList (hash : K -> UInt64) (pairs : List (K × V)) :
    (ofList hash pairs).entries = (pairs.map Entry.ofPair).toArray := by
  simp [ofList]

@[simp] theorem entries_combine (left right : Builder K V) :
    (left.combine right).entries = left.entries ++ right.entries := by
  unfold combine isEmpty
  split
  next h => simp_all
  next h =>
    split
    next k => simp_all
    next k => rfl

@[simp] theorem order_combine (left right : Builder K V) :
    (left.combine right).order = left.order := by
  unfold combine
  split
  next h => rfl
  next h => split <;> rfl

@[simp] theorem hash_combine (left right : Builder K V) :
    (left.combine right).hash = left.hash := by
  unfold combine
  split
  next h => rfl
  next h => split <;> rfl

/-! ## Building -/

variable {σ K V : Type} [BEq K] [Hashable K]

def buildWith (builder : Builder K V) (policy : Policy σ K V) :
    StateM σ (Construction K V) :=
  Construction.construct builder.hash policy builder.order builder.entries

def build (builder : Builder K V) : Construction K V :=
  ((builder.buildWith .reject).run ()).1

def buildKeepingLast (builder : Builder K V) : Construction K V :=
  ((builder.buildWith .keepLast).run ()).1

def buildMerging (builder : Builder K V) (combine : K -> V -> V -> V) :
    Construction K V :=
  ((builder.buildWith (.merge fun key earlier later =>
    pure (combine key earlier later))).run ()).1

structure Call (K V : Type) where
  key : K
  earlier : V
  later : V

def recording (combine : K -> V -> V -> V) (key : K) (earlier later : V) :
    StateM (Array (Call K V)) V := do
  modify (·.push ⟨key, earlier, later⟩)
  pure (combine key earlier later)

def buildMergingTraced (builder : Builder K V) (combine : K -> V -> V -> V) :
    Construction K V × Array (Call K V) :=
  (builder.buildWith (.merge (recording combine))).run #[]

def buildKeyed (builder : Builder K V) : Construction K V :=
  match builder.order with
  | some _ => Construction.refused (.illegalState .orderedByValue)
  | none =>
      ((Construction.constructKeyed builder.hash (.reject : Policy Unit K V)
        builder.entries).run ()).1

end Builder

namespace Map

variable {K V : Type} [BEq K] [Hashable K]

def ofDistinct (hash : K -> UInt64) (pairs : List (K × V)) : Construction K V :=
  (Builder.ofList hash pairs).build

/-- The map of some pairs, of which the last with a key decides its value. -/
def ofList (hash : K -> UInt64) (pairs : List (K × V)) : Construction K V :=
  (Builder.ofList hash pairs).buildKeepingLast

end Map
end SealedMap
