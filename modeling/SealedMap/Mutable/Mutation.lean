import SealedMap.Map
import SealedMap.Mutable.Store

/-!
# Mutations

The writes that a store carries out and a sealed map refuses.  A write of one key
may call back a function of what is stored, and its outcome tells the calls that
were made.  Replacing all values calls a function of every entry in the order of
the store, and its outcome tells none of these calls.  Which key stays is decided
by the write: those that change the value of a stored entry keep the stored key,
and `merge` and `compute` leave the given one.
-/

namespace SealedMap

inductive Mutation (K V : Type) where
  | insert (key : K) (value : V)
  | insertIfAbsent (key : K) (value : V)
  | replace (key : K) (value : V)
  | remove (key : K)
  | clear
  | merge (key : K) (value : V) (combine : V -> V -> Option V)
  | compute (key : K) (make : K -> Option V -> Option V)
  | computeIfAbsent (key : K) (make : K -> V)
  | computeIfPresent (key : K) (make : K -> V -> Option V)
  | replaceAll (make : K -> V -> V)
  | extend (pairs : List (K × V))

inductive Answered (V : Type) where
  | old (value : Option V)
  | added (isNew : Bool)
  | done

inductive Callback (K V : Type) where
  | combined (old new : V)
  | computed (key : K) (old : Option V)
  | filled (key : K)
  | updated (key : K) (old : V)

/-- A store after a write, what the write told, and the calls made for a single key. -/
structure Written (S K V : Type) where
  store : S
  answer : Answered V
  calls : List (Callback K V)

namespace Mutation

def operation : Mutation K V -> Operation
  | insert .. => .insert
  | insertIfAbsent .. => .insertIfAbsent
  | replace .. => .replace
  | remove .. => .remove
  | clear => .clear
  | merge .. => .merge
  | compute .. => .compute
  | computeIfAbsent .. => .computeIfAbsent
  | computeIfPresent .. => .computeIfPresent
  | replaceAll .. => .replaceAll
  | extend .. => .extend

variable {S K V : Type} [Store S K V]

/-- Sets the value of a key; a stored key stays as it is. -/
def insertKeeping (store : S) (key : K) (value : V) : S :=
  match Store.entry? store key with
  | some entry => Store.set store ⟨entry.key, value⟩
  | none => Store.set store ⟨key, value⟩

def putBack (taken : S) (key : K) : Option V -> S
  | some value => insertKeeping taken key value
  | none => taken

def applyTo (mutation : Mutation K V) (store : S) : Written S K V :=
  match mutation with
  | insert key value =>
      let old := (Store.entry? store key).map Entry.value
      ⟨insertKeeping store key value, .old old, []⟩
  | insertIfAbsent key value =>
      match Store.entry? store key with
      | some _ => ⟨store, .added false, []⟩
      | none => ⟨insertKeeping store key value, .added true, []⟩
  | replace key value =>
      match Store.entry? store key with
      | some entry => ⟨Store.set store ⟨entry.key, value⟩, .old (some entry.value), []⟩
      | none => ⟨store, .old none, []⟩
  | remove key =>
      let old := (Store.entry? store key).map Entry.value
      ⟨Store.erase store key, .old old, []⟩
  | clear => ⟨Store.empty, .done, []⟩
  | merge key value combine =>
      let taken := Store.erase store key
      match Store.entry? store key with
      | some entry =>
          ⟨putBack taken key (combine entry.value value), .done, [.combined entry.value value]⟩
      | none => ⟨putBack taken key (some value), .done, []⟩
  | compute key make =>
      let old := (Store.entry? store key).map Entry.value
      let taken := Store.erase store key
      ⟨putBack taken key (make key old), .done, [.computed key old]⟩
  | computeIfAbsent key make =>
      match Store.entry? store key with
      | some _ => ⟨store, .done, []⟩
      | none => ⟨Store.set store ⟨key, make key⟩, .done, [.filled key]⟩
  | computeIfPresent key make =>
      match Store.entry? store key with
      | some entry =>
          let taken := Store.erase store key
          ⟨putBack taken entry.key (make entry.key entry.value), .done,
            [.updated entry.key entry.value]⟩
      | none => ⟨store, .done, []⟩
  | replaceAll make => ⟨Store.mapValues make store, .done, []⟩
  | extend pairs =>
      ⟨pairs.foldl (fun store pair => insertKeeping store pair.1 pair.2) store, .done, []⟩

/-- A sealed map refuses every write and stays as it is. -/
def refusedBy [BEq K] [Hashable K] (mutation : Mutation K V) (_ : Map K V) : Refusal :=
  .unsupportedMutation mutation.operation

def run : List (Mutation K V) -> S -> List (Written S K V)
  | [], _ => []
  | mutation :: mutations, store =>
      let written := mutation.applyTo store
      written :: run mutations written.store

end Mutation
end SealedMap
