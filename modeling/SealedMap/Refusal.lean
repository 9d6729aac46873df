/-!
# Refusals

Everything that building, reading or writing a map can refuse, as causes.  The
wording of a refusal is a function of its cause, so callers compare causes and
print texts.
-/

namespace SealedMap

inductive Part where
  | key
  | value
deriving DecidableEq

inductive IllegalState where
  | orderAlreadySet
  | orderedByValue
deriving DecidableEq

inductive Operation where
  | insert
  | insertIfAbsent
  | replace
  | remove
  | clear
  | merge
  | compute
  | computeIfAbsent
  | computeIfPresent
  | replaceAll
  | extend
deriving DecidableEq

/-- The causes of a refusal; positions count from zero in the order of putting. -/
inductive Refusal where
  | nullArgument (part : Part)
  | duplicateKey (first second : Nat)
  | illegalState (state : IllegalState)
  | unsupportedMutation (operation : Operation)
  | absentKey
deriving DecidableEq

namespace Part

def name : Part -> String
  | key => "key"
  | value => "value"

end Part

namespace IllegalState

def message : IllegalState -> String
  | orderAlreadySet => "value ordering was already set"
  | orderedByValue => "a hash backed map can't be ordered by value"

end IllegalState

namespace Operation

def name : Operation -> String
  | insert => "insert"
  | insertIfAbsent => "insert_if_absent"
  | replace => "replace"
  | remove => "remove"
  | clear => "clear"
  | merge => "merge"
  | compute => "compute"
  | computeIfAbsent => "compute_if_absent"
  | computeIfPresent => "compute_if_present"
  | replaceAll => "replace_all"
  | extend => "extend"

def all : List Operation :=
  [insert, insertIfAbsent, replace, remove, clear, merge, compute,
    computeIfAbsent, computeIfPresent, replaceAll, extend]

end Operation

namespace Refusal

def message : Refusal -> String
  | nullArgument part => part.name ++ " must not be absent"
  | duplicateKey first second =>
      "multiple entries with same key: entry #" ++ toString first ++
        " and entry #" ++ toString second
  | illegalState state => "illegal builder state: " ++ state.message
  | unsupportedMutation operation =>
      "unsupported mutation: `" ++ operation.name ++ "` on an immutable map"
  | absentKey => "FrozenMap::index: invalid key"

def literal : Refusal -> String
  | nullArgument part => "NullArgument \x7b what: \"" ++ part.name ++ "\" \x7d"
  | duplicateKey first second =>
      "DuplicateKey \x7b first: " ++ toString first ++ ", second: " ++
        toString second ++ " \x7d"
  | illegalState state => "IllegalBuilderState(\"" ++ state.message ++ "\")"
  | unsupportedMutation operation =>
      "UnsupportedMutation \x7b operation: \"" ++ operation.name ++ "\" \x7d"
  | absentKey => "AbsentKey"

end Refusal

end SealedMap
