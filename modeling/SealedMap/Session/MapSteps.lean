import SealedMap.HashCode
import SealedMap.Mutable.Mutation
import SealedMap.Session.BuilderSteps

/-!
# Steps on maps
-/

namespace SealedMap
namespace Session

variable {K V : Type} [KeyKind K] [ValueKind V]

/-- The entries of a store in key order that takes over every pair whole. -/
def sortedEntries (pairs : List (K × V)) : List (Entry K V) :=
  let store := pairs.foldl (fun (store : SortedStore K V) pair =>
    Store.set store (Entry.ofPair pair)) Store.empty
  Store.entries store

/-- The entries of a hash store that keeps the first spelling of every key. -/
def hashedEntries (pairs : List (K × V)) : List (Entry K V) :=
  let store := pairs.foldl (fun (store : HashStore K V) pair =>
    Mutation.insertKeeping store pair.1 pair.2) Store.empty
  Store.entries store

def lookup (map : Map K V) (key : K) : Lookup K V where
  value := map.get? key
  pair := (map.entry? key).map Entry.toPair
  isPresent := map.contains key
  fetched := map.fetch key

def comparison (left right : Map K V) : Comparison where
  isEqual := left == right
  sameKeys := left.keySet == right.keySet
  sameEntries := left.entrySet == right.entrySet
  sameCodes := left.hashCode == right.hashCode

def itemsOver (map : Map K V) : Traversal -> List (Item K V)
  | .pairs | .into => map.toList.map fun (key, value) => .pair key value
  | .keys => map.keys.map .key
  | .values => map.values.map .value

def everyMutation (key : K) (value : V) : List (Mutation K V) :=
  [.insert key value, .insertIfAbsent key value, .replace key value, .remove key,
    .clear, .merge key value fun _ new => some new,
    .compute key fun _ old => old, .computeIfAbsent key fun _ => value,
    .computeIfPresent key fun _ old => some old, .replaceAll fun _ old => old,
    .extend [(key, value)]]

namespace State

def keepMap (state : State K V) (target : String) (quiet : Bool)
    (construction : Construction K V) : Outcome K V :=
  match construction.outcome with
  | .ok map =>
      ⟨.contents (contents map quiet), construction.events, state.addMap target map⟩
  | .error refusal => ⟨.refused refusal, construction.events, state⟩

def keepJson (state : State K V) (target : String) (quiet : Bool)
    (read : JsonRead K V) : Outcome K V :=
  match read.outcome with
  | .ok map => ⟨.contents (contents map quiet), read.events, state.addMap target map⟩
  | .error fault => ⟨.unreadJson fault, read.events, state⟩

def make (state : State K V) (source : Source K V) (target : String) (quiet : Bool) :
    Outcome K V :=
  let keep := state.keepMap target quiet
  match source with
  | .nothing => keep (.built (.empty state.hash))
  | .single pair => keep (.built (.unit state.hash (.ofPair pair)))
  | .distinct pairs => keep (Map.ofDistinct state.hash pairs)
  | .collected pairs => keep (Map.ofList state.hash pairs)
  | .sorted pairs =>
      keep (Map.ofList state.hash ((sortedEntries pairs).map Entry.toPair))
  | .json text => state.keepJson target quiet (Map.ofJson state.hash text)
  | .tree tree => state.keepJson target quiet (Map.ofTree state.hash tree)
  | .bytes convention bytes =>
      let read := Map.ofBytes state.hash convention bytes
      match read.outcome with
      | .ok (map, used) =>
          ⟨.readBytes (contents map quiet) used, read.events, state.addMap target map⟩
      | .error failure => ⟨.unreadBytes failure, read.events, state⟩

def makeFromHashed (state : State K V) (pairs : List (K × V)) : Outcome K V :=
  let entries := hashedEntries pairs
  let construction : Construction K V := Map.ofList state.hash (entries.map Entry.toPair)
  match construction.outcome with
  | .ok map =>
      let follows := map.keys.length == entries.length &&
        (map.keys.zip entries).all fun (key, entry) => key == entry.key
      let sorted := map.toList.mergeSort fun a b => (Ord.compare a.1 b.1).isLE
      ⟨.fromHashed sorted follows, construction.events, state⟩
  | .error refusal => ⟨.refused refusal, construction.events, state⟩

def cloneMap (state : State K V) (name target : String) : Outcome K V :=
  state.withMap name fun inst => (state.setMap target inst).answer (.done true)

def discardMap (state : State K V) (name : String) : Outcome K V :=
  state.withMap name fun _ => (state.dropMap name).answer (.done true)

def ask (state : State K V) (name : String) (question : Map K V -> Answer K V) :
    Outcome K V :=
  state.withMap name fun inst => state.answer (question inst.map)

def hashes (map : Map K V) : Answer K V :=
  .hashes map.hashCode (Hashing.stableHash map)

def compare (state : State K V) (name other : String) : Outcome K V :=
  state.withMap name fun left =>
    state.withMap other fun right =>
      state.answer (.compared (comparison left.map right.map) (left.same right))

def compareWith (state : State K V) (name : String) (pairs : List (K × V))
    (hasher : Hashing.Hasher) : Outcome K V :=
  state.withMap name fun inst =>
    let construction : Construction K V := Map.ofList hasher.hashOf pairs
    match construction.outcome with
    | .ok other =>
        ⟨.comparedWith (comparison inst.map other) (other == inst.map),
          construction.events, state⟩
    | .error refusal => ⟨.refused refusal, construction.events, state⟩

def sameViews (state : State K V) (name other : String) : Outcome K V :=
  state.withMap name fun left =>
    state.withMap other fun right =>
      let (entries, ledger) := state.ledger.shares left.serial right.serial .entries
      let (keys, ledger) := ledger.shares left.serial right.serial .keys
      let (values, ledger) := ledger.shares left.serial right.serial .values
      let (multi, ledger) := ledger.shares left.serial right.serial .multi
      let (inverse, ledger) := ledger.shares left.serial right.serial .inverse
      { state with ledger := ledger }.answer
        (.sharedViews ⟨entries, keys, values, multi, inverse⟩)

def iterate (state : State K V) (name : String) (traversal : Traversal) (script : List Move) :
    Outcome K V :=
  state.withMap name fun inst =>
    let left := if traversal = .into then state.dropMap name else state
    let ability := if traversal = .into then Cursor.owning else Cursor.full
    left.answer (.replies (Cursor.play ability script ⟨itemsOver inst.map traversal⟩))

def mutate (state : State K V) (name : String) (key : K) (value : V) : Outcome K V :=
  state.withMap name fun inst =>
    let refusals := (everyMutation key value).map fun mutation =>
      mutation.refusedBy inst.map
    state.answer (.mutated refusals (inst.same inst) inst.map.toList)

end State
end Session
end SealedMap
