import SealedMap.Hashing.Hasher
import SealedMap.Parallel.Split

/-!
# A survey of parallel collection

What collecting some pairs of integers in parallel shows: a builder that is
extended, one that is merged, and a map that is gone through.
-/

namespace SealedMap
namespace Parallel

structure Survey where
  extended : Nat
  built : Except Refusal (List (Int64 × Int64))
  merged : Except Refusal (List (Int64 × Int64))
  seen : List (Int64 × Int64)
  back : List (Int64 × Int64)
  evens : List Int64
  sum : Int64
  events : List Event

def isEven (n : Int64) : Bool :=
  n.toInt % 2 == 0

def combineDigits (_ : Int64) (earlier later : Int64) : Int64 :=
  earlier * 10 + later

def pairsOf (construction : Construction Int64 Int64) :
    Except Refusal (List (Int64 × Int64)) :=
  construction.outcome.map Map.toList

def survey (hasher : Hashing.Hasher) (before : List (Int64 × Int64))
    (split : Split (Int64 × Int64)) : Survey :=
  let hash : Int64 -> UInt64 := hasher.hashOf
  let builder := (Builder.ofList hash before).extendParallel split
  let collected := Map.collect hash split
  let pairs := ((pairsOf collected).toOption).getD []
  { extended := builder.size
    built := pairsOf builder.build
    merged := pairsOf ((Builder.collect hash split).buildMerging combineDigits)
    seen := pairs
    back := pairs.reverse
    evens := (pairs.map Prod.fst).filter isEven
    sum := pairs.foldl (fun sum pair => sum + pair.2) 0
    events := collected.events }

end Parallel
end SealedMap
