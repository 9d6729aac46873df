import SealedMap.Map
import SealedMap.Session.Step

/-!
# Instances and the views handed out for them

Every construction of a map makes a new instance, and copies of a map are the
same instance.  A view is made when it is first asked for and the same one is
handed out ever after; the inverse belongs to the multimap view.
-/

namespace SealedMap
namespace Session

/-- A map with the number of the construction it stems from. -/
structure Instance (K V : Type) [BEq K] [Hashable K] where
  map : Map K V
  serial : Nat

namespace Instance

/-- Two maps are the same instance, and all empty maps count as one. -/
def same [BEq K] [Hashable K] (left right : Instance K V) : Bool :=
  left.serial == right.serial || (left.map.isEmpty && right.map.isEmpty)

end Instance

inductive ViewOwner where
  | instance (serial : Nat) (kind : ViewKind)
  | multimap (view : Nat)
deriving DecidableEq

structure ViewLedger where
  known : List (ViewOwner × Nat)
  next : Nat

namespace ViewLedger

def empty : ViewLedger := ⟨[], 0⟩

def request (ledger : ViewLedger) (owner : ViewOwner) : Nat × ViewLedger :=
  match ledger.known.lookup owner with
  | some view => (view, ledger)
  | none => (ledger.next, ⟨(owner, ledger.next) :: ledger.known, ledger.next + 1⟩)

/-- The view of an instance; its inverse is that of its multimap view. -/
def view (ledger : ViewLedger) (serial : Nat) : ViewKind -> Nat × ViewLedger
  | .inverse =>
      let (multi, ledger) := ledger.request (.instance serial .multi)
      ledger.request (.multimap multi)
  | kind => ledger.request (.instance serial kind)

def shares (ledger : ViewLedger) (left right : Nat) (kind : ViewKind) :
    Bool × ViewLedger :=
  let (ofLeft, ledger) := ledger.view left kind
  let (ofRight, ledger) := ledger.view right kind
  (ofLeft == ofRight, ledger)

end ViewLedger
end Session
end SealedMap
