import Mathlib
import SealedMap.Proofs.PairStreams
import SealedMap.Proofs.RejectingBuilds

/-!
# Maps in bytes and back

The bytes of a map are those of its size and of its pairs in their order, as
the format has them.  Reading takes these bytes and no more, and builds a map of
the same pairs in the same order: the keys of a map are distinct, so nothing is
refused.
-/

namespace SealedMap
namespace Binary

open Reading (Reads Local give fail andThen reads_give)

theorem Addressable.of_append {front back : List UInt8} (h : Addressable (front ++ back)) :
    Addressable front ∧ Addressable back := by
  unfold Addressable at h ⊢
  rw [List.length_append] at h
  omega

/-! ## Pairs -/

section Pairs

variable {K V : Type} {convention : Convention}

/-- The bytes that the format has for pairs that stand one after the other. -/
inductive PairsForm (convention : Convention) : List (K × V) -> List UInt8 -> Prop where
  | nil : PairsForm convention [] []
  | cons {pair : K × V} {pairs : List (K × V)} {key value bytes : List UInt8} :
      Form convention pair.1 key -> Form convention pair.2 value ->
      PairsForm convention pairs bytes ->
      PairsForm convention (pair :: pairs) (key ++ value ++ bytes)

/-- The bytes that the format has for a map. -/
def MapForm (convention : Convention) (pairs : List (K × V)) (bytes : List UInt8) : Prop :=
  exists count rest, WordForm convention pairs.length count ∧
    PairsForm convention pairs rest ∧ bytes = count ++ rest

theorem PairsForm.length_le {pairs : List (K × V)} {bytes : List UInt8}
    (h : PairsForm convention pairs bytes) :
    pairs.length ≤ bytes.length := by
  induction h with
  | nil => exact Nat.le_refl 0
  | cons hkey _ _ ih =>
      have hpos := List.length_pos_iff.mpr hkey.ne_nil
      simp only [List.length_cons, List.length_append]
      omega

variable [Laid K] [Laid V]

def writePair (convention : Convention) (pair : K × V) : List UInt8 :=
  Laid.encode convention pair.1 ++ Laid.encode convention pair.2

theorem writePairs_eq (pairs : List (K × V)) :
    writePairs convention pairs =
      writeNat convention pairs.length ++ pairs.flatMap (writePair convention) := rfl

section Lawful

variable [LawfulLaid K] [LawfulLaid V]

theorem reads_readPair {pair : K × V} (h : Addressable (writePair convention pair)) :
    Reads (readPair convention) (writePair convention pair) pair := by
  rcases h.of_append with ⟨hkey, hvalue⟩
  rw [readPair_eq, writePair]
  exact (LawfulLaid.reads_encode convention pair.1 hkey).andThen
    ((LawfulLaid.reads_encode convention pair.2 hvalue).map fun value => (pair.1, value))

theorem reads_readPairsFrom {pairs : List (K × V)}
    (h : Addressable (pairs.flatMap (writePair convention))) (seen : List (K × V)) :
    Reads (readPairsFrom convention pairs.length seen)
      (pairs.flatMap (writePair convention)) (seen.reverse ++ pairs) := by
  induction pairs generalizing seen with
  | nil =>
      rw [List.append_nil]
      exact reads_give seen.reverse
  | cons pair pairs ih =>
      rw [List.flatMap_cons] at h ⊢
      rcases h.of_append with ⟨hpair, hpairs⟩
      have hrest := ih hpairs (pair :: seen)
      rw [List.reverse_cons, List.append_assoc, List.singleton_append] at hrest
      rw [List.length_cons, readPairsFrom_succ]
      exact (reads_readPair hpair).andThen hrest

theorem pairsForm_flatMap {pairs : List (K × V)}
    (h : Addressable (pairs.flatMap (writePair convention))) :
    PairsForm convention pairs (pairs.flatMap (writePair convention)) := by
  induction pairs with
  | nil => exact .nil
  | cons pair pairs ih =>
      rw [List.flatMap_cons] at h ⊢
      rcases h.of_append with ⟨hpair, hpairs⟩
      rcases hpair.of_append with ⟨hkey, hvalue⟩
      exact .cons (LawfulLaid.form_encode convention pair.1 hkey)
        (LawfulLaid.form_encode convention pair.2 hvalue) (ih hpairs)

theorem length_lt_of_addressable {pairs : List (K × V)}
    (h : Addressable (pairs.flatMap (writePair convention))) :
    pairs.length < 2 ^ 64 :=
  Nat.lt_of_le_of_lt (pairsForm_flatMap h).length_le h

theorem mapForm_writePairs {pairs : List (K × V)}
    (h : Addressable (writePairs convention pairs)) :
    MapForm convention pairs (writePairs convention pairs) := by
  have hpairs := h.of_append.2
  exact ⟨_, _, wordForm_writeNat (length_lt_of_addressable hpairs) convention,
    pairsForm_flatMap hpairs, rfl⟩

theorem reads_readPairs {pairs : List (K × V)}
    (h : Addressable (writePairs convention pairs)) :
    Reads (readPairs convention) (writePairs convention pairs) pairs := by
  have hpairs := h.of_append.2
  have hcount := wordForm_writeNat (length_lt_of_addressable hpairs) convention
  rw [readPairs_eq, writePairs_eq]
  exact hcount.reads.andThen (reads_readPairsFrom hpairs [])

end Lawful
end Pairs
end Binary

/-! ## Maps -/

namespace Map

open Binary (Convention Addressable MapForm)
open Construction (Constructed)
open Session (KeyKind ValueKind)

/--
The bytes of a constructed map are those that the format has for its pairs.  Read
with any hash function and whatever bytes follow, they give a map of the same
pairs in the same order, and just as many bytes are used.  Lengths are words, so
the bytes must be no more than a word can count.
-/
theorem ofBytes_toBytes {K V : Type} [KeyKind K] [ValueKind V]
    (hkeys : KeyKind.Covered K) (hvalues : ValueKind.Covered V) {hash : K -> UInt64}
    (hhash : forall a b, (a == b) = true -> hash a = hash b)
    {entries : Array (Entry K V)} {map : Map K V} (h : Constructed hash entries map)
    {convention : Convention} (hbytes : Addressable (map.toBytes convention)) :
    MapForm convention map.toList (map.toBytes convention) ∧
      forall (other : K -> UInt64) (tail : List UInt8), exists read : Map K V,
        (ofBytes other convention (map.toBytes convention ++ tail)).outcome =
          .ok (read, (map.toBytes convention).length) ∧
        read.toList = map.toList := by
  have := hkeys.equivBEq
  have := hkeys.lawfulHashable
  have := Binary.lawfulLaid_of_key hkeys
  have := Binary.lawfulLaid_of_value hvalues
  refine ⟨Binary.mapForm_writePairs hbytes, ?_⟩
  intro other tail
  rcases exists_ofDistinct_toList hhash h other with ⟨read, houtcome, hpairs⟩
  have hread := Binary.reads_readPairs hbytes tail
  refine ⟨read, ?_, hpairs⟩
  rw [ofBytes, toBytes, hread]
  dsimp only
  rw [houtcome, List.length_append, Nat.add_sub_cancel]

def halfMissing : Map Caseless Nullable where
  layout :=
    .chained #[⟨⟨"Ab"⟩, .nil⟩, ⟨⟨"b"⟩, .some (-9223372036854775808)⟩]
      { hash := fun _ => 0
        heads := #[some 1, none]
        links := #[none, some 0]
        shift := 63 }
  hash := fun _ => 0

theorem ofBytes_toBytes_halfMissing :
    halfMissing.toBytes .variable =
        [2, 2, 65, 98, 0, 1, 98, 1, 253, 255, 255, 255, 255, 255, 255, 255, 255] ∧
      forall other tail, exists read : Map Caseless Nullable,
        (ofBytes other .variable (halfMissing.toBytes .variable ++ tail)).outcome =
          .ok (read, 17) ∧
        read.toList = halfMissing.toList := by
  have hconstructed : Constructed (fun _ => 0)
      #[⟨⟨"Ab"⟩, .nil⟩, ⟨⟨"b"⟩, .some (-9223372036854775808)⟩] halfMissing := by
    have houtcome : ((Construction.construct (fun _ : Caseless => 0)
        (.reject : Policy Unit Caseless Nullable) none
        #[⟨⟨"Ab"⟩, .nil⟩, ⟨⟨"b"⟩, .some (-9223372036854775808)⟩]).run ()).1.outcome =
          .ok halfMissing := by cbv
    exact .construct houtcome
  have hlength : (halfMissing.toBytes .variable).length = 17 := by cbv
  have hbytes : Addressable (halfMissing.toBytes .variable) := by
    rw [Addressable, hlength]
    decide
  have hround := ofBytes_toBytes .caseless .nullable (fun _ _ _ => rfl) hconstructed hbytes
  rw [hlength] at hround
  exact ⟨by cbv, hround.2⟩

end Map
end SealedMap
