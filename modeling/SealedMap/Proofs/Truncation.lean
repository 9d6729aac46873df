import Mathlib
import SealedMap.Proofs.PairStreams

/-!
# Bytes that are cut short

The readers of the binary layouts stop at the end of their bytes: cut short
within what they take, anywhere from the count to the last byte of a value, they
find the bytes truncated and nothing else wrong.  A text is not looked at before
all its bytes are there, so it may be cut within a character.  So no bytes that
are read as a map are the front of others that are.
-/

namespace SealedMap
namespace Binary

open Reading (Local StopsShort give andThen stopsShort_give stopsShort_fail local_give)

/-! ## Bytes and numbers -/

theorem readBytes_of_length_lt {count : Nat} {bytes : List UInt8} (h : bytes.length < count) :
    readBytes count bytes = .error .truncated := by
  induction count generalizing bytes with
  | zero => cases h
  | succ count ih =>
      cases bytes with
      | nil => rfl
      | cons byte rest => rw [readBytes, ih (Nat.lt_of_succ_lt_succ h)]

theorem stopsShort_readBytes (count : Nat) :
    StopsShort .truncated (readBytes count) := by
  intro front back rest taken h hback
  rcases exists_of_readBytes_eq_ok h with ⟨hlength, hbytes⟩
  rw [← List.append_assoc] at hbytes
  apply readBytes_of_length_lt
  rw [← hlength, ← List.append_cancel_right hbytes, List.length_append]
  exact Nat.lt_add_of_pos_right (List.length_pos_iff.mpr hback)

theorem stopsShort_readByte :
    StopsShort .truncated readByte := by
  intro front back rest byte h hback
  cases front with
  | nil => rfl
  | cons first front =>
      have hrest : front ++ (back ++ rest) = rest := congrArg Prod.snd (Except.ok.inj h)
      rw [← List.append_assoc, List.append_left_eq_self] at hrest
      exact absurd (List.append_eq_nil_iff.mp hrest).2 hback

theorem stopsShort_readLittleEndian (count : Nat) :
    StopsShort .truncated (readLittleEndian count) := by
  rw [readLittleEndian_eq]
  exact (stopsShort_readBytes count).map (local_readBytes count) numberOfBytes

theorem stopsShort_readMarked (mark : UInt8) :
    StopsShort .truncated (readMarked mark) := by
  unfold readMarked
  refine .ite (stopsShort_give _ _) (.ite (stopsShort_readLittleEndian 2) ?_)
  refine .ite (stopsShort_readLittleEndian 4) (.ite (stopsShort_readLittleEndian 8) ?_)
  exact stopsShort_fail _ _

theorem stopsShort_readNat (convention : Convention) :
    StopsShort .truncated (readNat convention) := by
  cases convention with
  | fixed => exact stopsShort_readLittleEndian 8
  | «variable» =>
      rw [readNat, readVariable_eq]
      exact stopsShort_readByte.andThen local_readByte stopsShort_readMarked local_readMarked

theorem stopsShort_readInt (convention : Convention) :
    StopsShort .truncated (readInt convention) := by
  cases convention with
  | fixed =>
      rw [readInt_fixed]
      exact (stopsShort_readLittleEndian 8).map (local_readLittleEndian 8) _
  | «variable» =>
      rw [readInt_variable]
      exact (stopsShort_readNat .variable).map (local_readNat .variable) _

/-! ## Texts and missing values -/

theorem stopsShort_asText (taken : List UInt8) :
    StopsShort .truncated (asText taken) := by
  unfold asText
  cases String.fromUTF8? ⟨taken.toArray⟩ with
  | none => exact stopsShort_fail _ _
  | some text => exact stopsShort_give _ text

theorem stopsShort_readText (convention : Convention) :
    StopsShort .truncated (readText convention) := by
  have hlocal : forall length, Local (andThen (readBytes length) asText) :=
    fun length => (local_readBytes length).andThen local_asText
  rw [readText_eq]
  -- The bytes of a text are all taken before they are looked at.
  refine (stopsShort_readNat convention).andThen (local_readNat convention) ?_ hlocal
  intro length
  exact (stopsShort_readBytes length).andThen (local_readBytes length) stopsShort_asText
    local_asText

theorem stopsShort_readNullable (convention : Convention) :
    StopsShort .truncated (Laid.readNullable convention) := by
  rw [readNullable_eq]
  refine stopsShort_readByte.andThen local_readByte ?_ (local_readTagged convention)
  intro tag
  unfold readTagged
  refine .ite (stopsShort_give _ _) (.ite ?_ (stopsShort_fail _ _))
  exact (stopsShort_readInt convention).map (local_readInt convention) _

/-! ## Keys, values and pairs -/

/-- A layout that is found truncated wherever its bytes are cut short. -/
class Delimited (α : Type) [Laid α] : Prop where
  stopsShort_decode (convention : Convention) :
    StopsShort .truncated (Laid.decode convention : Reader α)

instance : Delimited Int64 where
  stopsShort_decode := stopsShort_readInt

instance : Delimited String where
  stopsShort_decode := stopsShort_readText

instance : Delimited Caseless where
  stopsShort_decode convention := by
    rw [decode_caseless]
    exact (stopsShort_readText convention).map (local_readText convention) Caseless.mk

instance : Delimited Unhashed where
  stopsShort_decode convention := by
    rw [decode_unhashed]
    exact (stopsShort_readInt convention).map (local_readInt convention) Unhashed.mk

instance : Delimited Nullable where
  stopsShort_decode := stopsShort_readNullable

theorem delimited_of_key {K : Type} [Session.KeyKind K] (h : Session.KeyKind.Covered K) :
    Delimited K := by
  cases h with
  | integer => exact inferInstanceAs (Delimited Int64)
  | text => exact inferInstanceAs (Delimited String)
  | caseless => exact inferInstanceAs (Delimited Caseless)
  | unhashed => exact inferInstanceAs (Delimited Unhashed)

theorem delimited_of_value {V : Type} [Session.ValueKind V]
    (h : Session.ValueKind.Covered V) :
    Delimited V := by
  cases h with
  | integer => exact inferInstanceAs (Delimited Int64)
  | text => exact inferInstanceAs (Delimited String)
  | nullable => exact inferInstanceAs (Delimited Nullable)

section Pairs

variable {K V : Type} [Laid K] [Laid V] [LawfulLaid K] [LawfulLaid V]

theorem local_readPairsFrom (convention : Convention) (count : Nat) (seen : List (K × V)) :
    Local (readPairsFrom convention count seen) := by
  induction count generalizing seen with
  | zero => exact local_give seen.reverse
  | succ count ih =>
      rw [readPairsFrom_succ]
      exact (local_readPair convention).andThen fun pair => ih (pair :: seen)

theorem local_readPairs (convention : Convention) :
    Local (readPairs convention : Reader (List (K × V))) := by
  rw [readPairs_eq]
  exact (local_readNat convention).andThen fun count => local_readPairsFrom convention count []

variable [Delimited K] [Delimited V]

theorem stopsShort_readPair (convention : Convention) :
    StopsShort .truncated (readPair convention : Reader (K × V)) := by
  rw [readPair_eq]
  refine (Delimited.stopsShort_decode convention).andThen (LawfulLaid.local_decode convention)
    ?_ fun key => (LawfulLaid.local_decode convention).map (Prod.mk key)
  intro key
  exact (Delimited.stopsShort_decode convention).map (LawfulLaid.local_decode convention)
    (Prod.mk key)

theorem stopsShort_readPairsFrom (convention : Convention) (count : Nat)
    (seen : List (K × V)) :
    StopsShort .truncated (readPairsFrom convention count seen) := by
  induction count generalizing seen with
  | zero => exact stopsShort_give _ seen.reverse
  | succ count ih =>
      rw [readPairsFrom_succ]
      exact (stopsShort_readPair convention).andThen (local_readPair convention)
        (fun pair => ih (pair :: seen))
        fun pair => local_readPairsFrom convention count (pair :: seen)

theorem stopsShort_readPairs (convention : Convention) :
    StopsShort .truncated (readPairs convention : Reader (List (K × V))) := by
  rw [readPairs_eq]
  exact (stopsShort_readNat convention).andThen (local_readNat convention)
    (fun count => stopsShort_readPairsFrom convention count [])
    fun count => local_readPairsFrom convention count []

end Pairs
end Binary

/-! ## Maps -/

namespace Map

open Binary (Convention LawfulLaid readPairs)
open Reading (Reads)
open Session (KeyKind ValueKind)

section Built

variable {K V : Type} [BEq K] [Hashable K]

def builtFrom (hash : K -> UInt64) (pairs : List (K × V)) (used : Nat) : BytesRead K V :=
  match (ofDistinct hash pairs).outcome with
  | .error refusal => ⟨(ofDistinct hash pairs).events, .error (.refused refusal)⟩
  | .ok map => ⟨(ofDistinct hash pairs).events, .ok (map, used)⟩

theorem eq_of_builtFrom {hash : K -> UInt64} {pairs : List (K × V)} {map : Map K V}
    {count used : Nat} (h : (builtFrom hash pairs count).outcome = .ok (map, used)) :
    count = used := by
  unfold builtFrom at h
  split at h
  next => cases h
  next => exact congrArg Prod.snd (Except.ok.inj h)

variable [Binary.Laid K] [Binary.Laid V] {hash : K -> UInt64} {convention : Convention}
  {bytes : List UInt8}

theorem ofBytes_of_readPairs (hash : K -> UInt64) {pairs : List (K × V)} {rest : List UInt8}
    (h : readPairs convention bytes = .ok (pairs, rest)) :
    ofBytes hash convention bytes = builtFrom hash pairs (bytes.length - rest.length) := by
  rw [ofBytes, h]
  rfl

theorem ofBytes_of_truncated
    (h : (readPairs convention bytes : Except _ (List (K × V) × _)) = .error .truncated) :
    (ofBytes hash convention bytes : BytesRead K V) = ⟨[], .error (.unreadable .truncated)⟩ := by
  rw [ofBytes, h]

theorem exists_of_ofBytes [LawfulLaid K] [LawfulLaid V] {map : Map K V} {used : Nat}
    (h : (ofBytes hash convention bytes).outcome = .ok (map, used)) :
    exists (front rest : List UInt8) (pairs : List (K × V)), bytes = front ++ rest ∧
      front.length = used ∧ Reads (readPairs convention) front pairs ∧
      ofBytes hash convention bytes = builtFrom hash pairs used := by
  cases hread : (readPairs convention bytes : Except _ (List (K × V) × _)) with
  | error fault =>
      rw [ofBytes, hread] at h
      cases h
  | ok taken =>
      rcases taken with ⟨pairs, rest⟩
      have hbuilt := ofBytes_of_readPairs hash hread
      rcases Binary.local_readPairs convention _ _ _ hread with ⟨front, rfl, hfront⟩
      rw [hbuilt] at h
      have hused := eq_of_builtFrom h
      rw [hused] at hbuilt
      rw [List.length_append, Nat.add_sub_cancel] at hused
      exact ⟨front, rest, pairs, rfl, hused, hfront, hbuilt⟩

end Built

/--
When bytes are read as a map, those that were used are read the same whatever
follows them.  Cut short anywhere they are truncated, under every hash function,
and nothing else is found wrong.  So a longer stretch of bytes that is used up as
a map does not start with them.
-/
theorem accepted_bytes_are_prefix_free {K V : Type} [KeyKind K] [ValueKind V]
    (hkeys : KeyKind.Covered K) (hvalues : ValueKind.Covered V) {hash : K -> UInt64}
    {convention : Convention} {bytes : List UInt8} {map : Map K V} {used : Nat}
    (h : (ofBytes hash convention bytes).outcome = .ok (map, used)) :
    used ≤ bytes.length ∧
      (forall tail, (ofBytes hash convention (bytes.take used ++ tail) : BytesRead K V) =
        ofBytes hash convention bytes) ∧
      (forall (other : K -> UInt64) (count : Nat), count < used ->
        (ofBytes other convention (bytes.take count) : BytesRead K V) =
          ⟨[], .error (.unreadable .truncated)⟩) ∧
      (Binary.Failure.unreadable .truncated).message = "unexpected end" ∧
      forall (other : K -> UInt64) (longer : List UInt8) (read : Map K V),
        (ofBytes other convention longer).outcome = .ok (read, longer.length) ->
        bytes.take used <+: longer -> longer = bytes.take used := by
  have := Binary.lawfulLaid_of_key hkeys
  have := Binary.lawfulLaid_of_value hvalues
  have := Binary.delimited_of_key hkeys
  have := Binary.delimited_of_value hvalues
  rcases exists_of_ofBytes h with ⟨front, rest, pairs, rfl, rfl, hfront, hbuilt⟩
  have hcut : forall (other : K -> UInt64) (more back : List UInt8), front = more ++ back ->
      back ≠ [] -> (ofBytes other convention more : BytesRead K V) =
        ⟨[], .error (.unreadable .truncated)⟩ := by
    intro other more back hsplit hback
    have hread := hfront []
    rw [hsplit, List.append_assoc] at hread
    exact ofBytes_of_truncated
      (Binary.stopsShort_readPairs convention more back [] pairs hread hback)
  rw [List.take_left, List.length_append]
  refine ⟨Nat.le_add_right _ _, ?_, ?_, rfl, ?_⟩
  · intro tail
    rw [hbuilt, ofBytes_of_readPairs hash (hfront tail), List.length_append, Nat.add_sub_cancel]
  · intro other count hcount
    rw [List.take_append_of_le_length (Nat.le_of_lt hcount)]
    apply hcut other _ _ (List.take_append_drop count front).symm
    intro hnil
    exact Nat.not_lt_of_le (List.drop_eq_nil_iff.mp hnil) hcount
  · intro other longer read hlonger hprefix
    rcases hprefix with ⟨back, rfl⟩
    have hread := ofBytes_of_readPairs other (hfront back)
    rw [hread] at hlonger
    have hused := eq_of_builtFrom hlonger
    rw [List.length_append, Nat.add_sub_cancel] at hused
    rw [List.length_eq_zero_iff.mp (Nat.left_eq_add.mp hused), List.append_nil]

/--
A count and a text with more bytes than they need, of which the text's stand for
one character; what is cut within the character is truncated, and not bad text.
-/
theorem accepted_bytes_are_prefix_free_withinCharacter :
    (exists map : Map Caseless Nullable,
      (ofBytes (fun _ => 0) .variable [251, 1, 0, 251, 2, 0, 195, 169, 1, 4, 7]).outcome =
        .ok (map, 10) ∧ map.toList = [(⟨"é"⟩, .some 2)]) ∧
    (forall tail, exists map : Map Caseless Nullable,
      (ofBytes (fun _ => 0) .variable ([251, 1, 0, 251, 2, 0, 195, 169, 1, 4] ++ tail)).outcome =
        .ok (map, 10)) ∧
    (ofBytes (fun _ => 0) .variable [251, 1, 0, 251, 2, 0, 195] : BytesRead Caseless Nullable) =
      ⟨[], .error (.unreadable .truncated)⟩ := by
  have hread : (ofBytes (fun _ => 0) .variable [251, 1, 0, 251, 2, 0, 195, 169, 1, 4, 7] :
      BytesRead Caseless Nullable).outcome =
        .ok (⟨.single ⟨⟨"é"⟩, .some 2⟩, fun _ => 0⟩, 10) := by cbv
  rcases accepted_bytes_are_prefix_free .caseless .nullable hread with
    ⟨_, hsame, hcut, _, _⟩
  refine ⟨⟨_, hread, rfl⟩, ?_, hcut (fun _ => 0) 7 (by decide)⟩
  intro tail
  exact ⟨_, (congrArg BytesRead.outcome (hsame tail)).trans hread⟩

end Map
end SealedMap
