import SealedMap.Binary.MapForm
import SealedMap.Proofs.Reading

/-!
# What readers of bytes take

The readers of the binary layouts, put together from smaller ones, are local:
they take a stretch of bytes and do not look at what follows it.
-/

namespace SealedMap
namespace Binary

open Reading (Reads Local give fail andThen andThen_of_ok map_eq_andThen reads_give local_give
  local_fail)

/-! ## Bytes -/

theorem reads_readByte (byte : UInt8) :
    Reads readByte [byte] byte :=
  fun _ => rfl

theorem local_readByte :
    Local readByte := by
  intro bytes byte rest h
  cases bytes with
  | nil => cases h
  | cons first more =>
      cases h
      exact ⟨[byte], rfl, reads_readByte byte⟩

theorem reads_readBytes (bytes : List UInt8) :
    Reads (readBytes bytes.length) bytes bytes := by
  intro tail
  induction bytes with
  | nil => rfl
  | cons byte bytes ih => rw [List.length_cons, List.cons_append, readBytes, ih]

theorem exists_of_readBytes_eq_ok {count : Nat} {bytes taken rest : List UInt8}
    (h : readBytes count bytes = .ok (taken, rest)) :
    taken.length = count ∧ bytes = taken ++ rest := by
  induction count generalizing bytes taken with
  | zero =>
      cases h
      exact ⟨rfl, rfl⟩
  | succ count ih =>
      cases bytes with
      | nil => cases h
      | cons byte bytes =>
          rw [readBytes] at h
          cases hmore : readBytes count bytes with
          | error fault =>
              rw [hmore] at h
              cases h
          | ok more =>
              rw [hmore] at h
              cases h
              rcases ih hmore with ⟨hlength, hbytes⟩
              rw [List.length_cons, hlength, hbytes]
              exact ⟨rfl, rfl⟩

theorem local_readBytes (count : Nat) :
    Local (readBytes count) := by
  intro bytes taken rest h
  rcases exists_of_readBytes_eq_ok h with ⟨hlength, hbytes⟩
  subst hlength
  exact ⟨taken, hbytes, reads_readBytes taken⟩

/-! ## Numbers -/

theorem readLittleEndian_eq (count : Nat) :
    readLittleEndian count =
      andThen (readBytes count) fun taken => give (numberOfBytes taken) := by
  funext bytes
  unfold readLittleEndian andThen give
  rcases readBytes count bytes with fault | ⟨taken, rest⟩
  · rfl
  · rfl

def readMarked (mark : UInt8) : Reader Nat :=
  if mark < 251 then give mark.toNat
  else if mark = 251 then readLittleEndian 2
  else if mark = 252 then readLittleEndian 4
  else if mark = 253 then readLittleEndian 8
  else fail .invalid

theorem readVariable_eq :
    readVariable = andThen readByte readMarked := by
  funext bytes
  cases bytes with
  | nil => rfl
  | cons mark rest =>
      have hmark : readByte (mark :: rest) = .ok (mark, rest) := rfl
      rw [andThen_of_ok hmark, readVariable, readMarked]
      simp only [apply_ite (fun read : Reader Nat => read rest), give, fail]

theorem reads_readLittleEndian (bytes : List UInt8) :
    Reads (readLittleEndian bytes.length) bytes (numberOfBytes bytes) := by
  rw [readLittleEndian_eq]
  exact (reads_readBytes bytes).map numberOfBytes

theorem local_readLittleEndian (count : Nat) :
    Local (readLittleEndian count) := by
  rw [readLittleEndian_eq]
  exact (local_readBytes count).map numberOfBytes

theorem local_readMarked (mark : UInt8) :
    Local (readMarked mark) := by
  unfold readMarked
  refine .ite (local_give _) (.ite (local_readLittleEndian 2) ?_)
  exact .ite (local_readLittleEndian 4) (.ite (local_readLittleEndian 8) (local_fail _))

theorem local_readNat (convention : Convention) :
    Local (readNat convention) := by
  cases convention with
  | fixed => exact local_readLittleEndian 8
  | «variable» =>
      rw [readNat, readVariable_eq]
      exact local_readByte.andThen local_readMarked

theorem readInt_fixed :
    readInt .fixed = andThen (readLittleEndian 8) fun n => give n.toUInt64.toInt64 :=
  map_eq_andThen (fun n : Nat => n.toUInt64.toInt64) (readLittleEndian 8)

theorem readInt_variable :
    readInt .variable = andThen readVariable fun n => give (unzigzag n) :=
  map_eq_andThen unzigzag readVariable

theorem local_readInt (convention : Convention) :
    Local (readInt convention) := by
  cases convention with
  | fixed =>
      rw [readInt_fixed]
      exact (local_readLittleEndian 8).map _
  | «variable» =>
      rw [readInt_variable]
      exact (local_readNat .variable).map _

/-! ## Texts and missing values -/

def asText (taken : List UInt8) : Reader String :=
  match String.fromUTF8? ⟨taken.toArray⟩ with
  | some text => give text
  | none => fail .badText

theorem asText_bytes (text : String) :
    asText text.toUTF8.data.toList = give text := by
  have hbytes : (⟨text.toUTF8.data.toList.toArray⟩ : ByteArray) = text.toUTF8 := by
    rw [Array.toArray_toList]
  have hvalid : text.toUTF8.IsValidUTF8 := text.isValidUTF8
  rw [asText, hbytes, String.fromUTF8?, dif_pos hvalid]
  rfl

theorem readText_eq (convention : Convention) :
    readText convention =
      andThen (readNat convention) fun length => andThen (readBytes length) asText := by
  funext bytes
  unfold readText andThen
  rcases readNat convention bytes with fault | ⟨length, rest⟩
  · rfl
  · dsimp only
    rcases readBytes length rest with fault | ⟨taken, rest⟩
    · rfl
    · dsimp only
      unfold asText
      cases String.fromUTF8? ⟨taken.toArray⟩ with
      | none => rfl
      | some text => rfl

theorem local_asText (taken : List UInt8) :
    Local (asText taken) := by
  unfold asText
  cases String.fromUTF8? ⟨taken.toArray⟩ with
  | none => exact local_fail _
  | some text => exact local_give text

theorem local_readText (convention : Convention) :
    Local (readText convention) := by
  rw [readText_eq]
  exact (local_readNat convention).andThen fun length =>
    (local_readBytes length).andThen local_asText

def readTagged (convention : Convention) (tag : UInt8) : Reader Nullable :=
  if tag = 0 then give .nil
  else if tag = 1 then andThen (readInt convention) fun n => give (.some n)
  else fail .invalid

theorem readNullable_eq (convention : Convention) :
    Laid.readNullable convention = andThen readByte (readTagged convention) := by
  funext bytes
  cases bytes with
  | nil => rfl
  | cons tag rest =>
      have htag : readByte (tag :: rest) = .ok (tag, rest) := rfl
      rw [andThen_of_ok htag, Laid.readNullable, readTagged]
      simp only [apply_ite (fun read : Reader Nullable => read rest), give, fail,
        ← map_eq_andThen]

theorem local_readTagged (convention : Convention) (tag : UInt8) :
    Local (readTagged convention tag) := by
  unfold readTagged
  exact .ite (local_give _) (.ite ((local_readInt convention).map _) (local_fail _))

theorem local_readNullable (convention : Convention) :
    Local (Laid.readNullable convention) := by
  rw [readNullable_eq]
  exact local_readByte.andThen (local_readTagged convention)

end Binary
end SealedMap
