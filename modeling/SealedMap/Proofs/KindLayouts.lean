import SealedMap.Proofs.CoveredKinds
import SealedMap.Proofs.NumberLayouts

/-!
# Layouts of keys and values

Which bytes the format has for a key or a value of each kind.  A lawful layout
writes what the format has and reads it back, for everything whose bytes a
machine can count, and reads no further than what it makes a value of.
-/

namespace SealedMap

namespace Binary

open Reading (Reads Local give andThen reads_give map_eq_andThen)

inductive Form (convention : Convention) : {α : Type} -> α -> List UInt8 -> Prop where
  | integer {n : Int64} {bytes : List UInt8} :
      IntForm convention n bytes -> Form convention n bytes
  | text {text : String} {count : List UInt8} :
      WordForm convention text.utf8ByteSize count ->
      Form convention text (count ++ text.toUTF8.data.toList)
  | caseless {key : Caseless} {bytes : List UInt8} :
      Form convention key.text bytes -> Form convention key bytes
  | unhashed {key : Unhashed} {bytes : List UInt8} :
      Form convention key.number bytes -> Form convention key bytes
  | missing : Form convention Nullable.nil [0]
  | present {n : Int64} {bytes : List UInt8} :
      Form convention n bytes -> Form convention (Nullable.some n) (1 :: bytes)

theorem Form.ne_nil {convention : Convention} {α : Type} {a : α} {bytes : List UInt8}
    (h : Form convention a bytes) :
    bytes ≠ [] := by
  induction h with
  | integer hform => exact hform.ne_nil
  | text hcount => exact List.append_ne_nil_of_left_ne_nil hcount.ne_nil _
  | caseless _ ih => exact ih
  | unhashed _ ih => exact ih
  | missing => exact List.cons_ne_nil _ _
  | present _ _ => exact List.cons_ne_nil _ _

/-- Bytes that an address can count. -/
def Addressable (bytes : List UInt8) : Prop :=
  bytes.length < 2 ^ 64

class LawfulLaid (α : Type) [Laid α] : Prop where
  form_encode (convention : Convention) (a : α) :
    Addressable (Laid.encode convention a) -> Form convention a (Laid.encode convention a)
  reads_encode (convention : Convention) (a : α) :
    Addressable (Laid.encode convention a) ->
      Reads (Laid.decode convention) (Laid.encode convention a) a
  local_decode (convention : Convention) : Local (Laid.decode convention : Reader α)

/-! ## Texts -/

theorem length_bytes (text : String) :
    text.toUTF8.data.toList.length = text.utf8ByteSize := by
  rw [Array.length_toList]
  rfl

theorem utf8ByteSize_lt {convention : Convention} {text : String}
    (h : Addressable (writeText convention text)) :
    text.utf8ByteSize < 2 ^ 64 := by
  unfold Addressable writeText at h
  rw [List.length_append, length_bytes] at h
  omega

theorem form_writeText {convention : Convention} {text : String}
    (h : Addressable (writeText convention text)) :
    Form convention text (writeText convention text) := by
  rw [writeText, length_bytes]
  exact .text (wordForm_writeNat (utf8ByteSize_lt h) convention)

theorem reads_writeText {convention : Convention} {text : String}
    (h : Addressable (writeText convention text)) :
    Reads (readText convention) (writeText convention text) text := by
  have hcount := (wordForm_writeNat (utf8ByteSize_lt h) convention).reads
  have hbytes := reads_readBytes text.toUTF8.data.toList
  have htext := hbytes.andThen (asText_bytes text ▸ reads_give text)
  rw [List.append_nil, length_bytes] at htext
  rw [readText_eq, writeText, length_bytes]
  exact hcount.andThen htext

/-! ## The kinds -/

instance : LawfulLaid Int64 where
  form_encode convention n _ := .integer (intForm_writeInt n convention)
  reads_encode convention n _ := (intForm_writeInt n convention).reads
  local_decode := local_readInt

instance : LawfulLaid String where
  form_encode _ _ := form_writeText
  reads_encode _ _ := reads_writeText
  local_decode := local_readText

theorem decode_caseless (convention : Convention) :
    (Laid.decode convention : Reader Caseless) =
      andThen (readText convention) fun text => give ⟨text⟩ :=
  map_eq_andThen Caseless.mk (readText convention)

instance : LawfulLaid Caseless where
  form_encode _ _ h := .caseless (form_writeText h)
  reads_encode convention key h := by
    rw [decode_caseless]
    exact (reads_writeText h).map Caseless.mk
  local_decode convention := by
    rw [decode_caseless]
    exact (local_readText convention).map Caseless.mk

theorem decode_unhashed (convention : Convention) :
    (Laid.decode convention : Reader Unhashed) =
      andThen (readInt convention) fun n => give ⟨n⟩ :=
  map_eq_andThen Unhashed.mk (readInt convention)

instance : LawfulLaid Unhashed where
  form_encode convention key _ :=
    .unhashed (.integer (intForm_writeInt key.number convention))
  reads_encode convention key _ := by
    rw [decode_unhashed]
    exact (intForm_writeInt key.number convention).reads.map Unhashed.mk
  local_decode convention := by
    rw [decode_unhashed]
    exact (local_readInt convention).map Unhashed.mk

theorem reads_missing (convention : Convention) :
    Reads (Laid.readNullable convention) [0] .nil :=
  fun _ => rfl

theorem reads_present {convention : Convention} {n : Int64} {bytes : List UInt8}
    (h : IntForm convention n bytes) :
    Reads (Laid.readNullable convention) (1 :: bytes) (.some n) := by
  rw [readNullable_eq]
  exact (reads_readByte 1).andThen (h.reads.map Nullable.some)

instance : LawfulLaid Nullable where
  form_encode convention value _ := by
    rcases value with ⟨_ | n⟩
    · exact .missing
    · exact .present (.integer (intForm_writeInt n convention))
  reads_encode convention value _ := by
    rcases value with ⟨_ | n⟩
    · exact reads_missing convention
    · exact reads_present (intForm_writeInt n convention)
  local_decode := local_readNullable

theorem lawfulLaid_of_key {K : Type} [Session.KeyKind K] (h : Session.KeyKind.Covered K) :
    LawfulLaid K := by
  cases h with
  | integer => exact inferInstanceAs (LawfulLaid Int64)
  | text => exact inferInstanceAs (LawfulLaid String)
  | caseless => exact inferInstanceAs (LawfulLaid Caseless)
  | unhashed => exact inferInstanceAs (LawfulLaid Unhashed)

theorem lawfulLaid_of_value {V : Type} [Session.ValueKind V]
    (h : Session.ValueKind.Covered V) :
    LawfulLaid V := by
  cases h with
  | integer => exact inferInstanceAs (LawfulLaid Int64)
  | text => exact inferInstanceAs (LawfulLaid String)
  | nullable => exact inferInstanceAs (LawfulLaid Nullable)

end Binary
end SealedMap
