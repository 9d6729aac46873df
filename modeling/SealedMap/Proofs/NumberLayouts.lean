import Mathlib.Algebra.Group.Int.Defs
import Mathlib.Algebra.Group.Nat.Defs
import SealedMap.Proofs.ByteReaders

/-!
# Layouts of numbers

Which bytes the format has for a word and for an integer, under each
convention.  What is written has the form of the format, and what has that form
is read as the number that it stands for.
-/

namespace SealedMap
namespace Binary

open Reading (Reads Local give fail andThen reads_give)

open Feed (littleEndian)

/-! ## Words -/

/-- A mark, how many bytes follow it, and the least number that needs them. -/
inductive Marks : UInt8 -> Nat -> Nat -> Prop where
  | two : Marks 251 2 251
  | four : Marks 252 4 (2 ^ 16)
  | eight : Marks 253 8 (2 ^ 32)

inductive WordForm : Convention -> Nat -> List UInt8 -> Prop where
  | fixed {bytes : List UInt8} : bytes.length = 8 ->
      WordForm .fixed (numberOfBytes bytes) bytes
  | single {byte : UInt8} : byte.toNat < 251 ->
      WordForm .variable byte.toNat [byte]
  | marked {mark : UInt8} {width least : Nat} {bytes : List UInt8} :
      Marks mark width least -> bytes.length = width -> least ≤ numberOfBytes bytes ->
      WordForm .variable (numberOfBytes bytes) (mark :: bytes)

theorem numberOfBytes_littleEndian {count n : Nat} (h : n < 256 ^ count) :
    numberOfBytes (littleEndian count n) = n := by
  induction count generalizing n with
  | zero =>
      rw [Nat.pow_zero, Nat.lt_one_iff] at h
      rw [h]
      rfl
  | succ count ih =>
      have hhigh : n / 256 < 256 ^ count := by
        rw [Nat.pow_succ, Nat.mul_comm] at h
        exact Nat.div_lt_of_lt_mul h
      have hlow : n.toUInt8.toNat = n % 256 := UInt8.toNat_ofNat'
      rw [littleEndian, numberOfBytes, ih hhigh, hlow]
      exact Nat.mod_add_div n 256

theorem wordForm_fixed {n : Nat} (h : n < 2 ^ 64) :
    WordForm .fixed n (littleEndian 8 n) := by
  have hform := WordForm.fixed (Feed.length_littleEndian 8 n)
  rw [numberOfBytes_littleEndian h] at hform
  exact hform

theorem wordForm_single {n : Nat} (h : n < 251) :
    WordForm .variable n [n.toUInt8] := by
  have hbyte : n.toUInt8.toNat = n := UInt8.toNat_ofNat_of_lt' (Nat.lt_trans h (by decide))
  have hform : WordForm .variable n.toUInt8.toNat [n.toUInt8] := .single (hbyte.symm ▸ h)
  rw [hbyte] at hform
  exact hform

theorem wordForm_marked {mark : UInt8} {width least n : Nat} (hmark : Marks mark width least)
    (hleast : least ≤ n) (h : n < 256 ^ width) :
    WordForm .variable n (mark :: littleEndian width n) := by
  have hbytes := numberOfBytes_littleEndian h
  have hform := WordForm.marked hmark (Feed.length_littleEndian width n)
    (hbytes.symm ▸ hleast)
  rw [hbytes] at hform
  exact hform

theorem wordForm_writeNat {n : Nat} (h : n < 2 ^ 64) (convention : Convention) :
    WordForm convention n (writeNat convention n) := by
  cases convention with
  | fixed => exact wordForm_fixed h
  | «variable» =>
      rw [writeNat, writeVariable]
      split
      next hsingle => exact wordForm_single hsingle
      next hsingle =>
        split
        next htwo => exact wordForm_marked .two (Nat.le_of_not_lt hsingle) htwo
        next htwo =>
          split
          next hfour => exact wordForm_marked .four (Nat.le_of_not_lt htwo) hfour
          next hfour => exact wordForm_marked .eight (Nat.le_of_not_lt hfour) h

theorem readMarked_of_lt {byte : UInt8} (h : byte.toNat < 251) :
    readMarked byte = give byte.toNat :=
  if_pos (UInt8.lt_iff_toNat_lt.mpr h)

theorem readMarked_of_marks {mark : UInt8} {width least : Nat} (h : Marks mark width least) :
    readMarked mark = readLittleEndian width := by
  cases h with
  | two => rfl
  | four => rfl
  | eight => rfl

theorem WordForm.reads {convention : Convention} {n : Nat} {bytes : List UInt8}
    (h : WordForm convention n bytes) :
    Reads (readNat convention) bytes n := by
  cases h with
  | fixed hlength =>
      rw [readNat, ← hlength]
      exact reads_readLittleEndian bytes
  | @single byte hbyte =>
      rw [readNat, readVariable_eq]
      exact (reads_readByte byte).andThen (readMarked_of_lt hbyte ▸ reads_give byte.toNat)
  | @marked mark width _ bytes hmark hlength =>
      subst hlength
      rw [readNat, readVariable_eq]
      exact (reads_readByte mark).andThen
        (readMarked_of_marks hmark ▸ reads_readLittleEndian bytes)

theorem WordForm.ne_nil {convention : Convention} {n : Nat} {bytes : List UInt8}
    (h : WordForm convention n bytes) :
    bytes ≠ [] := by
  cases h with
  | fixed hlength =>
      intro hnil
      rw [hnil] at hlength
      cases hlength
  | single _ => exact List.cons_ne_nil _ _
  | marked _ _ _ => exact List.cons_ne_nil _ _

/-! ## Integers -/

/--
The bytes that the format has for an integer of 64 bits: its two's complement,
or the word that interleaves it with the integers of the other sign.
-/
inductive IntForm : Convention -> Int64 -> List UInt8 -> Prop where
  | complement {n : Int64} {word : Nat} {bytes : List UInt8} :
      (word : Int) = n.toInt % 2 ^ 64 -> WordForm .fixed word bytes -> IntForm .fixed n bytes
  | even {n : Int64} {m : Nat} {bytes : List UInt8} :
      n.toInt = m -> WordForm .variable (2 * m) bytes -> IntForm .variable n bytes
  | odd {n : Int64} {m : Nat} {bytes : List UInt8} :
      n.toInt = -(m : Int) - 1 -> WordForm .variable (2 * m + 1) bytes ->
      IntForm .variable n bytes

theorem toNat_toUInt64_eq (n : Int64) :
    (n.toUInt64.toNat : Int) = n.toInt % 2 ^ 64 := by
  have hcond := BitVec.toInt_eq_toNat_cond n.toBitVec
  have hlt := n.toUInt64.toNat_lt
  rw [Int64.toInt_toBitVec, Int64.toNat_toBitVec] at hcond
  split at hcond
  next => omega
  next => omega

theorem zigzag_of_nonneg {n : Int64} (h : 0 ≤ n.toInt) :
    zigzag n = 2 * n.toInt.toNat :=
  if_pos h

theorem zigzag_of_neg {n : Int64} (h : n.toInt < 0) :
    zigzag n = 2 * (-n.toInt - 1).toNat + 1 := by
  rw [zigzag, if_neg (Int.not_le_of_gt h)]
  omega

theorem zigzag_lt (n : Int64) :
    zigzag n < 2 ^ 64 := by
  have hlt := n.toInt_lt
  have hle := n.le_toInt
  unfold zigzag
  split
  next => omega
  next => omega

theorem unzigzag_even {n : Int64} {m : Nat} (h : n.toInt = m) :
    unzigzag (2 * m) = n := by
  have hlt : m < 2 ^ 63 := by
    have hlt := n.toInt_lt
    omega
  rw [unzigzag, if_pos (Nat.mul_mod_right 2 m), Nat.mul_div_cancel_left m (by decide),
    ← Int64.toInt_inj, Int64.toInt_ofNat_of_lt hlt, h]

theorem unzigzag_odd {n : Int64} {m : Nat} (h : n.toInt = -(m : Int) - 1) :
    unzigzag (2 * m + 1) = n := by
  have hodd : ¬ (2 * m + 1) % 2 = 0 := by omega
  have hhalf : (2 * m + 1) / 2 = m := by omega
  rw [unzigzag, if_neg hodd, hhalf, ← h, Int64.ofInt_toInt]

theorem intForm_writeInt (n : Int64) (convention : Convention) :
    IntForm convention n (writeInt convention n) := by
  cases convention with
  | fixed => exact .complement (toNat_toUInt64_eq n) (wordForm_fixed n.toUInt64.toNat_lt)
  | «variable» =>
      have hform : WordForm .variable (zigzag n) (writeVariable (zigzag n)) :=
        wordForm_writeNat (zigzag_lt n) .variable
      rw [writeInt]
      rcases Int.lt_or_le n.toInt 0 with hneg | hnonneg
      · rw [zigzag_of_neg hneg] at hform ⊢
        exact .odd (by omega) hform
      · rw [zigzag_of_nonneg hnonneg] at hform ⊢
        exact .even (Int.toNat_of_nonneg hnonneg).symm hform

theorem IntForm.reads {convention : Convention} {n : Int64} {bytes : List UInt8}
    (h : IntForm convention n bytes) :
    Reads (readInt convention) bytes n := by
  cases h with
  | @complement _ word _ hword hform =>
      have hn : word.toUInt64.toInt64 = n := by
        rw [← toNat_toUInt64_eq, Int.ofNat_inj] at hword
        rw [hword]
        exact (congrArg UInt64.toInt64 (UInt64.ofNat_toNat)).trans n.toInt64_toUInt64
      rw [readInt_fixed, ← hn]
      exact hform.reads.map fun n => n.toUInt64.toInt64
  | even hn hform =>
      rw [readInt_variable, ← unzigzag_even hn]
      exact hform.reads.map unzigzag
  | odd hn hform =>
      rw [readInt_variable, ← unzigzag_odd hn]
      exact hform.reads.map unzigzag

theorem IntForm.ne_nil {convention : Convention} {n : Int64} {bytes : List UInt8}
    (h : IntForm convention n bytes) :
    bytes ≠ [] := by
  cases h with
  | complement _ hform => exact hform.ne_nil
  | even _ hform => exact hform.ne_nil
  | odd _ hform => exact hform.ne_nil

end Binary
end SealedMap
