import MessageIndex.Entry
import MessageIndex.Proofs.ByteOrder

/-!
# Proofs: entries as codes

An entry that was written is read back (`decode_encode`), and reading refuses nothing but a wrong
length. A field read by itself is the field of the whole entry (`readField_eq`), on bytes that were
written by nobody as well.
-/

namespace MessageIndex.Entry

open Bytes

theorem checkSize_of_length {bytes : Bytes} (h : bytes.length = size) :
    checkSize bytes = .ok () := if_pos h

/-- Bytes of any other length are refused. -/
theorem decode_of_length_ne {bytes : Bytes} (h : bytes.length ≠ size) :
    decode bytes = .error (.malformedEntry bytes.length) := by
  unfold decode checkSize
  rw [if_neg h]
  rfl

/-- Bytes of the right length are an entry. -/
theorem decode_of_length {bytes : Bytes} (h : bytes.length = size) : ∃ e, decode bytes = .ok e := by
  unfold decode
  rw [checkSize_of_length h]
  exact ⟨_, rfl⟩

/-- Bytes of the right length have every field. -/
theorem readField_of_length {bytes : Bytes} (h : bytes.length = size) (field : EntryField) :
    ∃ bits, readField bytes field = .ok bits := by
  unfold readField
  rw [checkSize_of_length h]
  exact ⟨_, rfl⟩

theorem splitAt_append {front rest : Bytes} {n : Nat} (h : front.length = n) :
    (front ++ rest).splitAt n = (front, rest) := by
  rw [List.splitAt_eq, List.take_left' h, List.drop_left' h]

theorem length_fieldBytes (e : Entry) (field : EntryField) :
    (e.fieldBytes field).length = field.width := length_bigEndian _ _

theorem ofNat_bigEndian_word (x : UInt64) : UInt64.ofNat (toNat (bigEndian 8 x.toNat)) = x := by
  rw [toNat_bigEndian_of_lt (toNat_lt_capacity_eight x), UInt64.ofNat_toNat]

theorem ofNat_bigEndian_half_word (x : UInt32) :
    UInt32.ofNat (toNat (bigEndian 4 x.toUInt64.toNat)) = x := by
  rw [UInt32.toNat_toUInt64, toNat_bigEndian_of_lt (toNat_lt_capacity_four x), UInt32.ofNat_toNat]

/-- An entry that was written is read back. -/
theorem decode_encode (e : Entry) : decode e.encode = .ok e := by
  have hpos (rest : Bytes) : (e.fieldBytes .physicalOffset ++ rest).splitAt 8 = (_, rest) :=
    splitAt_append (e.length_fieldBytes _)
  have hsize (rest : Bytes) : (e.fieldBytes .messageSize ++ rest).splitAt 4 = (_, rest) :=
    splitAt_append (e.length_fieldBytes _)
  have htags (rest : Bytes) : (e.fieldBytes .tagsCode ++ rest).splitAt 8 = (_, rest) :=
    splitAt_append (e.length_fieldBytes _)
  have htime (rest : Bytes) : (e.fieldBytes .storeTimestamp ++ rest).splitAt 8 = (_, rest) :=
    splitAt_append (e.length_fieldBytes _)
  unfold decode
  rw [checkSize_of_length e.length_encode]
  unfold encode
  simp only [List.append_assoc, hpos, hsize, htags, htime, bind, Except.bind]
  simp only [fieldBytes, bits, EntryField.width, ofNat_bigEndian_word, ofNat_bigEndian_half_word,
    Int64.toInt64_toUInt64]
  rfl

/-! ## Single fields -/

/-- The bytes at the place of a field. -/
def fieldSlice (bytes : Bytes) (field : EntryField) : Bytes :=
  (bytes.drop field.position).take field.width

/-- Taking fields off the front in order takes each of them from its own place. -/
theorem decode_eq_of_length {bytes : Bytes} (h : bytes.length = size) :
    decode bytes = .ok {
      physicalOffset := UInt64.ofNat (toNat (fieldSlice bytes .physicalOffset))
      messageSize := UInt32.ofNat (toNat (fieldSlice bytes .messageSize))
      tagsCode := (UInt64.ofNat (toNat (fieldSlice bytes .tagsCode))).toInt64
      storeTimestamp := (UInt64.ofNat (toNat (fieldSlice bytes .storeTimestamp))).toInt64
      queueOffset := UInt64.ofNat (toNat (fieldSlice bytes .queueOffset)) } := by
  have hlast : (bytes.drop 28).take 8 = bytes.drop 28 := by
    refine List.take_of_length_le ?_
    rw [List.length_drop, h]
    exact Nat.le_refl 8
  unfold decode
  rw [checkSize_of_length h]
  simp only [bind, Except.bind, List.splitAt_eq, List.drop_drop]
  simp only [fieldSlice, EntryField.position, EntryField.width, hlast]
  rfl

/-- A single field is what the whole entry says, and is refused where the whole entry is. -/
theorem readField_eq (bytes : Bytes) (field : EntryField) :
    readField bytes field = (decode bytes).map (·.bits field) := by
  by_cases h : bytes.length = size
  · have hread : readField bytes field = .ok (UInt64.ofNat (toNat (fieldSlice bytes field))) := by
      unfold readField
      rw [checkSize_of_length h]
      rfl
    rw [hread, decode_eq_of_length h]
    cases field with
    | physicalOffset => rfl
    | messageSize =>
      have hlen : (fieldSlice bytes .messageSize).length = 4 := by
        show ((bytes.drop 8).take 4).length = 4
        rw [List.length_take, List.length_drop, h]
        rfl
      have hlt := toNat_lt_of_length_four hlen
      exact congrArg Except.ok (UInt32.toUInt64_ofNat' hlt).symm
    | tagsCode => exact congrArg Except.ok (UInt64.toUInt64_toInt64 _).symm
    | storeTimestamp => exact congrArg Except.ok (UInt64.toUInt64_toInt64 _).symm
    | queueOffset => rfl
  · rw [decode_of_length_ne h]
    unfold readField checkSize
    rw [if_neg h]
    rfl

end MessageIndex.Entry
