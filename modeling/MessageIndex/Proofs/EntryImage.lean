import MessageIndex.Proofs.ReusedBuffers

/-!
# Proofs: what is read as an entry

The layout of an entry is described three times: by the order in which the fields are written, by the
order in which they are read, and by the place and width of each field. All three agree: reading accepts
every byte string of the right length, writing the entry gives the same bytes again (`encode_of_decode`),
and a single field is the field of the whole entry.
-/

namespace MessageIndex

open Bytes

/-! ## Writing in order -/

namespace Bytes

/-- Writes byte strings one behind the other over what a buffer holds, from its front on. -/
def fill (buffer : Bytes) : List Bytes → Bytes
  | [] => buffer
  | bytes :: rest => bytes ++ fill (buffer.drop bytes.length) rest

theorem fill_eq (buffer : Bytes) (parts : List Bytes) :
    buffer.fill parts = parts.flatten ++ buffer.drop parts.flatten.length := by
  induction parts generalizing buffer with
  | nil => rfl
  | cons bytes parts ih =>
    rw [fill, ih, List.drop_drop, List.flatten_cons, List.length_append, List.append_assoc]

end Bytes

namespace Entry

/-- The fields of an entry in the order in which they are written, each in the width of its type. -/
def parts (e : Entry) : List Bytes :=
  [bigEndian 8 e.physicalOffset.toNat, bigEndian 4 e.messageSize.toNat,
    bigEndian 8 e.tagsCode.toUInt64.toNat, bigEndian 8 e.storeTimestamp.toUInt64.toNat,
    bigEndian 8 e.queueOffset.toNat]

theorem flatten_parts (e : Entry) : e.parts.flatten = e.encode := by
  have hsize : e.messageSize.toUInt64.toNat = e.messageSize.toNat := UInt32.toNat_toUInt64 _
  unfold encode fieldBytes bits parts
  simp only [List.flatten_cons, List.flatten_nil, List.append_nil, List.append_assoc, hsize,
    EntryField.width]

/-- Written in order, the fields end with the buffer, so nothing of its earlier contents is left. -/
theorem fill_parts {buffer : Bytes} (h : buffer.length = size) (e : Entry) :
    buffer.fill e.parts = e.encode := by
  have hrest : buffer.drop e.encode.length = [] := by
    rw [length_encode, ← h, List.drop_length]
  rw [fill_eq, flatten_parts, hrest, List.append_nil]

/-! ## Writing what was read -/

theorem take_field (bytes : Bytes) (field : EntryField) :
    bytes.take (field.position + field.width) = bytes.take field.position ++ fieldSlice bytes field :=
  List.take_add

theorem length_fieldSlice {bytes : Bytes} (h : bytes.length = size) (field : EntryField) :
    (fieldSlice bytes field).length = field.width := by
  unfold fieldSlice
  rw [List.length_take, List.length_drop, h]
  cases field <;> rfl

/-- A field that was read is written back as it was. -/
theorem fieldBytes_of_decode {bytes : Bytes} {e : Entry} (h : decode bytes = .ok e)
    (hlen : bytes.length = size) (field : EntryField) : e.fieldBytes field = fieldSlice bytes field := by
  have hslice := length_fieldSlice hlen field
  have hbits : e.bits field = UInt64.ofNat (toNat (fieldSlice bytes field)) := by
    have hread := readField_eq bytes field
    unfold readField at hread
    rw [checkSize_of_length hlen, h] at hread
    exact (Except.ok.inj hread).symm
  have hfits : toNat (fieldSlice bytes field) < UInt64.size := by
    have hlt := toNat_lt (fieldSlice bytes field)
    rw [hslice] at hlt
    refine Nat.lt_of_lt_of_le hlt ?_
    cases field <;> decide
  unfold fieldBytes
  rw [hbits, UInt64.toNat_ofNat_of_lt' hfits, ← hslice, bigEndian_toNat]

/-- Bytes that were read as an entry are the bytes of that entry. -/
theorem encode_of_decode {bytes : Bytes} {e : Entry} (h : decode bytes = .ok e) : e.encode = bytes := by
  have hlen : bytes.length = size := by
    refine Decidable.byContradiction fun hne => ?_
    rw [decode_of_length_ne hne] at h
    cases h
  have hfield := fieldBytes_of_decode h hlen
  -- `take_field` five times: each slice begins where the front before it ends.
  have front1 : bytes.take 8 = fieldSlice bytes .physicalOffset := take_field bytes .physicalOffset
  have front2 : bytes.take 12 = bytes.take 8 ++ _ := take_field bytes .messageSize
  have front3 : bytes.take 20 = bytes.take 12 ++ _ := take_field bytes .tagsCode
  have front4 : bytes.take 28 = bytes.take 20 ++ _ := take_field bytes .storeTimestamp
  have front5 : bytes.take 36 = bytes.take 28 ++ _ := take_field bytes .queueOffset
  unfold encode
  rw [hfield, hfield, hfield, hfield, hfield, ← front1, ← front2, ← front3, ← front4, ← front5]
  exact List.take_of_length_le (Nat.le_of_eq hlen)

/-- Exactly the bytes that an entry is written as are read as that entry. -/
theorem decode_eq_ok_iff {bytes : Bytes} {e : Entry} : decode bytes = .ok e ↔ e.encode = bytes := by
  constructor
  · exact encode_of_decode
  · rintro rfl
    exact decode_encode e

/-! ## Fields as numbers -/

/-- A field as the number it stands for. -/
def value (e : Entry) : EntryField → Int
  | .physicalOffset => e.physicalOffset.toNat
  | .messageSize => e.messageSize.toNat
  | .tagsCode => e.tagsCode.toInt
  | .storeTimestamp => e.storeTimestamp.toInt
  | .queueOffset => e.queueOffset.toNat

theorem toNat_toUInt64_eq_emod (x : Int64) : (x.toUInt64.toNat : Int) = x.toInt % UInt64.size := by
  have hlt := x.toUInt64.toNat_lt
  have hbits : (x.toUInt64.toNat : Int) % UInt64.size = x.toUInt64.toNat :=
    Int.emod_eq_of_lt (Int.natCast_nonneg _) (Int.ofNat_lt.mpr hlt)
  have hint : x.toInt = Int.bmod x.toUInt64.toNat UInt64.size := x.toBitVec.toInt_eq_toNat_bmod
  rw [hint, ← hbits, Int.emod_bmod]
  exact Int.bmod_emod.symm

/-- The bits of a field are its number in two's complement. -/
theorem toNat_bits (e : Entry) (field : EntryField) :
    ((e.bits field).toNat : Int) = e.value field % UInt64.size := by
  have hword (x : UInt64) : (x.toNat : Int) = x.toNat % UInt64.size :=
    (Int.emod_eq_of_lt (Int.natCast_nonneg _) (Int.ofNat_lt.mpr x.toNat_lt)).symm
  cases field with
  | physicalOffset => exact hword e.physicalOffset
  | messageSize =>
    have hsize : e.messageSize.toUInt64.toNat = e.messageSize.toNat := UInt32.toNat_toUInt64 _
    rw [value, ← hsize]
    exact hword e.messageSize.toUInt64
  | tagsCode => exact toNat_toUInt64_eq_emod e.tagsCode
  | storeTimestamp => exact toNat_toUInt64_eq_emod e.storeTimestamp
  | queueOffset => exact hword e.queueOffset

/-- Entries and byte strings of thirty-six bytes correspond one to one: an entry is read back from what
it is written as, in whichever way it is written; bytes of that length are read as the one entry that is
written as them, and all others are refused with their length. On any bytes, a single field is refused
as the whole entry is, and is otherwise the bits of the entry's field. -/
theorem codec_bijective :
    (∀ e : Entry, decode e.encode = .ok e ∧
      ∀ buffer : Bytes, buffer.length = 36 →
        buffer.fill e.parts = e.encode ∧ encodeInto buffer e = e.encode) ∧
    ∀ bytes : Bytes,
      ((∃ e, decode bytes = .ok e) ↔ bytes.length = 36) ∧
      (∀ e, decode bytes = .ok e ↔ e.encode = bytes) ∧
      (bytes.length ≠ 36 → decode bytes = .error (.malformedEntry bytes.length)) ∧
      ∀ field,
        (∀ cause, readField bytes field = .error cause ↔ decode bytes = .error cause) ∧
        ∀ e, decode bytes = .ok e →
          ∃ bits, readField bytes field = .ok bits ∧ (bits.toNat : Int) = e.value field % UInt64.size := by
  constructor
  · intro e
    refine ⟨decode_encode e, fun buffer hlen => ⟨fill_parts hlen e, encodeInto_eq_encode hlen e⟩⟩
  · intro bytes
    refine ⟨⟨?_, decode_of_length⟩, fun e => decode_eq_ok_iff, decode_of_length_ne, fun field => ⟨?_, ?_⟩⟩
    · rintro ⟨e, h⟩
      rw [← encode_of_decode h, length_encode]
      rfl
    · intro cause
      rw [readField_eq]
      cases decode bytes with
      | error cause' => rw [Except.map, Except.error.injEq, Except.error.injEq]
      | ok e => exact iff_of_false (fun h => nomatch h) (fun h => nomatch h)
    · intro e h
      refine ⟨e.bits field, ?_, e.toNat_bits field⟩
      rw [readField_eq, h]
      rfl

end Entry

end MessageIndex
