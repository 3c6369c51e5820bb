import MessageIndex.Proofs.PartitionRange

/-!
# Proofs: what is read as a key

Reading accepts the bytes that writing produces and no others, and it never asks for a byte that is
not there. Both rest on one cut: bytes that pass the two checks of their length can be cut into the
fields of a key (`exists_cut`), and these spell the bytes again if separators stand between them
(`Cut.bytes_key`). To say what is asked for, `readFields` reads the same fields with every step
counted.
-/

namespace MessageIndex

open Bytes

/-! ## Reading with every step counted -/

/-- Why a reader that counts what is left stops. -/
inductive ReadFailure where
  /-- It asked for more bytes than were left. -/
  | pastEnd
  /-- It refused what it had read. -/
  | refused (cause : IndexError)

namespace Bytes

/-- The first `count` bytes and what is behind them, if so many are left. -/
def read (bytes : Bytes) (count : Nat) : Except ReadFailure (Bytes × Bytes) :=
  if count ≤ bytes.length then .ok (bytes.splitAt count) else .error .pastEnd

theorem exists_front (bytes : Bytes) (count : Nat) (h : count ≤ bytes.length) :
    ∃ front rest, front.length = count ∧ bytes = front ++ rest :=
  ⟨bytes.take count, bytes.drop count, List.length_take_of_le h, (List.take_append_drop _ _).symm⟩

theorem read_of_le {bytes : Bytes} {count : Nat} (h : count ≤ bytes.length) :
    bytes.read count = .ok (bytes.take count, bytes.drop count) := by
  unfold read
  rw [if_pos h, List.splitAt_eq]

theorem read_append {front rest : Bytes} {count : Nat} (h : front.length = count) :
    (front ++ rest).read count = .ok (front, rest) := by
  have hle : count ≤ (front ++ rest).length := by
    rw [List.length_append, h]
    exact Nat.le_add_right count _
  rw [read_of_le hle, List.take_left' h, List.drop_left' h]

end Bytes

namespace Key

/-- Takes the separator in front of a field. -/
def readSeparator (before : KeyField) : Bytes → Except ReadFailure Bytes
  | [] => .error .pastEnd
  | byte :: rest =>
    if byte = separator then .ok rest
    else .error (.refused (.invalidKey (.missingSeparator before byte)))

/-- Reads a key field by field, each with the bytes it asks for. -/
def readFields (bytes : Bytes) : Except ReadFailure Key := do
  if bytes.length < fixedSize then
    throw (.refused (.invalidKey (.tooShort bytes.length)))
  let (front, rest) ← bytes.read 4
  if bytes.length ≠ size (toNat front) then
    throw (.refused (.invalidKey (.lengthMismatch bytes.length (toNat front))))
  let rest ← readSeparator .topic rest
  let (topic, rest) ← rest.read (toNat front)
  let rest ← readSeparator .queueId rest
  let (queueId, rest) ← rest.read 4
  let rest ← readSeparator .queueOffset rest
  let (offset, _) ← rest.read 8
  return {
    partition := { topic, queueId := (UInt32.ofNat (toNat queueId)).toInt32 }
    offset := UInt64.ofNat (toNat offset) }

namespace Cut

/-- Reading field by field makes the same of them, and there are bytes for every step. -/
theorem readFields_bytes (c : Cut) : readFields c.bytes = c.outcome.mapError .refused := by
  have hfront : c.bytes.read 4 = _ := read_append c.length_front
  have hlen : ¬ c.bytes.length ≠ size (toNat c.front) := fun h => h c.length_bytes
  have hoffset : (c.offset ++ []).read 8 = .ok (c.offset, []) := read_append c.length_offset
  rw [List.append_nil] at hoffset
  unfold readFields outcome
  rw [if_neg c.not_length_lt, hfront]
  simp only [bind, Except.bind]
  rw [if_neg hlen]
  simp only [readSeparator]
  by_cases htopic : c.beforeTopic = separator
  · rw [if_pos htopic, if_pos htopic]
    simp only [pure, Except.pure]
    rw [read_append c.length_topic]
    simp only
    by_cases hqueueId : c.beforeQueueId = separator
    · rw [if_pos hqueueId, if_pos hqueueId]
      simp only
      rw [read_append c.length_queueId]
      simp only
      by_cases hlast : c.beforeOffset = separator
      · rw [if_pos hlast, if_pos hlast]
        simp only
        rw [hoffset]
        rfl
      · rw [if_neg hlast, if_neg hlast]
        rfl
    · rw [if_neg hqueueId, if_neg hqueueId]
      rfl
  · rw [if_neg htopic, if_neg htopic]
    rfl

/-- The topic fits a key, since its length was read off a length field. -/
theorem encodable_key (c : Cut) : c.key.partition.Encodable := by
  show c.topic.length < UInt32.size
  rw [c.length_topic]
  exact toNat_lt_of_length_four c.length_front

/-- With separators between the fields, the bytes are those of the key. -/
theorem bytes_key (c : Cut) (htopic : c.beforeTopic = separator)
    (hqueueId : c.beforeQueueId = separator) (hoffset : c.beforeOffset = separator) :
    c.key.bytes = c.bytes := by
  have hfront : bigEndian 4 c.topic.length = c.front := by
    rw [c.length_topic, ← c.length_front, bigEndian_toNat]
  have hid : bigEndian 4 c.key.partition.queueId.toUInt32.toNat = c.queueId := by
    show bigEndian 4 (UInt32.ofNat (toNat c.queueId)).toInt32.toUInt32.toNat = c.queueId
    rw [UInt32.toUInt32_toInt32, UInt32.toNat_ofNat_of_lt' (toNat_lt_of_length_four c.length_queueId),
      ← c.length_queueId, bigEndian_toNat]
  have hlast : bigEndian 8 c.key.offset.toNat = c.offset := by
    show bigEndian 8 (UInt64.ofNat (toNat c.offset)).toNat = c.offset
    rw [UInt64.toNat_ofNat_of_lt' (toNat_lt_of_length_eight c.length_offset), ← c.length_offset,
      bigEndian_toNat]
  rw [bytes_eq, hid, hlast]
  unfold bytes
  rw [htopic, hqueueId, hoffset]
  show bigEndian 4 c.topic.length ++ _ = _
  rw [hfront]
  rfl

/-- Either one of the three bytes is complained about, or the bytes are those of the key. -/
theorem outcome_cases (c : Cut) :
    (∃ defect, c.outcome = .error (.invalidKey defect)) ∨ c.key.bytes = c.bytes := by
  unfold outcome
  by_cases htopic : c.beforeTopic = separator
  · by_cases hqueueId : c.beforeQueueId = separator
    · by_cases hoffset : c.beforeOffset = separator
      · exact .inr (c.bytes_key htopic hqueueId hoffset)
      · rw [if_pos htopic, if_pos hqueueId, if_neg hoffset]
        exact .inl ⟨_, rfl⟩
    · rw [if_pos htopic, if_neg hqueueId]
      exact .inl ⟨_, rfl⟩
  · rw [if_neg htopic]
    exact .inl ⟨_, rfl⟩

end Cut

/-- Bytes as long as their first four say can be cut into fields. -/
theorem exists_cut {bytes : Bytes} (hlen : bytes.length = size (toNat (bytes.take 4))) :
    ∃ c : Cut, c.bytes = bytes := by
  unfold size fixedSize at hlen
  obtain ⟨front, rest, hfront, rfl⟩ := exists_front bytes 4 (by omega)
  rw [List.take_left' hfront, List.length_append, hfront] at hlen
  obtain ⟨beforeTopic, rest, rfl⟩ := List.exists_cons_of_length_pos (l := rest) (by omega)
  rw [List.length_cons] at hlen
  obtain ⟨topic, rest, htopic, rfl⟩ := exists_front rest (toNat front) (by omega)
  rw [List.length_append, htopic] at hlen
  obtain ⟨beforeQueueId, rest, rfl⟩ := List.exists_cons_of_length_pos (l := rest) (by omega)
  rw [List.length_cons] at hlen
  obtain ⟨queueId, rest, hqueueId, rfl⟩ := exists_front rest 4 (by omega)
  rw [List.length_append, hqueueId] at hlen
  obtain ⟨beforeOffset, offset, rfl⟩ := List.exists_cons_of_length_pos (l := rest) (by omega)
  rw [List.length_cons] at hlen
  exact ⟨⟨front, beforeTopic, topic, beforeQueueId, queueId, beforeOffset, offset, hfront, htopic,
    hqueueId, by omega⟩, rfl⟩

/-- Reading stops at a length that does not fit, at once or field by field, unless the bytes can be
cut into fields. -/
theorem decode_or_cut (bytes : Bytes) :
    (∃ defect, decode bytes = .error (.invalidKey defect) ∧
      readFields bytes = .error (.refused (.invalidKey defect))) ∨ ∃ c : Cut, c.bytes = bytes := by
  by_cases hshort : bytes.length < fixedSize
  · refine .inl ⟨.tooShort bytes.length, ?_, ?_⟩
    · rw [decode_eq, if_pos hshort]
    · unfold readFields
      rw [if_pos hshort]
      rfl
  · by_cases hlen : bytes.length = size (toNat (bytes.take 4))
    · exact .inr (exists_cut hlen)
    · have hfour : 4 ≤ bytes.length := by
        unfold fixedSize at hshort
        omega
      refine .inl ⟨.lengthMismatch bytes.length (toNat (bytes.take 4)), ?_, ?_⟩
      · rw [decode_eq, if_neg hshort, if_pos hlen]
      · unfold readFields
        rw [if_neg hshort, read_of_le hfour]
        simp only [bind, Except.bind]
        rw [if_pos hlen]
        rfl

/-- Field by field, a key is read as it is read at once: no step asks for more than is left. -/
theorem readFields_eq (bytes : Bytes) : readFields bytes = (decode bytes).mapError .refused := by
  rcases decode_or_cut bytes with ⟨defect, hdec, hread⟩ | ⟨c, rfl⟩
  · rw [hdec, hread]
    rfl
  · rw [c.decode_bytes, c.readFields_bytes]

/-- Bytes that are not refused are those of a key. -/
theorem decode_or_bytes (bytes : Bytes) :
    (∃ defect, decode bytes = .error (.invalidKey defect)) ∨
      ∃ k : Key, k.partition.Encodable ∧ k.bytes = bytes := by
  rcases decode_or_cut bytes with ⟨defect, hdec, -⟩ | ⟨c, rfl⟩
  · exact .inl ⟨defect, hdec⟩
  · rcases c.outcome_cases with ⟨defect, hout⟩ | hbytes
    · exact .inl ⟨defect, c.decode_bytes.trans hout⟩
    · exact .inr ⟨c.key, c.encodable_key, hbytes⟩

/-- Exactly the bytes that a key is encoded to are read as that key. -/
theorem decode_eq_ok_iff {bytes : Bytes} {k : Key} :
    decode bytes = .ok k ↔ k.partition.Encodable ∧ k.encode = .ok bytes := by
  constructor
  · intro h
    rcases decode_or_bytes bytes with ⟨defect, hdec⟩ | ⟨k', hk', rfl⟩
    · rw [hdec] at h
      cases h
    · rw [Key.decode_bytes hk'] at h
      obtain rfl := Except.ok.inj h
      exact ⟨hk', encode_of_encodable hk'⟩
  · rintro ⟨hk, h⟩
    obtain ⟨-, rfl⟩ := encode_eq_ok_iff.mp h
    exact Key.decode_bytes hk

/-- Bytes that no key is encoded to are refused. -/
theorem exists_defect {bytes : Bytes} (h : ∀ k : Key, k.encode ≠ .ok bytes) :
    ∃ defect, decode bytes = .error (.invalidKey defect) := by
  rcases decode_or_bytes bytes with hdefect | ⟨k, hk, rfl⟩
  · exact hdefect
  · exact absurd (encode_of_encodable hk) (h k)

/-- No key is encoded to what a bound is encoded to: behind the same header, it goes on for longer. -/
theorem encode_ne_of_bound {p : Partition} {b : Bound} {bytes : Bytes} (h : b.encode p = .ok bytes)
    (k : Key) : k.encode ≠ .ok bytes := by
  intro hkey
  obtain ⟨hp, rfl⟩ := Bound.encode_eq_ok_iff.mp h
  obtain ⟨hk, hbytes⟩ := encode_eq_ok_iff.mp hkey
  obtain ⟨-, htail⟩ := Partition.header_append_inj hp hk hbytes
  have hlen := congrArg List.length htail
  rw [List.length_singleton, List.length_cons, length_bigEndian] at hlen
  exact absurd hlen (by decide)

/-- Reading accepts exactly what encoding produces, whatever the bytes are, and refuses all else as no
key; read field by field, with every step counted, the outcome is the same, so that none asks for
bytes that are not there. In particular the bounds of a partition are refused. -/
theorem decode_accepts_encoded (bytes : Bytes) :
    (∀ k : Key, decode bytes = .ok k ↔ k.partition.Encodable ∧ k.encode = .ok bytes) ∧
    ((∀ k : Key, k.encode ≠ .ok bytes) → ∃ defect, decode bytes = .error (.invalidKey defect)) ∧
    readFields bytes = (decode bytes).mapError .refused ∧
    ∀ (p : Partition) (b : Bound), b.encode p = .ok bytes →
      ∃ defect, decode bytes = .error (.invalidKey defect) :=
  ⟨fun _ => decode_eq_ok_iff, exists_defect, readFields_eq bytes,
    fun _ _ h => exists_defect (encode_ne_of_bound h)⟩

/-- A bound that is longer than the shortest keys, and the key whose offset it leaves out. -/
theorem decode_accepts_encoded_long_topic :
    let p : Partition := ⟨[1, 1, 1, 1, 1, 1, 1, 1], -1⟩
    Bound.stop.encode p = .ok (p.header ++ [2]) ∧
      (∃ defect, decode (p.header ++ [2]) = .error (.invalidKey defect)) ∧
      decode (p.header ++ [1, 0, 0, 0, 0, 0, 0, 0, 9]) = .ok ⟨p, 9⟩ := by
  intro p
  have hp : p.Encodable := by decide
  have hbound : Bound.stop.encode p = .ok (p.header ++ [2]) := Bound.encode_of_encodable hp _
  have hbytes : p.header ++ [1, 0, 0, 0, 0, 0, 0, 0, 9] = Key.bytes ⟨p, 9⟩ := by decide
  have hkey : Key.encode ⟨p, 9⟩ = .ok (p.header ++ [1, 0, 0, 0, 0, 0, 0, 0, 9]) :=
    encode_eq_ok_iff.mpr ⟨hp, hbytes⟩
  obtain ⟨-, -, -, hrefused⟩ := decode_accepts_encoded (p.header ++ [2])
  obtain ⟨haccepted, -⟩ := decode_accepts_encoded (p.header ++ [1, 0, 0, 0, 0, 0, 0, 0, 9])
  exact ⟨hbound, hrefused p .stop hbound, (haccepted ⟨p, 9⟩).mpr ⟨hp, hkey⟩⟩

end Key

end MessageIndex
