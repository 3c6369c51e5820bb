import MessageIndex.Key
import MessageIndex.Proofs.ByteOrder

/-!
# Proofs: keys and headers as codes

The header of a partition can be read off anything that begins with it, because the length in front
says where the topic ends (`header_append_inj`). So different keys have different bytes. Reading is
followed on bytes that are cut into the fields of a key (`Cut.decode_bytes`); a key that was written is
cut at its own fields, so it is read back (`decode_bytes`).
-/

namespace MessageIndex

open Bytes

namespace Partition

theorem Encodable.lt_capacity {p : Partition} (hp : p.Encodable) :
    p.topic.length < capacity 4 := by
  rw [capacity_four]
  exact hp

theorem queueId_inj {q q' : Int32}
    (h : bigEndian 4 q.toUInt32.toNat = bigEndian 4 q'.toUInt32.toNat) : q = q' := by
  have hbits : q.toUInt32 = q'.toUInt32 :=
    UInt32.toNat_inj.mp (bigEndian_inj (toNat_lt_capacity_four _) (toNat_lt_capacity_four _) h)
  rw [← Int32.toInt32_toUInt32 q, hbits, Int32.toInt32_toUInt32]

/-- A header tells its partition and where it ends, whatever follows. -/
theorem header_append_inj {p p' : Partition} (hp : p.Encodable) (hp' : p'.Encodable) {a b : Bytes}
    (h : p.header ++ a = p'.header ++ b) : p = p' ∧ a = b := by
  -- The length fields have the same width, so they agree; then the headers are equally long.
  have hfront : bigEndian 4 p.topic.length = bigEndian 4 p'.topic.length := by
    have h4 := congrArg (List.take 4) h
    simp only [header, List.append_assoc] at h4
    rwa [List.take_left' (length_bigEndian 4 _), List.take_left' (length_bigEndian 4 _)] at h4
  have hlen : p.topic.length = p'.topic.length := bigEndian_inj hp.lt_capacity hp'.lt_capacity hfront
  obtain ⟨hheader, hrest⟩ := List.append_inj h (by rw [length_header, length_header, hlen])
  refine ⟨?_, hrest⟩
  unfold header at hheader
  rw [List.append_assoc, List.append_assoc] at hheader
  have htail := (List.append_inj hheader (by rw [length_bigEndian, length_bigEndian])).2
  obtain ⟨htopic, hid⟩ := List.append_inj (List.cons.inj htail).2 hlen
  have hqueue := queueId_inj (List.cons.inj hid).2
  obtain ⟨topic, queueId⟩ := p
  obtain ⟨topic', queueId'⟩ := p'
  rw [Partition.mk.injEq]
  exact ⟨htopic, hqueue⟩

theorem checkTopic_of_encodable {p : Partition} (hp : p.Encodable) : p.checkTopic = .ok () :=
  if_pos hp

theorem checkTopic_of_not_encodable {p : Partition} (hp : ¬ p.Encodable) :
    p.checkTopic = .error (.topicTooLong p.topic.length) :=
  if_neg hp

/-- What is refused only for a topic that does not fit succeeds on all others. -/
theorem eq_ok_iff_encodable {α : Type} {p : Partition} {outcome : Except IndexError α} {a b : α}
    (hok : p.Encodable → outcome = .ok a)
    (herror : ¬ p.Encodable → outcome = .error (.topicTooLong p.topic.length)) :
    outcome = .ok b ↔ p.Encodable ∧ b = a := by
  by_cases hp : p.Encodable
  · rw [hok hp, Except.ok.injEq]
    exact ⟨fun h => ⟨hp, h.symm⟩, fun h => h.2.symm⟩
  · rw [herror hp]
    exact iff_of_false (fun h => nomatch h) (fun h => hp h.1)

end Partition

namespace Key

theorem encode_of_encodable {k : Key} (hk : k.partition.Encodable) : k.encode = .ok k.bytes := by
  unfold encode
  rw [Partition.checkTopic_of_encodable hk]
  rfl

theorem encode_of_not_encodable {k : Key} (hk : ¬ k.partition.Encodable) :
    k.encode = .error (.topicTooLong k.partition.topic.length) := by
  unfold encode
  rw [Partition.checkTopic_of_not_encodable hk]
  rfl

/-- Encoding succeeds on the topics that fit, with the bytes of the key. -/
theorem encode_eq_ok_iff {k : Key} {bytes : Bytes} :
    k.encode = .ok bytes ↔ k.partition.Encodable ∧ bytes = k.bytes :=
  Partition.eq_ok_iff_encodable encode_of_encodable encode_of_not_encodable

/-- Different keys have different bytes. -/
theorem bytes_inj {k k' : Key} (hk : k.partition.Encodable) (hk' : k'.partition.Encodable)
    (h : k.bytes = k'.bytes) : k = k' := by
  obtain ⟨hp, hrest⟩ := Partition.header_append_inj hk hk' h
  have hoffset : k.offset.toNat = k'.offset.toNat :=
    bigEndian_inj (toNat_lt_capacity_eight _) (toNat_lt_capacity_eight _) (List.cons.inj hrest).2
  obtain ⟨p, o⟩ := k
  obtain ⟨p', o'⟩ := k'
  rw [Key.mk.injEq]
  exact ⟨hp, UInt64.toNat_inj.mp hoffset⟩

/-- Within a partition, byte order is the order of offsets. -/
theorem compare_bytes_offset (p : Partition) (o o' : UInt64) :
    Bytes.compare (bytes ⟨p, o⟩) (bytes ⟨p, o'⟩) = Ord.compare o o' := by
  unfold bytes
  rw [compare_append_left, compare_cons_self,
    compare_bigEndian (toNat_lt_capacity_eight o) (toNat_lt_capacity_eight o'), compare_toNat_word]

theorem before_bytes_iff {p : Partition} {o o' : UInt64} :
    Before (bytes ⟨p, o⟩) (bytes ⟨p, o'⟩) ↔ o < o' := by
  unfold Before
  rw [compare_bytes_offset]
  exact compareOfLessAndEq_eq_lt

/-! ## Reading back -/

theorem dropSeparator_cons (field : KeyField) (rest : Bytes) :
    dropSeparator field (separator :: rest) = .ok rest := if_pos rfl

theorem dropSeparator_cons_of_ne {before : KeyField} {byte : UInt8} {rest : Bytes}
    (h : byte ≠ separator) : dropSeparator before (byte :: rest) =
      .error (.invalidKey (.missingSeparator before byte)) := if_neg h

/-- The bytes of a key, field by field. -/
theorem bytes_eq (k : Key) : k.bytes = bigEndian 4 k.partition.topic.length ++ separator ::
    (k.partition.topic ++ separator :: (bigEndian 4 k.partition.queueId.toUInt32.toNat ++
      separator :: bigEndian 8 k.offset.toNat)) := by
  simp only [bytes, Partition.header, List.append_assoc, List.cons_append]

/-- Reading as a chain of checks: the two lengths first, then the three separators in order. -/
theorem decode_eq (bytes : Bytes) : decode bytes =
    if bytes.length < fixedSize then .error (.invalidKey (.tooShort bytes.length))
    else if bytes.length ≠ size (toNat (bytes.take 4)) then
      .error (.invalidKey (.lengthMismatch bytes.length (toNat (bytes.take 4))))
    else (dropSeparator .topic (bytes.drop 4)).bind fun fromTopic =>
      (dropSeparator .queueId (fromTopic.drop (toNat (bytes.take 4)))).bind fun fromQueueId =>
      (dropSeparator .queueOffset (fromQueueId.drop 4)).map fun fromOffset =>
      ⟨⟨fromTopic.take (toNat (bytes.take 4)), (UInt32.ofNat (toNat (fromQueueId.take 4))).toInt32⟩,
        UInt64.ofNat (toNat fromOffset)⟩ := by
  unfold decode
  by_cases h : bytes.length < fixedSize
  · rw [if_pos h, if_pos h]
    rfl
  · rw [if_neg h, if_neg h]
    by_cases h' : bytes.length ≠ size (toNat (bytes.take 4))
    · rw [if_pos h', if_pos h']
      rfl
    · rw [if_neg h', if_neg h']
      rfl

/-! ## Bytes cut into fields -/

/-- Four fields as wide as those of a key, and a byte in front of each but the first. -/
structure Cut where
  /-- The field that gives the length of the topic. -/
  front : Bytes
  /-- The byte in front of the topic. -/
  beforeTopic : UInt8
  /-- The field that gives the topic. -/
  topic : Bytes
  /-- The byte in front of the queue id. -/
  beforeQueueId : UInt8
  /-- The field that gives the queue id. -/
  queueId : Bytes
  /-- The byte in front of the offset. -/
  beforeOffset : UInt8
  /-- The field that gives the offset. -/
  offset : Bytes
  /-- The length of the topic takes four bytes. -/
  length_front : front.length = 4
  /-- The topic is as long as the first field says. -/
  length_topic : topic.length = toNat front
  /-- The queue id takes four bytes. -/
  length_queueId : queueId.length = 4
  /-- The offset takes eight bytes. -/
  length_offset : offset.length = 8

namespace Cut

/-- The bytes that were cut. -/
def bytes (c : Cut) : Bytes :=
  c.front ++ c.beforeTopic :: (c.topic ++ c.beforeQueueId ::
    (c.queueId ++ c.beforeOffset :: c.offset))

/-- The key with these fields. -/
def key (c : Cut) : Key :=
  ⟨⟨c.topic, (UInt32.ofNat (toNat c.queueId)).toInt32⟩, UInt64.ofNat (toNat c.offset)⟩

/-- What reading makes of the fields: it complains about the first byte that is no separator. -/
def outcome (c : Cut) : Except IndexError Key :=
  if c.beforeTopic = separator then
    if c.beforeQueueId = separator then
      if c.beforeOffset = separator then .ok c.key
      else .error (.invalidKey (.missingSeparator .queueOffset c.beforeOffset))
    else .error (.invalidKey (.missingSeparator .queueId c.beforeQueueId))
  else .error (.invalidKey (.missingSeparator .topic c.beforeTopic))

theorem length_bytes (c : Cut) : c.bytes.length = size (toNat c.front) := by
  unfold bytes size fixedSize
  simp only [List.length_append, List.length_cons, c.length_front, c.length_topic,
    c.length_queueId, c.length_offset]
  omega

theorem not_length_lt (c : Cut) : ¬ c.bytes.length < fixedSize := by
  rw [c.length_bytes]
  exact Nat.not_lt.mpr (Nat.le_add_right _ _)

/-- Reading makes of cut bytes what their fields say. -/
theorem decode_bytes (c : Cut) : decode c.bytes = c.outcome := by
  have htake : c.bytes.take 4 = c.front := List.take_left' c.length_front
  have hdrop : c.bytes.drop 4 = _ := List.drop_left' c.length_front
  have hlen : ¬ c.bytes.length ≠ size (toNat c.front) := fun h => h c.length_bytes
  rw [decode_eq, if_neg c.not_length_lt, htake, if_neg hlen, hdrop]
  unfold outcome
  by_cases htopic : c.beforeTopic = separator
  · rw [htopic, dropSeparator_cons, if_pos rfl]
    simp only [Except.bind]
    rw [List.drop_left' c.length_topic, List.take_left' c.length_topic]
    by_cases hqueueId : c.beforeQueueId = separator
    · rw [hqueueId, dropSeparator_cons, if_pos rfl]
      simp only
      rw [List.drop_left' c.length_queueId, List.take_left' c.length_queueId]
      by_cases hoffset : c.beforeOffset = separator
      · rw [hoffset, dropSeparator_cons, if_pos rfl]
        rfl
      · rw [dropSeparator_cons_of_ne hoffset, if_neg hoffset]
        rfl
    · rw [dropSeparator_cons_of_ne hqueueId, if_neg hqueueId]
  · rw [dropSeparator_cons_of_ne htopic, if_neg htopic]
    rfl

end Cut

/-- The bytes of a key, cut into its fields. -/
def cut (k : Key) (hk : k.partition.Encodable) : Cut where
  front := bigEndian 4 k.partition.topic.length
  beforeTopic := separator
  topic := k.partition.topic
  beforeQueueId := separator
  queueId := bigEndian 4 k.partition.queueId.toUInt32.toNat
  beforeOffset := separator
  offset := bigEndian 8 k.offset.toNat
  length_front := length_bigEndian 4 _
  length_topic := (toNat_bigEndian_of_lt hk.lt_capacity).symm
  length_queueId := length_bigEndian 4 _
  length_offset := length_bigEndian 8 _

theorem key_cut {k : Key} (hk : k.partition.Encodable) : (k.cut hk).key = k := by
  unfold Cut.key cut
  rw [toNat_bigEndian_of_lt (toNat_lt_capacity_four _), UInt32.ofNat_toNat, Int32.toInt32_toUInt32,
    toNat_bigEndian_of_lt (toNat_lt_capacity_eight _), UInt64.ofNat_toNat]

/-- A key that was written is read back. -/
theorem decode_bytes {k : Key} (hk : k.partition.Encodable) : decode k.bytes = .ok k := by
  have hbytes : (k.cut hk).bytes = k.bytes := (bytes_eq k).symm
  have houtcome : (k.cut hk).outcome = .ok (k.cut hk).key := rfl
  rw [← hbytes, Cut.decode_bytes, houtcome, key_cut]

end Key

end MessageIndex
