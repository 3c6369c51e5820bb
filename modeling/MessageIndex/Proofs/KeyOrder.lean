import MessageIndex.Proofs.KeyCodec

/-!
# Proofs: the order of keys

Byte order sorts keys by their fields: by the length of the topic, then by its bytes, then by the
queue id, whose bits count as an unsigned number, then by the offset (`Key.compare_bytes`). Lengths
come first, so two topics are compared byte by byte only if one cannot go on where the other ends;
all other fields have a fixed width.
-/

namespace MessageIndex

open Bytes

namespace Key

/-- The order of keys by their fields, the first one that differs decides. -/
def compareFields (k k' : Key) : Ordering :=
  (Ord.compare k.partition.topic.length k'.partition.topic.length).then <|
  (Bytes.compare k.partition.topic k'.partition.topic).then <|
  (Ord.compare k.partition.queueId.toUInt32 k'.partition.queueId.toUInt32).then <|
  Ord.compare k.offset k'.offset

variable {k k' : Key}

/-- Byte order of keys is the order of their fields. -/
theorem compare_bytes (hk : k.partition.Encodable) (hk' : k'.partition.Encodable) :
    Bytes.compare k.bytes k'.bytes = k.compareFields k' := by
  have hlengths := compare_bigEndian hk.lt_capacity hk'.lt_capacity
  have hqueues := compare_bigEndian (toNat_lt_capacity_four k.partition.queueId.toUInt32)
    (toNat_lt_capacity_four k'.partition.queueId.toUInt32)
  have hoffsets := compare_bigEndian (toNat_lt_capacity_eight k.offset)
    (toNat_lt_capacity_eight k'.offset)
  rw [compare_toNat_half_word] at hqueues
  rw [compare_toNat_word] at hoffsets
  rw [bytes_eq, bytes_eq, compare_append (length_bigEndian_eq 4 _ _), compare_cons_self, hlengths]
  unfold compareFields
  by_cases hlen : k.partition.topic.length = k'.partition.topic.length
  · rw [compare_append hlen, compare_cons_self, compare_append (length_bigEndian_eq 4 _ _),
      compare_cons_self, hqueues, hoffsets]
  · -- The lengths differ and decide: what follows them need not be cut into fields.
    cases hcmp : Ord.compare k.partition.topic.length k'.partition.topic.length with
    | lt => rfl
    | gt => rfl
    | eq => exact absurd (Nat.compare_eq_eq.mp hcmp) hlen

/-- No key begins with another one. -/
theorem bytes_eq_of_isPrefix (hk : k.partition.Encodable) (hk' : k'.partition.Encodable)
    (h : k.bytes <+: k'.bytes) : k.bytes = k'.bytes := by
  obtain ⟨rest, hrest⟩ := h
  have hheader : k.partition.header ++ (separator :: bigEndian 8 k.offset.toNat ++ rest) =
      k'.partition.header ++ separator :: bigEndian 8 k'.offset.toNat := by
    rw [← List.append_assoc]
    exact hrest
  obtain ⟨hp, -⟩ := Partition.header_append_inj hk hk' hheader
  have hlen : k.bytes.length = k'.bytes.length := by
    rw [length_bytes, length_bytes, hp]
  exact List.IsPrefix.eq_of_length ⟨rest, hrest⟩ hlen

/-- Byte order of encoded keys, a proper prefix first, is the order of what they encode: of the
topics' lengths, of the topics, of the queue ids as unsigned numbers, of the offsets. So equal bytes
mean equal keys, none begins with another one, and within a partition offsets decide alone. -/
theorem encode_order (hk : k.partition.Encodable) (hk' : k'.partition.Encodable) :
    ∃ a b, k.encode = .ok a ∧ k'.encode = .ok b ∧ Bytes.compare a b = k.compareFields k' ∧
      (a = b ↔ k = k') ∧ (a <+: b → a = b) ∧
      (k.partition = k'.partition → Bytes.compare a b = Ord.compare k.offset k'.offset) := by
  refine ⟨k.bytes, k'.bytes, encode_of_encodable hk, encode_of_encodable hk', compare_bytes hk hk',
    ⟨bytes_inj hk hk', congrArg bytes⟩, bytes_eq_of_isPrefix hk hk', fun hp => ?_⟩
  obtain ⟨p, o⟩ := k
  obtain ⟨p', o'⟩ := k'
  obtain rfl : p = p' := hp
  exact compare_bytes_offset p o o'

/-- A negative queue id comes after every other one, whatever the offsets. -/
theorem encode_order_negative_queue :
    let k : Key := ⟨⟨[116], 2147483647⟩, 18446744073709551615⟩
    let k' : Key := ⟨⟨[116], -1⟩, 0⟩
    k.partition.Encodable ∧ k'.partition.Encodable ∧
      ∃ a b, k.encode = .ok a ∧ k'.encode = .ok b ∧ Bytes.compare a b = .lt := by
  intro k k'
  have hk : k.partition.Encodable := by decide
  have hk' : k'.partition.Encodable := by decide
  have hfields : k.compareFields k' = .lt := by decide
  obtain ⟨a, b, ha, hb, horder, -⟩ := encode_order hk hk'
  exact ⟨hk, hk', a, b, ha, hb, horder.trans hfields⟩

end Key

end MessageIndex
