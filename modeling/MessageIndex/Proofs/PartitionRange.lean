import MessageIndex.Proofs.KeyCodec

/-!
# Proofs: the key range of a partition

The two bounds of a partition bracket that partition and no other one. Among all byte strings they
enclose the continuations of its header by a byte below or at the separator, and the key of another
partition does not begin with that header, whatever bytes its topic is made of.
-/

namespace MessageIndex

open Bytes

namespace Bound

theorem encode_of_encodable {p : Partition} (hp : p.Encodable) (b : Bound) :
    b.encode p = .ok (b.bytes p) := by
  unfold encode
  rw [Partition.checkTopic_of_encodable hp]
  rfl

theorem encode_of_not_encodable {p : Partition} (hp : ¬ p.Encodable) (b : Bound) :
    b.encode p = .error (.topicTooLong p.topic.length) := by
  unfold encode
  rw [Partition.checkTopic_of_not_encodable hp]
  rfl

theorem encode_eq_ok_iff {p : Partition} {b : Bound} {bytes : Bytes} :
    b.encode p = .ok bytes ↔ p.Encodable ∧ bytes = b.bytes p :=
  Partition.eq_ok_iff_encodable (fun hp => encode_of_encodable hp b)
    fun hp => encode_of_not_encodable hp b

/-- The bytes below the high sentinel are the low one and the separator. -/
theorem between_sentinels_iff {b : UInt8} :
    start.sentinel ≤ b ∧ b < stop.sentinel ↔ b = 0 ∨ b = 1 := by
  have hzero : b = 0 ↔ b.toNat = 0 := UInt8.toNat_inj.symm
  have hone : b = 1 ↔ b.toNat = 1 := UInt8.toNat_inj.symm
  rw [hzero, hone, UInt8.le_iff_toNat_le, UInt8.lt_iff_toNat_lt]
  show 0 ≤ b.toNat ∧ b.toNat < 2 ↔ _
  omega

/-- What lies between the bounds of a partition goes on behind its header with a byte below or at
the separator. -/
theorem inRange_iff {p : Partition} {k : Bytes} :
    InRange (start.bytes p) (stop.bytes p) k ↔
      ∃ b rest, (b = 0 ∨ b = 1) ∧ k = p.header ++ b :: rest := by
  unfold bytes
  rw [inRange_append_singleton]
  constructor
  · rintro ⟨b, rest, hk, hb⟩
    exact ⟨b, rest, between_sentinels_iff.mp hb, hk⟩
  · rintro ⟨b, rest, hb, hk⟩
    exact ⟨b, rest, hk, between_sentinels_iff.mpr hb⟩

/-- A key lies between the bounds of its own partition only. -/
theorem inRange_key_iff {p : Partition} (hp : p.Encodable) {k : Key} (hk : k.partition.Encodable) :
    InRange (start.bytes p) (stop.bytes p) k.bytes ↔ k.partition = p := by
  rw [inRange_iff]
  constructor
  · rintro ⟨b, rest, -, h⟩
    exact (Partition.header_append_inj hk hp h).1
  · rintro rfl
    exact ⟨separator, bigEndian 8 k.offset.toNat, Or.inr rfl, rfl⟩

end Bound

/-- The bounds of a partition enclose, among all byte strings, exactly those that continue the
partition's length, topic and queue id with a byte `0` or `1`. So they enclose the key of any offset
of any partition if and only if it is the partition bracketed. -/
theorem partition_bounds_bracket {p : Partition} (hp : p.Encodable) :
    ∃ low high, Bound.start.encode p = .ok low ∧ Bound.stop.encode p = .ok high ∧
      (∀ k, InRange low high k ↔ ∃ b rest, (b = 0 ∨ b = 1) ∧
        k = bigEndian 4 p.topic.length ++ 1 :: p.topic ++ 1 :: bigEndian 4 p.queueId.toUInt32.toNat ++
          b :: rest) ∧
      ∀ p' : Partition, p'.Encodable → ∀ offset, ∃ k, Key.encode ⟨p', offset⟩ = .ok k ∧
        (InRange low high k ↔ p' = p) := by
  refine ⟨Bound.start.bytes p, Bound.stop.bytes p, Bound.encode_of_encodable hp _,
    Bound.encode_of_encodable hp _, fun k => Bound.inRange_iff, fun p' hp' offset => ?_⟩
  exact ⟨Key.bytes ⟨p', offset⟩, Key.encode_of_encodable hp', Bound.inRange_key_iff hp hp'⟩

/-- A topic made of sentinel and separator bytes, and a negative queue id. -/
theorem partition_bounds_bracket_sentinel_topic :
    Partition.Encodable ⟨[0, 1, 2], -1⟩ ∧
      ∃ low high, Bound.start.encode ⟨[0, 1, 2], -1⟩ = .ok low ∧
        Bound.stop.encode ⟨[0, 1, 2], -1⟩ = .ok high ∧
        (∀ k, InRange low high k ↔ ∃ b rest, (b = 0 ∨ b = 1) ∧
          k = [0, 0, 0, 3, 1, 0, 1, 2, 1, 255, 255, 255, 255] ++ b :: rest) ∧
        ∃ k, Key.encode ⟨⟨[0, 1], -1⟩, 7⟩ = .ok k ∧ ¬ InRange low high k := by
  have hp : Partition.Encodable ⟨[0, 1, 2], -1⟩ := by decide
  obtain ⟨low, high, hlow, hhigh, hbytes, hkeys⟩ := partition_bounds_bracket hp
  obtain ⟨k, hk, hrange⟩ := hkeys ⟨[0, 1], -1⟩ (by decide) 7
  exact ⟨hp, low, high, hlow, hhigh, hbytes, k, hk, fun h => absurd (hrange.mp h) (by decide)⟩

end MessageIndex
