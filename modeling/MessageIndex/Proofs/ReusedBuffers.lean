import MessageIndex.Staging
import MessageIndex.Proofs.EntryCodec
import MessageIndex.Proofs.KeyCodec

/-!
# Proofs: reused buffers leave no trace

What is staged through reused buffers is what is staged without them, whatever an earlier use left
behind: the key buffer is cleared, and the five fields overwrite the value buffer from end to end.
-/

namespace MessageIndex

open Bytes

namespace Bytes

/-- Up to the end of what was written, a buffer is its old front followed by what was written. -/
theorem take_overwrite {buffer bytes : Bytes} {position : Nat} (h : position ≤ buffer.length) :
    (buffer.overwrite position bytes).take (position + bytes.length) =
      buffer.take position ++ bytes := by
  have hlen : (buffer.take position ++ bytes).length = position + bytes.length := by
    rw [List.length_append, List.length_take, Nat.min_eq_left h]
  unfold overwrite
  exact List.take_left' hlen

end Bytes

namespace Entry

/-- Writing a field behind a finished front extends the front by the field. -/
theorem take_writeField (e : Entry) (field : EntryField) {buffer front : Bytes}
    (hlen : buffer.length = size) (hfield : field.position ≤ size)
    (hfront : buffer.take field.position = front) :
    (e.writeField buffer field).take (field.position + field.width) = front ++ e.fieldBytes field := by
  unfold writeField
  rw [← e.length_fieldBytes field, take_overwrite (hlen ▸ hfield), hfront]

/-- The fields overwrite a buffer from end to end, so nothing is left of its earlier contents. -/
theorem encodeInto_eq_encode {buffer : Bytes} (h : buffer.length = size) (e : Entry) :
    encodeInto buffer e = e.encode := by
  -- `take_writeField` five times: each field begins where the front written so far ends.
  have hpos := length_writeField h e .physicalOffset
  have hsize := length_writeField hpos e .messageSize
  have htags := length_writeField hsize e .tagsCode
  have htime := length_writeField htags e .storeTimestamp
  have front1 := e.take_writeField .physicalOffset h (by decide) rfl
  have front2 := e.take_writeField .messageSize hpos (by decide) front1
  have front3 := e.take_writeField .tagsCode hsize (by decide) front2
  have front4 := e.take_writeField .storeTimestamp htags (by decide) front3
  have front5 := e.take_writeField .queueOffset htime (by decide) front4
  have hfull : (encodeInto buffer e).take size = e.encode := front5
  rw [← hfull, List.take_of_length_le (Nat.le_of_eq (length_encodeInto h e))]

end Entry

namespace Key

/-- The buffer is cleared first, so its earlier contents do not show. -/
theorem encodeInto_of_encodable {k : Key} (hk : k.partition.Encodable) (buffer : Bytes) :
    k.encodeInto buffer = (.ok k.bytes, k.bytes) := by
  have hbytes : buffer.take 0 ++ k.partition.header ++ [separator] ++ bigEndian 8 k.offset.toNat =
      k.bytes := by
    rw [List.take_zero, List.nil_append, List.append_assoc]
    rfl
  unfold encodeInto
  rw [Partition.checkTopic_of_encodable hk]
  show (_, _) = _
  rw [hbytes]

theorem encodeInto_of_not_encodable {k : Key} (hk : ¬ k.partition.Encodable) (buffer : Bytes) :
    k.encodeInto buffer = (.error (.topicTooLong k.partition.topic.length), buffer) := by
  unfold encodeInto
  rw [Partition.checkTopic_of_not_encodable hk]

end Key

namespace Batch

theorem append_of_encodable (b : Batch) {p : Partition} (hp : p.Encodable) (e : Entry) :
    b.append p e = .ok (b.push (.put (Key.bytes ⟨p, e.queueOffset⟩) e.encode)) := by
  have hkey : Key.encode ⟨p, e.queueOffset⟩ = .ok _ := Key.encode_of_encodable hp
  unfold append
  rw [hkey]
  rfl

theorem append_of_not_encodable (b : Batch) {p : Partition} (hp : ¬ p.Encodable) (e : Entry) :
    b.append p e = .error (.topicTooLong p.topic.length) := by
  have hkey : Key.encode ⟨p, e.queueOffset⟩ = .error _ := Key.encode_of_not_encodable hp
  unfold append
  rw [hkey]
  rfl

/-- Entries of topics that fit are all staged, in order. -/
theorem foldlM_append_of_encodable {α : Type} (p : α → Partition) (e : α → Entry) (b : Batch)
    {items : List α} (h : ∀ a ∈ items, (p a).Encodable) :
    items.foldlM (fun b a => b.append (p a) (e a)) b =
      .ok ⟨b.ops ++ items.map fun a => .put (Key.bytes ⟨p a, (e a).queueOffset⟩) (e a).encode⟩ := by
  induction items generalizing b with
  | nil =>
    rw [List.map_nil, List.append_nil]
    rfl
  | cons a items ih =>
    obtain ⟨ha, hrest⟩ := List.forall_mem_cons.mp h
    rw [List.foldlM_cons, append_of_encodable b ha]
    show items.foldlM _ (b.push _) = _
    rw [ih _ hrest, push, List.append_assoc]
    rfl

/-- Through reused buffers, the same write is staged as without them. -/
theorem appendScratch_eq_append (b : Batch) (s : Scratch) (p : Partition) (e : Entry) :
    (b.appendScratch s p e).1 = b.append p e := by
  unfold appendScratch Scratch.stage
  by_cases hp : p.Encodable
  · have hkey : Key.encodeInto s.key ⟨p, e.queueOffset⟩ = _ := Key.encodeInto_of_encodable hp s.key
    rw [hkey, append_of_encodable b hp]
    show Except.ok (b.push (.put _ (Entry.encodeInto s.value e))) = _
    rw [Entry.encodeInto_eq_encode s.length_value]
  · have hkey : Key.encodeInto s.key ⟨p, e.queueOffset⟩ = _ :=
      Key.encodeInto_of_not_encodable hp s.key
    rw [hkey, append_of_not_encodable b hp]

end Batch

end MessageIndex
