import MessageIndex.Entry
import MessageIndex.Key

/-!
# Reused buffers

A writer that stages many entries encodes all of them through one `Scratch`: a key buffer that is
cleared before each key, and a value buffer whose thirty-six bytes are overwritten field by field.
The buffers keep whatever the last use left in them, so what is staged is the same as without them
only because every byte is written again.
-/

namespace MessageIndex

/-- Buffers for one encoded key and one encoded entry. -/
structure Scratch where
  /-- The last key encoded, or nothing yet. -/
  key : Bytes := []
  /-- The last entry encoded, or zeros. -/
  value : Bytes := List.replicate Entry.size 0
  /-- The value buffer never changes its length. -/
  length_value : value.length = Entry.size := by simp

namespace Key

/-- Encodes a key into a buffer, which is cleared first. A topic that is too long leaves the buffer
as it was. -/
def encodeInto (buffer : Bytes) (k : Key) : Except IndexError Bytes × Bytes :=
  match k.partition.checkTopic with
  | .error e => (.error e, buffer)
  | .ok () =>
    let buffer := buffer.take 0
    let buffer := buffer ++ k.partition.header
    let buffer := buffer ++ [separator]
    let buffer := buffer ++ Bytes.bigEndian 8 k.offset.toNat
    (.ok buffer, buffer)

end Key

/-- Overwrites the bytes of `buffer` from `position` on with `bytes`. -/
def Bytes.overwrite (buffer : Bytes) (position : Nat) (bytes : Bytes) : Bytes :=
  buffer.take position ++ bytes ++ buffer.drop (position + bytes.length)

theorem Bytes.length_overwrite {buffer bytes : Bytes} {position : Nat}
    (h : position + bytes.length ≤ buffer.length) :
    (buffer.overwrite position bytes).length = buffer.length := by
  simp [overwrite]; omega

namespace Entry

/-- Overwrites one field of a stored entry in a buffer. -/
def writeField (e : Entry) (buffer : Bytes) (field : EntryField) : Bytes :=
  buffer.overwrite field.position (e.fieldBytes field)

theorem length_writeField {buffer : Bytes} (h : buffer.length = size) (e : Entry)
    (field : EntryField) : (e.writeField buffer field).length = size := by
  rw [← h]
  refine Bytes.length_overwrite ?_
  rw [h]
  cases field <;> simp [fieldBytes, EntryField.position, EntryField.width, size]

/-- Overwrites a buffer with an entry, one field after the other. -/
def encodeInto (buffer : Bytes) (e : Entry) : Bytes :=
  [EntryField.physicalOffset, .messageSize, .tagsCode, .storeTimestamp, .queueOffset].foldl
    e.writeField buffer

theorem length_encodeInto {buffer : Bytes} (h : buffer.length = size) (e : Entry) :
    (encodeInto buffer e).length = size := by
  simp only [encodeInto, List.foldl_cons, List.foldl_nil]
  exact length_writeField (length_writeField (length_writeField (length_writeField
    (length_writeField h e _) e _) e _) e _) e _

end Entry

namespace Scratch

/-- Encodes a key and an entry through the buffers: the bytes of both, and the buffers after it. A
topic that is too long leaves both buffers as they were. -/
def stage (s : Scratch) (k : Key) (e : Entry) : Except IndexError (Bytes × Bytes) × Scratch :=
  match k.encodeInto s.key with
  | (.error cause, key) => (.error cause, { s with key })
  | (.ok bytes, key) =>
    let value := Entry.encodeInto s.value e
    (.ok (bytes, value), ⟨key, value, Entry.length_encodeInto s.length_value e⟩)

end Scratch

end MessageIndex
