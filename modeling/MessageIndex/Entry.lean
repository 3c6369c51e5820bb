import MessageIndex.Bytes.BigEndian
import MessageIndex.Error

/-!
# Entries

An entry says where one message lies in the commit log. It is stored as thirty-six bytes: five
big-endian fields one after the other, signed fields by their two's complement. There are two ways
to read it: `decode` takes the fields off the front in order, and `readField` goes to the place of a
single field; both refuse any other length first.
-/

namespace MessageIndex

/-- Where a message lies in the commit log, and what selects it. -/
structure Entry where
  /-- Byte offset of the message in the commit log. -/
  physicalOffset : UInt64
  /-- Byte length of the message. -/
  messageSize : UInt32
  /-- Hash of the tag, or a reference to a filter; not interpreted. -/
  tagsCode : Int64
  /-- Time of storing, in milliseconds. -/
  storeTimestamp : Int64
  /-- Logical offset in the queue; the same as in the key it is stored under. -/
  queueOffset : UInt64
  deriving DecidableEq, Repr

/-- The fields of a stored entry. -/
inductive EntryField where
  /-- Where the message begins in the commit log. -/
  | physicalOffset
  /-- How long the message is. -/
  | messageSize
  /-- What selects the message. -/
  | tagsCode
  /-- When the message was stored. -/
  | storeTimestamp
  /-- Where the message stands in its queue. -/
  | queueOffset
  deriving DecidableEq, Repr

namespace EntryField

/-- The first byte of a field. -/
def position : EntryField → Nat
  | physicalOffset => 0
  | messageSize => 8
  | tagsCode => 12
  | storeTimestamp => 20
  | queueOffset => 28

/-- The number of bytes of a field. -/
def width : EntryField → Nat
  | messageSize => 4
  | _ => 8

end EntryField

namespace Entry

/-- The number of bytes of a stored entry. -/
def size : Nat := 36

/-- The bits of one field as an unsigned number. -/
def bits (e : Entry) : EntryField → UInt64
  | .physicalOffset => e.physicalOffset
  | .messageSize => e.messageSize.toUInt64
  | .tagsCode => e.tagsCode.toUInt64
  | .storeTimestamp => e.storeTimestamp.toUInt64
  | .queueOffset => e.queueOffset

/-- The bytes of one field. -/
def fieldBytes (e : Entry) (field : EntryField) : Bytes :=
  Bytes.bigEndian field.width (e.bits field).toNat

/-- The stored form of an entry. -/
def encode (e : Entry) : Bytes :=
  e.fieldBytes .physicalOffset ++ e.fieldBytes .messageSize ++ e.fieldBytes .tagsCode ++
    e.fieldBytes .storeTimestamp ++ e.fieldBytes .queueOffset

@[simp] theorem length_encode (e : Entry) : e.encode.length = size := by
  simp [encode, fieldBytes, EntryField.width, size]

/-- Refuses bytes of any length but that of an entry. -/
def checkSize (bytes : Bytes) : Except IndexError Unit :=
  if bytes.length = size then .ok () else .error (.malformedEntry bytes.length)

/-- Reads an entry by taking its fields off the front in order. -/
def decode (bytes : Bytes) : Except IndexError Entry := do
  checkSize bytes
  let (physicalOffset, bytes) := bytes.splitAt 8
  let (messageSize, bytes) := bytes.splitAt 4
  let (tagsCode, bytes) := bytes.splitAt 8
  let (storeTimestamp, queueOffset) := bytes.splitAt 8
  return {
    physicalOffset := UInt64.ofNat (Bytes.toNat physicalOffset)
    messageSize := UInt32.ofNat (Bytes.toNat messageSize)
    tagsCode := (UInt64.ofNat (Bytes.toNat tagsCode)).toInt64
    storeTimestamp := (UInt64.ofNat (Bytes.toNat storeTimestamp)).toInt64
    queueOffset := UInt64.ofNat (Bytes.toNat queueOffset) }

/-- Reads the bits of a single field, without the others. -/
def readField (bytes : Bytes) (field : EntryField) : Except IndexError UInt64 := do
  checkSize bytes
  return UInt64.ofNat (Bytes.toNat ((bytes.drop field.position).take field.width))

end Entry

end MessageIndex
