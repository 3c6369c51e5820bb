import MessageIndex.Bytes.BigEndian
import MessageIndex.Error

/-!
# Keys

A key files one offset of one partition. Its bytes are the partition's header (length of the topic,
topic, queue id, each but the first behind a separator), a separator and the offset; numbers are
big-endian, so that byte order is the order of the fields. The two bounds of a partition are its
header with a byte below or above the separator in place of the rest: every key of the partition
lies between them, and no other key does.

The bytes of a key are defined for every partition; `encode` refuses those whose topic is too long
for the length field. `decode` checks the lengths before it takes anything apart.
-/

namespace MessageIndex

/-- The byte in front of every field of a key but the first. -/
def separator : UInt8 := 1

namespace Partition

/-- The bytes that all keys of a partition begin with. -/
def header (p : Partition) : Bytes :=
  Bytes.bigEndian 4 p.topic.length ++ separator :: p.topic ++
    separator :: Bytes.bigEndian 4 p.queueId.toUInt32.toNat

@[simp] theorem length_header (p : Partition) : p.header.length = 10 + p.topic.length := by
  simp [header]; omega

/-- Passes the topic on if its length fits the length field. -/
def checkTopic (p : Partition) : Except IndexError Unit :=
  if p.Encodable then .ok () else .error (.topicTooLong p.topic.length)

end Partition

/-- One offset of one partition. -/
structure Key where
  /-- The partition filed under. -/
  partition : Partition
  /-- The logical offset within the partition. -/
  offset : UInt64
  deriving DecidableEq, Repr

namespace Key

/-- The number of bytes a key has beside its topic. -/
def fixedSize : Nat := 19

/-- The number of bytes of a key whose topic has `topicLength` bytes. -/
def size (topicLength : Nat) : Nat := fixedSize + topicLength

/-- The bytes of a key. -/
def bytes (k : Key) : Bytes :=
  k.partition.header ++ separator :: Bytes.bigEndian 8 k.offset.toNat

@[simp] theorem length_bytes (k : Key) : k.bytes.length = size k.partition.topic.length := by
  simp [bytes, size, fixedSize]; omega

/-- The bytes of a key, unless its topic is too long. -/
def encode (k : Key) : Except IndexError Bytes := do
  k.partition.checkTopic
  return k.bytes

/-- Drops the separator in front of a field. -/
def dropSeparator (before : KeyField) (bytes : Bytes) : Except IndexError Bytes :=
  if bytes.headD 0 = separator then .ok bytes.tail
  else .error (.invalidKey (.missingSeparator before (bytes.headD 0)))

/-- Reads a key. The length field is checked against the bytes at hand first, then the three
separators in order. -/
def decode (bytes : Bytes) : Except IndexError Key := do
  if bytes.length < fixedSize then
    throw (.invalidKey (.tooShort bytes.length))
  let topicLength := Bytes.toNat (bytes.take 4)
  if bytes.length ≠ size topicLength then
    throw (.invalidKey (.lengthMismatch bytes.length topicLength))
  let fromTopic ← dropSeparator .topic (bytes.drop 4)
  let fromQueueId ← dropSeparator .queueId (fromTopic.drop topicLength)
  let fromOffset ← dropSeparator .queueOffset (fromQueueId.drop 4)
  return {
    partition := {
      topic := fromTopic.take topicLength
      queueId := (UInt32.ofNat (Bytes.toNat (fromQueueId.take 4))).toInt32 }
    offset := UInt64.ofNat (Bytes.toNat fromOffset) }

end Key

/-! ## Bounds -/

/-- The two ends of the key range of a partition. -/
inductive Bound where
  /-- At or before every key of the partition. -/
  | start
  /-- After every key of the partition. -/
  | stop
  deriving DecidableEq, Repr

namespace Bound

/-- The number of bytes a bound has beside its topic. -/
def fixedSize : Nat := 11

/-- The number of bytes of a bound whose topic has `topicLength` bytes. -/
def size (topicLength : Nat) : Nat := fixedSize + topicLength

/-- The byte that stands where a key has its last separator: one below it or one above it. -/
def sentinel : Bound → UInt8
  | start => 0
  | stop => 2

/-- The bytes of a bound. -/
def bytes (p : Partition) (b : Bound) : Bytes := p.header ++ [b.sentinel]

@[simp] theorem length_bytes (p : Partition) (b : Bound) :
    (b.bytes p).length = size p.topic.length := by
  simp [bytes, size, fixedSize]; omega

/-- The bytes of a bound, unless the topic is too long. -/
def encode (p : Partition) (b : Bound) : Except IndexError Bytes := do
  p.checkTopic
  return b.bytes p

end Bound

end MessageIndex
