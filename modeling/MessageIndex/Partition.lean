import MessageIndex.Bytes

/-!
# Partitions

Messages are filed by topic and queue id. A store knows a topic only as bytes, so a `Partition`
carries bytes; readers name the same thing by text, so a `Queue` carries a `String`, and
`Queue.partition` is the injection between them. Text is kept apart because error messages and log
events repeat it.
-/

namespace MessageIndex

/-- The part of an index that belongs to one topic and one queue id. -/
structure Partition where
  /-- The topic's bytes, of any value. -/
  topic : Bytes
  /-- The queue within the topic; negative ids are allowed. -/
  queueId : Int32
  deriving DecidableEq, Repr

/-- A partition named by text, as readers name it. -/
structure Queue where
  /-- The topic's name. -/
  topic : String
  /-- The queue within the topic. -/
  queueId : Int32
  deriving DecidableEq, Repr

namespace Queue

/-- The partition a queue names: the topic's text in UTF-8. -/
def partition (q : Queue) : Partition := ⟨Bytes.ofText q.topic, q.queueId⟩

end Queue

namespace Partition

/-- Topics whose length fits the four-byte length field of a key. -/
def Encodable (p : Partition) : Prop := p.topic.length < UInt32.size

instance (p : Partition) : Decidable p.Encodable := inferInstanceAs (Decidable (_ < _))

end Partition

end MessageIndex
