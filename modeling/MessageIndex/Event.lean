import MessageIndex.Error
import MessageIndex.FieldValue
import MessageIndex.Level

/-!
# What an index reports

While it works, an index reports four kinds of things. An `Event` is what happened, with the values
that belong to it; its level, its text and its list of fields are read off it, so that a statement
about events need not speak of texts.
-/

namespace MessageIndex

/-- Something an index reports. -/
inductive Event where
  /-- A range read met an offset that is not there. -/
  | rangeEnded (queue : Queue) (start expected : UInt64)
  /-- An entry says that it belongs to another offset. -/
  | entryMisplaced (queue : Queue) (expected found : UInt64)
  /-- The removal of a partition was staged. -/
  | deleteStaged (queue : Queue)
  /-- A search asked what is at an offset. -/
  | probed (queue : Queue) (offset : UInt64) (present : Bool)
  deriving DecidableEq, Repr

namespace Event

/-- The target that all events of an index carry. -/
def target : String := "consume_queue::table"

/-- How severe an event is. -/
def level : Event → Level
  | rangeEnded .. => .debug
  | entryMisplaced .. => .error
  | deleteStaged _ => .info
  | probed .. => .warn

/-- The text of an event. -/
def message : Event → String
  | rangeEnded .. => "Range read reached end of consume queue"
  | entryMisplaced .. => "Consume queue data damaged"
  | deleteStaged _ => "Staged consume queue partition delete"
  | probed .. => "Probing consume queue by physical offset"

/-- The queue an event is about. -/
def queue : Event → Queue
  | rangeEnded queue .. => queue
  | entryMisplaced queue .. => queue
  | deleteStaged queue => queue
  | probed queue .. => queue

/-- The fields particular to the kind of event. -/
def details : Event → List (String × FieldValue)
  | rangeEnded _ start expected =>
    [("start_offset", .integer start.toNat), ("expected", .integer expected.toNat)]
  | entryMisplaced _ expected found =>
    [("expected", .integer expected.toNat), ("found", .integer found.toNat)]
  | deleteStaged _ => []
  | probed _ offset present =>
    [("queue_offset", .integer offset.toNat), ("present", .flag present)]

/-- All fields of an event: its text, the queue, and the particular ones. -/
def fields (e : Event) : List (String × FieldValue) :=
  [("message", .text e.message), ("topic", .text e.queue.topic),
    ("queue_id", .integer e.queue.queueId.toInt)] ++ e.details

end Event

end MessageIndex
