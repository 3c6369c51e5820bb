import MessageIndex.Entry
import MessageIndex.Key

/-!
# Dispatched messages

When a message has been written to the commit log, its request says where it lies and which offset
of which queue it gets. Request and entry hold the same numbers under the names of the two sides.
-/

namespace MessageIndex

/-- A message to be indexed, as the commit log announces it. -/
structure DispatchRequest where
  /-- The queue the message belongs to. -/
  queue : Queue
  /-- Its logical offset in the queue. -/
  consumeQueueOffset : UInt64
  /-- Its byte offset in the commit log. -/
  commitLogOffset : UInt64
  /-- Its byte length. -/
  msgSize : UInt32
  /-- Hash of its tag. -/
  tagsCode : Int64
  /-- Time of storing, in milliseconds. -/
  storeTimestamp : Int64
  deriving DecidableEq, Repr

namespace DispatchRequest

/-- The entry that indexes the message. -/
def entry (r : DispatchRequest) : Entry where
  physicalOffset := r.commitLogOffset
  messageSize := r.msgSize
  tagsCode := r.tagsCode
  storeTimestamp := r.storeTimestamp
  queueOffset := r.consumeQueueOffset

end DispatchRequest

end MessageIndex
