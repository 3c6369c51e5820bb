import MessageIndex.Partition

/-!
# What can go wrong with an index

An `IndexError` is a cause: every constructor carries the values that its text names, and
`IndexError.message` is the only place where the wording stands. Two causes have several forms of
their own, a key that does not parse and a store that breaks its contract; both also admit a reason
given in words, for stores that report their own.
-/

namespace MessageIndex

/-- The fields of a key that a separator byte announces. -/
inductive KeyField where
  /-- The name of the topic. -/
  | topic
  /-- The number of the queue in the topic. -/
  | queueId
  /-- The offset in the queue. -/
  | queueOffset
  deriving DecidableEq, Repr

/-- How a field is called in messages. -/
def KeyField.label : KeyField → String
  | .topic => "topic"
  | .queueId => "queue id"
  | .queueOffset => "queue offset"

/-- Why a byte string is no key. -/
inductive KeyDefect where
  /-- Fewer bytes than the fixed fields take. -/
  | tooShort (length : Nat)
  /-- The length field announces another topic length than the bytes leave room for. -/
  | lengthMismatch (length topicLength : Nat)
  /-- The byte in front of a field is not the separator. -/
  | missingSeparator (before : KeyField) (found : UInt8)
  /-- A reason given in words. -/
  | described (reason : String)
  deriving DecidableEq, Repr

/-- How a store breaks its contract. -/
inductive ContractBreach where
  /-- A batched read answers another number of slots than it was asked for. -/
  | slotCount (values keys : Nat)
  /-- A reason given in words. -/
  | described (reason : String)
  deriving DecidableEq, Repr

/-- The causes of failure of an index. -/
inductive IndexError where
  /-- A call of the store failed, for the reason the store gave. -/
  | storeUnavailable (op source : String)
  /-- The store answered with something its contract excludes. -/
  | contractViolation (breach : ContractBreach)
  /-- The entry stored for one offset says that it belongs to another. -/
  | corruptedIndex (queue : Queue) (expected found : UInt64)
  /-- A stored value is not as long as an entry. -/
  | malformedEntry (length : Nat)
  /-- A byte string is no key. -/
  | invalidKey (defect : KeyDefect)
  /-- The topic's length does not fit the length field of a key. -/
  | topicTooLong (length : Nat)
  deriving DecidableEq, Repr

/-! ## Wording -/

/-- A byte as two lowercase hexadecimal digits after `0x`. -/
def hexByte (b : UInt8) : String :=
  String.ofList ['0', 'x', Nat.digitChar (b.toNat / 16), Nat.digitChar (b.toNat % 16)]

/-- The reason a key is refused, in words. -/
def KeyDefect.message : KeyDefect → String
  | .tooShort length => s!"key of {length} bytes is shorter than 19"
  | .lengthMismatch length topicLength =>
    s!"key of {length} bytes does not match topic length {topicLength}"
  | .missingSeparator before found =>
    s!"expected separator before {before.label}, found {hexByte found}"
  | .described reason => reason

/-- The breach in words. -/
def ContractBreach.message : ContractBreach → String
  | .slotCount values keys => s!"multi_get returned {values} values for {keys} keys"
  | .described reason => reason

namespace IndexError

/-- The text shown for an error. -/
def message : IndexError → String
  | storeUnavailable op _ => s!"Store operation `{op}` failed"
  | contractViolation breach => s!"Store contract violated: {breach.message}"
  | corruptedIndex queue expected found =>
    s!"Consume queue {queue.topic}-{queue.queueId} damaged: expected offset {expected}, found {found}"
  | malformedEntry length => s!"Invalid consume queue unit: expected 36 bytes, got {length}"
  | invalidKey defect => s!"Invalid consume queue key: {defect.message}"
  | topicTooLong length => s!"Topic of {length} bytes is too long to encode"

/-- Whether the error reports damaged data and not a failed call. -/
def isCorruption : IndexError → Bool
  | corruptedIndex .. | malformedEntry _ => true
  | _ => false

end IndexError

end MessageIndex
