import MessageIndex.Entry
import MessageIndex.Key
import MessageIndex.Reply
import MessageIndex.Search
import MessageIndex.Settings
import MessageIndex.Store.View

/-!
# Reading an index

An `Index` is settings and a view of a store. The offset of an entry stands twice, in its key and in
its value: a range read compares the two and refuses what does not agree; a hole ends it. Searches
ask the store for one offset after the other.
-/

namespace MessageIndex

/-- An index over the view of a store. -/
structure Index where
  /-- What governs its reads. -/
  settings : Settings := {}
  /-- The store it reads. -/
  view : StoreView

namespace Queue

/-- The key of an offset of a queue. -/
def key (q : Queue) (offset : UInt64) : Key := ⟨q.partition, offset⟩

end Queue

namespace Index

/-! ## Reading single offsets -/

/-- The entry at an offset, if there is one. -/
def pointGet (ix : Index) (q : Queue) (offset : UInt64) : Except IndexError (Option Entry) := do
  let key ← (q.key offset).encode
  match ← ix.view.get key with
  | none => return none
  | some value => return some (← Entry.decode value)

/-! ## Reading ranges -/

/-- How many offsets a range read asks for: no more than requested, than the settings allow, and
than there are from `start` on. -/
def rangeLength (ix : Index) (start count : UInt64) : Nat :=
  min (min count ix.settings.maxRangeCount).toNat (UInt64.size - start.toNat)

/-- Reads slots against the offsets they were asked for, up to the first one that is empty. A slot
that holds no entry, or the entry of another offset, fails the whole read. -/
def scan (q : Queue) (start : UInt64) : (expected : UInt64) → List (Option Bytes) → Reply (List Entry)
  | _, [] => ⟨.ok [], []⟩
  | expected, none :: _ => ⟨.ok [], [.rangeEnded q start expected]⟩
  | expected, some value :: slots =>
    match Entry.decode value with
    | .error cause => ⟨.error cause, []⟩
    | .ok entry =>
      if entry.queueOffset = expected then
        let rest := scan q start (expected + 1) slots
        { rest with result := rest.result.map (entry :: ·) }
      else
        ⟨.error (.corruptedIndex q expected entry.queueOffset),
          [.entryMisplaced q expected entry.queueOffset]⟩

/-- The entries from `start` on, at most `count`, up to the first offset that is not there. The
store is asked once, for all offsets together, and not at all if there are none to ask for. -/
def rangeGet (ix : Index) (q : Queue) (start count : UInt64) : Reply (List Entry) :=
  let slots : Except IndexError (List (Option Bytes)) := do
    let keys ← (List.range (ix.rangeLength start count)).mapM fun i =>
      (q.key (start + UInt64.ofNat i)).encode
    if keys.isEmpty then
      return []
    let slots ← ix.view.multiGet keys
    if slots.length ≠ keys.length then
      throw (.contractViolation (.slotCount slots.length keys.length))
    return slots
  match slots with
  | .error cause => ⟨.error cause, []⟩
  | .ok slots => scan q start start slots

/-! ## Searching -/

/-- Asks for the physical position at an offset. If the settings say so, the question is reported
once the store has answered, before the value is looked at. -/
def probe (ix : Index) (q : Queue) (offset : UInt64) : Reply (Option UInt64) :=
  match (q.key offset).encode >>= ix.view.get with
  | .error cause => ⟨.error cause, []⟩
  | .ok value =>
    ⟨value.mapM fun bytes => Entry.readField bytes .physicalOffset,
      if ix.settings.enableSearchLog then [.probed q offset value.isSome] else []⟩

/-- Searches the offsets from `low` to `high` of a queue for a physical position. What is reported is
what the probes report, in their order. -/
def search (ix : Index) (q : Queue) (mode : Search.Mode) (target low high : UInt64) :
    Reply (Option Found) :=
  let run := MessageIndex.search mode target (fun offset => (ix.probe q offset).result) low high
  ⟨run.result, run.probes.flatMap fun offset => (ix.probe q offset).events⟩

end Index

end MessageIndex
