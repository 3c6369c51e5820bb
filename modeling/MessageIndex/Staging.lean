import MessageIndex.Entry.Dispatch
import MessageIndex.Reply
import MessageIndex.Scratch
import MessageIndex.Store

/-!
# Staging entries

Entries are written by staging them in a batch, under the key of their partition and the offset they
name; nobody sees them before the batch is committed. There is a plain way, one through reused
buffers, and one for dispatched messages; all of them stage the same write. A whole partition is
removed by the range between its two bounds, whatever its offsets.
-/

namespace MessageIndex

namespace Batch

/-- Stages an entry under the offset it names. -/
def append (b : Batch) (p : Partition) (e : Entry) : Except IndexError Batch := do
  let key ← Key.encode ⟨p, e.queueOffset⟩
  return b.push (.put key e.encode)

/-- Stages an entry through reused buffers. -/
def appendScratch (b : Batch) (s : Scratch) (p : Partition) (e : Entry) :
    Except IndexError Batch × Scratch :=
  match s.stage ⟨p, e.queueOffset⟩ e with
  | (.error cause, s) => (.error cause, s)
  | (.ok (key, value), s) => (.ok (b.push (.put key value)), s)

/-- Stages the entry of a dispatched message through reused buffers. -/
def appendDispatch (b : Batch) (s : Scratch) (r : DispatchRequest) :
    Except IndexError Batch × Scratch :=
  b.appendScratch s r.queue.partition r.entry

/-- Stages entries one after the other. -/
def appendAll (b : Batch) (p : Partition) (entries : List Entry) : Except IndexError Batch :=
  entries.foldlM (fun b e => b.append p e) b

/-- Stages the removal of a whole partition. -/
def deletePartition (b : Batch) (q : Queue) : Reply Batch :=
  let staged : Except IndexError Batch := do
    let start ← Bound.start.encode q.partition
    let stop ← Bound.stop.encode q.partition
    return b.push (.deleteRange start stop)
  match staged with
  | .ok b => ⟨.ok b, [.deleteStaged q]⟩
  | .error cause => ⟨.error cause, []⟩

end Batch

end MessageIndex
