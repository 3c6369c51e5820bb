import MessageIndex.Proofs.ReusedBuffers

/-!
# Proofs: runs through the same buffers

A writer keeps its buffers from one entry to the next, a search its key buffer from one key to the next.
Whatever a run finds in them at its start, and however long the topics are that follow each other, every
call gives what it gives with fresh buffers (`run_through_buffers`).
-/

namespace MessageIndex

open Bytes

/-! ## Many keys in one buffer -/

namespace Key

/-- Encodes keys one after the other in one buffer: what each call gives, with what is in the buffer
after it. -/
def encodeEach (buffer : Bytes) : List Key → List (Except IndexError Bytes × Bytes)
  | [] => []
  | k :: keys => k.encodeInto buffer :: encodeEach (k.encodeInto buffer).2 keys

theorem encodeInto_fst (buffer : Bytes) (k : Key) : (k.encodeInto buffer).1 = k.encode := by
  by_cases hk : k.partition.Encodable
  · rw [encodeInto_of_encodable hk, encode_of_encodable hk]
  · rw [encodeInto_of_not_encodable hk, encode_of_not_encodable hk]

theorem encodeEach_fst (buffer : Bytes) (keys : List Key) :
    (encodeEach buffer keys).map Prod.fst = keys.map encode := by
  induction keys generalizing buffer with
  | nil => rfl
  | cons k keys ih => rw [encodeEach, List.map_cons, List.map_cons, encodeInto_fst, ih]

/-- After each call, the buffer holds the key that was encoded and nothing else. -/
theorem encodeEach_snd (buffer : Bytes) {keys : List Key}
    (hkeys : ∀ k ∈ keys, k.partition.Encodable) :
    (encodeEach buffer keys).map Prod.snd = keys.map bytes := by
  induction keys generalizing buffer with
  | nil => rfl
  | cons k keys ih =>
    obtain ⟨hk, hrest⟩ := List.forall_mem_cons.mp hkeys
    rw [encodeEach, List.map_cons, List.map_cons, ih _ hrest, encodeInto_of_encodable hk]

end Key

/-! ## Many entries through one scratch -/

/-- A call that stages through reused buffers: an entry of a partition, or that of a dispatched message. -/
inductive ScratchCall where
  /-- Stages an entry of a partition. -/
  | append (p : Partition) (e : Entry)
  /-- Stages the entry of a dispatched message. -/
  | dispatch (r : DispatchRequest)
  deriving DecidableEq

namespace ScratchCall

/-- Makes a call; the buffers are handed back whatever the outcome. -/
def run (b : Batch) (s : Scratch) : ScratchCall → Except IndexError Batch × Scratch
  | append p e => b.appendScratch s p e
  | dispatch r => b.appendDispatch s r

/-- The partition an entry is staged for; a message names its topic by text. -/
def partition : ScratchCall → Partition
  | append p _ => p
  | dispatch r => ⟨ofText r.queue.topic, r.queue.queueId⟩

/-- The entry that is staged; a message has one field for each of its fields. -/
def entry : ScratchCall → Entry
  | append _ e => e
  | dispatch r => ⟨r.commitLogOffset, r.msgSize, r.tagsCode, r.storeTimestamp, r.consumeQueueOffset⟩

theorem run_fst (b : Batch) (s : Scratch) (c : ScratchCall) :
    (c.run b s).1 = b.append c.partition c.entry := by
  cases c with
  | append p e => exact b.appendScratch_eq_append s p e
  | dispatch r => exact b.appendScratch_eq_append s r.queue.partition r.entry

end ScratchCall

namespace Batch

/-- Makes calls one after the other through the same buffers, up to the first that is refused. -/
def appendThrough (b : Batch) (s : Scratch) : List ScratchCall → Except IndexError Batch × Scratch
  | [] => (.ok b, s)
  | c :: calls =>
    match c.run b s with
    | (.error cause, s) => (.error cause, s)
    | (.ok b, s) => b.appendThrough s calls

/-- Stages the same entries without buffers, up to the first that is refused. -/
def appendEach (b : Batch) (calls : List ScratchCall) : Except IndexError Batch :=
  calls.foldlM (fun b c => b.append c.partition c.entry) b

theorem appendThrough_fst (b : Batch) (s : Scratch) (calls : List ScratchCall) :
    (b.appendThrough s calls).1 = b.appendEach calls := by
  -- Nothing is known of what a call leaves in the buffers, so the induction keeps them general.
  induction calls generalizing b s with
  | nil => rfl
  | cons c calls ih =>
    have hstep := c.run_fst b s
    unfold appendEach
    rw [List.foldlM_cons, ← hstep, appendThrough]
    cases hrun : c.run b s with
    | mk outcome s' =>
      cases outcome with
      | error cause => rfl
      | ok b' => exact ih b' s'

/-- However the buffers were used before, a run through them gives what it gives without them: the calls
stage the same writes, in the same order and byte for byte, a dispatched message the entry with its
numbers under its topic's text; and each key is encoded to the same bytes, which are then all there is
in the buffer. -/
theorem run_through_buffers (b : Batch) (s : Scratch) (calls : List ScratchCall) (buffer : Bytes)
    (keys : List Key) :
    (b.appendThrough s calls).1 = b.appendEach calls ∧
    ((∀ c ∈ calls, c.partition.Encodable) →
      (b.appendThrough s calls).1 = .ok ⟨b.ops ++ calls.map fun c =>
        .put (Key.bytes ⟨c.partition, c.entry.queueOffset⟩) c.entry.encode⟩) ∧
    (Key.encodeEach buffer keys).map Prod.fst = keys.map Key.encode ∧
    ((∀ k ∈ keys, k.partition.Encodable) →
      (Key.encodeEach buffer keys).map Prod.snd = keys.map Key.bytes ∧
      (Key.encodeEach buffer keys).map (fun outcome => outcome.2.length) =
        keys.map fun k => 19 + k.partition.topic.length) := by
  refine ⟨b.appendThrough_fst s calls, fun hcalls => ?_, Key.encodeEach_fst buffer keys, fun hkeys => ?_⟩
  · rw [appendThrough_fst]
    exact foldlM_append_of_encodable ScratchCall.partition ScratchCall.entry b hcalls
  · have hleft := Key.encodeEach_snd buffer hkeys
    refine ⟨hleft, ?_⟩
    have hlengths := congrArg (List.map List.length) hleft
    rw [List.map_map, List.map_map] at hlengths
    refine hlengths.trans (List.map_congr_left fun k _ => ?_)
    exact k.length_bytes

end Batch

end MessageIndex
