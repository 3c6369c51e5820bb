import MessageIndex.Proofs.PointRead
import MessageIndex.Proofs.RangeRead

/-!
# Proofs: partitions do not see each other's writes

A read of a queue asks its store for keys of the queue's partition and for nothing else, so two stores
that hold the same under these keys are not told apart, whatever else they hold. A batch staged for
other partitions leaves them alone, whatever the store was before: well filed, damaged or written by
hand.
-/

namespace MessageIndex

open Bytes

/-- Two stores hold the same under every key of a partition. A topic that fits no key has none. -/
def Store.AgreeOn (p : Partition) (s s' : Store) : Prop :=
  p.Encodable → ∀ offset, s.get (Key.bytes ⟨p, offset⟩) = s'.get (Key.bytes ⟨p, offset⟩)

/-- A batch staged for other partitions changes nothing under the keys of a partition. -/
theorem Store.agreeOn_commit {ps : Set Partition} {b : Batch} (hb : b.StagedFor ps) {p : Partition}
    (hp : p ∉ ps) (s : Store) : AgreeOn p (s.commit b) s := by
  intro henc offset
  refine get_commit_of_not_touches s fun write hwrite => ?_
  exact (hb.within write hwrite).not_touches (k := ⟨p, offset⟩) henc hp

namespace Index

variable {s s' : Store} {q : Queue} (settings : Settings)

/-- A read of one key gives the same in both stores. -/
theorem get_key_congr (h : s.AgreeOn q.partition s') (offset : UInt64) :
    (q.key offset).encode >>= s.view.get = (q.key offset).encode >>= s'.view.get := by
  by_cases hq : q.partition.Encodable
  · have hkey : (q.key offset).encode = .ok (q.key offset).bytes := Key.encode_of_encodable hq
    rw [hkey]
    exact congrArg Except.ok (h hq offset)
  · have hkey : (q.key offset).encode = .error _ := Key.encode_of_not_encodable hq
    rw [hkey]
    rfl

theorem pointGet_congr (h : s.AgreeOn q.partition s') (offset : UInt64) :
    pointGet ⟨settings, s.view⟩ q offset = pointGet ⟨settings, s'.view⟩ q offset := by
  rw [pointGet_eq, pointGet_eq, get_key_congr h]

theorem rangeGet_congr (h : s.AgreeOn q.partition s') (start count : UInt64) :
    rangeGet ⟨settings, s.view⟩ q start count = rangeGet ⟨settings, s'.view⟩ q start count := by
  by_cases hq : q.partition.Encodable
  · have hslots (n : Nat) : s.slotsFrom q start n = s'.slotsFrom q start n :=
      List.map_congr_left fun i _ => h hq _
    rw [rangeGet_store hq, rangeGet_store hq, hslots]
    rfl
  · by_cases hn : rangeLength ⟨settings, s.view⟩ start count = 0
    · have hempty (t : Store) : rangeGet ⟨settings, t.view⟩ q start count = ⟨.ok [], []⟩ :=
        rangeGet_of_nothing_asked q hn
      rw [hempty, hempty]
    · have hrefused (t : Store) : rangeGet ⟨settings, t.view⟩ q start count = _ :=
        rangeGet_of_not_encodable hn hq
      rw [hrefused, hrefused]

theorem probe_congr (h : s.AgreeOn q.partition s') (offset : UInt64) :
    probe ⟨settings, s.view⟩ q offset = probe ⟨settings, s'.view⟩ q offset := by
  unfold probe
  rw [get_key_congr h]

theorem search_congr (h : s.AgreeOn q.partition s') (mode : Search.Mode)
    (target low high : UInt64) :
    search ⟨settings, s.view⟩ q mode target low high =
      search ⟨settings, s'.view⟩ q mode target low high := by
  have hprobe : probe ⟨settings, s.view⟩ q = probe ⟨settings, s'.view⟩ q :=
    funext (probe_congr settings h)
  unfold search
  rw [hprobe]

/-- What is committed for other partitions is not seen by the reads of a queue. Whatever the store
holds, every read gives the same result after the commit as before it, be it an answer or a failure,
and reports the same. -/
theorem reads_isolated {ps : Set Partition} {b : Batch} (hb : b.StagedFor ps) {q : Queue}
    (hq : q.partition ∉ ps) (settings : Settings) (s : Store) :
    let before : Index := ⟨settings, s.view⟩
    let after : Index := ⟨settings, (s.commit b).view⟩
    (∀ offset, after.pointGet q offset = before.pointGet q offset) ∧
    (∀ start count, after.rangeGet q start count = before.rangeGet q start count) ∧
    ∀ mode target low high,
      after.search q mode target low high = before.search q mode target low high := by
  have h : (s.commit b).AgreeOn q.partition s := Store.agreeOn_commit hb hq s
  exact ⟨pointGet_congr settings h, rangeGet_congr settings h, search_congr settings h⟩

/-- A damaged entry is still reported after one partition was written and removed whose topic the
topic read begins with. -/
theorem reads_isolated_of_longer_topic :
    let written : Queue := ⟨"t", 0⟩
    let q : Queue := ⟨"t\x01", 0⟩
    let append := IndexOp.append written.partition ⟨1, 100, 0, 0, 7⟩
    let b : Batch := ⟨[append.write, (IndexOp.remove written.partition).write]⟩
    let s : Store := Store.put {} (q.key 7).bytes [255]
    b.StagedFor {written.partition} ∧ q.partition ∉ ({written.partition} : Set Partition) ∧
      pointGet ⟨{}, (s.commit b).view⟩ q 7 = .error (.malformedEntry 1) := by
  intro written q append b s
  have hwritten : written.partition.Encodable := by decide
  have hq : q.partition ∉ ({written.partition} : Set Partition) := by
    show ¬ q.partition = written.partition
    decide
  have hb : b.StagedFor {written.partition} :=
    .deletePartition (.append .empty rfl (Batch.append_eq_ok_iff.mpr ⟨hwritten, rfl⟩)) rfl
      (Batch.deletePartition_eq_ok_iff.mpr ⟨hwritten, rfl⟩)
  have hkey : (q.key 7).encode = .ok (q.key 7).bytes := Key.encode_of_encodable (by decide)
  have hget : s.view.get (q.key 7).bytes = .ok (some [255]) := by
    show Except.ok (s.get (q.key 7).bytes) = _
    rw [Store.get_put, if_pos rfl]
  have hbefore : pointGet ⟨{}, s.view⟩ q 7 = .error (.malformedEntry 1) := by
    unfold pointGet
    rw [hkey]
    simp only [bind, Except.bind, hget]
    rfl
  obtain ⟨hpoint, -, -⟩ := reads_isolated hb hq {} s
  exact ⟨hb, hq, (hpoint 7).trans hbefore⟩

end Index

end MessageIndex
