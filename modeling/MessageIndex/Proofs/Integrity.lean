import Mathlib.Data.Set.List
import MessageIndex.Proofs.PointRead
import MessageIndex.Proofs.RangeRead
import MessageIndex.Proofs.SearchSteps
import MessageIndex.Proofs.StoreKeys

/-!
# Proofs: an index reads everything it wrote

A store written through an index files each entry, in stored form, under the key of its own offset
(`WellFiled`); appends, removals and commits keep it so, in whatever order they come. In such a store
the keys of a partition stand together in the order of their offsets, and no read ever complains.
-/

namespace MessageIndex

open Bytes

namespace Store

/-- Everything filed is a stored entry under the key of its own offset. -/
def WellFiled (s : Store) : Prop :=
  ∀ key value, s.get key = some value →
    ∃ (p : Partition) (e : Entry), p.Encodable ∧ key = Key.bytes ⟨p, e.queueOffset⟩ ∧
      value = e.encode

theorem WellFiled.empty : WellFiled {} := by
  intro key value h
  rw [get_empty] at h
  cases h

/-- An operation of the index files what it appends under its own offset, and removals file nothing. -/
theorem WellFiled.apply_write {s : Store} (h : s.WellFiled) {op : IndexOp}
    (hop : op.partition.Encodable) : (s.apply op.write).WellFiled := by
  intro key value hget
  rw [get_apply] at hget
  by_cases hkey : op.write.Touches key
  · rw [if_pos hkey] at hget
    cases op with
    | append p e => exact ⟨p, e, hop, hkey.symm, (Option.some.inj hget).symm⟩
    | remove p => cases hget
  · rw [if_neg hkey] at hget
    exact h key value hget

theorem WellFiled.commit {s : Store} (h : s.WellFiled) {ops : List IndexOp}
    (hops : ∀ op ∈ ops, op.partition.Encodable) :
    (s.commit ⟨ops.map IndexOp.write⟩).WellFiled := by
  unfold Store.commit
  induction ops generalizing s with
  | nil => exact h
  | cons op ops ih =>
    obtain ⟨hop, hrest⟩ := List.forall_mem_cons.mp hops
    exact ih (h.apply_write hop) hrest

/-- What is filed under the bytes of a key is the stored form of an entry with the offset of the key. -/
theorem WellFiled.get_key {s : Store} (h : s.WellFiled) {k : Key} (hk : k.partition.Encodable)
    {value : Bytes} (hget : s.get k.bytes = some value) :
    ∃ e : Entry, value = e.encode ∧ e.queueOffset = k.offset := by
  obtain ⟨p, e, hp, hkey, hvalue⟩ := h _ _ hget
  exact ⟨e, hvalue, congrArg Key.offset (Key.bytes_inj hk hp hkey).symm⟩

/-- Every key is read back, its value too, and both name the same offset. -/
theorem WellFiled.decode_of_mem {s : Store} (h : s.WellFiled) {key : Bytes} (hkey : key ∈ s.keys) :
    ∃ k value e, Key.decode key = .ok k ∧ s.get key = some value ∧ Entry.decode value = .ok e ∧
      e.queueOffset = k.offset := by
  obtain ⟨value, hget⟩ := mem_keys_iff.mp hkey
  obtain ⟨p, e, hp, rfl, rfl⟩ := h key value hget
  exact ⟨⟨p, e.queueOffset⟩, e.encode, e, Key.decode_bytes hp, hget, e.decode_encode, rfl⟩

/-- A key is in the range of the partition it is read back with, and of no other. -/
theorem WellFiled.inRange_iff {s : Store} (h : s.WellFiled) {p : Partition} (hp : p.Encodable)
    {key : Bytes} (hkey : key ∈ s.keys) :
    InRange (Bound.start.bytes p) (Bound.stop.bytes p) key ↔ ∃ o, Key.decode key = .ok ⟨p, o⟩ := by
  obtain ⟨value, hget⟩ := mem_keys_iff.mp hkey
  obtain ⟨p', e, hp', rfl, -⟩ := h key value hget
  rw [Bound.inRange_key_iff hp hp', Key.decode_bytes hp']
  constructor
  · rintro rfl
    exact ⟨e.queueOffset, rfl⟩
  · rintro ⟨o, ho⟩
    exact congrArg Key.partition (Except.ok.inj ho)

/-- A key of the store is the bytes of what it is read back as. -/
theorem WellFiled.of_decode {s : Store} (h : s.WellFiled) {key : Bytes} (hkey : key ∈ s.keys) {k : Key}
    (hdec : Key.decode key = .ok k) : k.partition.Encodable ∧ key = k.bytes := by
  obtain ⟨value, hget⟩ := mem_keys_iff.mp hkey
  obtain ⟨p, e, hp, rfl, -⟩ := h key value hget
  rw [Key.decode_bytes hp] at hdec
  obtain rfl := Except.ok.inj hdec
  exact ⟨hp, rfl⟩

/-- The keys of a partition stand together, in the order of their offsets. -/
theorem WellFiled.exists_partition_block {s : Store} (h : s.WellFiled) (p : Partition) :
    ∃ (front block back : List Bytes) (offsets : List UInt64), s.keys = front ++ block ++ back ∧
      block.map Key.decode = offsets.map (fun o => .ok ⟨p, o⟩) ∧ offsets.Pairwise (· < ·) ∧
      ∀ key ∈ front ++ back, ∀ o, Key.decode key ≠ .ok ⟨p, o⟩ := by
  by_cases hp : p.Encodable
  · obtain ⟨front, block, back, hkeys, hblock, hrest⟩ :=
      exists_block s.pairwise_keys (Bound.start.bytes p) (Bound.stop.bytes p)
    have hmem {key : Bytes} (hkey : key ∈ block) : key ∈ s.keys := by
      rw [hkeys]
      exact List.mem_append_left _ (List.mem_append_right _ hkey)
    obtain ⟨offsets, rfl⟩ :
        ∃ offsets : List UInt64, offsets.map (fun o => Key.bytes ⟨p, o⟩) = block := by
      rw [← Set.mem_range, Set.range_list_map]
      intro key hkey
      obtain ⟨o, ho⟩ := (h.inRange_iff hp (hmem hkey)).mp (hblock key hkey)
      exact ⟨o, (h.of_decode (hmem hkey) ho).2.symm⟩
    have hsorted := s.pairwise_keys
    rw [hkeys, List.pairwise_append, List.pairwise_append, List.pairwise_map] at hsorted
    refine ⟨front, _, back, offsets, hkeys, ?_, hsorted.1.2.1.imp Key.before_bytes_iff.mp, ?_⟩
    · rw [List.map_map]
      exact List.map_congr_left fun o _ => Key.decode_bytes (k := ⟨p, o⟩) hp
    · intro key hkey o ho
      have hin : key ∈ s.keys := by
        rw [hkeys]
        rcases List.mem_append.mp hkey with hfront | hback
        · exact List.mem_append_left _ (List.mem_append_left _ hfront)
        · exact List.mem_append_right _ hback
      exact hrest key hkey ((h.inRange_iff hp hin).mpr ⟨o, ho⟩)
  · -- A topic that fits no key has no keys: the block is empty.
    refine ⟨s.keys, [], [], [], by simp, rfl, .nil, fun key hkey o ho => ?_⟩
    rw [List.append_nil] at hkey
    exact hp (h.of_decode hkey ho).1

end Store

/-! ## Reads that never fail -/

namespace Index

/-- A scan complains of nothing if every slot that is not empty holds the entry of its own offset. -/
theorem scan_ok {q : Queue} {start base : UInt64} {slots : List (Option Bytes)}
    (hsize : base.toNat + slots.length ≤ UInt64.size)
    (hslots : ∀ i value, slots[i]? = some (some value) →
      ∃ e : Entry, value = e.encode ∧ e.queueOffset = base + UInt64.ofNat i) :
    ∃ entries, (scan q start base slots).result = .ok entries := by
  have hscan := scanned_scan q start hsize
  generalize scan q start base slots = reply at hscan
  cases hscan with
  | complete front all => exact ⟨_, rfl⟩
  | hole front slot => exact ⟨_, rfl⟩
  | malformed front slot length =>
    obtain ⟨e, rfl, -⟩ := hslots _ _ slot
    exact absurd e.length_encode length
  | misplaced front slot decoded elsewhere =>
    obtain ⟨e, rfl, hoff⟩ := hslots _ _ slot
    rw [Entry.decode_encode] at decoded
    obtain rfl := Except.ok.inj decoded
    exact absurd hoff elsewhere

variable {s : Store} {q : Queue} (settings : Settings)

theorem rangeGet_ok (h : s.WellFiled) (hq : q.partition.Encodable) (start count : UInt64) :
    ∃ entries, (rangeGet ⟨settings, s.view⟩ q start count).result = .ok entries := by
  rw [rangeGet_store hq]
  refine scan_ok ?_ fun i value hi => ?_
  · rw [length_slotsFrom]
    exact toNat_add_rangeLength_le _ start count
  · rw [Store.slotsFrom, List.getElem?_map, Option.map_eq_some_iff] at hi
    obtain ⟨i', hrange, hvalue⟩ := hi
    obtain ⟨hbound, rfl⟩ := List.getElem?_eq_some_iff.mp hrange
    rw [List.getElem_range] at hvalue
    exact h.get_key (k := q.key (start + UInt64.ofNat i)) hq hvalue

theorem probe_ok (h : s.WellFiled) (hq : q.partition.Encodable) (offset : UInt64) :
    ∃ answer, (probe ⟨settings, s.view⟩ q offset).result = .ok answer := by
  have hkey : (q.key offset).encode = .ok (q.key offset).bytes := Key.encode_of_encodable hq
  have hprobe : (q.key offset).encode >>= s.view.get = .ok (s.get (q.key offset).bytes) := by
    rw [hkey]
    rfl
  unfold probe
  rw [hprobe]
  cases hget : s.get (q.key offset).bytes with
  | none => exact ⟨none, rfl⟩
  | some value =>
    obtain ⟨e, rfl, -⟩ := h.get_key (k := q.key offset) hq hget
    obtain ⟨bits, hbits⟩ := Entry.readField_of_length e.length_encode .physicalOffset
    refine ⟨some bits, ?_⟩
    show (some <$> Entry.readField e.encode .physicalOffset : Except IndexError _) = _
    rw [hbits]
    rfl

theorem search_ok (h : s.WellFiled) (hq : q.partition.Encodable) (mode : Search.Mode)
    (target low high : UInt64) :
    ∃ found, (search ⟨settings, s.view⟩ q mode target low high).result = .ok found :=
  Search.exists_result _ none fun offset _ _ => probe_ok settings h hq offset

end Index

theorem Journal.Describes.wellFiled {j : Journal} {w : Workspace} (h : j.Describes w) :
    w.store.WellFiled := by
  rw [h.committed]
  exact Store.WellFiled.empty.commit h.committed_encodable

/-- After any history of index calls over an empty store, the keys are in strict byte order; each of
them is read back, its value too, and both name the same offset; the keys of a partition stand
together, in the order of their offsets. So every read of the index succeeds, whatever it asks for. -/
theorem integrity_history (settings : Settings) (scratches : Nat → Scratch) (history : List Command)
    (hcalls : ∀ c ∈ history, c.isIndexCall) :
    let w := (Workspace.runAll { settings, scratches } history).2
    w.store.keys.Pairwise Before ∧
    (∀ key ∈ w.store.keys, ∃ k value e, Key.decode key = .ok k ∧ w.store.get key = some value ∧
      Entry.decode value = .ok e ∧ e.queueOffset = k.offset) ∧
    (∀ p : Partition, ∃ (front block back : List Bytes) (offsets : List UInt64),
      w.store.keys = front ++ block ++ back ∧
      block.map Key.decode = offsets.map (fun o => .ok ⟨p, o⟩) ∧ offsets.Pairwise (· < ·) ∧
      ∀ key ∈ front ++ back, ∀ o, Key.decode key ≠ .ok ⟨p, o⟩) ∧
    ∀ q : Queue, q.partition.Encodable →
      (∀ offset, ∃ found, w.index.pointGet q offset = .ok found) ∧
      (∀ start count, ∃ entries, (w.index.rangeGet q start count).result = .ok entries) ∧
      ∀ mode target low high, ∃ found, (w.index.search q mode target low high).result = .ok found := by
  intro w
  have hw : Journal.Describes _ w := (Journal.Describes.start settings scratches).runAll hcalls
  have hfiled := hw.wellFiled
  refine ⟨w.store.pairwise_keys, fun key => hfiled.decode_of_mem, hfiled.exists_partition_block,
    fun q hq => ⟨fun offset => ⟨_, hw.pointGet hq offset⟩, ?_, ?_⟩⟩
  · rw [hw.index_eq]
    exact Index.rangeGet_ok _ hfiled hq
  · rw [hw.index_eq]
    exact Index.search_ok _ hfiled hq

/-- Two partitions of which one topic begins with the other, written in any order, one of them
removed and written again. -/
theorem integrity_history_of_two_partitions :
    let q : Queue := ⟨"t", -1⟩
    let p : Partition := ⟨[116, 1], 0⟩
    let e (offset : UInt64) : Entry := ⟨1, 100, 0, 0, offset⟩
    let history : List Command := [.append 0 q.partition (e 9), .appendScratch 0 0 p (e 3), .commit 0,
      .deletePartition 1 q, .appendAll 1 q.partition [e 8, e 7], .commit 1]
    let w := (Workspace.runAll { settings := {}, scratches := fun _ => {} } history).2
    (∀ c ∈ history, c.isIndexCall) ∧ w.store.keys.Pairwise Before ∧ q.partition.Encodable ∧
      ∃ entries, (w.index.rangeGet q 7 100).result = .ok entries := by
  intro q p e history w
  have hcalls : ∀ c ∈ history, c.isIndexCall := by decide
  have hq : q.partition.Encodable := by decide
  obtain ⟨hkeys, -, -, hreads⟩ := integrity_history {} (fun _ => {}) history hcalls
  exact ⟨hcalls, hkeys, hq, (hreads q hq).2.1 7 100⟩

end MessageIndex
