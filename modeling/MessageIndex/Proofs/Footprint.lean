import Mathlib.Data.List.Induction
import Mathlib.Data.Set.Defs
import MessageIndex.Proofs.Journal

/-!
# Proofs: the keys a write can touch

A write touches some keys and leaves the same thing under all of them; under every other key it
changes nothing (`Store.get_apply`). So writes that touch no common key can change places, and a batch
is not seen under a key that none of its writes touches. What the calls of an index stage touches keys
of their own partition only (`Batch.StagedFor.within`), and no key belongs to two partitions.
-/

namespace MessageIndex

open Bytes

/-! ## Single writes -/

namespace BatchOp

/-- The keys whose value a write determines. -/
def Touches : BatchOp → Bytes → Prop
  | put key _, other => key = other
  | deleteRange start stop, key => InRange start stop key

instance (op : BatchOp) (key : Bytes) : Decidable (op.Touches key) := by
  cases op <;> unfold Touches <;> infer_instance

/-- What a write leaves under the keys it touches. -/
def leaves : BatchOp → Option Bytes
  | put _ value => some value
  | deleteRange _ _ => none

/-- The last of some writes that touches a key. -/
def lastOn (key : Bytes) (ops : List BatchOp) : Option BatchOp :=
  ops.reverse.find? fun op => op.Touches key

end BatchOp

namespace Store

/-- A write determines the value under the keys it touches and keeps all others. -/
theorem get_apply (s : Store) (op : BatchOp) (key : Bytes) :
    (s.apply op).get key = if op.Touches key then op.leaves else s.get key := by
  cases op with
  | put k value => exact get_put s k value key
  | deleteRange start stop => exact get_deleteRange s start stop key

/-- Writes that touch no common key can change places. -/
theorem apply_comm {op op' : BatchOp} (h : ∀ key, op.Touches key → ¬ op'.Touches key) (s : Store) :
    (s.apply op).apply op' = (s.apply op').apply op := by
  refine ext_get fun key => ?_
  rw [get_apply, get_apply, get_apply, get_apply]
  by_cases hop : op.Touches key
  · rw [if_neg (h key hop), if_pos hop, if_pos hop]
  · rw [if_neg hop, if_neg hop]

/-- After some writes, the last one on a key decides what is under it. -/
theorem get_foldl_apply (s : Store) (ops : List BatchOp) (key : Bytes) :
    (ops.foldl apply s).get key = (BatchOp.lastOn key ops).elim (s.get key) BatchOp.leaves := by
  -- From the end, because the last write overrules those before it.
  induction ops using List.reverseRecOn with
  | nil => rfl
  | append_singleton ops op ih =>
    rw [List.foldl_append, List.foldl_cons, List.foldl_nil, get_apply, ih]
    unfold BatchOp.lastOn
    rw [List.reverse_append, List.reverse_singleton, List.singleton_append, List.find?_cons]
    by_cases hop : op.Touches key
    · rw [if_pos hop, decide_eq_true hop]
      rfl
    · rw [if_neg hop, decide_eq_false hop]

/-- A batch is not seen under a key that none of its writes touches. -/
theorem get_commit_of_not_touches {b : Batch} {key : Bytes} (s : Store)
    (h : ∀ op ∈ b.ops, ¬ op.Touches key) : (s.commit b).get key = s.get key := by
  have hnone : BatchOp.lastOn key b.ops = none := by
    refine List.find?_eq_none.mpr fun op hop => ?_
    rw [decide_eq_true_iff]
    exact h op (List.mem_reverse.mp hop)
  show (b.ops.foldl apply s).get key = _
  rw [get_foldl_apply, hnone]
  rfl

end Store

/-! ## Writes of partitions -/

/-- No key lies between the bounds of two partitions. -/
theorem Bound.eq_of_inRange {p p' : Partition} (hp : p.Encodable) (hp' : p'.Encodable) {key : Bytes}
    (h : InRange (start.bytes p) (stop.bytes p) key)
    (h' : InRange (start.bytes p') (stop.bytes p') key) : p = p' := by
  obtain ⟨b, rest, -, rfl⟩ := inRange_iff.mp h
  obtain ⟨b', rest', -, hkey⟩ := inRange_iff.mp h'
  exact (Partition.header_append_inj hp hp' hkey).1

/-- A write touches nothing but keys between the bounds of some of these partitions. -/
def BatchOp.Within (ps : Set Partition) (op : BatchOp) : Prop :=
  ∀ key, op.Touches key →
    ∃ p ∈ ps, p.Encodable ∧ InRange (Bound.start.bytes p) (Bound.stop.bytes p) key

namespace BatchOp

variable {ps ps' : Set Partition} {op op' : BatchOp}

/-- What an operation of an index writes touches keys of its own partition only. -/
theorem within_write {op : IndexOp} (hop : op.partition.Encodable) (hps : op.partition ∈ ps) :
    op.write.Within ps := by
  cases op with
  | append p e =>
    rintro key rfl
    exact ⟨p, hps, hop, (Bound.inRange_key_iff hop hop).mpr rfl⟩
  | remove p => exact fun _ hkey => ⟨p, hps, hop, hkey⟩

/-- The keys of another partition are not touched. -/
theorem Within.not_touches (h : op.Within ps) {k : Key} (hk : k.partition.Encodable)
    (hps : k.partition ∉ ps) : ¬ op.Touches k.bytes := by
  intro hkey
  obtain ⟨p, hmem, hp, hrange⟩ := h k.bytes hkey
  obtain rfl := (Bound.inRange_key_iff hp hk).mp hrange
  exact hps hmem

/-- Writes of different partitions touch no common key. -/
theorem Within.disjoint (h : op.Within ps) (h' : op'.Within ps') (hps : ∀ p ∈ ps, p ∉ ps')
    (key : Bytes) : op.Touches key → ¬ op'.Touches key := by
  intro hkey hkey'
  obtain ⟨p, hmem, hp, hrange⟩ := h key hkey
  obtain ⟨p', hmem', hp', hrange'⟩ := h' key hkey'
  obtain rfl := Bound.eq_of_inRange hp hp' hrange hrange'
  exact hps p hmem hmem'

end BatchOp

namespace Batch

/-- Batches that hold what calls of an index have staged for some of these partitions, in any number
and order. A call that is refused leaves a batch as it is. -/
inductive StagedFor (ps : Set Partition) : Batch → Prop where
  /-- Nothing has been staged. -/
  | empty : StagedFor ps {}
  /-- An entry has been staged. -/
  | append {b b' : Batch} {p : Partition} {e : Entry} (staged : StagedFor ps b) (mem : p ∈ ps)
      (ok : b.append p e = .ok b') : StagedFor ps b'
  /-- An entry has been staged through reused buffers. -/
  | appendScratch {b b' : Batch} {s : Scratch} {p : Partition} {e : Entry} (staged : StagedFor ps b)
      (mem : p ∈ ps) (ok : (b.appendScratch s p e).1 = .ok b') : StagedFor ps b'
  /-- The entry of a dispatched message has been staged through reused buffers. -/
  | appendDispatch {b b' : Batch} {s : Scratch} {r : DispatchRequest} (staged : StagedFor ps b)
      (mem : r.queue.partition ∈ ps) (ok : (b.appendDispatch s r).1 = .ok b') : StagedFor ps b'
  /-- The removal of a partition has been staged. -/
  | deletePartition {b b' : Batch} {q : Queue} (staged : StagedFor ps b) (mem : q.partition ∈ ps)
      (ok : (b.deletePartition q).result = .ok b') : StagedFor ps b'

variable {ps : Set Partition} {b b' : Batch}

theorem append_eq_ok_iff {p : Partition} {e : Entry} :
    b.append p e = .ok b' ↔ p.Encodable ∧ b' = b.push (IndexOp.append p e).write :=
  Partition.eq_ok_iff_encodable (fun hp => b.append_of_encodable hp e)
    fun hp => b.append_of_not_encodable hp e

theorem deletePartition_eq_ok_iff {q : Queue} :
    (b.deletePartition q).result = .ok b' ↔
      q.partition.Encodable ∧ b' = b.push (IndexOp.remove q.partition).write :=
  Partition.eq_ok_iff_encodable b.deletePartition_of_encodable b.deletePartition_of_not_encodable

theorem within_push {op : IndexOp} (h : ∀ write ∈ b.ops, write.Within ps)
    (hop : op.partition.Encodable) (hps : op.partition ∈ ps) :
    ∀ write ∈ (b.push op.write).ops, write.Within ps := by
  intro write hwrite
  rcases List.mem_append.mp hwrite with hold | hnew
  · exact h write hold
  · rw [List.mem_singleton.mp hnew]
    exact BatchOp.within_write hop hps

/-- Calls for some partitions stage writes that touch keys of these partitions only. -/
theorem StagedFor.within (h : b.StagedFor ps) : ∀ write ∈ b.ops, write.Within ps := by
  induction h with
  | empty => exact fun _ hop => absurd hop List.not_mem_nil
  | append staged mem ok ih =>
    obtain ⟨hp, rfl⟩ := append_eq_ok_iff.mp ok
    exact within_push ih hp mem
  | appendScratch staged mem ok ih =>
    rw [appendScratch_eq_append] at ok
    obtain ⟨hp, rfl⟩ := append_eq_ok_iff.mp ok
    exact within_push ih hp mem
  | appendDispatch staged mem ok ih =>
    rw [Batch.appendDispatch, appendScratch_eq_append] at ok
    obtain ⟨hp, rfl⟩ := append_eq_ok_iff.mp ok
    exact within_push ih hp mem
  | deletePartition staged mem ok ih =>
    obtain ⟨hq, rfl⟩ := deletePartition_eq_ok_iff.mp ok
    exact within_push ih hq mem

end Batch

end MessageIndex
