import MessageIndex.Proofs.Footprint
import MessageIndex.Proofs.StoreKeys
import MessageIndex.Store.View

/-!
# Proofs: the last write on a key wins

Under every key, a batch leaves what the last of its writes on that key says, and keeps what was there if
no write is on it (`commit_last_write`). The keys of the store afterwards are those with a value, once each
and in order, and reading several of them together is reading one after the other.
-/

namespace MessageIndex

open Bytes

theorem Bytes.InRange.before {start stop key : Bytes} (h : InRange start stop key) :
    Before start stop := by
  obtain ⟨hstart, hstop⟩ := h
  cases hcompare : compare key start with
  | lt => exact absurd hcompare hstart
  | eq =>
    obtain rfl := compare_eq_iff.mp hcompare
    exact hstop
  | gt => exact (compare_eq_gt_iff.mp hcompare).trans hstop

namespace BatchOp

variable {key : Bytes} {ops : List BatchOp} {op : BatchOp}

/-- The write touches the key, and none of those after it does. -/
def IsLastOn (key : Bytes) (ops : List BatchOp) (op : BatchOp) : Prop :=
  op.Touches key ∧
    ∃ before later, ops = before ++ op :: later ∧ ∀ other ∈ later, ¬ other.Touches key

theorem lastOn_eq_some_iff : lastOn key ops = some op ↔ IsLastOn key ops op := by
  unfold lastOn IsLastOn
  rw [List.find?_eq_some_iff_append, decide_eq_true_iff]
  refine and_congr_right fun _ => ?_
  constructor
  · rintro ⟨front, back, hsplit, hfront⟩
    refine ⟨back.reverse, front.reverse, ?_, fun other hother => ?_⟩
    · rw [← List.reverse_reverse ops, hsplit]
      simp
    · simpa using hfront other (List.mem_reverse.mp hother)
  · rintro ⟨before, later, rfl, hlater⟩
    refine ⟨later.reverse, before.reverse, by simp, fun other hother => ?_⟩
    simpa using hlater other (List.mem_reverse.mp hother)

theorem lastOn_eq_none_iff : lastOn key ops = none ↔ ∀ op ∈ ops, ¬ op.Touches key := by
  unfold lastOn
  rw [List.find?_eq_none]
  simp

/-- Either a last write on a key is there, which files a value or removes what was there, or there is none
at all. -/
theorem exists_isLastOn (key : Bytes) (ops : List BatchOp) :
    (∃ value, IsLastOn key ops (put key value)) ∨
    (∃ start stop, IsLastOn key ops (deleteRange start stop)) ∨ ∀ op ∈ ops, ¬ op.Touches key := by
  cases hlast : lastOn key ops with
  | none => exact .inr (.inr (lastOn_eq_none_iff.mp hlast))
  | some op =>
    have h : IsLastOn key ops op := lastOn_eq_some_iff.mp hlast
    cases op with
    | put k value =>
      obtain rfl : k = key := h.1
      exact .inl ⟨value, h⟩
    | deleteRange start stop => exact .inr (.inl ⟨start, stop, h⟩)

end BatchOp

namespace Store

theorem get_commit_of_isLastOn (s : Store) {b : Batch} {key : Bytes} {op : BatchOp}
    (h : BatchOp.IsLastOn key b.ops op) : (s.commit b).get key = op.leaves := by
  show (b.ops.foldl apply s).get key = _
  rw [get_foldl_apply, BatchOp.lastOn_eq_some_iff.mpr h]
  rfl

theorem multiGet_view (s : Store) (keys : List Bytes) :
    s.view.multiGet keys = keys.mapM s.view.get := by
  have hview : s.view.get = fun key => pure (s.get key) := rfl
  rw [hview, List.mapM_pure]
  rfl

/-- The last write on a key wins. After a commit, there is under every key
the value of the last write on it if that files one,
nothing if that removes a range the key is in,
and what was there before if no write is on the key, as no removal is whose bounds are not in order.
Afterwards the keys listed are those with a value, in byte order and each of them once, the size is their
number, and reading several keys together is reading one after the other. -/
theorem commit_last_write (s : Store) (b : Batch) :
    let after := s.commit b
    (∀ key value, BatchOp.IsLastOn key b.ops (.put key value) → after.get key = some value) ∧
    (∀ key start stop, BatchOp.IsLastOn key b.ops (.deleteRange start stop) → after.get key = none) ∧
    (∀ key, (∀ op ∈ b.ops, ¬ op.Touches key) → after.get key = s.get key) ∧
    (∀ key, (∃ value, BatchOp.IsLastOn key b.ops (.put key value)) ∨
      (∃ start stop, BatchOp.IsLastOn key b.ops (.deleteRange start stop)) ∨
      ∀ op ∈ b.ops, ¬ op.Touches key) ∧
    (∀ start stop key, ¬ Before start stop → ¬ (BatchOp.deleteRange start stop).Touches key) ∧
    (∀ key, key ∈ after.keys ↔ ∃ value, after.get key = some value) ∧
    after.keys.Pairwise Before ∧ after.size = after.keys.length ∧
    ∀ keys, after.view.multiGet keys = keys.mapM after.view.get := by
  intro after
  refine ⟨fun _ _ => s.get_commit_of_isLastOn, fun _ _ _ => s.get_commit_of_isLastOn,
    fun _ => s.get_commit_of_not_touches, fun key => BatchOp.exists_isLastOn key b.ops,
    fun _ _ _ horder hkey => horder (InRange.before hkey), fun _ => mem_keys_iff, after.pairwise_keys,
    Std.ExtTreeMap.length_keys.symm, after.multiGet_view⟩

/-- Of the writes on four keys, one is removed again, one is written behind its removal, and the last
removal has its bounds the wrong way round. -/
theorem commit_last_write_of_overlapping_writes :
    let b : Batch := ⟨[.put [97] [1], .put [97, 0] [2], .deleteRange [97] [98], .put [] [3],
      .put [97, 0] [4], .deleteRange [99] []]⟩
    let s : Store := Store.put {} [98] [5]
    (s.commit b).get [97] = none ∧ (s.commit b).get [97, 0] = some [4] ∧
      (s.commit b).get [98] = some [5] ∧ (s.commit b).get [] = some [3] := by
  intro b s
  obtain ⟨hput, hremove, hkeep, -⟩ := commit_last_write s b
  refine ⟨hremove [97] [97] [98] ?_, hput [97, 0] [4] ?_, ?_, hput [] [3] ?_⟩
  · exact ⟨by decide, [.put [97] [1], .put [97, 0] [2]], _, rfl, by decide⟩
  · exact ⟨by decide, [.put [97] [1], .put [97, 0] [2], .deleteRange [97] [98], .put [] [3]], _, rfl,
      by decide⟩
  · rw [hkeep [98] (by decide)]
    exact (get_put {} [98] [5] [98]).trans (if_pos rfl)
  · exact ⟨by decide, [.put [97] [1], .put [97, 0] [2], .deleteRange [97] [98]], _, rfl, by decide⟩

end Store

end MessageIndex
