import MessageIndex.Proofs.Footprint

/-!
# Proofs: writers of different partitions do not wait for each other

Writes of different partitions touch no common key, so each of them can change places with all of a
batch of the other writer (`Store.foldl_apply_comm`). It follows, write by write, that a batch in which
the writes of two writers are mixed leaves what the two batches leave one after the other, and so that
the order of the two does not matter either.
-/

namespace MessageIndex

/-- The third list holds the items of the other two and keeps the order of each. -/
inductive Interleaved {α : Type} : List α → List α → List α → Prop where
  /-- No items are left. -/
  | nil : Interleaved [] [] []
  /-- The next item is the next one of the first list. -/
  | left {a : α} {xs ys zs : List α} (rest : Interleaved xs ys zs) :
    Interleaved (a :: xs) ys (a :: zs)
  /-- The next item is the next one of the second list. -/
  | right {a : α} {xs ys zs : List α} (rest : Interleaved xs ys zs) :
    Interleaved xs (a :: ys) (a :: zs)

namespace Interleaved

variable {α : Type}

theorem nil_right (xs : List α) : Interleaved xs [] xs := by
  induction xs with
  | nil => exact .nil
  | cons x xs ih => exact .left ih

/-- The second list as a whole may come first. -/
theorem append_swap (xs ys : List α) : Interleaved xs ys (ys ++ xs) := by
  induction ys with
  | nil => exact nil_right xs
  | cons y ys ih => exact .right ih

end Interleaved

namespace Store

/-- A write changes places with all writes that touch none of its keys. -/
theorem foldl_apply_comm {op : BatchOp} {ops : List BatchOp}
    (h : ∀ op' ∈ ops, ∀ key, op'.Touches key → ¬ op.Touches key) (s : Store) :
    ops.foldl apply (s.apply op) = (ops.foldl apply s).apply op := by
  induction ops generalizing s with
  | nil => rfl
  | cons op' ops ih =>
    obtain ⟨hop, hrest⟩ := List.forall_mem_cons.mp h
    rw [List.foldl_cons, List.foldl_cons, ← ih hrest, apply_comm hop]

/-- Mixed writes of which none of one side touches a key of the other leave what the two sides leave
one after the other. -/
theorem foldl_apply_interleaved {xs ys zs : List BatchOp} (hmix : Interleaved xs ys zs)
    (h : ∀ x ∈ xs, ∀ y ∈ ys, ∀ key, x.Touches key → ¬ y.Touches key) (s : Store) :
    zs.foldl apply s = ys.foldl apply (xs.foldl apply s) := by
  induction hmix generalizing s with
  | nil => rfl
  | left rest ih =>
    rw [List.foldl_cons, List.foldl_cons, ih fun x hx => h x (List.mem_cons_of_mem _ hx)]
  | right rest ih =>
    rw [List.foldl_cons, List.foldl_cons, ih fun x hx y hy => h x hx y (List.mem_cons_of_mem _ hy),
      foldl_apply_comm fun x hx => h x hx _ List.mem_cons_self]

/-- Batches staged for different partitions can be committed in either order, or mixed into one batch
that keeps the order of each: the store is the same in the end, whatever it held before. -/
theorem commit_interleaved {ps ps' : Set Partition} (hps : ∀ p ∈ ps, p ∉ ps') {b b' : Batch}
    (hb : b.StagedFor ps) (hb' : b'.StagedFor ps') (s : Store) :
    (s.commit b).commit b' = (s.commit b').commit b ∧
    ∀ mixed : Batch, Interleaved b.ops b'.ops mixed.ops →
      s.commit mixed = (s.commit b).commit b' := by
  have hdisjoint : ∀ x ∈ b.ops, ∀ y ∈ b'.ops, ∀ key, x.Touches key → ¬ y.Touches key :=
    fun x hx y hy => (hb.within x hx).disjoint (hb'.within y hy) hps
  have hmixed (zs : List BatchOp) (hmix : Interleaved b.ops b'.ops zs) :
      zs.foldl apply s = (s.commit b).commit b' := foldl_apply_interleaved hmix hdisjoint s
  refine ⟨?_, fun mixed hmix => hmixed mixed.ops hmix⟩
  rw [← hmixed _ (.append_swap b.ops b'.ops), List.foldl_append]
  rfl

/-- An append mixed into the rewriting of a partition whose topic begins with its own. -/
theorem commit_interleaved_of_longer_topic :
    let q : Queue := ⟨"t", 0⟩
    let q' : Queue := ⟨"t\x01", 0⟩
    let e : Entry := ⟨1, 100, 0, 0, 7⟩
    let b : Batch := ⟨[(IndexOp.append q.partition e).write]⟩
    let b' : Batch := ⟨[(IndexOp.remove q'.partition).write, (IndexOp.append q'.partition e).write]⟩
    let mixed : Batch := ⟨[(IndexOp.remove q'.partition).write, (IndexOp.append q.partition e).write,
      (IndexOp.append q'.partition e).write]⟩
    (∀ p ∈ ({q.partition} : Set Partition), p ∉ ({q'.partition} : Set Partition)) ∧
      b.StagedFor {q.partition} ∧ b'.StagedFor {q'.partition} ∧
      ∀ s : Store, s.commit mixed = (s.commit b').commit b := by
  intro q q' e b b' mixed
  have hq : q.partition.Encodable := by decide
  have hq' : q'.partition.Encodable := by decide
  have hps : ∀ p ∈ ({q.partition} : Set Partition), p ∉ ({q'.partition} : Set Partition) := by
    rintro p rfl
    show ¬ q.partition = q'.partition
    decide
  have hb : b.StagedFor {q.partition} := .append .empty rfl (Batch.append_eq_ok_iff.mpr ⟨hq, rfl⟩)
  have hb' : b'.StagedFor {q'.partition} :=
    .append (.deletePartition .empty rfl (Batch.deletePartition_eq_ok_iff.mpr ⟨hq', rfl⟩)) rfl
      (Batch.append_eq_ok_iff.mpr ⟨hq', rfl⟩)
  refine ⟨hps, hb, hb', fun s => ?_⟩
  obtain ⟨hswap, hmixed⟩ := commit_interleaved hps hb hb' s
  rw [← hswap]
  exact hmixed mixed (.right (.left (.right .nil)))

end Store

end MessageIndex
