import MessageIndex.Proofs.Footprint

/-!
# Proofs: what was committed can be committed again

What is under a key after some writes was left there by the last of them that touches it. Made once more,
the same writes end with the same one, so they change nothing (`foldl_apply_foldl_apply`). It follows that
a store does not mind when its latest batches are committed again, in their order, whatever they write and
remove (`commit_replay`).
-/

namespace MessageIndex

namespace Store

/-- Writes made again change nothing. -/
theorem foldl_apply_foldl_apply (s : Store) (ops : List BatchOp) :
    ops.foldl apply (ops.foldl apply s) = ops.foldl apply s := by
  refine ext_get fun key => ?_
  rw [get_foldl_apply, get_foldl_apply]
  cases BatchOp.lastOn key ops with
  | none => rfl
  | some op => rfl

/-- The effect of some batches, committed in order. -/
def commitAll (s : Store) (batches : List Batch) : Store := batches.foldl commit s

/-- Batches committed one after the other have the effect of all their writes in one list. -/
theorem commitAll_eq_foldl_apply (s : Store) (batches : List Batch) :
    s.commitAll batches = (batches.flatMap Batch.ops).foldl apply s :=
  List.foldl_flatMap.symm

theorem commitAll_append (s : Store) (front back : List Batch) :
    s.commitAll (front ++ back) = (s.commitAll front).commitAll back := List.foldl_append

/-- Of the batches that were committed, those from any one on can be committed again, in the same order:
the store stays as it is. And the writes of two batches may as well be committed in one. -/
theorem commit_replay (s : Store) (batches : List Batch) (i : Nat) (b b' : Batch) :
    (s.commitAll batches).commitAll (batches.drop i) = s.commitAll batches ∧
    s.commit ⟨b.ops ++ b'.ops⟩ = (s.commit b).commit b' := by
  refine ⟨?_, List.foldl_append⟩
  have hsplit : s.commitAll batches = (s.commitAll (batches.take i)).commitAll (batches.drop i) := by
    rw [← commitAll_append, List.take_append_drop]
  rw [hsplit, commitAll_eq_foldl_apply _ (batches.drop i), commitAll_eq_foldl_apply _ (batches.drop i),
    foldl_apply_foldl_apply]

end Store

end MessageIndex
