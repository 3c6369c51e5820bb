import MessageIndex.Store
import MessageIndex.Proofs.ByteOrder

/-!
# Proofs: the keys of a store in order

A store lists each of its keys once, in byte order, so the keys of a range stand together
(`exists_block`).
-/

namespace MessageIndex

open Bytes

namespace Bytes

/-- In order, what comes before a bound stands in front of what does not. -/
theorem exists_split {keys : List Bytes} (h : keys.Pairwise Before) (bound : Bytes) :
    ∃ front back, keys = front ++ back ∧ (∀ key ∈ front, Before key bound) ∧
      ∀ key ∈ back, ¬ Before key bound := by
  induction keys with
  | nil => exact ⟨[], [], rfl, nofun, nofun⟩
  | cons key keys ih =>
    obtain ⟨hfirst, hrest⟩ := List.pairwise_cons.mp h
    by_cases hkey : Before key bound
    · obtain ⟨front, back, hsplit, hfront, hback⟩ := ih hrest
      exact ⟨key :: front, back, congrArg _ hsplit, List.forall_mem_cons.mpr ⟨hkey, hfront⟩, hback⟩
    · refine ⟨[], key :: keys, rfl, nofun, List.forall_mem_cons.mpr ⟨hkey, fun other hother => ?_⟩⟩
      exact fun hc => hkey ((hfirst other hother).trans hc)

/-- In order, the keys of a range stand together. -/
theorem exists_block {keys : List Bytes} (h : keys.Pairwise Before) (start stop : Bytes) :
    ∃ front block back, keys = front ++ block ++ back ∧ (∀ key ∈ block, InRange start stop key) ∧
      ∀ key ∈ front ++ back, ¬ InRange start stop key := by
  obtain ⟨front, rest, rfl, hfront, hrest⟩ := exists_split h start
  obtain ⟨block, back, rfl, hblock, hback⟩ := exists_split (List.pairwise_append.mp h).2.1 stop
  refine ⟨front, block, back, (List.append_assoc _ _ _).symm, fun key hkey => ?_, fun key hkey => ?_⟩
  · exact ⟨hrest key (List.mem_append_left _ hkey), hblock key hkey⟩
  · rintro ⟨hlow, hhigh⟩
    rcases List.mem_append.mp hkey with hin | hin
    · exact hlow (hfront key hin)
    · exact hback key hin hhigh

end Bytes

namespace Store

/-- The keys are listed in byte order, each of them once. -/
theorem pairwise_keys (s : Store) : s.keys.Pairwise Before := Std.ExtTreeMap.ordered_keys

/-- The keys listed are those under which a value is filed. -/
theorem mem_keys_iff {s : Store} {key : Bytes} : key ∈ s.keys ↔ ∃ value, s.get key = some value := by
  unfold keys get
  rw [Std.ExtTreeMap.mem_keys, Std.ExtTreeMap.mem_iff_isSome_getElem?, Option.isSome_iff_exists]

end Store

end MessageIndex
