import Mathlib.Data.List.Basic
import MessageIndex.Index.Buffered
import MessageIndex.Proofs.PointRead
import MessageIndex.Proofs.ReusedBuffers
import MessageIndex.Proofs.SearchSteps

/-!
# Proofs: an index searches what it stores

A search of an index is the search of a probe that makes one point read for each offset: it fails where a
point read fails, with the same complaint, and passes a hole where that finds nothing (`search_stored`).
That it reads a single field of an entry, that it encodes all its keys in one buffer and that it reports
its probes makes no difference to what it finds. Nothing is assumed about the store.
-/

namespace MessageIndex

open Bytes

namespace Search

variable {σ ε : Type} {rule : Rule} {probe : Probe ε} {keeping : KeepingProbe σ ε}
  {next : σ → UInt64 → σ}

/-- A probe whose answers do not depend on what it keeps leads the same way as one that keeps nothing.
What is kept in the end is made by the offsets probed, in order. -/
theorem bisectKeeping_eq (h : ∀ kept offset, keeping kept offset = (probe offset, next kept offset))
    (kept : σ) (low high : UInt64) (found : Option Found) :
    bisectKeeping rule keeping kept low high found =
      (bisect rule probe low high found,
        (bisect rule probe low high found).probes.foldl next kept) := by
  fun_induction bisectKeeping rule keeping kept low high found with
  | case1 kept low high found hle mid cause kept' hasked =>
    obtain ⟨hprobe, rfl⟩ := Prod.mk.inj ((h kept mid).symm.trans hasked)
    rw [bisect_of_error hle hprobe]
    rfl
  | case2 kept low high found hle mid answer kept' hasked found' hend =>
    obtain ⟨hprobe, rfl⟩ := Prod.mk.inj ((h kept mid).symm.trans hasked)
    rw [bisect_of_end hle hprobe hend]
    rfl
  | case3 kept low high found hle mid answer kept' hasked found' low' high' hnext rest kept'' hrest ih =>
    obtain ⟨hprobe, rfl⟩ := Prod.mk.inj ((h kept mid).symm.trans hasked)
    rw [bisect_of_next hle hprobe hnext]
    obtain ⟨rfl, rfl⟩ := Prod.mk.inj (hrest.symm.trans ih)
    rfl
  | case4 kept low high found hempty =>
    rw [bisect_of_empty hempty]
    rfl

end Search

namespace Index

variable (ix : Index) (q : Queue)

/-- What the store answers for an offset, before anything is made of it. -/
def stored (offset : UInt64) : Except IndexError (Option Bytes) :=
  (q.key offset).encode >>= ix.view.get

/-- The physical positions of a queue, by point reads. -/
def positions : Probe IndexError := fun offset =>
  (ix.pointGet q offset).map fun found => found.map Entry.physicalOffset

/-- The report that the store was asked for an offset, if it answered. -/
def readEvent (offset : UInt64) : Option Event :=
  match ix.stored q offset with
  | .error _ => none
  | .ok value => some (.probed q offset value.isSome)

/-! ## What a probe answers -/

theorem positions_eq_bind (offset : UInt64) : ix.positions q offset =
    ix.stored q offset >>= fun value =>
      value.mapM fun bytes => (Entry.decode bytes).map Entry.physicalOffset := by
  have hread : ix.pointGet q offset = ix.stored q offset >>= fun value => value.mapM Entry.decode :=
    pointGet_eq ix q offset
  unfold positions
  rw [hread]
  cases ix.stored q offset with
  | error cause => rfl
  | ok value =>
    cases value with
    | none => rfl
    | some bytes =>
      show (some <$> Entry.decode bytes).map _ = some <$> (Entry.decode bytes).map _
      cases Entry.decode bytes with
      | error cause => rfl
      | ok e => rfl

/-- A point read fails where the store does not answer or its value has the wrong length. -/
theorem positions_eq (offset : UInt64) : ix.positions q offset =
    match ix.stored q offset with
    | .error cause => .error cause
    | .ok none => .ok none
    | .ok (some value) =>
      if value.length = 36 then .ok (some (UInt64.ofNat (toNat (value.take 8))))
      else .error (.malformedEntry value.length) := by
  rw [positions_eq_bind]
  cases ix.stored q offset with
  | error cause => rfl
  | ok value =>
    cases value with
    | none => rfl
    | some bytes =>
      show some <$> (Entry.decode bytes).map Entry.physicalOffset = if bytes.length = 36 then _ else _
      by_cases hlen : bytes.length = 36
      · rw [if_pos hlen, Entry.decode_eq_of_length hlen]
        rfl
      · rw [if_neg hlen, Entry.decode_of_length_ne hlen]
        rfl

/-- The field that a probe reads is the one of the whole entry. -/
theorem probe_result (offset : UInt64) : (ix.probe q offset).result = ix.positions q offset := by
  have hfield : (fun bytes => Entry.readField bytes .physicalOffset) =
      fun bytes => (Entry.decode bytes).map Entry.physicalOffset :=
    funext fun bytes => Entry.readField_eq bytes .physicalOffset
  rw [positions_eq_bind]
  unfold probe stored
  rw [hfield]
  cases (q.key offset).encode >>= ix.view.get with
  | error cause => rfl
  | ok value => rfl

theorem probe_events (offset : UInt64) : (ix.probe q offset).events =
    if ix.settings.enableSearchLog then (ix.readEvent q offset).toList else [] := by
  unfold probe readEvent stored
  cases (q.key offset).encode >>= ix.view.get with
  | error cause => exact (ite_self _).symm
  | ok value => rfl

/-! ## The whole search -/

theorem search_result (mode : Search.Mode) (target low high : UInt64) :
    (ix.search q mode target low high).result =
      (MessageIndex.search mode target (ix.positions q) low high).result := by
  unfold search
  rw [funext (ix.probe_result q)]

theorem search_events (mode : Search.Mode) (target low high : UInt64) :
    (ix.search q mode target low high).events =
      if ix.settings.enableSearchLog then
        (MessageIndex.search mode target (ix.positions q) low high).probes.filterMap (ix.readEvent q)
      else [] := by
  unfold search
  simp only [funext (ix.probe_result q), funext (ix.probe_events q)]
  by_cases hlog : ix.settings.enableSearchLog
  · simp only [if_pos hlog]
    exact (List.filterMap_eq_flatMap_toList _ _).symm
  · simp only [if_neg hlog]
    exact List.flatMap_eq_nil_iff.mpr fun _ _ => rfl

/-! ## One buffer for all keys -/

/-- What a search has in hand after it asked for an offset. -/
def asked (kept : Searching) (offset : UInt64) : Searching :=
  ⟨((q.key offset).encodeInto kept.buffer).2, kept.events ++ (ix.probe q offset).events⟩

/-- The buffer is cleared before each key, so a probe answers and reports as without it. -/
theorem probeBuffered_eq (kept : Searching) (offset : UInt64) :
    ix.probeBuffered q kept offset = ((ix.probe q offset).result, ix.asked q kept offset) := by
  unfold probeBuffered asked probe
  by_cases hq : q.partition.Encodable
  · have hkey : (q.key offset).encode = .ok (q.key offset).bytes := Key.encode_of_encodable hq
    have hinto : (q.key offset).encodeInto kept.buffer = (.ok (q.key offset).bytes, _) :=
      Key.encodeInto_of_encodable hq kept.buffer
    rw [hkey, hinto]
    simp only [bind, Except.bind]
    cases ix.view.get (q.key offset).bytes with
    | error cause => simp only [List.append_nil]
    | ok value => rfl
  · have hkey : (q.key offset).encode = .error _ := Key.encode_of_not_encodable hq
    have hinto : (q.key offset).encodeInto kept.buffer = (.error _, kept.buffer) :=
      Key.encodeInto_of_not_encodable hq kept.buffer
    rw [hkey, hinto]
    simp only [bind, Except.bind, List.append_nil]

theorem events_foldl_asked (kept : Searching) (probes : List UInt64) :
    (probes.foldl (ix.asked q) kept).events =
      kept.events ++ probes.flatMap fun offset => (ix.probe q offset).events := by
  induction probes generalizing kept with
  | nil => exact (List.append_nil _).symm
  | cons offset probes ih =>
    rw [List.foldl_cons, ih, List.flatMap_cons, ← List.append_assoc]
    rfl

theorem searchBuffered_eq (buffer : Bytes) (mode : Search.Mode) (target low high : UInt64) :
    ix.searchBuffered buffer q mode target low high = ix.search q mode target low high := by
  unfold searchBuffered search
  rw [Search.bisectKeeping_eq (ix.probeBuffered_eq q)]
  simp only [events_foldl_asked, List.nil_append]
  rfl

/-- A search of an index gives what the search of a probe gives that makes one point read for each
offset. That fails with the store, or on a value of another length than an entry's. Whether probes are
reported changes nothing but the reports: there are none, or one warning for each probe that the store
answered, in order, whatever it answered. Nor does it matter that all keys are encoded in one buffer. -/
theorem search_stored (mode : Search.Mode) (target low high : UInt64) :
    let run := MessageIndex.search mode target (ix.positions q) low high
    let reporting (enableSearchLog : Bool) : Index := ⟨{ ix.settings with enableSearchLog }, ix.view⟩
    (∀ offset, ix.positions q offset =
      match ix.stored q offset with
      | .error cause => .error cause
      | .ok none => .ok none
      | .ok (some value) =>
        if value.length = 36 then .ok (some (UInt64.ofNat (toNat (value.take 8))))
        else .error (.malformedEntry value.length)) ∧
    (∀ enable, ((reporting enable).search q mode target low high).result = run.result) ∧
    ((reporting false).search q mode target low high).events = [] ∧
    ((reporting true).search q mode target low high).events = run.probes.filterMap (ix.readEvent q) ∧
    (∀ offset present, (Event.probed q offset present).level = .warn) ∧
    ∀ buffer enable, (reporting enable).searchBuffered buffer q mode target low high =
      (reporting enable).search q mode target low high := by
  intro run reporting
  refine ⟨ix.positions_eq q, fun enable => ?_, ?_, ?_, fun _ _ => rfl, fun buffer enable => ?_⟩
  · exact (reporting enable).search_result q mode target low high
  · exact (reporting false).search_events q mode target low high
  · exact (reporting true).search_events q mode target low high
  · exact (reporting enable).searchBuffered_eq q buffer mode target low high

end Index

end MessageIndex
