import MessageIndex.Search

/-!
# Probes given by data

A probe need not read a store: here one is given by a list of offsets at which it fails, a list of
records, and a stretch of offsets whose positions grow evenly. The first of the three that speaks of
an offset decides; an offset that none speaks of is a hole.
-/

namespace MessageIndex

/-- A stretch of offsets whose positions grow by the same step. -/
structure EvenStretch where
  /-- The first offset of the stretch. -/
  first : UInt64
  /-- The last offset of the stretch. -/
  last : UInt64
  /-- How much the position grows from one offset to the next. -/
  step : UInt64
  /-- The position at the first offset. -/
  base : UInt64

namespace EvenStretch

/-- The position at an offset, within the word; nothing outside the stretch. -/
def position (s : EvenStretch) (offset : UInt64) : Option UInt64 :=
  if s.first ≤ offset ∧ offset ≤ s.last then some ((offset - s.first) * s.step + s.base) else none

end EvenStretch

/-- The failure of a probe at an offset. -/
structure ProbeFailure where
  /-- The offset probed. -/
  offset : UInt64
  deriving DecidableEq, Repr

/-- The text shown for a failed probe. -/
def ProbeFailure.message (f : ProbeFailure) : String := s!"probe failed at {f.offset}"

/-- A probe given by data. -/
structure ProbeData where
  /-- The offsets at which it fails. -/
  failing : List UInt64 := []
  /-- Offsets with their positions. -/
  records : List (UInt64 × UInt64) := []
  /-- An even stretch of further positions. -/
  stretch : Option EvenStretch := none

namespace ProbeData

/-- The answer at an offset. -/
def probe (d : ProbeData) : Probe ProbeFailure := fun offset =>
  if offset ∈ d.failing then .error ⟨offset⟩
  else .ok ((d.records.lookup offset).or (d.stretch.bind fun s => s.position offset))

/-- Without a stretch, the answer at an offset is looked up among the records. -/
theorem probe_eq_lookup {d : ProbeData} (hd : d.stretch = none) {offset : UInt64}
    (h : offset ∉ d.failing) : d.probe offset = .ok (d.records.lookup offset) := by
  rw [probe, if_neg h, hd, Option.bind_none, Option.or_none]

theorem mem_records {d : ProbeData} (hd : d.stretch = none) {offset v : UInt64}
    (h : d.probe offset = .ok (some v)) : (offset, v) ∈ d.records := by
  have hfine : offset ∉ d.failing := by
    intro hc
    rw [probe, if_pos hc] at h
    cases h
  rw [probe_eq_lookup hd hfine] at h
  obtain ⟨front, back, hsplit, -⟩ := List.lookup_eq_some_iff.mp (Except.ok.inj h)
  rw [hsplit]
  exact List.mem_append_right _ List.mem_cons_self

end ProbeData

end MessageIndex
