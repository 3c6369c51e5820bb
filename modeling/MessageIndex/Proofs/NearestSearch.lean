import MessageIndex.Proofs.SearchGoal

/-!
# Proofs: the nearest offset on either side of a target

A search for the least offset at or after the target is led to it under the same condition as an exact
search: no hole above a position that has reached the target. A search for the greatest offset at or
before the target goes up from there, so it comes back only if it is turned back right behind. The offset
behind the one it looks for must be present too, unless the interval ends (`TurnsBack`).
-/

namespace MessageIndex

namespace Search

variable {ε : Type} {probe : Probe ε} {target low high : UInt64}

theorem leadsTo_ceiling (hmono : NonDecreasing probe low high)
    (hholes : HolesBelow probe target low high) {offset v : UInt64}
    (h : IsLeast (placed probe (target ≤ ·) low high) offset) (hv : probe offset = .ok (some v)) :
    LeadsTo (Mode.rule target .ceiling) probe low high ⟨v, offset⟩ := by
  obtain ⟨hmem, hleast⟩ := h
  obtain ⟨hlow, hhigh, htarget⟩ := (mem_placed_iff hv).mp hmem
  -- Below the least such offset, positions have not reached the target.
  have hbelow {o w : UInt64} (ho : low ≤ o) (hlt : o < offset) (hw : probe o = .ok (some w)) :
      ¬ target ≤ w := by
    intro hreached
    have ho' : o ≤ high := UInt64.le_trans (UInt64.le_of_lt hlt) hhigh
    exact UInt64.not_le.mpr hlt (hleast ⟨ho, ho', w, hw, hreached⟩)
  refine ⟨hv, decide_eq_true htarget, fun o answer ho hlt hprobe => ?_,
    fun o answer hgt ho hprobe => ?_, fun o w ho ho' hbeyond hprobe hrecord => ?_⟩
  · cases answer with
    | none => rfl
    | some w => exact decide_eq_false (hbelow ho hlt hprobe)
  · obtain ⟨w, rfl, hw⟩ :=
      exists_position_above hmono hholes hlow hv htarget (UInt64.le_of_lt hgt) ho hprobe
    exact decide_eq_true hw
  · have hdown : (Mode.rule target .ceiling v).descend = true := decide_eq_true htarget
    rw [hdown] at hbeyond
    exact hbelow ho hbeyond hprobe (of_decide_eq_true hrecord)

/-- No hole is above an offset whose position has passed the target, and none is right above the last
offset whose position has not. -/
structure TurnsBack (probe : Probe ε) (target low high : UInt64) : Prop where
  /-- From a position past the target on there are no holes. -/
  filled : ∀ offset v, low ≤ offset → offset ≤ high → probe offset = .ok (some v) → target < v →
    ∀ offset', offset ≤ offset' → offset' ≤ high → ∃ v', probe offset' = .ok (some v')
  /-- Right behind the last position not past the target there is no hole, if anything. -/
  next : ∀ offset, IsGreatest (placed probe (· ≤ target) low high) offset →
    offset = high ∨ ∃ v, probe (offset + 1) = .ok (some v)

theorem leadsTo_floor (hmono : NonDecreasing probe low high) (hturns : TurnsBack probe target low high)
    {offset v : UInt64} (h : IsGreatest (placed probe (· ≤ target) low high) offset)
    (hv : probe offset = .ok (some v)) :
    LeadsTo (Mode.rule target .floor) probe low high ⟨v, offset⟩ := by
  have ⟨hmem, hgreatest⟩ := h
  obtain ⟨hlow, hhigh, htarget⟩ := (mem_placed_iff hv).mp hmem
  -- Above the greatest such offset, positions have passed the target.
  have habove {o w : UInt64} (hgt : offset < o) (ho : o ≤ high) (hw : probe o = .ok (some w)) :
      target < w := by
    refine UInt64.not_le.mp fun hle => UInt64.not_le.mpr hgt (hgreatest ⟨?_, ho, w, hw, hle⟩)
    exact UInt64.le_trans hlow (UInt64.le_of_lt hgt)
  refine ⟨hv, decide_eq_true htarget, fun o answer ho hlt hprobe => ?_,
    fun o answer hgt ho hprobe => ?_, fun o w ho ho' hbeyond hprobe hrecord => ?_⟩
  · cases answer with
    | none => rfl
    | some w =>
      have hle : w ≤ v := hmono o offset w v ho (UInt64.le_of_lt hlt) hhigh hprobe hv
      exact decide_eq_false (UInt64.not_lt.mpr (UInt64.le_trans hle htarget))
  · -- The next offset is present and turns the search back, and so does every one after it.
    obtain rfl | ⟨next, hnext⟩ := hturns.next offset h
    · exact absurd ho (UInt64.not_le.mpr hgt)
    · have hlt : offset < offset + 1 := by grind
      have hle : offset + 1 ≤ o := by grind
      have hhigh' : offset + 1 ≤ high := UInt64.le_trans hle ho
      have hlow' : low ≤ offset + 1 := UInt64.le_trans hlow (UInt64.le_of_lt hlt)
      have hpassed : target < next := habove hlt hhigh' hnext
      obtain ⟨w, hw⟩ := hturns.filled _ next hlow' hhigh' hnext hpassed o hle ho
      rw [hprobe] at hw
      obtain rfl := Except.ok.inj hw
      exact decide_eq_true (habove hgt ho hprobe)
  · have hup : (Mode.rule target .floor v).descend = false :=
      decide_eq_false (UInt64.not_lt.mpr htarget)
    rw [hup] at hbeyond
    have hgt : offset < o := hbeyond
    exact UInt64.not_le.mpr (habove hgt ho' hprobe) (of_decide_eq_true hrecord)

end Search

open Search

/-- If the probe does not fail and the positions present do not decrease, then a search for the nearest
offset on one side of the target finds nothing just when there is no offset on that side, and otherwise the
nearest one with its position: the least offset at or after the target, if no hole is above a position that
has reached it, and the greatest offset at or before the target, if the search is turned back behind that
offset. -/
theorem bound_search_finds_nearest {ε : Type} (probe : Probe ε) (target low high : UInt64)
    (hsound : NeverFails probe low high) (hmono : NonDecreasing probe low high) :
    (HolesBelow probe target low high →
      ((search .ceiling target probe low high).result = .ok none ↔
        placed probe (target ≤ ·) low high = ∅) ∧
      ((placed probe (target ≤ ·) low high).Nonempty → ∃ offset v,
        IsLeast (placed probe (target ≤ ·) low high) offset ∧ probe offset = .ok (some v) ∧
        (search .ceiling target probe low high).result = .ok (some ⟨v, offset⟩))) ∧
    (TurnsBack probe target low high →
      ((search .floor target probe low high).result = .ok none ↔
        placed probe (· ≤ target) low high = ∅) ∧
      ((placed probe (· ≤ target) low high).Nonempty → ∃ offset v,
        IsGreatest (placed probe (· ≤ target) low high) offset ∧ probe offset = .ok (some v) ∧
        (search .floor target probe low high).result = .ok (some ⟨v, offset⟩))) := by
  constructor
  · intro hholes
    exact search_finds (fun _ => decide_eq_true_iff) hsound exists_isLeast
      (fun _ h => h.1)
      fun _ _ => leadsTo_ceiling hmono hholes
  · intro hturns
    exact search_finds (fun _ => decide_eq_true_iff) hsound exists_isGreatest
      (fun _ h => h.1)
      fun _ _ => leadsTo_floor hmono hturns

/-- Holes are scattered below the target, and the offsets on either side of it are neighbours; the probe
fails beyond. -/
theorem bound_search_finds_nearest_above_holes :
    let d : ProbeData := { failing := [6], records := [(1, 5), (3, 7), (4, 20), (5, 30)] }
    NeverFails d.probe 0 5 ∧ NonDecreasing d.probe 0 5 ∧ HolesBelow d.probe 10 0 5 ∧
      TurnsBack d.probe 10 0 5 ∧
      (search .ceiling 10 d.probe 0 5).result = .ok (some ⟨20, 4⟩) ∧
      (search .floor 10 d.probe 0 5).result = .ok (some ⟨7, 3⟩) := by
  intro d
  have hsound : NeverFails d.probe 0 5 := by
    intro offset _ hhigh
    have hfine : offset ∉ d.failing := by
      show offset ∉ [6]
      grind
    exact ⟨_, if_neg hfine⟩
  have hrecord {offset v : UInt64} (h : d.probe offset = .ok (some v)) :
      offset = 1 ∧ v = 5 ∨ offset = 3 ∧ v = 7 ∨ offset = 4 ∧ v = 20 ∨ offset = 5 ∧ v = 30 := by
    simpa [d] using ProbeData.mem_records rfl h
  have hmono : NonDecreasing d.probe 0 5 := by
    intro offset offset' v v' _ hle _ hv hv'
    rcases hrecord hv with h | h | h | h <;> rcases hrecord hv' with h' | h' | h' | h' <;> grind
  have hfilled {offset : UInt64} (hlow : 4 ≤ offset) (hhigh : offset ≤ 5) :
      ∃ v, d.probe offset = .ok (some v) := by
    have hcases : offset = 4 ∨ offset = 5 := by grind
    rcases hcases with rfl | rfl <;> exact ⟨_, rfl⟩
  have hholes : HolesBelow d.probe 10 0 5 := by
    intro offset v _ _ hv htarget offset' hle hhigh
    rcases hrecord hv with h | h | h | h <;> exact hfilled (by grind) hhigh
  have hthree : (3 : UInt64) ∈ placed d.probe (· ≤ 10) 0 5 := ⟨by decide, by decide, 7, rfl, by decide⟩
  have hfour : (4 : UInt64) ∈ placed d.probe (10 ≤ ·) 0 5 := ⟨by decide, by decide, 20, rfl, by decide⟩
  have hbefore {offset : UInt64} (h : offset ∈ placed d.probe (· ≤ 10) 0 5) : offset ≤ 3 := by
    obtain ⟨-, -, v, hv, hle⟩ := h
    rcases hrecord hv with h | h | h | h <;> grind
  have hafter {offset : UInt64} (h : offset ∈ placed d.probe (10 ≤ ·) 0 5) : 4 ≤ offset := by
    obtain ⟨-, -, v, hv, hle⟩ := h
    rcases hrecord hv with h | h | h | h <;> grind
  have hturns : TurnsBack d.probe 10 0 5 := by
    refine ⟨fun offset v _ _ hv htarget offset' hle hhigh => ?_, fun offset h => .inr ⟨20, ?_⟩⟩
    · rcases hrecord hv with h | h | h | h <;> exact hfilled (by grind) hhigh
    · obtain rfl : offset = 3 := UInt64.le_antisymm (hbefore h.1) (h.2 hthree)
      rfl
  obtain ⟨hceiling, hfloor⟩ := bound_search_finds_nearest d.probe 10 0 5 hsound hmono
  obtain ⟨least, v, ⟨hmem, hleast⟩, hv, hfound⟩ := (hceiling hholes).2 ⟨4, hfour⟩
  obtain ⟨greatest, v', ⟨hmem', hgreatest⟩, hv', hfound'⟩ := (hfloor hturns).2 ⟨3, hthree⟩
  obtain rfl : least = 4 := UInt64.le_antisymm (hleast hfour) (hafter hmem)
  obtain rfl : greatest = 3 := UInt64.le_antisymm (hbefore hmem') (hgreatest hthree)
  obtain rfl : 20 = v := Option.some.inj (Except.ok.inj hv)
  obtain rfl : 7 = v' := Option.some.inj (Except.ok.inj hv')
  exact ⟨hsound, hmono, hholes, hturns, hfound, hfound'⟩

end MessageIndex
