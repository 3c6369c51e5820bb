import Mathlib.Data.Set.Basic
import Mathlib.Order.Bounds.Defs
import Mathlib.Order.WellFounded
import MessageIndex.Proofs.SearchAgreement

/-!
# Proofs: where a search ends

A search is led to an offset if everything below that offset sends it up and everything above sends it
down. Holes send it up, so they do no harm below the offset and hide it from above. A search that is led
to an answer with no better one beyond it ends there (`LeadsTo.result`), and one that meets no answer
keeps what it remembers (`result_of_no_answer`).

Where positions do not decrease and no hole lies above a position that has reached the target, an exact
search is led to the least, or to the greatest, of the offsets at the target.
-/

namespace MessageIndex

namespace Search

variable {ε : Type} {rule : Rule} {probe : Probe ε} {target low high : UInt64} {found : Option Found}

/-! ## What is left after a step -/

/-- An offset on the side on which a search goes on is in the part that is left. -/
theorem exists_narrow {mid offset : UInt64} {descend : Bool} (hlow : low ≤ offset)
    (hhigh : offset ≤ high) (h : Beyond descend mid offset) :
    ∃ low' high', narrow low high mid descend = some (low', high') ∧ low' ≤ offset ∧
      offset ≤ high' := by
  cases descend with
  | true =>
    have hlt : offset < mid := h
    have hne : mid ≠ 0 := by grind
    refine ⟨low, mid - 1, ?_, hlow, by grind⟩
    rw [narrow, if_pos rfl, if_neg hne]
  | false =>
    have hlt : mid < offset := h
    have hne : mid + 1 ≠ 0 := by grind
    refine ⟨mid + 1, high, ?_, by grind, hhigh⟩
    rw [narrow, if_neg Bool.false_ne_true, if_neg hne]

theorem narrow_subset {low' high' : UInt64} {descend : Bool} (h : low ≤ high)
    (hnext : narrow low high (midpoint low high) descend = some (low', high')) :
    low ≤ low' ∧ high' ≤ high := by
  have hmid := le_midpoint h
  have hmid' := midpoint_le h
  obtain ⟨-, hne, rfl, rfl⟩ | ⟨-, hne, rfl, rfl⟩ := narrow_cases hnext
  · exact ⟨UInt64.le_refl _, by grind⟩
  · exact ⟨by grind, UInt64.le_refl _⟩

/-- The probe fails at no offset from `low` to `high`. -/
def NeverFails (probe : Probe ε) (low high : UInt64) : Prop :=
  ∀ offset, low ≤ offset → offset ≤ high → ∃ answer, probe offset = .ok answer

theorem NeverFails.mono {low' high' : UInt64} (h : NeverFails probe low high) (hlow : low ≤ low')
    (hhigh : high' ≤ high) : NeverFails probe low' high' :=
  fun offset hoff hoff' => h offset (UInt64.le_trans hlow hoff) (UInt64.le_trans hoff' hhigh)

theorem NeverFails.midpoint_ne_error (h : NeverFails probe low high) (hle : low ≤ high) {cause : ε} :
    probe (midpoint low high) ≠ .error cause := by
  intro herror
  obtain ⟨answer, hanswer⟩ := h _ (le_midpoint hle) (midpoint_le hle)
  rw [herror] at hanswer
  cases hanswer

/-! ## A search that meets no answer -/

/-- There is no answer from `low` to `high`. -/
def NoAnswer (rule : Rule) (probe : Probe ε) (low high : UInt64) : Prop :=
  ∀ offset v, low ≤ offset → offset ≤ high → probe offset = .ok (some v) → ¬ (rule v).record

theorem NoAnswer.mono {low' high' : UInt64} (h : NoAnswer rule probe low high) (hlow : low ≤ low')
    (hhigh : high' ≤ high) : NoAnswer rule probe low' high' :=
  fun offset v hoff hoff' => h offset v (UInt64.le_trans hlow hoff) (UInt64.le_trans hoff' hhigh)

theorem NoAnswer.remember_midpoint (h : NoAnswer rule probe low high) (hle : low ≤ high)
    {answer : Option UInt64} (hprobe : probe (midpoint low high) = .ok answer) :
    remember rule (midpoint low high) found answer = found := by
  cases answer with
  | none => rfl
  | some v => exact remember_of_not_record (h _ v (le_midpoint hle) (midpoint_le hle) hprobe)

theorem result_of_no_answer (hsound : NeverFails probe low high) (h : NoAnswer rule probe low high) :
    (bisect rule probe low high found).result = .ok found := by
  fun_induction bisect rule probe low high found with
  | case1 low high found hle mid cause hprobe =>
    exact absurd hprobe (hsound.midpoint_ne_error hle)
  | case2 low high found hle mid answer hprobe _ hend =>
    exact congrArg Except.ok (h.remember_midpoint hle hprobe)
  | case3 low high found hle mid answer hprobe _ low' high' hnext rest ih =>
    obtain ⟨hlow, hhigh⟩ := narrow_subset hle hnext
    have hrest := ih (hsound.mono hlow hhigh) (h.mono hlow hhigh)
    exact hrest.trans (congrArg Except.ok (h.remember_midpoint hle hprobe))
  | case4 low high found hempty => rfl

/-! ## A search that is led to an answer -/

/-- What a search meets from `low` to `high` leads it to `goal`: an answer, the last one in the direction
in which the search goes on from there, with nothing below it that sends the search down and nothing
above it that sends it up. -/
structure LeadsTo (rule : Rule) (probe : Probe ε) (low high : UInt64) (goal : Found) : Prop where
  /-- The goal is met at its offset. -/
  answer : probe goal.queueOffset = .ok (some goal.physicalOffset)
  /-- The goal is an answer. -/
  record : (rule goal.physicalOffset).record
  /-- Nothing below the goal sends the search down. -/
  below : ∀ offset answer, low ≤ offset → offset < goal.queueOffset → probe offset = .ok answer →
    (judge rule answer).descend = false
  /-- Nothing above the goal sends the search up. -/
  above : ∀ offset answer, goal.queueOffset < offset → offset ≤ high → probe offset = .ok answer →
    (judge rule answer).descend = true
  /-- In the direction in which the search goes on from the goal there is no further answer. -/
  last : ∀ offset v, low ≤ offset → offset ≤ high →
    Beyond (rule goal.physicalOffset).descend goal.queueOffset offset → probe offset = .ok (some v) →
    ¬ (rule v).record

variable {goal : Found}

theorem LeadsTo.mono {low' high' : UInt64} (h : LeadsTo rule probe low high goal) (hlow : low ≤ low')
    (hhigh : high' ≤ high) : LeadsTo rule probe low' high' goal where
  answer := h.answer
  record := h.record
  below offset answer hoff := h.below offset answer (UInt64.le_trans hlow hoff)
  above offset answer hgoal hoff := h.above offset answer hgoal (UInt64.le_trans hoff hhigh)
  last offset v hoff hoff' := h.last offset v (UInt64.le_trans hlow hoff) (UInt64.le_trans hoff' hhigh)

theorem LeadsTo.answer_eq (h : LeadsTo rule probe low high goal) {mid : UInt64}
    {answer : Option UInt64} (hmid : mid = goal.queueOffset) (hprobe : probe mid = .ok answer) :
    answer = some goal.physicalOffset := by
  rw [hmid, h.answer] at hprobe
  exact (Except.ok.inj hprobe).symm

/-- Beside the offset it is led to, a search goes on towards it. -/
theorem LeadsTo.beyond (h : LeadsTo rule probe low high goal) {mid : UInt64} {answer : Option UInt64}
    (hlow : low ≤ mid) (hhigh : mid ≤ high) (hprobe : probe mid = .ok answer)
    (hne : mid ≠ goal.queueOffset) : Beyond (judge rule answer).descend mid goal.queueOffset := by
  by_cases hlt : mid < goal.queueOffset
  · rw [h.below mid answer hlow hlt hprobe]
    exact hlt
  · have hgt : goal.queueOffset < mid := by grind
    rw [h.above mid answer hgt hhigh hprobe]
    exact hgt

/-- At the offset it is led to, a search remembers the answer and leaves no other one. -/
theorem LeadsTo.no_answer_left (h : LeadsTo rule probe low high goal) {low' high' : UInt64}
    (hle : low ≤ high) (hmid : midpoint low high = goal.queueOffset)
    (hnext : narrow low high (midpoint low high) (rule goal.physicalOffset).descend =
      some (low', high')) : NoAnswer rule probe low' high' := by
  intro offset v hoff hoff'
  obtain ⟨hlow, hhigh, hbeyond⟩ := of_narrow hle hnext hoff hoff'
  rw [hmid] at hbeyond
  exact h.last offset v hlow hhigh hbeyond

theorem LeadsTo.remember_goal (h : LeadsTo rule probe low high goal) {mid : UInt64}
    (hmid : mid = goal.queueOffset) :
    remember rule mid found (some goal.physicalOffset) = some goal := by
  rw [remember_of_record h.record, hmid]

/-- A search that is led to an answer ends there. -/
theorem LeadsTo.result (h : LeadsTo rule probe low high goal) (hsound : NeverFails probe low high)
    (hlow : low ≤ goal.queueOffset) (hhigh : goal.queueOffset ≤ high) :
    (bisect rule probe low high found).result = .ok (some goal) := by
  -- The goal is in the interval until it is probed; from then on no answer is.
  fun_induction bisect rule probe low high found with
  | case1 low high found hle mid cause hprobe =>
    exact absurd hprobe (hsound.midpoint_ne_error hle)
  | case2 low high found hle mid answer hprobe _ hend =>
    by_cases hmid : mid = goal.queueOffset
    · obtain rfl := h.answer_eq hmid hprobe
      exact congrArg Except.ok (h.remember_goal hmid)
    · have hbeyond := h.beyond (le_midpoint hle) (midpoint_le hle) hprobe hmid
      obtain ⟨low', high', hnext, -, -⟩ := exists_narrow hlow hhigh hbeyond
      rw [hend] at hnext
      cases hnext
  | case3 low high found hle mid answer hprobe found' low' high' hnext rest ih =>
    obtain ⟨hsub, hsub'⟩ := narrow_subset hle hnext
    by_cases hmid : mid = goal.queueOffset
    · obtain rfl := h.answer_eq hmid hprobe
      have hrest : (bisect rule probe low' high' found').result = .ok found' :=
        result_of_no_answer (hsound.mono hsub hsub') (h.no_answer_left hle hmid hnext)
      exact hrest.trans (congrArg Except.ok (h.remember_goal hmid))
    · have hbeyond := h.beyond (le_midpoint hle) (midpoint_le hle) hprobe hmid
      obtain ⟨l, u, hnext', hl, hu⟩ := exists_narrow hlow hhigh hbeyond
      obtain ⟨rfl, rfl⟩ := Prod.mk.inj (Option.some.inj (hnext.symm.trans hnext'))
      exact ih (h.mono hsub hsub') (hsound.mono hsub hsub') hl hu
  | case4 low high found hempty => exact absurd (UInt64.le_trans hlow hhigh) hempty

/-! ## The best of the offsets that are wanted -/

/-- The offsets from `low` to `high` at one of the positions that are wanted. -/
def placed (probe : Probe ε) (wanted : UInt64 → Prop) (low high : UInt64) : Set UInt64 :=
  {offset | low ≤ offset ∧ offset ≤ high ∧ ∃ v, probe offset = .ok (some v) ∧ wanted v}

/-- Which offsets are wanted is decided by the position found there. -/
theorem mem_placed_iff {wanted : UInt64 → Prop} {offset v : UInt64}
    (hv : probe offset = .ok (some v)) :
    offset ∈ placed probe wanted low high ↔ low ≤ offset ∧ offset ≤ high ∧ wanted v := by
  refine and_congr_right fun _ => and_congr_right fun _ => ⟨?_, fun h => ⟨v, hv, h⟩⟩
  rintro ⟨v', hv', hwanted⟩
  rw [hv] at hv'
  obtain rfl := Option.some.inj (Except.ok.inj hv')
  exact hwanted

/-- A search that answers with what is wanted, and is led to the best of it, finds that, and finds nothing
just when there is nothing wanted. -/
theorem search_finds {mode : Mode} {wanted best : UInt64 → Prop}
    (hrecord : ∀ v, (mode.rule target v).record ↔ wanted v) (hsound : NeverFails probe low high)
    (hbest : (placed probe wanted low high).Nonempty → ∃ offset, best offset)
    (hmem : ∀ offset, best offset → offset ∈ placed probe wanted low high)
    (hleads : ∀ offset v, best offset → probe offset = .ok (some v) →
      LeadsTo (mode.rule target) probe low high ⟨v, offset⟩) :
    ((search mode target probe low high).result = .ok none ↔ placed probe wanted low high = ∅) ∧
    ((placed probe wanted low high).Nonempty → ∃ offset v, best offset ∧
      probe offset = .ok (some v) ∧
      (search mode target probe low high).result = .ok (some ⟨v, offset⟩)) := by
  have hfinds (h : (placed probe wanted low high).Nonempty) : ∃ offset v, best offset ∧
      probe offset = .ok (some v) ∧
      (search mode target probe low high).result = .ok (some ⟨v, offset⟩) := by
    obtain ⟨offset, hoffset⟩ := hbest h
    obtain ⟨hlow, hhigh, v, hv, -⟩ := hmem offset hoffset
    exact ⟨offset, v, hoffset, hv, (hleads offset v hoffset hv).result hsound hlow hhigh⟩
  refine ⟨⟨fun hnone => ?_, fun hempty => ?_⟩, hfinds⟩
  · by_contra hne
    obtain ⟨offset, v, -, -, hsome⟩ := hfinds (Set.nonempty_iff_ne_empty.mpr hne)
    rw [hnone] at hsome
    cases hsome
  · refine result_of_no_answer hsound fun offset v hlow hhigh hv hanswer => ?_
    exact Set.eq_empty_iff_forall_notMem.mp hempty offset
      ⟨hlow, hhigh, v, hv, (hrecord v).mp hanswer⟩

/-! ## Offsets at the target -/

/-- The offsets from `low` to `high` at a position. -/
def holding (probe : Probe ε) (position low high : UInt64) : Set UInt64 :=
  {offset | low ≤ offset ∧ offset ≤ high ∧ probe offset = .ok (some position)}

/-- No hole is above an offset whose position has reached the target. -/
def HolesBelow (probe : Probe ε) (target low high : UInt64) : Prop :=
  ∀ offset v, low ≤ offset → offset ≤ high → probe offset = .ok (some v) → target ≤ v →
    ∀ offset', offset ≤ offset' → offset' ≤ high → ∃ v', probe offset' = .ok (some v')

theorem exists_isLeast {s : Set UInt64} (h : s.Nonempty) : ∃ offset, IsLeast s offset := by
  obtain ⟨offset, hmem, hleast⟩ := (measure UInt64.toNat).wf.has_min s h
  refine ⟨offset, hmem, fun offset' hmem' => ?_⟩
  exact UInt64.le_iff_toNat_le.mpr (Nat.not_lt.mp (hleast offset' hmem'))

theorem exists_isGreatest {s : Set UInt64} (h : s.Nonempty) : ∃ offset, IsGreatest s offset := by
  obtain ⟨offset, hmem, hleast⟩ := (measure fun o : UInt64 => UInt64.size - o.toNat).wf.has_min s h
  refine ⟨offset, hmem, fun offset' hmem' => ?_⟩
  have hnot : ¬ UInt64.size - offset'.toNat < UInt64.size - offset.toNat := hleast offset' hmem'
  have hlt := offset'.toNat_lt_size
  rw [UInt64.le_iff_toNat_le]
  omega

/-- At and above a position that has reached the target, positions have reached it. -/
theorem exists_position_above (hmono : NonDecreasing probe low high)
    (hholes : HolesBelow probe target low high) {offset offset' v : UInt64} {answer : Option UInt64}
    (hlow : low ≤ offset) (hv : probe offset = .ok (some v)) (htarget : target ≤ v)
    (hle : offset ≤ offset') (hhigh : offset' ≤ high) (hprobe : probe offset' = .ok answer) :
    ∃ v', answer = some v' ∧ target ≤ v' := by
  obtain ⟨v', hv'⟩ := hholes offset v hlow (UInt64.le_trans hle hhigh) hv htarget offset' hle hhigh
  rw [hprobe] at hv'
  obtain rfl := Except.ok.inj hv'
  exact ⟨v', rfl, UInt64.le_trans htarget (hmono offset offset' v v' hlow hle hhigh hv hprobe)⟩

theorem leadsTo_leftmost (hmono : NonDecreasing probe low high)
    (hholes : HolesBelow probe target low high) {offset : UInt64}
    (h : IsLeast (holding probe target low high) offset) :
    LeadsTo (Mode.rule target .leftmost) probe low high ⟨target, offset⟩ := by
  obtain ⟨hmem, hleast⟩ := h
  have ⟨hlow, hhigh, htarget⟩ := hmem
  refine ⟨htarget, decide_eq_true rfl, fun o answer ho hlt hprobe => ?_,
    fun o answer hgt ho hprobe => ?_, fun o v ho ho' hbeyond hprobe hrecord => ?_⟩
  · cases answer with
    | none => rfl
    | some v =>
      have hle : v ≤ target := hmono o offset v target ho (UInt64.le_of_lt hlt) hhigh hprobe htarget
      have hne : v ≠ target := by
        rintro rfl
        exact UInt64.not_le.mpr hlt (hleast ⟨ho, by grind, hprobe⟩)
      exact decide_eq_false (by grind)
  · obtain ⟨v, rfl, hv⟩ := exists_position_above hmono hholes hlow htarget (UInt64.le_refl target)
      (UInt64.le_of_lt hgt) ho hprobe
    exact decide_eq_true hv
  · -- Below the least offset at the target there is no other one.
    have hdown : (Mode.rule target .leftmost target).descend = true :=
      decide_eq_true (UInt64.le_refl target)
    rw [hdown] at hbeyond
    have hlt : o < offset := hbeyond
    obtain rfl : v = target := of_decide_eq_true hrecord
    exact UInt64.not_le.mpr hlt (hleast ⟨ho, ho', hprobe⟩)

theorem leadsTo_rightmost (hmono : NonDecreasing probe low high)
    (hholes : HolesBelow probe target low high) {offset : UInt64}
    (h : IsGreatest (holding probe target low high) offset) :
    LeadsTo (Mode.rule target .rightmost) probe low high ⟨target, offset⟩ := by
  obtain ⟨hmem, hgreatest⟩ := h
  have ⟨hlow, hhigh, htarget⟩ := hmem
  refine ⟨htarget, decide_eq_true rfl, fun o answer ho hlt hprobe => ?_,
    fun o answer hgt ho hprobe => ?_, fun o v ho ho' hbeyond hprobe hrecord => ?_⟩
  · cases answer with
    | none => rfl
    | some v =>
      have hle : v ≤ target := hmono o offset v target ho (UInt64.le_of_lt hlt) hhigh hprobe htarget
      exact decide_eq_false (UInt64.not_lt.mpr hle)
  · obtain ⟨v, rfl, hv⟩ := exists_position_above hmono hholes hlow htarget (UInt64.le_refl target)
      (UInt64.le_of_lt hgt) ho hprobe
    have hne : v ≠ target := by
      rintro rfl
      exact UInt64.not_le.mpr hgt (hgreatest ⟨by grind, ho, hprobe⟩)
    exact decide_eq_true (by grind)
  · have hup : (Mode.rule target .rightmost target).descend = false :=
      decide_eq_false (UInt64.lt_irrefl target)
    rw [hup] at hbeyond
    have hgt : offset < o := hbeyond
    obtain rfl : v = target := of_decide_eq_true hrecord
    exact UInt64.not_le.mpr hgt (hgreatest ⟨ho, ho', hprobe⟩)

theorem placed_eq_holding (probe : Probe ε) (target low high : UInt64) :
    placed probe (· = target) low high = holding probe target low high := by
  refine Set.ext fun offset => and_congr_right fun _ => and_congr_right fun _ => ?_
  exact ⟨fun ⟨_, hv, htarget⟩ => htarget ▸ hv, fun hv => ⟨target, hv, rfl⟩⟩

/-- An exact search that is led to the best of the offsets at the target finds it, and finds nothing just
when there is none. -/
theorem search_best {mode : Mode} {best : UInt64 → Prop}
    (hexact : ∀ v, (mode.rule target v).record = decide (v = target))
    (hsound : NeverFails probe low high)
    (hbest : (holding probe target low high).Nonempty → ∃ offset, best offset)
    (hleads : ∀ offset, best offset → offset ∈ holding probe target low high ∧
      LeadsTo (mode.rule target) probe low high ⟨target, offset⟩) :
    ((search mode target probe low high).result = .ok none ↔ holding probe target low high = ∅) ∧
    ((holding probe target low high).Nonempty → ∃ offset, best offset ∧
      (search mode target probe low high).result = .ok (some ⟨target, offset⟩)) := by
  have hrecord (v : UInt64) : (mode.rule target v).record ↔ v = target := by
    rw [hexact, decide_eq_true_iff]
  rw [← placed_eq_holding] at hbest hleads ⊢
  have hposition {offset v : UInt64} (h : best offset) (hv : probe offset = .ok (some v)) :
      v = target := ((mem_placed_iff hv).mp (hleads offset h).1).2.2
  obtain ⟨hnone, hfinds⟩ := search_finds hrecord hsound hbest (fun offset h => (hleads offset h).1)
    fun offset v h hv => hposition h hv ▸ (hleads offset h).2
  refine ⟨hnone, fun h => ?_⟩
  obtain ⟨offset, v, hoffset, hv, hresult⟩ := hfinds h
  exact ⟨offset, hoffset, hposition hoffset hv ▸ hresult⟩

end Search

open Search

/-- If the probe does not fail, the positions present do not decrease, and no hole is above a position
that has reached the target, then an exact search finds nothing just when no offset is at the target, and
otherwise the least such offset or the greatest one, as it was asked. -/
theorem exact_search_finds_extremes {ε : Type} (probe : Probe ε) (target low high : UInt64)
    (hsound : NeverFails probe low high) (hmono : NonDecreasing probe low high)
    (hholes : HolesBelow probe target low high) :
    (((search .leftmost target probe low high).result = .ok none ↔
        holding probe target low high = ∅) ∧
      ((holding probe target low high).Nonempty → ∃ offset,
        IsLeast (holding probe target low high) offset ∧
        (search .leftmost target probe low high).result = .ok (some ⟨target, offset⟩))) ∧
    ((search .rightmost target probe low high).result = .ok none ↔
        holding probe target low high = ∅) ∧
      ((holding probe target low high).Nonempty → ∃ offset,
        IsGreatest (holding probe target low high) offset ∧
        (search .rightmost target probe low high).result = .ok (some ⟨target, offset⟩)) := by
  constructor
  · exact search_best (fun _ => rfl) hsound exists_isLeast fun offset h =>
      ⟨h.1, leadsTo_leftmost hmono hholes h⟩
  · exact search_best (fun _ => rfl) hsound exists_isGreatest fun offset h =>
      ⟨h.1, leadsTo_rightmost hmono hholes h⟩

/-- Holes are scattered below the target, which three offsets are at; the probe fails beyond. -/
theorem exact_search_finds_extremes_above_holes :
    let d : ProbeData :=
      { failing := [8], records := [(1, 5), (3, 7)], stretch := some ⟨5, 7, 0, 20⟩ }
    NeverFails d.probe 0 7 ∧ NonDecreasing d.probe 0 7 ∧ HolesBelow d.probe 20 0 7 ∧
      (search .leftmost 20 d.probe 0 7).result = .ok (some ⟨20, 5⟩) ∧
      (search .rightmost 20 d.probe 0 7).result = .ok (some ⟨20, 7⟩) := by
  intro d
  have hsound : NeverFails d.probe 0 7 := by
    intro offset _ hhigh
    have hfine : offset ∉ d.failing := by
      show offset ∉ [8]
      grind
    exact ⟨_, if_neg hfine⟩
  have hrecord {offset v : UInt64} (h : d.probe offset = .ok (some v)) :
      offset = 1 ∧ v = 5 ∨ offset = 3 ∧ v = 7 ∨ 5 ≤ offset ∧ offset ≤ 7 ∧ v = 20 := by
    unfold ProbeData.probe at h
    simp only [d, EvenStretch.position, List.lookup_cons, List.lookup_nil, Option.bind_some] at h
    grind
  have hpresent {offset : UInt64} (hlow : 5 ≤ offset) (hhigh : offset ≤ 7) :
      d.probe offset = .ok (some 20) := by
    have hcases : offset = 5 ∨ offset = 6 ∨ offset = 7 := by grind
    rcases hcases with rfl | rfl | rfl <;> rfl
  have hmono : NonDecreasing d.probe 0 7 := by
    intro offset offset' v v' _ hle _ hv hv'
    rcases hrecord hv with h | h | h <;> rcases hrecord hv' with h' | h' | h' <;> grind
  have hholes : HolesBelow d.probe 20 0 7 := by
    intro offset v _ _ hv htarget offset' hle hhigh
    rcases hrecord hv with h | h | h <;> exact ⟨20, hpresent (by grind) hhigh⟩
  have hfive : (5 : UInt64) ∈ holding d.probe 20 0 7 := ⟨by decide, by decide, rfl⟩
  have hseven : (7 : UInt64) ∈ holding d.probe 20 0 7 := ⟨by decide, by decide, rfl⟩
  have hrange {offset : UInt64} (h : offset ∈ holding d.probe 20 0 7) : 5 ≤ offset ∧ offset ≤ 7 := by
    obtain ⟨-, -, hv⟩ := h
    rcases hrecord hv with h | h | h <;> grind
  obtain ⟨⟨-, hleft⟩, -, hright⟩ := exact_search_finds_extremes d.probe 20 0 7 hsound hmono hholes
  obtain ⟨least, ⟨hmem, hleast⟩, hleft⟩ := hleft ⟨5, hfive⟩
  obtain ⟨greatest, ⟨hmem', hgreatest⟩, hright⟩ := hright ⟨5, hfive⟩
  obtain rfl : least = 5 := UInt64.le_antisymm (hleast hfive) (hrange hmem).1
  obtain rfl : greatest = 7 := UInt64.le_antisymm (hrange hmem').2 (hgreatest hseven)
  exact ⟨hsound, hmono, hholes, hleft, hright⟩

end MessageIndex
