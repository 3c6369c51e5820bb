import MessageIndex.Proofs.NearestSearch

/-!
# Proofs: a search past the end of what is written

Of the offsets that are searched, only a stretch may be written, with holes before it and behind it. Holes
behind it send the search up, away from everything there is. A search that goes down from its answers
meets them before it has gone down at all, or never: once it has gone down, it stays below the end. So
either it never probes past the end and is led to its answer as if the interval ended there, or it does and
comes back with nothing (`LeadsTo.findsOrLost`).
-/

namespace MessageIndex

namespace Search

variable {ε : Type} {rule : Rule} {probe : Probe ε} {target low high first last : UInt64}
  {found : Option Found} {goal : Found}

/-! ## The end of what is written -/

/-- Every offset above `last` is a hole, up to `high`. -/
def HolesAbove (probe : Probe ε) (last high : UInt64) : Prop :=
  ∀ offset, last < offset → offset ≤ high → probe offset = .ok none

theorem HolesAbove.noAnswer (h : HolesAbove probe last high) (hlow : last < low) :
    NoAnswer rule probe low high := by
  intro offset v hoff hoff' hv
  rw [h offset (UInt64.lt_of_lt_of_le hlow hoff) hoff'] at hv
  cases hv

theorem HolesAbove.mono {high' : UInt64} (h : HolesAbove probe last high) (hhigh : high' ≤ high) :
    HolesAbove probe last high' :=
  fun offset hlast hoff => h offset hlast (UInt64.le_trans hoff hhigh)

/-! ## Lost past the end, or at the goal -/

/-- How a search can end that has only holes above `last`: it is lost there and comes back with what it
had, or it never goes there and finds its goal. -/
def FindsOrLost (last : UInt64) (found : Option Found) (goal : Found) (run : Run ε) : Prop :=
  ((∃ offset ∈ run.probes, last < offset) ∧ run.result = .ok found) ∨
  ((∀ offset ∈ run.probes, offset ≤ last) ∧ run.result = .ok (some goal))

theorem FindsOrLost.after {mid : UInt64} {rest : Run ε} (hmid : mid ≤ last)
    (h : FindsOrLost last found goal rest) : FindsOrLost last found goal (rest.after mid) := by
  obtain ⟨⟨offset, hmem, hpast⟩, hresult⟩ | ⟨hprobes, hresult⟩ := h
  · exact .inl ⟨⟨offset, List.mem_cons_of_mem mid hmem, hpast⟩, hresult⟩
  · exact .inr ⟨List.forall_mem_cons.mpr ⟨hmid, hprobes⟩, hresult⟩

/-- A search that ends at its goal in an interval below the end has not been lost. -/
theorem findsOrLost_of_below {found' : Option Found} (hhigh : high ≤ last)
    (h : (bisect rule probe low high found').result = .ok (some goal)) :
    FindsOrLost last found goal (bisect rule probe low high found') :=
  .inr ⟨fun _ hmem => UInt64.le_trans (mem_interval_of_mem_probes hmem).2 hhigh, h⟩

theorem findsOrLost_of_past (hholes : HolesAbove probe last high) (hsound : NeverFails probe low high)
    (hle : low ≤ high) (hpast : last < midpoint low high) :
    FindsOrLost last found goal (bisect rule probe low high found) := by
  have hhole : probe (midpoint low high) = .ok none := hholes _ hpast (midpoint_le hle)
  cases hnext : narrow low high (midpoint low high) false with
  | none =>
    rw [bisect_of_end hle hhole hnext]
    exact .inl ⟨⟨_, List.mem_cons_self, hpast⟩, rfl⟩
  | some next =>
    obtain ⟨low', high'⟩ := next
    obtain ⟨hsub, hsub'⟩ := narrow_subset hle hnext
    have hlow' : last < low' := by
      obtain ⟨hdown, -⟩ | ⟨-, hne, rfl, rfl⟩ := narrow_cases hnext
      · cases hdown
      · grind
    have hrest : (bisect rule probe low' high' found).result = .ok found :=
      result_of_no_answer (hsound.mono hsub hsub') ((hholes.mono hsub').noAnswer hlow')
    rw [bisect_of_next hle hhole hnext]
    exact .inl ⟨⟨_, List.mem_cons_self, hpast⟩, hrest⟩

theorem LeadsTo.remember_below (h : LeadsTo rule probe low last goal)
    (hdown : (rule goal.physicalOffset).descend = true) {mid : UInt64} {answer : Option UInt64}
    (hlow : low ≤ mid) (hlast : mid ≤ last) (hlt : mid < goal.queueOffset)
    (hprobe : probe mid = .ok answer) : remember rule mid found answer = found := by
  cases answer with
  | none => rfl
  | some v => exact remember_of_not_record (h.last mid v hlow hlast (hdown ▸ hlt) hprobe)

theorem LeadsTo.descend_of_le (h : LeadsTo rule probe low last goal)
    (hdown : (rule goal.physicalOffset).descend = true) {mid : UInt64} {answer : Option UInt64}
    (hgoal : goal.queueOffset ≤ mid) (hlast : mid ≤ last) (hprobe : probe mid = .ok answer) :
    (judge rule answer).descend = true := by
  by_cases hmid : mid = goal.queueOffset
  · rw [h.answer_eq hmid hprobe]
    exact hdown
  · exact h.above mid answer (by grind) hlast hprobe

/-- A search that goes down, from its goal or above it, ends at the goal. -/
theorem LeadsTo.result_below (h : LeadsTo rule probe low last goal)
    (hdown : (rule goal.physicalOffset).descend = true) {mid : UInt64} {answer : Option UInt64}
    (hlow : low ≤ goal.queueOffset) (hgoal : goal.queueOffset ≤ mid) (hlast : mid ≤ last)
    (hprobe : probe mid = .ok answer) (hzero : mid ≠ 0) (hsound : NeverFails probe low (mid - 1)) :
    (bisect rule probe low (mid - 1) (remember rule mid found answer)).result = .ok (some goal) := by
  by_cases hmid : mid = goal.queueOffset
  · obtain rfl := h.answer_eq hmid hprobe
    rw [h.remember_goal hmid]
    refine result_of_no_answer hsound fun offset v hoff hoff' hv => ?_
    have hlt : offset < goal.queueOffset := by grind
    exact h.last offset v hoff (by grind) (hdown ▸ hlt) hv
  · exact (h.mono (UInt64.le_refl low) (by grind)).result hsound hlow (by grind)

/-- A search with only holes past the end finds the goal it is led to below the end, or is lost. -/
theorem LeadsTo.findsOrLost (h : LeadsTo rule probe low last goal)
    (hdown : (rule goal.physicalOffset).descend = true) (hholes : HolesAbove probe last high)
    (hsound : NeverFails probe low high) (hlow : low ≤ goal.queueOffset)
    (hhigh : goal.queueOffset ≤ high) :
    FindsOrLost last found goal (bisect rule probe low high found) := by
  -- While it goes up before the end, the goal is in the interval and there is no new answer.
  fun_induction bisect rule probe low high found with
  | case1 low high found hle mid cause hprobe =>
    exact absurd hprobe (hsound.midpoint_ne_error hle)
  | case2 low high found hle mid answer hprobe _ hend =>
    by_cases hpast : last < mid
    · have hlost : FindsOrLost last found goal (bisect rule probe low high found) :=
        findsOrLost_of_past hholes hsound hle hpast
      rwa [bisect_of_end hle hprobe hend] at hlost
    · have hmid : mid ≤ last := UInt64.not_lt.mp hpast
      by_cases hgoal : mid = goal.queueOffset
      · obtain rfl := h.answer_eq hgoal hprobe
        exact .inr ⟨List.forall_mem_singleton.mpr hmid, congrArg Except.ok (h.remember_goal hgoal)⟩
      · have hbeyond := h.beyond (le_midpoint hle) hmid hprobe hgoal
        obtain ⟨low', high', hnext, -, -⟩ := exists_narrow hlow hhigh hbeyond
        rw [hend] at hnext
        cases hnext
  | case3 low high found hle mid answer hprobe found' low' high' hnext rest ih =>
    by_cases hpast : last < mid
    · have hlost : FindsOrLost last found goal (bisect rule probe low high found) :=
        findsOrLost_of_past hholes hsound hle hpast
      rwa [bisect_of_next hle hprobe hnext] at hlost
    · have hmid : mid ≤ last := UInt64.not_lt.mp hpast
      obtain ⟨hsub, hsub'⟩ := narrow_subset hle hnext
      have hsound' := hsound.mono hsub hsub'
      refine FindsOrLost.after hmid ?_
      by_cases hlt : mid < goal.queueOffset
      · have hfound : found' = found := h.remember_below hdown (le_midpoint hle) hmid hlt hprobe
        rw [h.below mid answer (le_midpoint hle) hlt hprobe] at hnext
        obtain ⟨hdescend, -⟩ | ⟨-, hne, rfl, rfl⟩ := narrow_cases hnext
        · cases hdescend
        · rw [← hfound]
          exact ih (h.mono hsub (UInt64.le_refl last)) hholes hsound' (by grind) hhigh
      · have hgoal : goal.queueOffset ≤ mid := UInt64.not_lt.mp hlt
        rw [h.descend_of_le hdown hgoal hmid hprobe] at hnext
        obtain ⟨-, hzero, rfl, rfl⟩ | ⟨hdescend, -⟩ := narrow_cases hnext
        · exact findsOrLost_of_below (by grind)
            (h.result_below hdown hlow hgoal hmid hprobe hzero hsound')
        · cases hdescend
  | case4 low high found hempty => exact absurd (UInt64.le_trans hlow hhigh) hempty

/-! ## A written stretch -/

/-- Of the offsets from `low` to `high`, those from `first` to `last` are written and no others. -/
structure WrittenOn (probe : Probe ε) (first last low high : UInt64) : Prop where
  /-- The stretch begins at `low` or above it. -/
  low_le : low ≤ first
  /-- The stretch is not empty. -/
  le : first ≤ last
  /-- The stretch ends at `high` or below it. -/
  le_high : last ≤ high
  /-- Below the stretch there are only holes. -/
  before : ∀ offset, low ≤ offset → offset < first → probe offset = .ok none
  /-- In the stretch there are no holes. -/
  present : ∀ offset, first ≤ offset → offset ≤ last → ∃ v, probe offset = .ok (some v)
  /-- Above the stretch there are only holes. -/
  after : HolesAbove probe last high

namespace WrittenOn

theorem neverFails (h : WrittenOn probe first last low high) : NeverFails probe low high := by
  intro offset hlow hhigh
  by_cases hfirst : offset < first
  · exact ⟨none, h.before offset hlow hfirst⟩
  · by_cases hlast : last < offset
    · exact ⟨none, h.after offset hlast hhigh⟩
    · obtain ⟨v, hv⟩ := h.present offset (UInt64.not_lt.mp hfirst) (UInt64.not_lt.mp hlast)
      exact ⟨some v, hv⟩

theorem first_le (h : WrittenOn probe first last low high) {offset v : UInt64} (hlow : low ≤ offset)
    (hv : probe offset = .ok (some v)) : first ≤ offset := by
  refine UInt64.not_lt.mp fun hlt => ?_
  rw [h.before offset hlow hlt] at hv
  cases hv

theorem le_last (h : WrittenOn probe first last low high) {offset v : UInt64} (hhigh : offset ≤ high)
    (hv : probe offset = .ok (some v)) : offset ≤ last := by
  refine UInt64.not_lt.mp fun hlt => ?_
  rw [h.after offset hlt hhigh] at hv
  cases hv

theorem nonDecreasing (h : WrittenOn probe first last low high)
    (hmono : NonDecreasing probe first last) : NonDecreasing probe low last :=
  fun offset offset' v v' hlow hle hlast hv hv' =>
    hmono offset offset' v v' (h.first_le hlow hv) hle hlast hv hv'

theorem holesBelow (h : WrittenOn probe first last low high) : HolesBelow probe target low last :=
  fun _ _ hlow _ hv _ offset' hle hlast =>
    h.present offset' (UInt64.le_trans (h.first_le hlow hv) hle) hlast

theorem placed_eq (h : WrittenOn probe first last low high) (wanted : UInt64 → Prop) :
    placed probe wanted low last = placed probe wanted first last := by
  refine Set.ext fun _ => ⟨?_, ?_⟩
  · rintro ⟨hlow, hlast, v, hv, hwanted⟩
    exact ⟨h.first_le hlow hv, hlast, v, hv, hwanted⟩
  · rintro ⟨hfirst, hlast, hv⟩
    exact ⟨UInt64.le_trans h.low_le hfirst, hlast, hv⟩

/-- A search that goes down from what is wanted, and is led to the least of it below the end, finds that or
nothing. If something is wanted, it finds nothing just when it probes past the end. -/
theorem search_end (h : WrittenOn probe first last low high) {mode : Mode} {wanted : UInt64 → Prop}
    (hrecord : ∀ v, (mode.rule target v).record ↔ wanted v)
    (hdown : ∀ v, wanted v → (mode.rule target v).descend = true)
    (hleads : ∀ offset v, IsLeast (placed probe wanted low last) offset →
      probe offset = .ok (some v) → LeadsTo (mode.rule target) probe low last ⟨v, offset⟩) :
    ((search mode target probe low high).result = .ok none ∨ ∃ offset v,
      IsLeast (placed probe wanted first last) offset ∧ probe offset = .ok (some v) ∧
      (search mode target probe low high).result = .ok (some ⟨v, offset⟩)) ∧
    ((placed probe wanted first last).Nonempty →
      ((search mode target probe low high).result = .ok none ↔
        ∃ offset ∈ (search mode target probe low high).probes, last < offset)) := by
  rw [← h.placed_eq]
  by_cases hne : (placed probe wanted low last).Nonempty
  · obtain ⟨offset, hleast⟩ := exists_isLeast hne
    obtain ⟨hlow, hlast, v, hv, hwanted⟩ := hleast.1
    have hrun : FindsOrLost last none ⟨v, offset⟩ (search mode target probe low high) :=
      (hleads offset v hleast hv).findsOrLost (hdown v hwanted) h.after h.neverFails hlow
        (UInt64.le_trans hlast h.le_high)
    obtain ⟨hpast, hresult⟩ | ⟨hprobes, hresult⟩ := hrun
    · exact ⟨.inl hresult, fun _ => iff_of_true hresult hpast⟩
    · refine ⟨.inr ⟨offset, v, hleast, hv, hresult⟩, fun _ => iff_of_false ?_ ?_⟩
      · rw [hresult]
        exact nofun
      · rintro ⟨offset', hmem, hpast⟩
        exact UInt64.not_le.mpr hpast (hprobes offset' hmem)
  · refine ⟨.inl (result_of_no_answer h.neverFails ?_), fun hc => absurd hc hne⟩
    intro _ v hlow hhigh hv hanswer
    exact hne ⟨_, hlow, h.le_last hhigh hv, v, hv, (hrecord v).mp hanswer⟩

end WrittenOn

end Search

open Search

/-- Where only a stretch of offsets is written, with positions that do not decrease and holes on both sides,
a search that goes down from its answers does not mislead: it finds the least offset of the stretch at the
target, or at or after it, or else nothing. If there is such an offset, nothing is found just when an
offset past the stretch was probed. -/
theorem search_past_end {ε : Type} (probe : Probe ε) (target low first last high : UInt64)
    (hwritten : WrittenOn probe first last low high) (hmono : NonDecreasing probe first last) :
    (((search .leftmost target probe low high).result = .ok none ∨ ∃ offset,
        IsLeast (holding probe target first last) offset ∧
        (search .leftmost target probe low high).result = .ok (some ⟨target, offset⟩)) ∧
      ((holding probe target first last).Nonempty →
        ((search .leftmost target probe low high).result = .ok none ↔
          ∃ offset ∈ (search .leftmost target probe low high).probes, last < offset))) ∧
    ((search .ceiling target probe low high).result = .ok none ∨ ∃ offset v,
        IsLeast (placed probe (target ≤ ·) first last) offset ∧ probe offset = .ok (some v) ∧
        (search .ceiling target probe low high).result = .ok (some ⟨v, offset⟩)) ∧
      ((placed probe (target ≤ ·) first last).Nonempty →
        ((search .ceiling target probe low high).result = .ok none ↔
          ∃ offset ∈ (search .ceiling target probe low high).probes, last < offset)) := by
  have hmono' := hwritten.nonDecreasing hmono
  constructor
  · have hposition {low offset v : UInt64}
        (h : IsLeast (placed probe (· = target) low last) offset) (hv : probe offset = .ok (some v)) :
        v = target := ((mem_placed_iff hv).mp h.1).2.2
    have hrecord (v : UInt64) : (Mode.rule target .leftmost v).record ↔ v = target :=
      decide_eq_true_iff
    have hdown (v : UInt64) (hv : v = target) : (Mode.rule target .leftmost v).descend = true :=
      decide_eq_true (hv ▸ UInt64.le_refl target)
    obtain ⟨hend, hnone⟩ := hwritten.search_end hrecord hdown fun offset v h hv => by
      obtain rfl := hposition h hv
      rw [placed_eq_holding] at h
      exact leadsTo_leftmost hmono' hwritten.holesBelow h
    rw [placed_eq_holding] at hnone
    refine ⟨hend.imp_right ?_, hnone⟩
    rintro ⟨offset, v, hleast, hv, hresult⟩
    obtain rfl := hposition hleast hv
    exact ⟨offset, placed_eq_holding probe v first last ▸ hleast, hresult⟩
  · exact hwritten.search_end (fun _ => decide_eq_true_iff) (fun _ => decide_eq_true)
      fun _ _ => leadsTo_ceiling hmono' hwritten.holesBelow

/-- Three offsets are written in an interval of twelve, whose middle is past them: both searches are lost,
though the target is there. -/
theorem search_past_end_of_short_queue :
    let d : ProbeData := { records := [(2, 10), (3, 20), (4, 20)] }
    WrittenOn d.probe 2 4 0 11 ∧ NonDecreasing d.probe 2 4 ∧
      (3 : UInt64) ∈ holding d.probe 20 2 4 ∧
      (search .leftmost 20 d.probe 0 11).result = .ok none ∧
      (search .ceiling 20 d.probe 0 11).result = .ok none := by
  intro d
  have hhole {offset : UInt64} (h : offset < 2 ∨ 4 < offset) : d.probe offset = .ok none := by
    rw [ProbeData.probe_eq_lookup rfl List.not_mem_nil]
    refine congrArg _ (List.lookup_eq_none_iff.mpr fun p hp => ?_)
    have hcases : p = (2, 10) ∨ p = (3, 20) ∨ p = (4, 20) := by simpa [d] using hp
    rcases hcases with rfl | rfl | rfl <;> grind
  have hwritten : WrittenOn d.probe 2 4 0 11 := by
    refine ⟨by decide, by decide, by decide, fun _ _ hlt => hhole (.inl hlt),
      fun offset hfirst hlast => ?_, fun _ hlt _ => hhole (.inr hlt)⟩
    have hcases : offset = 2 ∨ offset = 3 ∨ offset = 4 := by grind
    rcases hcases with rfl | rfl | rfl <;> exact ⟨_, rfl⟩
  have hmono : NonDecreasing d.probe 2 4 := by
    intro offset offset' v v' _ hle _ hv hv'
    have hrecord := ProbeData.mem_records rfl hv
    have hrecord' := ProbeData.mem_records rfl hv'
    simp only [d, List.mem_cons, Prod.mk.injEq, List.not_mem_nil, or_false] at hrecord hrecord'
    rcases hrecord with h | h | h <;> rcases hrecord' with h' | h' | h' <;> grind
  have hthree : (3 : UInt64) ∈ holding d.probe 20 2 4 := ⟨by decide, by decide, rfl⟩
  have hthree' : (3 : UInt64) ∈ placed d.probe (20 ≤ ·) 2 4 :=
    ⟨by decide, by decide, 20, rfl, UInt64.le_refl 20⟩
  have hleft : (search .leftmost 20 d.probe 0 11).probes = [5, 8, 10, 11] := by decide +kernel
  have hceiling : (search .ceiling 20 d.probe 0 11).probes = [5, 8, 10, 11] := by decide +kernel
  obtain ⟨⟨-, hlost⟩, -, hlost'⟩ := search_past_end d.probe 20 0 2 4 11 hwritten hmono
  rw [hleft] at hlost
  rw [hceiling] at hlost'
  exact ⟨hwritten, hmono, hthree, (hlost ⟨3, hthree⟩).mpr (by decide),
    (hlost' ⟨3, hthree'⟩).mpr (by decide)⟩

end MessageIndex
