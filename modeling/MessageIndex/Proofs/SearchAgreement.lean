import MessageIndex.Proofs.SearchSteps
import MessageIndex.Search.ProbeData

/-!
# Proofs: exact and approximate searches agree

A search for the least offset at exactly the target goes on to the same side of every value as the search
for the least offset at or after it, and so do the two searches for the greatest offset. So both probe
the same offsets (`probes_congr`), whatever the probe answers. They remember different answers. Once the
approximate search has met the target itself, though, positions that do not decrease leave nothing better
for it to find, so the exact answer is the approximate one, if that is at the target, and otherwise there
is none (`result_filter`). No hole is in the way of this, wherever it is.
-/

namespace MessageIndex

namespace Search

variable {ε : Type} {rule exact : Rule} {probe : Probe ε} {target low high : UInt64}

/-- The positions present from `low` to `high` do not decrease. -/
def NonDecreasing (probe : Probe ε) (low high : UInt64) : Prop :=
  ∀ offset offset' v v', low ≤ offset → offset ≤ offset' → offset' ≤ high →
    probe offset = .ok (some v) → probe offset' = .ok (some v') → v ≤ v'

/-! ## The same way -/

theorem judge_descend_congr (h : ∀ v, (exact v).descend = (rule v).descend) (answer : Option UInt64) :
    (judge exact answer).descend = (judge rule answer).descend := by
  cases answer with
  | none => rfl
  | some v => exact h v

/-- Rules that go on to the same side of every value lead to the same offsets. -/
theorem probes_congr (h : ∀ v, (exact v).descend = (rule v).descend) (probe : Probe ε)
    (low high : UInt64) (found found' : Option Found) :
    (bisect exact probe low high found').probes = (bisect rule probe low high found).probes := by
  fun_induction bisect rule probe low high found generalizing found' with
  | case1 low high found hle mid cause hprobe => rw [bisect_of_error hle hprobe]
  | case2 low high found hle mid answer hprobe _ hend =>
    rw [← judge_descend_congr h] at hend
    rw [bisect_of_end hle hprobe hend]
  | case3 low high found hle mid answer hprobe _ low' high' hnext rest ih =>
    rw [← judge_descend_congr h] at hnext
    rw [bisect_of_next hle hprobe hnext]
    exact congrArg (mid :: ·) (ih _)
  | case4 low high found hempty => rw [bisect_of_empty hempty]

/-! ## The same answer -/

/-- An answer, if it is at the target. -/
def atTarget (target : UInt64) (found : Option Found) : Option Found :=
  found.filter (·.physicalOffset = target)

theorem atTarget_of_eq {c : Found} (h : c.physicalOffset = target) : atTarget target (some c) = some c :=
  if_pos (decide_eq_true h)

theorem atTarget_of_ne {c : Found} (h : c.physicalOffset ≠ target) : atTarget target (some c) = none :=
  if_neg fun hc => h (of_decide_eq_true hc)

/-- If the answer is at the target, every later answer from `low` to `high` is there too. -/
def Settled (rule : Rule) (probe : Probe ε) (target low high : UInt64) (found : Option Found) : Prop :=
  ∀ c, found = some c → c.physicalOffset = target → ∀ offset v, low ≤ offset → offset ≤ high →
    probe offset = .ok (some v) → (rule v).record → v = target

/-- A rule that takes the target for an answer and, having met it, meets no other answer on the side it
goes on. -/
structure Settles (rule : Rule) (probe : Probe ε) (target low high : UInt64) : Prop where
  /-- The target is an answer. -/
  record : (rule target).record
  /-- From where the target was met, the search goes on to no other answer. -/
  beyond : ∀ mid offset v, low ≤ mid → mid ≤ high → low ≤ offset → offset ≤ high →
    probe mid = .ok (some target) → probe offset = .ok (some v) → (rule v).record →
    Beyond (rule target).descend mid offset → v = target

theorem Settles.mono {low' high' : UInt64} (h : Settles rule probe target low high)
    (hsub : ∀ offset, low' ≤ offset → offset ≤ high' → low ≤ offset ∧ offset ≤ high) :
    Settles rule probe target low' high' := by
  refine ⟨h.record, fun mid offset v hmid hmid' hoff hoff' => ?_⟩
  exact h.beyond mid offset v (hsub mid hmid hmid').1 (hsub mid hmid hmid').2
    (hsub offset hoff hoff').1 (hsub offset hoff hoff').2

/-- A search that has met the target stays settled in what is left. -/
theorem Settles.settled_remember {found : Option Found} {answer : Option UInt64} {low' high' : UInt64}
    (h : Settles rule probe target low high) (hfound : Settled rule probe target low high found)
    (hle : low ≤ high) (hprobe : probe (midpoint low high) = .ok answer)
    (hnext : narrow low high (midpoint low high) (judge rule answer).descend = some (low', high')) :
    Settled rule probe target low' high' (remember rule (midpoint low high) found answer) := by
  intro c hc htarget offset v hlow hhigh hv hrecord
  obtain ⟨hlow', hhigh', hbeyond⟩ := of_narrow hle hnext hlow hhigh
  have hold (hbefore : found = some c) : v = target :=
    hfound c hbefore htarget offset v hlow' hhigh' hv hrecord
  cases answer with
  | none => exact hold hc
  | some w =>
    by_cases hw : (rule w).record
    · -- The target was met just now.
      rw [remember_of_record hw] at hc
      cases hc
      obtain rfl : w = target := htarget
      exact h.beyond _ offset v (le_midpoint hle) (midpoint_le hle) hlow' hhigh' hprobe hv hrecord
        hbeyond
    · rw [remember_of_not_record hw] at hc
      exact hold hc

/-- What the exact search remembers is what the approximate one does, if that is at the target. -/
theorem remember_atTarget {found : Option Found} {answer : Option UInt64}
    (hexact : ∀ v, (exact v).record = decide (v = target)) (h : Settles rule probe target low high)
    (hfound : Settled rule probe target low high found) (hle : low ≤ high)
    (hprobe : probe (midpoint low high) = .ok answer) :
    remember exact (midpoint low high) (atTarget target found) answer =
      atTarget target (remember rule (midpoint low high) found answer) := by
  cases answer with
  | none => rfl
  | some v =>
    have hrecord_iff : (exact v).record ↔ v = target := by rw [hexact, decide_eq_true_iff]
    by_cases hv : v = target
    · have hrecord : (rule v).record := hv ▸ h.record
      rw [remember_of_record (hrecord_iff.mpr hv), remember_of_record hrecord,
        atTarget_of_eq (c := ⟨v, _⟩) hv]
    · rw [remember_of_not_record fun hc => hv (hrecord_iff.mp hc)]
      by_cases hrecord : (rule v).record
      · -- An answer beside the target: nothing at the target was met before.
        rw [remember_of_record hrecord, atTarget_of_ne (c := ⟨v, _⟩) hv]
        refine Option.filter_eq_none_iff.mpr fun c hc htarget => hv ?_
        exact hfound c hc (of_decide_eq_true htarget) _ v (le_midpoint hle) (midpoint_le hle) hprobe
          hrecord
      · rw [remember_of_not_record hrecord]

/-- The exact search gives what the approximate one does, if that is at the target; both fail with the
same probe. -/
theorem result_filter (hdescend : ∀ v, (exact v).descend = (rule v).descend)
    (hexact : ∀ v, (exact v).record = decide (v = target)) {found : Option Found}
    (h : Settles rule probe target low high) (hfound : Settled rule probe target low high found) :
    (bisect exact probe low high (atTarget target found)).result =
      (bisect rule probe low high found).result.map (atTarget target) := by
  fun_induction bisect rule probe low high found with
  | case1 low high found hle mid cause hprobe =>
    rw [bisect_of_error hle hprobe]
    rfl
  | case2 low high found hle mid answer hprobe _ hend =>
    rw [← judge_descend_congr hdescend] at hend
    rw [bisect_of_end hle hprobe hend]
    exact congrArg Except.ok (remember_atTarget hexact h hfound hle hprobe)
  | case3 low high found hle mid answer hprobe _ low' high' hnext rest ih =>
    have hsub (offset : UInt64) (hlow : low' ≤ offset) (hhigh : offset ≤ high') :
        low ≤ offset ∧ offset ≤ high := by
      obtain ⟨hlow, hhigh, -⟩ := of_narrow hle hnext hlow hhigh
      exact ⟨hlow, hhigh⟩
    have hrest := ih (h.mono hsub) (h.settled_remember hfound hle hprobe hnext)
    rw [← judge_descend_congr hdescend] at hnext
    rw [bisect_of_next hle hprobe hnext, remember_atTarget hexact h hfound hle hprobe]
    exact hrest
  | case4 low high found hempty =>
    rw [bisect_of_empty hempty]
    rfl

/-! ## The four questions -/

theorem settles_ceiling (h : NonDecreasing probe low high) :
    Settles (Mode.rule target .ceiling) probe target low high := by
  have hself : decide (target ≤ target) = true := decide_eq_true (UInt64.le_refl target)
  refine ⟨hself, fun mid offset v hmid hmid' hlow hhigh htarget hv hrecord hbeyond => ?_⟩
  have hdown : (Mode.rule target .ceiling target).descend = true := hself
  rw [hdown] at hbeyond
  have hbelow : offset < mid := hbeyond
  have hle : v ≤ target := h offset mid v target hlow (UInt64.le_of_lt hbelow) hmid' hv htarget
  exact UInt64.le_antisymm hle (of_decide_eq_true hrecord)

theorem settles_floor (h : NonDecreasing probe low high) :
    Settles (Mode.rule target .floor) probe target low high := by
  have hself : decide (target ≤ target) = true := decide_eq_true (UInt64.le_refl target)
  refine ⟨hself, fun mid offset v hmid hmid' hlow hhigh htarget hv hrecord hbeyond => ?_⟩
  have hup : (Mode.rule target .floor target).descend = false :=
    decide_eq_false (UInt64.lt_irrefl target)
  rw [hup] at hbeyond
  have habove : mid < offset := hbeyond
  have hge : target ≤ v := h mid offset target v hmid (UInt64.le_of_lt habove) hhigh htarget hv
  exact UInt64.le_antisymm (of_decide_eq_true hrecord) hge

end Search

open Search

/-- The two searches for a least offset probe the same offsets, and so do the two for a greatest one,
whatever the probe answers and wherever it fails. If it does not fail, and the positions present do not
decrease, then the exact answer is the approximate one if that is at the target, and otherwise there
is none. Nothing is assumed about holes. -/
theorem exact_search_agrees {ε : Type} (probe : Probe ε) (target low high : UInt64) :
    (search .leftmost target probe low high).probes = (search .ceiling target probe low high).probes ∧
    (search .rightmost target probe low high).probes = (search .floor target probe low high).probes ∧
    ((∀ offset, low ≤ offset → offset ≤ high → ∃ answer, probe offset = .ok answer) →
      NonDecreasing probe low high →
      (∃ found, (search .ceiling target probe low high).result = .ok found ∧
        (search .leftmost target probe low high).result = .ok (atTarget target found)) ∧
      ∃ found, (search .floor target probe low high).result = .ok found ∧
        (search .rightmost target probe low high).result = .ok (atTarget target found)) := by
  have hleast (v : UInt64) : (Mode.rule target .leftmost v).descend =
      (Mode.rule target .ceiling v).descend := rfl
  have hgreatest (v : UInt64) : (Mode.rule target .rightmost v).descend =
      (Mode.rule target .floor v).descend := rfl
  have hstart (rule : Rule) : Settled rule probe target low high none := fun _ hc => nomatch hc
  refine ⟨probes_congr hleast probe low high none none, probes_congr hgreatest probe low high none none,
    fun hprobe hmono => ⟨?_, ?_⟩⟩
  · obtain ⟨found, hfound⟩ := exists_result (Mode.rule target .ceiling) none hprobe
    refine ⟨found, hfound, ?_⟩
    have hfilter := result_filter hleast (fun _ => rfl) (settles_ceiling hmono) (hstart _)
    rw [hfound] at hfilter
    exact hfilter
  · obtain ⟨found, hfound⟩ := exists_result (Mode.rule target .floor) none hprobe
    refine ⟨found, hfound, ?_⟩
    have hfilter := result_filter hgreatest (fun _ => rfl) (settles_floor hmono) (hstart _)
    rw [hfound] at hfilter
    exact hfilter

/-- Two of the offsets from 0 to 6 are at the target and every other one is a hole; the probe fails
beyond. -/
theorem exact_search_agrees_between_holes :
    let d : ProbeData := { failing := [7, 8], records := [(1, 20), (3, 20), (6, 30)] }
    (∀ offset, 0 ≤ offset → offset ≤ 6 → ∃ answer, d.probe offset = .ok answer) ∧
      NonDecreasing d.probe 0 6 ∧
      (search .leftmost 20 d.probe 0 6).result = .ok (some ⟨20, 1⟩) ∧
      (search .rightmost 20 d.probe 0 6).result = .ok (some ⟨20, 3⟩) ∧
      (search .leftmost 25 d.probe 0 6).result = .ok none := by
  intro d
  have hprobe : ∀ offset, 0 ≤ offset → offset ≤ 6 → ∃ answer, d.probe offset = .ok answer := by
    intro offset _ hhigh
    have hfine : offset ∉ d.failing := by
      show offset ∉ [7, 8]
      grind
    exact ⟨_, if_neg hfine⟩
  have hrecord {offset v : UInt64} (h : d.probe offset = .ok (some v)) :
      offset = 1 ∧ v = 20 ∨ offset = 3 ∧ v = 20 ∨ offset = 6 ∧ v = 30 := by
    unfold ProbeData.probe at h
    simp only [d, Option.bind_none, Option.or_none, List.lookup_cons, List.lookup_nil] at h
    grind
  have hmono : NonDecreasing d.probe 0 6 := by
    intro offset offset' v v' _ hle _ hv hv'
    rcases hrecord hv with ⟨rfl, rfl⟩ | ⟨rfl, rfl⟩ | ⟨rfl, rfl⟩ <;>
      rcases hrecord hv' with ⟨rfl, rfl⟩ | ⟨rfl, rfl⟩ | ⟨rfl, rfl⟩ <;> grind
  have hceiling : (search .ceiling 20 d.probe 0 6).result.toOption = some (some ⟨20, 1⟩) := by
    decide +kernel
  have hfloor : (search .floor 20 d.probe 0 6).result.toOption = some (some ⟨20, 3⟩) := by
    decide +kernel
  have hbeside : (search .ceiling 25 d.probe 0 6).result.toOption = some (some ⟨30, 6⟩) := by
    decide +kernel
  obtain ⟨-, -, hagrees⟩ := exact_search_agrees d.probe 20 0 6
  obtain ⟨⟨found, hfound, hleftmost⟩, found', hfound', hrightmost⟩ := hagrees hprobe hmono
  obtain ⟨-, -, hmiss⟩ := exact_search_agrees d.probe 25 0 6
  obtain ⟨⟨beside, hbeside', hnone⟩, -⟩ := hmiss hprobe hmono
  rw [hfound] at hceiling
  rw [hfound'] at hfloor
  rw [hbeside'] at hbeside
  cases hceiling
  cases hfloor
  cases hbeside
  exact ⟨hprobe, hmono, hleftmost, hrightmost, hnone⟩

end MessageIndex
