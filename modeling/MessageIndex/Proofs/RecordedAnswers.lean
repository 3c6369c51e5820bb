import MessageIndex.Proofs.SearchGoal

/-!
# Proofs: a search answers with the best of what it has probed

Each answer that a search records takes the place of the one before, so it ends with the last answer among
its probes (`result_eq_getLast`). All four questions go on to the same side of each of their answers, and
what is left of the interval lies there; so the answers are met in the order of their offsets
(`pairwise_answers`), and the last one is the best. Neither the order of the positions nor the place of the
holes has a part in this.
-/

namespace MessageIndex

namespace Search

variable {ε : Type} {rule : Rule} {probe : Probe ε} {target low high : UInt64} {found : Option Found}

/-! ## The last answer -/

/-- What a search records at an offset. -/
def recorded? (rule : Rule) (probe : Probe ε) (offset : UInt64) : Option Found :=
  match probe offset with
  | .ok answer => remember rule offset none answer
  | .error _ => none

/-- The answers among some offsets, in the order in which these are probed. -/
def answers (rule : Rule) (probe : Probe ε) (offsets : List UInt64) : List Found :=
  offsets.filterMap (recorded? rule probe)

theorem recorded?_eq_some_iff {offset : UInt64} {c : Found} :
    recorded? rule probe offset = some c ↔
      c.queueOffset = offset ∧ probe offset = .ok (some c.physicalOffset) ∧
        (rule c.physicalOffset).record := by
  unfold recorded?
  constructor
  · intro h
    cases hprobe : probe offset with
    | error cause =>
      rw [hprobe] at h
      cases h
    | ok answer =>
      rw [hprobe] at h
      cases answer with
      | none => cases h
      | some v =>
        by_cases hrecord : (rule v).record
        · obtain rfl := Option.some.inj ((remember_of_record hrecord).symm.trans h)
          exact ⟨rfl, rfl, hrecord⟩
        · cases (remember_of_not_record hrecord).symm.trans h
  · rintro ⟨rfl, hprobe, hrecord⟩
    simp only [hprobe]
    exact remember_of_record hrecord

theorem mem_answers_iff {offsets : List UInt64} {c : Found} :
    c ∈ answers rule probe offsets ↔ c.queueOffset ∈ offsets ∧
      probe c.queueOffset = .ok (some c.physicalOffset) ∧ (rule c.physicalOffset).record := by
  unfold answers
  rw [List.mem_filterMap]
  constructor
  · rintro ⟨offset, hmem, hc⟩
    obtain ⟨rfl, hprobe, hrecord⟩ := recorded?_eq_some_iff.mp hc
    exact ⟨hmem, hprobe, hrecord⟩
  · rintro ⟨hmem, hprobe, hrecord⟩
    exact ⟨c.queueOffset, hmem, recorded?_eq_some_iff.mpr ⟨rfl, hprobe, hrecord⟩⟩

/-- What is remembered after a probe is what it records, or else what was remembered before. -/
theorem remember_eq_or {mid : UInt64} {answer : Option UInt64} (hprobe : probe mid = .ok answer) :
    remember rule mid found answer = (recorded? rule probe mid).or found := by
  unfold recorded?
  rw [hprobe]
  cases answer with
  | none => rfl
  | some v =>
    by_cases hrecord : (rule v).record
    · simp only [remember_of_record hrecord, Option.some_or]
    · simp only [remember_of_not_record hrecord, Option.none_or]

theorem getLast?_answers_cons (mid : UInt64) (offsets : List UInt64) :
    (answers rule probe (mid :: offsets)).getLast?.or found =
      (answers rule probe offsets).getLast?.or ((recorded? rule probe mid).or found) := by
  unfold answers
  cases hmid : recorded? rule probe mid with
  | none => rw [List.filterMap_cons_none hmid, Option.none_or]
  | some c =>
    rw [List.filterMap_cons_some hmid, List.getLast?_cons]
    cases (offsets.filterMap (recorded? rule probe)).getLast? <;> rfl

/-- A search ends with the last answer among its probes, or with what it had before. -/
theorem result_eq_getLast (hsound : NeverFails probe low high) :
    (bisect rule probe low high found).result =
      .ok ((answers rule probe (bisect rule probe low high found).probes).getLast?.or found) := by
  fun_induction bisect rule probe low high found with
  | case1 low high found hle mid cause hprobe =>
    exact absurd hprobe (hsound.midpoint_ne_error hle)
  | case2 low high found hle mid answer hprobe _ hend =>
    rw [getLast?_answers_cons, ← remember_eq_or hprobe]
    rfl
  | case3 low high found hle mid answer hprobe found' low' high' hnext rest ih =>
    obtain ⟨hsub, hsub'⟩ := narrow_subset hle hnext
    have hrest := ih (hsound.mono hsub hsub')
    rw [getLast?_answers_cons, ← remember_eq_or hprobe]
    exact hrest
  | case4 low high found hempty => rfl

/-! ## Answers in order -/

/-- The rule goes on to the same side of each of its answers. -/
def GoesOn (rule : Rule) (descend : Bool) : Prop :=
  ∀ v, (rule v).record → (rule v).descend = descend

/-- What a search meets after an answer lies on the side of it on which the search went on. -/
theorem pairwise_answers {descend : Bool} (h : GoesOn rule descend) :
    (answers rule probe (bisect rule probe low high found).probes).Pairwise
      fun c c' => Beyond descend c.queueOffset c'.queueOffset := by
  have hone (mid : UInt64) : (answers rule probe [mid]).Pairwise
      fun c c' => Beyond descend c.queueOffset c'.queueOffset := by
    unfold answers
    cases hmid : recorded? rule probe mid with
    | none =>
      rw [List.filterMap_cons_none hmid]
      exact List.Pairwise.nil
    | some c =>
      rw [List.filterMap_cons_some hmid]
      exact List.pairwise_singleton _ _
  fun_induction bisect rule probe low high found with
  | case1 low high found hle mid cause hprobe => exact hone mid
  | case2 low high found hle mid answer hprobe _ hend => exact hone mid
  | case3 low high found hle mid answer hprobe found' low' high' hnext rest ih =>
    show (answers rule probe (mid :: rest.probes)).Pairwise _
    unfold answers
    cases hmid : recorded? rule probe mid with
    | none =>
      rw [List.filterMap_cons_none hmid]
      exact ih
    | some c =>
      obtain ⟨hoffset, hc, hrecord⟩ := recorded?_eq_some_iff.mp hmid
      rw [List.filterMap_cons_some hmid, List.pairwise_cons]
      refine ⟨fun c' hc' => ?_, ih⟩
      obtain ⟨hmem, -, -⟩ := mem_answers_iff.mp hc'
      obtain ⟨hlow, hhigh⟩ := mem_interval_of_mem_probes hmem
      obtain ⟨-, -, hbeyond⟩ := of_narrow hle hnext hlow hhigh
      obtain rfl : answer = some c.physicalOffset := Except.ok.inj (hprobe.symm.trans hc)
      rw [hoffset, ← h _ hrecord]
      exact hbeyond
  | case4 low high found hempty => exact List.Pairwise.nil

/-! ## The four questions -/

namespace Mode

/-- The positions that a question asks for. -/
def Wants (target : UInt64) : Mode → UInt64 → Prop
  | leftmost, v => v = target
  | rightmost, v => v = target
  | ceiling, v => target ≤ v
  | floor, v => v ≤ target

/-- The best of some offsets for a question. -/
def Best : Mode → Set UInt64 → UInt64 → Prop
  | leftmost => IsLeast
  | rightmost => IsGreatest
  | ceiling => IsLeast
  | floor => IsGreatest

/-- The side of an answer on which a better one may be: below it, or else above it. -/
def betterBelow : Mode → Bool
  | leftmost => true
  | rightmost => false
  | ceiling => true
  | floor => false

theorem record_iff (mode : Mode) (v : UInt64) : (mode.rule target v).record ↔ mode.Wants target v := by
  cases mode <;> exact decide_eq_true_iff

theorem goesOn (mode : Mode) (target : UInt64) : GoesOn (mode.rule target) mode.betterBelow := by
  intro v hrecord
  have hwants := (mode.record_iff v).mp hrecord
  cases mode with
  | leftmost => exact decide_eq_true (UInt64.le_of_eq hwants.symm)
  | rightmost => exact decide_eq_false (hwants ▸ UInt64.lt_irrefl v)
  | ceiling => exact decide_eq_true hwants
  | floor => exact decide_eq_false (UInt64.not_lt.mpr hwants)

theorem best_of_beyond {mode : Mode} {s : Set UInt64} {offset : UInt64} (hmem : offset ∈ s)
    (h : ∀ offset' ∈ s, offset' = offset ∨ Beyond mode.betterBelow offset' offset) :
    mode.Best s offset := by
  cases mode with
  | leftmost | ceiling =>
    refine ⟨hmem, fun offset' hmem' => ?_⟩
    rcases h offset' hmem' with rfl | hlt
    · exact UInt64.le_refl _
    · exact UInt64.le_of_lt hlt
  | rightmost | floor =>
    refine ⟨hmem, fun offset' hmem' => ?_⟩
    rcases h offset' hmem' with rfl | hlt
    · exact UInt64.le_refl _
    · exact UInt64.le_of_lt hlt

end Mode

/-- Those of the offsets probed whose position is wanted. -/
def Run.met (run : Run ε) (probe : Probe ε) (wanted : UInt64 → Prop) : Set UInt64 :=
  {offset | offset ∈ run.probes ∧ ∃ v, probe offset = .ok (some v) ∧ wanted v}

theorem mem_met_iff {mode : Mode} {offset : UInt64} :
    offset ∈ (search mode target probe low high).met probe (mode.Wants target) ↔
      ∃ c ∈ answers (mode.rule target) probe (search mode target probe low high).probes,
        c.queueOffset = offset := by
  constructor
  · rintro ⟨hmem, v, hv, hwants⟩
    exact ⟨⟨v, offset⟩, mem_answers_iff.mpr ⟨hmem, hv, (mode.record_iff v).mpr hwants⟩, rfl⟩
  · rintro ⟨c, hc, rfl⟩
    obtain ⟨hmem, hv, hrecord⟩ := mem_answers_iff.mp hc
    exact ⟨hmem, c.physicalOffset, hv, (mode.record_iff _).mp hrecord⟩

/-- The last answer of a search is the best of the offsets it met. -/
theorem best_of_getLast {mode : Mode} {c : Found}
    (h : (answers (mode.rule target) probe (search mode target probe low high).probes).getLast? =
      some c) :
    mode.Best ((search mode target probe low high).met probe (mode.Wants target)) c.queueOffset := by
  obtain ⟨front, hsplit⟩ := List.getLast?_eq_some_iff.mp h
  have horder : (answers (mode.rule target) probe (search mode target probe low high).probes).Pairwise
      _ := pairwise_answers (mode.goesOn target)
  rw [hsplit, List.pairwise_append] at horder
  obtain ⟨-, -, hlast⟩ := horder
  refine Mode.best_of_beyond (mem_met_iff.mpr ⟨c, ?_, rfl⟩) fun offset hmet => ?_
  · rw [hsplit]
    exact List.mem_append_right _ List.mem_cons_self
  · obtain ⟨c', hc', rfl⟩ := mem_met_iff.mp hmet
    rw [hsplit] at hc'
    rcases List.mem_append.mp hc' with hfront | hend
    · exact .inr (hlast c' hfront c List.mem_cons_self)
    · rw [List.mem_singleton.mp hend]
      exact .inl rfl

end Search

open Search

/-- Whatever the positions and wherever the holes, what a search finds is an offset of its interval with the
position that is there, which is one it was asked for; and of all offsets it has probed that are at such a
position, it is the least or the greatest, as was asked. Nothing is found just when it has probed no such
offset. -/
theorem search_finds_best_of_probed {ε : Type} (mode : Mode) (target : UInt64) (probe : Probe ε)
    (low high : UInt64) (hsound : NeverFails probe low high) :
    ∃ found, (search mode target probe low high).result = .ok found ∧
      (∀ c, found = some c →
        low ≤ c.queueOffset ∧ c.queueOffset ≤ high ∧
        probe c.queueOffset = .ok (some c.physicalOffset) ∧ mode.Wants target c.physicalOffset ∧
        mode.Best ((search mode target probe low high).met probe (mode.Wants target))
          c.queueOffset) ∧
      (found = none ↔
        (search mode target probe low high).met probe (mode.Wants target) = ∅) := by
  have hresult : (search mode target probe low high).result =
      .ok ((answers (mode.rule target) probe
        (bisect (mode.rule target) probe low high none).probes).getLast?.or none) :=
    result_eq_getLast hsound
  rw [Option.or_none] at hresult
  refine ⟨_, hresult, fun c hc => ?_, ?_⟩
  · obtain ⟨hmem, hprobe, hrecord⟩ := mem_answers_iff.mp (List.mem_of_getLast? hc)
    obtain ⟨hlow, hhigh⟩ := mem_interval_of_mem_probes hmem
    exact ⟨hlow, hhigh, hprobe, (mode.record_iff _).mp hrecord, best_of_getLast hc⟩
  · rw [List.getLast?_eq_none_iff, Set.eq_empty_iff_forall_notMem]
    constructor
    · intro hnone offset hmet
      obtain ⟨c, hc, -⟩ := mem_met_iff.mp hmet
      rw [search, hnone] at hc
      cases hc
    · intro hempty
      refine List.eq_nil_iff_forall_not_mem.mpr fun c hc => ?_
      exact hempty c.queueOffset (mem_met_iff.mpr ⟨c, hc, rfl⟩)

/-- Positions that go up and down, with holes between them: of the two offsets at the target the search probes
the lower one only, which it takes for the greatest. -/
theorem search_finds_best_of_probed_out_of_order :
    let d : ProbeData := { failing := [7], records := [(2, 10), (3, 20), (5, 10)] }
    NeverFails d.probe 0 6 ∧ (search .rightmost 10 d.probe 0 6).result = .ok (some ⟨10, 2⟩) ∧
      IsGreatest ((search .rightmost 10 d.probe 0 6).met d.probe (· = 10)) 2 ∧
      d.probe 5 = .ok (some 10) := by
  intro d
  have hsound : NeverFails d.probe 0 6 := by
    intro offset _ hhigh
    have hfine : offset ∉ d.failing := by
      intro hmem
      obtain rfl := List.mem_singleton.mp hmem
      exact absurd hhigh (by decide)
    exact ⟨_, ProbeData.probe_eq_lookup rfl hfine⟩
  have hanswer : (search .rightmost 10 d.probe 0 6).result.toOption = some (some ⟨10, 2⟩) := by
    decide +kernel
  obtain ⟨found, hfound, hbest, -⟩ := search_finds_best_of_probed .rightmost 10 d.probe 0 6 hsound
  rw [hfound] at hanswer
  obtain rfl := Option.some.inj hanswer
  obtain ⟨-, -, -, -, hgreatest⟩ := hbest ⟨10, 2⟩ rfl
  exact ⟨hsound, hfound, hgreatest, rfl⟩

end MessageIndex
