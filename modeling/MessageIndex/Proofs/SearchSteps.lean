import MessageIndex.Search

/-!
# Proofs: the steps of a search

A bisection probes the middle of its interval and goes on in the part below or above it, unless the
probe fails or the offsets end there. Each of these cases has an equation of its own, so that two
searches can be followed side by side; `of_narrow` says where the offsets lie that are left after a step.
-/

namespace MessageIndex.Search

/-! ## The part that is left -/

theorem le_midpoint {low high : UInt64} (h : low ≤ high) : low ≤ midpoint low high := by
  rw [UInt64.le_iff_toNat_le, midpoint_toNat h]
  exact Nat.le_add_right _ _

theorem midpoint_le {low high : UInt64} (h : low ≤ high) : midpoint low high ≤ high := by
  have hle := UInt64.le_iff_toNat_le.mp h
  rw [UInt64.le_iff_toNat_le, midpoint_toNat h]
  omega

/-- The side of `mid` on which a search goes on. -/
def Beyond : (descend : Bool) → (mid offset : UInt64) → Prop
  | true, mid, offset => offset < mid
  | false, mid, offset => mid < offset

/-- What is left after a step lies in the interval, on the side the search goes on. -/
theorem of_narrow {low high low' high' offset : UInt64} {descend : Bool} (h : low ≤ high)
    (hnext : narrow low high (midpoint low high) descend = some (low', high')) (hlow : low' ≤ offset)
    (hhigh : offset ≤ high') :
    low ≤ offset ∧ offset ≤ high ∧ Beyond descend (midpoint low high) offset := by
  have hmid := le_midpoint h
  have hmid' := midpoint_le h
  obtain ⟨rfl, hne, rfl, rfl⟩ | ⟨rfl, hne, rfl, rfl⟩ := narrow_cases hnext
  · have hlt : offset < midpoint low' high := by grind
    exact ⟨hlow, UInt64.le_trans (UInt64.le_of_lt hlt) hmid', hlt⟩
  · have hlt : midpoint low high' < offset := by grind
    exact ⟨UInt64.le_trans hmid (UInt64.le_of_lt hlt), hhigh, hlt⟩

/-! ## One step -/

variable {ε : Type} {rule : Rule} {probe : Probe ε} {low high low' high' : UInt64}
  {found : Option Found} {answer : Option UInt64}

theorem remember_of_record {mid v : UInt64} (h : (rule v).record) :
    remember rule mid found (some v) = some ⟨v, mid⟩ := if_pos h

theorem remember_of_not_record {mid v : UInt64} (h : ¬ (rule v).record) :
    remember rule mid found (some v) = found := if_neg h

/-- A run behind a probe that did not end the search. -/
def Run.after (mid : UInt64) (rest : Run ε) : Run ε := { rest with probes := mid :: rest.probes }

theorem bisect_of_empty (h : ¬ low ≤ high) : bisect rule probe low high found = ⟨.ok found, []⟩ := by
  rw [bisect, dif_neg h]

theorem bisect_of_error {cause : ε} (h : low ≤ high)
    (hprobe : probe (midpoint low high) = .error cause) :
    bisect rule probe low high found = ⟨.error cause, [midpoint low high]⟩ := by
  rw [bisect, dif_pos h]
  simp only [hprobe]

theorem bisect_of_end (h : low ≤ high) (hprobe : probe (midpoint low high) = .ok answer)
    (hend : narrow low high (midpoint low high) (judge rule answer).descend = none) :
    bisect rule probe low high found =
      ⟨.ok (remember rule (midpoint low high) found answer), [midpoint low high]⟩ := by
  rw [bisect, dif_pos h]
  simp only [hprobe]
  split
  · rfl
  · next hnext => rw [hend] at hnext; cases hnext

theorem bisect_of_next (h : low ≤ high) (hprobe : probe (midpoint low high) = .ok answer)
    (hnext : narrow low high (midpoint low high) (judge rule answer).descend = some (low', high')) :
    bisect rule probe low high found =
      (bisect rule probe low' high' (remember rule (midpoint low high) found answer)).after
        (midpoint low high) := by
  rw [bisect, dif_pos h]
  simp only [hprobe]
  split
  · next hend => rw [hnext] at hend; cases hend
  · next hsome =>
    rw [hnext] at hsome
    obtain ⟨rfl, rfl⟩ := Prod.mk.inj (Option.some.inj hsome)
    rfl

/-- A search probes nothing outside its interval. -/
theorem mem_interval_of_mem_probes {offset : UInt64}
    (h : offset ∈ (bisect rule probe low high found).probes) : low ≤ offset ∧ offset ≤ high := by
  fun_induction bisect rule probe low high found with
  | case1 low high found hle mid cause hprobe =>
    rw [List.mem_singleton.mp h]
    exact ⟨le_midpoint hle, midpoint_le hle⟩
  | case2 low high found hle mid answer hprobe _ hend =>
    rw [List.mem_singleton.mp h]
    exact ⟨le_midpoint hle, midpoint_le hle⟩
  | case3 low high found hle mid answer hprobe _ low' high' hnext rest ih =>
    rcases List.mem_cons.mp h with rfl | hrest
    · exact ⟨le_midpoint hle, midpoint_le hle⟩
    · obtain ⟨hlow, hhigh, -⟩ := of_narrow hle hnext (ih hrest).1 (ih hrest).2
      exact ⟨hlow, hhigh⟩
  | case4 low high found hempty => cases h

/-- A search fails with a probe only. -/
theorem exists_result (rule : Rule) (found : Option Found)
    (h : ∀ offset, low ≤ offset → offset ≤ high → ∃ answer, probe offset = .ok answer) :
    ∃ result, (bisect rule probe low high found).result = .ok result := by
  fun_induction bisect rule probe low high found with
  | case1 low high found hle mid cause hprobe =>
    obtain ⟨answer, hanswer⟩ := h mid (le_midpoint hle) (midpoint_le hle)
    rw [hanswer] at hprobe
    cases hprobe
  | case2 low high found hle mid answer hprobe found' hend => exact ⟨found', rfl⟩
  | case3 low high found hle mid answer hprobe found' low' high' hnext rest ih =>
    refine ih fun offset hlow hhigh => ?_
    obtain ⟨hlow', hhigh', -⟩ := of_narrow hle hnext hlow hhigh
    exact h offset hlow' hhigh'
  | case4 low high found hempty => exact ⟨found, rfl⟩

end MessageIndex.Search
