import MessageIndex.Proofs.SearchSteps
import MessageIndex.Search.ProbeData

/-!
# Proofs: a search whose probes fail

A search knows of its probe only what it was answered. So two probes that answer alike at the offsets probed
lead to one and the same run (`bisect_congr`), and where one of them fails at last, its run is the front of
the other one up to there (`bisect_of_failure`). An answer that was remembered before the failure is lost.
-/

namespace MessageIndex

/-- A probe that is made to fail at some offsets. -/
def Probe.failingAt {ε : Type} (failure : UInt64 → Option ε) (probe : Probe ε) : Probe ε :=
  fun offset =>
    match failure offset with
    | some cause => .error cause
    | none => probe offset

namespace Probe

variable {ε : Type} {failure : UInt64 → Option ε} {probe : Probe ε} {offset : UInt64}

theorem failingAt_of_none (h : failure offset = none) : probe.failingAt failure offset = probe offset := by
  rw [failingAt, h]

theorem failingAt_of_some {cause : ε} (h : failure offset = some cause) :
    probe.failingAt failure offset = .error cause := by
  rw [failingAt, h]

end Probe

namespace Search

variable {ε : Type} {rule : Rule} {probe probe' : Probe ε} {low high : UInt64} {found : Option Found}

theorem bisect_congr (h : ∀ offset ∈ (bisect rule probe low high found).probes,
    probe' offset = probe offset) :
    bisect rule probe' low high found = bisect rule probe low high found := by
  fun_induction bisect rule probe low high found with
  | case1 low high found hle mid cause hprobe =>
    have hprobe' := (h mid List.mem_cons_self).trans hprobe
    rw [bisect_of_error hle hprobe']
  | case2 low high found hle mid answer hprobe _ hend =>
    have hprobe' := (h mid List.mem_cons_self).trans hprobe
    rw [bisect_of_end hle hprobe' hend]
  | case3 low high found hle mid answer hprobe _ low' high' hnext rest ih =>
    have hprobe' := (h mid List.mem_cons_self).trans hprobe
    have hrest := ih fun offset hmem => h offset (List.mem_cons_of_mem mid hmem)
    rw [bisect_of_next hle hprobe' hnext, hrest]
    rfl
  | case4 low high found hempty => rw [bisect_of_empty hempty]

/-- The first failure ends the run, and what it probed before is what it would have probed without. -/
theorem bisect_of_failure {after : List UInt64} {offset : UInt64} {cause : ε}
    (hfail : probe' offset = .error cause) :
    ∀ before : List UInt64,
      (bisect rule probe low high found).probes = before ++ offset :: after →
      (∀ offset' ∈ before, probe' offset' = probe offset') →
      bisect rule probe' low high found = ⟨.error cause, before ++ [offset]⟩ := by
  have hfirst {low high mid : UInt64} {found : Option Found} {before : List UInt64} (hle : low ≤ high)
      (hmid : mid = midpoint low high) (hone : [mid] = before ++ offset :: after) :
      bisect rule probe' low high found = ⟨.error cause, before ++ [offset]⟩ := by
    obtain ⟨rfl, hlast⟩ | ⟨-, hmore⟩ := List.append_eq_singleton_iff.mp hone.symm
    · obtain rfl := (List.cons.inj hlast).1
      subst hmid
      rw [bisect_of_error hle hfail]
      rfl
    · cases hmore
  fun_induction bisect rule probe low high found with
  | case1 low high found hle mid cause' hprobe =>
    intro before hprobes _
    exact hfirst hle rfl hprobes
  | case2 low high found hle mid answer hprobe _ hend =>
    intro before hprobes _
    exact hfirst hle rfl hprobes
  | case3 low high found hle mid answer hprobe _ low' high' hnext rest ih =>
    intro before hprobes hsame
    rcases before with - | ⟨first, before⟩
    · obtain rfl : mid = offset := (List.cons.inj hprobes).1
      rw [bisect_of_error hle hfail]
      rfl
    · obtain ⟨rfl, hrest⟩ : mid = first ∧ rest.probes = before ++ offset :: after :=
        List.cons.inj hprobes
      obtain ⟨hhere, hlater⟩ := List.forall_mem_cons.mp hsame
      rw [bisect_of_next hle (hhere.trans hprobe) hnext, ih before hrest hlater]
      rfl
  | case4 low high found hempty =>
    intro before hprobes _
    exact absurd hprobes.symm (List.append_ne_nil_of_right_ne_nil before (List.cons_ne_nil _ _))

end Search

open Search

/-- A search with a probe that is made to fail at some offsets is the search without these failures, if it
probes none of them. Otherwise it ends with the failure at the first of them, having probed what comes before,
whatever it has found there. -/
theorem search_stops_at_failure {ε : Type} (mode : Mode) (target : UInt64) (probe : Probe ε)
    (failure : UInt64 → Option ε) (low high : UInt64) :
    ((∀ offset ∈ (search mode target probe low high).probes, failure offset = none) →
      search mode target (probe.failingAt failure) low high = search mode target probe low high) ∧
    ∀ before offset after cause,
      (search mode target probe low high).probes = before ++ offset :: after →
      (∀ offset' ∈ before, failure offset' = none) → failure offset = some cause →
      search mode target (probe.failingAt failure) low high = ⟨.error cause, before ++ [offset]⟩ := by
  constructor
  · intro hfine
    exact bisect_congr fun offset hmem => Probe.failingAt_of_none (hfine offset hmem)
  · intro before offset after cause hprobes hfine hfail
    refine bisect_of_failure (Probe.failingAt_of_some hfail) before hprobes fun offset' hmem => ?_
    exact Probe.failingAt_of_none (hfine offset' hmem)

/-- A search has found what it looks for when its next probe fails. Failures at offsets it does not probe
change nothing. -/
theorem search_stops_at_failure_behind_match :
    let d : ProbeData := { records := [(3, 10)] }
    let failure : UInt64 → Option ProbeFailure := fun offset => if offset ≤ 2 then some ⟨offset⟩ else none
    let elsewhere : UInt64 → Option ProbeFailure := fun offset => if 3 < offset then some ⟨offset⟩ else none
    (search .leftmost 10 d.probe 0 6).probes = [3] ++ 1 :: [2] ∧
      (∀ offset ∈ [3], failure offset = none) ∧ failure 1 = some ⟨1⟩ ∧
      search .leftmost 10 (d.probe.failingAt failure) 0 6 = ⟨.error ⟨1⟩, [3, 1]⟩ ∧
      (∀ offset ∈ (search .leftmost 10 d.probe 0 6).probes, elsewhere offset = none) ∧
      (search .leftmost 10 (d.probe.failingAt elsewhere) 0 6).result.toOption =
        some (some ⟨10, 3⟩) := by
  intro d failure elsewhere
  have hprobes : (search .leftmost 10 d.probe 0 6).probes = [3] ++ 1 :: [2] := by decide +kernel
  have hbefore : ∀ offset ∈ [3], failure offset = none := List.forall_mem_singleton.mpr rfl
  have hspared : ∀ offset ∈ (search .leftmost 10 d.probe 0 6).probes, elsewhere offset = none := by
    rw [hprobes]
    simp only [List.singleton_append, List.forall_mem_cons]
    exact ⟨rfl, rfl, rfl, nofun⟩
  obtain ⟨-, hstops⟩ := search_stops_at_failure .leftmost 10 d.probe failure 0 6
  obtain ⟨hsame, -⟩ := search_stops_at_failure .leftmost 10 d.probe elsewhere 0 6
  refine ⟨hprobes, hbefore, rfl, hstops [3] 1 [2] ⟨1⟩ hprobes hbefore rfl, hspared, ?_⟩
  rw [hsame hspared]
  decide +kernel

end MessageIndex
