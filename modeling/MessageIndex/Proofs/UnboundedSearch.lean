import Mathlib.Data.List.Nodup
import Mathlib.Data.Nat.Size
import MessageIndex.Proofs.SearchSteps
import MessageIndex.Search.ProbeData

/-!
# Proofs: a search in words is a search over the integers

A bisection computes with the ends of its interval, and words end. `Unbounded.bisect` does the same over the
integers and has no limits to stop at. Where a search in words is over because there is no next word, the
interval that is left over the integers is empty, so both make the same probes (`bisect_overIntegers`).
`bisectChecked` is the search in words with sums and differences that have no value where they do not fit;
it never comes to that (`bisectChecked_eq`).

Of `n` offsets at most `n / 2` are left after a step, so there are no more steps than `n` has bits
(`length_probes_le`).
-/

namespace MessageIndex

namespace Search

/-! ## Over the integers -/

namespace Unbounded

/-- An integer with the physical position found there. -/
structure Found where
  /-- The position found. -/
  physicalOffset : UInt64
  /-- The integer it was found at. -/
  queueOffset : Int

/-- What a search asks at an integer. -/
abbrev Probe (ε : Type) := Int → Except ε (Option UInt64)

/-- The outcome of a search of the integers, with the integers probed in order. -/
structure Run (ε : Type) where
  /-- The answer, if there is one, or the failure that ended the search. -/
  result : Except ε (Option Found)
  /-- The integers probed, the first one first. -/
  probes : List Int

/-- A run that goes on after a first probe. -/
def Run.after {ε : Type} (mid : Int) (rest : Run ε) : Run ε :=
  { rest with probes := mid :: rest.probes }

/-- The middle of an interval, rounded down. -/
def midpoint (low high : Int) : Int := low + (high - low) / 2

/-- The part of an interval below or above `mid`, which may be empty. -/
def part (low high mid : Int) (descend : Bool) : Int × Int :=
  if descend then (low, mid - 1) else (mid + 1, high)

/-- What is remembered after a probe: the answer just met, or else the one from before. -/
def remember (rule : Rule) (mid : Int) (found : Option Found) : Option UInt64 → Option Found
  | none => found
  | some v => if (rule v).record then some ⟨v, mid⟩ else found

theorem part_shrinks {low high : Int} (h : low ≤ high) (descend : Bool) :
    ((part low high (midpoint low high) descend).2 + 1
      - (part low high (midpoint low high) descend).1).toNat < (high + 1 - low).toNat := by
  cases descend <;> simp only [part, midpoint, if_true, if_false, Bool.false_eq_true] <;> omega

/-- Bisection of the integers from `low` to `high`, both included. Only an empty interval ends it. -/
def bisect {ε : Type} (rule : Rule) (probe : Probe ε) (low high : Int) (found : Option Found) : Run ε :=
  if _ : low ≤ high then
    let mid := midpoint low high
    match probe mid with
    | .error cause => ⟨.error cause, [mid]⟩
    | .ok answer =>
      let left := part low high mid (judge rule answer).descend
      (bisect rule probe left.1 left.2 (remember rule mid found answer)).after mid
  else ⟨.ok found, []⟩
termination_by (high + 1 - low).toNat
decreasing_by exact part_shrinks ‹low ≤ high› _

variable {ε : Type} {rule : Rule} {probe : Probe ε} {low high : Int} {found : Option Found}

theorem bisect_of_empty (h : ¬ low ≤ high) : bisect rule probe low high found = ⟨.ok found, []⟩ := by
  rw [bisect, dif_neg h]

theorem bisect_of_error {cause : ε} (h : low ≤ high)
    (hprobe : probe (midpoint low high) = .error cause) :
    bisect rule probe low high found = ⟨.error cause, [midpoint low high]⟩ := by
  rw [bisect, dif_pos h]
  simp only [hprobe]

theorem bisect_of_answer {answer : Option UInt64} {left : Int × Int} (h : low ≤ high)
    (hprobe : probe (midpoint low high) = .ok answer)
    (hleft : part low high (midpoint low high) (judge rule answer).descend = left) :
    bisect rule probe low high found =
      (bisect rule probe left.1 left.2 (remember rule (midpoint low high) found answer)).after
        (midpoint low high) := by
  rw [bisect, dif_pos h]
  simp only [hprobe, hleft]

end Unbounded

end Search

/-- What was found in words, with its offset as an integer. -/
def Found.overIntegers (c : Found) : Search.Unbounded.Found := ⟨c.physicalOffset, c.queueOffset.toNat⟩

namespace Search

/-- A run in words, with its offsets as integers. -/
def Run.overIntegers {ε : Type} (run : Run ε) : Unbounded.Run ε :=
  ⟨run.result.map (Option.map Found.overIntegers), run.probes.map fun offset => offset.toNat⟩

/-! ## The next interval in numbers -/

variable {low high mid low' high' : UInt64} {descend : Bool}

/-- A search goes on, unless that would be below zero or above the greatest word. -/
theorem narrow_end (h : narrow low high mid descend = none) :
    (descend = true ∧ mid.toNat = 0) ∨ (descend = false ∧ mid.toNat + 1 = UInt64.size) := by
  unfold narrow at h
  cases descend with
  | true =>
    by_cases hend : mid = 0
    · exact .inl ⟨rfl, congrArg UInt64.toNat hend⟩
    · rw [if_pos rfl, if_neg hend] at h
      cases h
  | false =>
    by_cases hend : mid + 1 = 0
    · have hwraps : (mid.toNat + 1) % UInt64.size = 0 :=
        (UInt64.toNat_add mid 1).symm.trans (congrArg UInt64.toNat hend)
      have hlt := mid.toNat_lt_size
      refine .inr ⟨rfl, Nat.le_antisymm hlt (Nat.not_lt.mp fun hfits => ?_)⟩
      rw [Nat.mod_eq_of_lt hfits] at hwraps
      cases hwraps
    · rw [if_neg Bool.false_ne_true, if_neg hend] at h
      cases h

/-! ## The same run -/

theorem midpoint_overIntegers (h : low ≤ high) :
    Unbounded.midpoint low.toNat high.toNat = (midpoint low high).toNat := by
  have hle := UInt64.le_iff_toNat_le.mp h
  have hmid := midpoint_toNat h
  unfold Unbounded.midpoint
  omega

theorem part_of_narrow (h : narrow low high mid descend = some (low', high')) :
    Unbounded.part low.toNat high.toNat mid.toNat descend = (↑low'.toNat, ↑high'.toNat) := by
  unfold Unbounded.part
  obtain ⟨rfl, hlow, hhigh⟩ | ⟨rfl, hlow, hhigh⟩ := narrow_toNat h
  · rw [if_pos rfl, Prod.mk.injEq]
    omega
  · rw [if_neg Bool.false_ne_true, Prod.mk.injEq]
    omega

/-- Where words end, nothing is left over the integers. -/
theorem part_of_end (h : narrow low high mid descend = none) :
    ¬ (Unbounded.part low.toNat high.toNat mid.toNat descend).1 ≤
      (Unbounded.part low.toNat high.toNat mid.toNat descend).2 := by
  have hlt := high.toNat_lt_size
  unfold Unbounded.part
  obtain ⟨rfl, hmid⟩ | ⟨rfl, hmid⟩ := narrow_end h
  · rw [if_pos rfl]
    omega
  · rw [if_neg Bool.false_ne_true]
    omega

variable {ε : Type} {rule : Rule} {probe : Probe ε} {found : Option Found}

theorem remember_overIntegers (answer : Option UInt64) :
    Unbounded.remember rule mid.toNat (found.map Found.overIntegers) answer =
      (remember rule mid found answer).map Found.overIntegers := by
  cases answer with
  | none => rfl
  | some v =>
    by_cases hrecord : (rule v).record
    · rw [remember_of_record hrecord, Unbounded.remember, if_pos hrecord]
      rfl
    · rw [remember_of_not_record hrecord, Unbounded.remember, if_neg hrecord]

/-- A search over the integers is the search in words, if its probe answers alike at every word. -/
theorem bisect_overIntegers {probe' : Unbounded.Probe ε}
    (h : ∀ offset : UInt64, probe' offset.toNat = probe offset) (found : Option Found) :
    Unbounded.bisect rule probe' low.toNat high.toNat (found.map Found.overIntegers) =
      (bisect rule probe low high found).overIntegers := by
  have hordered {low high : UInt64} (hle : low ≤ high) : (low.toNat : Int) ≤ high.toNat :=
    Int.ofNat_le.mpr (UInt64.le_iff_toNat_le.mp hle)
  have hasked {low high : UInt64} {answer : Except ε (Option UInt64)} (hle : low ≤ high)
      (hprobe : probe (midpoint low high) = answer) :
      probe' (Unbounded.midpoint low.toNat high.toNat) = answer := by
    rw [midpoint_overIntegers hle, h, hprobe]
  fun_induction bisect rule probe low high found with
  | case1 low high found hle mid cause hprobe =>
    rw [Unbounded.bisect_of_error (hordered hle) (hasked hle hprobe), midpoint_overIntegers hle]
    rfl
  | case2 low high found hle mid answer hprobe _ hend =>
    -- Over the integers there is one more turn, with nothing left to probe.
    rw [Unbounded.bisect_of_answer (hordered hle) (hasked hle hprobe) rfl, midpoint_overIntegers hle,
      Unbounded.bisect_of_empty (part_of_end hend), remember_overIntegers]
    rfl
  | case3 low high found hle mid answer hprobe _ low' high' hnext rest ih =>
    have hleft := part_of_narrow hnext
    rw [← midpoint_overIntegers hle] at hleft
    rw [Unbounded.bisect_of_answer (hordered hle) (hasked hle hprobe) hleft, midpoint_overIntegers hle,
      remember_overIntegers, ih]
    rfl
  | case4 low high found hempty =>
    have hempty' : ¬ (low.toNat : Int) ≤ high.toNat :=
      fun hle => hempty (UInt64.le_iff_toNat_le.mpr (Int.ofNat_le.mp hle))
    rw [Unbounded.bisect_of_empty hempty']
    rfl

/-! ## Sums and differences that fit -/

/-- The sum of two words, unless it is too great for a word. -/
def add? (a b : UInt64) : Option UInt64 :=
  if a.toNat + b.toNat < UInt64.size then some (.ofNat (a.toNat + b.toNat)) else none

/-- The difference of two words, unless it is negative. -/
def sub? (a b : UInt64) : Option UInt64 :=
  if b.toNat ≤ a.toNat then some (.ofNat (a.toNat - b.toNat)) else none

theorem add?_of_lt {a b : UInt64} (h : a.toNat + b.toNat < UInt64.size) : add? a b = some (a + b) := by
  rw [add?, if_pos h, UInt64.ofNat_add, UInt64.ofNat_toNat, UInt64.ofNat_toNat]

theorem sub?_of_le {a b : UInt64} (h : b.toNat ≤ a.toNat) : sub? a b = some (a - b) := by
  rw [sub?, if_pos h, UInt64.ofNat_sub h, UInt64.ofNat_toNat, UInt64.ofNat_toNat]

/-- The middle of an interval of words, unless a step towards it leaves the words. -/
def midpoint? (low high : UInt64) : Option UInt64 :=
  (sub? high low).bind fun distance => add? low (distance / 2)

/-- The part of an interval below or above `mid`, unless there is no next word. -/
def narrow? (low high mid : UInt64) (descend : Bool) : Option (UInt64 × UInt64) :=
  if descend then (sub? mid 1).map (low, ·) else (add? mid 1).map (·, high)

theorem midpoint?_eq (h : low ≤ high) : midpoint? low high = some (midpoint low high) := by
  have hle := UInt64.le_iff_toNat_le.mp h
  have hlt := high.toNat_lt_size
  have hhalf : ((high - low) / 2).toNat = (high.toNat - low.toNat) / 2 := by
    rw [UInt64.toNat_div, UInt64.toNat_sub_of_le _ _ h]
    rfl
  have hfits : low.toNat + ((high - low) / 2).toNat < UInt64.size := by omega
  rw [midpoint?, sub?_of_le hle, Option.bind_some, add?_of_lt hfits]
  rfl

theorem eq_midpoint (h : low ≤ high) (hmid : midpoint? low high = some mid) :
    mid = midpoint low high :=
  Option.some.inj (hmid.symm.trans (midpoint?_eq h))

theorem narrow?_eq (low high mid : UInt64) (descend : Bool) :
    narrow? low high mid descend = narrow low high mid descend := by
  have hone : (1 : UInt64).toNat = 1 := UInt64.toNat_one
  cases hnext : narrow low high mid descend with
  | none =>
    obtain ⟨rfl, hmid⟩ | ⟨rfl, hmid⟩ := narrow_end hnext
    · have hnone : sub? mid 1 = none := if_neg (by omega)
      rw [narrow?, if_pos rfl, hnone, Option.map_none]
    · have hnone : add? mid 1 = none := if_neg (by omega)
      rw [narrow?, if_neg Bool.false_ne_true, hnone, Option.map_none]
  | some left =>
    obtain ⟨rfl, hne, hlow, hhigh⟩ | ⟨rfl, hne, hlow, hhigh⟩ := narrow_cases hnext
    · have hsome : sub? mid 1 = some (mid - 1) := by
        have hpred := toNat_sub_one hne
        exact sub?_of_le (by omega)
      rw [narrow?, if_pos rfl, hsome, ← hlow, ← hhigh, Option.map_some]
    · have hsome : add? mid 1 = some (mid + 1) := by
        have hsucc := toNat_add_one hne
        have hlt := (mid + 1).toNat_lt_size
        exact add?_of_lt (by omega)
      rw [narrow?, if_neg Bool.false_ne_true, hsome, ← hlow, ← hhigh, Option.map_some]

theorem narrow?_shrinks (h : low ≤ high) (hmid : midpoint? low high = some mid)
    (hnext : narrow? low high mid descend = some (low', high')) :
    high'.toNat + 1 - low'.toNat < high.toNat + 1 - low.toNat := by
  obtain rfl := eq_midpoint h hmid
  rw [narrow?_eq] at hnext
  exact narrow_shrinks h hnext

/-- Bisection in words that gives up where the middle of an interval takes a sum or a difference that does
not fit. Where only the next word does not fit, the search is over. -/
def bisectChecked {ε : Type} (rule : Rule) (probe : Probe ε) (low high : UInt64) (found : Option Found) :
    Option (Run ε) :=
  if _ : low ≤ high then
    match _ : midpoint? low high with
    | none => none
    | some mid =>
      match probe mid with
      | .error cause => some ⟨.error cause, [mid]⟩
      | .ok answer =>
        let found := remember rule mid found answer
        match _ : narrow? low high mid (judge rule answer).descend with
        | none => some ⟨.ok found, [mid]⟩
        | some (low', high') => (bisectChecked rule probe low' high' found).map (Run.after mid)
  else some ⟨.ok found, []⟩
termination_by high.toNat + 1 - low.toNat
decreasing_by exact narrow?_shrinks ‹low ≤ high› ‹_› ‹_›

theorem bisectChecked_eq (rule : Rule) (probe : Probe ε) (low high : UInt64) (found : Option Found) :
    bisectChecked rule probe low high found = some (bisect rule probe low high found) := by
  fun_induction bisectChecked rule probe low high found with
  | case1 low high found hle hmid =>
    rw [midpoint?_eq hle] at hmid
    cases hmid
  | case2 low high found hle mid hmid cause hprobe =>
    obtain rfl := eq_midpoint hle hmid
    rw [bisect_of_error hle hprobe]
  | case3 low high found hle mid hmid answer hprobe found' hend =>
    obtain rfl := eq_midpoint hle hmid
    rw [narrow?_eq] at hend
    rw [bisect_of_end hle hprobe hend]
  | case4 low high found hle mid hmid answer hprobe found' low' high' hnext ih =>
    obtain rfl := eq_midpoint hle hmid
    rw [narrow?_eq] at hnext
    rw [ih, bisect_of_next hle hprobe hnext]
    rfl
  | case5 low high found hempty => rw [bisect_of_empty hempty]

/-! ## Steps and bits -/

theorem size_half_lt {n : Nat} (h : 0 < n) : (n / 2).size < n.size := by
  rw [Nat.lt_size]
  cases hsize : (n / 2).size with
  | zero => exact h
  | succ k =>
    have hlt : k < (n / 2).size := hsize ▸ Nat.lt_succ_self k
    have hle : 2 ^ k ≤ n / 2 := Nat.lt_size.mp hlt
    rw [Nat.pow_succ]
    omega

theorem length_probes_le :
    (bisect rule probe low high found).probes.length ≤ (high.toNat + 1 - low.toNat).size := by
  have hpos {low high : UInt64} (hle : low ≤ high) : 0 < high.toNat + 1 - low.toNat := by
    have hle' := UInt64.le_iff_toNat_le.mp hle
    omega
  fun_induction bisect rule probe low high found with
  | case1 low high found hle mid cause hprobe => exact Nat.size_pos.mpr (hpos hle)
  | case2 low high found hle mid answer hprobe _ hend => exact Nat.size_pos.mpr (hpos hle)
  | case3 low high found hle mid answer hprobe _ low' high' hnext rest ih =>
    calc rest.probes.length + 1
      _ ≤ (high'.toNat + 1 - low'.toNat).size + 1 := Nat.succ_le_succ ih
      _ ≤ ((high.toNat + 1 - low.toNat) / 2).size + 1 :=
        Nat.succ_le_succ (Nat.size_le_size (narrow_halves hle hnext))
      _ ≤ (high.toNat + 1 - low.toNat).size := size_half_lt (hpos hle)
  | case4 low high found hempty => exact Nat.zero_le _

theorem not_beyond_self : ¬ Beyond descend mid mid := by
  intro h
  cases descend with
  | true => exact UInt64.lt_irrefl mid h
  | false => exact UInt64.lt_irrefl mid h

/-- No offset is probed twice: what is left after a step lies on one side of the offset probed. -/
theorem nodup_probes : (bisect rule probe low high found).probes.Nodup := by
  fun_induction bisect rule probe low high found with
  | case1 low high found hle mid cause hprobe => exact List.nodup_singleton mid
  | case2 low high found hle mid answer hprobe _ hend => exact List.nodup_singleton mid
  | case3 low high found hle mid answer hprobe _ low' high' hnext rest ih =>
    refine List.nodup_cons.mpr ⟨fun hmem => ?_, ih⟩
    obtain ⟨hlow, hhigh⟩ := mem_interval_of_mem_probes hmem
    obtain ⟨-, -, hbeyond⟩ := of_narrow hle hnext hlow hhigh
    exact not_beyond_self hbeyond
  | case4 low high found hempty => exact List.nodup_nil

end Search

open Search

/-- Whatever the rule and the probe are, and wherever the probe fails, a bisection takes no sum and no
difference that does not fit into a word. It probes offsets of its interval, each at most once, and not more
of them than the number of offsets there has bits: none of an empty interval, and at most 65 of all words.
The same bisection over the integers, which does not stop where words end, probes the same offsets and has
the same result. -/
theorem bisect_as_over_integers {ε : Type} (rule : Rule) (probe : Probe ε) (low high : UInt64) :
    let run := bisect rule probe low high none
    bisectChecked rule probe low high none = some run ∧
    (∀ offset ∈ run.probes, low ≤ offset ∧ offset ≤ high) ∧
    run.probes.Nodup ∧
    run.probes.length ≤ (high.toNat + 1 - low.toNat).size ∧
    (high.toNat + 1 - low.toNat).size ≤ 65 ∧
    (high < low → run.probes = []) ∧
    ∀ probe' : Unbounded.Probe ε, (∀ offset : UInt64, probe' offset.toNat = probe offset) →
      Unbounded.bisect rule probe' low.toNat high.toNat none = run.overIntegers := by
  intro run
  have hsize : (high.toNat + 1 - low.toNat).size ≤ 65 := by
    have hlt := high.toNat_lt
    exact Nat.size_le.mpr (by omega)
  have hempty (h : high < low) : run.probes = [] :=
    congrArg Run.probes (bisect_of_empty (UInt64.not_le.mpr h))
  exact ⟨bisectChecked_eq rule probe low high none, fun _ => mem_interval_of_mem_probes, nodup_probes,
    length_probes_le, hsize, hempty, fun _ h => bisect_overIntegers h none⟩

/-- Only the greatest word is at the target, which takes 65 probes among all words. Over the integers
everything above it is at the target too, and is not probed. -/
theorem bisect_as_over_integers_up_to_greatest_word :
    let rule := Mode.rule 10 .rightmost
    let d : ProbeData := { records := [(18446744073709551615, 10)] }
    let probe' : Unbounded.Probe ProbeFailure := fun offset =>
      .ok (if 18446744073709551615 ≤ offset then some 10 else none)
    let run := bisect rule d.probe 0 18446744073709551615 none
    (∀ offset : UInt64, probe' offset.toNat = d.probe offset) ∧
      run.probes.length = 65 ∧ run.probes.Nodup ∧
      run.result.toOption = some (some ⟨10, 18446744073709551615⟩) ∧
      Unbounded.bisect rule probe' 0 18446744073709551615 none = run.overIntegers ∧
      (3 : UInt64) < 5 ∧ (bisect rule d.probe 5 3 none).probes = [] := by
  intro rule d probe' run
  have hprobe (offset : UInt64) : probe' offset.toNat = d.probe offset := by
    by_cases hend : offset = 18446744073709551615
    · subst hend
      rfl
    · have hbelow : ¬ (18446744073709551615 : Int) ≤ offset.toNat := by
        have hne : offset.toNat ≠ 18446744073709551615 := fun h => hend (UInt64.toNat_inj.mp h)
        have hlt := offset.toNat_lt
        omega
      have hhole : d.records.lookup offset = none := by
        rw [List.lookup_cons, beq_eq_false_iff_ne.mpr hend]
        rfl
      rw [ProbeData.probe_eq_lookup rfl List.not_mem_nil, hhole]
      exact congrArg Except.ok (if_neg hbelow)
  obtain ⟨-, -, hnodup, -, -, -, hsame⟩ := bisect_as_over_integers rule d.probe 0 18446744073709551615
  obtain ⟨-, -, -, -, -, hempty, -⟩ := bisect_as_over_integers rule d.probe 5 3
  exact ⟨hprobe, by decide +kernel, hnodup, by decide +kernel, hsame probe' hprobe, by decide,
    hempty (by decide)⟩

end MessageIndex
