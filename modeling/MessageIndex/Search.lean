/-!
# Searching an offset by physical position

Entries of a partition lie in the commit log in the order of their offsets, so an offset can be found
by bisection on the physical position. What is at an offset is asked through a *probe*, which may
answer a value, a hole, or fail. A search is one bisection with a *rule*, which says for each value
whether it is an answer and on which side to go on; holes are always passed upwards. The result
comes with the offsets that were probed, in order, because each probe is a read of the store.

The interval is kept in 64-bit words. It ends at the limits of the word: where the next interval
would begin below zero or above the greatest offset, the search is over.
-/

namespace MessageIndex

/-- An offset with the physical position found there. -/
structure Found where
  /-- The physical position. -/
  physicalOffset : UInt64
  /-- The logical offset. -/
  queueOffset : UInt64
  deriving DecidableEq, Repr

/-- What a search asks at an offset: a failure, a hole, or the physical position there. -/
abbrev Probe (ε : Type) := UInt64 → Except ε (Option UInt64)

namespace Search

/-- What to do with a value. -/
structure Verdict where
  /-- The value is an answer, and replaces an earlier one. -/
  record : Bool
  /-- Go on below the offset, and otherwise above it. -/
  descend : Bool
  deriving DecidableEq, Repr

/-- Which values are answers, and where to look on. -/
abbrev Rule := UInt64 → Verdict

/-- The four questions that can be asked about a target position. -/
inductive Mode where
  /-- The least offset at exactly the target. -/
  | leftmost
  /-- The greatest offset at exactly the target. -/
  | rightmost
  /-- The least offset at or after the target. -/
  | ceiling
  /-- The greatest offset at or before the target. -/
  | floor
  deriving DecidableEq, Repr

/-- The rule that answers a question. -/
def Mode.rule (target : UInt64) : Mode → Rule
  | leftmost, v => ⟨v = target, target ≤ v⟩
  | rightmost, v => ⟨v = target, target < v⟩
  | ceiling, v => ⟨target ≤ v, target ≤ v⟩
  | floor, v => ⟨v ≤ target, target < v⟩

/-- The outcome of a search: the last answer recorded, if any, and the offsets probed in order. -/
structure Run (ε : Type) where
  /-- The answer, or the failure of the last probe. -/
  result : Except ε (Option Found)
  /-- The offsets probed, the first one first. -/
  probes : List UInt64

/-- The middle of an interval, the lower of two. -/
def midpoint (low high : UInt64) : UInt64 := low + (high - low) / 2

/-- The part of an interval below or above `mid`, unless the offsets end there. -/
def narrow (low high mid : UInt64) (descend : Bool) : Option (UInt64 × UInt64) :=
  if descend then
    if mid = 0 then none else some (low, mid - 1)
  else
    if mid + 1 = 0 then none else some (mid + 1, high)

/-- The verdict on what a probe answered: a hole is no answer and is passed upwards. -/
def judge (rule : Rule) : Option UInt64 → Verdict
  | none => ⟨false, false⟩
  | some v => rule v

/-- The answer remembered after a probe of `mid`. -/
def remember (rule : Rule) (mid : UInt64) (found : Option Found) : Option UInt64 → Option Found
  | none => found
  | some v => if (rule v).record then some ⟨v, mid⟩ else found

section Narrow

variable {low high mid low' high' : UInt64} {descend : Bool}

theorem midpoint_toNat (h : low ≤ high) :
    (midpoint low high).toNat = low.toNat + (high.toNat - low.toNat) / 2 := by
  have hle := UInt64.le_iff_toNat_le.mp h
  have hhigh := high.toNat_lt
  have hsub : (high - low).toNat = high.toNat - low.toNat := UInt64.toNat_sub_of_le _ _ h
  have htwo : (2 : UInt64).toNat = 2 := rfl
  rw [midpoint, UInt64.toNat_add, UInt64.toNat_div, hsub, htwo]
  omega

theorem toNat_add_one {offset : UInt64} (h : offset + 1 ≠ 0) :
    (offset + 1).toNat = offset.toNat + 1 := by
  have hlt := offset.toNat_lt
  have hne : (offset + 1).toNat ≠ 0 := fun hzero => h (UInt64.toNat_inj.mp hzero)
  rw [UInt64.toNat_add, UInt64.toNat_one] at hne ⊢
  omega

theorem toNat_sub_one {offset : UInt64} (h : offset ≠ 0) :
    (offset - 1).toNat + 1 = offset.toNat := by
  have hne : offset.toNat ≠ 0 := fun hzero => h (UInt64.toNat_inj.mp hzero)
  have hle : 1 ≤ offset := by
    rw [UInt64.le_iff_toNat_le, UInt64.toNat_one]
    omega
  rw [UInt64.toNat_sub_of_le _ _ hle, UInt64.toNat_one]
  omega

/-- Downwards a search keeps the part below `mid`, upwards the part above it, unless the offsets end
there. -/
theorem narrow_cases (h : narrow low high mid descend = some (low', high')) :
    (descend = true ∧ mid ≠ 0 ∧ low' = low ∧ high' = mid - 1) ∨
    (descend = false ∧ mid + 1 ≠ 0 ∧ low' = mid + 1 ∧ high' = high) := by
  unfold narrow at h
  cases descend with
  | true =>
    rw [if_pos rfl] at h
    by_cases hend : mid = 0
    · rw [if_pos hend] at h
      cases h
    · rw [if_neg hend] at h
      cases h
      exact .inl ⟨rfl, hend, rfl, rfl⟩
  | false =>
    rw [if_neg Bool.false_ne_true] at h
    by_cases hend : mid + 1 = 0
    · rw [if_pos hend] at h
      cases h
    · rw [if_neg hend] at h
      cases h
      exact .inr ⟨rfl, hend, rfl, rfl⟩

theorem narrow_toNat (h : narrow low high mid descend = some (low', high')) :
    (descend = true ∧ low'.toNat = low.toNat ∧ high'.toNat + 1 = mid.toNat) ∨
    (descend = false ∧ low'.toNat = mid.toNat + 1 ∧ high'.toNat = high.toNat) := by
  obtain ⟨rfl, hne, rfl, rfl⟩ | ⟨rfl, hne, rfl, rfl⟩ := narrow_cases h
  · exact .inl ⟨rfl, rfl, toNat_sub_one hne⟩
  · exact .inr ⟨rfl, toNat_add_one hne, rfl⟩

/-- At most half of the offsets are left after a step. -/
theorem narrow_halves (h : low ≤ high)
    (hnext : narrow low high (midpoint low high) descend = some (low', high')) :
    high'.toNat + 1 - low'.toNat ≤ (high.toNat + 1 - low.toNat) / 2 := by
  have hle := UInt64.le_iff_toNat_le.mp h
  have hmid := midpoint_toNat h
  obtain ⟨-, hlow, hhigh⟩ | ⟨-, hlow, hhigh⟩ := narrow_toNat hnext
  · omega
  · omega

theorem narrow_shrinks (h : low ≤ high)
    (hnext : narrow low high (midpoint low high) descend = some (low', high')) :
    high'.toNat + 1 - low'.toNat < high.toNat + 1 - low.toNat := by
  have hle := UInt64.le_iff_toNat_le.mp h
  have hhalf := narrow_halves h hnext
  omega

end Narrow

/-- Bisection of the interval from `low` to `high`, both included, with `found` as the answer so
far. -/
def bisect {ε : Type} (rule : Rule) (probe : Probe ε) (low high : UInt64) (found : Option Found) :
    Run ε :=
  if _ : low ≤ high then
    let mid := midpoint low high
    match probe mid with
    | .error e => ⟨.error e, [mid]⟩
    | .ok answer =>
      let found := remember rule mid found answer
      match _ : narrow low high mid (judge rule answer).descend with
      | none => ⟨.ok found, [mid]⟩
      | some (low', high') =>
        let rest := bisect rule probe low' high' found
        { rest with probes := mid :: rest.probes }
  else ⟨.ok found, []⟩
termination_by high.toNat + 1 - low.toNat
decreasing_by exact narrow_shrinks ‹low ≤ high› ‹_›

end Search

/-- Searches the offsets from `low` to `high`, both included. -/
def search {ε : Type} (mode : Search.Mode) (target : UInt64) (probe : Probe ε) (low high : UInt64) :
    Search.Run ε :=
  Search.bisect (mode.rule target) probe low high none

end MessageIndex
