import MessageIndex.Proofs.PointRead
import MessageIndex.Proofs.RangeRead

/-!
# Proofs: a range read is a loop of point reads

A range read asks a working store once, for all offsets together. `readEach` makes one point read after
the other instead, and compares each entry with the offset it was read at, which a point read does not.
Both give the same entries and fail with the same complaint, whatever the store holds
(`rangeGet_eq_readEach`).
-/

namespace MessageIndex

namespace Index

/-- Reads one offset after the other, at most `n` of them, up to the first that is not there. The entry
of another offset fails the whole read. -/
def readEach (ix : Index) (q : Queue) : (n : Nat) → (offset : UInt64) → Except IndexError (List Entry)
  | 0, _ => return []
  | n + 1, offset => do
    match ← ix.pointGet q offset with
    | none => return []
    | some e =>
      if e.queueOffset ≠ offset then
        throw (.corruptedIndex q offset e.queueOffset)
      let rest ← ix.readEach q n (offset + 1)
      return e :: rest

/-! ## One turn of the loop -/

section Turn

variable {ix : Index} {q : Queue} {n : Nat} {offset : UInt64}

theorem readEach_of_error {cause : IndexError} (h : ix.pointGet q offset = .error cause) :
    ix.readEach q (n + 1) offset = .error cause := by
  rw [readEach, h]
  rfl

theorem readEach_of_hole (h : ix.pointGet q offset = .ok none) :
    ix.readEach q (n + 1) offset = .ok [] := by
  rw [readEach, h]
  rfl

theorem readEach_of_misplaced {e : Entry} (h : ix.pointGet q offset = .ok (some e))
    (hoff : e.queueOffset ≠ offset) :
    ix.readEach q (n + 1) offset = .error (.corruptedIndex q offset e.queueOffset) := by
  rw [readEach, h]
  simp only [bind, Except.bind]
  rw [if_pos hoff]
  rfl

theorem readEach_of_entry {e : Entry} (h : ix.pointGet q offset = .ok (some e))
    (hoff : e.queueOffset = offset) :
    ix.readEach q (n + 1) offset = (ix.readEach q n (offset + 1)).map (e :: ·) := by
  rw [readEach, h]
  simp only [bind, Except.bind]
  rw [if_neg fun hne => hne hoff]
  cases ix.readEach q n (offset + 1) with
  | error cause => rfl
  | ok rest => rfl

end Turn

/-! ## The whole loop -/

theorem slotsFrom_succ (s : Store) (q : Queue) (base : UInt64) (n : Nat) :
    s.slotsFrom q base (n + 1) = s.get (q.key base).bytes :: s.slotsFrom q (base + 1) n := by
  unfold Store.slotsFrom
  rw [List.range_succ_eq_map, List.map_cons, List.map_map, add_ofNat_zero]
  refine congrArg _ (List.map_congr_left fun i _ => ?_)
  show s.get (q.key (base + UInt64.ofNat (i + 1))).bytes = _
  rw [add_ofNat_succ]

variable {settings : Settings} {s : Store} {q : Queue}

/-- Slot by slot, a scan of what a store holds does what the loop does. -/
theorem scan_slotsFrom (hq : q.partition.Encodable) (start base : UInt64) (n : Nat) :
    (scan q start base (s.slotsFrom q base n)).result = readEach ⟨settings, s.view⟩ q n base := by
  induction n generalizing base with
  | zero => rfl
  | succ n ih =>
    have hpoint : pointGet ⟨settings, s.view⟩ q base = _ := pointGet_store hq base
    rw [slotsFrom_succ]
    cases hslot : s.get (q.key base).bytes with
    | none =>
      rw [hslot] at hpoint
      rw [scan_hole, readEach_of_hole hpoint]
    | some value =>
      rw [hslot] at hpoint
      by_cases hlen : value.length = 36
      · obtain ⟨e, hdec⟩ := Entry.decode_of_length hlen
        have hentry : pointGet ⟨settings, s.view⟩ q base = .ok (some e) := by
          rw [hpoint]
          show some <$> Entry.decode value = _
          rw [hdec]
          rfl
        by_cases hoff : e.queueOffset = base
        · rw [scan_holds q start base _ hdec hoff, readEach_of_entry hentry hoff, ← ih]
        · rw [scan_misplaced q start base _ hdec hoff, readEach_of_misplaced hentry hoff]
      · have herror : pointGet ⟨settings, s.view⟩ q base = .error (.malformedEntry value.length) := by
          rw [hpoint]
          show some <$> Entry.decode value = _
          rw [Entry.decode_of_length_ne hlen]
          rfl
        rw [scan_malformed q start base _ hlen, readEach_of_error herror]

/-- A range read of a working store gives what the loop of point reads gives: the entries up to the
first offset that is not there, or the first complaint, be it of a point read or about an entry of
another offset. The loop makes as many turns as are asked for, allowed and left until `2 ^ 64`. -/
theorem rangeGet_eq_readEach (settings : Settings) (s : Store) (q : Queue) (start count : UInt64) :
    (rangeGet ⟨settings, s.view⟩ q start count).result =
      readEach ⟨settings, s.view⟩ q
        (min (min count.toNat settings.maxRangeCount.toNat) (UInt64.size - start.toNat)) start := by
  have hn : rangeLength ⟨settings, s.view⟩ start count = _ := rangeLength_eq _ start count
  rw [← hn]
  by_cases hq : q.partition.Encodable
  · rw [rangeGet_store hq]
    exact scan_slotsFrom hq start start _
  · -- A topic that fits no key is refused, by the loop on its first turn.
    cases hlen : rangeLength ⟨settings, s.view⟩ start count with
    | zero =>
      rw [rangeGet_of_nothing_asked q hlen]
      rfl
    | succ n =>
      have hpoint : pointGet ⟨settings, s.view⟩ q start =
          .error (.topicTooLong q.partition.topic.length) := by
        have hkey : (q.key start).encode = .error _ := Key.encode_of_not_encodable hq
        rw [pointGet_eq, hkey]
        rfl
      have hne : rangeLength ⟨settings, s.view⟩ start count ≠ 0 := hlen ▸ Nat.succ_ne_zero n
      rw [rangeGet_of_not_encodable hne hq, readEach_of_error hpoint]

end Index

end MessageIndex
