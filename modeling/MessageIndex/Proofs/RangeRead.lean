import MessageIndex.Index
import MessageIndex.Proofs.EntryCodec
import MessageIndex.Proofs.KeyCodec

/-!
# Proofs: the outcome of a range read

A range read asks its store once, for a stretch of offsets that stays below `2 ^ 64`. Whatever the
store answers, the outcome is determined: `Scanned` lists the four ways in which the slots of an
answer can be used up, each by what the first slot is that does not hold the entry of its own offset.
Nothing is assumed about the store.
-/

namespace MessageIndex

open Bytes

namespace Index

/-! ## The offsets asked for -/

theorem toNat_min (a b : UInt64) : (min a b).toNat = min a.toNat b.toNat := by
  change (if a ≤ b then a else b).toNat = _
  split
  · next h => rw [Nat.min_eq_left (UInt64.le_iff_toNat_le.mp h)]
  · next h =>
    have hlt : b.toNat < a.toNat := UInt64.lt_iff_toNat_lt.mp (UInt64.not_le.mp h)
    rw [Nat.min_eq_right (Nat.le_of_lt hlt)]

theorem rangeLength_eq (ix : Index) (start count : UInt64) :
    ix.rangeLength start count =
      min (min count.toNat ix.settings.maxRangeCount.toNat) (UInt64.size - start.toNat) := by
  unfold rangeLength
  rw [toNat_min]

theorem toNat_add_ofNat {start : UInt64} {i : Nat} (h : start.toNat + i < UInt64.size) :
    (start + UInt64.ofNat i).toNat = start.toNat + i := by
  have hi : (UInt64.ofNat i).toNat = i := by
    rw [UInt64.toNat_ofNat']
    exact Nat.mod_eq_of_lt (Nat.lt_of_le_of_lt (Nat.le_add_left i _) h)
  rw [UInt64.toNat_add, hi]
  exact Nat.mod_eq_of_lt h

/-- None of the offsets asked for overflows. -/
theorem toNat_asked (ix : Index) {start count : UInt64} {i : Nat} (h : i < ix.rangeLength start count) :
    (start + UInt64.ofNat i).toNat = start.toNat + i := by
  refine toNat_add_ofNat ?_
  rw [rangeLength_eq] at h
  omega

/-- The offsets asked for end where the offsets end, or before. -/
theorem toNat_add_rangeLength_le (ix : Index) (start count : UInt64) :
    start.toNat + ix.rangeLength start count ≤ UInt64.size := by
  have hstart : start.toNat < UInt64.size := start.toNat_lt_size
  rw [rangeLength_eq]
  omega

/-! ## Slots that hold what they were asked for -/

/-- The slot `i` places after the one asked for `base` holds the entry of its own offset. -/
def Holds (base : UInt64) (slots : List (Option Bytes)) (i : Nat) (e : Entry) : Prop :=
  ∃ value, slots[i]? = some (some value) ∧ Entry.decode value = .ok e ∧
    e.queueOffset.toNat = base.toNat + i

/-- The first slots hold these entries, one after the other. -/
def FrontHolds (base : UInt64) (slots : List (Option Bytes)) (entries : List Entry) : Prop :=
  ∀ i (h : i < entries.length), Holds base slots i entries[i]

/-- What a scan makes of slots that were asked for `base` and the offsets after it: the entries in
front of the first slot that does not hold its own entry, or the complaint about that slot. -/
inductive Scanned (q : Queue) (start base : UInt64) (slots : List (Option Bytes)) :
    Reply (List Entry) → Prop where
  /-- There is no such slot. -/
  | complete {entries : List Entry} (front : FrontHolds base slots entries)
      (all : entries.length = slots.length) : Scanned q start base slots ⟨.ok entries, []⟩
  /-- The slot is empty. -/
  | hole {entries : List Entry} (front : FrontHolds base slots entries)
      (slot : slots[entries.length]? = some none) :
      Scanned q start base slots
        ⟨.ok entries, [.rangeEnded q start (base + UInt64.ofNat entries.length)]⟩
  /-- The slot holds bytes that are no entry. -/
  | malformed {entries : List Entry} {value : Bytes} (front : FrontHolds base slots entries)
      (slot : slots[entries.length]? = some (some value)) (length : value.length ≠ 36) :
      Scanned q start base slots ⟨.error (.malformedEntry value.length), []⟩
  /-- The slot holds the entry of another offset. -/
  | misplaced {entries : List Entry} {value : Bytes} {e : Entry}
      (front : FrontHolds base slots entries)
      (slot : slots[entries.length]? = some (some value)) (decoded : Entry.decode value = .ok e)
      (elsewhere : e.queueOffset ≠ base + UInt64.ofNat entries.length) :
      Scanned q start base slots
        ⟨.error (.corruptedIndex q (base + UInt64.ofNat entries.length) e.queueOffset),
          [.entryMisplaced q (base + UInt64.ofNat entries.length) e.queueOffset]⟩

theorem FrontHolds.nil (base : UInt64) (slots : List (Option Bytes)) : FrontHolds base slots [] :=
  fun _ h => absurd h (Nat.not_lt_zero _)

theorem add_ofNat_zero (base : UInt64) : base + UInt64.ofNat 0 = base :=
  UInt64.add_zero base

theorem add_ofNat_succ (base : UInt64) (n : Nat) :
    base + UInt64.ofNat (n + 1) = base + 1 + UInt64.ofNat n := by
  rw [UInt64.ofNat_add, UInt64.add_assoc, UInt64.add_comm (UInt64.ofNat n)]
  rfl

/-- Behind the first slot there is still room for the others, even where the next offset wraps: there
are no others then. -/
theorem size_succ {base : UInt64} {n : Nat} (h : base.toNat + (n + 1) ≤ UInt64.size) :
    (base + 1).toNat + n ≤ UInt64.size := by
  have hle : (base + 1).toNat ≤ base.toNat + 1 := by
    rw [UInt64.toNat_add]
    exact Nat.mod_le _ _
  omega

theorem toNat_succ {base : UInt64} {n : Nat} (h : base.toNat + (n + 1) ≤ UInt64.size) (hn : 0 < n) :
    (base + 1).toNat = base.toNat + 1 :=
  toNat_add_ofNat (i := 1) (by omega)

/-- Behind the first slot the offsets are one greater. -/
theorem holds_cons_succ_iff {base : UInt64} {slot : Option Bytes} {slots : List (Option Bytes)}
    (hsize : base.toNat + (slots.length + 1) ≤ UInt64.size) {i : Nat} {e : Entry} :
    Holds base (slot :: slots) (i + 1) e ↔ Holds (base + 1) slots i e := by
  unfold Holds
  rw [List.getElem?_cons_succ]
  refine exists_congr fun value => and_congr_right fun hslot => and_congr_right fun _ => ?_
  obtain ⟨hi, -⟩ := List.getElem?_eq_some_iff.mp hslot
  rw [toNat_succ hsize (Nat.lt_of_le_of_lt (Nat.zero_le i) hi), Nat.add_assoc, Nat.add_comm 1 i]

theorem frontHolds_cons_iff {base : UInt64} {slot : Option Bytes} {slots : List (Option Bytes)}
    (hsize : base.toNat + (slots.length + 1) ≤ UInt64.size) {e : Entry} {entries : List Entry} :
    FrontHolds base (slot :: slots) (e :: entries) ↔
      Holds base (slot :: slots) 0 e ∧ FrontHolds (base + 1) slots entries := by
  constructor
  · intro h
    refine ⟨h 0 (Nat.succ_pos _), fun i hi => ?_⟩
    exact (holds_cons_succ_iff hsize).mp (h (i + 1) (Nat.succ_lt_succ hi))
  · rintro ⟨h0, h⟩ i hi
    cases i with
    | zero => exact h0
    | succ i => exact (holds_cons_succ_iff hsize).mpr (h i (Nat.lt_of_succ_lt_succ hi))

/-- The first slot holds its own entry if its bytes are an entry of the offset asked for. -/
theorem holds_zero_iff {base : UInt64} {slot : Option Bytes} {slots : List (Option Bytes)}
    {e : Entry} : Holds base (slot :: slots) 0 e ↔
      ∃ value, slot = some value ∧ Entry.decode value = .ok e ∧ e.queueOffset = base := by
  unfold Holds
  refine exists_congr fun value => ?_
  rw [List.getElem?_cons_zero, Option.some.injEq, Nat.add_zero, UInt64.toNat_inj]

/-! ## Scanning -/

theorem scan_hole (q : Queue) (start base : UInt64) (slots : List (Option Bytes)) :
    scan q start base (none :: slots) = ⟨.ok [], [.rangeEnded q start base]⟩ := by
  rw [scan]

theorem scan_malformed (q : Queue) (start base : UInt64) (slots : List (Option Bytes))
    {value : Bytes} (h : value.length ≠ 36) :
    scan q start base (some value :: slots) = ⟨.error (.malformedEntry value.length), []⟩ := by
  rw [scan, Entry.decode_of_length_ne h]

theorem scan_misplaced (q : Queue) (start base : UInt64) (slots : List (Option Bytes))
    {value : Bytes} {e : Entry} (hdec : Entry.decode value = .ok e) (h : e.queueOffset ≠ base) :
    scan q start base (some value :: slots) =
      ⟨.error (.corruptedIndex q base e.queueOffset), [.entryMisplaced q base e.queueOffset]⟩ := by
  rw [scan, hdec]
  exact if_neg h

/-- A slot that holds its own entry puts it in front of what the scan of the rest gives. -/
theorem scan_holds (q : Queue) (start base : UInt64) (slots : List (Option Bytes)) {value : Bytes}
    {e : Entry} (hdec : Entry.decode value = .ok e) (h : e.queueOffset = base) :
    scan q start base (some value :: slots) =
      { scan q start (base + 1) slots with
        result := (scan q start (base + 1) slots).result.map (e :: ·) } := by
  rw [scan, hdec]
  exact if_pos h

/-- A reply with entries put in front of those it gives. -/
def behind (entries : List Entry) (r : Reply (List Entry)) : Reply (List Entry) :=
  { r with result := r.result.map (entries ++ ·) }

theorem behind_nil (r : Reply (List Entry)) : behind [] r = r := by
  obtain ⟨result, events⟩ := r
  cases result <;> rfl

theorem behind_cons (e : Entry) (entries : List Entry) (r : Reply (List Entry)) :
    behind (e :: entries) r =
      { behind entries r with result := (behind entries r).result.map (e :: ·) } := by
  obtain ⟨result, events⟩ := r
  cases result <;> rfl

/-- Where the first slots hold their own entries, a scan gives these and goes on behind them. -/
theorem scan_of_frontHolds (q : Queue) (start : UInt64) {base : UInt64}
    {slots : List (Option Bytes)} {entries : List Entry}
    (hsize : base.toNat + slots.length ≤ UInt64.size) (h : FrontHolds base slots entries) :
    scan q start base slots =
      behind entries
        (scan q start (base + UInt64.ofNat entries.length) (slots.drop entries.length)) := by
  induction entries generalizing base slots with
  | nil =>
    show _ = behind [] (scan q start (base + 0) slots)
    rw [UInt64.add_zero, behind_nil]
  | cons e entries ih =>
    cases slots with
    | nil =>
      obtain ⟨value, hslot, -⟩ := h 0 (Nat.succ_pos _)
      exact absurd hslot (by simp)
    | cons slot slots =>
      obtain ⟨h0, hrest⟩ := (frontHolds_cons_iff hsize).mp h
      obtain ⟨value, rfl, hdec, hoff⟩ := holds_zero_iff.mp h0
      rw [scan_holds q start base slots hdec hoff, ih (size_succ hsize) hrest, List.length_cons,
        add_ofNat_succ, List.drop_succ_cons, behind_cons]

/-- The entry of the first slot goes in front of what becomes of the rest. -/
theorem Scanned.cons {q : Queue} {start base : UInt64} {slot : Option Bytes}
    {slots : List (Option Bytes)} {e : Entry} {r : Reply (List Entry)}
    (hsize : base.toNat + (slots.length + 1) ≤ UInt64.size) (h : Holds base (slot :: slots) 0 e)
    (hr : Scanned q start (base + 1) slots r) :
    Scanned q start base (slot :: slots) { r with result := r.result.map (e :: ·) } := by
  have hfront {entries : List Entry} (front : FrontHolds (base + 1) slots entries) :
      FrontHolds base (slot :: slots) (e :: entries) := (frontHolds_cons_iff hsize).mpr ⟨h, front⟩
  cases hr with
  | complete front all => exact .complete (hfront front) (congrArg (· + 1) all)
  | hole front empty =>
    rw [← add_ofNat_succ]
    exact .hole (hfront front) empty
  | malformed front found length => exact .malformed (hfront front) found length
  | misplaced front found decoded elsewhere =>
    rw [← add_ofNat_succ] at elsewhere ⊢
    exact .misplaced (hfront front) found decoded elsewhere

/-- Every scan ends in one of the four ways. -/
theorem scanned_scan (q : Queue) (start : UInt64) {base : UInt64} {slots : List (Option Bytes)}
    (hsize : base.toNat + slots.length ≤ UInt64.size) :
    Scanned q start base slots (scan q start base slots) := by
  have hzero (base : UInt64) : base + UInt64.ofNat ([] : List Entry).length = base :=
    UInt64.add_zero base
  induction slots generalizing base with
  | nil => exact .complete (.nil base []) rfl
  | cons slot slots ih =>
    cases slot with
    | none =>
      have hend : Scanned q start base (none :: slots) _ := .hole (.nil base _) rfl
      rw [hzero] at hend
      rw [scan_hole]
      exact hend
    | some value =>
      by_cases hlen : value.length = 36
      · obtain ⟨e, hdec⟩ := Entry.decode_of_length hlen
        by_cases hoff : e.queueOffset = base
        · rw [scan_holds q start base slots hdec hoff]
          exact .cons hsize (holds_zero_iff.mpr ⟨value, rfl, hdec, hoff⟩) (ih (size_succ hsize))
        · rw [scan_misplaced q start base slots hdec hoff]
          have hend : Scanned q start base (some value :: slots) _ :=
            .misplaced (.nil base _) rfl hdec (by rwa [hzero])
          rw [hzero] at hend
          exact hend
      · rw [scan_malformed q start base slots hlen]
        exact .malformed (.nil base _) rfl hlen

/-- The way in which the slots are used up determines what the scan gives. -/
theorem Scanned.eq_scan {q : Queue} {start base : UInt64} {slots : List (Option Bytes)}
    {r : Reply (List Entry)} (hsize : base.toNat + slots.length ≤ UInt64.size)
    (h : Scanned q start base slots r) : scan q start base slots = r := by
  have hdrop {i : Nat} {slot : Option Bytes} (hi : slots[i]? = some slot) :
      slots.drop i = slot :: slots.drop (i + 1) := by
    obtain ⟨hlt, rfl⟩ := List.getElem?_eq_some_iff.mp hi
    exact List.drop_eq_getElem_cons hlt
  cases h with
  | complete front all =>
    rw [scan_of_frontHolds q start hsize front, List.drop_of_length_le (Nat.le_of_eq all.symm), scan]
    simp [behind, Except.map]
  | hole front empty =>
    rw [scan_of_frontHolds q start hsize front, hdrop empty, scan_hole]
    simp [behind, Except.map]
  | malformed front found length =>
    rw [scan_of_frontHolds q start hsize front, hdrop found, scan_malformed q start _ _ length]
    rfl
  | misplaced front found decoded elsewhere =>
    rw [scan_of_frontHolds q start hsize front, hdrop found,
      scan_misplaced q start _ _ decoded elsewhere]
    rfl

theorem Holds.congr {base : UInt64} {slots slots' : List (Option Bytes)} {i : Nat} {e : Entry}
    (hslot : slots'[i]? = slots[i]?) (h : Holds base slots i e) : Holds base slots' i e := by
  obtain ⟨value, hi, hv⟩ := h
  exact ⟨value, hslot.trans hi, hv⟩

/-- Slots behind one that does not hold its own entry make no difference. -/
theorem Scanned.congr {q : Queue} {start base : UInt64} {slots slots' : List (Option Bytes)}
    {r : Reply (List Entry)} {i : Nat} (hlen : slots'.length = slots.length)
    (heq : ∀ k ≤ i, slots'[k]? = slots[k]?) (hi : ∀ e, ¬ Holds base slots i e)
    (h : Scanned q start base slots r) : Scanned q start base slots' r := by
  have hstop {entries : List Entry} (front : FrontHolds base slots entries) : entries.length ≤ i :=
    Nat.le_of_not_lt fun hlt => hi _ (front i hlt)
  have hfront {entries : List Entry} (front : FrontHolds base slots entries) :
      FrontHolds base slots' entries := by
    intro k hk
    exact (front k hk).congr (heq k (Nat.le_trans (Nat.le_of_lt hk) (hstop front)))
  cases h with
  | complete front all => exact .complete (hfront front) (all.trans hlen.symm)
  | hole front empty => exact .hole (hfront front) ((heq _ (hstop front)).trans empty)
  | malformed front found length =>
    exact .malformed (hfront front) ((heq _ (hstop front)).trans found) length
  | misplaced front found decoded elsewhere =>
    exact .misplaced (hfront front) ((heq _ (hstop front)).trans found) decoded elsewhere

/-! ## The whole read -/

/-- The keys a range read asks its store for, as bytes. -/
def askedKeys (ix : Index) (q : Queue) (start count : UInt64) : List Bytes :=
  (List.range (ix.rangeLength start count)).map fun i => (q.key (start + UInt64.ofNat i)).bytes

theorem length_askedKeys (ix : Index) (q : Queue) (start count : UInt64) :
    (ix.askedKeys q start count).length = ix.rangeLength start count := by
  rw [askedKeys, List.length_map, List.length_range]

theorem mapM_eq_map {ε α β : Type} {f : α → Except ε β} {g : α → β} {items : List α}
    (h : ∀ a, f a = .ok (g a)) : items.mapM f = .ok (items.map g) := by
  induction items with
  | nil => rfl
  | cons a items ih =>
    rw [List.mapM_cons, h a, ih]
    rfl

theorem mapM_eq_error {ε α β : Type} {f : α → Except ε β} {cause : ε} {items : List α}
    (h : ∀ a, f a = .error cause) (hne : items ≠ []) : items.mapM f = .error cause := by
  cases items with
  | nil => exact absurd rfl hne
  | cons a items =>
    rw [List.mapM_cons, h a]
    rfl

theorem rangeGet_of_nothing_asked {ix : Index} (q : Queue) {start count : UInt64}
    (h : ix.rangeLength start count = 0) : ix.rangeGet q start count = ⟨.ok [], []⟩ := by
  unfold rangeGet
  rw [h]
  rfl

theorem rangeGet_of_not_encodable {ix : Index} {q : Queue} {start count : UInt64}
    (h : ix.rangeLength start count ≠ 0) (hq : ¬ q.partition.Encodable) :
    ix.rangeGet q start count = ⟨.error (.topicTooLong q.partition.topic.length), []⟩ := by
  have hkeys : (List.range (ix.rangeLength start count)).mapM
      (fun i => (q.key (start + UInt64.ofNat i)).encode) =
        .error (.topicTooLong q.partition.topic.length) :=
    mapM_eq_error (fun _ => Key.encode_of_not_encodable hq) fun hc => h (List.range_eq_nil.mp hc)
  unfold rangeGet
  rw [hkeys]
  rfl

/-- What is done with the answer of the store. -/
theorem rangeGet_of_encodable {ix : Index} {q : Queue} {start count : UInt64}
    (h : ix.rangeLength start count ≠ 0) (hq : q.partition.Encodable) :
    ix.rangeGet q start count =
      match ix.view.multiGet (ix.askedKeys q start count) with
      | .error cause => ⟨.error cause, []⟩
      | .ok slots =>
        if slots.length ≠ ix.rangeLength start count then
          ⟨.error (.contractViolation (.slotCount slots.length (ix.rangeLength start count))), []⟩
        else scan q start start slots := by
  have hkeys : (List.range (ix.rangeLength start count)).mapM
      (fun i => (q.key (start + UInt64.ofNat i)).encode) = .ok (ix.askedKeys q start count) :=
    mapM_eq_map fun _ => Key.encode_of_encodable hq
  have hne : (ix.askedKeys q start count).isEmpty = false := by
    rw [List.isEmpty_eq_false_iff, ← List.length_pos_iff, length_askedKeys]
    exact Nat.pos_of_ne_zero h
  unfold rangeGet
  rw [hkeys]
  simp only [bind, Except.bind, hne, Bool.false_eq_true, if_false]
  cases ix.view.multiGet (ix.askedKeys q start count) with
  | error cause => rfl
  | ok slots =>
    simp only [length_askedKeys]
    by_cases hlen : slots.length ≠ ix.rangeLength start count
    · rw [if_pos hlen, if_pos hlen]
      rfl
    · rw [if_neg hlen, if_neg hlen]
      rfl

/-- An answer with a slot for each key is scanned. -/
theorem rangeGet_of_slots {ix : Index} {q : Queue} {start count : UInt64}
    {slots : List (Option Bytes)} (h : ix.rangeLength start count ≠ 0) (hq : q.partition.Encodable)
    (hget : ix.view.multiGet (ix.askedKeys q start count) = .ok slots)
    (hlen : slots.length = ix.rangeLength start count) :
    ix.rangeGet q start count = scan q start start slots := by
  rw [rangeGet_of_encodable h hq, hget]
  exact if_neg fun hc => hc hlen

/-- With a slot for each key, the outcome is the way in which the slots are used up. -/
theorem rangeGet_eq_iff {ix : Index} {q : Queue} {start count : UInt64} {slots : List (Option Bytes)}
    (h : ix.rangeLength start count ≠ 0) (hq : q.partition.Encodable)
    (hget : ix.view.multiGet (ix.askedKeys q start count) = .ok slots)
    (hlen : slots.length = ix.rangeLength start count) {reply : Reply (List Entry)} :
    ix.rangeGet q start count = reply ↔ Scanned q start start slots reply := by
  have hroom : start.toNat + slots.length ≤ UInt64.size := by
    rw [hlen]
    exact toNat_add_rangeLength_le ix start count
  rw [rangeGet_of_slots h hq hget hlen]
  constructor
  · rintro rfl
    exact scanned_scan q start hroom
  · exact Scanned.eq_scan hroom

/-- The outcome of a range read, for a store that may answer anything. With `n` the number of offsets
asked for, none of which overflows:
nothing is asked if `n` is zero, and otherwise a topic that fits no key is refused;
a failure of the store is passed on;
an answer with another number of slots is a breach of contract, whatever it holds;
every other answer is used up in exactly the way that its first slot without its own entry
dictates, and nothing behind such a slot matters. -/
theorem rangeGet_outcome (ix : Index) (q : Queue) (start count : UInt64) :
    let n := min (min count.toNat ix.settings.maxRangeCount.toNat) (UInt64.size - start.toNat)
    let keys := (List.range n).map fun i => Key.bytes ⟨q.partition, start + UInt64.ofNat i⟩
    (∀ i < n, (start + UInt64.ofNat i).toNat = start.toNat + i) ∧
    (n = 0 → ∀ view, rangeGet ⟨ix.settings, view⟩ q start count = ⟨.ok [], []⟩) ∧
    (n ≠ 0 → ¬ q.partition.Encodable →
      ix.rangeGet q start count = ⟨.error (.topicTooLong q.partition.topic.length), []⟩) ∧
    (n ≠ 0 → q.partition.Encodable →
      (∀ cause, ix.view.multiGet keys = .error cause →
        ix.rangeGet q start count = ⟨.error cause, []⟩) ∧
      (∀ slots, ix.view.multiGet keys = .ok slots → slots.length ≠ n →
        ix.rangeGet q start count =
          ⟨.error (.contractViolation (.slotCount slots.length n)), []⟩) ∧
      (∀ slots, ix.view.multiGet keys = .ok slots → slots.length = n →
        (∀ reply, ix.rangeGet q start count = reply ↔ Scanned q start start slots reply) ∧
        ∀ view slots' i, view.multiGet keys = .ok slots' → slots'.length = n →
          (∀ k ≤ i, slots'[k]? = slots[k]?) → (∀ e, ¬ Holds start slots i e) →
          rangeGet ⟨ix.settings, view⟩ q start count = ix.rangeGet q start count)) := by
  intro n keys
  have hn (view : StoreView) : rangeLength ⟨ix.settings, view⟩ start count = n :=
    rangeLength_eq ⟨ix.settings, view⟩ start count
  have hkeys (view : StoreView) : askedKeys ⟨ix.settings, view⟩ q start count = keys := by
    rw [askedKeys, hn]
    rfl
  have hne (view : StoreView) (h0 : n ≠ 0) : rangeLength ⟨ix.settings, view⟩ start count ≠ 0 := by
    rw [hn]
    exact h0
  refine ⟨fun i hi => toNat_asked ix ((hn ix.view).symm ▸ hi), fun h0 view => ?_, fun h0 hq => ?_,
    fun h0 hq => ?_⟩
  · exact rangeGet_of_nothing_asked q ((hn view).trans h0)
  · exact rangeGet_of_not_encodable (hne ix.view h0) hq
  have hread : ix.rangeGet q start count = _ := rangeGet_of_encodable (hne ix.view h0) hq
  have hscan {view : StoreView} {slots : List (Option Bytes)} {reply : Reply (List Entry)}
      (hget : view.multiGet keys = .ok slots) (hlen : slots.length = n) :
      rangeGet ⟨ix.settings, view⟩ q start count = reply ↔ Scanned q start start slots reply :=
    rangeGet_eq_iff (hne view h0) hq ((congrArg view.multiGet (hkeys view)).trans hget)
      (hlen.trans (hn view).symm)
  refine ⟨fun cause hget => ?_, fun slots hget hlen => ?_, fun slots hget hlen =>
    ⟨fun reply => hscan hget hlen, fun view slots' i hget' hlen' heq hi => ?_⟩⟩
  · rw [hread, hkeys, hget]
  · rw [hread, hkeys, hget, hn]
    exact if_pos hlen
  · have hanswer : Scanned q start start slots (ix.rangeGet q start count) := (hscan hget hlen).mp rfl
    exact (hscan hget' hlen').mpr (hanswer.congr (hlen'.trans hlen.symm) heq hi)

/-- Of the last two offsets there are, the second one holds the entry of the first. -/
theorem rangeGet_outcome_at_the_end :
    let q : Queue := ⟨"t", -1⟩
    let e : Entry := ⟨0, 100, 0, 0, 18446744073709551614⟩
    let view : StoreView := ⟨fun _ => .ok none, fun keys => .ok (keys.map fun _ => some e.encode)⟩
    rangeGet ⟨{}, view⟩ q 18446744073709551614 5 =
      ⟨.error (.corruptedIndex q 18446744073709551615 18446744073709551614),
        [.entryMisplaced q 18446744073709551615 18446744073709551614]⟩ := by
  intro q e view
  have hq : q.partition.Encodable := by decide
  have hn : min (min (5 : UInt64).toNat ({} : Settings).maxRangeCount.toNat)
      (UInt64.size - (18446744073709551614 : UInt64).toNat) = 2 := by decide
  have hnext : (18446744073709551614 : UInt64) + UInt64.ofNat 1 = 18446744073709551615 := by decide
  obtain ⟨-, -, -, hasked⟩ := rangeGet_outcome ⟨{}, view⟩ q 18446744073709551614 5
  rw [hn] at hasked
  obtain ⟨-, -, hslots⟩ := hasked (by decide) hq
  obtain ⟨hreply, -⟩ := hslots [some e.encode, some e.encode] rfl rfl
  have hfront : FrontHolds 18446744073709551614 [some e.encode, some e.encode] [e] := by
    intro i hi
    obtain rfl : i = 0 := Nat.lt_one_iff.mp hi
    exact ⟨e.encode, rfl, e.decode_encode, rfl⟩
  have helse : (18446744073709551614 : UInt64) ≠ 18446744073709551614 + UInt64.ofNat 1 := by decide
  rw [← hnext]
  exact (hreply _).mpr (.misplaced hfront rfl e.decode_encode helse)

end Index

/-! ## A store that works -/

/-- What a store holds for `n` offsets of a queue from `base` on. -/
def Store.slotsFrom (s : Store) (q : Queue) (base : UInt64) (n : Nat) : List (Option Bytes) :=
  (List.range n).map fun i => s.get (q.key (base + UInt64.ofNat i)).bytes

namespace Index

@[simp] theorem length_slotsFrom (s : Store) (q : Queue) (base : UInt64) (n : Nat) :
    (s.slotsFrom q base n).length = n := by
  rw [Store.slotsFrom, List.length_map, List.length_range]

/-- A working store has a slot for each key, so what it holds is scanned. -/
theorem rangeGet_store {settings : Settings} {s : Store} {q : Queue} {start count : UInt64}
    (hq : q.partition.Encodable) :
    rangeGet ⟨settings, s.view⟩ q start count =
      scan q start start (s.slotsFrom q start (rangeLength ⟨settings, s.view⟩ start count)) := by
  by_cases hn : rangeLength ⟨settings, s.view⟩ start count = 0
  · rw [rangeGet_of_nothing_asked q hn, hn]
    rfl
  · have hget : s.view.multiGet (askedKeys ⟨settings, s.view⟩ q start count) =
        .ok (s.slotsFrom q start (rangeLength ⟨settings, s.view⟩ start count)) := by
      show Except.ok ((askedKeys _ q start count).map s.get) = _
      unfold askedKeys Store.slotsFrom
      rw [List.map_map]
      rfl
    exact rangeGet_of_slots hn hq hget (length_slotsFrom _ _ _ _)

end Index

end MessageIndex
