import Mathlib.Data.Set.List
import MessageIndex.Proofs.RangeByPoints

/-!
# Proofs: what a reader sees only grows

In a store written through an index, a range read gives the entries that stand without a gap from its
start on (`contiguous`). A batch that appends to free offsets only leaves every entry where it was, so it
can make that run longer and never changes what a reader saw of it before (`visible_prefix_grows`). Entries
appended right behind the run are seen at once, in the order of their offsets and not of their staging.
-/

namespace MessageIndex

open Bytes

/-- The entries from `offset` on, at most `n`, up to the first offset where there is none. -/
def contiguous (found : UInt64 → Option Entry) : (n : Nat) → (offset : UInt64) → List Entry
  | 0, _ => []
  | n + 1, offset =>
    match found offset with
    | none => []
    | some e => e :: contiguous found n (offset + 1)

section Contiguous

variable {found found' : UInt64 → Option Entry} {n : Nat} {offset : UInt64}

theorem contiguous_of_none (h : found offset = none) : contiguous found (n + 1) offset = [] := by
  rw [contiguous, h]

theorem contiguous_of_some {e : Entry} (h : found offset = some e) :
    contiguous found (n + 1) offset = e :: contiguous found n (offset + 1) := by
  rw [contiguous, h]

/-- Where nothing is lost, a run is at least as long as before and begins with the same entries. -/
theorem contiguous_isPrefix (h : ∀ o e, found o = some e → found' o = some e) (n : Nat)
    (offset : UInt64) : contiguous found n offset <+: contiguous found' n offset := by
  induction n generalizing offset with
  | zero => exact List.prefix_rfl
  | succ n ih =>
    cases hfound : found offset with
    | none =>
      rw [contiguous_of_none hfound]
      exact List.nil_prefix
    | some e =>
      rw [contiguous_of_some hfound, contiguous_of_some (h offset e hfound)]
      exact List.cons_prefix_cons.mpr ⟨rfl, ih (offset + 1)⟩

/-- A run of known entries that ends behind them is these entries, as many as are asked for. -/
theorem contiguous_eq_take {entries : List Entry}
    (h : ∀ i (hi : i < entries.length), found (offset + UInt64.ofNat i) = some entries[i])
    (hend : entries.length < n → found (offset + UInt64.ofNat entries.length) = none) :
    contiguous found n offset = entries.take n := by
  induction entries generalizing n offset with
  | nil =>
    cases n with
    | zero => rfl
    | succ n =>
      have hnone := hend (Nat.succ_pos n)
      rw [List.length_nil, Index.add_ofNat_zero] at hnone
      rw [contiguous_of_none hnone, List.take_nil]
  | cons e entries ih =>
    cases n with
    | zero => rfl
    | succ n =>
      have hfirst := h 0 (Nat.succ_pos _)
      rw [Index.add_ofNat_zero] at hfirst
      rw [contiguous_of_some hfirst, List.take_succ_cons]
      refine congrArg (e :: ·) (ih (fun i hi => ?_) fun hlt => ?_)
      · rw [← Index.add_ofNat_succ]
        exact h (i + 1) (Nat.succ_lt_succ hi)
      · rw [← Index.add_ofNat_succ]
        exact hend (Nat.succ_lt_succ hlt)

end Contiguous

/-! ## Operations that take nothing away -/

namespace IndexOp

variable {k : Key} {found : Option Entry} {ops : List IndexOp}

theorem foldl_after_of_not_affects (h : ∀ op ∈ ops, ¬ op.Affects k) :
    ops.foldl (after k) found = found := by
  induction ops generalizing found with
  | nil => rfl
  | cons op ops ih =>
    obtain ⟨hop, hrest⟩ := List.forall_mem_cons.mp h
    rw [List.foldl_cons, after_of_not_affects hop, ih hrest]

/-- Where one entry is the only one that is appended under a key, it is there in the end. -/
theorem foldl_after_of_only {e : Entry} (hoff : e.queueOffset = k.offset)
    (honly : ∀ op ∈ ops, op.Affects k → op = append k.partition e)
    (h : found = some e ∨ append k.partition e ∈ ops) : ops.foldl (after k) found = some e := by
  induction ops generalizing found with
  | nil => exact h.resolve_right List.not_mem_nil
  | cons op ops ih =>
    obtain ⟨hop, hrest⟩ := List.forall_mem_cons.mp honly
    rw [List.foldl_cons]
    refine ih hrest ?_
    by_cases haffects : op.Affects k
    · exact .inl ((after_eq_some_iff haffects).mpr ⟨hop haffects, hoff⟩)
    · rw [after_of_not_affects haffects]
      refine h.imp_right fun hmem => (List.mem_cons.mp hmem).resolve_left ?_
      rintro rfl
      exact haffects (congrArg (Key.mk k.partition) hoff)

end IndexOp

/-! ## What a reader sees -/

namespace Index

/-- Where every point read succeeds and finds the entry of its own offset, the loop of point reads gives
the run. -/
theorem readEach_eq_contiguous {ix : Index} {q : Queue} {found : UInt64 → Option Entry}
    (hread : ∀ o, ix.pointGet q o = .ok (found o))
    (hplaced : ∀ o e, found o = some e → e.queueOffset = o) (n : Nat) (offset : UInt64) :
    ix.readEach q n offset = .ok (contiguous found n offset) := by
  induction n generalizing offset with
  | zero => rfl
  | succ n ih =>
    have hpoint := hread offset
    cases hfound : found offset with
    | none =>
      rw [hfound] at hpoint
      rw [readEach_of_hole hpoint, contiguous_of_none hfound]
    | some e =>
      rw [hfound] at hpoint
      rw [readEach_of_entry hpoint (hplaced offset e hfound), ih, contiguous_of_some hfound]
      rfl

theorem encodable_of_pointGet {ix : Index} {q : Queue} {offset : UInt64} {found : Option Entry}
    (h : ix.pointGet q offset = .ok found) : q.partition.Encodable := by
  refine Decidable.byContradiction fun hq => ?_
  have hkey : (q.key offset).encode = .error _ := Key.encode_of_not_encodable hq
  rw [pointGet_eq, hkey] at h
  cases h

end Index

namespace Journal

variable {j : Journal} {w : Workspace} {q : Queue}

/-- What the operations that took effect leave at the offsets of a queue. -/
def entryAt (j : Journal) (q : Queue) (offset : UInt64) : Option Entry :=
  IndexOp.lookup j.committed (q.key offset)

theorem Describes.pointGet_view (h : j.Describes w) (hq : q.partition.Encodable) (reading : Settings)
    (offset : UInt64) :
    Index.pointGet ⟨reading, w.store.view⟩ q offset = .ok (j.entryAt q offset) := by
  have hk : (q.key offset).partition.Encodable := hq
  exact Index.pointGet_of_get hq (h.get hk)

/-- A range read gives the entries that stand without a gap. -/
theorem Describes.rangeGet_view (h : j.Describes w) (hq : q.partition.Encodable) (reading : Settings)
    (start count : UInt64) :
    (Index.rangeGet ⟨reading, w.store.view⟩ q start count).result =
      .ok (contiguous (j.entryAt q)
        (Index.rangeLength ⟨reading, w.store.view⟩ start count) start) := by
  have hplaced (o : UInt64) (e : Entry) (he : j.entryAt q o = some e) : e.queueOffset = o := by
    obtain ⟨before, later, -, hoff, -⟩ := IndexOp.lookup_eq_some_iff.mp he
    exact hoff
  rw [Index.rangeGet_store hq]
  exact (Index.scan_slotsFrom hq start start _).trans
    (Index.readEach_eq_contiguous (h.pointGet_view hq reading) hplaced _ _)

/-! ## Appends to free offsets -/

/-- Nothing is staged in the slot but appends to keys under which there is nothing. -/
def OnlyFreeAppends (j : Journal) (slot : Nat) : Prop :=
  ∀ op ∈ j.pending slot, ∃ p e, op = .append p e ∧
    IndexOp.lookup j.committed ⟨p, e.queueOffset⟩ = none

theorem entryAt_commit (j : Journal) (slot : Nat) (q : Queue) (offset : UInt64) :
    (j.commit slot).entryAt q offset =
      (j.pending slot).foldl (IndexOp.after (q.key offset)) (j.entryAt q offset) :=
  List.foldl_append

variable {slot : Nat}

theorem OnlyFreeAppends.entryAt_of_some (h : j.OnlyFreeAppends slot) {offset : UInt64} {e : Entry}
    (he : j.entryAt q offset = some e) : (j.commit slot).entryAt q offset = some e := by
  rw [entryAt_commit, IndexOp.foldl_after_of_not_affects, he]
  intro op hop haffects
  obtain ⟨p, e', rfl, hfree⟩ := h op hop
  have hkey : (⟨p, e'.queueOffset⟩ : Key) = q.key offset := haffects
  rw [hkey] at hfree
  exact nomatch hfree.symm.trans he

/-- What is staged for a queue, in some order, are appends of these entries, at consecutive offsets. -/
structure StagesRun (j : Journal) (slot : Nat) (q : Queue) (first : UInt64) (new : List Entry) :
    Prop where
  /-- What is pending for the queue are the appends, in some order. -/
  perm : ((j.pending slot).filter fun op => op.partition = q.partition).Perm
    (new.map (.append q.partition))
  /-- The offsets go up from the first one without a gap. -/
  offsets : ∀ i (hi : i < new.length), new[i].queueOffset.toNat = first.toNat + i

variable {first : UInt64} {new : List Entry}

theorem StagesRun.mem_iff (h : j.StagesRun slot q first new) {op : IndexOp}
    (hop : op.partition = q.partition) :
    op ∈ j.pending slot ↔ ∃ e ∈ new, IndexOp.append q.partition e = op := by
  rw [← List.mem_map, ← h.perm.mem_iff, List.mem_filter, and_iff_left (decide_eq_true hop)]

/-- An operation on an offset of the queue appends the one entry with that offset. -/
theorem StagesRun.eq_append_of_affects (h : j.StagesRun slot q first new) {op : IndexOp}
    (hop : op ∈ j.pending slot) (hfree : j.OnlyFreeAppends slot) {offset : UInt64}
    (haffects : op.Affects (q.key offset)) :
    ∃ i, ∃ hi : i < new.length, op = .append q.partition new[i] ∧ new[i].queueOffset = offset := by
  obtain ⟨p, e, rfl, -⟩ := hfree op hop
  obtain ⟨rfl, rfl⟩ := Key.mk.inj haffects
  obtain ⟨e', hmem, heq⟩ := (h.mem_iff rfl).mp hop
  obtain ⟨i, hi, rfl⟩ := List.mem_iff_getElem.mp hmem
  exact ⟨i, hi, heq.symm, congrArg Entry.queueOffset (IndexOp.append.inj heq).2⟩

theorem StagesRun.entryAt_new (h : j.StagesRun slot q first new) (hfree : j.OnlyFreeAppends slot)
    {i : Nat} (hi : i < new.length) {offset : UInt64} (hoffset : offset.toNat = first.toNat + i) :
    (j.commit slot).entryAt q offset = some new[i] := by
  have hoff : new[i].queueOffset = offset := by
    rw [← UInt64.toNat_inj, h.offsets i hi, hoffset]
  rw [entryAt_commit]
  refine IndexOp.foldl_after_of_only hoff (fun op hop haffects => ?_) (.inr ?_)
  · obtain ⟨i', hi', hop', hoff'⟩ := h.eq_append_of_affects hop hfree haffects
    have hsame : i' = i := by
      have hoffsets := h.offsets i' hi'
      rw [hoff', hoffset] at hoffsets
      omega
    subst hsame
    exact hop'
  · exact (h.mem_iff rfl).mpr ⟨new[i], List.getElem_mem hi, rfl⟩

theorem StagesRun.entryAt_end (h : j.StagesRun slot q first new) (hfree : j.OnlyFreeAppends slot)
    {offset : UInt64} (hoffset : offset.toNat = first.toNat + new.length)
    (hnone : j.entryAt q offset = none) : (j.commit slot).entryAt q offset = none := by
  rw [entryAt_commit, IndexOp.foldl_after_of_not_affects, hnone]
  intro op hop haffects
  obtain ⟨i, hi, -, hoff⟩ := h.eq_append_of_affects hop hfree haffects
  have hoffsets := h.offsets i hi
  rw [hoff, hoffset] at hoffsets
  omega

theorem StagesRun.end_le (h : j.StagesRun slot q first new) :
    first.toNat + new.length ≤ UInt64.size := by
  have hfirst : first.toNat < UInt64.size := first.toNat_lt_size
  by_cases hnew : new.length = 0
  · omega
  · have hlast := h.offsets (new.length - 1) (by omega)
    have hlt : new[new.length - 1].queueOffset.toNat < UInt64.size := UInt64.toNat_lt_size _
    omega

/-- After the commit, the run goes on over the entries that were staged right behind it. -/
theorem StagesRun.contiguous_commit (h : j.StagesRun slot q first new)
    (hfree : j.OnlyFreeAppends slot) {start : UInt64} {n : Nat} {old : List Entry}
    (hold : ∀ i (hi : i < old.length), j.entryAt q (start + UInt64.ofNat i) = some old[i])
    (hfirst : start.toNat + old.length = first.toNat) (hroom : start.toNat + n ≤ UInt64.size)
    (hend : ∀ o : UInt64, o.toNat = first.toNat + new.length → j.entryAt q o = none) :
    contiguous ((j.commit slot).entryAt q) n start = (old ++ new).take n := by
  have hend_le := h.end_le
  -- An offset of the run is one of the old ones, where the entry stays, or one of the new ones.
  refine contiguous_eq_take (fun i hi => ?_) fun hlt => ?_
  · rw [List.length_append] at hi
    by_cases hi' : i < old.length
    · rw [List.getElem_append_left hi']
      exact hfree.entryAt_of_some (hold i hi')
    · have hge : old.length ≤ i := Nat.le_of_not_lt hi'
      rw [List.getElem_append_right hge]
      refine h.entryAt_new hfree _ ?_
      rw [Index.toNat_add_ofNat (by omega)]
      omega
  · rw [List.length_append] at hlt ⊢
    have hoffset : (start + UInt64.ofNat (old.length + new.length)).toNat =
        first.toNat + new.length := by
      rw [Index.toNat_add_ofNat (by omega)]
      omega
    exact h.entryAt_end hfree hoffset (hend _ hoffset)

/-! ## Reads before and after the commit -/

section Commit

variable {w' : Workspace} (reading : Settings) {start count : UInt64}

/-- The entries a range read gave are the first of those it gives afterwards. -/
theorem OnlyFreeAppends.rangeGet_isPrefix (hfree : j.OnlyFreeAppends slot) (hw : j.Describes w)
    (hw' : (j.commit slot).Describes w') {entries : List Entry}
    (hread : (Index.rangeGet ⟨reading, w.store.view⟩ q start count).result = .ok entries) :
    ∃ entries', (Index.rangeGet ⟨reading, w'.store.view⟩ q start count).result = .ok entries' ∧
      entries <+: entries' := by
  by_cases hq : q.partition.Encodable
  · obtain rfl := Except.ok.inj ((hw.rangeGet_view hq reading start count).symm.trans hread)
    exact ⟨_, hw'.rangeGet_view hq reading start count,
      contiguous_isPrefix (fun _ _ => hfree.entryAt_of_some) _ _⟩
  · -- A topic that fits no key is read only where nothing is asked for.
    by_cases hn : Index.rangeLength ⟨reading, w.store.view⟩ start count = 0
    · have hafter : Index.rangeGet ⟨reading, w'.store.view⟩ q start count = ⟨.ok [], []⟩ :=
        Index.rangeGet_of_nothing_asked q hn
      rw [Index.rangeGet_of_nothing_asked q hn] at hread
      obtain rfl := Except.ok.inj hread
      exact ⟨[], congrArg Reply.result hafter, List.prefix_rfl⟩
    · rw [Index.rangeGet_of_not_encodable hn hq] at hread
      cases hread

/-- Entries that stand without a gap and those that were staged right behind them are read together. -/
theorem StagesRun.rangeGet_commit (h : j.StagesRun slot q first new) (hfree : j.OnlyFreeAppends slot)
    (hw' : (j.commit slot).Describes w') (hq : q.partition.Encodable) {old : List Entry}
    (hold : ∀ i (hi : i < old.length), j.entryAt q (start + UInt64.ofNat i) = some old[i])
    (hfirst : start.toNat + old.length = first.toNat)
    (hend : ∀ o : UInt64, o.toNat = first.toNat + new.length → j.entryAt q o = none) :
    (Index.rangeGet ⟨reading, w'.store.view⟩ q start count).result =
      .ok ((old ++ new).take (min count.toNat reading.maxRangeCount.toNat)) := by
  have hroom := Index.toNat_add_rangeLength_le ⟨reading, w'.store.view⟩ start count
  have hn : Index.rangeLength ⟨reading, w'.store.view⟩ start count =
      min (min count.toNat reading.maxRangeCount.toNat) (UInt64.size - start.toNat) :=
    Index.rangeLength_eq _ start count
  rw [hw'.rangeGet_view hq reading start count, h.contiguous_commit hfree hold hfirst hroom hend]
  -- All offsets that are left have an entry at most, so that their number is no further limit.
  refine congrArg Except.ok (List.take_eq_take_iff.mpr ?_)
  have hend_le := h.end_le
  rw [hn, List.length_append]
  omega

end Commit

end Journal

/-- Where each of some reads gives an entry, they give a list of entries. -/
theorem exists_entries {read : Nat → Except IndexError (Option Entry)} {n : Nat}
    (h : ∀ i < n, ∃ e, read i = .ok (some e)) :
    ∃ entries : List Entry, (List.range n).map read = entries.map (fun e => .ok (some e)) ∧
      entries.length = n ∧ ∀ i (hi : i < entries.length), read i = .ok (some entries[i]) := by
  obtain ⟨entries, hmap⟩ : ∃ entries : List Entry,
      entries.map (fun e => .ok (some e)) = (List.range n).map read := by
    rw [← Set.mem_range, Set.range_list_map]
    intro answer hmem
    obtain ⟨i, hi, rfl⟩ := List.mem_map.mp hmem
    obtain ⟨e, he⟩ := h i (List.mem_range.mp hi)
    exact ⟨e, he.symm⟩
  have hlength : entries.length = n := by
    have hlengths := congrArg List.length hmap
    rwa [List.length_map, List.length_map, List.length_range] at hlengths
  refine ⟨entries, hmap.symm, hlength, fun i hi => ?_⟩
  have hslot := congrArg (·[i]?) hmap
  simp only [List.getElem?_map, List.getElem?_range (hlength ▸ hi), List.getElem?_eq_getElem hi,
    Option.map_some, Option.some.injEq] at hslot
  exact hslot.symm

/-- What a reader sees of a queue only grows while nothing but appends to free offsets is committed.
After any history of index calls over an empty store, whatever was staged in a slot in whatever order, and
whatever the settings of the reader:
the entries a range read gave before the commit are the first of those it gives after it;
where the entries of a queue stand without a gap from `start` up to `first`, and those staged for it are
`new`, one for each offset from `first` on up to an offset where there is nothing, all of them are read
behind the old ones, as many as are asked for and allowed. -/
theorem visible_prefix_grows (settings : Settings) (scratches : Nat → Scratch)
    (history : List Command) (hcalls : ∀ c ∈ history, c.isIndexCall) (slot : Nat) :
    let j := Journal.recordAll { settings } history
    let w := (Workspace.runAll { settings, scratches } history).2
    let w' := (w.run (.commit slot)).2
    (∀ op ∈ j.pending slot, ∃ p e, op = .append p e ∧
      w.store.get (Key.bytes ⟨p, e.queueOffset⟩) = none) →
    ∀ (reading : Settings) (q : Queue) (start count : UInt64),
      let before : Index := ⟨reading, w.store.view⟩
      let after : Index := ⟨reading, w'.store.view⟩
      (q.partition.Encodable → ∃ entries, (before.rangeGet q start count).result = .ok entries) ∧
      (∀ entries, (before.rangeGet q start count).result = .ok entries →
        ∃ entries', (after.rangeGet q start count).result = .ok entries' ∧ entries <+: entries') ∧
      ∀ (first : UInt64) (new : List Entry), start ≤ first →
        (∀ o, start ≤ o → o < first → ∃ e, before.pointGet q o = .ok (some e)) →
        before.pointGet q first = .ok none → j.StagesRun slot q first new →
        (∀ o : UInt64, o.toNat = first.toNat + new.length → before.pointGet q o = .ok none) →
        ∃ old : List Entry,
          (List.range (first.toNat - start.toNat)).map
            (fun i => before.pointGet q (start + UInt64.ofNat i)) = old.map (fun e => .ok (some e)) ∧
          (after.rangeGet q start count).result =
            .ok ((old ++ new).take (min count.toNat reading.maxRangeCount.toNat)) := by
  intro j w w' hstaged reading q start count before after
  have hw : j.Describes w := (Journal.Describes.start settings scratches).runAll hcalls
  have hw' : (j.commit slot).Describes w' := hw.commit slot
  have hfree : j.OnlyFreeAppends slot := by
    intro op hop
    obtain ⟨p, e, rfl, hget⟩ := hstaged op hop
    have hk := hw.pending_encodable slot _ hop
    rw [hw.get hk, Option.map_eq_none_iff] at hget
    exact ⟨p, e, rfl, hget⟩
  refine ⟨fun hq => ⟨_, hw.rangeGet_view hq reading start count⟩,
    fun _ => hfree.rangeGet_isPrefix reading hw hw', fun first new hstart hold hfirst hrun hend => ?_⟩
  have hq : q.partition.Encodable := Index.encodable_of_pointGet hfirst
  have hpoint (o : UInt64) : before.pointGet q o = .ok (j.entryAt q o) :=
    hw.pointGet_view hq reading o
  have hle : start.toNat ≤ first.toNat := UInt64.le_iff_toNat_le.mp hstart
  have hlt : first.toNat < UInt64.size := first.toNat_lt_size
  have hfound (i : Nat) (hi : i < first.toNat - start.toNat) :
      ∃ e, before.pointGet q (start + UInt64.ofNat i) = .ok (some e) := by
    have hoffset : (start + UInt64.ofNat i).toNat = start.toNat + i :=
      Index.toNat_add_ofNat (by omega)
    exact hold _ (UInt64.le_iff_toNat_le.mpr (by omega)) (UInt64.lt_iff_toNat_lt.mpr (by omega))
  obtain ⟨old, hmap, hlength, hget⟩ := exists_entries hfound
  refine ⟨old, hmap, hrun.rangeGet_commit reading hfree hw' hq (fun i hi => ?_) (by omega)
    fun o ho => ?_⟩
  · exact Except.ok.inj ((hpoint _).symm.trans (hget i hi))
  · exact Except.ok.inj ((hpoint o).symm.trans (hend o ho))

/-- While a reader has seen all there is up to offset seven, eight and seven are staged behind it, in this
order, and the offset seven of another partition. -/
theorem visible_prefix_grows_out_of_order :
    let q : Queue := ⟨"t", -1⟩
    let e (offset : UInt64) : Entry := ⟨offset * 100, 100, 0, 0, offset⟩
    let history : List Command := [.append 0 q.partition (e 6), .commit 0,
      .append 1 q.partition (e 8), .append 1 ⟨[116, 1], -1⟩ (e 7), .appendScratch 1 0 q.partition (e 7)]
    let j := Journal.recordAll {} history
    let w := (Workspace.runAll { settings := {}, scratches := fun _ => {} } history).2
    let w' := (w.run (.commit 1)).2
    (∀ c ∈ history, c.isIndexCall) ∧
    (∀ op ∈ j.pending 1, ∃ p e, op = .append p e ∧
      w.store.get (Key.bytes ⟨p, e.queueOffset⟩) = none) ∧
    (∀ o, 6 ≤ o → o < 7 → ∃ e, Index.pointGet ⟨{}, w.store.view⟩ q o = .ok (some e)) ∧
    Index.pointGet ⟨{}, w.store.view⟩ q 7 = .ok none ∧ j.StagesRun 1 q 7 [e 7, e 8] ∧
    (∀ o : UInt64, o.toNat = 9 → Index.pointGet ⟨{}, w.store.view⟩ q o = .ok none) ∧
    (Index.rangeGet ⟨{}, w'.store.view⟩ q 6 10).result = .ok [e 6, e 7, e 8] := by
  intro q e history j w w'
  have hcalls : ∀ c ∈ history, c.isIndexCall := by decide
  have hq : q.partition.Encodable := by decide
  have hw : j.Describes w := (Journal.Describes.start {} fun _ => {}).runAll hcalls
  have hpoint (o : UInt64) : Index.pointGet ⟨{}, w.store.view⟩ q o = .ok (j.entryAt q o) :=
    hw.pointGet_view hq {} o
  have hsix : Index.pointGet ⟨{}, w.store.view⟩ q 6 = .ok (some (e 6)) :=
    (hpoint 6).trans (congrArg Except.ok (by decide))
  have hfree : ∀ op ∈ j.pending 1, ∃ p e, op = .append p e ∧
      IndexOp.lookup j.committed ⟨p, e.queueOffset⟩ = none := by
    refine List.forall_mem_cons.mpr ⟨⟨q.partition, e 8, rfl, by decide⟩,
      List.forall_mem_cons.mpr ⟨⟨⟨[116, 1], -1⟩, e 7, rfl, by decide⟩,
        List.forall_mem_cons.mpr ⟨⟨q.partition, e 7, rfl, by decide⟩, nofun⟩⟩⟩
  have hstaged : ∀ op ∈ j.pending 1, ∃ p e, op = .append p e ∧
      w.store.get (Key.bytes ⟨p, e.queueOffset⟩) = none := by
    intro op hop
    obtain ⟨p, e, rfl, hlookup⟩ := hfree op hop
    refine ⟨p, e, rfl, ?_⟩
    rw [hw.get (hw.pending_encodable 1 _ hop), hlookup]
    rfl
  have hold (o : UInt64) (hlow : 6 ≤ o) (hhigh : o < 7) :
      ∃ e, Index.pointGet ⟨{}, w.store.view⟩ q o = .ok (some e) := by
    obtain rfl : o = 6 := by grind
    exact ⟨e 6, hsix⟩
  have hfirst : Index.pointGet ⟨{}, w.store.view⟩ q 7 = .ok none :=
    (hpoint 7).trans (congrArg Except.ok (by decide))
  have hend (o : UInt64) (ho : o.toNat = 9) : Index.pointGet ⟨{}, w.store.view⟩ q o = .ok none := by
    obtain rfl : o = 9 := UInt64.toNat_inj.mp ho
    exact (hpoint 9).trans (congrArg Except.ok (by decide))
  have hrun : j.StagesRun 1 q 7 [e 7, e 8] := ⟨by decide, by decide⟩
  obtain ⟨-, -, hcommit⟩ := visible_prefix_grows {} (fun _ => {}) history hcalls 1 hstaged {} q 6 10
  obtain ⟨old, hmap, hread⟩ := hcommit 7 [e 7, e 8] (by decide) hold hfirst hrun hend
  have hreads : [.ok (some (e 6))] = old.map fun e => (.ok (some e) : Except IndexError _) := by
    rw [← hsix]
    exact hmap
  obtain ⟨e', rfl⟩ : ∃ e', old = [e'] := by
    have hlength := congrArg List.length hreads
    rw [List.length_map] at hlength
    exact List.length_eq_one_iff.mp hlength.symm
  obtain rfl := Option.some.inj (Except.ok.inj (List.cons.inj hreads).1)
  exact ⟨hcalls, hstaged, hold, hfirst, hrun, hend, hread⟩

end MessageIndex
