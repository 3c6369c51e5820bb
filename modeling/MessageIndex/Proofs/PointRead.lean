import MessageIndex.Proofs.Footprint

/-!
# Proofs: a point read gives the last append

What a history leaves under a key is decided by the last operation that took effect on it: an append
puts its entry there, the removal of the partition leaves nothing. The store holds exactly that
(`get_commit`), so a point read answers the last append to its offset if no removal came after it
(`pointGet_history`).
-/

namespace MessageIndex

open Bytes

namespace IndexOp

/-- The operations that decide what is under a key. -/
def Affects (k : Key) : IndexOp → Prop
  | append p e => (⟨p, e.queueOffset⟩ : Key) = k
  | remove p => p = k.partition

instance (k : Key) (op : IndexOp) : Decidable (op.Affects k) := by
  cases op <;> unfold Affects <;> infer_instance

/-- What an operation leaves under a key where `found` was. -/
def after (k : Key) (found : Option Entry) : IndexOp → Option Entry
  | append p e => if (⟨p, e.queueOffset⟩ : Key) = k then some e else found
  | remove p => if p = k.partition then none else found

/-- What operations leave under a key when they begin with nothing. -/
def lookup (ops : List IndexOp) (k : Key) : Option Entry := ops.foldl (after k) none

/-- The entry is the last one appended under the key, and nothing removed it afterwards. -/
def Survives (ops : List IndexOp) (k : Key) (e : Entry) : Prop :=
  ∃ before later, ops = before ++ append k.partition e :: later ∧ e.queueOffset = k.offset ∧
    ∀ op ∈ later, ¬ op.Affects k

variable {k : Key} {found : Option Entry}

theorem after_of_not_affects {op : IndexOp} (h : ¬ op.Affects k) : op.after k found = found := by
  cases op with
  | append p e => exact if_neg h
  | remove p => exact if_neg h

/-- An operation on the key leaves an entry there only by appending it. -/
theorem after_eq_some_iff {op : IndexOp} (h : op.Affects k) {e : Entry} :
    op.after k found = some e ↔ op = append k.partition e ∧ e.queueOffset = k.offset := by
  cases op with
  | append p e' =>
    subst h
    show (if _ then some e' else found) = some e ↔ _
    rw [if_pos rfl, Option.some.injEq]
    constructor
    · rintro rfl
      exact ⟨rfl, rfl⟩
    · rintro ⟨heq, -⟩
      exact (append.inj heq).2
  | remove p =>
    refine iff_of_false ?_ fun hc => nomatch hc.1
    have hgone : (remove p).after k found = none := if_pos h
    rw [hgone]
    exact nofun

/-- An operation on a key writes what it leaves there. -/
theorem leaves_write {op : IndexOp} (h : op.Affects k) :
    op.write.leaves = (op.after k found).map Entry.encode := by
  cases op with
  | append p e =>
    have hafter : (append p e).after k found = some e := if_pos h
    rw [hafter]
    rfl
  | remove p =>
    have hafter : (remove p).after k found = none := if_pos h
    rw [hafter]
    rfl

/-- The operations on a key are those whose writes touch its bytes. -/
theorem touches_write_iff (hk : k.partition.Encodable) {op : IndexOp} (hop : op.partition.Encodable) :
    op.write.Touches k.bytes ↔ op.Affects k := by
  cases op with
  | append p e => exact ⟨Key.bytes_inj hop hk, congrArg Key.bytes⟩
  | remove p =>
    have hrange : InRange (Bound.start.bytes p) (Bound.stop.bytes p) k.bytes ↔ k.partition = p :=
      Bound.inRange_key_iff hop hk
    exact hrange.trans eq_comm

theorem survives_cons_iff {op : IndexOp} {ops : List IndexOp} {e : Entry} :
    Survives (op :: ops) k e ↔ Survives ops k e ∨
      (op = append k.partition e ∧ e.queueOffset = k.offset ∧ ∀ op ∈ ops, ¬ op.Affects k) := by
  constructor
  · rintro ⟨before, later, hsplit, hoff, hlater⟩
    cases before with
    | nil =>
      obtain ⟨rfl, rfl⟩ := List.cons.inj hsplit
      exact Or.inr ⟨rfl, hoff, hlater⟩
    | cons first before =>
      obtain ⟨rfl, rfl⟩ := List.cons.inj hsplit
      exact Or.inl ⟨before, later, rfl, hoff, hlater⟩
  · rintro (⟨before, later, rfl, hoff, hlater⟩ | ⟨rfl, hoff, hlater⟩)
    · exact ⟨op :: before, later, rfl, hoff, hlater⟩
    · exact ⟨[], ops, rfl, hoff, hlater⟩

/-- What is left under a key is the surviving entry, or what was there if no operation was on it. -/
theorem foldl_after_eq_some_iff {ops : List IndexOp} {e : Entry} :
    ops.foldl (after k) found = some e ↔
      Survives ops k e ∨ (found = some e ∧ ∀ op ∈ ops, ¬ op.Affects k) := by
  induction ops generalizing found with
  | nil =>
    constructor
    · exact fun h => Or.inr ⟨h, nofun⟩
    · rintro (⟨before, later, h, -⟩ | ⟨h, -⟩)
      · exact absurd h.symm (by simp)
      · exact h
  | cons op ops ih =>
    rw [List.foldl_cons, ih, survives_cons_iff, or_assoc, List.forall_mem_cons]
    -- An operation on the key makes what was found before irrelevant; any other one passes it on.
    by_cases hop : op.Affects k
    · rw [after_eq_some_iff hop, and_assoc]
      refine or_congr_right ⟨Or.inl, ?_⟩
      rintro (h | ⟨-, h, -⟩)
      · exact h
      · exact absurd hop h
    · rw [after_of_not_affects hop]
      refine or_congr_right ⟨fun ⟨h, hrest⟩ => Or.inr ⟨h, hop, hrest⟩, ?_⟩
      rintro (⟨rfl, hoff, -⟩ | ⟨h, -, hrest⟩)
      · exact absurd (congrArg (Key.mk k.partition) hoff) hop
      · exact ⟨h, hrest⟩

theorem lookup_eq_some_iff {ops : List IndexOp} {e : Entry} :
    lookup ops k = some e ↔ Survives ops k e := by
  unfold lookup
  rw [foldl_after_eq_some_iff]
  constructor
  · rintro (h | ⟨h, -⟩)
    · exact h
    · cases h
  · exact Or.inl

theorem lookup_eq_none_iff {ops : List IndexOp} :
    lookup ops k = none ↔ ∀ e, ¬ Survives ops k e := by
  rw [Option.eq_none_iff_forall_ne_some]
  exact forall_congr' fun e => not_congr lookup_eq_some_iff

end IndexOp

namespace Store

variable {k : Key} {found : Option Entry}

/-- A write of the index does under every key what the operation says. -/
theorem get_apply_write (hk : k.partition.Encodable) {op : IndexOp} (hop : op.partition.Encodable)
    {s : Store} (hs : s.get k.bytes = found.map Entry.encode) :
    (s.apply op.write).get k.bytes = (op.after k found).map Entry.encode := by
  have htouches := IndexOp.touches_write_iff hk hop
  rw [get_apply]
  by_cases h : op.Affects k
  · rw [if_pos (htouches.mpr h), IndexOp.leaves_write h]
  · rw [if_neg fun hc => h (htouches.mp hc), hs, IndexOp.after_of_not_affects h]

/-- Under every key, the store holds what the operations leave there. -/
theorem get_commit (hk : k.partition.Encodable) {ops : List IndexOp}
    (hops : ∀ op ∈ ops, op.partition.Encodable) :
    (Store.commit {} ⟨ops.map IndexOp.write⟩).get k.bytes =
      (IndexOp.lookup ops k).map Entry.encode := by
  -- Stated for every store and what it holds under the key: each write changes both.
  have hfold : ∀ (s : Store) (found : Option Entry), s.get k.bytes = found.map Entry.encode →
      ((ops.map IndexOp.write).foldl apply s).get k.bytes =
        (ops.foldl (IndexOp.after k) found).map Entry.encode := by
    induction ops with
    | nil => exact fun _ _ hs => hs
    | cons op ops ih =>
      intro s found hs
      obtain ⟨hop, hrest⟩ := List.forall_mem_cons.mp hops
      exact ih hrest _ _ (get_apply_write hk hop hs)
  exact hfold {} none (get_empty k.bytes)

end Store

namespace Index

/-- A point read takes what is under one key for an entry. -/
theorem pointGet_eq (ix : Index) (q : Queue) (offset : UInt64) :
    ix.pointGet q offset =
      (q.key offset).encode >>= ix.view.get >>= fun value => value.mapM Entry.decode := by
  unfold pointGet
  cases (q.key offset).encode with
  | error cause => rfl
  | ok key =>
    simp only [bind, Except.bind]
    cases ix.view.get key with
    | error cause => rfl
    | ok value =>
      cases value with
      | none => rfl
      | some bytes => exact (bind_pure_comp some (Entry.decode bytes))

/-- In a working store, that is what the store holds. -/
theorem pointGet_store {settings : Settings} {s : Store} {q : Queue} (hq : q.partition.Encodable)
    (offset : UInt64) :
    pointGet ⟨settings, s.view⟩ q offset = (s.get (q.key offset).bytes).mapM Entry.decode := by
  have hkey : (q.key offset).encode = .ok (q.key offset).bytes := Key.encode_of_encodable hq
  rw [pointGet_eq, hkey]
  rfl

/-- A point read gives back the entry whose stored form is under its key. -/
theorem pointGet_of_get {settings : Settings} {s : Store} {q : Queue} (hq : q.partition.Encodable)
    {offset : UInt64} {found : Option Entry}
    (h : s.get (q.key offset).bytes = found.map Entry.encode) :
    pointGet ⟨settings, s.view⟩ q offset = .ok found := by
  rw [pointGet_store hq, h]
  cases found with
  | none => rfl
  | some e =>
    show some <$> Entry.decode e.encode = _
    rw [Entry.decode_encode]
    rfl

end Index

namespace Journal

variable {j : Journal} {w : Workspace}

/-- Without faults, the index reads the store itself. -/
theorem Describes.index_eq (h : j.Describes w) : w.index = ⟨j.settings, w.store.view⟩ := by
  unfold Workspace.index Workspace.view
  rw [h.settings, h.faults, Faults.bend_none]

theorem Describes.get (h : j.Describes w) {k : Key} (hk : k.partition.Encodable) :
    w.store.get k.bytes = (IndexOp.lookup j.committed k).map Entry.encode := by
  rw [h.committed]
  exact Store.get_commit hk h.committed_encodable

/-- A point read gives what the operations that took effect leave under its key. -/
theorem Describes.pointGet (h : j.Describes w) {q : Queue} (hq : q.partition.Encodable)
    (offset : UInt64) :
    w.index.pointGet q offset = .ok (IndexOp.lookup j.committed (q.key offset)) := by
  have hk : (q.key offset).partition.Encodable := hq
  rw [h.index_eq]
  exact Index.pointGet_of_get hq (h.get hk)

end Journal

/-- The index refines a map from keys to entries. After any history of index calls over an empty store,
a point read gives the last entry appended to its offset in the order of the commits, if no removal of
the partition came after it, and nothing otherwise. A call that stages in a batch which is not
committed afterwards might as well not have been made: no read answers differently. -/
theorem pointGet_history (settings : Settings) (scratches : Nat → Scratch) (history : List Command)
    (hcalls : ∀ c ∈ history, c.isIndexCall) (q : Queue) (hq : q.partition.Encodable)
    (offset : UInt64) :
    let w := (Workspace.runAll { settings, scratches } history).2
    let committed := (Journal.recordAll { settings } history).committed
    (∀ e, w.index.pointGet q offset = .ok (some e) ↔ IndexOp.Survives committed (q.key offset) e) ∧
    (w.index.pointGet q offset = .ok none ↔ ∀ e, ¬ IndexOp.Survives committed (q.key offset) e) ∧
    ∀ before c later slot ops, history = before ++ c :: later → c.staged = some (slot, ops) →
      Command.commit slot ∉ later → ∀ r : Command, r.isRead →
        (w.run r).1 = ((Workspace.runAll { settings, scratches } (before ++ later)).2.run r).1 := by
  intro w committed
  have hstart := Journal.Describes.start settings scratches
  have hw : Journal.Describes _ w := hstart.runAll hcalls
  have hget : w.index.pointGet q offset = .ok (IndexOp.lookup committed (q.key offset)) :=
    hw.pointGet hq offset
  refine ⟨fun e => ?_, ?_, fun before c later slot ops hsplit hc hslot r hr => ?_⟩
  · rw [hget, Except.ok.injEq]
    exact IndexOp.lookup_eq_some_iff
  · rw [hget, Except.ok.injEq]
    exact IndexOp.lookup_eq_none_iff
  · subst hsplit
    have hrest : ∀ c ∈ before ++ later, c.isIndexCall := by
      intro c' hc'
      rcases List.mem_append.mp hc' with hbefore | hlater
      · exact hcalls c' (List.mem_append_left _ hbefore)
      · exact hcalls c' (List.mem_append_right _ (List.mem_cons_of_mem _ hlater))
    exact Journal.Describes.answer_eq hc hslot hw (hstart.runAll hrest) hr

/-- Of two batches, the one begun first is committed last, after a removal; a third one stays
uncommitted. -/
theorem pointGet_history_of_three_batches :
    let q : Queue := ⟨"t", -1⟩
    let e (n : UInt64) : Entry := ⟨n, 100, 0, 0, 7⟩
    let history : List Command := [.append 0 q.partition (e 1), .deletePartition 1 q,
      .appendScratch 1 0 q.partition (e 2), .commit 1, .commit 0]
    let w (history : List Command) : Workspace :=
      (Workspace.runAll { settings := {}, scratches := fun _ => {} } history).2
    (∀ c ∈ history ++ [.append 2 q.partition (e 3)], c.isIndexCall) ∧ q.partition.Encodable ∧
      (w (history ++ [.append 2 q.partition (e 3)])).index.pointGet q 7 = .ok (some (e 1)) ∧
      ∀ r : Command, r.isRead →
        ((w (history ++ [.append 2 q.partition (e 3)])).run r).1 = ((w history).run r).1 := by
  intro q e history w
  have hcalls : ∀ c ∈ history ++ [.append 2 q.partition (e 3)], c.isIndexCall := by decide
  have hq : q.partition.Encodable := by decide
  obtain ⟨hget, -, hstaged⟩ := pointGet_history {} (fun _ => {}) _ hcalls q hq 7
  refine ⟨hcalls, hq, (hget (e 1)).mpr ?_, ?_⟩
  · exact ⟨[.remove q.partition, .append q.partition (e 2)], [], rfl, rfl, nofun⟩
  · exact hstaged history _ [] 2 _ rfl rfl List.not_mem_nil

end MessageIndex
