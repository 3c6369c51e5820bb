import MessageIndex.Workspace
import MessageIndex.Proofs.PartitionRange
import MessageIndex.Proofs.ReusedBuffers

/-!
# Proofs: the journal of a workspace

A `Journal` follows a history of commands without any store: it keeps, for each slot, the operations
staged there, and the operations that took effect, in the order of the commits. It describes the
workspace after every history of index calls (`describes_runAll`): the batches hold the writes of the
pending operations, and the store is what the writes of the committed ones make of an empty store. So
what is staged in a batch that is never committed leaves no trace (`agreeOutside_recordAll`).
-/

namespace MessageIndex

/-- What can be done to the entries of an index. -/
inductive IndexOp where
  /-- Files an entry of a partition under the offset it names. -/
  | append (p : Partition) (e : Entry)
  /-- Removes all entries of a partition. -/
  | remove (p : Partition)
  deriving DecidableEq

namespace IndexOp

/-- The partition an operation belongs to. -/
def partition : IndexOp → Partition
  | append p _ => p
  | remove p => p

/-- The write to the store that an operation comes down to. -/
def write : IndexOp → BatchOp
  | append p e => .put (Key.bytes ⟨p, e.queueOffset⟩) e.encode
  | remove p => .deleteRange (Bound.start.bytes p) (Bound.stop.bytes p)

/-- The operations that are not refused: those of a topic that fits a key. -/
def accepted (ops : List IndexOp) : List IndexOp := ops.filter fun op => op.partition.Encodable

theorem encodable_of_mem_accepted {ops : List IndexOp} {op : IndexOp} (h : op ∈ accepted ops) :
    op.partition.Encodable := of_decide_eq_true (List.mem_filter.mp h).2

/-- Operations on one partition are all accepted or all refused. -/
theorem accepted_of_partition {p : Partition} {ops : List IndexOp}
    (hops : ∀ op ∈ ops, op.partition = p) : accepted ops = if p.Encodable then ops else [] := by
  unfold accepted
  by_cases hp : p.Encodable
  · rw [if_pos hp, List.filter_eq_self]
    intro op hop
    rw [hops op hop]
    exact decide_eq_true hp
  · rw [if_neg hp, List.filter_eq_nil_iff]
    intro op hop
    rw [hops op hop, decide_eq_false hp]
    exact Bool.false_ne_true

end IndexOp

namespace Command

/-- The slot in which a call stages, and what it asks to stage there. -/
def staged : Command → Option (Nat × List IndexOp)
  | append batch p e => some (batch, [.append p e])
  | appendAll batch p entries => some (batch, entries.map (.append p))
  | appendScratch batch _ p e => some (batch, [.append p e])
  | dispatch batch _ r => some (batch, [.append r.queue.partition r.entry])
  | deletePartition batch q => some (batch, [.remove q.partition])
  | _ => none

/-- Calls of an index and its batches: no raw writes, no copies of batches and no faults. -/
def isIndexCall : Command → Bool
  | put .. => false
  | deleteRange .. => false
  | copy .. => false
  | setFaults _ => false
  | _ => true

/-- Calls that ask what is committed, through the index or at the store itself. -/
def isRead : Command → Bool
  | pointGet .. => true
  | rangeGet .. => true
  | search .. => true
  | get _ => true
  | multiGet _ => true
  | keys => true
  | size => true
  | _ => false

end Command

/-- What a history of commands has asked for. -/
structure Journal where
  /-- The settings last asked for. -/
  settings : Settings := {}
  /-- The operations staged in each slot and not yet committed. -/
  pending : Nat → List IndexOp := fun _ => []
  /-- The operations that took effect, the first one first. -/
  committed : List IndexOp := []

namespace Journal

/-- Adds what a call stages, unless it is refused. -/
def stage (j : Journal) (slot : Nat) (ops : List IndexOp) : Journal :=
  { j with
    pending := fun i => if i = slot then j.pending i ++ IndexOp.accepted ops else j.pending i }

/-- Moves the operations of a slot behind those that took effect before. -/
def commit (j : Journal) (slot : Nat) : Journal :=
  { j with
    pending := fun i => if i = slot then [] else j.pending i
    committed := j.committed ++ j.pending slot }

/-- Notes a command. -/
def record (j : Journal) : Command → Journal
  | .commit slot => j.commit slot
  | .rebuild changes => { j with settings := Settings.build changes }
  | c =>
    match c.staged with
    | none => j
    | some (slot, ops) => j.stage slot ops

/-- Notes commands in order. -/
def recordAll (j : Journal) (history : List Command) : Journal := history.foldl record j

theorem pending_stage (j : Journal) (slot i : Nat) (ops : List IndexOp) :
    (j.stage slot ops).pending i =
      if i = slot then j.pending i ++ IndexOp.accepted ops else j.pending i := rfl

theorem pending_commit (j : Journal) (slot i : Nat) :
    (j.commit slot).pending i = if i = slot then [] else j.pending i := rfl

end Journal

namespace Batch

/-- Entries of a topic that fits are all staged, in order. -/
theorem appendAll_of_encodable (b : Batch) {p : Partition} (hp : p.Encodable) (entries : List Entry) :
    b.appendAll p entries = .ok ⟨b.ops ++ (entries.map (IndexOp.append p)).map IndexOp.write⟩ := by
  rw [List.map_map]
  exact foldlM_append_of_encodable (fun _ => p) id b fun _ _ => hp

theorem appendAll_of_not_encodable (b : Batch) {p : Partition} (hp : ¬ p.Encodable)
    {entries : List Entry} (hne : entries ≠ []) :
    b.appendAll p entries = .error (.topicTooLong p.topic.length) := by
  cases entries with
  | nil => exact absurd rfl hne
  | cons e entries =>
    unfold appendAll
    rw [List.foldlM_cons, append_of_not_encodable b hp]
    rfl

theorem deletePartition_of_encodable (b : Batch) {q : Queue} (hq : q.partition.Encodable) :
    (b.deletePartition q).result = .ok (b.push (IndexOp.remove q.partition).write) := by
  unfold deletePartition
  rw [Bound.encode_of_encodable hq, Bound.encode_of_encodable hq]
  rfl

theorem deletePartition_of_not_encodable (b : Batch) {q : Queue} (hq : ¬ q.partition.Encodable) :
    (b.deletePartition q).result = .error (.topicTooLong q.partition.topic.length) := by
  unfold deletePartition
  rw [Bound.encode_of_not_encodable hq]
  rfl

end Batch

namespace Workspace

/-! ## What a call leaves behind -/

/-- The slots, store, settings and faults that a call leaves behind when it stages some writes. -/
structure Stages (w w' : Workspace) (slot : Nat) (writes : List BatchOp) : Prop where
  /-- The writes come last in their slot, and no other slot changes. -/
  batches : ∀ i, (w'.batches i).ops = if i = slot then (w.batches i).ops ++ writes else (w.batches i).ops
  /-- Nothing takes effect yet. -/
  store : w'.store = w.store
  /-- The settings stay. -/
  settings : w'.settings = w.settings
  /-- The store misbehaves as before, if it does. -/
  faults : w'.faults = w.faults

theorem stages_of_ok {w : Workspace} {slot : Nat} {staged : Reply Batch} {writes : List BatchOp}
    (hok : staged.result = .ok ⟨(w.batches slot).ops ++ writes⟩) :
    Stages w (w.stage slot staged).2 slot writes := by
  have hrun : (w.stage slot staged).2 = w.setBatch slot ⟨(w.batches slot).ops ++ writes⟩ := by
    unfold stage
    rw [hok]
  rw [hrun]
  refine ⟨fun i => ?_, rfl, rfl, rfl⟩
  show (if i = slot then Batch.mk _ else w.batches i).ops = _
  by_cases hi : i = slot
  · rw [if_pos hi, if_pos hi, hi]
  · rw [if_neg hi, if_neg hi]

theorem stages_of_error {w : Workspace} {slot : Nat} {staged : Reply Batch} {cause : IndexError}
    (herror : staged.result = .error cause) : Stages w (w.stage slot staged).2 slot [] := by
  have hrun : (w.stage slot staged).2 = w := by
    unfold stage
    rw [herror]
  rw [hrun]
  refine ⟨fun i => ?_, rfl, rfl, rfl⟩
  rw [List.append_nil, ite_self]

/-- What is asked of one partition is staged if its topic fits a key, and refused otherwise. -/
theorem stages_of_partition {w : Workspace} {slot : Nat} {staged : Reply Batch} {p : Partition}
    {ops : List IndexOp} (hops : ∀ op ∈ ops, op.partition = p)
    (hok : p.Encodable → staged.result = .ok ⟨(w.batches slot).ops ++ ops.map IndexOp.write⟩)
    (herror : ¬ p.Encodable → staged.result = .error (.topicTooLong p.topic.length)) :
    Stages w (w.stage slot staged).2 slot ((IndexOp.accepted ops).map IndexOp.write) := by
  rw [IndexOp.accepted_of_partition hops]
  by_cases hp : p.Encodable
  · rw [if_pos hp]
    exact stages_of_ok (hok hp)
  · rw [if_neg hp]
    exact stages_of_error (herror hp)

theorem stages_append (w : Workspace) (slot : Nat) (p : Partition) (e : Entry) :
    Stages w (w.stage slot ⟨(w.batches slot).append p e, []⟩).2 slot
      ((IndexOp.accepted [.append p e]).map IndexOp.write) := by
  refine stages_of_partition (p := p) ?_ (fun hp => ?_) fun hp => ?_
  · rintro op hop
    rw [List.mem_singleton.mp hop]
    rfl
  · exact Batch.append_of_encodable _ hp e
  · exact Batch.append_of_not_encodable _ hp e

/-- Through reused buffers, the same is left behind as without them, but for the buffers. -/
theorem stages_appendScratch (w : Workspace) (slot scratch : Nat) (p : Partition) (e : Entry) :
    Stages w (w.run (.appendScratch slot scratch p e)).2 slot
      ((IndexOp.accepted [.append p e]).map IndexOp.write) := by
  have h := stages_append
    (w.setScratch scratch ((w.batches slot).appendScratch (w.scratches scratch) p e).2) slot p e
  show Stages w ((w.setScratch scratch _).stage slot
    ⟨((w.batches slot).appendScratch (w.scratches scratch) p e).1, []⟩).2 slot _
  rw [Batch.appendScratch_eq_append]
  exact ⟨h.batches, h.store, h.settings, h.faults⟩

theorem stages_appendAll (w : Workspace) (slot : Nat) (p : Partition) (entries : List Entry) :
    Stages w (w.run (.appendAll slot p entries)).2 slot
      ((IndexOp.accepted (entries.map (IndexOp.append p))).map IndexOp.write) := by
  by_cases hne : entries = []
  · rw [hne]
    refine stages_of_ok ?_
    show Except.ok (w.batches slot) = .ok ⟨(w.batches slot).ops ++ []⟩
    rw [List.append_nil]
  · refine stages_of_partition (p := p) ?_ (fun hp => ?_) fun hp => ?_
    · intro op hop
      obtain ⟨e, -, rfl⟩ := List.mem_map.mp hop
      rfl
    · exact Batch.appendAll_of_encodable _ hp entries
    · exact Batch.appendAll_of_not_encodable _ hp hne

theorem stages_deletePartition (w : Workspace) (slot : Nat) (q : Queue) :
    Stages w (w.run (.deletePartition slot q)).2 slot
      ((IndexOp.accepted [.remove q.partition]).map IndexOp.write) := by
  refine stages_of_partition (p := q.partition) ?_ (fun hq => ?_) fun hq => ?_
  · intro op hop
    rw [List.mem_singleton.mp hop]
    rfl
  · exact Batch.deletePartition_of_encodable _ hq
  · exact Batch.deletePartition_of_not_encodable _ hq

/-- A read sees store, settings and faults, and nothing of what is staged. -/
theorem answer_of_isRead {w w' : Workspace} {c : Command} (hc : c.isRead)
    (hstore : w.store = w'.store) (hsettings : w.settings = w'.settings)
    (hfaults : w.faults = w'.faults) : (w.run c).1 = (w'.run c).1 := by
  have hview : w.view = w'.view := by
    unfold view
    rw [hstore, hfaults]
  have hindex : w.index = w'.index := by
    unfold index
    rw [hview, hsettings]
  cases c with
  | pointGet => simp only [run, hindex]
  | rangeGet => simp only [run, hindex]
  | search => simp only [run, hindex]
  | get => simp only [run, hview]
  | multiGet => simp only [run, hview]
  | keys => simp only [run, hstore]
  | size => simp only [run, hstore]
  | _ => cases hc

end Workspace

namespace Journal

/-! ## The workspace of a journal -/

/-- A workspace is as it must be after what the journal holds. -/
structure Describes (j : Journal) (w : Workspace) : Prop where
  /-- The index has the settings of the journal. -/
  settings : w.settings = j.settings
  /-- Batches hold the writes of what is pending. -/
  pending : ∀ slot, (w.batches slot).ops = (j.pending slot).map IndexOp.write
  /-- The store is what the writes of what took effect make of an empty one. -/
  committed : w.store = Store.commit {} ⟨j.committed.map IndexOp.write⟩
  /-- The store does not misbehave. -/
  faults : w.faults = {}
  /-- What was staged fits a key. -/
  pending_encodable : ∀ slot, ∀ op ∈ j.pending slot, op.partition.Encodable
  /-- What took effect fits a key. -/
  committed_encodable : ∀ op ∈ j.committed, op.partition.Encodable

theorem Describes.start (settings : Settings) (scratches : Nat → Scratch) :
    Describes { settings } { settings, scratches } where
  settings := rfl
  pending _ := rfl
  committed := rfl
  faults := rfl
  pending_encodable _ _ h := absurd h List.not_mem_nil
  committed_encodable _ h := absurd h List.not_mem_nil

variable {j : Journal} {w w' : Workspace}

theorem Describes.stage (h : j.Describes w) {slot : Nat} {ops : List IndexOp}
    (hw : w.Stages w' slot ((IndexOp.accepted ops).map IndexOp.write)) :
    (j.stage slot ops).Describes w' where
  settings := hw.settings.trans h.settings
  pending i := by
    rw [hw.batches, h.pending, pending_stage]
    by_cases hi : i = slot
    · rw [if_pos hi, if_pos hi, List.map_append]
    · rw [if_neg hi, if_neg hi]
  committed := hw.store.trans h.committed
  faults := hw.faults.trans h.faults
  pending_encodable i op := by
    rw [pending_stage]
    by_cases hi : i = slot
    · rw [if_pos hi]
      intro hop
      rcases List.mem_append.mp hop with hold | hnew
      · exact h.pending_encodable i op hold
      · exact IndexOp.encodable_of_mem_accepted hnew
    · rw [if_neg hi]
      exact h.pending_encodable i op
  committed_encodable := h.committed_encodable

/-- A commit makes the pending writes of its slot take effect behind those that did before. -/
theorem Describes.commit (h : j.Describes w) (slot : Nat) :
    (j.commit slot).Describes (w.run (.commit slot)).2 := by
  have hrun : (w.run (.commit slot)).2 =
      { w.setBatch slot {} with store := w.store.commit (w.batches slot) } := by
    show (w.commit slot).2 = _
    unfold Workspace.commit
    rw [h.faults]
    rfl
  rw [hrun]
  refine ⟨h.settings, fun i => ?_, ?_, h.faults, fun i op => ?_, fun op hop => ?_⟩
  · show (if i = slot then {} else w.batches i : Batch).ops = _
    rw [pending_commit]
    by_cases hi : i = slot
    · rw [if_pos hi, if_pos hi]
      rfl
    · rw [if_neg hi, if_neg hi, h.pending]
  · show w.store.commit (w.batches slot) =
      Store.commit {} ⟨(j.committed ++ j.pending slot).map IndexOp.write⟩
    unfold Store.commit
    rw [List.map_append, List.foldl_append, h.committed, h.pending]
    rfl
  · rw [pending_commit]
    by_cases hi : i = slot
    · rw [if_pos hi]
      exact fun hop => absurd hop List.not_mem_nil
    · rw [if_neg hi]
      exact h.pending_encodable i op
  · rcases List.mem_append.mp hop with hold | hnew
    · exact h.committed_encodable op hold
    · exact h.pending_encodable slot op hnew

/-- Every index call keeps workspace and journal in step. -/
theorem Describes.run (h : j.Describes w) {c : Command} (hc : c.isIndexCall) :
    (j.record c).Describes (w.run c).2 := by
  cases c with
  | append batch p e => exact h.stage (w.stages_append batch p e)
  | appendAll batch p entries => exact h.stage (w.stages_appendAll batch p entries)
  | appendScratch batch scratch p e => exact h.stage (w.stages_appendScratch batch scratch p e)
  | dispatch batch scratch r =>
    exact h.stage (w.stages_appendScratch batch scratch r.queue.partition r.entry)
  | deletePartition batch q => exact h.stage (w.stages_deletePartition batch q)
  | commit slot => exact h.commit slot
  | rebuild changes =>
    exact ⟨rfl, h.pending, h.committed, h.faults, h.pending_encodable, h.committed_encodable⟩
  | put => cases hc
  | deleteRange => cases hc
  | copy => cases hc
  | setFaults => cases hc
  | _ =>
    exact ⟨h.settings, h.pending, h.committed, h.faults, h.pending_encodable, h.committed_encodable⟩

/-- After any history of index calls, the workspace is as the journal has it. -/
theorem Describes.runAll (h : j.Describes w) {history : List Command}
    (hcalls : ∀ c ∈ history, c.isIndexCall) :
    (j.recordAll history).Describes (w.runAll history).2 := by
  induction history generalizing j w with
  | nil => exact h
  | cons c history ih =>
    obtain ⟨hc, hrest⟩ := List.forall_mem_cons.mp hcalls
    exact ih (h.run hc) hrest

/-! ## Staged and never committed -/

/-- Two journals that differ at most in what is pending in one slot. -/
structure AgreeOutside (slot : Nat) (j j' : Journal) : Prop where
  /-- The settings are the same. -/
  settings : j.settings = j'.settings
  /-- What is pending in any other slot is the same. -/
  pending : ∀ i ≠ slot, j.pending i = j'.pending i
  /-- What took effect is the same. -/
  committed : j.committed = j'.committed

theorem agreeOutside_stage (j : Journal) (slot : Nat) (ops : List IndexOp) :
    AgreeOutside slot (j.stage slot ops) j :=
  ⟨rfl, fun _ hi => if_neg hi, rfl⟩

theorem AgreeOutside.stage {slot : Nat} {j j' : Journal} (h : AgreeOutside slot j j') (i : Nat)
    (ops : List IndexOp) : AgreeOutside slot (j.stage i ops) (j'.stage i ops) where
  settings := h.settings
  pending k hk := by
    rw [pending_stage, pending_stage, h.pending k hk]
  committed := h.committed

/-- A commit of another slot moves the same operations. -/
theorem AgreeOutside.commit {slot i : Nat} {j j' : Journal} (h : AgreeOutside slot j j')
    (hi : i ≠ slot) : AgreeOutside slot (j.commit i) (j'.commit i) where
  settings := h.settings
  pending k hk := by
    rw [pending_commit, pending_commit, h.pending k hk]
  committed := by
    unfold Journal.commit
    rw [h.committed, h.pending i hi]

theorem AgreeOutside.record {slot : Nat} {j j' : Journal} (h : AgreeOutside slot j j') {c : Command}
    (hc : c ≠ .commit slot) : AgreeOutside slot (j.record c) (j'.record c) := by
  cases c with
  | append => exact h.stage _ _
  | appendAll => exact h.stage _ _
  | appendScratch => exact h.stage _ _
  | dispatch => exact h.stage _ _
  | deletePartition => exact h.stage _ _
  | commit i => exact h.commit fun hi => hc (congrArg Command.commit hi)
  | rebuild => exact ⟨rfl, h.pending, h.committed⟩
  | _ => exact h

/-- As long as a slot is not committed, what is pending there makes no difference. -/
theorem AgreeOutside.recordAll {slot : Nat} {j j' : Journal} (h : AgreeOutside slot j j')
    {history : List Command} (hc : Command.commit slot ∉ history) :
    AgreeOutside slot (j.recordAll history) (j'.recordAll history) := by
  induction history generalizing j j' with
  | nil => exact h
  | cons c history ih =>
    obtain ⟨hne, hrest⟩ := List.ne_and_not_mem_of_not_mem_cons hc
    exact ih (h.record hne.symm) hrest

/-- A call that stages changes nothing but what is pending in its slot. -/
theorem agreeOutside_of_staged {j : Journal} {c : Command} {slot : Nat} {ops : List IndexOp}
    (h : c.staged = some (slot, ops)) : AgreeOutside slot (j.record c) j := by
  cases c with
  | append => cases h; exact agreeOutside_stage j slot _
  | appendAll => cases h; exact agreeOutside_stage j slot _
  | appendScratch => cases h; exact agreeOutside_stage j slot _
  | dispatch => cases h; exact agreeOutside_stage j slot _
  | deletePartition => cases h; exact agreeOutside_stage j slot _
  | _ => cases h

/-- Of what was staged in a slot that is not committed afterwards, no read sees anything. -/
theorem Describes.answer_eq {j : Journal} {w w' : Workspace} {before later : List Command}
    {c r : Command} {slot : Nat} {ops : List IndexOp} (hc : c.staged = some (slot, ops))
    (hslot : Command.commit slot ∉ later)
    (h : (j.recordAll (before ++ c :: later)).Describes w)
    (h' : (j.recordAll (before ++ later)).Describes w') (hr : r.isRead) :
    (w.run r).1 = (w'.run r).1 := by
  have hagree : AgreeOutside slot (j.recordAll (before ++ c :: later)) (j.recordAll (before ++ later)) := by
    unfold Journal.recordAll
    rw [List.foldl_append, List.foldl_append]
    exact AgreeOutside.recordAll (agreeOutside_of_staged hc) hslot
  refine Workspace.answer_of_isRead hr ?_ ?_ (h.faults.trans h'.faults.symm)
  · rw [h.committed, h'.committed, hagree.committed]
  · rw [h.settings, h'.settings, hagree.settings]

end Journal

end MessageIndex
