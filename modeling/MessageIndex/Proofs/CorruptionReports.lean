import MessageIndex.Proofs.RangeRead
import MessageIndex.Proofs.StoredSearch
import MessageIndex.Workspace

/-!
# Proofs: what a read reports as an error

A read of an index reports an error exactly when it fails on the entry of another offset
(`error_reports`). That is one of the two failures that mean damaged data: a value of the wrong
length is answered as such and reported by none of the reads.
-/

namespace MessageIndex

open Bytes

namespace IndexError

/-- What is reported of a failure: the entry of another offset, and nothing else. -/
def report : IndexError → List Event
  | corruptedIndex q expected found => [.entryMisplaced q expected found]
  | _ => []

end IndexError

namespace Reply

variable {α β : Type} {r : Reply α}

/-- The errors among what is reported. -/
def errors (r : Reply α) : List Event := r.events.filter fun event => event.level = .error

/-- A reply reports the errors that go with its result, and no others. -/
def Accounts (r : Reply α) : Prop :=
  r.errors =
    match r.result with
    | .ok _ => []
    | .error cause => cause.report

/-- A reply reports one error if its result says that data is damaged, and none otherwise. -/
def ReportsCorruption (r : Reply α) : Prop :=
  r.errors.length =
    match r.result with
    | .ok _ => 0
    | .error cause => if cause.isCorruption then 1 else 0

theorem accounts_of_no_errors (hnone : r.errors = [])
    (h : ∀ cause, r.result = .error cause → cause.report = []) : r.Accounts := by
  unfold Accounts
  rw [hnone]
  cases hr : r.result with
  | ok a => rfl
  | error cause => exact (h cause hr).symm

theorem Accounts.map (h : r.Accounts) (f : α → β) :
    (⟨r.result.map f, r.events⟩ : Reply β).Accounts := by
  obtain ⟨result, events⟩ := r
  cases result <;> exact h

theorem Accounts.reportsCorruption_iff (h : r.Accounts) :
    r.ReportsCorruption ↔ ∀ length, r.result ≠ .error (.malformedEntry length) := by
  unfold ReportsCorruption
  rw [h]
  cases r.result with
  | ok a => exact iff_of_true rfl fun _ => nofun
  | error cause =>
    cases cause with
    | malformedEntry length => exact iff_of_false Nat.zero_ne_one fun hne => hne length rfl
    | _ => exact iff_of_true rfl fun _ => nofun

end Reply

/-! ## Failures of the store -/

/-- A view whose failures are not reported: it does not fail on the entry of another offset. -/
structure StoreView.FailsUnreported (view : StoreView) : Prop where
  /-- A failed read of one key is not reported. -/
  get : ∀ key cause, view.get key = .error cause → cause.report = []
  /-- A failed read of several keys is not reported. -/
  multiGet : ∀ keys cause, view.multiGet keys = .error cause → cause.report = []

theorem Faults.report_of_check {α : Type} {op : String} {fault : Option String} (a : α)
    {cause : IndexError} (h : (check op fault >>= fun _ => Except.ok a) = .error cause) :
    cause.report = [] := by
  cases fault with
  | none => cases h
  | some source =>
    cases h
    rfl

/-- A store fails with what its faults say, if at all. -/
theorem Workspace.failsUnreported_view (w : Workspace) : w.view.FailsUnreported where
  get key _ h := Faults.report_of_check (w.store.get key) h
  multiGet keys _ h := by
    let slots := keys.map w.store.get
    exact Faults.report_of_check
      (slots.take (slots.length - w.faults.drop) ++ List.replicate w.faults.pad none) h

/-! ## The reads -/

namespace Search

theorem exists_probe_of_error {ε : Type} {rule : Rule} {probe : Probe ε} {low high : UInt64}
    {found : Option Found} {cause : ε} (h : (bisect rule probe low high found).result = .error cause) :
    ∃ offset, probe offset = .error cause := by
  fun_induction bisect rule probe low high found with
  | case1 low high found hle mid cause' hprobe =>
    cases h
    exact ⟨mid, hprobe⟩
  | case2 low high found hle mid answer hprobe found' hend => cases h
  | case3 low high found hle mid answer hprobe found' low' high' hnext rest ih => exact ih h
  | case4 low high found hempty => cases h

end Search

namespace Index

variable {ix : Index} {q : Queue}

theorem scan_accounts (q : Queue) (start base : UInt64) (slots : List (Option Bytes)) :
    (scan q start base slots).Accounts := by
  induction slots generalizing base with
  | nil => rfl
  | cons slot slots ih =>
    cases slot with
    | none =>
      rw [scan_hole]
      rfl
    | some value =>
      by_cases hlen : value.length = 36
      · obtain ⟨e, hdec⟩ := Entry.decode_of_length hlen
        by_cases hoff : e.queueOffset = base
        · rw [scan_holds q start base slots hdec hoff]
          exact (ih (base + 1)).map (e :: ·)
        · rw [scan_misplaced q start base slots hdec hoff]
          rfl
      · rw [scan_malformed q start base slots hlen]
        rfl

theorem rangeGet_accounts (hview : ix.view.FailsUnreported) (start count : UInt64) :
    (ix.rangeGet q start count).Accounts := by
  by_cases hn : ix.rangeLength start count = 0
  · rw [rangeGet_of_nothing_asked q hn]
    rfl
  by_cases hq : q.partition.Encodable
  · rw [rangeGet_of_encodable hn hq]
    cases hget : ix.view.multiGet (ix.askedKeys q start count) with
    | error cause => exact (hview.multiGet _ _ hget).symm
    | ok slots =>
      by_cases hlen : slots.length ≠ ix.rangeLength start count
      · simp only [if_pos hlen]
        rfl
      · simp only [if_neg hlen]
        exact scan_accounts q start start slots
  · rw [rangeGet_of_not_encodable hn hq]
    rfl

theorem report_of_stored (hview : ix.view.FailsUnreported) {offset : UInt64} {cause : IndexError}
    (h : ix.stored q offset = .error cause) : cause.report = [] := by
  unfold stored at h
  by_cases hq : q.partition.Encodable
  · have hkey : (q.key offset).encode = .ok _ := Key.encode_of_encodable hq
    rw [hkey] at h
    exact hview.get _ _ h
  · have hkey : (q.key offset).encode = .error _ := Key.encode_of_not_encodable hq
    rw [hkey] at h
    cases h
    rfl

/-- A point read fails with the store, or on a value of the wrong length. -/
theorem report_of_pointGet (hview : ix.view.FailsUnreported) {offset : UInt64} {cause : IndexError}
    (h : ix.pointGet q offset = .error cause) : cause.report = [] := by
  have hread : ix.pointGet q offset = ix.stored q offset >>= fun value => value.mapM Entry.decode :=
    pointGet_eq ix q offset
  rw [hread] at h
  cases hstored : ix.stored q offset with
  | error cause' =>
    rw [hstored] at h
    cases h
    exact report_of_stored hview hstored
  | ok value =>
    rw [hstored] at h
    cases value with
    | none => cases h
    | some bytes =>
      have hdec : some <$> Entry.decode bytes = .error cause := h
      by_cases hlen : bytes.length = 36
      · obtain ⟨e, he⟩ := Entry.decode_of_length hlen
        rw [he] at hdec
        cases hdec
      · rw [Entry.decode_of_length_ne hlen] at hdec
        cases hdec
        rfl

theorem search_accounts (hview : ix.view.FailsUnreported) (mode : Search.Mode)
    (target low high : UInt64) : (ix.search q mode target low high).Accounts := by
  refine Reply.accounts_of_no_errors ?_ fun cause h => ?_
  -- What a search reports are its probes, as warnings; what it fails with is a point read's failure.
  · unfold Reply.errors
    rw [search_events]
    by_cases hlog : ix.settings.enableSearchLog
    · rw [if_pos hlog, List.filter_eq_nil_iff]
      intro event hevent
      obtain ⟨offset, -, hread⟩ := List.mem_filterMap.mp hevent
      unfold readEvent at hread
      cases hstored : ix.stored q offset with
      | error cause => rw [hstored] at hread; cases hread
      | ok value =>
        rw [hstored] at hread
        cases hread
        exact fun hlevel => nomatch of_decide_eq_true hlevel
    · rw [if_neg hlog]
      rfl
  · rw [search_result] at h
    obtain ⟨offset, hprobe⟩ := Search.exists_probe_of_error h
    unfold positions at hprobe
    cases hpoint : ix.pointGet q offset with
    | error cause' =>
      rw [hpoint] at hprobe
      cases hprobe
      exact report_of_pointGet hview hpoint
    | ok found => rw [hpoint] at hprobe; cases hprobe

end Index

namespace Workspace

/-- Every read reports the errors that go with its result, whatever the store holds and however it
fails. -/
theorem run_accounts (w : Workspace) {c : Command} (hc : c.isRead) : (w.run c).1.Accounts := by
  have hview : w.index.view.FailsUnreported := w.failsUnreported_view
  cases c with
  | pointGet q offset =>
    have h : (⟨w.index.pointGet q offset, []⟩ : Reply _).Accounts :=
      Reply.accounts_of_no_errors rfl fun _ => Index.report_of_pointGet hview
    exact h.map Answer.entry
  | rangeGet q start count => exact (Index.rangeGet_accounts hview start count).map Answer.entries
  | search q mode target low high =>
    exact (Index.search_accounts hview mode target low high).map Answer.found
  | get key =>
    have h : (⟨w.view.get key, []⟩ : Reply _).Accounts :=
      Reply.accounts_of_no_errors rfl (hview.get key)
    exact h.map Answer.value
  | multiGet keys =>
    have h : (⟨w.view.multiGet keys, []⟩ : Reply _).Accounts :=
      Reply.accounts_of_no_errors rfl (hview.multiGet keys)
    exact h.map Answer.values
  | keys => rfl
  | size => rfl
  | _ => cases hc

theorem index_of_store (s : Store) : ({ store := s } : Workspace).index = ⟨{}, s.view⟩ :=
  congrArg (Index.mk {}) (Faults.bend_none s.view)

/-- Whatever the store holds and however it fails, a read reports one error if it fails on the entry of
another offset, and none otherwise. So damage is reported exactly when it is not a value of the wrong
length. -/
theorem error_reports (w : Workspace) {c : Command} (hc : c.isRead) :
    let reply := (w.run c).1
    reply.Accounts ∧
      (reply.ReportsCorruption ↔ ∀ length, reply.result ≠ .error (.malformedEntry length)) :=
  ⟨w.run_accounts hc, (w.run_accounts hc).reportsCorruption_iff⟩

/-- The entry of the next offset is reported, once. -/
theorem error_reports_of_misplaced_entry :
    let q : Queue := ⟨"t", -1⟩
    let e : Entry := ⟨0, 100, 0, 0, 8⟩
    let w : Workspace := { store := Store.put {} (q.key 7).bytes e.encode }
    let c : Command := .rangeGet q 7 1
    c.isRead ∧ (w.run c).1.result = .error (.corruptedIndex q 7 8) ∧
      (w.run c).1.errors = [.entryMisplaced q 7 8] ∧ (w.run c).1.ReportsCorruption := by
  intro q e w c
  have hq : q.partition.Encodable := by decide
  have hindex : w.index = ⟨{}, w.store.view⟩ := index_of_store w.store
  have hslots : w.store.slotsFrom q 7 1 = [some e.encode] := by
    show [w.store.get (q.key 7).bytes] = _
    rw [Store.get_put, if_pos rfl]
  have hread : w.index.rangeGet q 7 1 =
      ⟨.error (.corruptedIndex q 7 8), [.entryMisplaced q 7 8]⟩ := by
    rw [hindex, Index.rangeGet_store hq]
    show Index.scan q 7 7 (w.store.slotsFrom q 7 1) = _
    rw [hslots, Index.scan_misplaced q 7 7 [] e.decode_encode (by decide)]
  have hresult : (w.run c).1.result = .error (.corruptedIndex q 7 8) := by
    show (w.index.rangeGet q 7 1).result.map Answer.entries = _
    rw [hread]
    rfl
  obtain ⟨haccounts, hreports⟩ := w.error_reports (c := c) rfl
  refine ⟨rfl, hresult, ?_, hreports.mpr fun length h => ?_⟩
  · rw [haccounts, hresult]
    rfl
  · rw [hresult] at h
    cases h

/-- Every read of an index fails on a value of one byte, which is damage, and none reports an error. -/
theorem short_value_not_reported :
    let q : Queue := ⟨"t", -1⟩
    let w : Workspace := { store := Store.put {} (q.key 7).bytes [255] }
    ∀ c ∈ [Command.pointGet q 7, .rangeGet q 7 1, .search q .leftmost 0 7 7],
      (w.run c).1.result = .error (.malformedEntry 1) ∧ (IndexError.malformedEntry 1).isCorruption ∧
        (w.run c).1.errors = [] := by
  intro q w
  have hq : q.partition.Encodable := by decide
  have hindex : w.index = ⟨{}, w.store.view⟩ := index_of_store w.store
  have hvalue : w.store.get (q.key 7).bytes = some [255] := by
    rw [Store.get_put, if_pos rfl]
  have hpoint : w.index.pointGet q 7 = .error (.malformedEntry 1) := by
    rw [hindex, Index.pointGet_store hq]
    show (w.store.get (q.key 7).bytes).mapM Entry.decode = _
    rw [hvalue]
    rfl
  have hrange : (w.index.rangeGet q 7 1).result = .error (.malformedEntry 1) := by
    have hslots : w.store.slotsFrom q 7 1 = [some [255]] := congrArg (fun slot => [slot]) hvalue
    rw [hindex, Index.rangeGet_store hq]
    show (Index.scan q 7 7 (w.store.slotsFrom q 7 1)).result = _
    rw [hslots, Index.scan_malformed q 7 7 [] (by decide)]
    rfl
  have hsearch : (w.index.search q .leftmost 0 7 7).result = .error (.malformedEntry 1) := by
    have hprobe : w.index.positions q (Search.midpoint 7 7) = .error (.malformedEntry 1) := by
      show (w.index.pointGet q 7).map _ = _
      rw [hpoint]
      rfl
    rw [Index.search_result]
    exact congrArg Search.Run.result (Search.bisect_of_error (by decide) hprobe)
  have hfails : ∀ c ∈ [Command.pointGet q 7, .rangeGet q 7 1, .search q .leftmost 0 7 7],
      c.isRead ∧ (w.run c).1.result = .error (.malformedEntry 1) := by
    refine List.forall_mem_cons.mpr ⟨⟨rfl, ?_⟩, List.forall_mem_cons.mpr ⟨⟨rfl, ?_⟩,
      List.forall_mem_cons.mpr ⟨⟨rfl, ?_⟩, nofun⟩⟩⟩
    · exact congrArg (Except.map Answer.entry) hpoint
    · exact congrArg (Except.map Answer.entries) hrange
    · exact congrArg (Except.map Answer.found) hsearch
  intro c hc
  obtain ⟨hread, hresult⟩ := hfails c hc
  have haccounts := w.run_accounts hread
  refine ⟨hresult, rfl, ?_⟩
  rw [haccounts, hresult]
  rfl

end Workspace

end MessageIndex
