import MessageIndex.Proofs.RangeByPoints

/-!
# Proofs: reading a queue in pages

A range read can be cut anywhere. What it gives is what a first read of its front gives, and, if that one
came through to its end, what a second read from there on adds; both fail with the same complaint. It
follows that a reader who goes on from behind each page, however many entries it asks for and however few
one read may give, ends with all entries that stand without a gap from its start on (`MaximalRun`).
-/

namespace MessageIndex

namespace Index

variable {ix : Index} {q : Queue} {n : Nat} {offset start : UInt64}

/-! ## Cutting the loop of point reads -/

/-- A turn of the loop fails, or ends it at a hole, or puts an entry in front of what is read from the next
offset on. How many turns are left has no part in this. -/
theorem readEach_turn (ix : Index) (q : Queue) (offset : UInt64) :
    (∃ cause, ∀ n, ix.readEach q (n + 1) offset = .error cause) ∨
    (ix.pointGet q offset = .ok none ∧ ∀ n, ix.readEach q (n + 1) offset = .ok []) ∨
    ∃ e, ix.pointGet q offset = .ok (some e) ∧ e.queueOffset = offset ∧
      ∀ n, ix.readEach q (n + 1) offset = (ix.readEach q n (offset + 1)).map (e :: ·) := by
  cases hpoint : ix.pointGet q offset with
  | error cause => exact .inl ⟨cause, fun _ => readEach_of_error hpoint⟩
  | ok found =>
    cases found with
    | none => exact .inr (.inl ⟨rfl, fun _ => readEach_of_hole hpoint⟩)
    | some e =>
      by_cases hoff : e.queueOffset = offset
      · exact .inr (.inr ⟨e, rfl, hoff, fun _ => readEach_of_entry hpoint hoff⟩)
      · exact .inl ⟨_, fun _ => readEach_of_misplaced hpoint hoff⟩

/-- What the loop goes on with behind the entries of its first `m` turns: with the next offset, unless
there are fewer entries than turns. -/
def readOn (ix : Index) (q : Queue) (m n : Nat) (offset : UInt64) (page : List Entry) :
    Except IndexError (List Entry) :=
  if page.length = m then (ix.readEach q n (offset + UInt64.ofNat m)).map (page ++ ·) else .ok page

theorem readOn_cons (e : Entry) (page : List Entry) (m n : Nat) (offset : UInt64) :
    ix.readOn q (m + 1) n offset (e :: page) = (ix.readOn q m n (offset + 1) page).map (e :: ·) := by
  have hlength : (e :: page).length = m + 1 ↔ page.length = m := Nat.add_right_cancel_iff
  unfold readOn
  by_cases hlen : page.length = m
  · rw [if_pos hlen, if_pos (hlength.mpr hlen), add_ofNat_succ]
    cases ix.readEach q n (offset + 1 + UInt64.ofNat m) with
    | error cause => rfl
    | ok rest => rfl
  · rw [if_neg hlen, if_neg fun hc => hlen (hlength.mp hc)]
    rfl

/-- The loop can be cut after any turn. -/
theorem readEach_add (m n : Nat) (offset : UInt64) :
    ix.readEach q (m + n) offset = (ix.readEach q m offset).bind (ix.readOn q m n offset) := by
  induction m generalizing offset with
  | zero =>
    rw [Nat.zero_add]
    show _ = (ix.readEach q n (offset + UInt64.ofNat 0)).map ([] ++ ·)
    rw [add_ofNat_zero]
    cases ix.readEach q n offset with
    | error cause => rfl
    | ok page => rfl
  | succ m ih =>
    rw [Nat.succ_add]
    obtain ⟨cause, hturn⟩ | ⟨-, hturn⟩ | ⟨e, -, -, hturn⟩ := readEach_turn ix q offset
    · rw [hturn, hturn]
      rfl
    · rw [hturn, hturn]
      exact (if_neg (Nat.succ_ne_zero m).symm : ix.readOn q (m + 1) n offset [] = _).symm
    · rw [hturn, hturn, ih]
      cases ix.readEach q m (offset + 1) with
      | error cause => rfl
      | ok page => exact (readOn_cons e page m n offset).symm

/-- Behind a part of the loop that has used all its turns, it goes on at the next offset. -/
theorem readEach_add_of_full {m : Nat} {page : List Entry} (h : ix.readEach q m offset = .ok page)
    (hlen : page.length = m) (n : Nat) :
    ix.readEach q (m + n) offset =
      (ix.readEach q n (offset + UInt64.ofNat m)).map (page ++ ·) := by
  rw [readEach_add, h]
  exact if_pos hlen

/-- A part of the loop that has not used all its turns is all of it. -/
theorem readEach_add_of_short {m : Nat} {page : List Entry} (h : ix.readEach q m offset = .ok page)
    (hlen : page.length ≠ m) (n : Nat) : ix.readEach q (m + n) offset = .ok page := by
  rw [readEach_add, h]
  exact if_neg hlen

/-- What the loop gives are the entries that point reads find, up to a hole if it has ended early. -/
theorem readEach_eq_ok {run : List Entry} (h : ix.readEach q n offset = .ok run) :
    run.length ≤ n ∧
    (∀ i (hi : i < run.length), ix.pointGet q (offset + UInt64.ofNat i) = .ok (some run[i])) ∧
    (run.length < n → ix.pointGet q (offset + UInt64.ofNat run.length) = .ok none) := by
  induction n generalizing offset run with
  | zero =>
    obtain rfl := Except.ok.inj h
    exact ⟨Nat.le_refl 0, nofun, nofun⟩
  | succ n ih =>
    obtain ⟨cause, hturn⟩ | ⟨hpoint, hturn⟩ | ⟨e, hpoint, -, hturn⟩ := readEach_turn ix q offset
    · rw [hturn] at h
      cases h
    · rw [hturn] at h
      obtain rfl := Except.ok.inj h
      refine ⟨Nat.zero_le _, nofun, fun _ => ?_⟩
      rw [List.length_nil, add_ofNat_zero, hpoint]
    · rw [hturn] at h
      cases hrest : ix.readEach q n (offset + 1) with
      | error cause =>
        rw [hrest] at h
        cases h
      | ok rest =>
        rw [hrest] at h
        obtain rfl := Except.ok.inj h
        obtain ⟨hlen, hentries, hend⟩ := ih hrest
        refine ⟨Nat.succ_le_succ hlen, fun i hi => ?_, fun hlt => ?_⟩
        · cases i with
          | zero => rw [add_ofNat_zero, hpoint, List.getElem_cons_zero]
          | succ i =>
            rw [add_ofNat_succ]
            exact hentries i (Nat.lt_of_succ_lt_succ hi)
        · rw [List.length_cons, add_ofNat_succ]
          exact hend (Nat.lt_of_succ_lt_succ hlt)

/-! ## Page after page -/

/-- Reads page after page, each from behind the one before, up to a page without entries or the end of the
offsets. `ask` says how many entries are asked for at an offset. -/
def readPages (ix : Index) (q : Queue) (ask : UInt64 → UInt64) (start : UInt64) :
    Except IndexError (List Entry) :=
  match (ix.rangeGet q start (ask start)).result with
  | .error cause => .error cause
  | .ok page =>
    if _ : 0 < page.length ∧ start.toNat + page.length < UInt64.size then
      (ix.readPages q ask (start + UInt64.ofNat page.length)).map (page ++ ·)
    else .ok page
termination_by UInt64.size - start.toNat
decreasing_by
  rename_i h
  rw [toNat_add_ofNat h.2]
  omega

/-- A run of entries without a gap, as long as it can be: the offset behind it is a hole, unless the
offsets end there. -/
structure MaximalRun (ix : Index) (q : Queue) (start : UInt64) (run : List Entry) : Prop where
  /-- Each entry of the run is read at its offset. -/
  entry : ∀ i (hi : i < run.length), ix.pointGet q (start + UInt64.ofNat i) = .ok (some run[i])
  /-- The run does not go past the last offset. -/
  le : start.toNat + run.length ≤ UInt64.size
  /-- Nothing is read at the offset behind the run, if there is one. -/
  hole : start.toNat + run.length < UInt64.size →
    ix.pointGet q (start + UInt64.ofNat run.length) = .ok none

theorem MaximalRun.unique {run run' : List Entry} (h : ix.MaximalRun q start run)
    (h' : ix.MaximalRun q start run') : run = run' := by
  -- Where one run ends, the other one has no entry.
  have hle {run run' : List Entry} (h : ix.MaximalRun q start run) (h' : ix.MaximalRun q start run') :
      run'.length ≤ run.length := by
    refine Nat.le_of_not_lt fun hlt => ?_
    have hentry := h'.entry run.length hlt
    rw [h.hole (Nat.lt_of_lt_of_le (Nat.add_lt_add_left hlt _) h'.le)] at hentry
    cases hentry
  refine List.ext_getElem (Nat.le_antisymm (hle h' h) (hle h h')) fun i hi hi' => ?_
  have hentry := h.entry i hi
  rw [h'.entry i hi'] at hentry
  exact (Option.some.inj (Except.ok.inj hentry)).symm

/-- No offset of a queue from `start` on holds anything but its own entry. -/
def Uncorrupted (ix : Index) (q : Queue) (start : UInt64) : Prop :=
  ∀ offset, start ≤ offset → ∃ found, ix.pointGet q offset = .ok found ∧
    ∀ e, found = some e → e.queueOffset = offset

section Store

variable {settings : Settings} {s : Store} {ask : UInt64 → UInt64}

theorem page_eq_readEach (settings : Settings) (s : Store) (q : Queue) (start count : UInt64) :
    ∃ n m, n + m = UInt64.size - start.toNat ∧ (0 < count → 0 < settings.maxRangeCount → 0 < n) ∧
      (rangeGet ⟨settings, s.view⟩ q start count).result = readEach ⟨settings, s.view⟩ q n start := by
  have hstart : start.toNat < UInt64.size := start.toNat_lt_size
  refine ⟨_, UInt64.size - start.toNat - min (min count.toNat settings.maxRangeCount.toNat)
    (UInt64.size - start.toNat), by omega, fun hcount hmax => ?_, rangeGet_eq_readEach settings s q start count⟩
  have hcount : 0 < count.toNat := UInt64.lt_iff_toNat_lt.mp hcount
  have hmax : 0 < settings.maxRangeCount.toNat := UInt64.lt_iff_toNat_lt.mp hmax
  omega

/-- Page after page, a queue is read as by one loop over all offsets there are. -/
theorem readPages_eq_readEach (hmax : 0 < settings.maxRangeCount) (hask : ∀ offset, 0 < ask offset)
    (start : UInt64) :
    readPages ⟨settings, s.view⟩ q ask start =
      readEach ⟨settings, s.view⟩ q (UInt64.size - start.toNat) start := by
  fun_induction readPages ⟨settings, s.view⟩ q ask start with
  | case1 start cause hpage =>
    obtain ⟨n, m, hall, -, hread⟩ := page_eq_readEach settings s q start (ask start)
    rw [← hall, readEach_add, ← hread, hpage]
    rfl
  | case2 start page hpage hmore ih =>
    obtain ⟨n, m, hall, -, hread⟩ := page_eq_readEach settings s q start (ask start)
    rw [hread] at hpage
    have hnext : (start + UInt64.ofNat page.length).toNat = start.toNat + page.length :=
      toNat_add_ofNat hmore.2
    rw [ih, hnext, ← hall]
    by_cases hlen : page.length = n
    · have hrest : UInt64.size - (start.toNat + page.length) = m := by omega
      rw [readEach_add_of_full hpage hlen, hrest, hlen]
    · -- A page that ends early ends at a hole, and so does the next one.
      obtain ⟨hle, -, hhole⟩ := readEach_eq_ok hpage
      obtain ⟨k, hk⟩ : ∃ k, UInt64.size - (start.toNat + page.length) = k + 1 :=
        Nat.exists_eq_add_one.mpr (Nat.sub_pos_of_lt hmore.2)
      rw [hk, readEach_of_hole (hhole (Nat.lt_of_le_of_ne hle hlen)), readEach_add_of_short hpage hlen]
      show Except.ok (page ++ []) = _
      rw [List.append_nil]
  | case3 start page hpage hlast =>
    obtain ⟨n, m, hall, hpos, hread⟩ := page_eq_readEach settings s q start (ask start)
    rw [hread] at hpage
    rw [← hall]
    by_cases hlen : page.length = n
    · have hrest : m = 0 := by
        have := hpos (hask start) hmax
        omega
      rw [hrest, readEach_add_of_full hpage hlen]
      show _ = Except.ok (page ++ [])
      rw [List.append_nil]
    · rw [readEach_add_of_short hpage hlen]

theorem Uncorrupted.exists_readEach (h : ix.Uncorrupted q start) (hle : start ≤ offset)
    (hroom : offset.toNat + n ≤ UInt64.size) : ∃ run, ix.readEach q n offset = .ok run := by
  induction n generalizing offset with
  | zero => exact ⟨[], rfl⟩
  | succ n ih =>
    obtain ⟨found, hpoint, hplaced⟩ := h offset hle
    cases found with
    | none => exact ⟨[], readEach_of_hole hpoint⟩
    | some e =>
      rw [readEach_of_entry hpoint (hplaced e rfl)]
      cases n with
      | zero => exact ⟨[e], rfl⟩
      | succ n =>
        have hnext : (offset + 1).toNat = offset.toNat + 1 := toNat_succ hroom (Nat.succ_pos n)
        have hle' : start ≤ offset + 1 := by
          rw [UInt64.le_iff_toNat_le] at hle ⊢
          omega
        obtain ⟨run, hrun⟩ := ih hle' (by omega)
        exact ⟨e :: run, by rw [hrun]; rfl⟩

/-- Where nothing is corrupted, the pages give the maximal run. -/
theorem Uncorrupted.readPages (h : Uncorrupted ⟨settings, s.view⟩ q start)
    (hmax : 0 < settings.maxRangeCount) (hask : ∀ offset, 0 < ask offset) :
    ∃ run, readPages ⟨settings, s.view⟩ q ask start = .ok run ∧
      MaximalRun ⟨settings, s.view⟩ q start run := by
  have hstart : start.toNat < UInt64.size := start.toNat_lt_size
  obtain ⟨run, hrun⟩ := h.exists_readEach (n := UInt64.size - start.toNat) (UInt64.le_refl start) (by omega)
  obtain ⟨hlen, hentries, hhole⟩ := readEach_eq_ok hrun
  refine ⟨run, (readPages_eq_readEach hmax hask start).trans hrun, hentries, by omega, fun hlt => ?_⟩
  exact hhole (by omega)

end Store

theorem uncorrupted_commit (settings : Settings) {ops : List IndexOp}
    (hops : ∀ op ∈ ops, op.partition.Encodable) (hq : q.partition.Encodable) (start : UInt64) :
    Uncorrupted ⟨settings, (Store.commit {} ⟨ops.map IndexOp.write⟩).view⟩ q start := by
  intro offset _
  have hk : (q.key offset).partition.Encodable := hq
  refine ⟨_, pointGet_of_get hq (Store.get_commit hk hops), fun e he => ?_⟩
  obtain ⟨-, -, -, hoff, -⟩ := IndexOp.lookup_eq_some_iff.mp he
  exact hoff

/-- A range read asks for no more than the settings allow, so a longer request makes no difference. -/
theorem rangeGet_min (ix : Index) (q : Queue) (start count : UInt64) :
    ix.rangeGet q start (min count ix.settings.maxRangeCount) = ix.rangeGet q start count := by
  have hlength : ix.rangeLength start (min count ix.settings.maxRangeCount) =
      ix.rangeLength start count := by
    rw [rangeLength_eq, rangeLength_eq, toNat_min]
    omega
  unfold rangeGet
  rw [hlength]

/-- A read that asks for no more than is allowed is cut by the end of the offsets only. -/
theorem rangeGet_of_le {settings : Settings} {s : Store} {count : UInt64}
    (h : count.toNat ≤ settings.maxRangeCount.toNat) (start : UInt64) :
    (rangeGet ⟨settings, s.view⟩ q start count).result =
      readEach ⟨settings, s.view⟩ q (min count.toNat (UInt64.size - start.toNat)) start := by
  rw [rangeGet_eq_readEach, Nat.min_eq_left h]

/-- Reading a queue in pages loses and repeats nothing, whatever the store holds.
A read that fails, or gives fewer entries than it was asked for, decides what a longer read from the same
offset gives. One that gives all of them is the front of the longer read, and what follows is what a read
from behind it gives, or the complaint with which that one fails, or nothing if the offsets end there.
A request beyond what is allowed is read as one for what is allowed.
On a queue that is not corrupted, a reader who goes on from behind each page ends with the maximal run. -/
theorem rangeGet_in_pages (settings : Settings) (s : Store) (q : Queue) :
    let ix : Index := ⟨settings, s.view⟩
    (∀ start m n : UInt64, m.toNat + n.toNat ≤ settings.maxRangeCount.toNat →
      (∀ cause, (ix.rangeGet q start m).result = .error cause →
        (ix.rangeGet q start (m + n)).result = .error cause) ∧
      ∀ page, (ix.rangeGet q start m).result = .ok page →
        page.length ≤ m.toNat ∧
        (page.length < m.toNat → (ix.rangeGet q start (m + n)).result = .ok page) ∧
        (page.length = m.toNat → start.toNat + m.toNat < UInt64.size →
          (ix.rangeGet q start (m + n)).result =
            (ix.rangeGet q (start + m) n).result.map (page ++ ·)) ∧
        (page.length = m.toNat → UInt64.size ≤ start.toNat + m.toNat →
          (ix.rangeGet q start (m + n)).result = .ok page)) ∧
    (∀ start count : UInt64,
      ix.rangeGet q start count = ix.rangeGet q start (min count settings.maxRangeCount)) ∧
    ∀ (ask : UInt64 → UInt64) (start : UInt64), 0 < settings.maxRangeCount →
      (∀ offset, 0 < ask offset) → ix.Uncorrupted q start →
      ∃ run, ix.readPages q ask start = .ok run ∧ ix.MaximalRun q start run := by
  intro ix
  refine ⟨fun start m n hmax => ?_, fun start count => (ix.rangeGet_min q start count).symm,
    fun ask start hmax hask h => h.readPages hmax hask⟩
  have hmn : (m + n).toNat = m.toNat + n.toNat := by
    rw [UInt64.toNat_add]
    exact Nat.mod_eq_of_lt (Nat.lt_of_le_of_lt hmax settings.maxRangeCount.toNat_lt_size)
  have hm : (ix.rangeGet q start m).result = _ := rangeGet_of_le (Nat.le_of_add_right_le hmax) start
  have hn (start : UInt64) : (ix.rangeGet q start n).result = _ :=
    rangeGet_of_le (Nat.le_trans (Nat.le_add_left _ _) hmax) start
  have hboth : (ix.rangeGet q start (m + n)).result = _ := rangeGet_of_le (hmn ▸ hmax) start
  rw [hmn] at hboth
  obtain ⟨k, hk⟩ : ∃ k, min (m.toNat + n.toNat) (UInt64.size - start.toNat) =
      min m.toNat (UInt64.size - start.toNat) + k := Nat.exists_eq_add_of_le (by omega)
  refine ⟨fun cause hpage => ?_, fun page hpage => ?_⟩
  · rw [hm] at hpage
    rw [hboth, hk, readEach_add, hpage]
    rfl
  · rw [hm] at hpage
    obtain ⟨hle, -, -⟩ := readEach_eq_ok hpage
    -- Where the first read ends at the end of the offsets, the second one has nothing to add.
    have hend (h : k = 0) : (ix.rangeGet q start (m + n)).result = .ok page := by
      rw [hboth, hk, h]
      exact hpage
    refine ⟨by omega, fun hshort => ?_, fun hfull hfits => ?_, fun hfull hpast => hend (by omega)⟩
    · by_cases hlen : page.length = min m.toNat (UInt64.size - start.toNat)
      · exact hend (by omega)
      · rw [hboth, hk, readEach_add_of_short hpage hlen]
    · have hnext : (start + m).toNat = start.toNat + m.toNat := by
        rw [UInt64.toNat_add]
        exact Nat.mod_eq_of_lt hfits
      have hlen : min m.toNat (UInt64.size - start.toNat) = m.toNat := by omega
      have hrest : k = min n.toNat (UInt64.size - (start + m).toNat) := by omega
      rw [hlen] at hpage hk
      rw [hboth, hk, readEach_add_of_full hpage hfull, UInt64.ofNat_toNat, hn, hrest]

/-- Four entries are written, with a hole before the last of them, and a page holds two. -/
theorem rangeGet_in_pages_up_to_a_hole :
    let q : Queue := ⟨"t", -1⟩
    let e (offset : UInt64) : Entry := ⟨offset * 100, 100, 0, 0, offset⟩
    let ops : List IndexOp := [6, 5, 7, 9].map fun offset => .append q.partition (e offset)
    let ix : Index := ⟨{ maxRangeCount := 2 }, (Store.commit {} ⟨ops.map IndexOp.write⟩).view⟩
    ix.Uncorrupted q 5 ∧ (ix.rangeGet q 5 1).result = .ok [e 5] ∧
      (ix.rangeGet q 5 2).result = (ix.rangeGet q 6 1).result.map ([e 5] ++ ·) ∧
      ix.readPages q (fun _ => 10) 5 = .ok [e 5, e 6, e 7] := by
  intro q e ops ix
  have hq : q.partition.Encodable := by decide
  have hops : ∀ op ∈ ops, op.partition.Encodable := by decide
  have hpoint (offset : UInt64) : ix.pointGet q offset = .ok (IndexOp.lookup ops (q.key offset)) :=
    pointGet_of_get hq (Store.get_commit hq hops)
  have hfive : ix.pointGet q 5 = .ok (some (e 5)) := (hpoint 5).trans (congrArg Except.ok (by decide))
  have hclean : ix.Uncorrupted q 5 := uncorrupted_commit _ hops hq 5
  have hpage : (ix.rangeGet q 5 1).result = .ok [e 5] := by
    have hread : (ix.rangeGet q 5 1).result = ix.readEach q 1 5 := rangeGet_eq_readEach _ _ q 5 1
    rw [hread, readEach_of_entry hfive rfl]
    rfl
  have hrun : ix.MaximalRun q 5 [e 5, e 6, e 7] := by
    refine ⟨fun i hi => (hpoint _).trans (congrArg Except.ok ?_), by decide, fun _ =>
      (hpoint _).trans (congrArg Except.ok (by decide))⟩
    rw [← List.getElem?_eq_getElem hi]
    match i, hi with
    | 0, _ => decide
    | 1, _ => decide
    | 2, _ => decide
  obtain ⟨hcut, -, hpages⟩ := rangeGet_in_pages { maxRangeCount := 2 } (Store.commit {} ⟨ops.map IndexOp.write⟩) q
  obtain ⟨-, hpage'⟩ := hcut 5 1 1 (by decide)
  obtain ⟨-, -, hnext, -⟩ := hpage' [e 5] hpage
  obtain ⟨run, hread, hmaximal⟩ := hpages (fun _ => 10) 5 (by decide) (fun _ => by decide) hclean
  obtain rfl := hmaximal.unique hrun
  exact ⟨hclean, hpage, hnext rfl (by decide), hread⟩

end Index

end MessageIndex
