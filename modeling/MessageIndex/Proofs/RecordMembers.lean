import MessageIndex.Proofs.FaithfulReaders
import MessageIndex.Proofs.WrittenRecords

/-!
# Proofs: objects as their members

A document with an object is laid out as members with blanks, names and values of the grammar
(`Document`). A record is read from it just if each member has a name, each member with the name of a field
has a value that is read for it, and no two members have the name of the same field; the record is then
what these values make of it, one after the other (`Document.read_iff`). Every object that a record is read
from is laid out so (`Document.exists_of_read`).
-/

namespace MessageIndex.Json

/-! ## Layout -/

/-- A member of an object. -/
structure Member where
  /-- The blanks in front of its name. -/
  before : List Char
  /-- What stands between the quotes of its name. -/
  key : List Char
  /-- The blanks between its name and the colon. -/
  between : List Char
  /-- Its value, with the blanks in front of it. -/
  value : List Char
  /-- The blanks behind its value. -/
  after : List Char
  /-- Only blanks are in front of the name. -/
  blank_before : Blank before
  /-- The name is a text. -/
  inside_key : Inside key
  /-- Only blanks are in front of the colon. -/
  blank_between : Blank between
  /-- The value is one of the grammar. -/
  value_value : Value value
  /-- Only blanks are behind the value. -/
  blank_after : Blank after

namespace Member

/-- What follows the name of a member. -/
def rest (e : Member) (s : List Char) : List Char := e.between ++ ':' :: (e.value ++ (e.after ++ s))

/-- The text of a member, with what follows it. -/
def text (e : Member) (s : List Char) : List Char := e.before ++ '"' :: (e.key ++ '"' :: e.rest s)

/-- The name is what its key spells. A key with one half of a surrogate pair alone spells nothing. -/
def Named (e : Member) (name : String) : Prop := Spells e.key name.toList

end Member

/-- The members of an object, with a comma in front of each but the first. -/
def membersText : (first : Bool) → List Member → List Char → List Char
  | _, [], s => s
  | true, e :: es, s => e.text (membersText false es s)
  | false, e :: es, s => ',' :: e.text (membersText false es s)

/-- A text with an object and nothing else. -/
structure Document where
  /-- The blanks in front of the object. -/
  before : List Char
  /-- The blanks behind its opening brace. -/
  inside : List Char
  /-- What it holds, the first one first. -/
  members : List Member
  /-- The blanks behind the object. -/
  after : List Char
  /-- Only blanks are in front of the object. -/
  blank_before : Blank before
  /-- Only blanks are between the brace and the first member. -/
  blank_inside : Blank inside
  /-- Only blanks are behind the object. -/
  blank_after : Blank after

/-- The text that is laid out so. -/
def Document.text (d : Document) : String :=
  String.ofList (d.before ++ '\x7b' :: (d.inside ++ membersText true d.members ('\x7d' :: d.after)))

/-! ## What members set -/

variable {ρ : Type} {fields : List (Field ρ)} {first : Bool} {met : List String} {v w : ρ}
  {e : Member} {es : List Member} {name : String} {b s r : List Char}

/-- What is set in a record, each with the name of the field. -/
abbrev Updates (ρ : Type) := List (String × (ρ → ρ))

/-- The record in which all of it has been set, one after the other. -/
def Updates.apply (us : Updates ρ) (v : ρ) : ρ := us.foldl (fun v u => u.2 v) v

/-- What a member sets: the field that it names, or else nothing. -/
inductive Member.Sets (fields : List (Field ρ)) (e : Member) : Updates ρ → Prop where
  /-- A member with the name of no field is passed over. -/
  | other {name : String} (hname : e.Named name)
      (hother : fields.find? (fun f => f.name = name) = none) : e.Sets fields []
  /-- A member with the name of a field sets it to what its value is read for. -/
  | field {name : String} {f : Field ρ} {update : ρ → ρ} (hname : e.Named name)
      (hfield : fields.find? (fun f => f.name = name) = some f)
      (hreads : f.reader.Reads e.value update) : e.Sets fields [(name, update)]

/-- What members set, one after the other. -/
inductive Sets (fields : List (Field ρ)) : List Member → Updates ρ → Prop where
  /-- Without members nothing is set. -/
  | nil : Sets fields [] []
  /-- What the first member sets comes first. -/
  | cons {e : Member} {es : List Member} {us us' : Updates ρ} (he : e.Sets fields us)
      (hes : Sets fields es us') : Sets fields (e :: es) (us ++ us')

/-- Members from which a record is read that starts as `start`: no field is set twice. -/
def Accepts (fields : List (Field ρ)) (start : ρ) (es : List Member) (v : ρ) : Prop :=
  ∃ us, Sets fields es us ∧ (us.map Prod.fst).Nodup ∧ us.apply start = v

theorem Member.Sets.exists_name {us : Updates ρ} (h : e.Sets fields us) : ∃ name, e.Named name := by
  cases h with
  | other hname => exact ⟨_, hname⟩
  | field hname => exact ⟨_, hname⟩

theorem Member.Named.unique {name' : String} (h : e.Named name) (h' : e.Named name') : name = name' := by
  have hread := textRest_append h []
  rw [textRest_append h' []] at hread
  obtain ⟨heq, -⟩ := Prod.mk.inj (Except.ok.inj hread)
  exact (String.toList_inj.mp heq).symm

/-! ## One member -/

theorem nameRest_eq_ok_iff {x : Option String} :
    nameRest (e.key ++ '"' :: s) = .ok (x, r) ↔ r = s ∧ ∃ name, x = some name ∧ e.Named name := by
  unfold nameRest
  constructor
  · intro h
    obtain ⟨⟨cs, r'⟩, htext, heq⟩ := map_eq_ok h
    obtain ⟨rfl, rfl⟩ := Prod.mk.inj heq
    obtain ⟨rfl, hspells⟩ := spells_of_textRest e.inside_key htext
    refine ⟨rfl, _, rfl, ?_⟩
    rwa [Member.Named, String.toList_ofList]
  · rintro ⟨rfl, name, rfl, hname⟩
    simp only [textRest_append hname, Except.map, String.ofList_toList]

theorem nextName_end (hb : Blank b) : nextName first (b ++ '\x7d' :: s) = .ok (none, s) := by
  rw [nextName, skipBlank_append_cons hb rfl]
  rfl

theorem nextName_member (hb : Blank b) :
    nextName first (b ++ membersText first (e :: es) s) =
      nameRest (e.key ++ '"' :: e.rest (membersText false es s)) := by
  have hname : isBlank '"' = false := rfl
  have hclose : ¬ '"' = '\x7d' := by decide
  cases first with
  | true =>
    rw [membersText, Member.text, nextName, skipBlank_append hb,
      skipBlank_append_cons e.blank_before hname]
    simp only [hclose, if_false, if_true]
  | false =>
    have hcomma : ¬ ',' = '\x7d' := by decide
    rw [membersText, Member.text, nextName, skipBlank_append_cons hb rfl]
    simp only [hcomma, if_false, if_true, Bool.false_eq_true,
      skipBlank_append_cons e.blank_before hname]

theorem endsNumber_membersText (e : Member) (es : List Member) (s : List Char) :
    EndsNumber (e.after ++ membersText false es ('\x7d' :: s)) := by
  refine endsNumber_append e.blank_after ?_
  cases es with
  | nil => exact endsNumber_close .object s
  | cons e es => exact endsNumber_comma _

theorem skipColon_rest (e : Member) (s : List Char) :
    skipColon (e.rest s) = .ok (e.value ++ (e.after ++ s)) :=
  skipColon_append e.blank_between _

/-- An entry is read just if the member sets something that has not been set. -/
theorem entryRest_eq_ok_iff (hfaithful : ∀ f ∈ fields, f.reader.Faithful) (hname : e.Named name)
    (hs : EndsNumber (e.after ++ s)) {met' : List String} :
    entryRest fields met v name (e.rest s) = .ok ((met', w), r) ↔
      r = e.after ++ s ∧ ∃ us, e.Sets fields us ∧ (∀ u ∈ us, u.1 ∉ met) ∧
        met' = us.map Prod.fst ++ met ∧ w = us.apply v := by
  rw [entryRest, skipColon_rest]
  cases hfield : fields.find? (fun f => f.name = name) with
  | none =>
    simp only [Except.bind, skipValue_append e.value_value hs, Except.map]
    constructor
    · intro h
      obtain ⟨heq, rfl⟩ := Prod.mk.inj (Except.ok.inj h)
      obtain ⟨rfl, rfl⟩ := Prod.mk.inj heq
      exact ⟨rfl, [], .other hname hfield, by simp, rfl, rfl⟩
    · rintro ⟨rfl, us, hus, -, rfl, rfl⟩
      cases hus with
      | other => rfl
      | field hname' hfield' =>
        rw [hname'.unique hname, hfield] at hfield'
        cases hfield'
  | some f =>
    simp only [Except.bind]
    constructor
    · intro h
      split at h
      · simp at h
      · rename_i hnew
        split at h
        · simp at h
        · rename_i update r' hrun
          obtain ⟨heq, rfl⟩ := Prod.mk.inj (Except.ok.inj h)
          obtain ⟨rfl, rfl⟩ := Prod.mk.inj heq
          have hf := hfaithful f (List.mem_of_find?_eq_some hfield)
          obtain ⟨rfl, hreads⟩ := hf.reads_value e.value_value hs hrun
          exact ⟨rfl, [(name, update)], .field hname hfield hreads, by simpa using hnew, rfl, rfl⟩
    · rintro ⟨rfl, us, hus, hnew, rfl, rfl⟩
      cases hus with
      | other hname' hother =>
        rw [hname'.unique hname, hfield] at hother
        cases hother
      | field hname' hfield' hreads =>
        obtain rfl := hname'.unique hname
        obtain rfl := Option.some.inj (hfield.symm.trans hfield')
        rw [if_neg (hnew _ List.mem_cons_self), hreads _ hs]
        rfl

/-! ## All members -/

theorem readEntries_member (hfaithful : ∀ f ∈ fields, f.reader.Faithful) (hb : Blank b) :
    readEntries fields first met v (b ++ membersText first (e :: es) ('\x7d' :: s)) = .ok (w, r) ↔
      ∃ us, e.Sets fields us ∧ (∀ u ∈ us, u.1 ∉ met) ∧
        readEntries fields false (us.map Prod.fst ++ met) (us.apply v)
          (e.after ++ membersText false es ('\x7d' :: s)) = .ok (w, r) := by
  have hnext : nextName first (b ++ membersText first (e :: es) ('\x7d' :: s)) = nameRest _ :=
    nextName_member hb
  have hend := endsNumber_membersText e es s
  constructor
  · intro h
    rw [readEntries] at h
    split at h
    · simp at h
    · rename_i hn
      obtain ⟨-, name, hnone, -⟩ := nameRest_eq_ok_iff.mp (hnext.symm.trans hn)
      cases hnone
    · rename_i name r' hn
      obtain ⟨rfl, name', hsome, hname⟩ := nameRest_eq_ok_iff.mp (hnext.symm.trans hn)
      obtain rfl := Option.some.inj hsome
      split at h
      · simp at h
      · rename_i met' v' r' he
        obtain ⟨rfl, us, hus, hnew, rfl, rfl⟩ := (entryRest_eq_ok_iff hfaithful hname hend).mp he
        exact ⟨us, hus, hnew, h⟩
  · rintro ⟨us, hus, hnew, h⟩
    obtain ⟨name, hname⟩ := hus.exists_name
    have hn := hnext.trans (nameRest_eq_ok_iff.mpr ⟨rfl, name, rfl, hname⟩)
    rw [← h]
    exact readEntries_of_entry hn
      ((entryRest_eq_ok_iff hfaithful hname hend).mpr ⟨rfl, us, hus, hnew, rfl, rfl⟩)

/-- Reading an object is taking its members in turn. -/
theorem readEntries_eq_ok_iff (hfaithful : ∀ f ∈ fields, f.reader.Faithful) :
    ∀ first met v b, met.Nodup → Blank b →
      (readEntries fields first met v (b ++ membersText first es ('\x7d' :: s)) = .ok (w, r) ↔
        r = s ∧ ∃ us, Sets fields es us ∧ (us.map Prod.fst ++ met).Nodup ∧ us.apply v = w) := by
  induction es with
  | nil =>
    intro first met v b hmet hb
    rw [membersText, readEntries_of_end (nextName_end hb)]
    constructor
    · intro h
      obtain ⟨rfl, rfl⟩ := Prod.mk.inj (Except.ok.inj h)
      exact ⟨rfl, [], .nil, hmet, rfl⟩
    · rintro ⟨rfl, us, hus, -, rfl⟩
      cases hus
      rfl
  | cons e es ih =>
    intro first met v b hmet hb
    have hswap (us us' : Updates ρ) : ((us ++ us').map Prod.fst ++ met).Perm
        (us'.map Prod.fst ++ (us.map Prod.fst ++ met)) := by
      rw [List.map_append, List.append_assoc]
      exact List.perm_append_comm_assoc _ _ _
    have happly (us us' : Updates ρ) : (us ++ us').apply v = us'.apply (us.apply v) :=
      List.foldl_append
    rw [readEntries_member hfaithful hb]
    constructor
    · rintro ⟨us, hus, hnew, h⟩
      have hmet' : (us.map Prod.fst ++ met).Nodup := by
        cases hus with
        | other => exact hmet
        | field => exact List.nodup_cons.mpr ⟨hnew _ List.mem_cons_self, hmet⟩
      obtain ⟨rfl, us', hus', hnodup, rfl⟩ := (ih _ _ _ _ hmet' e.blank_after).mp h
      exact ⟨rfl, us ++ us', .cons hus hus', (hswap us us').nodup_iff.mpr hnodup, happly us us'⟩
    · rintro ⟨rfl, us₀, hsets, hnodup, rfl⟩
      cases hsets with
      | @cons _ _ us us' hus hus' =>
        have hnodup' := (hswap us us').nodup_iff.mp hnodup
        obtain ⟨-, hmet', -⟩ := List.nodup_append.mp hnodup'
        obtain ⟨-, -, hne⟩ := List.nodup_append.mp hmet'
        have hnew : ∀ u ∈ us, u.1 ∉ met := fun u hu hmem =>
          hne u.1 (List.mem_map_of_mem hu) u.1 hmem rfl
        exact ⟨us, hus, hnew, (ih _ _ _ _ hmet' e.blank_after).mpr
          ⟨rfl, us', hus', hnodup', (happly us us').symm⟩⟩

/-! ## Documents -/

theorem toList_text (d : Document) :
    d.text.toList =
      d.before ++ '\x7b' :: (d.inside ++ membersText true d.members ('\x7d' :: d.after)) :=
  String.toList_ofList

/-- A record is read from a document just if its members are accepted. -/
theorem Document.read_iff (hfaithful : ∀ f ∈ fields, f.reader.Faithful) (d : Document)
    (typeName : String) (start v : ρ) :
    readAll (readRecord typeName fields start) d.text = .ok v ↔ Accepts fields start d.members v := by
  have hread (w : ρ) (r : List Char) :
      readRecord typeName fields start d.text.toList = .ok (w, r) ↔
        r = d.after ∧ Accepts fields start d.members w := by
    have hbracket : ¬ '\x7b' = '[' := by decide
    rw [toList_text, readRecord, skipBlank_append_cons d.blank_before rfl]
    simp only [hbracket, if_false, if_true]
    rw [readEntries_eq_ok_iff hfaithful true [] start d.inside List.nodup_nil d.blank_inside]
    simp only [List.append_nil]
    rfl
  have hend : skipBlank d.after = [] := by
    have := skipBlank_append d.blank_after []
    rwa [List.append_nil] at this
  unfold readAll
  constructor
  · intro h
    split at h
    · simp at h
    · rename_i w r hw
      obtain ⟨rfl, haccepts⟩ := (hread w r).mp hw
      rw [hend, if_pos List.isEmpty_nil] at h
      obtain rfl := Except.ok.inj h
      exact haccepts
  · intro haccepts
    rw [(hread v d.after).mpr ⟨rfl, haccepts⟩]
    simp only [hend]
    rfl

/-! ## What a record is read from -/

theorem exists_of_nextName_none (h : nextName first s = .ok (none, r)) :
    ∃ b, Blank b ∧ s = b ++ '\x7d' :: r := by
  have hnone {s : List Char} : nameRest s ≠ .ok (none, r) := by
    intro hname
    obtain ⟨_, -, heq⟩ := map_eq_ok hname
    cases heq
  unfold nextName at h
  split at h
  · simp at h
  · rename_i hs
    obtain ⟨b, hb, rfl⟩ := exists_blank hs
    split at h
    · rename_i hc
      obtain ⟨-, rfl⟩ := Prod.mk.inj (Except.ok.inj h)
      exact ⟨b, hb, by rw [hc]⟩
    · split at h
      · split at h
        · exact absurd h hnone
        · simp at h
      · split at h
        · split at h
          · simp at h
          · split at h
            · exact absurd h hnone
            · simp at h
        · simp at h

theorem exists_of_nextName_some (h : nextName first s = .ok (some name, r)) :
    ∃ b b' k, Blank b ∧ Blank b' ∧ Inside k ∧
      s = b ++ if first then b' ++ '"' :: (k ++ '"' :: r) else ',' :: (b' ++ '"' :: (k ++ '"' :: r)) := by
  have hkey {s : List Char} (hname : nameRest s = .ok (some name, r)) :
      ∃ k, Inside k ∧ s = k ++ '"' :: r := by
    obtain ⟨⟨cs, r'⟩, htext, heq⟩ := map_eq_ok hname
    obtain ⟨-, rfl⟩ := Prod.mk.inj heq
    obtain ⟨k, hk, rfl⟩ := exists_spells htext
    exact ⟨k, hk.inside, rfl⟩
  unfold nextName at h
  split at h
  · simp at h
  · rename_i hs
    obtain ⟨b, hb, rfl⟩ := exists_blank hs
    split at h
    · cases h
    · split at h
      · rename_i hfirst
        split at h
        · rename_i hc
          obtain ⟨k, hk, rfl⟩ := hkey h
          exact ⟨b, [], k, hb, blank_nil, hk, by rw [hc, if_pos hfirst, List.nil_append]⟩
        · simp at h
      · rename_i hfirst
        split at h
        · rename_i hcomma
          split at h
          · simp at h
          · rename_i hs'
            obtain ⟨b', hb', rfl⟩ := exists_blank hs'
            split at h
            · rename_i hc
              obtain ⟨k, hk, rfl⟩ := hkey h
              exact ⟨b, b', k, hb, hb', hk, by rw [hcomma, hc, if_neg hfirst]⟩
            · simp at h
        · simp at h

theorem exists_of_entryRest (hfaithful : ∀ f ∈ fields, f.reader.Faithful) {p : List String × ρ}
    (h : entryRest fields met v name s = .ok (p, r)) :
    ∃ b t, Blank b ∧ Value t ∧ s = b ++ ':' :: (t ++ r) := by
  have hvalue {s' : List Char} (hcolon : skipColon s = .ok s') (hskip : skipValue s' = .ok r) :
      ∃ b t, Blank b ∧ Value t ∧ s = b ++ ':' :: (t ++ r) := by
    obtain ⟨b, hb, rfl⟩ := exists_colon hcolon
    obtain ⟨t, ht, rfl⟩ := exists_value hskip
    exact ⟨b, t, hb, ht, rfl⟩
  unfold entryRest at h
  split at h
  · obtain ⟨_, hskip, heq⟩ := map_eq_ok h
    obtain ⟨-, rfl⟩ := Prod.mk.inj heq
    obtain ⟨s', hcolon, hskip⟩ := bind_eq_ok hskip
    exact hvalue hcolon hskip
  · rename_i f hfield
    split at h
    · simp at h
    · split at h
      · simp at h
      · rename_i hrun
        obtain ⟨-, rfl⟩ := Prod.mk.inj (Except.ok.inj h)
        obtain ⟨s', hcolon, hrun⟩ := bind_eq_ok hrun
        exact hvalue hcolon ((hfaithful f (List.mem_of_find?_eq_some hfield)).skips hrun)

theorem membersText_cons (first : Bool) (e : Member) (es : List Member) (s : List Char) :
    membersText first (e :: es) s =
      if first then e.text (membersText false es s) else ',' :: e.text (membersText false es s) := by
  cases first <;> rfl

/-- An object that a record is read from is made of members. -/
theorem exists_members (hfaithful : ∀ f ∈ fields, f.reader.Faithful)
    (h : readEntries fields first met v s = .ok (w, r)) :
    ∃ b es, Blank b ∧ s = b ++ membersText first es ('\x7d' :: r) := by
  fun_induction readEntries fields first met v s with
  | case1 => simp at h
  | case2 first met v s r' hn =>
    obtain ⟨rfl, rfl⟩ := Prod.mk.inj (Except.ok.inj h)
    obtain ⟨b, hb, rfl⟩ := exists_of_nextName_none hn
    exact ⟨b, [], hb, by rw [membersText]⟩
  | case3 => simp at h
  | case4 first met v s name r' hn met' v' r'' he _ ih =>
    obtain ⟨b, b', k, hb, hb', hk, rfl⟩ := exists_of_nextName_some hn
    obtain ⟨b'', t, hb'', ht, rfl⟩ := exists_of_entryRest hfaithful he
    obtain ⟨after, es, hafter, rfl⟩ := ih h
    let e : Member := ⟨b', k, b'', t, after, hb', hk, hb'', ht, hafter⟩
    exact ⟨b, e :: es, hb, by rw [membersText_cons]; rfl⟩

/-- A text that begins an object and that a record is read from is a document. -/
theorem Document.exists_of_read (hfaithful : ∀ f ∈ fields, f.reader.Faithful) {typeName text : String}
    {start : ρ} (h : readAll (readRecord typeName fields start) text = .ok v)
    (hobject : (skipBlank text.toList).head? = some '\x7b') : ∃ d : Document, d.text = text := by
  obtain ⟨rest, hrest⟩ := List.head?_eq_some_iff.mp hobject
  obtain ⟨before, hbefore, htext⟩ := exists_blank hrest
  unfold readAll at h
  split at h
  · simp at h
  · rename_i w r hread
    have hbracket : ¬ '\x7b' = '[' := by decide
    rw [readRecord, hrest] at hread
    simp only [hbracket, if_false, if_true] at hread
    obtain ⟨inside, es, hinside, rfl⟩ := exists_members hfaithful hread
    split at h
    · rename_i hafter
      have hblank : Blank r := List.dropWhile_eq_nil_iff.mp (List.isEmpty_iff.mp hafter)
      refine ⟨⟨before, inside, es, r, hbefore, hinside, hblank⟩, ?_⟩
      rw [← String.toList_inj, toList_text, htext]
    · simp at h

/-! ## Members as they are written -/

theorem spells_writeChar (cs : List Char) : Spells (cs.flatMap writeChar) cs := by
  obtain ⟨t, ht, heq⟩ := exists_spells (textRest_flatMap_writeChar cs [])
  exact List.append_cancel_right heq ▸ ht

/-- A member without blanks, with its name as it is written. -/
def Member.written (name : String) {t : List Char} (ht : Value t) : Member :=
  ⟨[], name.toList.flatMap writeChar, [], t, [], blank_nil, (spells_writeChar _).inside, blank_nil,
    ht, blank_nil⟩

theorem Member.named_written_iff {name' : String} {t : List Char} (ht : Value t) :
    (Member.written name ht).Named name' ↔ name = name' := by
  have hname : (Member.written name ht).Named name := spells_writeChar _
  exact ⟨hname.unique, fun h => h ▸ hname⟩

/-- A document of these members without blanks around them. -/
def Document.written (es : List Member) : Document :=
  ⟨[], [], es, [], blank_nil, blank_nil, blank_nil⟩

end MessageIndex.Json
