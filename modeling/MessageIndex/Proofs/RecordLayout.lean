import Mathlib.Data.List.Nodup
import Mathlib.Data.List.Pairwise
import MessageIndex.Proofs.RecordMembers

/-!
# Proofs: the layout of a record does not matter

Members of a document may change places; members that no field asks for may come and go, and so may members
that give a field the value it has anyway (`Rearranged`). The record that is read stays the same: fields
are set independently of each other, so members can be taken in any order (`Accepts.perm`), and it is enough
to look at a member that comes or goes in front of all others.
-/

namespace MessageIndex.Json

variable {ρ : Type} {fields : List (Field ρ)} {start v : ρ} {e : Member} {es es' : List Member}
  {us : Updates ρ} {name : String}

/-! ## Fields that are set independently -/

namespace Field

/-- What a value may do to a record by way of a field. -/
def Gives (f : Field ρ) (update : ρ → ρ) : Prop := ∃ t, f.reader.Reads t update

/-- It does not matter which of two fields is set first. -/
def Commutes (f g : Field ρ) : Prop := ∀ u u', f.Gives u → g.Gives u' → ∀ v, u (u' v) = u' (u v)

instance : Std.Symm (@Commutes ρ) where
  symm _ _ h u u' hu hu' v := (h u' u hu' hu v).symm

theorem exists_of_gives {α : Type} {reader : Reader α} {update : α → ρ → ρ} {u : ρ → ρ}
    (h : (Field.of name reader update).Gives u) : ∃ a, u = update a := by
  obtain ⟨t, hreads⟩ := h
  have hrun := hreads [] endsNumber_nil
  simp only [Field.of, Reader.mapM] at hrun
  split at hrun
  · simp at hrun
  · rename_i a r _
    exact ⟨a, (Prod.mk.inj (Except.ok.inj hrun)).1.symm⟩

theorem commutes_of {α β : Type} {name' : String} {reader : Reader α} {reader' : Reader β}
    {update : α → ρ → ρ} {update' : β → ρ → ρ}
    (h : ∀ a b v, update a (update' b v) = update' b (update a v)) :
    (Field.of name reader update).Commutes (Field.of name' reader' update') := by
  intro u u' hu hu'
  obtain ⟨a, rfl⟩ := exists_of_gives hu
  obtain ⟨b, rfl⟩ := exists_of_gives hu'
  exact h a b

end Field

/-- Each field can be read and set without a look at the others. -/
structure Independent (fields : List (Field ρ)) : Prop where
  /-- A value is taken for the same whatever follows it. -/
  faithful : ∀ f ∈ fields, f.reader.Faithful
  /-- It does not matter which of two fields is set first. -/
  commutes : fields.Pairwise Field.Commutes

theorem Sets.mem (h : Sets fields es us) :
    ∀ u ∈ us, (∃ f ∈ fields, f.name = u.1 ∧ f.Gives u.2) ∧ ∃ e ∈ es, e.Named u.1 := by
  induction h with
  | nil => exact List.forall_mem_nil _
  | @cons e es us us' he _ ih =>
    intro u hu
    rcases List.mem_append.mp hu with hu | hu
    · cases he with
      | other => cases hu
      | @field name f update hname hfield hreads =>
        obtain rfl := List.mem_singleton.mp hu
        have hf : f.name = name := by simpa using List.find?_some hfield
        have hmem := List.mem_of_find?_eq_some hfield
        exact ⟨⟨f, hmem, hf, e.value, hreads⟩, e, List.mem_cons_self, hname⟩
    · obtain ⟨hf, e', he', hname⟩ := ih u hu
      exact ⟨hf, e', List.mem_cons_of_mem e he', hname⟩

/-- Members in another order set the same in another order. -/
theorem Sets.perm (h : Sets fields es us) (hp : es.Perm es') :
    ∃ us', Sets fields es' us' ∧ us.Perm us' := by
  induction hp generalizing us with
  | nil => exact ⟨us, h, .refl _⟩
  | cons e _ ih =>
    cases h with
    | cons he hes =>
      obtain ⟨us', hes', hperm⟩ := ih hes
      exact ⟨_, .cons he hes', hperm.append_left _⟩
  | swap e e' es =>
    cases h with
    | cons he' h =>
      cases h with
      | cons he hes => exact ⟨_, .cons he (.cons he' hes), List.perm_append_comm_assoc _ _ _⟩
  | trans _ _ ih ih' =>
    obtain ⟨us', hes', hperm⟩ := ih h
    obtain ⟨us'', hes'', hperm'⟩ := ih' hes'
    exact ⟨us'', hes'', hperm.trans hperm'⟩

/-- A record is read from its members in any order. -/
theorem Accepts.perm (hfields : Independent fields) (h : Accepts fields start es v)
    (hp : es.Perm es') : Accepts fields start es' v := by
  obtain ⟨us, hsets, hnodup, rfl⟩ := h
  obtain ⟨us', hsets', hperm⟩ := hsets.perm hp
  refine ⟨us', hsets', (hperm.map _).nodup_iff.mp hnodup, ?_⟩
  refine (hperm.foldl_eq' (fun u hu u' hu' w => ?_) start).symm
  obtain ⟨⟨f, hf, hfu, hgives⟩, -⟩ := hsets.mem u hu
  obtain ⟨⟨f', hf', hfu', hgives'⟩, -⟩ := hsets.mem u' hu'
  by_cases hsame : u.1 = u'.1
  · rw [List.inj_on_of_nodup_map hnodup hu hu' hsame]
  · have hne : f' ≠ f := by
      rintro rfl
      exact hsame (hfu.symm.trans hfu')
    exact hfields.commutes.forall hf' hf hne _ _ hgives' hgives w

/-! ## Members that may come and go -/

/-- A value without others in it, as far as records have fields for it. -/
inductive Datum where
  /-- No value. -/
  | null
  /-- A truth value. -/
  | boolean (b : Bool)
  /-- A natural number of 64 bits. -/
  | count (n : UInt64)
  /-- A text of any characters. -/
  | text (t : String)
  deriving DecidableEq, Repr

/-- The texts of a value. A text may be spelled in many ways, with escapes or without. -/
inductive Datum.Text : Datum → List Char → Prop where
  /-- The word for no value. -/
  | null : Text .null "null".toList
  /-- The word for a truth value. -/
  | boolean (b : Bool) : Text (.boolean b) (writeBoolean b)
  /-- A number in decimal digits, without zeros in front. -/
  | count (n : UInt64) : Text (.count n) (writeCount n)
  /-- A text between quotes, however its characters are spelled. -/
  | text {u : List Char} {t : String} (hu : Spells u t.toList) : Text (.text t) ('"' :: (u ++ ['"']))

/-- A member shows a value, behind any blanks. -/
def Member.Shows (e : Member) (d : Datum) : Prop := ∃ b u, Blank b ∧ d.Text u ∧ e.value = b ++ u

theorem Member.shows_written {t : List Char} {d : Datum} (ht : Value t) (hd : d.Text t) :
    (Member.written name ht).Shows d :=
  ⟨[], t, blank_nil, hd, rfl⟩

/-- Another layout for a record with fields of some names and with some of the values that they have
anyway. -/
inductive Rearranged (names : List String) (defaults : List (String × Datum)) :
    List Member → List Member → Prop where
  /-- Members change places. -/
  | permute {es es' : List Member} (h : es.Perm es') : Rearranged names defaults es es'
  /-- A member comes in that has the name of no field. -/
  | insertOther (front back : List Member) {e : Member} {name : String} (hname : e.Named name)
      (hother : name ∉ names) : Rearranged names defaults (front ++ back) (front ++ e :: back)
  /-- A member goes that has the name of no field. -/
  | deleteOther (front back : List Member) {e : Member} {name : String} (hname : e.Named name)
      (hother : name ∉ names) : Rearranged names defaults (front ++ e :: back) (front ++ back)
  /-- A field that was not given is given the value that it has anyway. -/
  | insertDefault (front back : List Member) {e : Member} {name : String} {d : Datum}
      (hname : e.Named name) (hdefault : (name, d) ∈ defaults) (hshows : e.Shows d)
      (habsent : ∀ e' ∈ front ++ back, ¬ e'.Named name) :
      Rearranged names defaults (front ++ back) (front ++ e :: back)
  /-- A field that was given the value that it has anyway is not given. -/
  | deleteDefault (front back : List Member) {e : Member} {name : String} {d : Datum}
      (hname : e.Named name) (hdefault : (name, d) ∈ defaults) (hshows : e.Shows d) :
      Rearranged names defaults (front ++ e :: back) (front ++ back)
  /-- One rearrangement comes after another. -/
  | trans {es es' es'' : List Member} (h : Rearranged names defaults es es')
      (h' : Rearranged names defaults es' es'') : Rearranged names defaults es es''

/-- A value changes nothing in the record that reading starts from. -/
def IsDefault (fields : List (Field ρ)) (start : ρ) (p : String × Datum) : Prop :=
  ∃ f update, fields.find? (fun f => f.name = p.1) = some f ∧ update start = start ∧
    ∀ e : Member, e.Shows p.2 → f.reader.Reads e.value update

theorem accepts_cons_other (hname : e.Named name) (hother : name ∉ fields.map Field.name) :
    Accepts fields start (e :: es) v ↔ Accepts fields start es v := by
  have hfield : fields.find? (fun f => f.name = name) = none := by
    refine List.find?_eq_none.mpr fun f hf heq => ?_
    exact hother (List.mem_map.mpr ⟨f, hf, of_decide_eq_true heq⟩)
  constructor
  · rintro ⟨us, hsets, hnodup, hv⟩
    cases hsets with
    | cons he hes =>
      cases he with
      | other => exact ⟨_, hes, hnodup, hv⟩
      | field hname' hfield' =>
        rw [hname'.unique hname, hfield] at hfield'
        cases hfield'
  · rintro ⟨us, hsets, hnodup, hv⟩
    exact ⟨[] ++ us, .cons (.other hname hfield) hsets, hnodup, hv⟩

section Defaults

variable {f : Field ρ} {update : ρ → ρ} (hname : e.Named name)
  (hfield : fields.find? (fun f => f.name = name) = some f) (hstart : update start = start)
  (hreads : f.reader.Reads e.value update)

include hname hfield hstart hreads

theorem Accepts.insert_default (habsent : ∀ e' ∈ es, ¬ e'.Named name)
    (h : Accepts fields start es v) : Accepts fields start (e :: es) v := by
  obtain ⟨us, hsets, hnodup, rfl⟩ := h
  refine ⟨_, .cons (.field hname hfield hreads) hsets, ?_, ?_⟩
  · refine List.nodup_cons.mpr ⟨fun hmem => ?_, hnodup⟩
    obtain ⟨u, hu, rfl⟩ := List.mem_map.mp hmem
    obtain ⟨-, e', he', hname'⟩ := hsets.mem u hu
    exact habsent e' he' hname'
  · show us.apply (update start) = us.apply start
    rw [hstart]

theorem Accepts.delete_default (h : Accepts fields start (e :: es) v) :
    Accepts fields start es v := by
  obtain ⟨us, hsets, hnodup, rfl⟩ := h
  cases hsets with
  | @cons _ _ us us' he hes =>
    cases he with
    | other hname' hother =>
      rw [hname'.unique hname, hfield] at hother
      cases hother
    | @field name' f' update' hname' hfield' hreads' =>
      obtain rfl := hname'.unique hname
      obtain rfl := Option.some.inj (hfield.symm.trans hfield')
      obtain rfl : update = update' := by
        have hsame := hreads [] endsNumber_nil
        rw [hreads' [] endsNumber_nil] at hsame
        exact (Prod.mk.inj (Except.ok.inj hsame)).1.symm
      refine ⟨us', hes, (List.nodup_cons.mp hnodup).2, ?_⟩
      show us'.apply start = us'.apply (update start)
      rw [hstart]

end Defaults

/-- What is read from an object does not depend on its layout. -/
theorem Accepts.rearranged {defaults : List (String × Datum)} (hfields : Independent fields)
    (hdefaults : ∀ p ∈ defaults, IsDefault fields start p)
    (h : Rearranged (fields.map Field.name) defaults es es') :
    Accepts fields start es v → Accepts fields start es' v := by
  induction h with
  | permute hp => exact fun h => h.perm hfields hp
  | insertOther _ _ hname hother =>
    intro h
    exact ((accepts_cons_other hname hother).mpr h).perm hfields List.perm_middle.symm
  | deleteOther _ _ hname hother =>
    intro h
    exact (accepts_cons_other hname hother).mp (h.perm hfields List.perm_middle)
  | insertDefault _ _ hname hdefault hshows habsent =>
    intro h
    obtain ⟨f, update, hfield, hstart, hreads⟩ := hdefaults _ hdefault
    exact (h.insert_default hname hfield hstart (hreads _ hshows) habsent).perm hfields
      List.perm_middle.symm
  | deleteDefault _ _ hname hdefault hshows =>
    intro h
    obtain ⟨f, update, hfield, hstart, hreads⟩ := hdefaults _ hdefault
    exact (h.perm hfields List.perm_middle).delete_default hname hfield hstart (hreads _ hshows)
  | trans _ _ ih ih' => exact fun h => ih' (ih h)

/-! ## Values of fields -/

namespace Datum.Text

variable {u : List Char}

theorem reads_null (h : Datum.null.Text u) : Reader.optionalText.Reads u none := by
  cases h
  exact Reader.reads_optionalText none

theorem reads_boolean {b : Bool} (h : (Datum.boolean b).Text u) : Reader.boolean.Reads u b := by
  cases h
  exact Reader.reads_boolean b

theorem reads_count {n : UInt64} (h : (Datum.count n).Text u) : Reader.count.Reads u n := by
  cases h
  exact Reader.reads_count n

theorem reads_text {t : String} (h : (Datum.text t).Text u) : Reader.text.Reads u t := by
  cases h with
  | text hu =>
    have hreads := Reader.reads_spelled hu
    rwa [String.ofList_toList] at hreads

end Datum.Text

section Fields

variable {α : Type} {reader : Reader α} {update : α → ρ → ρ} {d : Datum} {a : α}

theorem Field.faithful_of (hr : reader.Faithful) : (Field.of name reader update).reader.Faithful :=
  hr.mapM (f := fun a => .ok (update a))

theorem isDefault_of
    (hfield : fields.find? (fun f => f.name = name) = some (Field.of name reader update))
    (hstart : update a start = start) (hr : reader.Faithful)
    (hreads : ∀ u, d.Text u → reader.Reads u a) : IsDefault fields start (name, d) := by
  refine ⟨_, update a, hfield, hstart, ?_⟩
  rintro e ⟨b, u, hb, hu, heq⟩
  rw [heq]
  exact Field.reads_of ((hreads u hu).append_blank hr hb)

end Fields

end MessageIndex.Json

namespace MessageIndex

open Json

/-! ## Settings and logging options -/

namespace Settings

/-- The values that settings have if nothing is said. -/
def defaults : List (String × Datum) := [
  ("enable_search_log", .boolean false),
  ("max_range_count", .count 1024)]

theorem independent_fields : Independent fields := by
  constructor
  · simp only [fields, List.forall_mem_cons]
    exact ⟨Field.faithful_of Reader.faithful_boolean, Field.faithful_of Reader.faithful_count,
      List.forall_mem_nil _⟩
  · have hnil {f : Json.Field Settings} : ∀ g ∈ ([] : List (Json.Field Settings)), f.Commutes g :=
      List.forall_mem_nil _
    simp only [fields, List.pairwise_cons, List.forall_mem_cons]
    exact ⟨⟨Field.commutes_of fun _ _ _ => rfl, hnil⟩, hnil, .nil⟩

theorem isDefault_defaults : ∀ p ∈ defaults, IsDefault fields {} p := by
  simp only [defaults, List.forall_mem_cons]
  refine ⟨?_, ?_, List.forall_mem_nil _⟩
  · exact isDefault_of rfl rfl Reader.faithful_boolean fun _ hu => hu.reads_boolean
  · exact isDefault_of rfl rfl Reader.faithful_count fun _ hu => hu.reads_count

end Settings

namespace Logging.Options

/-- The values that options have if nothing is said; a format may also be an empty text. -/
def defaults : List (String × Datum) := [
  ("dir", .text ""),
  ("level", .null),
  ("log_format", .text "text"),
  ("log_format", .text ""),
  ("max_log_files", .count 720),
  ("append_stdout", .boolean true)]

theorem independent_fields : Independent fields := by
  constructor
  · simp only [fields, List.forall_mem_cons]
    exact ⟨Field.faithful_of Reader.faithful_text, Field.faithful_of Reader.faithful_optionalText,
      Field.faithful_of Reader.faithful_text.mapM, Field.faithful_of Reader.faithful_count,
      Field.faithful_of Reader.faithful_boolean, List.forall_mem_nil _⟩
  · have hnil {f : Json.Field Options} : ∀ g ∈ ([] : List (Json.Field Options)), f.Commutes g :=
      List.forall_mem_nil _
    simp only [fields, List.pairwise_cons, List.forall_mem_cons]
    refine ⟨⟨?_, ?_, ?_, ?_, hnil⟩, ⟨?_, ?_, ?_, hnil⟩, ⟨?_, ?_, hnil⟩, ⟨?_, hnil⟩, hnil, .nil⟩
    all_goals exact Field.commutes_of fun _ _ _ => rfl

theorem isDefault_defaults : ∀ p ∈ defaults, IsDefault fields {} p := by
  have hformat (name : String) (h : Format.ofNameOrEmpty name = .ok .text) :
      ∀ u, (Datum.text name).Text u → (Reader.text.mapM Format.ofNameOrEmpty).Reads u .text :=
    fun _ hu => hu.reads_text.mapM h
  simp only [defaults, List.forall_mem_cons]
  refine ⟨?_, ?_, ?_, ?_, ?_, ?_, List.forall_mem_nil _⟩
  · exact isDefault_of rfl rfl Reader.faithful_text fun _ hu => hu.reads_text
  · exact isDefault_of rfl rfl Reader.faithful_optionalText fun _ hu => hu.reads_null
  · exact isDefault_of rfl rfl Reader.faithful_text.mapM (hformat "text" rfl)
  · exact isDefault_of rfl rfl Reader.faithful_text.mapM (hformat "" rfl)
  · exact isDefault_of rfl rfl Reader.faithful_count fun _ hu => hu.reads_count
  · exact isDefault_of rfl rfl Reader.faithful_boolean fun _ hu => hu.reads_boolean

end Logging.Options

/-- Settings and logging options stay what they are in whatever layout their document is: members may change
places, members that are no fields may come and go with any values, and so may members with the values that
fields have anyway. Every text of an object that they are read from is such a document. -/
theorem documents_in_any_layout :
    (∀ (d d' : Document) (s : Settings),
      Rearranged (Settings.fields.map Field.name) Settings.defaults d.members d'.members →
      Settings.parse d.text = .ok s → Settings.parse d'.text = .ok s) ∧
    (∀ (text : String) (s : Settings), Settings.parse text = .ok s →
      (skipBlank text.toList).head? = some '\x7b' → ∃ d : Document, d.text = text) ∧
    (∀ (d d' : Document) (o : Logging.Options),
      Rearranged (Logging.Options.fields.map Field.name) Logging.Options.defaults d.members d'.members →
      Logging.Options.parse d.text = .ok o → Logging.Options.parse d'.text = .ok o) ∧
    (∀ (text : String) (o : Logging.Options), Logging.Options.parse text = .ok o →
      (skipBlank text.toList).head? = some '\x7b' → ∃ d : Document, d.text = text) := by
  have hsettings := Settings.independent_fields
  have hoptions := Logging.Options.independent_fields
  refine ⟨fun d d' s h hs => ?_, fun text s hs => ?_, fun d d' o h ho => ?_, fun text o ho => ?_⟩
  · rw [Settings.parse, d'.read_iff hsettings.faithful]
    rw [Settings.parse, d.read_iff hsettings.faithful] at hs
    exact hs.rearranged hsettings Settings.isDefault_defaults h
  · exact Document.exists_of_read hsettings.faithful hs
  · rw [Logging.Options.parse, d'.read_iff hoptions.faithful]
    rw [Logging.Options.parse, d.read_iff hoptions.faithful] at ho
    exact ho.rearranged hoptions Logging.Options.isDefault_defaults h
  · exact Document.exists_of_read hoptions.faithful ho

/-- Settings without the one that is off anyway and with a value that is no setting; options without those
that say nothing, and with an empty text in place of the format. -/
theorem documents_in_any_layout_of_other_members :
    let settings := "\x7b\"max_range_count\":7,\"note\":[null,\x7b\x7d]\x7d"
    let options :=
      "\x7b\"log_format\":\"\",\"dir\":\"logs\",\"max_log_files\":9,\"append_stdout\":true\x7d"
    Settings.parse settings = .ok { maxRangeCount := 7 } ∧ (∃ d : Document, d.text = settings) ∧
      Logging.Options.parse options = .ok { dir := "logs", maxLogFiles := 9 } ∧
      ∃ d : Document, d.text = options := by
  intro settings options
  obtain ⟨hsettings, hsettings', hoptions, hoptions'⟩ := documents_in_any_layout
  have hread : Settings.parse settings = .ok { maxRangeCount := 7 } := by
    have hcount : Value (writeCount 7) := Reader.faithful_count.value (Reader.reads_count 7)
    have hnote : Value ['[', 'n', 'u', 'l', 'l', ',', '\x7b', '\x7d', ']'] :=
      .nested (f := .array) (.more .array .null blank_nil
        (.last .array (.empty .object blank_nil) blank_nil))
    have hsaid : Settings.parse (Document.written [.written "enable_search_log" .false,
        .written "max_range_count" hcount]).text = .ok { maxRangeCount := 7 } :=
      Settings.parse_render { maxRangeCount := 7 }
    refine hsettings _ (.written [.written "max_range_count" hcount, .written "note" hnote]) _ ?_ hsaid
    refine .trans (.deleteDefault [] _ ((Member.named_written_iff _).mpr rfl) (by decide)
      (Member.shows_written _ (.boolean false))) ?_
    exact .insertOther [_] [] ((Member.named_written_iff _).mpr rfl) (by decide)
  have hread' : Logging.Options.parse options = .ok { dir := "logs", maxLogFiles := 9 } := by
    have hdir : Value (writeText "logs") := Reader.faithful_text.value (Reader.reads_text "logs")
    have htext : Value (writeText "text") := Reader.faithful_text.value (Reader.reads_text "text")
    have hempty : Value (writeText "") := Reader.faithful_text.value (Reader.reads_text "")
    have hcount : Value (writeCount 9) := Reader.faithful_count.value (Reader.reads_count 9)
    have hsaid : Logging.Options.parse (Document.written [.written "dir" hdir, .written "level" .null,
        .written "log_format" htext, .written "max_log_files" hcount,
        .written "append_stdout" .true]).text = .ok { dir := "logs", maxLogFiles := 9 } :=
      Logging.Options.parse_render { dir := "logs", maxLogFiles := 9 }
    let others : List Member := [.written "dir" hdir, .written "max_log_files" hcount,
      .written "append_stdout" .true]
    have habsent : ∀ e ∈ others, ¬ e.Named "log_format" := by
      simp only [others, List.forall_mem_cons, Member.named_written_iff]
      exact ⟨by decide, by decide, by decide, List.forall_mem_nil _⟩
    refine hoptions _ (.written (.written "log_format" hempty :: others)) _ ?_ hsaid
    refine .trans (.deleteDefault [_] _ ((Member.named_written_iff _).mpr rfl) (by decide)
      (Member.shows_written _ .null)) ?_
    refine .trans (.deleteDefault [_] _ ((Member.named_written_iff _).mpr rfl) (by decide)
      (Member.shows_written _ (.text (spells_writeChar _)))) ?_
    exact .insertDefault [] others (d := .text "") ((Member.named_written_iff _).mpr rfl) (by decide)
      (Member.shows_written _ (.text (spells_writeChar _))) habsent
  have hfront : (skipBlank settings.toList).head? = some '\x7b' := by decide +kernel
  have hfront' : (skipBlank options.toList).head? = some '\x7b' := by decide +kernel
  exact ⟨hread, hsettings' _ _ hread hfront, hread', hoptions' _ _ hread' hfront'⟩

end MessageIndex
