import MessageIndex.Logging.Options
import MessageIndex.Proofs.WrittenValues
import MessageIndex.Settings.Document

/-!
# Proofs: records read back

An object whose entries are written values of different fields, in any order, is read as the record that
these fields are set in, one after the other (`readRecord_writeObject`). Settings and logging options write
all of their fields, so they are read back as they were, whatever the defaults are.
-/

namespace MessageIndex.Json

variable {ρ : Type} {fields : List (Field ρ)} {first : Bool} {met : List String} {v : ρ}

/-! ## One entry after the other -/

theorem readEntries_of_end {s r : List Char} (h : nextName first s = .ok (none, r)) :
    readEntries fields first met v s = .ok (v, r) := by
  rw [readEntries]
  split <;> rename_i hn <;> cases h.symm.trans hn
  rfl

theorem readEntries_of_entry {s r r' : List Char} {name : String} {met' : List String} {v' : ρ}
    (hname : nextName first s = .ok (some name, r))
    (hentry : entryRest fields met v name r = .ok ((met', v'), r')) :
    readEntries fields first met v s = readEntries fields false met' v' r' := by
  rw [readEntries]
  split <;> rename_i hn <;> cases hname.symm.trans hn
  split <;> rename_i he <;> cases hentry.symm.trans he
  rfl

/-! ## Written entries -/

theorem Field.reads_of {α : Type} {name : String} {reader : Reader α} {update : α → ρ → ρ}
    {text : List Char} {a : α} (h : reader.Reads text a) :
    (Field.of name reader update).reader.Reads text (update a) :=
  h.mapM (f := fun a => .ok (update a)) rfl

/-- A written value of one of the fields of a record, with what it sets. -/
structure Written (fields : List (Field ρ)) where
  /-- The field it is a value of. -/
  field : Field ρ
  /-- The name of the field leads to it. -/
  listed : fields.find? (fun f => f.name = field.name) = some field
  /-- The text of the value. -/
  text : List Char
  /-- What it sets in a record. -/
  update : ρ → ρ
  /-- The text is read for what it sets. -/
  reads : field.reader.Reads text update

namespace Written

/-- The entry of an object that is written for it. -/
def entry (w : Written fields) : String × List Char := (w.field.name, w.text)

/-- A record that has been set up by written values, the first one first. -/
def set (ws : List (Written fields)) (v : ρ) : ρ := ws.foldl (fun v w => w.update v) v

end Written

/-- What follows the first entry of an object. -/
def moreEntries (entries : List (String × List Char)) : List Char :=
  entries.flatMap fun (name, value) => ',' :: (writeText name ++ ':' :: value)

theorem writeEntries_cons (name : String) (value : List Char) (entries : List (String × List Char)) :
    writeEntries ((name, value) :: entries) =
      writeText name ++ ':' :: (value ++ moreEntries entries) := by
  induction entries generalizing name value with
  | nil => simp [writeEntries, moreEntries]
  | cons entry entries ih =>
    obtain ⟨name', value'⟩ := entry
    rw [writeEntries, ih]
    · simp [moreEntries]
    · simp

theorem entryRest_written (w : Written fields) (hmet : w.field.name ∉ met) {s : List Char}
    (hs : EndsNumber s) :
    entryRest fields met v w.field.name (':' :: (w.text ++ s)) =
      .ok ((w.field.name :: met, w.update v), s) := by
  have hcolon : (skipColon (':' :: (w.text ++ s))).bind w.field.reader.run = .ok (w.update, s) :=
    w.reads s hs
  rw [entryRest, w.listed]
  simp only [hmet, if_false, hcolon]

theorem nameRest_written (name : String) (s : List Char) :
    nameRest (name.toList.flatMap writeChar ++ '"' :: s) = .ok (some name, s) := by
  simp only [nameRest, textRest_flatMap_writeChar, Except.map, String.ofList_toList]

theorem nextName_writeText (name : String) (s : List Char) :
    nextName true (writeText name ++ s) = .ok (some name, s) := by
  have hquote : '"' ≠ '\x7d' := by decide
  rw [writeText_append, nextName, skipBlank_cons rfl]
  simp only [if_neg hquote, if_true, nameRest_written]

theorem nextName_comma_writeText (name : String) (s : List Char) :
    nextName false (',' :: (writeText name ++ s)) = .ok (some name, s) := by
  have hcomma : ',' ≠ '\x7d' := by decide
  have hquote : isBlank '"' = false := rfl
  rw [writeText_append, nextName, skipBlank_cons rfl]
  simp only [if_neg hcomma, Bool.false_eq_true, if_false, if_true, skipBlank_cons hquote,
    nameRest_written]

theorem nextName_close (s : List Char) : nextName first ('\x7d' :: s) = .ok (none, s) := rfl

/-- No value goes on with the comma or the brace behind it. -/
theorem endsNumber_moreEntries (entries : List (String × List Char)) (s : List Char) :
    EndsNumber (moreEntries entries ++ '\x7d' :: s) := by
  cases entries with
  | nil =>
    rintro c ⟨⟩
    decide
  | cons entry entries =>
    rintro c ⟨⟩
    decide

theorem moreEntries_cons (w : Written fields) (ws : List (Written fields)) (s : List Char) :
    moreEntries ((w :: ws).map Written.entry) ++ s = ',' :: (writeText w.field.name ++
      ':' :: (w.text ++ (moreEntries (ws.map Written.entry) ++ s))) := by
  simp [moreEntries, Written.entry]

theorem readEntries_moreEntries {ws : List (Written fields)}
    (hnodup : (ws.map fun w => w.field.name).Nodup) (hmet : ∀ w ∈ ws, w.field.name ∉ met)
    (s : List Char) :
    readEntries fields false met v (moreEntries (ws.map Written.entry) ++ '\x7d' :: s) =
      .ok (Written.set ws v, s) := by
  -- The names still to come are not among those met, and stay so as they differ from each other.
  induction ws generalizing met v with
  | nil => exact readEntries_of_end (nextName_close s)
  | cons w ws ih =>
    obtain ⟨hnew, hrest⟩ := List.nodup_cons.mp hnodup
    have hmet' : ∀ w' ∈ ws, w'.field.name ∉ w.field.name :: met := by
      intro w' hw' hmem
      obtain heq | hold := List.mem_cons.mp hmem
      · exact hnew (List.mem_map.mpr ⟨w', hw', heq⟩)
      · exact hmet w' (List.mem_cons_of_mem w hw') hold
    rw [moreEntries_cons, readEntries_of_entry (nextName_comma_writeText _ _)
      (entryRest_written w (hmet w List.mem_cons_self) (endsNumber_moreEntries _ s))]
    exact ih hrest hmet'

/-- An object of written values of different fields sets these fields. -/
theorem readRecord_writeObject {ws : List (Written fields)}
    (hnodup : (ws.map fun w => w.field.name).Nodup) (typeName : String) (v : ρ) :
    readRecord typeName fields v (writeObject (ws.map Written.entry)) = .ok (Written.set ws v, []) := by
  have hbracket : '\x7b' ≠ '[' := by decide
  rw [writeObject, readRecord, List.cons_append, skipBlank_cons rfl]
  simp only [if_neg hbracket, if_true]
  cases ws with
  | nil => exact readEntries_of_end (nextName_close [])
  | cons w ws =>
    obtain ⟨hnew, hrest⟩ := List.nodup_cons.mp hnodup
    have hmet : ∀ w' ∈ ws, w'.field.name ∉ [w.field.name] := fun w' hw' hmem =>
      hnew (List.mem_map.mpr ⟨w', hw', List.mem_singleton.mp hmem⟩)
    have hwritten : writeEntries ((w :: ws).map Written.entry) ++ ['\x7d'] =
        writeText w.field.name ++
          ':' :: (w.text ++ (moreEntries (ws.map Written.entry) ++ ['\x7d'])) := by
      rw [List.map_cons, Written.entry, writeEntries_cons]
      simp
    rw [hwritten, readEntries_of_entry (nextName_writeText _ _)
      (entryRest_written w List.not_mem_nil (endsNumber_moreEntries _ []))]
    exact readEntries_moreEntries hrest hmet []

theorem readAll_ofList {α : Type} {read : List Char → Except Failure (α × List Char)} {s : List Char}
    {a : α} (h : read s = .ok (a, [])) : readAll read (String.ofList s) = .ok a := by
  rw [readAll, String.toList_ofList, h]
  rfl

end MessageIndex.Json

namespace MessageIndex

open Json

/-! ## Settings and logging options -/

namespace Settings

/-- The values written for settings, in the order of the fields. -/
def written (s : Settings) : List (Written fields) := [
  ⟨fields[0], rfl, _, _, Field.reads_of (Reader.reads_boolean s.enableSearchLog)⟩,
  ⟨fields[1], rfl, _, _, Field.reads_of (Reader.reads_count s.maxRangeCount)⟩]

theorem parse_render (s : Settings) : parse s.render = .ok s := by
  have hnodup : (s.written.map fun w => w.field.name).Nodup := by
    show ["enable_search_log", "max_range_count"].Nodup
    decide
  exact readAll_ofList (readRecord_writeObject hnodup "struct ConsumeQueueConfig" {})

end Settings

namespace Logging

theorem Format.ofNameOrEmpty_name (f : Format) : Format.ofNameOrEmpty f.name = .ok f := by
  cases f <;> rfl

namespace Options

/-- The values written for options, in the order of the fields. -/
def written (o : Options) : List (Written fields) := [
  ⟨fields[0], rfl, _, _, Field.reads_of (Reader.reads_text o.dir)⟩,
  ⟨fields[1], rfl, _, _, Field.reads_of (Reader.reads_optionalText o.level)⟩,
  ⟨fields[2], rfl, _, _, Field.reads_of
    ((Reader.reads_text o.logFormat.name).mapM (Format.ofNameOrEmpty_name o.logFormat))⟩,
  ⟨fields[3], rfl, _, _, Field.reads_of (Reader.reads_count o.maxLogFiles)⟩,
  ⟨fields[4], rfl, _, _, Field.reads_of (Reader.reads_boolean o.appendStdout)⟩]

theorem parse_render (o : Options) : parse o.render = .ok o := by
  have hnodup : (o.written.map fun w => w.field.name).Nodup := by
    show ["dir", "level", "log_format", "max_log_files", "append_stdout"].Nodup
    decide
  exact readAll_ofList (readRecord_writeObject hnodup "struct LoggingOptions" {})

end Options

end Logging

/-- Settings and logging options are what their documents say, whatever texts and numbers they hold. -/
theorem documents_read_back :
    (∀ s : Settings, Settings.parse s.render = .ok s) ∧
      ∀ o : Logging.Options, Logging.Options.parse o.render = .ok o :=
  ⟨Settings.parse_render, Logging.Options.parse_render⟩

end MessageIndex
