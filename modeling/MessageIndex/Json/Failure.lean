import MessageIndex.Decimal.Shortest
import MessageIndex.Text.Quoted

/-!
# Why a document is refused

A JSON document that is read for a value of a certain type can fail in three ways: the text ends
early, it is no JSON (or has a shape that no reader takes), or it is JSON that does not fit the type.
Only the last one is put into words; a `Misfit` is its cause.
-/

namespace MessageIndex.Json

/-- What a reader met in place of what it expected. -/
inductive Seen where
  /-- The word for no value. -/
  | null
  /-- A truth value. -/
  | boolean (b : Bool)
  /-- An integer of 64 bits, with a sign or without. -/
  | integer (n : Int)
  /-- A number that is read as a double. -/
  | float (x : Float)
  /-- A text, without its quotes and escapes. -/
  | text (s : String)
  /-- An array, whatever it holds. -/
  | array
  /-- An object, whatever it holds. -/
  | object

/-- How what was met is put into words. Numbers and truth values stand in backticks, a text in
quotes. -/
def Seen.describe : Seen → String
  | null => "null"
  | boolean b => s!"boolean `{b}`"
  | integer n => s!"integer `{n}`"
  | float x => s!"floating point `{Decimal.render x}`"
  | text s => "string " ++ Text.quoted s
  | array => "sequence"
  | object => "map"

/-- Why a value does not fit a type. -/
inductive Misfit where
  /-- A value of another type. -/
  | wrongType (seen : Seen) (expected : String)
  /-- A value of the right type that is out of range. -/
  | wrongValue (seen : Seen) (expected : String)
  /-- A field of a record is given twice. -/
  | duplicateField (name : String)
  /-- A name that is none of two choices. -/
  | unknownVariant (name first second : String)
  /-- A text that is neither empty nor a choice. -/
  | neitherEmptyNor (cause : Misfit)

/-- The text shown for a misfit. -/
def Misfit.message : Misfit → String
  | wrongType seen expected => s!"invalid type: {seen.describe}, expected {expected}"
  | wrongValue seen expected => s!"invalid value: {seen.describe}, expected {expected}"
  | duplicateField name => s!"duplicate field `{name}`"
  | unknownVariant name first second =>
    s!"unknown variant `{name}`, expected `{first}` or `{second}`"
  | neitherEmptyNor cause => s!"invalid value, expect empty string, err: {cause.message}"

/-- Why a document is refused. -/
inductive Failure where
  /-- The text ends early. -/
  | ended
  /-- The text is no JSON, or has a shape that no reader takes. -/
  | malformed
  /-- The value does not fit the type. -/
  | unfit (cause : Misfit)

variable {α β : Type}

theorem bind_eq_ok {x : Except Failure α} {g : α → Except Failure β} {y : β}
    (h : x.bind g = .ok y) : ∃ a, x = .ok a ∧ g a = .ok y := by
  cases x with
  | error e => simp [Except.bind] at h
  | ok a => exact ⟨a, rfl, h⟩

theorem map_eq_ok {f : α → β} {x : Except Failure α} {b : β} (h : x.map f = .ok b) :
    ∃ a, x = .ok a ∧ f a = b := by
  cases x with
  | error e => simp [Except.map] at h
  | ok a => exact ⟨a, rfl, Except.ok.inj h⟩

end MessageIndex.Json
