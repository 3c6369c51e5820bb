/-!
# Values of fields

Events of an index and log records carry named fields; what a field can hold is the same for both.
-/

namespace MessageIndex

/-- The value of a field. -/
inductive FieldValue where
  /-- A text. -/
  | text (s : String)
  /-- A whole number. -/
  | integer (n : Int)
  /-- Yes or no. -/
  | flag (b : Bool)
  deriving DecidableEq, Repr

end MessageIndex
