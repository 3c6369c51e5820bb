/-!
# Severity levels

Log events and log records carry one of five levels. A `Threshold` is what a filter sets: a level,
which admits itself and everything more severe, or nothing at all.
-/

namespace MessageIndex

/-- How severe an event is, the most severe first. -/
inductive Level where
  /-- Something could not be done. -/
  | error
  /-- Something may be wrong. -/
  | warn
  /-- Something worth knowing in normal operation. -/
  | info
  /-- Something of use to whoever looks for a fault. -/
  | debug
  /-- A single step, of which there are very many. -/
  | trace
  deriving DecidableEq, Repr

namespace Level

/-- The number of a level: the more severe, the smaller; zero is left for "off". -/
def rank : Level → Nat
  | error => 1
  | warn => 2
  | info => 3
  | debug => 4
  | trace => 5

/-- How a level is written. -/
def name : Level → String
  | error => "ERROR"
  | warn => "WARN"
  | info => "INFO"
  | debug => "DEBUG"
  | trace => "TRACE"

end Level

/-- The least severe level that passes; `none` passes nothing. -/
abbrev Threshold := Option Level

namespace Threshold

/-- The number of a threshold, zero for the one that passes nothing. -/
def rank (t : Threshold) : Nat := t.elim 0 Level.rank

/-- A threshold passes the levels that are at least as severe. -/
def admits (t : Threshold) (level : Level) : Bool := level.rank ≤ rank t

@[simp] theorem admits_none (level : Level) : admits none level = false := by
  cases level <;> rfl

@[simp] theorem admits_some (limit level : Level) :
    admits (some limit) level = decide (level.rank ≤ limit.rank) := rfl

end Threshold

end MessageIndex
