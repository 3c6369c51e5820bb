/-!
# Settings of an index

Two settings govern the reads of an index. They start from their defaults and are changed one at a
time, or all together, in the order the changes are made.
-/

namespace MessageIndex

/-- What governs the reads of an index. -/
structure Settings where
  /-- Report every probe of a search. -/
  enableSearchLog : Bool := false
  /-- The most keys that one range read asks the store for; longer requests are cut to it. -/
  maxRangeCount : UInt64 := 1024
  deriving DecidableEq, Repr

/-- One change of settings. -/
inductive SettingsChange where
  /-- Says whether probes are reported. -/
  | enableSearchLog (enable : Bool)
  /-- Sets the most keys of one range read. -/
  | maxRangeCount (count : UInt64)
  /-- Sets everything at once. -/
  | all (settings : Settings)
  deriving DecidableEq, Repr

namespace Settings

/-- The settings after a change. -/
def change (s : Settings) : SettingsChange → Settings
  | .enableSearchLog enable => { s with enableSearchLog := enable }
  | .maxRangeCount count => { s with maxRangeCount := count }
  | .all settings => settings

/-- The default settings after some changes, the first one first. -/
def build (changes : List SettingsChange) : Settings := changes.foldl change {}

end Settings

end MessageIndex
