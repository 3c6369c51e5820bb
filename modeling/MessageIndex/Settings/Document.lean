import MessageIndex.Json.Record
import MessageIndex.Json.Writer
import MessageIndex.Settings

/-!
# Settings as a document

The settings of an index as a JSON document: how they are read, with a default for what is not given,
and how they are written.
-/

namespace MessageIndex.Settings

/-- The fields of the settings in the order of their declaration. -/
def fields : List (Json.Field Settings) := [
  .of "enable_search_log" .boolean fun b s => { s with enableSearchLog := b },
  .of "max_range_count" .count fun n s => { s with maxRangeCount := n }]

/-- Reads settings from a document. -/
def parse (text : String) : Except Json.Failure Settings :=
  Json.readAll (Json.readRecord "struct ConsumeQueueConfig" fields {}) text

/-- The settings as a compact document. -/
def render (s : Settings) : String :=
  String.ofList (Json.writeObject [
    ("enable_search_log", Json.writeBoolean s.enableSearchLog),
    ("max_range_count", Json.writeCount s.maxRangeCount)])

end MessageIndex.Settings
