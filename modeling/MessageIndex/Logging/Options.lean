import MessageIndex.Json.Record
import MessageIndex.Json.Writer

/-!
# Logging options

How a process logs: where its log files go, what passes, in which format lines are written, and
whether they also go to standard output. Options are read from a JSON document, with a default for
what is not given; the format may be given as an empty text, which means the default too. Standing
alone, a format is its name or an object with its name and null.
-/

namespace MessageIndex.Logging

/-- How log lines are written. -/
inductive Format where
  /-- One JSON object for each line. -/
  | json
  /-- Plain text. -/
  | text
  deriving DecidableEq, Repr

namespace Format

/-- The name in documents. -/
def name : Format → String
  | json => "json"
  | text => "text"

/-- The name as it is shown. -/
def label : Format → String
  | json => "Json"
  | text => "Text"

/-- The format with a name. -/
def ofName (name : String) : Except Json.Misfit Format :=
  if name = json.name then .ok json
  else if name = text.name then .ok text
  else .error (.unknownVariant name json.name text.name)

/-- The format with a name, or the default for an empty name. -/
def ofNameOrEmpty (name : String) : Except Json.Misfit Format :=
  if name.isEmpty then .ok text
  else
    match ofName name with
    | .ok f => .ok f
    | .error cause => .error (.neitherEmptyNor cause)

end Format

/-- How a process logs. -/
structure Options where
  /-- The directory of the log files; none are written if it is empty. -/
  dir : String := ""
  /-- The filter, if the options say one. -/
  level : Option String := none
  /-- How lines are written. -/
  logFormat : Format := .text
  /-- How many files are kept of each log. -/
  maxLogFiles : UInt64 := 720
  /-- Lines also go to standard output. -/
  appendStdout : Bool := true
  deriving DecidableEq, Repr

namespace Options

/-- The directory that a process uses that logs to files without a choice of its own. -/
def defaultDir : String := "logs"

/-- The fields of the options in the order of their declaration. -/
def fields : List (Json.Field Options) := [
  .of "dir" .text fun t o => { o with dir := t },
  .of "level" .optionalText fun t o => { o with level := t },
  .of "log_format" (Json.Reader.text.mapM Format.ofNameOrEmpty) fun f o => { o with logFormat := f },
  .of "max_log_files" .count fun n o => { o with maxLogFiles := n },
  .of "append_stdout" .boolean fun b o => { o with appendStdout := b }]

/-- Reads options from a document. -/
def parse (text : String) : Except Json.Failure Options :=
  Json.readAll (Json.readRecord "struct LoggingOptions" fields {}) text

/-- The options as a compact document. -/
def render (o : Options) : String :=
  String.ofList (Json.writeObject [
    ("dir", Json.writeText o.dir),
    ("level", Json.writeOptionalText o.level),
    ("log_format", Json.writeText o.logFormat.name),
    ("max_log_files", Json.writeCount o.maxLogFiles),
    ("append_stdout", Json.writeBoolean o.appendStdout)])

end Options

namespace Format

/-- Reads null, which is all that may stand beside the name of a format. -/
def readNull (s : List Char) : Except Json.Failure (List Char) :=
  match Json.skipBlank s with
  | [] => .error .ended
  | c :: r =>
    if c = 'n' then Json.word "ull".toList r else .error (Json.unexpected "unit" (c :: r))

/-- Reads the closing brace behind a format that is given as an object. -/
def readClose (s : List Char) : Except Json.Failure (List Char) :=
  match Json.skipBlank s with
  | [] => .error .ended
  | c :: r => if c = '\x7d' then .ok r else .error .malformed

/-- Reads the name of a format. What is no text is not even looked at. -/
def readName (s : List Char) : Except Json.Failure (Format × List Char) :=
  match Json.skipBlank s with
  | [] => .error .ended
  | c :: r =>
    if c = '"' then do
      let (name, r) ← Json.textRest r
      match ofName (String.ofList name) with
      | .ok f => return (f, r)
      | .error cause => throw (.unfit cause)
    else .error .malformed

/-- Reads a format that stands alone: its name, or an object with its name and null. -/
def read (s : List Char) : Except Json.Failure (Format × List Char) :=
  match Json.skipBlank s with
  | [] => .error .ended
  | c :: r =>
    if c = '\x7b' then do
      let (f, r) ← readName r
      let r ← Json.skipColon r
      let r ← readNull r
      let r ← readClose r
      return (f, r)
    else readName (c :: r)

/-- Reads a format from a document of its own. -/
def parse (text : String) : Except Json.Failure Format := Json.readAll read text

/-- A format as a document. -/
def render (f : Format) : String := String.ofList (Json.writeText f.name)

end Format

end MessageIndex.Logging
