import MessageIndex.Logging.Location
import MessageIndex.Logging.Record

/-!
# Logging sessions

A process sets its logging up once. Setting up opens the sinks that the options ask for and puts a
filter in force; after that nothing but a reload of the filter changes what is written. Every record
is offered to three sinks: standard output and the main file take what the filter passes, and the
error file takes of that what is an error, without the span of the request, which is no error.

The filter comes from the first of three sources that is there: the options, the environment, and a
default. The files are opened one after the other before the filter is read, so those that were
opened stay, empty, when a later one cannot be opened or the filter turns out to be none.

The clock is left out, here as in the lines, which are given without their time stamps. A log file
stands for all the files that follow one another under its name, with their lines in order: the hourly
change from one to the next is left out, and so is the removal of the oldest ones once there are more
than `maxLogFiles`, an option that nothing here looks at. Lines reach the sinks at once and none is
lost on the way. Standard output is taken to be no terminal, on which plain lines would be coloured.
-/

namespace MessageIndex.Logging

/-- Where lines are written to. -/
inductive Sink where
  /-- Standard output. -/
  | stdout
  /-- The file of all that passes. -/
  | main
  /-- The file of the errors. -/
  | errors
  deriving DecidableEq, Repr

/-- What a process finds around it. -/
structure Environment where
  /-- The filter, where the options say none. -/
  logFilter : Option String := none
  /-- The directory of test logs. -/
  unittestLogDir : Option String := none
  /-- The filter of test logs. -/
  unittestLogLevel : Option String := none
  /-- The regular files below the working directory. -/
  regularFiles : List (List String) := []
  deriving DecidableEq, Repr

/-- Why logging cannot be set up. -/
inductive SetupError where
  /-- The directory cannot hold the log files. -/
  | unusableDir (dir : String)
  /-- What should be a filter is none. -/
  | badFilter (cause : FilterError)
  deriving DecidableEq, Repr

/-- The text shown for a failed set-up. -/
def SetupError.message : SetupError → String
  | unusableDir dir => s!"initializing rolling file appender at {dir}"
  | badFilter _ => "error parsing log level string"

/-- Logging that has been set up. -/
structure Logger where
  /-- How lines are written. -/
  format : Format
  /-- The sinks that are open. -/
  sinks : List Sink
  /-- What passes. -/
  filter : Filter
  deriving DecidableEq, Repr

namespace Logger

/-- The lines that a record writes to a sink: one or none. -/
def lines (l : Logger) (sink : Sink) (r : Record) : List Line :=
  if sink ∈ l.sinks ∧ l.filter.admits r.callsite then
    match sink with
    | .errors => if r.level = .error then [Line.render l.format r none] else []
    | _ =>
      let request := if l.filter.admits Record.requestCallsite then r.request else none
      [Line.render l.format r request]
  else []

end Logger

/-- What has been written so far, for each sink. -/
structure Transcript where
  /-- The lines on standard output. -/
  stdout : List Line := []
  /-- The lines of the main file. -/
  main : List Line := []
  /-- The lines of the error file. -/
  errors : List Line := []
  deriving DecidableEq, Repr

namespace Transcript

/-- What has been written to a sink. -/
def get (t : Transcript) : Sink → List Line
  | .stdout => t.stdout
  | .main => t.main
  | .errors => t.errors

/-- The transcript with more lines for each sink. -/
def append (t : Transcript) (lines : Sink → List Line) : Transcript :=
  ⟨t.stdout ++ lines .stdout, t.main ++ lines .main, t.errors ++ lines .errors⟩

@[simp] theorem get_append (t : Transcript) (lines : Sink → List Line) (sink : Sink) :
    (t.append lines).get sink = t.get sink ++ lines sink := by
  cases sink <;> rfl

@[simp] theorem append_nil (t : Transcript) : (t.append fun _ => []) = t := by
  unfold append
  rw [List.append_nil, List.append_nil, List.append_nil]

@[simp] theorem append_append (t : Transcript) (lines lines' : Sink → List Line) :
    (t.append lines).append lines' = t.append fun sink => lines sink ++ lines' sink := by
  unfold append
  rw [List.append_assoc, List.append_assoc, List.append_assoc]

end Transcript

/-- The logging of one process, from its start on. -/
structure Session where
  /-- What it finds around it. -/
  environment : Environment := {}
  /-- The log files opened so far, each with the sink that writes to it. -/
  files : List (Sink × Location) := []
  /-- The logging, once it has been set up. -/
  logger : Option Logger := none
  /-- Test logging has been started. -/
  unittestStarted : Bool := false
  /-- What has been written. -/
  transcript : Transcript := {}

namespace Session

/-! ## Setting up -/

/-- The filter in force where neither options nor environment say one. -/
def defaultFilter : String := "info"

/-- The text of the filter: of the options, else of the environment, else the default. -/
def filterText (env : Environment) (o : Options) : String :=
  (o.level.or env.logFilter).getD defaultFilter

/-- The log files that the options ask for, by sink and name. -/
def logFiles (app : String) (o : Options) : List (Sink × String) :=
  if o.dir.isEmpty then [] else [(.main, app), (.errors, app ++ "-err")]

/-- The sinks that the options ask for. -/
def sinks (o : Options) : List Sink :=
  (if o.appendStdout then [.stdout] else []) ++ if o.dir.isEmpty then [] else [.main, .errors]

/-- Opens log files in order, up to the first one that the directory cannot hold. -/
def openFiles (p : Session) (dir : String) : List (Sink × String) → Except SetupError Unit × Session
  | [] => (.ok (), p)
  | (sink, name) :: rest =>
    match Location.ofFile p.environment.regularFiles dir name with
    | none => (.error (.unusableDir dir), p)
    | some location => { p with files := p.files ++ [(sink, location)] }.openFiles dir rest

/-- Sets the logging up, unless it has been set up before. The answer is the number of sinks opened;
they are open as long as the process lasts. -/
def setUp (p : Session) (app : String) (o : Options) : Except SetupError Nat × Session :=
  match p.logger with
  | some _ => (.ok 0, p)
  | none =>
    match p.openFiles o.dir (logFiles app o) with
    | (.error e, p) => (.error e, p)
    | (.ok (), p) =>
      match Filter.parse (filterText p.environment o) with
      | .error cause => (.error (.badFilter cause), p)
      | .ok filter =>
        let sinks := sinks o
        (.ok sinks.length, { p with logger := some ⟨o.logFormat, sinks, filter⟩ })

/-- Logs a record. -/
def log (p : Session) (r : Record) : Session :=
  match p.logger with
  | none => p
  | some l => { p with transcript := p.transcript.append fun sink => l.lines sink r }

/-- The directory of test logs where the environment says none. -/
def defaultUnittestDir : String := "/tmp/__unittest_logs"

/-- The filter of test logs where the environment says none. -/
def defaultUnittestFilter : String := "debug,consume_queue=trace"

/-- The options of test logs. -/
def unittestOptions (env : Environment) : Options where
  dir := env.unittestLogDir.getD defaultUnittestDir
  level := some (env.unittestLogLevel.getD defaultUnittestFilter)
  appendStdout := false

/-- The notice that test logging starts with. -/
def unittestNotice (env : Environment) : Record where
  level := .info
  target := "cqindex_common_telemetry::logging"
  message := "logs dir = " ++ (unittestOptions env).dir
  origin := .notice

/-- Starts test logging, unless it has been started before, and says where the logs are. -/
def startUnittest (p : Session) : Except SetupError Unit × Session :=
  if p.unittestStarted then (.ok (), p)
  else
    match { p with unittestStarted := true }.setUp "unittest" (unittestOptions p.environment) with
    | (.error e, p) => (.error e, p)
    | (.ok _, p) => (.ok (), p.log (unittestNotice p.environment))

/-! ## Running -/

/-- The ways of setting logging up. -/
inductive Launch where
  /-- With options. -/
  | withOptions (app : String) (o : Options)
  /-- With default options. -/
  | standard (app : String)
  /-- For tests; starting it a second time has no effect. -/
  | unittest

/-- Sets logging up in one of the ways; the answer is the number of sinks that the caller keeps
open. -/
def launch (p : Session) : Launch → Except SetupError Nat × Session
  | .withOptions app o => p.setUp app o
  | .standard app => p.setUp app {}
  | .unittest =>
    match p.startUnittest with
    | (.error e, p) => (.error e, p)
    | (.ok (), p) =>
      let (outcome, p) := p.startUnittest
      (outcome.map fun _ => 0, p)

/-- What a process does once logging has been set up. -/
inductive Step where
  /-- Logs a record. -/
  | log (r : Record)
  /-- Puts another filter in force; a text that is no filter changes nothing. -/
  | reload (text : String)
  /-- Tries to set logging up again. -/
  | setUpAgain (app : String) (o : Options)

/-- Puts another filter in force. -/
def reload (p : Session) (text : String) : Session :=
  match p.logger, Filter.parse text with
  | some l, .ok filter => { p with logger := some { l with filter } }
  | _, _ => p

/-- Takes a step; a set-up answers the number of sinks it opened. -/
def step (p : Session) : Step → List Nat × Session
  | .log r => ([], p.log r)
  | .reload text => ([], p.reload text)
  | .setUpAgain app o =>
    let (outcome, p) := p.setUp app o
    (outcome.toOption.toList, p)

/-- Takes steps in order. -/
def run (p : Session) : List Step → List Nat × Session
  | [] => ([], p)
  | s :: rest =>
    let (opened, p) := p.step s
    let (more, p) := p.run rest
    (opened ++ more, p)

/-- The log files of a process below its working directory, with their lines. -/
def listing (p : Session) : List (String × List Line) :=
  p.files.filterMap fun (sink, location) =>
    location.path?.map fun path => (path, p.transcript.get sink)

end Session

end MessageIndex.Logging
