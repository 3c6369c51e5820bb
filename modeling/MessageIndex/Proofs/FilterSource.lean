import MessageIndex.Proofs.LogCalls

/-!
# Proofs: where the filter of a session comes from

A set-up looks at the environment for the text of its filter, and only if its options say none. So a session
shows what it would show with options that say this text themselves, whatever the environment says then
(`report_filterText`). That covers set-ups that fail: files are opened before the filter is read, and it is
the same files then.

Sessions that are alike in files, logger and transcript stay alike (`Alike.run`): once logging has been set
up, no step looks at the environment, nor at whether test logging has been started. Hence test logging is a
set-up with options of its own, followed by the notice (`report_unittest`).
-/

namespace MessageIndex.Logging

/-- What a process shows of its logging. -/
structure Report where
  /-- The sinks that the caller of the set-up keeps open. -/
  guards : Nat
  /-- Why the set-up failed, if it did. -/
  failure : Option SetupError
  /-- What later set-ups answered. -/
  again : List Nat
  /-- Whether there is a filter that can be reloaded. -/
  reloadable : Bool
  /-- The lines on standard output. -/
  stdout : List Line
  /-- The log files with their lines, wherever they lie. -/
  files : List (Location × List Line)
  deriving DecidableEq

namespace Session

/-- What a process shows that ends in this session, with what its set-ups answered. -/
def reportOf (p : Session) (guards : Nat) (failure : Option SetupError) (again : List Nat) : Report where
  guards := guards
  failure := failure
  again := again
  reloadable := p.logger.isSome
  stdout := p.transcript.stdout
  files := p.files.map fun (sink, location) => (location, p.transcript.get sink)

/-- Sets logging up and takes steps; a set-up that fails ends the process. -/
def report (env : Environment) (how : Launch) (steps : List Step) : Report :=
  match Session.launch { environment := env } how with
  | (.error e, p) => p.reportOf 0 (some e) []
  | (.ok guards, p) =>
    let (again, p) := p.run steps
    p.reportOf guards none again

/-- Sessions that cannot be told apart by what they show. -/
structure Alike (p q : Session) : Prop where
  /-- The same files are open. -/
  files : p.files = q.files
  /-- The same logging has been set up, if any. -/
  logger : p.logger = q.logger
  /-- The same lines have been written. -/
  transcript : p.transcript = q.transcript

/-- The same answer, from sessions that are alike behind it. -/
def SameEnd {α : Type} (x y : α × Session) : Prop :=
  ∃ a p q, x = (a, p) ∧ y = (a, q) ∧ Alike p q

variable {p q : Session} {l : Logger}

theorem Alike.reportOf (h : Alike p q) (guards : Nat) (failure : Option SetupError) (again : List Nat) :
    p.reportOf guards failure again = q.reportOf guards failure again := by
  rw [Session.reportOf, Session.reportOf, h.files, h.logger, h.transcript]

/-! ## Steps -/

theorem Alike.log (h : Alike p q) (hl : p.logger = some l) (r : Record) :
    Alike (p.log r) (q.log r) := by
  rw [log_of_logger hl, log_of_logger (h.logger ▸ hl)]
  exact ⟨h.files, h.logger, by rw [h.transcript]⟩

theorem Alike.step (h : Alike p q) (hl : p.logger = some l) (s : Step) :
    SameEnd (p.step s) (q.step s) := by
  have hl' : q.logger = some l := h.logger ▸ hl
  cases s with
  | log r => exact ⟨[], _, _, rfl, rfl, h.log hl r⟩
  | reload text =>
    refine ⟨[], _, _, rfl, rfl, ?_⟩
    rw [reload_of_logger hl, reload_of_logger hl']
    exact ⟨h.files, rfl, h.transcript⟩
  | setUpAgain app o =>
    rw [Session.step, Session.step, setUp_of_logger hl, setUp_of_logger hl']
    exact ⟨[0], p, q, rfl, rfl, h⟩

theorem exists_logger_step (hl : p.logger = some l) (s : Step) : ∃ l', (p.step s).2.logger = some l' := by
  rw [step_eq_call, call_of_logger hl]
  exact ⟨_, rfl⟩

theorem Alike.run (h : Alike p q) (hl : p.logger = some l) (steps : List Step) :
    SameEnd (p.run steps) (q.run steps) := by
  induction steps generalizing p q l with
  | nil => exact ⟨[], p, q, rfl, rfl, h⟩
  | cons s rest ih =>
    obtain ⟨l', hl'⟩ := exists_logger_step hl s
    obtain ⟨opened, p', q', hp, hq, hnext⟩ := h.step hl s
    rw [hp] at hl'
    obtain ⟨more, p'', q'', hp', hq', hend⟩ := ih hnext hl'
    refine ⟨opened ++ more, p'', q'', ?_, ?_, hend⟩
    · rw [Session.run, hp]
      simp only [hp']
    · rw [Session.run, hq]
      simp only [hq']

/-! ## Set-ups -/

theorem environment_openFiles (p : Session) (dir : String) (entries : List (Sink × String)) :
    (p.openFiles dir entries).2.environment = p.environment := by
  induction entries generalizing p with
  | nil => rfl
  | cons entry rest ih =>
    obtain ⟨sink, name⟩ := entry
    rw [openFiles]
    cases Location.ofFile p.environment.regularFiles dir name with
    | none => rfl
    | some location => exact ih _

theorem Alike.openFiles (h : Alike p q)
    (hplace : p.environment.regularFiles = q.environment.regularFiles) (dir : String)
    (entries : List (Sink × String)) : SameEnd (p.openFiles dir entries) (q.openFiles dir entries) := by
  induction entries generalizing p q with
  | nil => exact ⟨_, p, q, rfl, rfl, h⟩
  | cons entry rest ih =>
    obtain ⟨sink, name⟩ := entry
    rw [Session.openFiles, Session.openFiles, hplace]
    cases Location.ofFile q.environment.regularFiles dir name with
    | none => exact ⟨_, p, q, rfl, rfl, h⟩
    | some location => exact ih ⟨by rw [h.files], h.logger, h.transcript⟩ hplace

/-- A set-up does what it would do with options that say the text of the filter themselves. -/
theorem Alike.setUp (h : Alike p q)
    (hplace : p.environment.regularFiles = q.environment.regularFiles) (app : String) (o : Options)
    {text : String} (htext : filterText p.environment o = text) :
    SameEnd (p.setUp app o) (q.setUp app { o with level := some text }) := by
  have hfiles : logFiles app { o with level := some text } = logFiles app o := rfl
  have hsaid (env : Environment) : filterText env { o with level := some text } = text := rfl
  cases hl : p.logger with
  | some l =>
    rw [setUp_of_logger hl, setUp_of_logger (h.logger ▸ hl)]
    exact ⟨.ok 0, p, q, rfl, rfl, h⟩
  | none =>
    have hl' : q.logger = none := h.logger ▸ hl
    have henv := environment_openFiles p o.dir (logFiles app o)
    obtain ⟨outcome, p', q', hp, hq, hopen⟩ := h.openFiles hplace o.dir (logFiles app o)
    rw [hp] at henv
    have htext' : filterText p'.environment o = text := (congrArg (filterText · o) henv).trans htext
    rw [Session.setUp, Session.setUp, hl, hl', hfiles, hp, hq]
    cases outcome with
    | error e => exact ⟨.error e, p', q', rfl, rfl, hopen⟩
    | ok =>
      simp only [htext', hsaid]
      cases Filter.parse text with
      | error cause => exact ⟨_, p', q', rfl, rfl, hopen⟩
      | ok filter => exact ⟨_, _, _, rfl, rfl, hopen.files, rfl, hopen.transcript⟩

/-! ## Reports -/

variable {env env' : Environment} {how how' : Launch} {app : String} {o : Options}

theorem SameEnd.report (h : SameEnd (Session.launch { environment := env } how)
    (Session.launch { environment := env' } how')) (steps : List Step) :
    report env how steps = report env' how' steps := by
  obtain ⟨outcome, p, q, hp, hq, halike⟩ := h
  rw [Session.report, Session.report, hp, hq]
  cases outcome with
  | error e => exact halike.reportOf 0 (some e) []
  | ok guards =>
    obtain ⟨files, filter, -, -, hp'⟩ := launch_eq_ok rfl rfl hp
    have hl : p.logger = some (loggerOf (how.options env) filter) := by rw [hp']
    obtain ⟨again, p', q', hrun, hrun', hend⟩ := halike.run hl steps
    simp only [hrun, hrun']
    exact hend.reportOf guards none again

/-- The environment counts for the text of the filter only, which the options can say in its place. -/
theorem report_filterText (env env' : Environment) (hplace : env.regularFiles = env'.regularFiles)
    (app : String) (o : Options) (steps : List Step) :
    report env (.withOptions app o) steps =
      report env' (.withOptions app { o with level := some (filterText env o) }) steps := by
  have hnew : Alike { environment := env } { environment := env' } := ⟨rfl, rfl, rfl⟩
  have hend : SameEnd (Session.launch { environment := env } (.withOptions app o))
      (Session.launch { environment := env' }
        (.withOptions app { o with level := some (filterText env o) })) :=
    hnew.setUp hplace app o rfl
  exact hend.report steps

/-! ## Set-ups that fail -/

theorem failure_report_withOptions (env : Environment) (app : String) (o : Options)
    (steps : List Step) :
    (report env (.withOptions app o) steps).failure =
      match (Session.setUp { environment := env } app o).1 with
      | .error e => some e
      | .ok _ => none := by
  rw [report, launch]
  rcases Session.setUp { environment := env } app o with ⟨e | n, q⟩
  · rfl
  · rfl

theorem failure_eq_none_iff {steps : List Step} :
    (report env (.withOptions app o) steps).failure = none ↔
      ∃ files filter, places env.regularFiles o.dir (logFiles app o) = some files ∧
        Filter.parse (filterText env o) = .ok filter := by
  rw [failure_report_withOptions]
  constructor
  · intro h
    rcases hq : Session.setUp { environment := env } app o with ⟨e | n, q⟩
    · rw [hq] at h
      cases h
    · obtain ⟨files, filter, hfiles, hfilter, -⟩ := (setUp_eq_ok_iff rfl).mp hq
      exact ⟨files, filter, hfiles, hfilter⟩
  · rintro ⟨files, filter, hfiles, hfilter⟩
    have hq := (setUp_eq_ok_iff (p := { environment := env }) rfl).mpr
      ⟨files, filter, hfiles, hfilter, rfl, rfl⟩
    rw [hq]

/-- Where the files can be opened, a text that is no filter is what a set-up fails with. -/
theorem failure_of_badFilter (env : Environment) {files : List (Sink × Location)}
    {cause : FilterError} (hfiles : places env.regularFiles o.dir (logFiles app o) = some files)
    (hcause : Filter.parse (filterText env o) = .error cause) (steps : List Step) :
    (report env (.withOptions app o) steps).failure = some (.badFilter cause) := by
  have hopen := (openFiles_eq_ok_iff (p := { environment := env })).mpr ⟨files, hfiles, rfl⟩
  rw [failure_report_withOptions, setUp, hopen]
  simp only [hcause]

/-! ## Test logging -/

theorem launch_unittest_of_error {e : SetupError}
    (h : Session.setUp { environment := env, unittestStarted := true } "unittest"
      (unittestOptions env) = (.error e, q)) :
    Session.launch { environment := env } .unittest = (.error e, q) := by
  have hstart : Session.startUnittest { environment := env } = (.error e, q) := by
    rw [startUnittest, if_neg Bool.false_ne_true]
    simp only [h]
  rw [launch, hstart]

theorem launch_unittest_of_ok {n : Nat}
    (h : Session.setUp { environment := env, unittestStarted := true } "unittest"
      (unittestOptions env) = (.ok n, q)) :
    Session.launch { environment := env } .unittest = (.ok 0, q.log (unittestNotice env)) := by
  have hstart := startUnittest_of_setUp (p := { environment := env }) rfl h
  obtain ⟨files, filter, -, -, -, rfl⟩ := (setUp_eq_ok_iff rfl).mp h
  exact launch_unittest hstart (log_unittestStarted _ _)

/-- But for the sinks that the caller keeps open, test logging is a set-up with its own options and the
notice behind it. -/
theorem report_unittest (env : Environment) (steps : List Step) :
    report env .unittest steps =
      { report env (.withOptions "unittest" (unittestOptions env))
          (.log (unittestNotice env) :: steps) with guards := 0 } := by
  have hnew : Alike { environment := env, unittestStarted := true } { environment := env } :=
    ⟨rfl, rfl, rfl⟩
  obtain ⟨outcome, p, q, hp, hq, hend⟩ := hnew.setUp rfl "unittest" (unittestOptions env) rfl
  have hlaunch : Session.launch { environment := env } (.withOptions "unittest" (unittestOptions env)) =
      (outcome, q) := hq
  cases outcome with
  | error e =>
    rw [report, report, launch_unittest_of_error hp, hlaunch]
    exact hend.reportOf 0 (some e) []
  | ok n =>
    obtain ⟨files, filter, -, -, -, hp'⟩ := (setUp_eq_ok_iff rfl).mp hp
    have hl : p.logger = some (loggerOf (unittestOptions env) filter) := by rw [hp']
    have hnotice := hend.log hl (unittestNotice env)
    have hl' : (p.log (unittestNotice env)).logger = some (loggerOf (unittestOptions env) filter) := by
      rw [log_of_logger hl]
      exact hl
    obtain ⟨again, p', q', hrun, hrun', hlast⟩ := hnotice.run hl' steps
    rw [report, report, launch_unittest_of_ok hp, hlaunch]
    simp only [hrun, Session.run, Session.step, hrun', List.nil_append]
    exact hlast.reportOf 0 none again

end Session

open Session

/-- A session with the filter in the environment is the one with that filter in the options, whatever the
environment says then, be it a filter or not; and with a filter in neither it is the one with the default.
So, with options that can be set up, an ill-formed filter in the environment fails the set-up just when the
options say none. Test logging does not depend on that variable at all: but for the sinks that the caller
keeps open, it is a set-up with text to files in the directory and under the filter of its own variables,
followed by one record of the level INFO that names the directory. -/
theorem filter_from_first_source (env : Environment) (app : String) (o : Options) (steps : List Step) :
    (∀ text any,
      report { env with logFilter := some text } (.withOptions app { o with level := none }) steps =
        report { env with logFilter := any } (.withOptions app { o with level := some text }) steps) ∧
    (∀ any,
      report { env with logFilter := none } (.withOptions app { o with level := none }) steps =
        report { env with logFilter := any } (.withOptions app { o with level := some "info" }) steps) ∧
    (∀ text cause, Filter.parse text = .error cause →
      (report { env with logFilter := none } (.withOptions app o) steps).failure = none →
      (report { env with logFilter := some text } (.withOptions app o) steps).failure =
        if o.level = none then some (.badFilter cause) else none) ∧
    (∀ any, report { env with logFilter := any } .unittest steps = report env .unittest steps) ∧
    let dir := env.unittestLogDir.getD "/tmp/__unittest_logs"
    let level := env.unittestLogLevel.getD "debug,consume_queue=trace"
    report env .unittest steps =
      { report env
          (.withOptions "unittest"
            { dir, level := some level, logFormat := .text, appendStdout := false })
          (.log ⟨.info, "cqindex_common_telemetry::logging", "logs dir = " ++ dir, .notice⟩ :: steps)
        with guards := 0 } := by
  refine ⟨fun text any => ?_, fun any => ?_, fun text cause hcause hvalid => ?_, fun any => ?_, ?_⟩
  · exact report_filterText { env with logFilter := some text } { env with logFilter := any } rfl app
      { o with level := none } steps
  · exact report_filterText { env with logFilter := none } { env with logFilter := any } rfl app
      { o with level := none } steps
  · obtain ⟨files, filter, hfiles, hfilter⟩ := failure_eq_none_iff.mp hvalid
    obtain ⟨dir, level, logFormat, maxLogFiles, appendStdout⟩ := o
    cases level with
    | none =>
      rw [if_pos rfl]
      exact failure_of_badFilter { env with logFilter := some text } hfiles hcause steps
    | some level =>
      rw [if_neg nofun]
      exact failure_eq_none_iff.mpr ⟨files, filter, hfiles, hfilter⟩
  · rw [report_unittest, report_unittest]
    have hsame := report_filterText { env with logFilter := any } env rfl "unittest" (unittestOptions env)
      (.log (unittestNotice env) :: steps)
    exact congrArg (fun r : Report => { r with guards := 0 }) hsame
  · exact report_unittest env steps

/-- An ill-formed filter in the environment is not looked at where the options say one. -/
theorem filter_from_first_source_of_ill_formed :
    Filter.parse "app=loud" = .error .noLevel ∧
      (report {} (.withOptions "srv" { dir := "logs" }) []).failure = none ∧
      (report { logFilter := some "app=loud" } (.withOptions "srv" { dir := "logs" }) []).failure =
        some (.badFilter .noLevel) ∧
      (report {} (.withOptions "srv" { dir := "logs", level := some "warn" }) []).failure = none ∧
      (report { logFilter := some "app=loud" }
        (.withOptions "srv" { dir := "logs", level := some "warn" }) []).failure = none := by
  have hcause : Filter.parse "app=loud" = .error .noLevel := by rfl
  have hvalid : (report {} (.withOptions "srv" { dir := "logs" }) []).failure = none := by
    decide +kernel
  have hvalid' : (report {} (.withOptions "srv" { dir := "logs", level := some "warn" }) []).failure =
      none := by
    decide +kernel
  obtain ⟨-, -, hfails, -⟩ := filter_from_first_source {} "srv" { dir := "logs" } []
  obtain ⟨-, -, hworks, -⟩ :=
    filter_from_first_source {} "srv" { dir := "logs", level := some "warn" } []
  exact ⟨hcause, hvalid, hfails _ _ hcause hvalid, hvalid', hworks _ _ hcause hvalid'⟩

end MessageIndex.Logging
