import MessageIndex.Proofs.LogSetUp

/-!
# Proofs: a log session call by call

Once logging has been set up, two things decide what a call writes: the filter in force, and whether test
logging has been started. The first is changed by reloads only, the second by the start of test logging
(`call_of_logger`). So what a process has written can be told from its calls alone, without following its
state (`calls_of_logger`): to each record belongs the filter of the last reload before it, or else the one
logging was set up with (`logged`).
-/

namespace MessageIndex.Logging

/-- The same logging with another filter in force. -/
def Logger.withFilter (l : Logger) (filter : Filter) : Logger := { l with filter }

namespace Session

/-- What can happen in a process that has set its logging up. -/
inductive Call where
  /-- Logs a record. -/
  | log (r : Record)
  /-- Puts another filter in force; a text that is no filter changes nothing. -/
  | reload (text : String)
  /-- Tries to set logging up again, in any of the ways. -/
  | launch (how : Launch)

/-- The call that a step makes. -/
def Step.call : Step → Call
  | .log r => .log r
  | .reload text => .reload text
  | .setUpAgain app o => .launch (.withOptions app o)

/-- Makes a call; a set-up answers the number of sinks it opened. -/
def call (p : Session) : Call → List Nat × Session
  | .log r => p.step (.log r)
  | .reload text => p.step (.reload text)
  | .launch how =>
    let (outcome, p) := p.launch how
    (outcome.toOption.toList, p)

/-- Makes calls in order. -/
def calls (p : Session) : List Call → List Nat × Session
  | [] => ([], p)
  | c :: rest =>
    let (opened, p) := p.call c
    let (more, p) := p.calls rest
    (opened ++ more, p)

variable {p : Session} {l : Logger}

theorem step_eq_call (p : Session) (s : Step) : p.step s = p.call s.call := by
  cases s <;> rfl

/-- A run makes the calls that its steps stand for. -/
theorem run_eq_calls (p : Session) (steps : List Step) : p.run steps = p.calls (steps.map Step.call) := by
  induction steps generalizing p with
  | nil => rfl
  | cons s rest ih =>
    show ((p.step s).1 ++ ((p.step s).2.run rest).1, ((p.step s).2.run rest).2) = _
    rw [ih, step_eq_call]
    rfl

theorem calls_append (p : Session) (before after : List Call) :
    p.calls (before ++ after) =
      ((p.calls before).1 ++ ((p.calls before).2.calls after).1, ((p.calls before).2.calls after).2) := by
  induction before generalizing p with
  | nil => rfl
  | cons c before ih =>
    show ((p.call c).1 ++ ((p.call c).2.calls (before ++ after)).1,
      ((p.call c).2.calls (before ++ after)).2) = _
    rw [ih, ← List.append_assoc]
    rfl

/-! ## What a call says -/

namespace Call

/-- The filter that a call puts in force. -/
def reloaded? : Call → Option Filter
  | reload text => (Filter.parse text).toOption
  | _ => none

/-- Whether a call starts test logging. -/
def isUnittest : Call → Bool
  | launch how => how.isUnittest
  | _ => false

/-- The records a call logs; `started` says that test logging has been started before. -/
def records (env : Environment) (started : Bool) : Call → List Record
  | log r => [r]
  | reload _ => []
  | launch how => how.records env started

/-- What a call answers where logging has been set up: a set-up opens no sink any more. -/
def answers : Call → List Nat
  | launch _ => [0]
  | _ => []

/-- Whether no record is logged by a call, however the session stands. -/
def Quiet (c : Call) : Prop := ∀ env started, c.records env started = []

end Call

theorem reload_of_logger (h : p.logger = some l) (text : String) :
    p.reload text = { p with
      logger := some (l.withFilter ((Filter.parse text).toOption.getD l.filter)) } := by
  unfold reload
  rw [h]
  cases Filter.parse text with
  | error cause =>
    show p = { p with logger := some l }
    rw [← h]
  | ok filter => rfl

/-- All that a call does where logging has been set up. -/
theorem call_of_logger (h : p.logger = some l) (c : Call) :
    p.call c = (c.answers, { p with
      logger := some (l.withFilter (c.reloaded?.getD l.filter))
      unittestStarted := p.unittestStarted || c.isUnittest
      transcript := p.transcript.append fun sink =>
        (c.records p.environment p.unittestStarted).flatMap (l.lines sink) }) := by
  obtain ⟨env, files, logger, started, transcript⟩ := p
  obtain rfl : logger = some l := h
  cases c with
  | log r =>
    rw [call, step, log_of_logger rfl]
    simp [Call.answers, Call.records, Call.isUnittest, Call.reloaded?, Logger.withFilter]
  | reload text =>
    rw [call, step, reload_of_logger rfl]
    simp [Call.answers, Call.records, Call.isUnittest, Call.reloaded?]
  | launch how =>
    rw [call, launch_of_logger rfl]
    rfl

/-! ## What calls in a row say -/

/-- The filter in force after some calls: that of the last reload, or else the initial one. -/
def filterInForce (initial : Filter) (cs : List Call) : Filter :=
  (cs.filterMap Call.reloaded?).getLast?.getD initial

/-- The records of some calls in order, each with the filter in force when it was logged. -/
def logged (env : Environment) (started : Bool) (initial : Filter) (cs : List Call) :
    List (Filter × Record) :=
  cs.zipIdx.flatMap fun (c, i) =>
    (c.records env (started || (cs.take i).any Call.isUnittest)).map
      (filterInForce initial (cs.take i), ·)

theorem filterInForce_cons (initial : Filter) (c : Call) (cs : List Call) :
    filterInForce initial (c :: cs) = filterInForce (c.reloaded?.getD initial) cs := by
  unfold filterInForce
  cases hc : c.reloaded? with
  | none => rw [List.filterMap_cons_none hc, Option.getD_none]
  | some filter =>
    rw [List.filterMap_cons_some hc, List.getLast?_cons, Option.getD_some, Option.getD_some]

theorem filterInForce_append (initial : Filter) (before after : List Call) :
    filterInForce initial (before ++ after) = filterInForce (filterInForce initial before) after := by
  induction before generalizing initial with
  | nil => rfl
  | cons c before ih => rw [List.cons_append, filterInForce_cons, filterInForce_cons, ih]

theorem logged_cons (env : Environment) (started : Bool) (initial : Filter) (c : Call)
    (cs : List Call) :
    logged env started initial (c :: cs) = (c.records env started).map (initial, ·) ++
      logged env (started || c.isUnittest) (c.reloaded?.getD initial) cs := by
  unfold logged
  rw [List.zipIdx_cons', List.flatMap_cons, List.flatMap_map]
  congr 1
  · simp [filterInForce]
  · refine congrArg (cs.zipIdx.flatMap ·) (funext fun (c', i) => ?_)
    simp [filterInForce_cons, Bool.or_assoc]

theorem logged_of_quiet {cs : List Call} (h : ∀ c ∈ cs, c.Quiet) (env : Environment) (started : Bool)
    (initial : Filter) : logged env started initial cs = [] := by
  induction cs generalizing started initial with
  | nil => rfl
  | cons c cs ih =>
    obtain ⟨hc, hrest⟩ := List.forall_mem_cons.mp h
    rw [logged_cons, hc, ih hrest]
    rfl

end Session

namespace Logger

/-- The lines that records write to a sink, each under its own filter. -/
def writes (l : Logger) (entries : List (Filter × Record)) (sink : Sink) : List Line :=
  entries.flatMap fun (filter, r) => (l.withFilter filter).lines sink r

theorem writes_append (l : Logger) (entries entries' : List (Filter × Record)) (sink : Sink) :
    l.writes (entries ++ entries') sink = l.writes entries sink ++ l.writes entries' sink :=
  List.flatMap_append

theorem writes_map (l : Logger) (rs : List Record) (sink : Sink) :
    l.writes (rs.map (l.filter, ·)) sink = rs.flatMap (l.lines sink) := by
  unfold writes
  rw [List.flatMap_map]
  rfl

end Logger

namespace Session

variable {p : Session} {l : Logger}

/-- All that calls do where logging has been set up. -/
theorem calls_of_logger (h : p.logger = some l) (cs : List Call) :
    p.calls cs = (cs.flatMap Call.answers, { p with
      logger := some (l.withFilter (filterInForce l.filter cs))
      unittestStarted := p.unittestStarted || cs.any Call.isUnittest
      transcript := p.transcript.append
        (l.writes (logged p.environment p.unittestStarted l.filter cs)) }) := by
  -- On the calls, whatever the session: the first one leaves a session with a logger again.
  induction cs generalizing p l with
  | nil =>
    obtain ⟨env, files, logger, started, transcript⟩ := p
    obtain rfl : logger = some l := h
    have hnothing : l.writes (logged env started l.filter []) = fun _ => [] := rfl
    rw [hnothing, Transcript.append_nil, List.any_nil, Bool.or_false]
    rfl
  | cons c cs ih =>
    have hwrites : l.writes (logged p.environment p.unittestStarted l.filter (c :: cs)) =
        fun sink => (c.records p.environment p.unittestStarted).flatMap (l.lines sink) ++
          l.writes (logged p.environment (p.unittestStarted || c.isUnittest)
            (c.reloaded?.getD l.filter) cs) sink := by
      funext sink
      rw [logged_cons, Logger.writes_append, Logger.writes_map]
    show ((p.call c).1 ++ ((p.call c).2.calls cs).1, ((p.call c).2.calls cs).2) = _
    rw [call_of_logger h, ih rfl, hwrites, filterInForce_cons, List.any_cons, ← Bool.or_assoc,
      ← Transcript.append_append]
    rfl

/-! ## Calls that can be left out -/

theorem logger_calls (h : p.logger = some l) (cs : List Call) :
    (p.calls cs).2.logger = some (l.withFilter (filterInForce l.filter cs)) := by
  rw [calls_of_logger h]

theorem get_calls (h : p.logger = some l) (cs : List Call) (sink : Sink) :
    (p.calls cs).2.transcript.get sink = p.transcript.get sink ++
      l.writes (logged p.environment p.unittestStarted l.filter cs) sink := by
  rw [calls_of_logger h, Transcript.get_append]

/-- What is written behind a record does not depend on it. -/
theorem get_calls_log (h : p.logger = some l) (r : Record) (after : List Call) (sink : Sink) :
    (p.calls (.log r :: after)).2.transcript.get sink = p.transcript.get sink ++ (l.lines sink r ++
      l.writes (logged p.environment p.unittestStarted l.filter after) sink) := by
  have hrecords : (Call.log r).records p.environment p.unittestStarted = [r] := rfl
  have hfilter : (Call.log r).reloaded?.getD l.filter = l.filter := rfl
  have hstarted : (Call.log r).isUnittest = false := rfl
  rw [get_calls h, logged_cons, Logger.writes_append, Logger.writes_map, hrecords, hfilter, hstarted,
    Bool.or_false, List.flatMap_singleton]

/-- Setting up once more changes nothing, unless it starts test logging. -/
theorem launch_eq_self (h : p.logger = some l) {how : Launch}
    (hstarted : how.isUnittest = true → p.unittestStarted = true) :
    p.launch how = (.ok 0, p) := by
  have hrecords : how.records p.environment p.unittestStarted = [] := by
    cases how with
    | unittest => rw [Launch.records, if_pos (hstarted rfl)]
    | withOptions | standard => rfl
  have hflag : (p.unittestStarted || how.isUnittest) = p.unittestStarted := by
    cases hunittest : how.isUnittest with
    | true => rw [hstarted hunittest, Bool.true_or]
    | false => rw [Bool.or_false]
  rw [launch_of_logger h, hrecords, hflag]
  show (Except.ok 0, { p with transcript := p.transcript.append fun _ => [] }) = _
  rw [Transcript.append_nil]

theorem quiet_reload (text : String) : (Call.reload text).Quiet := fun _ _ => rfl

/-- A reload is without effect where another one follows before anything is logged. -/
theorem calls_reload_reload (h : p.logger = some l) {between : List Call}
    (hquiet : ∀ c ∈ between, c.Quiet) {text text' : String} {filter : Filter}
    (hfilter : Filter.parse text' = .ok filter) :
    p.calls (.reload text :: (between ++ [.reload text'])) = p.calls (between ++ [.reload text']) := by
  have hrest : ∀ c ∈ between ++ [.reload text'], c.Quiet :=
    List.forall_mem_append.mpr ⟨hquiet, List.forall_mem_singleton.mpr (quiet_reload text')⟩
  have hall : ∀ c ∈ Call.reload text :: (between ++ [.reload text']), c.Quiet :=
    List.forall_mem_cons.mpr ⟨quiet_reload text, hrest⟩
  have hlast (initial : Filter) : filterInForce initial [.reload text'] = filter := by
    rw [filterInForce_cons, Call.reloaded?, hfilter]
    rfl
  rw [calls_of_logger h, calls_of_logger h, logged_of_quiet hall, logged_of_quiet hrest,
    filterInForce_cons, filterInForce_append, filterInForce_append, hlast, hlast]
  rfl

end Session

open Session

/-- After a successful set-up, each sink holds the notice of test logging, if there was one, and behind it
what one call after the other wrote, each under the filter of the last reload before it or else the one
logging was set up with. So a record adds its own lines only; setting up again opens nothing and changes
nothing, however it is done, but for a first start of test logging; and a reload has no effect if another
one follows before anything is logged. -/
theorem session_decided_call_by_call (env : Environment) (how : Launch) {n : Nat} {p : Session}
    (hstart : Session.launch { environment := env } how = (.ok n, p)) :
    ∃ l : Logger, p.logger = some l ∧
      Filter.parse (filterText env (how.options env)) = .ok l.filter ∧
      (∀ sink, p.transcript.get sink = (how.records env false).flatMap (l.lines sink)) ∧
      (∀ cs, (p.calls cs).2.logger = some (l.withFilter (filterInForce l.filter cs)) ∧
        (p.calls cs).2.files = p.files ∧
        ∀ sink, (p.calls cs).2.transcript.get sink = p.transcript.get sink ++
          l.writes (logged env how.isUnittest l.filter cs) sink) ∧
      (∀ before r after sink, ∃ rest,
        (p.calls (before ++ after)).2.transcript.get sink =
          (p.calls before).2.transcript.get sink ++ rest ∧
        (p.calls (before ++ .log r :: after)).2.transcript.get sink =
          (p.calls before).2.transcript.get sink ++
            ((l.withFilter (filterInForce l.filter before)).lines sink r ++ rest)) ∧
      (∀ before again after, ((p.calls before).2.launch again).1 = .ok 0 ∧
        ((again.isUnittest = true → how.isUnittest = true ∨ before.any Call.isUnittest = true) →
          (p.calls (before ++ .launch again :: after)).2 = (p.calls (before ++ after)).2)) ∧
      ∀ before text between text' filter after, Filter.parse text' = .ok filter →
        (∀ c ∈ between, c.Quiet) →
        p.calls (before ++ .reload text :: (between ++ .reload text' :: after)) =
          p.calls (before ++ (between ++ .reload text' :: after)) := by
  obtain ⟨files, filter, -, hfilter, hp⟩ := launch_eq_ok rfl rfl hstart
  have hlogger : p.logger = some (loggerOf (how.options env) filter) := by rw [hp]
  have henv : p.environment = env := by rw [hp]
  have hunittest : p.unittestStarted = how.isUnittest := by rw [hp]
  refine ⟨loggerOf (how.options env) filter, hlogger, hfilter, fun sink => ?_,
    fun cs => ⟨logger_calls hlogger cs, ?_, fun sink => ?_⟩, fun before r after sink => ?_,
    fun before again after => ?_, fun before text between text' filter' after hparse hquiet => ?_⟩
  · rw [hp, Transcript.get_append]
    cases sink <;> rfl
  · rw [calls_of_logger hlogger]
  · rw [get_calls hlogger, henv, hunittest]
  · have hbefore := logger_calls hlogger before
    rw [calls_append, calls_append]
    exact ⟨_, get_calls hbefore after sink, get_calls_log hbefore r after sink⟩
  · have hbefore := logger_calls hlogger before
    refine ⟨by rw [launch_of_logger hbefore], fun hstarted => ?_⟩
    have hself : (p.calls before).2.launch again = (.ok 0, (p.calls before).2) := by
      refine launch_eq_self hbefore fun hagain => ?_
      rw [calls_of_logger hlogger, hunittest]
      exact Bool.or_eq_true_iff.mpr (hstarted hagain)
    rw [calls_append, calls_append, calls, call, hself]
  · have hbefore := logger_calls hlogger before
    have hcut (cs : List Call) : cs ++ .reload text' :: after = (cs ++ [.reload text']) ++ after := by
      rw [List.append_assoc]
      rfl
    rw [calls_append, calls_append, hcut between, ← List.cons_append, calls_append, calls_append,
      calls_reload_reload hbefore hquiet hparse]

/-- Test logging that is started twice writes its notice once, and a record of the level DEBUG once the
filter passes it. -/
theorem session_decided_call_by_call_of_reload :
    let env : Environment := { unittestLogDir := some "logs", unittestLogLevel := some "info" }
    let p := (Session.launch { environment := env } .unittest).2
    let r : Record := ⟨.debug, "app", "m", .event 1 none⟩
    Session.launch { environment := env } .unittest = (.ok 0, p) ∧
      (p.calls [.log r, .reload "debug", .launch .unittest, .log r]).2.transcript.get .main =
        [.text " INFO cqindex_common_telemetry::logging: logs dir = logs", .text "DEBUG app: m n=1"] := by
  intro env p r
  have hstart : Session.launch { environment := env } .unittest = (.ok 0, p) :=
    launch_of_toOption (by decide +kernel)
  obtain ⟨l, hlogger, -, hnotice, hcalls, -⟩ := session_decided_call_by_call env .unittest hstart
  have hl : p.logger = some ⟨.text, [.main, .errors], [⟨none, [], some .info⟩]⟩ := by decide +kernel
  obtain rfl := Option.some.inj (hlogger.symm.trans hl)
  refine ⟨hstart, ?_⟩
  rw [(hcalls _).2.2, hnotice]
  decide +kernel

end MessageIndex.Logging
