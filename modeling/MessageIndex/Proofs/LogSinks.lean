import MessageIndex.Proofs.LogCalls

/-!
# Proofs: how the log sinks of a session agree

All sinks follow one rule, each with a threshold of its own: what passes the filter and the threshold is
written, be it a record or the span that a line shows (`Logger.lines_eq`). Standard output and the main
file have the same threshold, so they hold the same lines. The error file has a higher one, which the
span of a request does not reach.

A set-up with options leaves standard output to one option and the files to another, so neither can be
told from the other (`launch_withOptions_iff`).
-/

namespace MessageIndex.Logging

/-! ## What a sink takes -/

namespace Sink

/-- What a sink takes of that which passes the filter. -/
def threshold : Sink → Threshold
  | errors => some .error
  | _ => some .trace

/-- Whether a sink takes a record or shows a span, with a filter in force. -/
def takes (sink : Sink) (filter : Filter) (c : Callsite) : Bool :=
  filter.admits c && sink.threshold.admits c.level

theorem takes_of_ne_errors {sink : Sink} (h : sink ≠ errors) (filter : Filter) (c : Callsite) :
    sink.takes filter c = filter.admits c := by
  have hall : sink.threshold.admits c.level = true := by
    cases sink with
    | errors => exact absurd rfl h
    | stdout | main => cases c.level <;> rfl
  rw [takes, hall, Bool.and_true]

theorem takes_errors (filter : Filter) (c : Callsite) :
    errors.takes filter c = (decide (c.level = .error) && filter.admits c) := by
  have hlevel : errors.threshold.admits c.level = decide (c.level = .error) := by
    cases c.level <;> rfl
  rw [takes, hlevel, Bool.and_comm]

/-- The span of a request has the level INFO, so the error file shows it under no filter. -/
theorem not_takes_request (filter : Filter) : errors.takes filter Record.requestCallsite = false := by
  rw [takes_errors]
  rfl

end Sink

namespace Logger

variable {l : Logger} {sink : Sink}

theorem lines_eq (l : Logger) (sink : Sink) (r : Record) :
    l.lines sink r =
      if sink ∈ l.sinks ∧ sink.takes l.filter r.callsite then
        [Line.render l.format r
          (if sink.takes l.filter Record.requestCallsite then r.request else none)]
      else [] := by
  unfold lines
  cases sink with
  | errors =>
    have hlevel : r.callsite.level = r.level := rfl
    rw [Sink.takes_errors, Sink.not_takes_request, hlevel]
    by_cases hopen : Sink.errors ∈ l.sinks <;> by_cases hpass : l.filter.admits r.callsite <;>
      by_cases herror : r.level = .error <;> simp [hopen, hpass, herror]
  | stdout | main =>
    rw [Sink.takes_of_ne_errors (by decide), Sink.takes_of_ne_errors (by decide)]

/-- A sink that is open holds a line for each of the records that it takes, in their order. -/
theorem writes_of_mem (h : sink ∈ l.sinks) (entries : List (Filter × Record)) :
    l.writes entries sink =
      (entries.filter fun (filter, r) => sink.takes filter r.callsite).map fun (filter, r) =>
        Line.render l.format r
          (if sink.takes filter Record.requestCallsite then r.request else none) := by
  induction entries with
  | nil => rfl
  | cons entry entries ih =>
    obtain ⟨filter, r⟩ := entry
    have hlines := lines_eq (l.withFilter filter) sink r
    have hopen : sink ∈ (l.withFilter filter).sinks := h
    have hcons : l.writes ((filter, r) :: entries) sink =
        (l.withFilter filter).lines sink r ++ l.writes entries sink := List.flatMap_cons
    rw [hcons, ih, hlines]
    by_cases htakes : sink.takes filter r.callsite = true
    · have hkept := List.filter_cons_of_pos (l := entries) (a := (filter, r))
        (p := fun (filter, r) => sink.takes filter r.callsite) htakes
      rw [if_pos ⟨hopen, htakes⟩, hkept]
      rfl
    · have hdropped := List.filter_cons_of_neg (l := entries) (a := (filter, r))
        (p := fun (filter, r) => sink.takes filter r.callsite) htakes
      rw [if_neg fun hboth => htakes hboth.2, hdropped]
      rfl

theorem writes_of_notMem (h : sink ∉ l.sinks) (entries : List (Filter × Record)) :
    l.writes entries sink = [] := by
  refine List.flatMap_eq_nil_iff.mpr fun (filter, r) _ => ?_
  have hclosed : sink ∉ (l.withFilter filter).sinks := h
  show (l.withFilter filter).lines sink r = []
  rw [lines_eq, if_neg fun hboth => hclosed hboth.1]

end Logger

/-- Those of the records that pass the filter in force. -/
def passed (entries : List (Filter × Record)) : List (Filter × Record) :=
  entries.filter fun (filter, r) => filter.admits r.callsite

/-- The line of a record, with the span of its request where the filter in force passes it. -/
def lineUnder (f : Format) : Filter × Record → Line
  | (filter, r) =>
    Line.render f r (if filter.admits Record.requestCallsite then r.request else none)

namespace Logger

variable {l : Logger} {sink : Sink}

theorem writes_of_ne_errors (h : sink ∈ l.sinks) (hsink : sink ≠ .errors)
    (entries : List (Filter × Record)) :
    l.writes entries sink = (passed entries).map (lineUnder l.format) := by
  rw [writes_of_mem h]
  simp only [Sink.takes_of_ne_errors hsink]
  rfl

theorem writes_errors (h : .errors ∈ l.sinks) (entries : List (Filter × Record)) :
    l.writes entries .errors = ((passed entries).filter fun (_, r) => r.level = .error).map
      fun (_, r) => Line.render l.format r none := by
  rw [writes_of_mem h, passed, List.filter_filter]
  simp only [Sink.takes_errors]
  rfl

end Logger

/-! ## Sessions that are set up with options -/

namespace Session

variable {env : Environment} {app : String} {o : Options} {n : Nat} {p : Session}

theorem mem_sinks {sink : Sink} :
    sink ∈ sinks o ↔ if sink = .stdout then o.appendStdout = true else o.dir ≠ "" := by
  unfold sinks
  by_cases hdir : o.dir = "" <;> cases o.appendStdout <;> cases sink <;> simp [hdir]

/-- A session that options have set up, with its files and its filter. -/
def ofOptions (env : Environment) (o : Options) (files : List (Sink × Location)) (filter : Filter) :
    Session :=
  { environment := env, files, logger := some (loggerOf o filter) }

theorem launch_withOptions_iff :
    Session.launch { environment := env } (.withOptions app o) = (.ok n, p) ↔
      ∃ files filter, places env.regularFiles o.dir (logFiles app o) = some files ∧
        Filter.parse (filterText env o) = .ok filter ∧ n = (sinks o).length ∧
        p = ofOptions env o files filter :=
  setUp_eq_ok_iff (p := { environment := env }) rfl

theorem files_calls_ofOptions (files : List (Sink × Location)) (filter : Filter) (cs : List Call) :
    ((ofOptions env o files filter).calls cs).2.files = files := by
  rw [calls_of_logger rfl]
  rfl

theorem get_calls_ofOptions (files : List (Sink × Location)) (filter : Filter) (cs : List Call)
    (sink : Sink) :
    ((ofOptions env o files filter).calls cs).2.transcript.get sink =
      (loggerOf o filter).writes (logged env false filter cs) sink := by
  rw [get_calls rfl]
  cases sink <;> rfl

theorem main_calls_ofOptions (hdir : o.dir ≠ "") (files : List (Sink × Location)) (filter : Filter)
    (cs : List Call) :
    ((ofOptions env o files filter).calls cs).2.transcript.main =
      (passed (logged env false filter cs)).map (lineUnder o.logFormat) := by
  have hopen : .main ∈ (loggerOf o filter).sinks := mem_sinks.mpr hdir
  have hget : ((ofOptions env o files filter).calls cs).2.transcript.get .main = _ :=
    get_calls_ofOptions files filter cs .main
  rw [Logger.writes_of_ne_errors hopen (by decide)] at hget
  exact hget

theorem errors_calls_ofOptions (hdir : o.dir ≠ "") (files : List (Sink × Location)) (filter : Filter)
    (cs : List Call) :
    ((ofOptions env o files filter).calls cs).2.transcript.errors =
      ((passed (logged env false filter cs)).filter fun (_, r) => r.level = .error).map
        fun (_, r) => Line.render o.logFormat r none := by
  have hopen : .errors ∈ (loggerOf o filter).sinks := mem_sinks.mpr hdir
  have hget : ((ofOptions env o files filter).calls cs).2.transcript.get .errors = _ :=
    get_calls_ofOptions files filter cs .errors
  rw [Logger.writes_errors hopen] at hget
  exact hget

theorem stdout_calls_ofOptions (files : List (Sink × Location)) (filter : Filter) (cs : List Call) :
    ((ofOptions env o files filter).calls cs).2.transcript.stdout =
      if o.appendStdout then (passed (logged env false filter cs)).map (lineUnder o.logFormat)
      else [] := by
  have hget : ((ofOptions env o files filter).calls cs).2.transcript.get .stdout = _ :=
    get_calls_ofOptions files filter cs .stdout
  cases hon : o.appendStdout with
  | true =>
    have hopen : .stdout ∈ (loggerOf o filter).sinks := mem_sinks.mpr hon
    rw [Logger.writes_of_ne_errors hopen (by decide)] at hget
    exact hget
  | false =>
    have hclosed : .stdout ∉ (loggerOf o filter).sinks := fun hmem =>
      Bool.false_ne_true (hon.symm.trans (mem_sinks.mp hmem))
    rw [Logger.writes_of_notMem hclosed] at hget
    exact hget

theorem places_logFiles_iff (hdir : o.dir ≠ "") {regularFiles : List (List String)}
    {files : List (Sink × Location)} :
    places regularFiles o.dir (logFiles app o) = some files ↔
      ∃ main errors, Location.ofFile regularFiles o.dir app = some main ∧
        Location.ofFile regularFiles o.dir (app ++ "-err") = some errors ∧
        files = [(.main, main), (.errors, errors)] := by
  have hfiles : logFiles app o = [(.main, app), (.errors, app ++ "-err")] := by
    rw [logFiles, if_neg fun h => hdir (String.isEmpty_iff.mp h)]
  rw [hfiles]
  unfold places places places
  cases Location.ofFile regularFiles o.dir app with
  | none => simp
  | some main =>
    cases Location.ofFile regularFiles o.dir (app ++ "-err") with
    | none => simp
    | some errors =>
      simp only [Option.map_some, Option.some.injEq, exists_and_left, exists_eq_left']
      exact eq_comm

end Session

open Session

/-- In a session that logs to files, the main file has a line for each record that passes the filter in
force, and the error file has of these lines the ones of errors, without the span. Standard output, if it
is on, has what the main file has. The files do not depend on whether it is on, nor standard output on
whether there are files. -/
theorem sinks_agree (env : Environment) (app : String) (o : Options) {n : Nat} {p : Session}
    (hdir : o.dir ≠ "")
    (hstart : Session.launch { environment := env } (.withOptions app o) = (.ok n, p)) :
    ∃ filter main errors,
      Filter.parse (filterText env o) = .ok filter ∧
      Location.ofFile env.regularFiles o.dir app = some main ∧
      Location.ofFile env.regularFiles o.dir (app ++ "-err") = some errors ∧
      (∀ cs,
        (p.calls cs).2.files = [(.main, main), (.errors, errors)] ∧
        (p.calls cs).2.transcript.main =
          (passed (logged env false filter cs)).map (lineUnder o.logFormat) ∧
        (p.calls cs).2.transcript.errors =
          ((passed (logged env false filter cs)).filter fun (_, r) => r.level = .error).map
            (fun (_, r) => Line.render o.logFormat r none) ∧
        (p.calls cs).2.transcript.stdout =
          if o.appendStdout then (p.calls cs).2.transcript.main else []) ∧
      (∀ on, ∃ m q,
        Session.launch { environment := env } (.withOptions app { o with appendStdout := on }) =
          (.ok m, q) ∧
        ∀ cs, (q.calls cs).2.files = (p.calls cs).2.files ∧
          (q.calls cs).2.transcript.main = (p.calls cs).2.transcript.main ∧
          (q.calls cs).2.transcript.errors = (p.calls cs).2.transcript.errors) ∧
      ∃ m q,
        Session.launch { environment := env } (.withOptions app { o with dir := "" }) = (.ok m, q) ∧
        ∀ cs, (q.calls cs).2.files = [] ∧
          (q.calls cs).2.transcript.stdout = (p.calls cs).2.transcript.stdout := by
  obtain ⟨files, filter, hplaces, hfilter, -, rfl⟩ := launch_withOptions_iff.mp hstart
  obtain ⟨main, errors, hmain, herrors, rfl⟩ := (places_logFiles_iff hdir).mp hplaces
  refine ⟨filter, main, errors, hfilter, hmain, herrors, fun cs => ⟨?_, ?_, ?_, ?_⟩, fun on => ?_, ?_⟩
  · rw [files_calls_ofOptions]
  · rw [main_calls_ofOptions hdir]
  · rw [errors_calls_ofOptions hdir]
  · rw [stdout_calls_ofOptions, main_calls_ofOptions hdir]
  · have hdir' : { o with appendStdout := on }.dir ≠ "" := hdir
    refine ⟨_, _, launch_withOptions_iff.mpr ⟨_, filter, hplaces, hfilter, rfl, rfl⟩, fun cs => ?_⟩
    rw [files_calls_ofOptions, files_calls_ofOptions, main_calls_ofOptions hdir,
      main_calls_ofOptions hdir', errors_calls_ofOptions hdir, errors_calls_ofOptions hdir']
    exact ⟨rfl, rfl, rfl⟩
  · refine ⟨_, _, launch_withOptions_iff.mpr ⟨[], filter, rfl, hfilter, rfl, rfl⟩, fun cs => ?_⟩
    rw [files_calls_ofOptions, stdout_calls_ofOptions, stdout_calls_ofOptions]
    exact ⟨rfl, rfl⟩

/-- An error inside a request is logged twice, with a reload between that lets errors pass only. Its span
is shown once on standard output, and never in the error file. A warning that follows is in neither. -/
theorem sinks_agree_across_reload :
    let o : Options := { dir := "logs", level := some "info" }
    let p := (Session.launch {} (.withOptions "srv" o)).2
    let r : Record := ⟨.error, "app", "m", .event 1 (some 7)⟩
    let w : Record := ⟨.warn, "app", "m", .event 2 none⟩
    let q := (p.calls [.log r, .reload "error", .log r, .log w]).2
    o.dir ≠ "" ∧ Session.launch {} (.withOptions "srv" o) = (.ok 3, p) ∧
      q.transcript.stdout = [.text "ERROR request\x7bid=7\x7d: app: m n=1", .text "ERROR app: m n=1"] ∧
      q.transcript.errors = [.text "ERROR app: m n=1", .text "ERROR app: m n=1"] := by
  intro o p r w q
  have hdir : o.dir ≠ "" := by decide
  have hstart : Session.launch {} (.withOptions "srv" o) = (.ok 3, p) :=
    launch_of_toOption (by decide +kernel)
  obtain ⟨filter, main, errors, hfilter, -, -, hlines, -⟩ := sinks_agree {} "srv" o hdir hstart
  have hparse : (Filter.parse (filterText {} o)).toOption = some [⟨none, [], some .info⟩] := by
    decide +kernel
  rw [hfilter] at hparse
  obtain rfl := Option.some.inj hparse
  obtain ⟨-, hmain, herrors, hstdout⟩ := hlines [.log r, .reload "error", .log r, .log w]
  refine ⟨hdir, hstart, ?_, ?_⟩
  · rw [hstdout, hmain]
    decide +kernel
  · rw [herrors]
    decide +kernel

end MessageIndex.Logging
