import MessageIndex.Logging.Session

/-!
# Proofs: what setting logging up leaves

Setting up succeeds when the directory can hold the log files that the options ask for and the text of
the filter is one. It leaves these files open, empty, and a logger that does what the options say
(`setUp_eq_ok_iff`). The three ways of setting up differ in the options they use, and in that test logging
begins with a notice (`launch_eq_ok`). Where logging has been set up before, nothing is left but that
notice, and only the first time (`launch_of_logger`).
-/

namespace MessageIndex.Logging.Session

variable {p q : Session}

/-! ## The log files -/

/-- The places of log files in a directory, if it can hold them all. -/
def places (regularFiles : List (List String)) (dir : String) :
    List (Sink × String) → Option (List (Sink × Location))
  | [] => some []
  | (sink, name) :: rest =>
    match Location.ofFile regularFiles dir name with
    | none => none
    | some location => (places regularFiles dir rest).map ((sink, location) :: ·)

theorem openFiles_eq_ok_iff {dir : String} {entries : List (Sink × String)} :
    p.openFiles dir entries = (.ok (), q) ↔
      ∃ files, places p.environment.regularFiles dir entries = some files ∧
        q = { p with files := p.files ++ files } := by
  -- Opening reads the environment, which it leaves as it is, so the places can be told beforehand.
  induction entries generalizing p with
  | nil =>
    rw [openFiles, places]
    constructor
    · intro h
      obtain rfl := (Prod.mk.inj h).2
      exact ⟨[], rfl, by rw [List.append_nil]⟩
    · rintro ⟨files, hfiles, rfl⟩
      obtain rfl := Option.some.inj hfiles
      rw [List.append_nil]
  | cons entry rest ih =>
    obtain ⟨sink, name⟩ := entry
    rw [openFiles, places]
    cases Location.ofFile p.environment.regularFiles dir name with
    | none =>
      constructor
      · intro h
        cases h
      · rintro ⟨files, hfiles, -⟩
        cases hfiles
    | some location =>
      show openFiles _ dir rest = (.ok (), q) ↔ _
      rw [ih]
      constructor
      · rintro ⟨files, hfiles, rfl⟩
        exact ⟨(sink, location) :: files, by rw [hfiles]; rfl, by rw [List.append_assoc]; rfl⟩
      · rintro ⟨files, hfiles, rfl⟩
        obtain ⟨files, hrest, rfl⟩ := Option.map_eq_some_iff.mp hfiles
        exact ⟨files, hrest, by rw [List.append_assoc]; rfl⟩

/-! ## Setting up with options -/

theorem setUp_of_logger {l : Logger} (h : p.logger = some l) (app : String) (o : Options) :
    p.setUp app o = (.ok 0, p) := by
  rw [setUp, h]

/-- The logger that the options ask for, with a filter in force. -/
def loggerOf (o : Options) (filter : Filter) : Logger := ⟨o.logFormat, sinks o, filter⟩

theorem setUp_eq_ok_iff (h : p.logger = none) {app : String} {o : Options} {n : Nat} :
    p.setUp app o = (.ok n, q) ↔
      ∃ files filter, places p.environment.regularFiles o.dir (logFiles app o) = some files ∧
        Filter.parse (filterText p.environment o) = .ok filter ∧ n = (sinks o).length ∧
        q = { p with files := p.files ++ files, logger := some (loggerOf o filter) } := by
  rw [setUp, h]
  constructor
  · intro hq
    cases hopen : p.openFiles o.dir (logFiles app o) with
    | mk outcome p' =>
      rw [hopen] at hq
      cases outcome with
      | error e => cases hq
      | ok =>
        obtain ⟨files, hfiles, rfl⟩ := openFiles_eq_ok_iff.mp hopen
        cases hfilter : Filter.parse (filterText p.environment o) with
        | error cause =>
          simp only [hfilter] at hq
          cases hq
        | ok filter =>
          simp only [hfilter] at hq
          obtain ⟨hn, rfl⟩ := Prod.mk.inj hq
          exact ⟨files, filter, hfiles, rfl, (Except.ok.inj hn).symm, rfl⟩
  · rintro ⟨files, filter, hfiles, hfilter, rfl, rfl⟩
    rw [openFiles_eq_ok_iff.mpr ⟨files, hfiles, rfl⟩]
    simp only [hfilter]
    rfl

/-! ## The three ways of setting up -/

namespace Launch

/-- The name that the log files get. -/
def app : Launch → String
  | withOptions app _ => app
  | standard app => app
  | unittest => "unittest"

/-- The options that are set up, which test logging takes from the environment. -/
def options (env : Environment) : Launch → Options
  | withOptions _ o => o
  | standard _ => {}
  | unittest => unittestOptions env

/-- Whether it starts test logging. -/
def isUnittest : Launch → Bool
  | unittest => true
  | _ => false

/-- What it logs by itself; `started` says that test logging has been started before. -/
def records (env : Environment) (started : Bool) : Launch → List Record
  | unittest => if started then [] else [unittestNotice env]
  | _ => []

end Launch

theorem startUnittest_of_started (h : p.unittestStarted = true) : p.startUnittest = (.ok (), p) := by
  rw [startUnittest, if_pos h]

/-- Starting test logging sets up with the options of test logs, and then logs the notice. -/
theorem startUnittest_of_setUp {n : Nat} (h : p.unittestStarted = false)
    (hq : { p with unittestStarted := true }.setUp "unittest" (unittestOptions p.environment) =
      (.ok n, q)) :
    p.startUnittest = (.ok (), q.log (unittestNotice q.environment)) := by
  rw [startUnittest, if_neg (Bool.eq_false_iff.mp h)]
  simp only [hq]

theorem log_of_logger {l : Logger} (h : p.logger = some l) (r : Record) :
    p.log r = { p with transcript := p.transcript.append fun sink => l.lines sink r } := by
  rw [log, h]

theorem log_unittestStarted (p : Session) (r : Record) :
    (p.log r).unittestStarted = p.unittestStarted := by
  unfold log
  split <;> rfl

/-- Test logging is started once, however often it is asked for. -/
theorem launch_unittest {e : Except SetupError Unit} (h : p.startUnittest = (e, q))
    (hq : q.unittestStarted = true) : p.launch .unittest = (e.map fun _ => 0, q) := by
  rw [launch, h]
  cases e with
  | error e => rfl
  | ok => simp only [startUnittest_of_started hq]

/-- Where logging has been set up, setting it up once more leaves nothing but the notice of test
logging. -/
theorem launch_of_logger {l : Logger} (h : p.logger = some l) (how : Launch) :
    p.launch how = (.ok 0, { p with
      unittestStarted := p.unittestStarted || how.isUnittest
      transcript := p.transcript.append fun sink =>
        (how.records p.environment p.unittestStarted).flatMap (l.lines sink) }) := by
  cases how with
  | withOptions app o =>
    rw [launch, setUp_of_logger h]
    simp [Launch.isUnittest, Launch.records]
  | standard app =>
    rw [launch, setUp_of_logger h]
    simp [Launch.isUnittest, Launch.records]
  | unittest =>
    obtain ⟨env, files, logger, started, transcript⟩ := p
    obtain rfl : logger = some l := h
    -- The notice is written by the first start only.
    cases started with
    | true =>
      rw [launch_unittest (startUnittest_of_started rfl) rfl]
      simp [Launch.records, Except.map]
    | false =>
      have hsetUp := setUp_of_logger (p := ⟨env, files, some l, true, transcript⟩) rfl "unittest"
        (unittestOptions env)
      have hnotice := startUnittest_of_setUp (p := ⟨env, files, some l, false, transcript⟩) rfl hsetUp
      rw [launch_unittest hnotice (log_unittestStarted _ _), log_of_logger rfl]
      simp [Launch.records, Launch.isUnittest, Except.map]

/-- The first set-up of a process leaves the files and the logger that its options ask for, and the
notice if it was one of test logging. -/
theorem launch_eq_ok {how : Launch} {n : Nat} (hnew : p.logger = none)
    (hstarted : p.unittestStarted = false) (h : p.launch how = (.ok n, q)) :
    ∃ files filter,
      places p.environment.regularFiles (how.options p.environment).dir
        (logFiles how.app (how.options p.environment)) = some files ∧
      Filter.parse (filterText p.environment (how.options p.environment)) = .ok filter ∧
      q = { p with
        files := p.files ++ files
        logger := some (loggerOf (how.options p.environment) filter)
        unittestStarted := how.isUnittest
        transcript := p.transcript.append fun sink => (how.records p.environment false).flatMap
          ((loggerOf (how.options p.environment) filter).lines sink) } := by
  cases how with
  | withOptions app o =>
    obtain ⟨files, filter, hfiles, hfilter, -, rfl⟩ := (setUp_eq_ok_iff hnew).mp h
    refine ⟨files, filter, hfiles, hfilter, ?_⟩
    simp [Launch.options, Launch.records, Launch.isUnittest, hstarted]
  | standard app =>
    have hsetUp : p.setUp app {} = (.ok n, q) := h
    obtain ⟨files, filter, hfiles, hfilter, -, rfl⟩ := (setUp_eq_ok_iff hnew).mp hsetUp
    refine ⟨files, filter, hfiles, hfilter, ?_⟩
    simp [Launch.options, Launch.records, Launch.isUnittest, hstarted]
  | unittest =>
    cases hsetUp : { p with unittestStarted := true }.setUp "unittest"
        (unittestOptions p.environment) with
    | mk outcome p' =>
      cases outcome with
      | error e =>
        rw [launch, startUnittest, if_neg (Bool.eq_false_iff.mp hstarted)] at h
        simp only [hsetUp] at h
        cases h
      | ok m =>
        obtain ⟨files, filter, hfiles, hfilter, -, rfl⟩ :=
          (setUp_eq_ok_iff (p := { p with unittestStarted := true }) hnew).mp hsetUp
        have hnotice := startUnittest_of_setUp hstarted hsetUp
        rw [launch_unittest hnotice (log_unittestStarted _ _), log_of_logger rfl] at h
        obtain ⟨-, rfl⟩ := Prod.mk.inj h
        refine ⟨files, filter, hfiles, hfilter, ?_⟩
        simp [Launch.records, Launch.isUnittest, Launch.options]

/-- A set-up is a success if it has a number to answer. -/
theorem launch_of_toOption {how : Launch} {n : Nat} (h : (p.launch how).1.toOption = some n) :
    p.launch how = (.ok n, (p.launch how).2) := by
  refine Prod.ext ?_ rfl
  cases houtcome : (p.launch how).1 with
  | error e =>
    rw [houtcome] at h
    cases h
  | ok m =>
    rw [houtcome] at h
    exact congrArg Except.ok (Option.some.inj h)

end MessageIndex.Logging.Session
