import MdtDialoutCollector.Utils.LoadedKeys

/-! Loading the configuration: the boot logger first, then five validators in a row. What a
validator has filled is published to its global map before the next one is tried, and the
first of them also replaces the boot logger. -/

namespace MdtDialoutCollector.Utils

open Data External Text

/-- The groups of parameters, with a validator and a global map each. -/
inductive Stage where
  | logs
  | main
  | dataManipulation
  | kafka
  | zmq
  deriving DecidableEq

def stages : List Stage := [.logs, .main, .dataManipulation, .kafka, .zmq]

/-- The logger that the constructor of the handler uses. -/
def Stage.logger : Stage → Logger
  | .logs => .multiLoggerBoot
  | _ => .multiLogger

/-- The loggers and the five parameter maps of the process. -/
structure Globals where
  registry : Registry
  params : Stage → Params

def Globals.publish (g : Globals) (s : Stage) (p : Params) : Globals :=
  { g with params := Function.update g.params s p }

/-! ### The loggers -/

def registerLogger (R : Registry) (logger : Logger) : Check Registry :=
  if R logger then .error .spdlogError else .ok (Function.update R logger true)

/-- `false` where a sink cannot be built. -/
def setBootSpdlogSinks (H : Host) (R : Registry) : Check (Bool × Registry) :=
  if H.bootSyslogSink && H.bootConsoleSink then do
    let R ← registerLogger R .multiLoggerBoot
    return (true, R)
  else .ok (false, R)

/-- The constructor. -/
def logsHandler (H : Host) (R : Registry) : Check Registry := do
  let (built, R) ← setBootSpdlogSinks H R
  if built then
    useLogger R .multiLoggerBoot
    return R
  else .error .exited

/-- The facility codes; the operator that reads the table inserts a zero for any other name. -/
def syslogFacility (name : Bytes) : ℕ :=
  (([("LOG_DAEMON", 3), ("LOG_USER", 8), ("LOG_LOCAL0", 16), ("LOG_LOCAL1", 17), ("LOG_LOCAL2", 18),
    ("LOG_LOCAL3", 19), ("LOG_LOCAL4", 20), ("LOG_LOCAL5", 21), ("LOG_LOCAL6", 22),
    ("LOG_LOCAL7", 23)].find? fun entry => lit entry.1 = name).map Prod.snd).getD 0

def openSyslog (H : Host) (logs : Params) : Check Bool := do
  if (← raise (logs.atKey "syslog")) = lit "true" then
    let ident ← raise (logs.atKey "syslog_ident")
    let facility ← raise (logs.atKey "syslog_facility")
    return H.syslogSink ident (syslogFacility facility * 8)
  else return true

def openConsole (H : Host) (logs : Params) : Check Bool := do
  if (← raise (logs.atKey "console_log")) = lit "true" then return H.consoleSink else return true

/-- The console sink is built only after the one of the system log. -/
def openSinks (H : Host) (logs : Params) : Check Bool := do
  if ← openSyslog H logs then openConsole H logs else return false

def setSpdlogSinks (H : Host) (R : Registry) (logs : Params) : Check (Bool × Registry) := do
  let _ ← raise (logs.atKey "spdlog_level")
  if ← openSinks H logs then
    let R ← registerLogger R .multiLogger
    return (true, R)
  else return (false, R)

/-! ### The stages -/

/-- `none` where the validator returns `false`. -/
def attempt {α : Type} : Check α → Check (Option α)
  | .ok a => .ok (some a)
  | .error (.refused _ _) => .ok none
  | .error e => .error e

def validate (H : Host) (zmqUri : Bytes) (g : Globals) : Stage → Check Params
  | .logs => lookupLogsParameters H g.registry
  | .main => lookupMainParameters H g.registry
  | .dataManipulation => lookupDataManipulationParameters H g.registry
  | .kafka => lookupKafkaParameters H g.registry (g.params .main)
  | .zmq => lookupZmqParameters g.registry (g.params .main) zmqUri .empty

/-- The constructor of the handler, then its validator. -/
def handle (H : Host) (zmqUri : Bytes) (g : Globals) (s : Stage) : Check Params := do
  useLogger g.registry s.logger
  validate H zmqUri g s

/-- Nobody looks at what `set_spdlog_sinks` returns. -/
def install (H : Host) (g : Globals) (s : Stage) (p : Params) : Check Globals :=
  match s with
  | .logs => do
    let (_, R) ← setSpdlogSinks H g.registry p
    return { g.publish .logs p with registry := R }
  | s => .ok (g.publish s p)

/-- Whether every validator returned `true`, and the globals in the end. -/
def loadStages (H : Host) (zmqUri : Bytes) : List Stage → Globals → Check (Bool × Globals)
  | [], g => .ok (true, g)
  | s :: rest, g => do
    match ← attempt (handle H zmqUri g s) with
    | none => return (false, g)
    | some p =>
      let g ← install H g s p
      loadStages H zmqUri rest g

/-- The five stages, after the constructor of the configuration handler. -/
def loadConfiguration (H : Host) (zmqUri : Bytes) (g : Globals) : Check (Bool × Globals) := do
  useLogger g.registry .multiLoggerBoot
  loadStages H zmqUri stages g

/-- A process that has loaded nothing. -/
def freshGlobals : Globals where
  registry _ := false
  params _ := .empty

/-- The same process, once it has its boot logger. -/
def bootedGlobals : Globals where
  registry logger := logger = .multiLoggerBoot
  params _ := .empty

/-- The same process, once it has both loggers. -/
def readyGlobals : Globals where
  registry _ := true
  params _ := .empty

/-- A host on which nothing fails. -/
def calmHost (cfg : Config) : Host where
  configFile := .read cfg
  pathExists _ := .present
  bootSyslogSink := true
  bootConsoleSink := true
  syslogSink _ _ := true
  consoleSink := true
  threadStarts _ _ := true

def eth0 : CString := ⟨lit "eth0", by decide⟩

def ciscoAddress : CString := ⟨lit "0.0.0.0:10007", by decide⟩

def zmqMethod : CString := ⟨lit "zmq", by decide⟩

/-- Cisco alone, delivered over ZMQ. -/
def ciscoOnly : Config :=
  .ofStrings [("iface", eth0), ("socket_cisco", ciscoAddress),
    ("data_delivery_method", zmqMethod)]

/-! ### The sinks a file asks for -/

section Sinks

variable (H : Host) (R : Registry) (cfg : Config)

def syslogOpens : Bool :=
  !syslogOn cfg || H.syslogSink (cfg.text "syslog_ident" (lit "mdt-dialout-collector"))
    (syslogFacility (cfg.text "syslog_facility" (lit "LOG_USER")) * 8)

def consoleOpens : Bool := cfg.text "console_log" (lit "true") ≠ lit "true" || H.consoleSink

def sinksOpen : Bool := syslogOpens H cfg && consoleOpens H cfg

theorem openSyslog_eq : openSyslog H (logsParameters cfg) = .ok (syslogOpens H cfg) := by
  obtain ⟨hsyslog, hfacility, hident, -, -⟩ := find_logs cfg
  rw [openSyslog, syslogOpens]
  simp only [raise, Params.atKey_of_find hsyslog, Params.atKey_of_find hfacility,
    Params.atKey_of_find hident, Except.mapError, ok_bind]
  by_cases hon : syslogOn cfg = true
  · rw [if_pos (of_decide_eq_true hon), hon]
    rfl
  · rw [if_neg fun h => hon (decide_eq_true h), eq_false_of_ne_true hon]
    rfl

theorem openConsole_eq : openConsole H (logsParameters cfg) = .ok (consoleOpens H cfg) := by
  obtain ⟨-, -, -, hconsole, -⟩ := find_logs cfg
  rw [openConsole, consoleOpens]
  simp only [raise, Params.atKey_of_find hconsole, Except.mapError, ok_bind]
  split_ifs with hon
  · simp only [hon, ne_eq, not_true_eq_false, decide_false, Bool.false_or]
    rfl
  · simp only [hon, ne_eq, not_false_eq_true, decide_true, Bool.true_or]
    rfl

theorem openSinks_eq : openSinks H (logsParameters cfg) = .ok (sinksOpen H cfg) := by
  rw [openSinks, openSyslog_eq, ok_bind, sinksOpen]
  cases syslogOpens H cfg with
  | true => exact openConsole_eq H cfg
  | false => rfl

theorem setSpdlogSinks_eq :
    setSpdlogSinks H R (logsParameters cfg) =
      if sinksOpen H cfg then registerLogger R .multiLogger >>= fun R => .ok (true, R)
      else .ok (false, R) := by
  obtain ⟨-, -, -, -, hlevel⟩ := find_logs cfg
  rw [setSpdlogSinks, raise, Params.atKey_of_find hlevel, openSinks_eq]
  rfl

end Sinks

/-! ### What a stage makes of the file -/

section Stages

variable {H : Host} {cfg : Config} {zmqUri : Bytes} {g g' : Globals} {s : Stage} {p : Params}

def fileParameters (cfg : Config) (zmqUri : Bytes) : Stage → Params
  | .logs => logsParameters cfg
  | .main => mainParameters cfg
  | .dataManipulation => dataManipulationParameters cfg
  | .kafka => kafkaParameters cfg
  | .zmq => zmqParameters cfg zmqUri

def accepts (H : Host) (cfg : Config) : Stage → Prop
  | .logs => acceptsLogs cfg
  | .main => acceptsMain H cfg
  | .dataManipulation => acceptsDataManipulation H cfg
  | .kafka => acceptsKafka cfg
  | .zmq => True

/-- A validator ends in an accident only where the file system fails it. -/
def fails (H : Host) (cfg : Config) : Stage → Prop
  | .main => failsMain H cfg
  | .dataManipulation => failsDataManipulation H cfg
  | _ => False

/-- These parameters come from the file, which the validator has accepted. -/
def FromFile (H : Host) (zmqUri : Bytes) (s : Stage) (p : Params) : Prop :=
  ∃ cfg, H.configFile = .read cfg ∧ accepts H cfg s ∧ p = fileParameters cfg zmqUri s

/-- The last two validators read the delivery method in the published main parameters. -/
def MainPublished (cfg : Config) (g : Globals) (s : Stage) : Prop :=
  s = .kafka ∨ s = .zmq → g.params .main = mainParameters cfg

theorem decides_validate (hfile : H.configFile = .read cfg) (hlog : g.registry s.logger = true)
    (hmain : MainPublished cfg g s) :
    Decides (validate H zmqUri g s) (fails H cfg s) (accepts H cfg s)
      (fileParameters cfg zmqUri s) := by
  obtain ⟨-, -, -, -, -, -, -, hmethod⟩ := find_main cfg
  cases s with
  | logs => exact decides_lookupLogsParameters hlog hfile
  | main => exact decides_lookupMainParameters hlog hfile
  | dataManipulation => exact decides_lookupDataManipulationParameters hlog hfile
  | kafka =>
    rw [← hmain (.inl rfl)] at hmethod
    exact decides_lookupKafkaParameters hlog hfile hmethod
  | zmq =>
    rw [← hmain (.inr rfl)] at hmethod
    exact decides_lookupZmqParameters hlog hmethod zmqUri

theorem refuse_ne_ok {α : Type} {R : Registry} {logger : Logger} {issue : Issue} {a : α} :
    refuse R logger issue ≠ .ok a := by
  intro h
  obtain ⟨-, -, h⟩ := bind_eq_ok.mp h
  cases h

theorem setParameters_eq_ok {R : Registry} (h : setParameters H R = .ok cfg) :
    H.configFile = .read cfg := by
  rw [setParameters] at h
  cases hfile : H.configFile with
  | unreadable =>
    rw [hfile] at h
    exact absurd h refuse_ne_ok
  | parse =>
    rw [hfile] at h
    exact absurd h refuse_ne_ok
  | read c =>
    rw [hfile] at h
    cases h
    rfl

theorem read_of_validate (h : validate H zmqUri g s = .ok p) (hs : s ≠ .zmq) :
    ∃ cfg, H.configFile = .read cfg := by
  cases s with
  | zmq => exact absurd rfl hs
  | logs | main | dataManipulation | kafka =>
    obtain ⟨cfg, hcfg, -⟩ := bind_eq_ok.mp h
    exact ⟨cfg, setParameters_eq_ok hcfg⟩

theorem attempt_eq_some {α : Type} {x : Check α} {a : α} (h : attempt x = .ok (some a)) :
    x = .ok a := by
  cases x with
  | ok b =>
    cases h
    rfl
  | error e => cases e <;> cases h

theorem attempt_of_refusal {α : Type} {e : Failure} (he : e.IsRefusal) :
    attempt (.error e : Check α) = .ok none := by
  cases e with
  | refused => rfl
  | threw | filesystemError | spdlogError | systemError | nullLogger | exited | aborted =>
    exact he.elim

theorem attempt_of_crash {α : Type} {e : Failure} (he : ¬e.IsRefusal) :
    attempt (.error e : Check α) = .error e := by
  cases e with
  | refused => exact absurd trivial he
  | threw | filesystemError | spdlogError | systemError | nullLogger | exited | aborted => rfl

theorem install_params (h : install H g s p = .ok g') :
    g'.params = Function.update g.params s p := by
  cases s with
  | logs =>
    obtain ⟨r, -, hr⟩ := bind_eq_ok.mp h
    cases hr
    rfl
  | main | dataManipulation | kafka | zmq =>
    cases h
    rfl

theorem handle_eq_ok (h : handle H zmqUri g s = .ok p) :
    g.registry s.logger = true ∧ validate H zmqUri g s = .ok p := by
  obtain ⟨_, hlog, h⟩ := bind_eq_ok.mp h
  refine ⟨?_, h⟩
  by_contra hn
  rw [useLogger, if_neg hn] at hlog
  cases hlog

theorem loadStages_cons {rest : List Stage} {b : Bool}
    (h : loadStages H zmqUri (s :: rest) g = .ok (b, g')) :
    b = false ∧ g' = g ∨ ∃ p g₁, handle H zmqUri g s = .ok p ∧ install H g s p = .ok g₁ ∧
      loadStages H zmqUri rest g₁ = .ok (b, g') := by
  rw [loadStages, bind_eq_ok] at h
  obtain ⟨r, hr, h⟩ := h
  cases r with
  | none =>
    cases h
    exact .inl ⟨rfl, rfl⟩
  | some p =>
    rw [bind_eq_ok] at h
    obtain ⟨g₁, hg₁, h⟩ := h
    exact .inr ⟨p, g₁, attempt_eq_some hr, hg₁, h⟩

/-- The maps of the stages that are done come from the file, the others are as before. -/
structure Published (H : Host) (zmqUri : Bytes) (g₀ g : Globals) (done : List Stage) : Prop where
  new : ∀ t ∈ done, FromFile H zmqUri t (g.params t)
  old : ∀ t ∉ done, g.params t = g₀.params t

/-- The main parameters are loaded before the validators that read them. -/
theorem main_mem_of_append {done rest : List Stage} (h : done ++ s :: rest = stages)
    (hs : s = .kafka ∨ s = .zmq) : .main ∈ done := by
  have horder : stages.Pairwise fun a b => a = .kafka ∨ a = .zmq → b ≠ .main := by decide
  rw [← h, List.pairwise_append, List.pairwise_cons] at horder
  have hmain : Stage.main ∈ done ++ s :: rest := by rw [h]; decide
  rw [List.mem_append, List.mem_cons] at hmain
  rcases hmain with hdone | hself | hrest
  · exact hdone
  · rw [← hself] at hs
    simp at hs
  · exact absurd rfl (horder.2.1.1 _ hrest hs)

theorem Published.step {g₀ g₁ : Globals} {done rest : List Stage} (h : Published H zmqUri g₀ g done)
    (hdone : done ++ s :: rest = stages) (hhandle : handle H zmqUri g s = .ok p)
    (hg : g₁.params = Function.update g.params s p) :
    Published H zmqUri g₀ g₁ (done ++ [s]) := by
  obtain ⟨hlog, hp⟩ := handle_eq_ok hhandle
  have hmem : s ∉ done := by
    have hnodup : (done ++ s :: rest).Nodup := by rw [hdone]; decide
    exact fun hs => (List.nodup_append.mp hnodup).2.2 s hs s List.mem_cons_self rfl
  have hcfg : ∃ cfg, H.configFile = .read cfg := by
    by_cases hs : s = .zmq
    · obtain ⟨cfg, hfile, -, -⟩ := h.new .main (main_mem_of_append hdone (.inr hs))
      exact ⟨cfg, hfile⟩
    · exact read_of_validate hp hs
  obtain ⟨cfg, hfile⟩ := hcfg
  have hmain : MainPublished cfg g s := by
    intro hs
    obtain ⟨cfg', hfile', -, hmain⟩ := h.new .main (main_mem_of_append hdone hs)
    rw [hfile] at hfile'
    cases hfile'
    exact hmain
  obtain ⟨-, haccepts, hparams⟩ := (decides_validate hfile hlog hmain).eq_ok_iff.mp hp
  constructor
  · intro t ht
    rw [hg, Function.update_apply]
    split_ifs with hts
    · rw [hts]
      exact ⟨cfg, hfile, haccepts, hparams⟩
    · rw [List.mem_append, List.mem_singleton, or_iff_left hts] at ht
      exact h.new t ht
  · intro t ht
    rw [List.mem_append, List.mem_singleton, not_or] at ht
    rw [hg, Function.update_of_ne ht.2]
    exact h.old t ht.1

theorem loadStages_published {g₀ : Globals} {rest done : List Stage} {b : Bool}
    (hdone : done ++ rest = stages) (hpub : Published H zmqUri g₀ g done)
    (h : loadStages H zmqUri rest g = .ok (b, g')) :
    ∃ done rest, done ++ rest = stages ∧ (b = true ↔ rest = []) ∧
      Published H zmqUri g₀ g' done := by
  induction rest generalizing done g with
  | nil =>
    cases h
    exact ⟨done, [], hdone, by simp, hpub⟩
  | cons s rest ih =>
    obtain ⟨rfl, rfl⟩ | ⟨p, g₁, hp, hg, h⟩ := loadStages_cons h
    · exact ⟨done, s :: rest, hdone, by simp, hpub⟩
    · exact ih (by rw [List.append_assoc]; exact hdone)
        (hpub.step hdone hp (install_params hg)) h

/-- Where every validator has returned `true`, all five maps come from one accepted file. -/
theorem loadStages_accepted (h : loadStages H zmqUri stages g = .ok (true, g')) :
    ∃ cfg, H.configFile = .read cfg ∧ (∀ s, accepts H cfg s) ∧
      ∀ s, g'.params s = fileParameters cfg zmqUri s := by
  have hstart : Published H zmqUri g g [] :=
    ⟨fun t ht => absurd ht List.not_mem_nil, fun _ _ => rfl⟩
  obtain ⟨done, rest, hstages, hb, hpub⟩ :=
    loadStages_published (List.nil_append stages) hstart h
  rw [hb.mp rfl, List.append_nil] at hstages
  have hnew (s : Stage) : FromFile H zmqUri s (g'.params s) :=
    hpub.new s (by rw [hstages]; cases s <;> decide)
  obtain ⟨cfg, hfile, -, -⟩ := hnew .logs
  have hsame (s : Stage) : accepts H cfg s ∧ g'.params s = fileParameters cfg zmqUri s := by
    obtain ⟨cfg', hfile', haccepts, hparams⟩ := hnew s
    rw [hfile] at hfile'
    cases hfile'
    exact ⟨haccepts, hparams⟩
  exact ⟨cfg, hfile, fun s => (hsame s).1, fun s => (hsame s).2⟩

end Stages

end MdtDialoutCollector.Utils
