import MdtDialoutCollector.Bridge.LoadOptions
import MdtDialoutCollector.Core.AcceptedReads

/-! `start_grpc_dialout_collector`, which a host process calls. Where the configuration is
not loaded it logs that and returns, through the logger that the configuration would have
set up: it comes back exactly where the first stage has got that far. -/

namespace MdtDialoutCollector.Bridge

open MdtDialoutCollector.Core Data External Text Utils

/-- What the call leaves behind. -/
structure Started where
  loaded : Bool
  globals : Globals
  workers : List Vendor

/-- A vendor whose counts are no good is skipped, a thread that cannot be created too. -/
def loadThreads (H : Host) (R : Registry) (main : Params) (v : Vendor) : Check (List Vendor) := do
  if (← raise (main.atKey v.keys.socket)) = [] then return []
  useLogger R .multiLogger
  match workerCounts main v with
  | .error _ => return []
  | .ok (maxReplies, workers) =>
    if CountsAllowed maxReplies workers then
      return ((List.range workers.toNat).filter (H.threadStarts v.keys.socket)).map fun _ => v
    else return []

def loadAllThreads (H : Host) (R : Registry) (main : Params) : Check (List Vendor) := do
  let cisco ← loadThreads H R main .cisco
  let juniper ← loadThreads H R main .juniper
  let nokia ← loadThreads H R main .nokia
  let huawei ← loadThreads H R main .huawei
  return cisco ++ juniper ++ nokia ++ huawei

def startWorkers (H : Host) (g : Globals) : Check Started := do
  useLogger g.registry .multiLogger
  let sockets ← raise (listeningSockets (g.params .main))
  if sockets.all (· = []) then return ⟨true, g, []⟩
  let workers ← loadAllThreads H g.registry (g.params .main)
  return ⟨true, g, workers⟩

def startGrpcDialoutCollector (H : Host) (zmqUri : Bytes) (g : Globals) : Check Started := do
  let (loaded, g) ← loadOptions H zmqUri g
  if loaded then startWorkers H g
  else
    useLogger g.registry .multiLogger
    return ⟨false, g, []⟩

/-! ### The stages after the first -/

section Stages

variable {H : Host} {cfg : Config} {zmqUri : Bytes} {g g' : Globals} {s : Stage}

theorem loadStages_registry {rest : List Stage} (hrest : .logs ∉ rest) {b : Bool}
    (h : loadStages H zmqUri rest g = .ok (b, g')) : g'.registry = g.registry := by
  induction rest generalizing g with
  | nil =>
    cases h
    rfl
  | cons s rest ih =>
    rw [List.mem_cons, not_or] at hrest
    obtain ⟨-, rfl⟩ | ⟨p, g₁, -, hg₁, h⟩ := loadStages_cons h
    · rfl
    · rw [ih hrest.2 h]
      cases s with
      | logs => exact absurd rfl hrest.1
      | main | dataManipulation | kafka | zmq =>
        cases hg₁
        rfl

/-- With its logger registered a stage ends the loading or goes on to the next. -/
theorem loadStages_cons_returns_iff (hfile : H.configFile = .read cfg)
    (hlog : g.registry s.logger = true) (hmain : MainPublished cfg g s) (hs : s ≠ .logs)
    (rest : List Stage) :
    Returns (loadStages H zmqUri (s :: rest) g) ↔ ¬fails H cfg s ∧ (accepts H cfg s →
      Returns (loadStages H zmqUri rest (g.publish s (fileParameters cfg zmqUri s)))) := by
  have hhandle : handle H zmqUri g s = validate H zmqUri g s := by
    rw [handle, useLogger_registered hlog, ok_bind]
  have hvalid : Decides (validate H zmqUri g s) (fails H cfg s) (accepts H cfg s)
      (fileParameters cfg zmqUri s) := decides_validate hfile hlog hmain
  have hinstall : install H g s (fileParameters cfg zmqUri s) =
      .ok (g.publish s (fileParameters cfg zmqUri s)) := by
    cases s with
    | logs => exact absurd rfl hs
    | main | dataManipulation | kafka | zmq => rfl
  rw [loadStages, hhandle]
  by_cases hfails : fails H cfg s
  · obtain ⟨e, he, hcrash⟩ := hvalid.crashes hfails
    rw [he, attempt_of_crash hcrash, error_bind]
    simp [Returns, hfails]
  · by_cases haccepts : accepts H cfg s
    · rw [hvalid.accepts hfails haccepts]
      simp only [attempt, ok_bind, hinstall]
      simp [hfails, haccepts]
    · obtain ⟨e, he, hrefusal⟩ := hvalid.refuses hfails haccepts
      rw [he, attempt_of_refusal hrefusal, ok_bind]
      simp only [hfails, haccepts, not_false_eq_true, false_implies, and_true, iff_true]
      exact returns_ok _

/-- What the file system has to answer for the stages after the first. -/
def pathsAnswer (H : Host) (cfg : Config) : Prop :=
  ¬failsMain H cfg ∧ (acceptsMain H cfg → ¬failsDataManipulation H cfg)

theorem loadStages_returns_iff (zmqUri : Bytes) (hfile : H.configFile = .read cfg)
    (hlog : g.registry .multiLogger = true) :
    Returns (loadStages H zmqUri [.main, .dataManipulation, .kafka, .zmq] g) ↔
      pathsAnswer H cfg := by
  have hnot {u : Stage} (hu : u ≠ .kafka ∧ u ≠ .zmq) (g : Globals) : MainPublished cfg g u :=
    fun h => absurd h (not_or.mpr hu)
  rw [loadStages_cons_returns_iff hfile hlog (hnot (by decide) g) (by decide), pathsAnswer]
  refine and_congr_right fun _ => imp_congr_right fun _ => ?_
  rw [loadStages_cons_returns_iff hfile hlog (hnot (by decide) _) (by decide)]
  refine and_iff_left fun _ => ?_
  rw [loadStages_cons_returns_iff hfile hlog (fun _ => rfl) (by decide)]
  refine ⟨id, fun _ => ?_⟩
  rw [loadStages_cons_returns_iff hfile hlog (fun _ => rfl) (by decide)]
  exact ⟨id, fun _ => returns_ok _⟩

end Stages

/-! ### The call -/

section Start

variable {H : Host} {cfg : Config} {zmqUri : Bytes} {g : Globals}

theorem loadThreads_returns (hlog : g.registry .multiLogger = true) (v : Vendor) :
    Returns (loadThreads H g.registry (mainParameters cfg) v) := by
  refine (returns_raise (socket_returns cfg v)).bind fun socket _ => ?_
  split_ifs
  · exact returns_ok _
  · rw [useLogger_registered hlog, ok_bind]
    cases workerCounts (mainParameters cfg) v with
    | error e => exact returns_ok _
    | ok counts =>
      simp only
      split_ifs
      · exact returns_ok _
      · exact returns_ok _

theorem startWorkers_returns (hlog : g.registry .multiLogger = true)
    (hmain : g.params .main = mainParameters cfg) :
    ∃ r, startWorkers H g = .ok r ∧ r.loaded = true := by
  obtain ⟨sockets, hsockets⟩ := returns_raise (listeningSockets_returns cfg)
  have hthreads : Returns (loadAllThreads H g.registry (mainParameters cfg)) :=
    (loadThreads_returns hlog .cisco).bind fun _ _ =>
      (loadThreads_returns hlog .juniper).bind fun _ _ =>
      (loadThreads_returns hlog .nokia).bind fun _ _ =>
      (loadThreads_returns hlog .huawei).bind fun _ _ => returns_ok _
  obtain ⟨workers, hworkers⟩ := hthreads
  rw [startWorkers, useLogger_registered hlog, ok_bind, hmain, hsockets, ok_bind]
  split_ifs
  · exact ⟨_, rfl, rfl⟩
  · rw [hworkers, ok_bind]
    exact ⟨_, rfl, rfl⟩

/-- The first stage, where the file is none or one that is refused. -/
theorem loadStages_of_refused_logs (hboot : g.registry .multiLoggerBoot = true)
    (h : ∀ cfg, H.configFile = .read cfg → ¬acceptsLogs cfg) :
    loadStages H zmqUri stages g = .ok (false, g) := by
  have hrefused : ∃ e, lookupLogsParameters H g.registry = .error e ∧ e.IsRefusal := by
    cases hfile : H.configFile with
    | unreadable =>
      rw [lookupLogsParameters, setParameters, hfile]
      simp only [refuse_registered hboot, error_bind]
      exact ⟨_, rfl, trivial⟩
    | parse =>
      rw [lookupLogsParameters, setParameters, hfile]
      simp only [refuse_registered hboot, error_bind]
      exact ⟨_, rfl, trivial⟩
    | read cfg => exact (decides_lookupLogsParameters hboot hfile).refuses id (h cfg hfile)
  obtain ⟨e, he, hrefusal⟩ := hrefused
  rw [stages, loadStages, handle, Stage.logger, useLogger_registered hboot, ok_bind, validate, he,
    attempt_of_refusal hrefusal]
  rfl

theorem loadStages_of_accepted_logs (hboot : g.registry .multiLoggerBoot = true)
    (hfile : H.configFile = .read cfg) (h : acceptsLogs cfg) :
    loadStages H zmqUri stages g = install H g .logs (logsParameters cfg) >>=
      loadStages H zmqUri [.main, .dataManipulation, .kafka, .zmq] := by
  have hvalid := (decides_lookupLogsParameters hboot hfile).accepts id h
  rw [stages, loadStages, handle, Stage.logger, useLogger_registered hboot, ok_bind, validate,
    hvalid]
  rfl

/-- In a fresh process: the boot logger gets its sinks, the first stage accepts the file and
opens the sinks it asks for, and the file system answers wherever a validator asks it. -/
def StartSafe (H : Host) : Prop :=
  H.bootSyslogSink = true ∧ H.bootConsoleSink = true ∧ ∃ cfg, H.configFile = .read cfg ∧
    acceptsLogs cfg ∧ sinksOpen H cfg = true ∧ pathsAnswer H cfg

/-- The process in which `LoadOptions` has set up the boot logger. -/
def booted (params : Stage → Params) : Globals :=
  ⟨Function.update (fun _ => false) .multiLoggerBoot true, params⟩

theorem loadOptions_fresh (params : Stage → Params) :
    loadOptions H zmqUri ⟨fun _ => false, params⟩ =
      if H.bootSyslogSink = true ∧ H.bootConsoleSink = true then
        loadStages H zmqUri stages (booted params)
      else .error .exited := by
  rw [loadOptions, logsHandler, setBootSpdlogSinks]
  cases H.bootSyslogSink <;> cases H.bootConsoleSink <;> rfl

theorem loadStages_of_no_logger {s : Stage} {rest : List Stage} (h : g.registry s.logger = false) :
    loadStages H zmqUri (s :: rest) g = .error .nullLogger := by
  rw [loadStages, handle, useLogger, if_neg (ne_true_of_eq_false h)]
  rfl

/-- What becomes of an accepted first stage: the second one finds its logger or it does not. -/
theorem loadStages_booted (zmqUri : Bytes) (hfile : H.configFile = .read cfg)
    (hlogs : acceptsLogs cfg) (params : Stage → Params) :
    ∃ g, g.registry .multiLogger = sinksOpen H cfg ∧
      loadStages H zmqUri stages (booted params) =
        loadStages H zmqUri [.main, .dataManipulation, .kafka, .zmq] g := by
  rw [loadStages_of_accepted_logs rfl hfile hlogs, install, setSpdlogSinks_eq]
  cases sinksOpen H cfg with
  | true =>
    let R := Function.update (booted params).registry .multiLogger true
    exact ⟨{ (booted params).publish .logs (logsParameters cfg) with registry := R }, rfl, rfl⟩
  | false =>
    let R := (booted params).registry
    exact ⟨{ (booted params).publish .logs (logsParameters cfg) with registry := R }, rfl, rfl⟩

/-- After a load that has come back the call comes back too, and has started no worker where
the load was refused. -/
theorem started_of_loaded {params : Stage → Params} {b : Bool} {g' : Globals}
    (h : loadStages H zmqUri stages (booted params) = .ok (b, g'))
    (hlog : g'.registry .multiLogger = true) :
    ∃ r, (if b then startWorkers H g' else do
        useLogger g'.registry .multiLogger
        return ⟨false, g', []⟩) = .ok r ∧ (r.loaded = false → r.workers = []) := by
  cases b with
  | false =>
    rw [useLogger_registered hlog]
    exact ⟨_, rfl, fun _ => rfl⟩
  | true =>
    obtain ⟨cfg, -, -, hparams⟩ := loadStages_accepted h
    obtain ⟨r, hr, hloaded⟩ := startWorkers_returns (H := H) hlog (hparams .main)
    exact ⟨r, hr, fun hnot => by rw [hloaded] at hnot; cases hnot⟩

theorem start_returns_iff (H : Host) (zmqUri : Bytes) (params : Stage → Params) :
    (∃ r, startGrpcDialoutCollector H zmqUri ⟨fun _ => false, params⟩ = .ok r ∧
      (r.loaded = false → r.workers = [])) ↔ StartSafe H := by
  rw [startGrpcDialoutCollector, loadOptions_fresh, StartSafe, ← and_assoc]
  by_cases hsinks : H.bootSyslogSink = true ∧ H.bootConsoleSink = true
  · rw [if_pos hsinks, and_iff_right hsinks]
    by_cases hlogs : ∃ cfg, H.configFile = .read cfg ∧ acceptsLogs cfg
    · obtain ⟨cfg, hfile, hlogs⟩ := hlogs
      obtain ⟨g, hlog, hload⟩ := loadStages_booted zmqUri hfile hlogs params
      cases hopen : sinksOpen H cfg with
      | false =>
        rw [hload, loadStages_of_no_logger (hlog.trans hopen), error_bind]
        simp [hfile, hopen]
      | true =>
        rw [hopen] at hlog
        have hanswer := loadStages_returns_iff zmqUri hfile hlog
        constructor
        · rintro ⟨r, hr, -⟩
          obtain ⟨⟨b, g'⟩, hg', -⟩ := bind_eq_ok.mp hr
          exact ⟨cfg, hfile, hlogs, hopen, hanswer.mp ⟨_, hload ▸ hg'⟩⟩
        · rintro ⟨cfg', hfile', -, -, hpaths⟩
          rw [hfile] at hfile'
          cases hfile'
          obtain ⟨⟨b, g'⟩, hg'⟩ := hanswer.mpr hpaths
          have hlog' : g'.registry .multiLogger = true := by
            rw [loadStages_registry (by decide) hg', hlog]
          rw [← hload] at hg'
          rw [hg', ok_bind]
          exact started_of_loaded hg' hlog'
    · have hrefused : ∀ cfg, H.configFile = .read cfg → ¬acceptsLogs cfg :=
        fun cfg hfile h => hlogs ⟨cfg, hfile, h⟩
      rw [loadStages_of_refused_logs rfl hrefused, ok_bind]
      constructor
      · rintro ⟨r, hr, -⟩
        cases hr
      · rintro ⟨cfg, hfile, haccepts, -⟩
        exact absurd haccepts (hrefused cfg hfile)
  · rw [if_neg hsinks, error_bind]
    simp [hsinks]

/-- A host without its configuration file. -/
def missingFile : Host := { calmHost ciscoOnly with configFile := .unreadable }

/-- The load is refused, and the message about that goes to a logger that is not there. -/
theorem missing_file_crashes :
    (∃ g, loadOptions missingFile [] freshGlobals = .ok (false, g)) ∧
      startGrpcDialoutCollector missingFile [] freshGlobals = .error .nullLogger :=
  ⟨⟨_, rfl⟩, rfl⟩

end Start

end MdtDialoutCollector.Bridge
