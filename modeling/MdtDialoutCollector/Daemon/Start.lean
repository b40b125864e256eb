import MdtDialoutCollector.Bridge.Calls
import MdtDialoutCollector.Labels.Reload

/-! `main` of the daemon up to the point where all its threads are there. It loads the
configuration with the calls of `LoadOptions` and then, unlike the library, gives up at the
first thing that goes wrong. -/

namespace MdtDialoutCollector.Daemon

open MdtDialoutCollector.Core Bridge Data External Labels Text Utils

/-- What `main` finds besides its configuration. `pidFileOpens` is asked with the path of the
file, `zmqBinds` with the address of the pull socket. -/
structure Surroundings where
  host : Host
  pidFileOpens : Bytes → Bool
  fileContents : Bytes → Option Bytes
  zmqBinds : Bytes → Bool
  pollerStarts : Bool
  pipeOpens : Bool
  watcherStarts : Bool

/-- What the threads share, and the workers there are. -/
structure Running where
  globals : Globals
  labelMap : LabelMap
  workers : List Vendor

/-! ### `main` -/

section Main

variable {α : Type}

/-- An exception ends in `std::terminate`; a validator that refuses makes `main` exit. -/
def ofCheck : Check α → Outcome α
  | .ok a => .running a
  | .error (.refused _ _) | .error .exited => .exited
  | .error .nullLogger => .undefined
  | .error _ => .terminated

def demand (c : Bool) (otherwise : Outcome Unit) : Outcome Unit :=
  if c then .running () else otherwise

/-- One of the two label files, where it is enabled. -/
def loadLabelFile (S : Surroundings) (g : Globals) (enable path : String)
    (load : LabelMap → Option Bytes → Outcome LabelMap) (m : LabelMap) : Outcome LabelMap := do
  match ← ofCheck (raise (labelFile (g.params .dataManipulation) enable path)) with
  | none => return m
  | some file =>
    ofCheck (useLogger g.registry .multiLogger)
    load m (S.fileContents file)

def loadLabels (S : Surroundings) (g : Globals) : Outcome LabelMap := do
  let m ← loadLabelFile S g "enable_label_encode_as_map" "label_map_csv_path" loadLabelMap .empty
  loadLabelFile S g "enable_label_encode_as_map_ptm" "label_map_ptm_path" loadLabelMapPreTagStyle m

def loadAllThreads (H : Host) (main : Params) : Check (List Vendor) := do
  let cisco ← Core.loadThreads H main .cisco
  let juniper ← Core.loadThreads H main .juniper
  let nokia ← Core.loadThreads H main .nokia
  let huawei ← Core.loadThreads H main .huawei
  return cisco ++ juniper ++ nokia ++ huawei

/-- The thread of the poller is joinable by the time the pipe is made, so that a return from
`main` there terminates the process. -/
def runLoaded (S : Surroundings) (g : Globals) : Outcome Running := do
  let pidPath ← ofCheck (raise (corePidPath (g.params .main)))
  demand (S.pidFileOpens pidPath) .exited
  let labelMap ← loadLabels S g
  ofCheck (useLogger g.registry .multiLogger)
  let sockets ← ofCheck (raise (listeningSockets (g.params .main)))
  demand (!sockets.all (· = [])) .exited
  let zmqUri ← ofCheck (raise (zmqDelivery (g.params .zmq)))
  demand (S.zmqBinds zmqUri) .terminated
  demand S.pollerStarts .terminated
  demand S.pipeOpens .terminated
  let workers ← ofCheck (loadAllThreads S.host (g.params .main))
  demand S.watcherStarts .terminated
  return ⟨g, labelMap, workers⟩

def start (S : Surroundings) : Outcome Running := do
  let (loaded, g) ← ofCheck (loadOptions S.host [] freshGlobals)
  demand loaded .exited
  runLoaded S g

theorem bind_running_iff {β : Type} {x : Outcome α} {f : α → Outcome β} {b : β} :
    (x >>= f) = .running b ↔ ∃ a, x = .running a ∧ f a = .running b := by
  constructor
  · intro h
    cases x with
    | running a => exact ⟨a, rfl, h⟩
    | exited | terminated | undefined => cases h
  · rintro ⟨a, rfl, h⟩
    exact h

theorem ofCheck_running_iff {x : Check α} {a : α} : ofCheck x = .running a ↔ x = .ok a := by
  cases x with
  | ok b => simp [ofCheck]
  | error e => cases e <;> simp [ofCheck]

theorem demand_running_iff {c : Bool} {otherwise : Outcome Unit} {u : Unit}
    (h : otherwise ≠ .running u) : demand c otherwise = .running u ↔ c = true := by
  cases c with
  | true => simp [demand]
  | false => simp [demand, h]

end Main

/-! ### What `main` insists on -/

/-- The counts of the vendor are allowed, and each of its threads starts. -/
def VendorReady (H : Host) (main : Params) (v : Vendor) : Prop :=
  ∃ maxReplies workers, workerCounts main v = .ok (maxReplies, workers) ∧
    CountsAllowed maxReplies workers ∧ ∀ i < workers.toNat, H.threadStarts v.keys.socket i = true

section Threads

variable {H : Host} {R : Registry} {main : Params} {v : Vendor} {ts : List Vendor}

/-- Where the threads of a vendor start the library has started the same ones. -/
theorem loadThreads_iff (hlog : R .multiLogger = true) {socket : Bytes}
    (hsocket : main.atKey v.keys.socket = .ok socket) :
    Core.loadThreads H main v = .ok ts ↔
      Bridge.loadThreads H R main v = .ok ts ∧ (socket ≠ [] → VendorReady H main v) := by
  rw [Core.loadThreads, Bridge.loadThreads, hsocket]
  simp only [raise, Except.mapError, ok_bind, useLogger_registered hlog]
  by_cases hempty : socket = []
  · simp [hempty]
  rw [if_neg hempty, if_neg hempty, VendorReady]
  cases hcounts : workerCounts main v with
  | error e => simp [hempty]
  | ok counts =>
    obtain ⟨maxReplies, workers⟩ := counts
    simp only [Except.ok.injEq, Prod.mk.injEq]
    by_cases hallowed : CountsAllowed maxReplies workers
    · rw [if_pos hallowed, if_pos hallowed, startThreads]
      by_cases hstart : (List.range workers.toNat).all (H.threadStarts v.keys.socket) = true
      · have hall : ∀ i < workers.toNat, H.threadStarts v.keys.socket i = true := by
          simpa using hstart
        have hsame : ((List.range workers.toNat).filter (H.threadStarts v.keys.socket)).map
            (fun _ => v) = List.replicate workers.toNat v := by
          rw [List.filter_eq_self.mpr fun i hi => hall i (List.mem_range.mp hi)]
          simp
        rw [if_pos hstart, hsame]
        refine (and_iff_left fun _ => ?_).symm
        exact ⟨maxReplies, workers, ⟨rfl, rfl⟩, hallowed, hall⟩
      · rw [if_neg hstart]
        refine iff_of_false (by simp) fun h => ?_
        obtain ⟨_, _, ⟨rfl, rfl⟩, -, hall⟩ := h.2 hempty
        exact hstart (by simpa using hall)
    · rw [if_neg hallowed, if_neg hallowed]
      refine iff_of_false (by simp) fun h => ?_
      obtain ⟨_, _, ⟨rfl, rfl⟩, hcounts, -⟩ := h.2 hempty
      exact hallowed hcounts

theorem loadAllThreads_iff {cfg : Config} (hlog : R .multiLogger = true) :
    Daemon.loadAllThreads H (mainParameters cfg) = .ok ts ↔
      Bridge.loadAllThreads H R (mainParameters cfg) = .ok ts ∧
        ∀ v : Vendor, socketOf cfg v.keys ≠ [] → VendorReady H (mainParameters cfg) v := by
  have hiff (v : Vendor) (ts : List Vendor) : Core.loadThreads H (mainParameters cfg) v = .ok ts ↔
      Bridge.loadThreads H R (mainParameters cfg) v = .ok ts ∧
        (socketOf cfg v.keys ≠ [] → VendorReady H (mainParameters cfg) v) :=
    loadThreads_iff hlog (Params.atKey_of_find (find_socket cfg v.keys_mem))
  rw [Daemon.loadAllThreads, Bridge.loadAllThreads]
  simp only [bind_eq_ok, hiff]
  constructor
  · rintro ⟨cisco, ⟨hc, hcisco⟩, juniper, ⟨hj, hjuniper⟩, nokia, ⟨hn, hnokia⟩, huawei, ⟨hh, hhuawei⟩, h⟩
    refine ⟨⟨cisco, hc, juniper, hj, nokia, hn, huawei, hh, h⟩, fun v => ?_⟩
    cases v with
    | cisco => exact hcisco
    | juniper => exact hjuniper
    | nokia => exact hnokia
    | huawei => exact hhuawei
  · rintro ⟨⟨cisco, hc, juniper, hj, nokia, hn, huawei, hh, h⟩, hready⟩
    exact ⟨cisco, ⟨hc, hready .cisco⟩, juniper, ⟨hj, hready .juniper⟩, nokia, ⟨hn, hready .nokia⟩,
      huawei, ⟨hh, hready .huawei⟩, h⟩

end Threads

/-! ### The label map -/

section Labels

variable {S : Surroundings} {cfg : Config} {g : Globals} {m m' : LabelMap}

/-- The path of the label file that `main` loads. -/
def csvPath (cfg : Config) : Bytes :=
  cfg.text "label_map_csv_path" (lit "/opt/mdt_dialout_collector/csv/label_map.csv")

/-- The label map is the one of the CSV file, where that is enabled; the load of a PTM file is
undefined, so that it must not be. -/
def LabelsLoad (S : Surroundings) (cfg : Config) (m : LabelMap) : Prop :=
  labelOn cfg "enable_label_encode_as_map_ptm" = false ∧
    if labelOn cfg "enable_label_encode_as_map" then
      loadLabelMap .empty (S.fileContents (csvPath cfg)) = .running m
    else m = .empty

theorem loadLabelFile_eq {enable path : String} {file : Option Bytes}
    (hlog : g.registry .multiLogger = true)
    (hfile : labelFile (g.params .dataManipulation) enable path = .ok file)
    (load : LabelMap → Option Bytes → Outcome LabelMap) :
    loadLabelFile S g enable path load m =
      file.elim (.running m) fun file => load m (S.fileContents file) := by
  rw [loadLabelFile, hfile]
  cases file with
  | none => rfl
  | some file =>
    simp only [raise, Except.mapError, ofCheck, useLogger_registered hlog, Outcome.running_bind,
      Option.elim_some]

theorem labelFile_csv (cfg : Config) :
    labelFile (dataManipulationParameters cfg) "enable_label_encode_as_map" "label_map_csv_path" =
      .ok (if labelOn cfg "enable_label_encode_as_map" then some (csvPath cfg) else none) := by
  rw [labelFile, Params.atKey_of_find (find_enableCsv cfg), ok_bind]
  by_cases hon : labelOn cfg "enable_label_encode_as_map" = true
  · rw [if_neg (not_not.mpr (of_decide_eq_true hon)), Params.atKey_of_find (find_csvPath cfg hon),
      if_pos hon]
    rfl
  · rw [if_pos fun h => hon (decide_eq_true h), if_neg hon]
    rfl

theorem labelFile_ptm (cfg : Config) : ∃ file,
    labelFile (dataManipulationParameters cfg) "enable_label_encode_as_map_ptm"
        "label_map_ptm_path" = .ok file ∧
      (file = none ↔ labelOn cfg "enable_label_encode_as_map_ptm" = false) := by
  rw [labelFile, Params.atKey_of_find (find_enablePtm cfg), ok_bind]
  by_cases hon : labelOn cfg "enable_label_encode_as_map_ptm" = true
  · rw [if_neg (not_not.mpr (of_decide_eq_true hon)), Params.atKey_of_find (find_ptmPath cfg hon)]
    exact ⟨_, rfl, by simp [hon]⟩
  · rw [if_pos fun h => hon (decide_eq_true h)]
    exact ⟨_, rfl, by simp [hon]⟩

theorem loadLabels_running_iff (hlog : g.registry .multiLogger = true)
    (hparams : g.params .dataManipulation = dataManipulationParameters cfg) :
    loadLabels S g = .running m ↔ LabelsLoad S cfg m := by
  obtain ⟨file, hptm, hoff⟩ := labelFile_ptm cfg
  have hcsv := labelFile_csv cfg
  rw [← hparams] at hptm hcsv
  rw [loadLabels, loadLabelFile_eq hlog hcsv, bind_running_iff, LabelsLoad, ← hoff]
  simp only [loadLabelFile_eq hlog hptm]
  cases file with
  | some file =>
    refine iff_of_false ?_ (by simp)
    rintro ⟨m₁, -, h⟩
    exact loadLabelMapPreTagStyle_stops m₁ _ m h
  | none =>
    by_cases hon : labelOn cfg "enable_label_encode_as_map" = true
    · simp [hon]
    · simp [hon, eq_comm]

end Labels

/-! ### The daemon beside the library -/

section Start

variable {S : Surroundings} {cfg : Config} {g : Globals} {r : Running}

def pidPath (cfg : Config) : Bytes :=
  cfg.text "core_pid_folder" (lit "/var/run/") ++ lit "/" ++
    cfg.text "writer_id" (lit "mdt-dialout-collector")

/-- All that the daemon insists on beyond an accepted configuration, where the library goes on
without it or does not need it. -/
structure Ready (S : Surroundings) (cfg : Config) (m : LabelMap) : Prop where
  pidFile : S.pidFileOpens (pidPath cfg) = true
  labels : LabelsLoad S cfg m
  socket : ∃ v : Vendor, socketOf cfg v.keys ≠ []
  zmq : S.zmqBinds (zmqUriOf cfg []) = true
  threads : S.pollerStarts = true ∧ S.pipeOpens = true ∧ S.watcherStarts = true
  workers : ∀ v : Vendor, socketOf cfg v.keys ≠ [] → VendorReady S.host (mainParameters cfg) v

theorem corePidPath_eq (cfg : Config) : corePidPath (mainParameters cfg) = .ok (pidPath cfg) := by
  obtain ⟨hwriter, hfolder, -⟩ := find_main cfg
  rw [corePidPath, Params.atKey_of_find hfolder, ok_bind, Params.atKey_of_find hwriter]
  rfl

theorem listeningSockets_eq (cfg : Config) : listeningSockets (mainParameters cfg) =
    .ok ([Vendor.cisco, .juniper, .nokia, .huawei].map fun v => socketOf cfg v.keys) := by
  have hsocket (v : Vendor) : (mainParameters cfg).atKey v.keys.socket = .ok (socketOf cfg v.keys) :=
    Params.atKey_of_find (find_socket cfg v.keys_mem)
  rw [listeningSockets]
  simp only [List.mapM_cons, List.mapM_nil, hsocket, ok_bind]
  rfl

theorem some_socket_iff (cfg : Config) :
    (!([Vendor.cisco, .juniper, .nokia, .huawei].map fun v => socketOf cfg v.keys).all (· = [])) =
      true ↔ ∃ v : Vendor, socketOf cfg v.keys ≠ [] := by
  rw [Bool.not_eq_true', List.all_eq_false]
  constructor
  · rintro ⟨socket, hsocket, hne⟩
    obtain ⟨v, -, rfl⟩ := List.mem_map.mp hsocket
    exact ⟨v, by simpa using hne⟩
  · rintro ⟨v, hv⟩
    refine ⟨_, List.mem_map_of_mem (a := v) (by cases v <;> simp), by simpa using hv⟩

/-- The configuration that has been loaded, and the logger it has left. -/
theorem loaded_from_file {H : Host} (h : loadOptions H [] freshGlobals = .ok (true, g)) :
    g.registry .multiLogger = true ∧
      ∃ cfg, H.configFile = .read cfg ∧ ∀ s, g.params s = fileParameters cfg [] s := by
  have hfresh : loadOptions H [] freshGlobals = _ := loadOptions_fresh freshGlobals.params
  rw [h] at hfresh
  split_ifs at hfresh
  obtain ⟨cfg, hfile, haccepts, hparams⟩ := loadStages_accepted hfresh.symm
  refine ⟨?_, cfg, hfile, hparams⟩
  obtain ⟨g₁, hlog, hload⟩ := loadStages_booted [] hfile (haccepts .logs) freshGlobals.params
  rw [hload] at hfresh
  cases hopen : sinksOpen H cfg with
  | false =>
    rw [loadStages_of_no_logger (hlog.trans hopen)] at hfresh
    cases hfresh
  | true =>
    rw [loadStages_registry (by decide) hfresh.symm, hlog, hopen]

/-- With a socket configured the library starts whatever threads it can. -/
theorem startWorkers_iff {H : Host} {ws : List Vendor} (hlog : g.registry .multiLogger = true)
    (hmain : g.params .main = mainParameters cfg) (hsocket : ∃ v : Vendor, socketOf cfg v.keys ≠ []) :
    startWorkers H g = .ok ⟨true, g, ws⟩ ↔
      Bridge.loadAllThreads H g.registry (mainParameters cfg) = .ok ws := by
  have hsome := (some_socket_iff cfg).mpr hsocket
  rw [Bool.not_eq_true'] at hsome
  rw [startWorkers, useLogger_registered hlog, ok_bind, hmain, listeningSockets_eq]
  simp only [raise, Except.mapError, ok_bind, hsome, Bool.false_eq_true, if_false, bind_eq_ok]
  constructor
  · rintro ⟨ws', hws', h⟩
    cases h
    exact hws'
  · intro h
    exact ⟨ws, h, rfl⟩

/-- After a load the daemon is up where it is ready, with the workers that the library would
have started. -/
theorem runLoaded_running_iff (hlog : g.registry .multiLogger = true)
    (hparams : ∀ s, g.params s = fileParameters cfg [] s) :
    runLoaded S g = .running r ↔ r.globals = g ∧
      startWorkers S.host g = .ok ⟨true, g, r.workers⟩ ∧ Ready S cfg r.labelMap := by
  have hzmq : zmqDelivery (zmqParameters cfg []) = .ok (zmqUriOf cfg []) :=
    Params.atKey_of_find (find_zmqUri cfg [])
  rw [runLoaded, hparams .main, hparams .zmq]
  simp only [fileParameters, corePidPath_eq, listeningSockets_eq, hzmq, raise, Except.mapError,
    useLogger_registered hlog, bind_running_iff, ofCheck_running_iff, loadAllThreads_iff hlog,
    loadLabels_running_iff hlog (hparams .dataManipulation), demand_running_iff, ne_eq, reduceCtorEq,
    not_false_eq_true, exists_const, Except.ok.injEq, exists_eq_left', true_and, some_socket_iff]
  constructor
  · rintro ⟨hpid, m, hm, hsocket, hbind, hpoller, hpipe, ws, ⟨hws, hready⟩, hwatcher, ⟨⟩⟩
    exact ⟨rfl, (startWorkers_iff hlog (hparams .main) hsocket).mpr hws,
      ⟨hpid, hm, hsocket, hbind, ⟨hpoller, hpipe, hwatcher⟩, hready⟩⟩
  · rintro ⟨rfl, hws, hready⟩
    exact ⟨hready.pidFile, r.labelMap, hready.labels, hready.socket, hready.zmq, hready.threads.1,
      hready.threads.2.1, r.workers,
      ⟨(startWorkers_iff hlog (hparams .main) hready.socket).mp hws, hready.workers⟩,
      hready.threads.2.2, rfl⟩

/-- The daemon gets as far as its joins exactly where the library starts the same workers from
the same configuration and the daemon is ready as well. -/
theorem start_running_iff (S : Surroundings) (r : Running) :
    start S = .running r ↔ ∃ cfg, S.host.configFile = .read cfg ∧
      startGrpcDialoutCollector S.host [] freshGlobals = .ok ⟨true, r.globals, r.workers⟩ ∧
      Ready S cfg r.labelMap := by
  rw [start, bind_running_iff, startGrpcDialoutCollector]
  constructor
  · rintro ⟨⟨loaded, g⟩, hload, h⟩
    obtain ⟨_, hloaded, h⟩ := bind_running_iff.mp h
    rw [ofCheck_running_iff] at hload
    have hyes : loaded = true := (demand_running_iff (by simp)).mp hloaded
    subst hyes
    obtain ⟨hlog, cfg, hfile, hparams⟩ := loaded_from_file hload
    obtain ⟨rfl, hstart, hready⟩ := (runLoaded_running_iff hlog hparams).mp h
    exact ⟨cfg, hfile, by rw [hload]; exact hstart, hready⟩
  · rintro ⟨cfg, hfile, hstart, hready⟩
    obtain ⟨⟨loaded, g⟩, hload, h⟩ := bind_eq_ok.mp hstart
    cases loaded with
    | false =>
      obtain ⟨-, -, h⟩ := bind_eq_ok.mp h
      cases h
    | true =>
      obtain ⟨hlog, cfg', hfile', hparams⟩ := loaded_from_file hload
      rw [hfile] at hfile'
      cases hfile'
      have hglobals : r.globals = g := (startWorkers_loaded h).2
      rw [hglobals] at h
      refine ⟨(true, g), ofCheck_running_iff.mpr hload, ?_⟩
      exact (runLoaded_running_iff hlog hparams).mpr ⟨hglobals, h, hready⟩

/-- Nothing goes wrong around the configuration. -/
def calmSurroundings (cfg : Config) : Surroundings where
  host := calmHost cfg
  pidFileOpens _ := true
  fileContents _ := none
  zmqBinds _ := true
  pollerStarts := true
  pipeOpens := true
  watcherStarts := true

example : ∃ r, start (calmSurroundings ciscoOnly) = .running r ∧ r.workers = [.cisco] :=
  ⟨_, rfl, rfl⟩

end Start

end MdtDialoutCollector.Daemon
