import MdtDialoutCollector.Utils.CfgHandler

/-! What the validators make of a file, once both loggers are registered: the files each of
them accepts, the paths it asks the file system about, and the parameters it fills. All
three are functions of the file: a setting it has is taken as it stands, one it has not
gets its default. -/

namespace MdtDialoutCollector.External.Config

open Text

variable (cfg : Config) (key : String)

/-- Absent, or a string. -/
def typed : Bool :=
  match cfg.lookup key with
  | some .other => false
  | _ => true

/-- Absent, or a string that is not empty. -/
def optional : Bool :=
  match cfg.lookup key with
  | none => true
  | some (.string s) => s.bytes ≠ []
  | some .other => false

/-- Absent, or one of these strings. -/
def oneOf (allowed : List Bytes) : Bool :=
  match cfg.lookup key with
  | none => true
  | some (.string s) => s.bytes ∈ allowed
  | some .other => false

/-- A string that is not empty. -/
def mandatory : Bool :=
  match cfg.lookup key with
  | some (.string s) => s.bytes ≠ []
  | _ => false

/-- A string, empty or not. -/
def isString : Bool :=
  match cfg.lookup key with
  | some (.string _) => true
  | _ => false

/-- A path, given or by default, that is looked up and `e` found. -/
def pathAnswers (H : Host) (default : Bytes) (e : Existence) : Prop :=
  cfg.typed key = true ∧ cfg.text key default ≠ [] ∧ H.pathExists (cfg.text key default) = e

end MdtDialoutCollector.External.Config

namespace MdtDialoutCollector.Utils

open Data External Text

/-- The three ends of a validator: an accident, an issue that is logged, or parameters. -/
abbrev Decides {α : Type} (x : Check α) (crash accept : Prop) (a : α) : Prop :=
  Settles Failure.IsRefusal x crash accept a

section Helpers

variable {H : Host} {R : Registry} {cfg : Config} {params : Params} {key : String}
  {defaultValue : Bytes} {logger : Logger}

theorem useLogger_registered (hR : R logger = true) : useLogger R logger = .ok () := by
  rw [useLogger, if_pos hR]

theorem refuse_registered {α : Type} (hR : R logger = true) (issue : Issue) :
    refuse R logger issue = (.error (.refused logger issue) : Check α) := by
  rw [refuse, useLogger_registered hR, ok_bind]

theorem decides_refuse {α : Type} (hR : R logger = true) (issue : Issue) (a : α) :
    Decides (refuse R logger issue) False False a := by
  rw [refuse_registered hR]
  exact .error trivial a

theorem decides_atKey {value : Bytes} (h : params.find key = some value) :
    Decides (raise (params.atKey key)) False True value := by
  rw [Params.atKey_of_find h]
  exact .ok value

theorem decides_require {α : Type} {c : Prop} [Decidable c] (hR : R logger = true) (issue : Issue)
    (a : α) : Decides (if c then .ok a else refuse R logger issue) False c a := by
  by_cases hc : c
  · rw [if_pos hc]
    exact (Settles.ok a).congr Iff.rfl (by simp [hc]) fun _ => rfl
  · rw [if_neg hc]
    exact (decides_refuse hR issue a).congr Iff.rfl (by simp [hc]) fun _ => rfl

theorem decides_forbid {α : Type} {c : Prop} [Decidable c] (hR : R logger = true) (issue : Issue)
    (a : α) : Decides (if c then refuse R logger issue else .ok a) False (¬c) a := by
  rw [← ite_not]
  exact decides_require hR issue a

theorem decides_readStringSetting (hR : R logger = true) :
    Decides (readStringSetting R cfg key logger) False (cfg.typed key = true)
      ((cfg.lookup key).map fun _ => cfg.text key []) := by
  rw [readStringSetting, Config.typed, Config.text]
  cases cfg.lookup key with
  | none => exact (Settles.ok _).congr Iff.rfl (by simp) fun _ => rfl
  | some s =>
    cases s with
    | string s => exact (Settles.ok _).congr Iff.rfl (by simp) fun _ => rfl
    | other => exact (decides_refuse hR _ _).congr Iff.rfl (by simp) fun _ => rfl

theorem decides_loadOptional (hR : R logger = true) :
    Decides (loadOptional R cfg params key defaultValue logger) False (cfg.optional key = true)
      (params.emplace key (cfg.text key defaultValue)) := by
  rw [loadOptional, readStringSetting, Config.optional, Config.text]
  cases cfg.lookup key with
  | none => exact (Settles.ok _).congr Iff.rfl (by simp) fun _ => rfl
  | some s =>
    cases s with
    | string s => exact (decides_forbid hR _ _).congr Iff.rfl (by simp) fun _ => rfl
    | other =>
      simp only [refuse_registered hR, error_bind]
      exact (Settles.error trivial _).congr Iff.rfl (by simp) fun _ => rfl

theorem decides_loadOptionalEnum {allowed : List Bytes} (hR : R logger = true) :
    Decides (loadOptionalEnum R cfg params key defaultValue allowed logger) False
      (cfg.oneOf key allowed = true) (params.emplace key (cfg.text key defaultValue)) := by
  rw [loadOptionalEnum, readStringSetting, Config.oneOf, Config.text]
  cases cfg.lookup key with
  | none => exact (Settles.ok _).congr Iff.rfl (by simp) fun _ => rfl
  | some s =>
    cases s with
    | string s => exact (decides_require hR _ _).congr Iff.rfl (by simp) fun _ => rfl
    | other =>
      simp only [refuse_registered hR, error_bind]
      exact (Settles.error trivial _).congr Iff.rfl (by simp) fun _ => rfl

theorem decides_loadMandatory (hR : R logger = true) :
    Decides (loadMandatory R cfg params key logger) False (cfg.mandatory key = true)
      (params.emplace key (cfg.text key [])) := by
  rw [loadMandatory, readStringSetting, Config.mandatory, Config.text]
  cases cfg.lookup key with
  | none => exact (decides_refuse hR _ _).congr Iff.rfl (by simp) fun _ => rfl
  | some s =>
    cases s with
    | string s => exact (decides_forbid hR _ _).congr Iff.rfl (by simp) fun _ => rfl
    | other =>
      simp only [refuse_registered hR, error_bind]
      exact (Settles.error trivial _).congr Iff.rfl (by simp) fun _ => rfl

theorem decides_pathExists (path : Bytes) :
    Decides (pathExists H path) (H.pathExists path = .failure) True
      (decide (H.pathExists path = .present)) := by
  rw [pathExists]
  cases H.pathExists path with
  | present => exact (Settles.ok _).congr (by simp) (by simp) fun _ => rfl
  | absent => exact (Settles.ok _).congr (by simp) (by simp) fun _ => rfl
  | failure => exact (Settles.of_crash (fun h => h) false).congr (by simp) (by simp) fun _ => rfl

theorem decides_loadOptionalPath (hR : R logger = true) :
    Decides (loadOptionalPath H R cfg params key defaultValue logger)
      (cfg.pathAnswers key H defaultValue .failure) (cfg.pathAnswers key H defaultValue .present)
      (params.emplace key (cfg.text key defaultValue)) := by
  have hchosen : cfg.typed key = true →
      ((cfg.lookup key).map fun _ => cfg.text key []).getD defaultValue =
        cfg.text key defaultValue := by
    rw [Config.typed, Config.text, Config.text]
    cases cfg.lookup key with
    | none => simp
    | some s => cases s <;> simp
  have hask (path : Bytes) : Decides
      (if path = [] then refuse R logger (.invalid key path)
        else do
          if ← pathExists H path then .ok (params.emplace key path)
          else refuse R logger (.invalid key path))
      (path ≠ [] ∧ H.pathExists path = .failure) (path ≠ [] ∧ H.pathExists path = .present)
      (params.emplace key path) := by
    refine (Settles.ite (fun _ => decides_refuse hR _ (params.emplace key path)) fun _ =>
      (decides_pathExists path).bind fun _ => decides_require hR _ _).congr ?_ ?_ ?_
    · tauto
    · by_cases hpath : path = [] <;> simp [hpath]
    · simp
  apply Settles.congr ((decides_readStringSetting hR).bind fun htyped => ?rest)
  case rest =>
    rw [hchosen htyped]
    exact hask _
  · simp only [Config.pathAnswers]
    tauto
  · simp only [Config.pathAnswers]
    tauto
  · exact fun _ => rfl

end Helpers

section Validators

variable {H : Host} {R : Registry} {cfg : Config}

theorem setParameters_read (hfile : H.configFile = .read cfg) : setParameters H R = .ok cfg := by
  rw [setParameters, hfile]

/-! ### Logs -/

def syslogOn (cfg : Config) : Bool := cfg.text "syslog" (lit "false") = lit "true"

def acceptsSyslog (cfg : Config) : Prop :=
  syslogOn cfg = true →
    cfg.oneOf "syslog_facility" syslogFacilities = true ∧ cfg.optional "syslog_ident" = true

def acceptsLogs (cfg : Config) : Prop :=
  cfg.optional "syslog" = true ∧ acceptsSyslog cfg ∧ cfg.optional "console_log" = true ∧
    cfg.oneOf "spdlog_level" spdlogLevels = true

def withSyslog (cfg : Config) (params : Params) : Params :=
  (params.emplace "syslog_facility"
      (if syslogOn cfg then cfg.text "syslog_facility" (lit "LOG_USER") else lit "NONE")).emplace
    "syslog_ident"
    (if syslogOn cfg then cfg.text "syslog_ident" (lit "mdt-dialout-collector") else lit "NONE")

def logsParameters (cfg : Config) : Params :=
  ((withSyslog cfg (Params.empty.emplace "syslog" (cfg.text "syslog" (lit "false")))).emplace
    "console_log" (cfg.text "console_log" (lit "true"))).emplace
    "spdlog_level" (cfg.text "spdlog_level" (lit "info"))

theorem decides_loadSyslog (hR : R .multiLoggerBoot = true) {params : Params}
    (hfind : params.find "syslog" = some (cfg.text "syslog" (lit "false"))) :
    Decides (loadSyslog R cfg params) False (acceptsSyslog cfg) (withSyslog cfg params) := by
  rw [loadSyslog]
  apply Settles.congr ((decides_atKey hfind).bind fun _ => Settles.ite
    (fun _ => (decides_loadOptionalEnum hR).bind fun _ => decides_loadOptional hR)
    fun _ => Settles.ok _)
  · simp
  · intro _
    simp only [acceptsSyslog, syslogOn, decide_eq_true_eq, true_and]
    split_ifs with h <;> simp [h]
  · intro _
    simp only [withSyslog, syslogOn, decide_eq_true_eq]
    split_ifs <;> rfl

theorem decides_lookupLogsParameters (hR : R .multiLoggerBoot = true)
    (hfile : H.configFile = .read cfg) :
    Decides (lookupLogsParameters H R) False (acceptsLogs cfg) (logsParameters cfg) := by
  rw [lookupLogsParameters, setParameters_read hfile, ok_bind]
  exact ((decides_loadOptional hR).bind fun _ => (decides_loadSyslog hR (by simp)).bind fun _ =>
    (decides_loadOptional hR).bind fun _ => decides_loadOptionalEnum hR).congr (by simp)
    (fun _ => Iff.rfl) fun _ => rfl

/-! ### Main -/

def tlsOn (cfg : Config) : Bool := cfg.text "enable_tls" (lit "false") = lit "true"

def tlsGiven (cfg : Config) : Prop :=
  tlsOn cfg = true ∧ cfg.isString "tls_cert_path" = true ∧ cfg.isString "tls_key_path" = true

def acceptsTls (H : Host) (cfg : Config) : Prop :=
  tlsOn cfg = true → tlsGiven cfg ∧ H.pathExists (cfg.text "tls_cert_path" []) = .present ∧
    H.pathExists (cfg.text "tls_key_path" []) = .present

def failsTls (H : Host) (cfg : Config) : Prop :=
  tlsGiven cfg ∧ (H.pathExists (cfg.text "tls_cert_path" []) = .failure ∨
    H.pathExists (cfg.text "tls_cert_path" []) = .present ∧
      H.pathExists (cfg.text "tls_key_path" []) = .failure)

/-- The path of a file that only TLS needs. -/
def tlsFile (cfg : Config) (key : String) : Bytes := if tlsOn cfg then cfg.text key [] else []

theorem decides_bothExist (first second : Bytes) :
    Decides (bothExist H first second)
      (H.pathExists first = .failure ∨
        H.pathExists first = .present ∧ H.pathExists second = .failure)
      True (decide (H.pathExists first = .present ∧ H.pathExists second = .present)) := by
  rw [bothExist]
  apply Settles.congr ((decides_pathExists first).bind fun _ =>
    Settles.ite (fun _ => decides_pathExists second) fun _ => Settles.ok false)
  · simp
  · simp
  · simp only [decide_eq_true_eq]
    intro _
    split_ifs with h <;> simp [h]

theorem decides_tlsPaths (hR : R .multiLogger = true) {params : Params}
    (hfind : params.find "enable_tls" = some (cfg.text "enable_tls" (lit "false"))) :
    Decides (tlsPaths H R cfg params) (failsTls H cfg) (acceptsTls H cfg)
      (tlsFile cfg "tls_cert_path", tlsFile cfg "tls_key_path") := by
  rw [tlsPaths, raise, Params.atKey_of_find hfind]
  simp only [Except.mapError, ok_bind]
  by_cases hon : cfg.text "enable_tls" (lit "false") = lit "true"
  · rw [if_neg (not_not.mpr hon)]
    simp only [failsTls, acceptsTls, tlsGiven, tlsFile, tlsOn, hon, Config.isString]
    rw [Config.text, Config.text]
    cases hcert : cfg.lookup "tls_cert_path" with
    | none => exact (decides_refuse hR _ _).congr (by simp) (by simp) fun _ => rfl
    | some c =>
      cases hkey : cfg.lookup "tls_key_path" with
      | none => cases c <;> exact (decides_refuse hR _ _).congr (by simp) (by simp) fun _ => rfl
      | some k =>
        cases c with
        | other => exact (decides_refuse hR _ _).congr (by simp) (by simp) fun _ => rfl
        | string c =>
          cases k with
          | other => exact (decides_refuse hR _ _).congr (by simp) (by simp) fun _ => rfl
          | string k =>
            exact ((decides_bothExist c.bytes k.bytes).bind fun _ =>
              decides_require hR _ _).congr (by simp) (by simp) fun _ => rfl
  · rw [if_pos hon]
    simp only [failsTls, acceptsTls, tlsGiven, tlsFile, tlsOn, hon]
    exact (Settles.ok _).congr (by simp) (by simp) fun _ => rfl

/-- The socket of a vendor, empty where it has none. -/
def socketOf (cfg : Config) (v : VendorKeys) : Bytes :=
  if (cfg.lookup v.socket).isSome then cfg.text v.socket [] else cfg.text v.socketLegacy []

def acceptsSocket (cfg : Config) (v : VendorKeys) : Prop :=
  if (cfg.lookup v.socket).isSome then cfg.optional v.socket = true
  else cfg.typed v.socketLegacy = true

def withSocket (cfg : Config) (params : Params) (v : VendorKeys) : Params :=
  params.emplace v.socket (socketOf cfg v)

theorem decides_loadSocket (hR : R .multiLogger = true) (params : Params) (v : VendorKeys) :
    Decides (loadSocket R cfg params v) False (acceptsSocket cfg v) (withSocket cfg params v) := by
  rw [loadSocket, acceptsSocket, withSocket, socketOf]
  by_cases hnew : (cfg.lookup v.socket).isSome
  · rw [if_pos hnew, if_pos hnew, if_pos hnew]
    exact decides_loadOptional hR
  · rw [if_neg hnew, if_neg hnew, if_neg hnew, readStringSetting, Config.typed, Config.text]
    cases cfg.lookup v.socketLegacy with
    | none => exact (Settles.ok _).congr Iff.rfl (by simp) fun _ => rfl
    | some s =>
      simp only [useLogger_registered hR, ok_bind]
      cases s with
      | string s => exact (Settles.ok _).congr Iff.rfl (by simp) fun _ => rfl
      | other =>
        simp only [refuse_registered hR, error_bind]
        exact (Settles.error trivial _).congr Iff.rfl (by simp) fun _ => rfl

def acceptsWorkers (cfg : Config) (v : VendorKeys) : Prop :=
  socketOf cfg v ≠ [] → cfg.optional v.replies = true ∧ cfg.optional v.workers = true

def withWorkers (cfg : Config) (params : Params) (v : VendorKeys) : Params :=
  if socketOf cfg v = [] then params
  else (params.emplace v.replies (cfg.text v.replies (lit "0"))).emplace v.workers
    (cfg.text v.workers (lit "1"))

theorem decides_loadWorkers (hR : R .multiLogger = true) {params : Params} (v : VendorKeys)
    (hfind : params.find v.socket = some (socketOf cfg v)) :
    Decides (loadWorkers R cfg params v) False (acceptsWorkers cfg v)
      (withWorkers cfg params v) := by
  rw [loadWorkers]
  apply Settles.congr ((decides_atKey hfind).bind fun _ => Settles.ite (fun _ => Settles.ok params)
    fun _ => (decides_loadOptional hR).bind fun _ => decides_loadOptional hR)
  · simp
  · intro _
    simp only [acceptsWorkers]
    split_ifs with h <;> simp [h]
  · exact fun _ => rfl

/-- The parameters that every configuration has, in front of those of the vendors. -/
def commonParameters (cfg : Config) : Params :=
  ((((((Params.empty.emplace
    "writer_id" (cfg.text "writer_id" (lit "mdt-dialout-collector"))).emplace
    "core_pid_folder" (cfg.text "core_pid_folder" (lit "/var/run/"))).emplace
    "iface" (cfg.text "iface" [])).emplace
    "so_bindtodevice_check" (cfg.text "so_bindtodevice_check" (lit "true"))).emplace
    "enable_tls" (cfg.text "enable_tls" (lit "false"))).emplace
    "tls_cert_path" (tlsFile cfg "tls_cert_path")).emplace
    "tls_key_path" (tlsFile cfg "tls_key_path")

def mainParameters (cfg : Config) : Params :=
  (vendors.foldl (withWorkers cfg) (vendors.foldl (withSocket cfg) (commonParameters cfg))).emplace
    "data_delivery_method" (cfg.text "data_delivery_method" (lit "kafka"))

def acceptsMain (H : Host) (cfg : Config) : Prop :=
  cfg.optional "writer_id" = true ∧ cfg.pathAnswers "core_pid_folder" H (lit "/var/run/") .present ∧
    cfg.mandatory "iface" = true ∧ cfg.oneOf "so_bindtodevice_check" booleans = true ∧
    cfg.oneOf "enable_tls" booleans = true ∧ acceptsTls H cfg ∧
    (∀ v ∈ vendors, acceptsSocket cfg v) ∧ (∀ v ∈ vendors, acceptsWorkers cfg v) ∧
    cfg.oneOf "data_delivery_method" [lit "kafka", lit "zmq"] = true

/-- The file system fails on a path that is asked about. -/
def failsMain (H : Host) (cfg : Config) : Prop :=
  cfg.optional "writer_id" = true ∧
    (cfg.pathAnswers "core_pid_folder" H (lit "/var/run/") .failure ∨
    cfg.pathAnswers "core_pid_folder" H (lit "/var/run/") .present ∧ cfg.mandatory "iface" = true ∧
      cfg.oneOf "so_bindtodevice_check" booleans = true ∧
      cfg.oneOf "enable_tls" booleans = true ∧ failsTls H cfg)

/-- The sockets are loaded for every vendor before the workers of any. -/
def SocketsLoaded (cfg : Config) (params : Params) : Prop :=
  ∀ v ∈ vendors, params.find v.socket = some (socketOf cfg v)

theorem socketsLoaded_foldl (cfg : Config) :
    SocketsLoaded cfg (vendors.foldl (withSocket cfg) (commonParameters cfg)) := by
  simp [SocketsLoaded, vendors, withSocket, commonParameters]

theorem SocketsLoaded.withWorkers {params : Params} (h : SocketsLoaded cfg params) {v : VendorKeys}
    (hv : v ∈ vendors) : SocketsLoaded cfg (withWorkers cfg params v) := by
  intro u hu
  rw [Utils.withWorkers]
  split_ifs
  · exact h u hu
  · have hkeys : ∀ u ∈ vendors, ∀ v ∈ vendors, u.socket ≠ v.replies ∧ u.socket ≠ v.workers := by
      decide
    obtain ⟨hreplies, hworkers⟩ := hkeys u hu v hv
    rw [Params.find_emplace, if_neg hworkers, Params.find_emplace, if_neg hreplies]
    exact h u hu

theorem decides_lookupMainParameters (hR : R .multiLogger = true)
    (hfile : H.configFile = .read cfg) :
    Decides (lookupMainParameters H R) (failsMain H cfg) (acceptsMain H cfg)
      (mainParameters cfg) := by
  have hsockets : Decides (vendors.foldlM (loadSocket R cfg) (commonParameters cfg)) False
      (∀ v ∈ vendors, acceptsSocket cfg v)
      (vendors.foldl (withSocket cfg) (commonParameters cfg)) :=
    Settles.foldlM (fun _ => True) vendors
      (fun p _ v _ => ⟨decides_loadSocket hR p v, trivial⟩) trivial
  have hworkers : Decides (vendors.foldlM (loadWorkers R cfg)
      (vendors.foldl (withSocket cfg) (commonParameters cfg))) False
      (∀ v ∈ vendors, acceptsWorkers cfg v)
      (vendors.foldl (withWorkers cfg) (vendors.foldl (withSocket cfg) (commonParameters cfg))) :=
    Settles.foldlM (SocketsLoaded cfg) vendors
      (fun p hp v hv => ⟨decides_loadWorkers hR v (hp v hv), hp.withWorkers hv⟩)
      (socketsLoaded_foldl cfg)
  have hloops : Decides (vendors.foldlM (loadSocket R cfg) (commonParameters cfg) >>= fun params =>
      vendors.foldlM (loadWorkers R cfg) params >>= fun params =>
      loadOptionalEnum R cfg params "data_delivery_method" (lit "kafka")
        [lit "kafka", lit "zmq"] .multiLogger) _ _ (mainParameters cfg) :=
    hsockets.bind fun _ => hworkers.bind fun _ => decides_loadOptionalEnum hR
  rw [lookupMainParameters, setParameters_read hfile, ok_bind]
  apply Settles.congr ((decides_loadOptional hR).bind fun _ =>
    (decides_loadOptionalPath hR).bind fun _ => (decides_loadMandatory hR).bind fun _ =>
    (decides_loadOptionalEnum hR).bind fun _ => (decides_loadOptionalEnum hR).bind fun _ =>
    (decides_tlsPaths hR (by simp)).bind fun _ => hloops)
  · simp [failsMain]
  · exact fun _ => Iff.rfl
  · exact fun _ => rfl

/-! ### Data manipulation -/

def labelOn (cfg : Config) (enable : String) : Bool := cfg.text enable (lit "false") = lit "true"

def acceptsLabel (H : Host) (cfg : Config) (enable path : String) (defaultPath : Bytes) : Prop :=
  cfg.optional enable = true ∧
    (labelOn cfg enable = true → cfg.pathAnswers path H defaultPath .present)

def failsLabel (H : Host) (cfg : Config) (enable path : String) (defaultPath : Bytes) : Prop :=
  cfg.optional enable = true ∧ labelOn cfg enable = true ∧
    cfg.pathAnswers path H defaultPath .failure

def withLabel (cfg : Config) (params : Params) (enable path : String) (defaultPath : Bytes) :
    Params :=
  let params := params.emplace enable (cfg.text enable (lit "false"))
  if labelOn cfg enable then params.emplace path (cfg.text path defaultPath) else params

theorem decides_loadLabelPath (hR : R .multiLogger = true) {params : Params}
    {enable path : String} {defaultPath : Bytes} (hnew : params.find enable = none) :
    Decides (loadLabelPath H R cfg params enable path defaultPath)
      (failsLabel H cfg enable path defaultPath) (acceptsLabel H cfg enable path defaultPath)
      (withLabel cfg params enable path defaultPath) := by
  have hfind : (params.emplace enable (cfg.text enable (lit "false"))).find enable =
      some (cfg.text enable (lit "false")) := by simp [hnew]
  rw [loadLabelPath]
  apply Settles.congr ((decides_loadOptional hR).bind fun _ => (decides_atKey hfind).bind fun _ =>
    Settles.ite (fun _ => decides_loadOptionalPath hR) fun _ => Settles.ok _)
  · simp [failsLabel, labelOn]
  · intro _
    simp only [acceptsLabel, labelOn, decide_eq_true_eq, true_and]
    split_ifs with h <;> simp [h]
  · simp only [withLabel, labelOn, decide_eq_true_eq]
    exact fun _ => trivial

/-- The two settings of the Cisco conversions, which must differ. -/
def ciscoMessageToJson (cfg : Config) : Bytes :=
  cfg.text "enable_cisco_message_to_json_string" (lit "false")

def ciscoGpbkv2json (cfg : Config) : Bytes := cfg.text "enable_cisco_gpbkv2json" (lit "true")

def acceptsCisco (cfg : Config) : Prop :=
  cfg.optional "enable_cisco_message_to_json_string" = true ∧
    cfg.optional "enable_cisco_gpbkv2json" = true ∧ ciscoMessageToJson cfg ≠ ciscoGpbkv2json cfg

def withCsv (cfg : Config) (params : Params) : Params :=
  withLabel cfg params "enable_label_encode_as_map" "label_map_csv_path"
    (lit "/opt/mdt_dialout_collector/csv/label_map.csv")

def withPtm (cfg : Config) (params : Params) : Params :=
  withLabel cfg params "enable_label_encode_as_map_ptm" "label_map_ptm_path"
    (lit "/opt/mdt_dialout_collector/ptm/label_map.ptm")

def acceptsCsv (H : Host) (cfg : Config) : Prop :=
  acceptsLabel H cfg "enable_label_encode_as_map" "label_map_csv_path"
    (lit "/opt/mdt_dialout_collector/csv/label_map.csv")

def acceptsPtm (H : Host) (cfg : Config) : Prop :=
  acceptsLabel H cfg "enable_label_encode_as_map_ptm" "label_map_ptm_path"
    (lit "/opt/mdt_dialout_collector/ptm/label_map.ptm")

def failsCsv (H : Host) (cfg : Config) : Prop :=
  failsLabel H cfg "enable_label_encode_as_map" "label_map_csv_path"
    (lit "/opt/mdt_dialout_collector/csv/label_map.csv")

def failsPtm (H : Host) (cfg : Config) : Prop :=
  failsLabel H cfg "enable_label_encode_as_map_ptm" "label_map_ptm_path"
    (lit "/opt/mdt_dialout_collector/ptm/label_map.ptm")

def ciscoParameters (cfg : Config) : Params :=
  (Params.empty.emplace "enable_cisco_message_to_json_string" (ciscoMessageToJson cfg)).emplace
    "enable_cisco_gpbkv2json" (ciscoGpbkv2json cfg)

def dataManipulationParameters (cfg : Config) : Params :=
  withPtm cfg (withCsv cfg (ciscoParameters cfg))

def acceptsDataManipulation (H : Host) (cfg : Config) : Prop :=
  acceptsCisco cfg ∧ acceptsCsv H cfg ∧ acceptsPtm H cfg ∧
    ¬(labelOn cfg "enable_label_encode_as_map" = true ∧
      labelOn cfg "enable_label_encode_as_map_ptm" = true)

def failsDataManipulation (H : Host) (cfg : Config) : Prop :=
  acceptsCisco cfg ∧ (failsCsv H cfg ∨ acceptsCsv H cfg ∧ failsPtm H cfg)

theorem find_withLabel (params : Params) (enable path key : String) (defaultPath : Bytes) :
    (withLabel cfg params enable path defaultPath).find key =
      if key = path ∧ labelOn cfg enable = true then
        some (((params.emplace enable (cfg.text enable (lit "false"))).find path).getD
          (cfg.text path defaultPath))
      else (params.emplace enable (cfg.text enable (lit "false"))).find key := by
  rw [withLabel]
  by_cases hon : labelOn cfg enable = true
  · simp only [hon, if_true, and_true]
    rw [Params.find_emplace]
  · simp [hon]

theorem find_enableCsv (cfg : Config) :
    (dataManipulationParameters cfg).find "enable_label_encode_as_map" =
      some (cfg.text "enable_label_encode_as_map" (lit "false")) := by
  simp [dataManipulationParameters, withPtm, withCsv, ciscoParameters, find_withLabel]

theorem find_enablePtm (cfg : Config) :
    (dataManipulationParameters cfg).find "enable_label_encode_as_map_ptm" =
      some (cfg.text "enable_label_encode_as_map_ptm" (lit "false")) := by
  simp [dataManipulationParameters, withPtm, withCsv, ciscoParameters, find_withLabel]

theorem decides_lookupDataManipulationParameters (hR : R .multiLogger = true)
    (hfile : H.configFile = .read cfg) :
    Decides (lookupDataManipulationParameters H R) (failsDataManipulation H cfg)
      (acceptsDataManipulation H cfg) (dataManipulationParameters cfg) := by
  have hmsg : (ciscoParameters cfg).find "enable_cisco_message_to_json_string" =
      some (ciscoMessageToJson cfg) := by simp [ciscoParameters]
  have hkv : (ciscoParameters cfg).find "enable_cisco_gpbkv2json" =
      some (ciscoGpbkv2json cfg) := by simp [ciscoParameters]
  rw [lookupDataManipulationParameters, setParameters_read hfile, ok_bind]
  apply Settles.congr ((decides_loadOptional hR).bind fun _ =>
    (decides_loadOptional hR).bind fun _ => (decides_atKey hmsg).bind fun _ =>
    (decides_atKey hkv).bind fun _ =>
    Settles.ite (fun _ => decides_refuse hR _ (dataManipulationParameters cfg)) fun _ =>
      (decides_loadLabelPath hR (by simp)).bind fun _ =>
        (decides_loadLabelPath hR (by simp [find_withLabel])).bind fun _ =>
        (decides_atKey (find_enableCsv cfg)).bind fun _ =>
        (decides_atKey (find_enablePtm cfg)).bind fun _ => decides_forbid hR _ _)
  · simp only [failsDataManipulation, acceptsCisco, failsCsv, acceptsCsv, failsPtm,
      ciscoMessageToJson, ciscoGpbkv2json]
    tauto
  · intro _
    by_cases hxor : ciscoMessageToJson cfg = ciscoGpbkv2json cfg
    · simp [acceptsDataManipulation, acceptsCisco, hxor]
    · simp only [hxor, if_false, acceptsDataManipulation, acceptsCisco, acceptsCsv, acceptsPtm,
        labelOn, decide_eq_true_eq]
      tauto
  · rintro ⟨-, -, -, -, h⟩
    split_ifs at h ⊢
    rfl

/-! ### Delivery -/

def deliveryMethod (cfg : Config) : Bytes := cfg.text "data_delivery_method" (lit "kafka")

def acceptsKafkaOnly (cfg : Config) (key : String) : Prop :=
  (cfg.lookup key).isSome = true ∨ deliveryMethod cfg = lit "kafka" → cfg.mandatory key = true

theorem decides_loadKafkaOnly (hR : R .multiLogger = true) (params : Params) (key : String)
    (dummy : Bytes) :
    Decides (loadKafkaOnly R cfg (deliveryMethod cfg == lit "kafka") params key dummy) False
      (acceptsKafkaOnly cfg key) (params.emplace key (cfg.text key dummy)) := by
  rw [loadKafkaOnly]
  apply Settles.congr (Settles.ite (fun _ => decides_loadMandatory hR) fun _ => Settles.ok _)
  · simp
  · intro _
    simp only [acceptsKafkaOnly, Bool.or_eq_true, beq_iff_eq]
    split_ifs with h <;> simp [h]
  · intro h
    simp only [Bool.or_eq_true, beq_iff_eq] at h ⊢
    split_ifs at h ⊢ with hread
    · -- a mandatory key that has been accepted is in the file
      revert h
      rw [Config.mandatory, Config.text, Config.text]
      cases cfg.lookup key with
      | none => simp
      | some s => cases s <;> simp
    · rw [not_or, Option.not_isSome_iff_eq_none] at hread
      rw [Config.text, hread.1]

def securityProtocol (cfg : Config) : Bytes :=
  cfg.text "security_protocol" (lit "dummy_security_protocol")

def sslOn (cfg : Config) : Bool := securityProtocol cfg = lit "ssl"

def acceptsSsl (cfg : Config) : Prop :=
  sslOn cfg = true → cfg.mandatory "ssl_key_location" = true ∧
    cfg.mandatory "ssl_certificate_location" = true ∧ cfg.mandatory "ssl_ca_location" = true ∧
    cfg.optional "ssl_key_password" = true ∧
    cfg.optional "enable_ssl_certificate_verification" = true

def acceptsKafka (cfg : Config) : Prop :=
  acceptsKafkaOnly cfg "topic" ∧ acceptsKafkaOnly cfg "bootstrap_servers" ∧
    cfg.oneOf "enable_idempotence" booleans = true ∧ cfg.optional "client_id" = true ∧
    cfg.optional "log_level" = true ∧ acceptsKafkaOnly cfg "security_protocol" ∧
    securityProtocol cfg ∈ [lit "dummy_security_protocol", lit "ssl", lit "plaintext"] ∧
    acceptsSsl cfg

def withSsl (cfg : Config) (params : Params) : Params :=
  if sslOn cfg then
    ((((params.emplace "ssl_key_location" (cfg.text "ssl_key_location" [])).emplace
      "ssl_certificate_location" (cfg.text "ssl_certificate_location" [])).emplace
      "ssl_ca_location" (cfg.text "ssl_ca_location" [])).emplace
      "ssl_key_password" (cfg.text "ssl_key_password" (lit "NULL"))).emplace
      "enable_ssl_certificate_verification"
      (cfg.text "enable_ssl_certificate_verification" (lit "true"))
  else
    ((((params.emplace "ssl_key_location" (lit "NULL")).emplace
      "ssl_key_password" (lit "NULL")).emplace
      "ssl_certificate_location" (lit "NULL")).emplace
      "ssl_ca_location" (lit "NULL")).emplace
      "enable_ssl_certificate_verification" (lit "false")

def brokerParameters (cfg : Config) : Params :=
  (((((Params.empty.emplace "topic" (cfg.text "topic" (lit "dummy_topic"))).emplace
    "bootstrap_servers" (cfg.text "bootstrap_servers" (lit "dummy_servers"))).emplace
    "enable_idempotence" (cfg.text "enable_idempotence" (lit "true"))).emplace
    "client_id" (cfg.text "client_id" (lit "mdt-dialout-collector"))).emplace
    "log_level" (cfg.text "log_level" (lit "6"))).emplace
    "security_protocol" (securityProtocol cfg)

def kafkaParameters (cfg : Config) : Params := withSsl cfg (brokerParameters cfg)

theorem decides_loadSslVerification (hR : R .multiLogger = true) (params : Params) :
    Decides (loadSslVerification R cfg params) False
      (cfg.optional "enable_ssl_certificate_verification" = true)
      (params.emplace "enable_ssl_certificate_verification"
        (cfg.text "enable_ssl_certificate_verification" (lit "true"))) := by
  rw [loadSslVerification]
  by_cases hgiven : (cfg.lookup "enable_ssl_certificate_verification").isSome
  · rw [if_pos hgiven]
    exact decides_loadOptional hR
  · rw [if_neg hgiven, useLogger_registered hR, ok_bind, Config.optional, Config.text]
    rw [Option.not_isSome_iff_eq_none] at hgiven
    rw [hgiven]
    exact (Settles.ok _).congr Iff.rfl (by simp) fun _ => rfl

theorem decides_lookupKafkaParameters (hR : R .multiLogger = true)
    (hfile : H.configFile = .read cfg) {main : Params}
    (hmain : main.find "data_delivery_method" = some (deliveryMethod cfg)) :
    Decides (lookupKafkaParameters H R main) False (acceptsKafka cfg) (kafkaParameters cfg) := by
  have hprotocol : (brokerParameters cfg).find "security_protocol" =
      some (securityProtocol cfg) := by simp [brokerParameters]
  rw [lookupKafkaParameters, setParameters_read hfile, ok_bind]
  apply Settles.congr ((decides_atKey hmain).bind fun _ =>
    (decides_loadKafkaOnly hR _ _ _).bind fun _ => (decides_loadKafkaOnly hR _ _ _).bind fun _ =>
    (decides_loadOptionalEnum hR).bind fun _ => (decides_loadOptional hR).bind fun _ =>
    (decides_loadOptional hR).bind fun _ => (decides_loadKafkaOnly hR _ _ _).bind fun _ =>
    (decides_atKey hprotocol).bind fun _ =>
    Settles.ite (fun _ => decides_refuse hR _ (kafkaParameters cfg)) fun _ =>
      Settles.ite (fun _ => Settles.ok _) fun _ =>
        (decides_loadMandatory hR).bind fun _ => (decides_loadMandatory hR).bind fun _ =>
        (decides_loadMandatory hR).bind fun _ => (decides_loadOptional hR).bind fun _ =>
        decides_loadSslVerification hR _)
  · simp
  · intro _
    simp only [acceptsKafka, acceptsSsl, sslOn, decide_eq_true_eq, true_and, ite_not]
    split_ifs with hknown hssl <;> tauto
  · rintro ⟨-, -, -, -, -, -, -, -, h⟩
    simp only [kafkaParameters, withSsl, sslOn, decide_eq_true_eq, ite_not] at h ⊢
    split_ifs at h ⊢
    · rfl
    · rfl

def zmqUriOf (cfg : Config) (zmqUri : Bytes) : Bytes :=
  if deliveryMethod cfg = lit "zmq" then
    if zmqUri = [] then lit "ipc:///tmp/grpc.sock" else zmqUri
  else lit "ipc:///tmp/dummy.sock"

def zmqParameters (cfg : Config) (zmqUri : Bytes) : Params :=
  Params.empty.emplace "zmq_uri" (zmqUriOf cfg zmqUri)

theorem decides_lookupZmqParameters (hR : R .multiLogger = true) {main : Params}
    (hmain : main.find "data_delivery_method" = some (deliveryMethod cfg)) (zmqUri : Bytes) :
    Decides (lookupZmqParameters R main zmqUri .empty) False True (zmqParameters cfg zmqUri) := by
  rw [lookupZmqParameters, raise, Params.atKey_of_find hmain, zmqParameters, zmqUriOf]
  simp only [Except.mapError, ok_bind, useLogger_registered hR, ite_not]
  split_ifs <;> exact .ok _

end Validators

end MdtDialoutCollector.Utils
