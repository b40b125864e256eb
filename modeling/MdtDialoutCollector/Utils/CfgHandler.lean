import MdtDialoutCollector.Data.Fallible
import MdtDialoutCollector.External.Host
import MdtDialoutCollector.Utils.Parameters

/-! The validators of the configuration, one for each group of keys. A validator that
returns `false` has logged one issue first; the other ways to end are exceptions and a
logger that is used before it is registered. -/

namespace MdtDialoutCollector.Utils

open Data External Text

/-! ### Loggers and failures -/

inductive Logger where
  | multiLoggerBoot
  | multiLogger
  deriving DecidableEq

/-- The loggers `spdlog::get` finds. -/
abbrev Registry := Logger → Bool

/-- What is wrong with a configuration, with the key and the value the message names. -/
inductive Issue where
  | unreadable
  | parse
  | settingType (key : String)
  | invalid (key : String) (value : Bytes)
  | mandatory (key : String)
  | tlsPathsRequired
  | tlsPathsType
  | tlsPathsNotFound (cert key : Bytes)
  | ciscoXor
  | labelXor
  | securityProtocol (value : Bytes)
  deriving DecidableEq

/-- `refused` is the one that is no accident: the issue is logged and `false` returned. -/
inductive Failure where
  | refused (logger : Logger) (issue : Issue)
  | threw (e : StdException)
  | filesystemError
  | spdlogError
  | systemError
  | nullLogger
  | exited
  | aborted
  deriving DecidableEq

def Failure.IsRefusal : Failure → Prop
  | .refused _ _ => True
  | _ => False

abbrev Check := Except Failure

/-- `spdlog::get(logger)->...`. -/
def useLogger (R : Registry) (logger : Logger) : Check Unit :=
  if R logger then .ok () else .error .nullLogger

def refuse {α : Type} (R : Registry) (logger : Logger) (issue : Issue) : Check α := do
  useLogger R logger
  .error (.refused logger issue)

/-- An exception nobody catches. -/
def raise {α : Type} (x : Except StdException α) : Check α := x.mapError .threw

/-! ### The helpers -/

section Helpers

variable (H : Host) (R : Registry) (cfg : Config) (params : Params) (key : String)

def readStringSetting (logger : Logger) : Check (Option Bytes) :=
  match cfg.lookup key with
  | none => .ok none
  | some (.string s) => .ok (some s.bytes)
  | some .other => refuse R logger (.settingType key)

def loadOptional (defaultValue : Bytes) (logger : Logger) : Check Params := do
  match ← readStringSetting R cfg key logger with
  | some value =>
    if value = [] then refuse R logger (.invalid key value) else .ok (params.emplace key value)
  | none => .ok (params.emplace key defaultValue)

def loadOptionalEnum (defaultValue : Bytes) (allowed : List Bytes) (logger : Logger) :
    Check Params := do
  match ← readStringSetting R cfg key logger with
  | some value =>
    if value ∈ allowed then .ok (params.emplace key value)
    else refuse R logger (.invalid key value)
  | none => .ok (params.emplace key defaultValue)

def loadMandatory (logger : Logger) : Check Params := do
  match ← readStringSetting R cfg key logger with
  | none => refuse R logger (.mandatory key)
  | some value =>
    if value = [] then refuse R logger (.invalid key value) else .ok (params.emplace key value)

/-- `std::filesystem::exists`. -/
def pathExists (path : Bytes) : Check Bool :=
  match H.pathExists path with
  | .present => .ok true
  | .absent => .ok false
  | .failure => .error .filesystemError

def loadOptionalPath (defaultValue : Bytes) (logger : Logger) : Check Params := do
  let value ← readStringSetting R cfg key logger
  let chosen := value.getD defaultValue
  if chosen = [] then refuse R logger (.invalid key chosen)
  else if ← pathExists H chosen then .ok (params.emplace key chosen)
  else refuse R logger (.invalid key chosen)

end Helpers

/-! ### The validators -/

def setParameters (H : Host) (R : Registry) : Check Config :=
  match H.configFile with
  | .unreadable => refuse R .multiLoggerBoot .unreadable
  | .parse => refuse R .multiLoggerBoot .parse
  | .read cfg => .ok cfg

def syslogFacilities : List Bytes :=
  ["LOG_DAEMON", "LOG_USER", "LOG_LOCAL0", "LOG_LOCAL1", "LOG_LOCAL2", "LOG_LOCAL3", "LOG_LOCAL4",
    "LOG_LOCAL5", "LOG_LOCAL6", "LOG_LOCAL7"].map lit

def spdlogLevels : List Bytes := ["debug", "info", "warn", "error", "off"].map lit

/-- The two settings of a system log that is switched on. -/
def loadSyslog (R : Registry) (logsParams : Config) (params : Params) : Check Params := do
  if (← raise (params.atKey "syslog")) = lit "true" then
    let params ← loadOptionalEnum R logsParams params "syslog_facility" (lit "LOG_USER")
      syslogFacilities .multiLoggerBoot
    loadOptional R logsParams params "syslog_ident" (lit "mdt-dialout-collector") .multiLoggerBoot
  else
    return (params.emplace "syslog_facility" (lit "NONE")).emplace "syslog_ident" (lit "NONE")

def lookupLogsParameters (H : Host) (R : Registry) : Check Params := do
  let logsParams ← setParameters H R
  let log := Logger.multiLoggerBoot
  let params ← loadOptional R logsParams .empty "syslog" (lit "false") log
  let params ← loadSyslog R logsParams params
  let params ← loadOptional R logsParams params "console_log" (lit "true") log
  loadOptionalEnum R logsParams params "spdlog_level" (lit "info") spdlogLevels log

/-- The second path is looked for only where the first has been found. -/
def bothExist (H : Host) (first second : Bytes) : Check Bool := do
  if ← pathExists H first then pathExists H second else return false

/-- The certificate and the key, empty where TLS is off. -/
def tlsPaths (H : Host) (R : Registry) (mainParams : Config) (params : Params) :
    Check (Bytes × Bytes) := do
  if (← raise (params.atKey "enable_tls")) ≠ lit "true" then return ([], [])
  match mainParams.lookup "tls_cert_path", mainParams.lookup "tls_key_path" with
  | some (.string cert), some (.string key) =>
    if ← bothExist H cert.bytes key.bytes then return (cert.bytes, key.bytes)
    else refuse R .multiLogger (.tlsPathsNotFound cert.bytes key.bytes)
  | some _, some _ => refuse R .multiLogger .tlsPathsType
  | _, _ => refuse R .multiLogger .tlsPathsRequired

structure VendorKeys where
  socket : String
  socketLegacy : String
  replies : String
  workers : String

def vendors : List VendorKeys :=
  [⟨"socket_cisco", "ipv4_socket_cisco", "replies_cisco", "cisco_workers"⟩,
    ⟨"socket_juniper", "ipv4_socket_juniper", "replies_juniper", "juniper_workers"⟩,
    ⟨"socket_nokia", "ipv4_socket_nokia", "replies_nokia", "nokia_workers"⟩,
    ⟨"socket_huawei", "ipv4_socket_huawei", "replies_huawei", "huawei_workers"⟩]

/-- The legacy key is read where the new one is missing; it may be empty. -/
def loadSocket (R : Registry) (mainParams : Config) (params : Params) (v : VendorKeys) :
    Check Params := do
  if (mainParams.lookup v.socket).isSome then
    loadOptional R mainParams params v.socket [] .multiLogger
  else
    match mainParams.lookup v.socketLegacy with
    | none => .ok (params.emplace v.socket [])
    | some _ =>
      useLogger R .multiLogger
      let value ← readStringSetting R mainParams v.socketLegacy .multiLogger
      .ok (params.emplace v.socket (value.getD []))

/-- Only a vendor with a socket has these two. -/
def loadWorkers (R : Registry) (mainParams : Config) (params : Params) (v : VendorKeys) :
    Check Params := do
  if (← raise (params.atKey v.socket)) = [] then return params
  let params ← loadOptional R mainParams params v.replies (lit "0") .multiLogger
  loadOptional R mainParams params v.workers (lit "1") .multiLogger

def booleans : List Bytes := [lit "true", lit "false"]

def lookupMainParameters (H : Host) (R : Registry) : Check Params := do
  let mainParams ← setParameters H R
  let log := Logger.multiLogger
  let params ← loadOptional R mainParams .empty "writer_id" (lit "mdt-dialout-collector") log
  let params ← loadOptionalPath H R mainParams params "core_pid_folder" (lit "/var/run/") log
  let params ← loadMandatory R mainParams params "iface" log
  let params ← loadOptionalEnum R mainParams params "so_bindtodevice_check" (lit "true")
    booleans log
  let params ← loadOptionalEnum R mainParams params "enable_tls" (lit "false") booleans log
  let (tlsCert, tlsKey) ← tlsPaths H R mainParams params
  let params := (params.emplace "tls_cert_path" tlsCert).emplace "tls_key_path" tlsKey
  let params ← vendors.foldlM (loadSocket R mainParams) params
  let params ← vendors.foldlM (loadWorkers R mainParams) params
  loadOptionalEnum R mainParams params "data_delivery_method" (lit "kafka")
    [lit "kafka", lit "zmq"] log

/-- The file of a label encoder that is switched on. -/
def loadLabelPath (H : Host) (R : Registry) (dmp : Config) (params : Params)
    (enable path : String) (defaultPath : Bytes) : Check Params := do
  let params ← loadOptional R dmp params enable (lit "false") .multiLogger
  if (← raise (params.atKey enable)) = lit "true" then
    loadOptionalPath H R dmp params path defaultPath .multiLogger
  else return params

def lookupDataManipulationParameters (H : Host) (R : Registry) : Check Params := do
  let dmp ← setParameters H R
  let log := Logger.multiLogger
  let params ← loadOptional R dmp .empty "enable_cisco_message_to_json_string" (lit "false") log
  let params ← loadOptional R dmp params "enable_cisco_gpbkv2json" (lit "true") log
  if (← raise (params.atKey "enable_cisco_message_to_json_string")) =
      (← raise (params.atKey "enable_cisco_gpbkv2json")) then
    refuse R log .ciscoXor
  else
    let params ← loadLabelPath H R dmp params "enable_label_encode_as_map" "label_map_csv_path"
      (lit "/opt/mdt_dialout_collector/csv/label_map.csv")
    let params ← loadLabelPath H R dmp params "enable_label_encode_as_map_ptm"
      "label_map_ptm_path" (lit "/opt/mdt_dialout_collector/ptm/label_map.ptm")
    if (← raise (params.atKey "enable_label_encode_as_map")) = lit "true" ∧
        (← raise (params.atKey "enable_label_encode_as_map_ptm")) = lit "true" then
      refuse R log .labelXor
    else return params

/-- A key that a ZMQ configuration may leave out. -/
def loadKafkaOnly (R : Registry) (kp : Config) (kafkaMode : Bool) (params : Params) (key : String)
    (dummy : Bytes) : Check Params :=
  if (kp.lookup key).isSome || kafkaMode then loadMandatory R kp params key .multiLogger
  else .ok (params.emplace key dummy)

/-- Where the last key is missing a warning is logged before its default is taken. -/
def loadSslVerification (R : Registry) (kp : Config) (params : Params) : Check Params := do
  let key := "enable_ssl_certificate_verification"
  if (kp.lookup key).isSome then
    loadOptional R kp params key (lit "true") .multiLogger
  else
    useLogger R .multiLogger
    return params.emplace key (lit "true")

def lookupKafkaParameters (H : Host) (R : Registry) (mainCfgParameters : Params) :
    Check Params := do
  let kp ← setParameters H R
  let log := Logger.multiLogger
  let kafkaMode := (← raise (mainCfgParameters.atKey "data_delivery_method")) == lit "kafka"
  let params ← loadKafkaOnly R kp kafkaMode .empty "topic" (lit "dummy_topic")
  let params ← loadKafkaOnly R kp kafkaMode params "bootstrap_servers" (lit "dummy_servers")
  let params ← loadOptionalEnum R kp params "enable_idempotence" (lit "true") booleans log
  let params ← loadOptional R kp params "client_id" (lit "mdt-dialout-collector") log
  let params ← loadOptional R kp params "log_level" (lit "6") log
  let params ← loadKafkaOnly R kp kafkaMode params "security_protocol"
    (lit "dummy_security_protocol")
  let securityProtocol ← raise (params.atKey "security_protocol")
  if securityProtocol ∉ [lit "dummy_security_protocol", lit "ssl", lit "plaintext"] then
    refuse R log (.securityProtocol securityProtocol)
  else if securityProtocol ≠ lit "ssl" then
    return ((((params.emplace "ssl_key_location" (lit "NULL")).emplace
      "ssl_key_password" (lit "NULL")).emplace
      "ssl_certificate_location" (lit "NULL")).emplace
      "ssl_ca_location" (lit "NULL")).emplace
      "enable_ssl_certificate_verification" (lit "false")
  else
    let params ← loadMandatory R kp params "ssl_key_location" log
    let params ← loadMandatory R kp params "ssl_certificate_location" log
    let params ← loadMandatory R kp params "ssl_ca_location" log
    let params ← loadOptional R kp params "ssl_key_password" (lit "NULL") log
    loadSslVerification R kp params

def lookupZmqParameters (R : Registry) (mainCfgParameters : Params) (zmqUri : Bytes)
    (params : Params) : Check Params := do
  if (← raise (mainCfgParameters.atKey "data_delivery_method")) ≠ lit "zmq" then
    return params.emplace "zmq_uri" (lit "ipc:///tmp/dummy.sock")
  let uri := if zmqUri = [] then lit "ipc:///tmp/grpc.sock" else zmqUri
  useLogger R .multiLogger
  return params.emplace "zmq_uri" uri

end MdtDialoutCollector.Utils
