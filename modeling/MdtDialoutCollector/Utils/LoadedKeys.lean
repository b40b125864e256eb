import MdtDialoutCollector.Utils.Accepted

/-! The keys of the five maps after a configuration has been accepted, one lemma for each
condition under which a key is there. -/

namespace MdtDialoutCollector.Utils

open External Text

variable (cfg : Config)

/-! ### Main -/

theorem find_withWorkers (params : Params) (v : VendorKeys) (key : String) :
    (withWorkers cfg params v).find key =
      if socketOf cfg v = [] then params.find key
      else ((params.emplace v.replies (cfg.text v.replies (lit "0"))).emplace v.workers
        (cfg.text v.workers (lit "1"))).find key := by
  rw [withWorkers]
  split_ifs <;> rfl

/-- The keys that no setting makes come and go. -/
theorem find_main :
    (mainParameters cfg).find "writer_id" =
        some (cfg.text "writer_id" (lit "mdt-dialout-collector")) ∧
      (mainParameters cfg).find "core_pid_folder" =
        some (cfg.text "core_pid_folder" (lit "/var/run/")) ∧
      (mainParameters cfg).find "iface" = some (cfg.text "iface" []) ∧
      (mainParameters cfg).find "so_bindtodevice_check" =
        some (cfg.text "so_bindtodevice_check" (lit "true")) ∧
      (mainParameters cfg).find "enable_tls" = some (cfg.text "enable_tls" (lit "false")) ∧
      (mainParameters cfg).find "tls_cert_path" = some (tlsFile cfg "tls_cert_path") ∧
      (mainParameters cfg).find "tls_key_path" = some (tlsFile cfg "tls_key_path") ∧
      (mainParameters cfg).find "data_delivery_method" = some (deliveryMethod cfg) := by
  simp [mainParameters, vendors, find_withWorkers, withSocket, commonParameters, deliveryMethod]

theorem find_socket {v : VendorKeys} (hv : v ∈ vendors) :
    (mainParameters cfg).find v.socket = some (socketOf cfg v) := by
  revert v
  simp [mainParameters, vendors, find_withWorkers, withSocket, commonParameters]

section Workers

variable {cfg} {v : VendorKeys} (hv : v ∈ vendors)
include hv

theorem find_replies (h : socketOf cfg v ≠ []) :
    (mainParameters cfg).find v.replies = some (cfg.text v.replies (lit "0")) := by
  simp only [vendors, List.mem_cons, List.not_mem_nil, or_false] at hv
  rcases hv with rfl | rfl | rfl | rfl <;>
    simp [mainParameters, vendors, find_withWorkers, withSocket, commonParameters, h]

theorem find_workers (h : socketOf cfg v ≠ []) :
    (mainParameters cfg).find v.workers = some (cfg.text v.workers (lit "1")) := by
  simp only [vendors, List.mem_cons, List.not_mem_nil, or_false] at hv
  rcases hv with rfl | rfl | rfl | rfl <;>
    simp [mainParameters, vendors, find_withWorkers, withSocket, commonParameters, h]

/-- A vendor without a socket has no workers to count. -/
theorem find_workers_eq_none (h : socketOf cfg v = []) :
    (mainParameters cfg).find v.workers = none := by
  simp only [vendors, List.mem_cons, List.not_mem_nil, or_false] at hv
  rcases hv with rfl | rfl | rfl | rfl <;>
    simp [mainParameters, vendors, find_withWorkers, withSocket, commonParameters, h]

end Workers

/-! ### The other maps -/

theorem find_logs :
    (logsParameters cfg).find "syslog" = some (cfg.text "syslog" (lit "false")) ∧
      (logsParameters cfg).find "syslog_facility" =
        some (if syslogOn cfg then cfg.text "syslog_facility" (lit "LOG_USER") else lit "NONE") ∧
      (logsParameters cfg).find "syslog_ident" =
        some (if syslogOn cfg then cfg.text "syslog_ident" (lit "mdt-dialout-collector")
          else lit "NONE") ∧
      (logsParameters cfg).find "console_log" = some (cfg.text "console_log" (lit "true")) ∧
      (logsParameters cfg).find "spdlog_level" = some (cfg.text "spdlog_level" (lit "info")) := by
  simp [logsParameters, withSyslog]

theorem find_cisco :
    (dataManipulationParameters cfg).find "enable_cisco_message_to_json_string" =
        some (ciscoMessageToJson cfg) ∧
      (dataManipulationParameters cfg).find "enable_cisco_gpbkv2json" =
        some (ciscoGpbkv2json cfg) := by
  simp [dataManipulationParameters, withPtm, withCsv, ciscoParameters, find_withLabel]

theorem find_csvPath (h : labelOn cfg "enable_label_encode_as_map" = true) :
    (dataManipulationParameters cfg).find "label_map_csv_path" =
      some (cfg.text "label_map_csv_path" (lit "/opt/mdt_dialout_collector/csv/label_map.csv")) := by
  simp [dataManipulationParameters, withPtm, withCsv, ciscoParameters, find_withLabel, h]

theorem find_ptmPath (h : labelOn cfg "enable_label_encode_as_map_ptm" = true) :
    (dataManipulationParameters cfg).find "label_map_ptm_path" =
      some (cfg.text "label_map_ptm_path" (lit "/opt/mdt_dialout_collector/ptm/label_map.ptm")) := by
  simp [dataManipulationParameters, withPtm, withCsv, ciscoParameters, find_withLabel, h]

/-- The keys that the Kafka producer is built from. -/
def kafkaKeys : List String :=
  ["topic", "bootstrap_servers", "enable_idempotence", "client_id", "security_protocol",
    "ssl_key_location", "ssl_key_password", "ssl_certificate_location", "ssl_ca_location",
    "enable_ssl_certificate_verification", "log_level"]

theorem find_kafka {key : String} (hkey : key ∈ kafkaKeys) :
    ∃ value, (kafkaParameters cfg).find key = some value := by
  revert key
  simp only [kafkaKeys, List.forall_mem_cons, kafkaParameters, withSsl]
  split_ifs <;> simp [brokerParameters]

theorem find_zmqUri (zmqUri : Bytes) :
    (zmqParameters cfg zmqUri).find "zmq_uri" = some (zmqUriOf cfg zmqUri) := by
  simp [zmqParameters]

end MdtDialoutCollector.Utils
