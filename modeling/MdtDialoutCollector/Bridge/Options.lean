import MdtDialoutCollector.Bridge.LoadOptions

/-! `InitOptions`, with which a host process gets a copy of the parameters, and the fields
that `FreeOptions` frees. The counts of all four vendors are copied, those of a vendor
without a socket too, which no validator has loaded. -/

namespace MdtDialoutCollector.Bridge

open Data External Text Utils

/-- The fields of the C structure, under their names. -/
inductive OptionsField where
  | writer_id
  | iface
  | ipv4_socket_cisco
  | ipv4_socket_juniper
  | ipv4_socket_nokia
  | ipv4_socket_huawei
  | cisco_workers
  | juniper_workers
  | nokia_workers
  | huawei_workers
  | replies_cisco
  | replies_juniper
  | replies_nokia
  | replies_huawei
  | syslog
  | syslog_facility
  | syslog_ident
  | console_log
  | spdlog_level
  | enable_cisco_gpbkv2json
  | enable_cisco_message_to_json_string
  | enable_label_encode_as_map
  | enable_label_encode_as_map_ptm
  deriving DecidableEq

open OptionsField

/-- `none` is a pointer that `malloc` has left as it was. -/
abbrev Options := OptionsField → Option CString

/-- One assignment of `InitOptions`. -/
structure Assignment where
  field : OptionsField
  stage : Stage
  key : String

def assignments : List Assignment :=
  [⟨writer_id, .main, "writer_id"⟩, ⟨iface, .main, "iface"⟩,
    ⟨ipv4_socket_cisco, .main, "socket_cisco"⟩, ⟨ipv4_socket_juniper, .main, "socket_juniper"⟩,
    ⟨ipv4_socket_nokia, .main, "socket_nokia"⟩, ⟨ipv4_socket_huawei, .main, "socket_huawei"⟩,
    ⟨cisco_workers, .main, "cisco_workers"⟩, ⟨juniper_workers, .main, "juniper_workers"⟩,
    ⟨nokia_workers, .main, "nokia_workers"⟩, ⟨huawei_workers, .main, "huawei_workers"⟩,
    ⟨replies_cisco, .main, "replies_cisco"⟩, ⟨replies_juniper, .main, "replies_juniper"⟩,
    ⟨replies_nokia, .main, "replies_nokia"⟩, ⟨replies_huawei, .main, "replies_huawei"⟩,
    ⟨syslog, .logs, "syslog"⟩, ⟨syslog_facility, .logs, "syslog_facility"⟩,
    ⟨syslog_ident, .logs, "syslog_ident"⟩, ⟨console_log, .logs, "console_log"⟩,
    ⟨spdlog_level, .logs, "spdlog_level"⟩,
    ⟨enable_cisco_gpbkv2json, .dataManipulation, "enable_cisco_gpbkv2json"⟩,
    ⟨enable_cisco_message_to_json_string, .dataManipulation,
      "enable_cisco_message_to_json_string"⟩,
    ⟨enable_label_encode_as_map, .dataManipulation, "enable_label_encode_as_map"⟩,
    ⟨enable_label_encode_as_map_ptm, .dataManipulation, "enable_label_encode_as_map_ptm"⟩]

/-- The copy ends at a NUL byte of the value. -/
def assign (g : Stage → Params) (opts : Options) (a : Assignment) :
    Except StdException Options := do
  let value ← (g a.stage).atKey a.key
  return Function.update opts a.field (some (cStr value))

def initOptions (g : Stage → Params) : Except StdException Options :=
  assignments.foldlM (assign g) fun _ => none

/-- The fields that `FreeOptions` frees, in front of the structure itself. -/
def freedFields : List OptionsField :=
  [writer_id, iface, ipv4_socket_cisco, ipv4_socket_juniper, ipv4_socket_nokia,
    ipv4_socket_huawei, cisco_workers, juniper_workers, nokia_workers, huawei_workers,
    replies_cisco, replies_juniper, replies_nokia, replies_huawei, syslog, syslog_facility,
    syslog_ident, console_log, spdlog_level, enable_cisco_gpbkv2json,
    enable_cisco_message_to_json_string, enable_label_encode_as_map,
    enable_label_encode_as_map_ptm]

/-- The call comes back, and no field is freed that it has not filled. -/
def OptionsFilled (g : Stage → Params) : Prop :=
  ∃ opts, initOptions g = .ok opts ∧ ∀ f ∈ freedFields, (opts f).isSome = true

/-! ### A run of assignments -/

section Assignments

variable {g : Stage → Params}

theorem assign_ok_iff {opts opts' : Options} {a : Assignment} :
    assign g opts a = .ok opts' ↔ ∃ value, (g a.stage).find a.key = some value ∧
      opts' = Function.update opts a.field (some (cStr value)) := by
  simp only [assign, bind_eq_ok, Params.atKey_eq_ok_iff]
  constructor
  · rintro ⟨value, hfind, h⟩
    cases h
    exact ⟨value, hfind, rfl⟩
  · rintro ⟨value, hfind, rfl⟩
    exact ⟨value, hfind, rfl⟩

/-- The assignments succeed together where all their keys are there. -/
theorem foldlM_assign_returns (as : List Assignment) (opts : Options)
    (h : ∀ a ∈ as, ∃ value, (g a.stage).find a.key = some value) :
    Returns (as.foldlM (assign g) opts) := by
  induction as generalizing opts with
  | nil => exact returns_ok opts
  | cons a as ih =>
    obtain ⟨value, hvalue⟩ := h a List.mem_cons_self
    rw [List.foldlM_cons, assign_ok_iff.mpr ⟨value, hvalue, rfl⟩, ok_bind]
    exact ih _ fun b hb => h b (List.mem_cons_of_mem a hb)

/-- Where they have succeeded the keys are there, and a field stays filled. -/
theorem foldlM_assign_ok {as : List Assignment} {opts opts' : Options}
    (h : as.foldlM (assign g) opts = .ok opts') :
    (∀ a ∈ as, ∃ value, (g a.stage).find a.key = some value) ∧
      ∀ f, (opts f).isSome = true ∨ (∃ a ∈ as, a.field = f) → (opts' f).isSome = true := by
  induction as generalizing opts with
  | nil =>
    cases h
    simp
  | cons a as ih =>
    rw [List.foldlM_cons, bind_eq_ok] at h
    obtain ⟨opts₁, ha, h⟩ := h
    obtain ⟨value, hvalue, rfl⟩ := assign_ok_iff.mp ha
    obtain ⟨hkeys, hfilled⟩ := ih h
    refine ⟨List.forall_mem_cons.mpr ⟨⟨value, hvalue⟩, hkeys⟩, fun f hf => hfilled f ?_⟩
    by_cases hfa : f = a.field
    · rw [hfa, Function.update_self]
      exact .inl rfl
    · rw [Function.update_of_ne hfa]
      rcases hf with hf | ⟨b, hb, rfl⟩
      · exact .inl hf
      · rcases List.mem_cons.mp hb with rfl | hb
        · exact absurd rfl hfa
        · exact .inr ⟨b, hb, rfl⟩

theorem optionsFilled_iff :
    OptionsFilled g ↔ ∀ a ∈ assignments, ∃ value, (g a.stage).find a.key = some value := by
  constructor
  · rintro ⟨opts, hopts, -⟩
    exact (foldlM_assign_ok hopts).1
  · intro h
    obtain ⟨opts, hopts⟩ := foldlM_assign_returns assignments (fun _ => none) h
    have hassigned : ∀ f ∈ freedFields, f ∈ assignments.map Assignment.field := by decide
    exact ⟨opts, hopts, fun f hf =>
      (foldlM_assign_ok hopts).2 f (.inr (List.mem_map.mp (hassigned f hf)))⟩

end Assignments

/-! ### The options of an accepted configuration -/

section Accepted

variable {cfg : Config} {zmqUri : Bytes}

/-- Only the counts can be missing. -/
theorem assigned_keys_found (h : ∀ v ∈ vendors, socketOf cfg v ≠ []) :
    ∀ a ∈ assignments, ∃ value, (fileParameters cfg zmqUri a.stage).find a.key = some value := by
  obtain ⟨hwriter, -, hiface, -⟩ := find_main cfg
  obtain ⟨hsyslog, hfacility, hident, hconsole, hlevel⟩ := find_logs cfg
  obtain ⟨hmsg, hkv⟩ := find_cisco cfg
  have hsocket : ∀ v ∈ vendors, ∃ value, (mainParameters cfg).find v.socket = some value :=
    fun v hv => ⟨_, find_socket cfg hv⟩
  have hreplies : ∀ v ∈ vendors, ∃ value, (mainParameters cfg).find v.replies = some value :=
    fun v hv => ⟨_, find_replies hv (h v hv)⟩
  have hworkers : ∀ v ∈ vendors, ∃ value, (mainParameters cfg).find v.workers = some value :=
    fun v hv => ⟨_, find_workers hv (h v hv)⟩
  simp only [vendors, List.forall_mem_cons] at hsocket hreplies hworkers
  simp only [assignments, List.forall_mem_cons, fileParameters]
  simp [hwriter, hiface, hsyslog, hfacility, hident, hconsole, hlevel, hmsg, hkv,
    find_enableCsv, find_enablePtm, hsocket, hreplies, hworkers]

theorem options_filled_iff {H : Host} {g g' : Globals}
    (h : loadOptions H zmqUri g = .ok (true, g')) (hfile : H.configFile = .read cfg) :
    OptionsFilled g'.params ↔ ∀ v ∈ vendors, socketOf cfg v ≠ [] := by
  obtain ⟨R, h⟩ := loadStages_of_loadOptions h
  obtain ⟨cfg', hfile', -, hparams⟩ := loadStages_accepted h
  rw [hfile] at hfile'
  cases hfile'
  rw [funext hparams, optionsFilled_iff]
  constructor
  · intro hkeys v hv hsocket
    have hassigned : ∃ a ∈ assignments, a.stage = .main ∧ a.key = v.workers := by
      revert v
      simp [vendors, assignments]
    obtain ⟨a, ha, hstage, hkey⟩ := hassigned
    obtain ⟨value, hvalue⟩ := hkeys a ha
    rw [hstage, hkey, fileParameters, find_workers_eq_none hv hsocket] at hvalue
    cases hvalue
  · exact assigned_keys_found

/-- A file with a socket for every vendor. -/
def allVendors : Config :=
  .ofStrings [("iface", eth0), ("socket_cisco", ciscoAddress),
    ("socket_juniper", ⟨lit "0.0.0.0:10008", by decide⟩),
    ("socket_nokia", ⟨lit "0.0.0.0:10009", by decide⟩),
    ("socket_huawei", ⟨lit "0.0.0.0:10010", by decide⟩),
    ("data_delivery_method", zmqMethod)]

theorem options_filled_allVendors :
    ∃ g', loadOptions (calmHost allVendors) [] freshGlobals = .ok (true, g') ∧
      (OptionsFilled g'.params ↔ ∀ v ∈ vendors, socketOf allVendors v ≠ []) ∧
      ∀ v ∈ vendors, socketOf allVendors v ≠ [] := by
  have hload : ∃ g', loadOptions (calmHost allVendors) [] freshGlobals = .ok (true, g') :=
    ⟨_, rfl⟩
  obtain ⟨g', hg'⟩ := hload
  exact ⟨g', hg', options_filled_iff hg' rfl, by decide⟩

/-- Cisco alone is accepted, and `InitOptions` throws on the workers of Juniper. -/
theorem options_of_ciscoOnly_throw :
    ∃ g', loadOptions (calmHost ciscoOnly) [] freshGlobals = .ok (true, g') ∧
      initOptions g'.params = .error .outOfRange ∧ ¬OptionsFilled g'.params := by
  have hload : ∃ g', loadOptions (calmHost ciscoOnly) [] freshGlobals = .ok (true, g') ∧
      initOptions g'.params = .error .outOfRange := ⟨_, rfl, rfl⟩
  obtain ⟨g', hg', hinit⟩ := hload
  refine ⟨g', hg', hinit, ?_⟩
  rintro ⟨opts, hopts, -⟩
  rw [hinit] at hopts
  cases hopts

end Accepted

end MdtDialoutCollector.Bridge
