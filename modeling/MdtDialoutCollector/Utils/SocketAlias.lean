import MdtDialoutCollector.Utils.Loading

/-! The legacy names of the four sockets. Renaming them in a file leaves the parameters as they
were; only an empty value, which the old name allows and the new one forbids, is treated
differently. -/

namespace MdtDialoutCollector.Utils

open Data External Text

/-- The file with the legacy keys of these vendors renamed. -/
def renameSockets (renamed : List VendorKeys) (cfg : Config) : Config where
  lookup key :=
    match renamed.find? fun v => v.socket == key with
    | some v => cfg.lookup v.socketLegacy
    | none => if key ∈ renamed.map VendorKeys.socketLegacy then none else cfg.lookup key

/-- The vendors whose legacy key alone is given. -/
def OnlyLegacy (renamed : List VendorKeys) (cfg : Config) : Prop :=
  ∀ v ∈ renamed, v ∈ vendors ∧ cfg.lookup v.socket = none ∧
    (cfg.lookup v.socketLegacy).isSome = true

def LegacyEmpty (cfg : Config) (v : VendorKeys) : Prop :=
  ∃ s, cfg.lookup v.socketLegacy = some (.string s) ∧ s.bytes = []

/-! ### The keys of a renamed file -/

/-- The sockets of two vendors have no key in common. -/
theorem vendors_distinct {u v : VendorKeys} (hu : u ∈ vendors) (hv : v ∈ vendors) :
    u.socket ≠ v.socketLegacy ∧ (u = v ∨ u.socket ≠ v.socket ∧ u.socketLegacy ≠ v.socketLegacy) := by
  simp only [vendors, List.mem_cons, List.not_mem_nil, or_false] at hu hv
  rcases hu with rfl | rfl | rfl | rfl <;> rcases hv with rfl | rfl | rfl | rfl <;> simp

section

variable {renamed : List VendorKeys} {cfg : Config} {v : VendorKeys}

theorem lookup_renamed_other {key : String}
    (h : ∀ v ∈ renamed, v.socket ≠ key ∧ v.socketLegacy ≠ key) :
    (renameSockets renamed cfg).lookup key = cfg.lookup key := by
  have hfind : (renamed.find? fun v => v.socket == key) = none := by
    rw [List.find?_eq_none]
    exact fun v hv => by simpa using (h v hv).1
  have hmem : key ∉ renamed.map VendorKeys.socketLegacy := by
    rw [List.mem_map]
    rintro ⟨v, hv, rfl⟩
    exact (h v hv).2 rfl
  simp only [renameSockets, hfind]
  exact if_neg hmem

section

variable (hlegacy : OnlyLegacy renamed cfg)
include hlegacy

theorem lookup_renamed_socket (hv : v ∈ renamed) :
    (renameSockets renamed cfg).lookup v.socket = cfg.lookup v.socketLegacy := by
  simp only [renameSockets]
  cases hfind : renamed.find? fun u => u.socket == v.socket with
  | none =>
    have hnone := List.find?_eq_none.mp hfind v hv
    simp at hnone
  | some u =>
    have hsocket : u.socket = v.socket := by simpa using List.find?_some hfind
    have hu := (hlegacy u (List.mem_of_find?_eq_some hfind)).1
    rcases (vendors_distinct hu (hlegacy v hv).1).2 with rfl | ⟨hne, -⟩
    · rfl
    · exact absurd hsocket hne

/-- A vendor that is not renamed keeps both keys. -/
theorem lookup_not_renamed (hvendor : v ∈ vendors) (hv : v ∉ renamed) :
    (renameSockets renamed cfg).lookup v.socket = cfg.lookup v.socket ∧
      (renameSockets renamed cfg).lookup v.socketLegacy = cfg.lookup v.socketLegacy := by
  have hne : ∀ u ∈ renamed, u.socket ≠ v.socket ∧ u.socketLegacy ≠ v.socketLegacy := by
    intro u hu
    refine (vendors_distinct (hlegacy u hu).1 hvendor).2.resolve_left ?_
    rintro rfl
    exact hv hu
  constructor
  · exact lookup_renamed_other fun u hu =>
      ⟨(hne u hu).1, ((vendors_distinct hvendor (hlegacy u hu).1).1).symm⟩
  · exact lookup_renamed_other fun u hu =>
      ⟨(vendors_distinct (hlegacy u hu).1 hvendor).1, (hne u hu).2⟩

/-! ### What a vendor gets -/

theorem socketOf_renamed (hvendor : v ∈ vendors) :
    socketOf (renameSockets renamed cfg) v = socketOf cfg v := by
  rw [socketOf, socketOf, Config.text, Config.text, Config.text, Config.text]
  by_cases hv : v ∈ renamed
  · obtain ⟨-, hsocket, hgiven⟩ := hlegacy v hv
    rw [lookup_renamed_socket hlegacy hv, hsocket, if_pos hgiven, if_neg (by simp)]
  · obtain ⟨hsocket, hlegacyKey⟩ := lookup_not_renamed hlegacy hvendor hv
    rw [hsocket, hlegacyKey]

/-- Under its new name a value may not be empty. -/
theorem acceptsSocket_renamed (hvendor : v ∈ vendors) :
    acceptsSocket (renameSockets renamed cfg) v ↔
      acceptsSocket cfg v ∧ (v ∈ renamed → ¬LegacyEmpty cfg v) := by
  rw [acceptsSocket, acceptsSocket, Config.optional, Config.optional, Config.typed, Config.typed,
    LegacyEmpty]
  by_cases hv : v ∈ renamed
  · obtain ⟨-, hsocket, hgiven⟩ := hlegacy v hv
    rw [lookup_renamed_socket hlegacy hv, hsocket, if_pos hgiven, if_neg (by simp)]
    obtain ⟨s, hs⟩ := Option.isSome_iff_exists.mp hgiven
    rw [hs]
    cases s with
    | string s => simp [hv]
    | other => simp
  · obtain ⟨hsocket, hlegacyKey⟩ := lookup_not_renamed hlegacy hvendor hv
    rw [hsocket, hlegacyKey]
    simp [hv]

end

/-! ### The whole file -/

/-- The keys of the main parameters that belong to no socket. -/
def plainKeys : List String :=
  ["writer_id", "core_pid_folder", "iface", "so_bindtodevice_check", "enable_tls",
    "tls_cert_path", "tls_key_path", "data_delivery_method"]

variable (hlegacy : OnlyLegacy renamed cfg)
include hlegacy

theorem lookup_renamed_plain {key : String} (hkey : key ∈ plainKeys) :
    (renameSockets renamed cfg).lookup key = cfg.lookup key := by
  have hplain : ∀ v ∈ vendors, ∀ key ∈ plainKeys, v.socket ≠ key ∧ v.socketLegacy ≠ key := by
    decide
  exact lookup_renamed_other fun v hv => hplain v (hlegacy v hv).1 key hkey

theorem lookup_renamed_workers (hvendor : v ∈ vendors) :
    (renameSockets renamed cfg).lookup v.replies = cfg.lookup v.replies ∧
      (renameSockets renamed cfg).lookup v.workers = cfg.lookup v.workers := by
  have hne : ∀ u ∈ vendors, ∀ v ∈ vendors, (u.socket ≠ v.replies ∧ u.socketLegacy ≠ v.replies) ∧
      u.socket ≠ v.workers ∧ u.socketLegacy ≠ v.workers := by
    decide
  exact ⟨lookup_renamed_other fun u hu => (hne u (hlegacy u hu).1 v hvendor).1,
    lookup_renamed_other fun u hu => (hne u (hlegacy u hu).1 v hvendor).2⟩

theorem acceptsWorkers_renamed (hvendor : v ∈ vendors) :
    acceptsWorkers (renameSockets renamed cfg) v ↔ acceptsWorkers cfg v := by
  obtain ⟨hreplies, hworkers⟩ := lookup_renamed_workers hlegacy hvendor
  rw [acceptsWorkers, acceptsWorkers, socketOf_renamed hlegacy hvendor, Config.optional,
    Config.optional, Config.optional, Config.optional, hreplies, hworkers]

/-- What is read under a key that belongs to no socket. -/
theorem renamed_plain {key : String} (hkey : key ∈ plainKeys) :
    (∀ default, (renameSockets renamed cfg).text key default = cfg.text key default) ∧
      (renameSockets renamed cfg).optional key = cfg.optional key ∧
      (renameSockets renamed cfg).mandatory key = cfg.mandatory key ∧
      (renameSockets renamed cfg).isString key = cfg.isString key ∧
      (∀ allowed, (renameSockets renamed cfg).oneOf key allowed = cfg.oneOf key allowed) ∧
      ∀ H default e, (renameSockets renamed cfg).pathAnswers key H default e ↔
        cfg.pathAnswers key H default e := by
  have hlookup := lookup_renamed_plain hlegacy hkey
  simp only [Config.pathAnswers, Config.typed, Config.text, Config.optional, Config.mandatory,
    Config.isString, Config.oneOf, hlookup, implies_true, and_self]

theorem tlsOn_renamed : tlsOn (renameSockets renamed cfg) = tlsOn cfg := by
  rw [tlsOn, tlsOn, (renamed_plain hlegacy (by decide)).1]

theorem acceptsMain_renamed (H : Host) :
    acceptsMain H (renameSockets renamed cfg) ↔
      acceptsMain H cfg ∧ ∀ v ∈ renamed, ¬LegacyEmpty cfg v := by
  have hsockets : (∀ v ∈ vendors, acceptsSocket (renameSockets renamed cfg) v) ↔
      (∀ v ∈ vendors, acceptsSocket cfg v) ∧ ∀ v ∈ renamed, ¬LegacyEmpty cfg v := by
    constructor
    · intro h
      have hboth := fun v hv => (acceptsSocket_renamed hlegacy hv).mp (h v hv)
      exact ⟨fun v hv => (hboth v hv).1, fun v hv => (hboth v (hlegacy v hv).1).2 hv⟩
    · rintro ⟨haccept, hempty⟩ v hv
      exact (acceptsSocket_renamed hlegacy hv).mpr ⟨haccept v hv, hempty v⟩
  have hworkers : (∀ v ∈ vendors, acceptsWorkers (renameSockets renamed cfg) v) ↔
      ∀ v ∈ vendors, acceptsWorkers cfg v :=
    forall₂_congr fun v hv => acceptsWorkers_renamed hlegacy hv
  have hplain := fun key (hkey : key ∈ plainKeys) => renamed_plain hlegacy hkey
  simp only [plainKeys, List.forall_mem_cons] at hplain
  simp only [acceptsMain, acceptsTls, tlsGiven, tlsOn_renamed hlegacy, hsockets, hworkers, hplain]
  constructor
  · rintro ⟨hwriter, hpid, hiface, hbind, htls, hpaths, ⟨hgiven, hempty⟩, hrest⟩
    exact ⟨⟨hwriter, hpid, hiface, hbind, htls, hpaths, hgiven, hrest⟩, hempty⟩
  · rintro ⟨⟨hwriter, hpid, hiface, hbind, htls, hpaths, hgiven, hrest⟩, hempty⟩
    exact ⟨hwriter, hpid, hiface, hbind, htls, hpaths, ⟨hgiven, hempty⟩, hrest⟩

theorem failsMain_renamed (H : Host) :
    failsMain H (renameSockets renamed cfg) ↔ failsMain H cfg := by
  have hplain := fun key (hkey : key ∈ plainKeys) => renamed_plain hlegacy hkey
  simp only [plainKeys, List.forall_mem_cons] at hplain
  simp only [failsMain, failsTls, tlsGiven, tlsOn_renamed hlegacy, hplain]

theorem mainParameters_renamed :
    mainParameters (renameSockets renamed cfg) = mainParameters cfg := by
  have hplain := fun key (hkey : key ∈ plainKeys) => renamed_plain hlegacy hkey
  simp only [plainKeys, List.forall_mem_cons] at hplain
  have hcommon : commonParameters (renameSockets renamed cfg) = commonParameters cfg := by
    simp only [commonParameters, tlsFile, tlsOn_renamed hlegacy, hplain]
  have hsockets (params : Params) : vendors.foldl (withSocket (renameSockets renamed cfg)) params =
      vendors.foldl (withSocket cfg) params := by
    refine List.foldl_ext _ _ params fun p v hv => ?_
    rw [withSocket, withSocket, socketOf_renamed hlegacy hv]
  have hworkers (params : Params) : vendors.foldl (withWorkers (renameSockets renamed cfg)) params =
      vendors.foldl (withWorkers cfg) params := by
    refine List.foldl_ext _ _ params fun p v hv => ?_
    obtain ⟨hreplies, hworkers⟩ := lookup_renamed_workers hlegacy hv
    rw [withWorkers, withWorkers, socketOf_renamed hlegacy hv, Config.text, Config.text,
      Config.text, Config.text, hreplies, hworkers]
  simp only [mainParameters, hcommon, hsockets, hworkers, hplain]

variable {H : Host} {R : Registry}

/-- Renaming changes nothing where no renamed value is empty, and where the file is not accepted
under its old names either. -/
theorem rename_unchanged_iff (hR : R .multiLogger = true) (hfile : H.configFile = .read cfg) :
    (∀ params, lookupMainParameters { H with configFile := .read (renameSockets renamed cfg) } R =
        .ok params ↔ lookupMainParameters H R = .ok params) ↔
      (∀ v ∈ renamed, ¬LegacyEmpty cfg v) ∨ failsMain H cfg ∨ ¬acceptsMain H cfg := by
  have hold := decides_lookupMainParameters hR hfile
  have hnew : Decides
      (lookupMainParameters { H with configFile := .read (renameSockets renamed cfg) } R)
      (failsMain H (renameSockets renamed cfg)) (acceptsMain H (renameSockets renamed cfg))
      (mainParameters (renameSockets renamed cfg)) := decides_lookupMainParameters hR rfl
  simp only [hold.eq_ok_iff, hnew.eq_ok_iff, mainParameters_renamed hlegacy,
    failsMain_renamed hlegacy, acceptsMain_renamed hlegacy]
  constructor
  · intro h
    have hself := h (mainParameters cfg)
    tauto
  · tauto

end

/-- Cisco alone, under the legacy name. -/
def legacyCisco (value : CString) : Config :=
  .ofStrings [("iface", eth0), ("ipv4_socket_cisco", value)]

def ciscoKeys : VendorKeys := ⟨"socket_cisco", "ipv4_socket_cisco", "replies_cisco", "cisco_workers"⟩

theorem onlyLegacy_cisco (value : CString) : OnlyLegacy [ciscoKeys] (legacyCisco value) := by
  intro v hv
  rw [List.mem_singleton] at hv
  subst hv
  exact ⟨List.mem_cons_self, rfl, rfl⟩

theorem rename_unchanged_cisco :
    lookupMainParameters { calmHost (legacyCisco ciscoAddress) with
        configFile := .read (renameSockets [ciscoKeys] (legacyCisco ciscoAddress)) }
      (fun _ => true) = .ok (mainParameters (legacyCisco ciscoAddress)) := by
  have hgiven : ∀ v ∈ [ciscoKeys], ¬LegacyEmpty (legacyCisco ciscoAddress) v := by
    rintro v hv ⟨s, hs, hempty⟩
    rw [List.mem_singleton] at hv
    subst hv
    cases hs
    revert hempty
    decide
  have hunchanged := (rename_unchanged_iff (H := calmHost (legacyCisco ciscoAddress))
    (R := fun _ => true) (onlyLegacy_cisco _) rfl rfl).mpr (.inl hgiven)
  exact (hunchanged _).mpr rfl

/-- An empty value switches the vendor off under the old name, and the file down under the new. -/
theorem empty_alias_refused :
    OnlyLegacy [ciscoKeys] (legacyCisco ⟨[], by decide⟩) ∧
      lookupMainParameters (calmHost (legacyCisco ⟨[], by decide⟩)) (fun _ => true) =
          .ok (mainParameters (legacyCisco ⟨[], by decide⟩)) ∧
      lookupMainParameters { calmHost (legacyCisco ⟨[], by decide⟩) with
          configFile := .read (renameSockets [ciscoKeys] (legacyCisco ⟨[], by decide⟩)) }
        (fun _ => true) = .error (.refused .multiLogger (.invalid "socket_cisco" [])) :=
  ⟨onlyLegacy_cisco _, rfl, rfl⟩

end MdtDialoutCollector.Utils
