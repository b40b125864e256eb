import MdtDialoutCollector.Core.FsmCtrl

/-! The reads of an accepted configuration. Each of them finds its key, because the condition
it is made under is one under which the validators load the key: a socket that is not empty,
a label encoder that is on, a counter that has let a thread start. -/

namespace MdtDialoutCollector.Core

open Data External Labels Text Utils

section Reads

variable (cfg : Config) {params : Params} {key : String}

theorem returns_atKey (h : ∃ value, params.find key = some value) : Returns (params.atKey key) := by
  obtain ⟨value, h⟩ := h
  exact ⟨value, Params.atKey_of_find h⟩

theorem returns_raise {α : Type} {x : Except StdException α} (h : Returns x) :
    Returns (raise x) := by
  obtain ⟨a, rfl⟩ := h
  exact returns_ok a

theorem kafkaDelivery_returns : Returns (kafkaDelivery (kafkaParameters cfg)) := by
  have hkeys : ∀ key ∈ kafkaKeys, Returns ((kafkaParameters cfg).atKey key) :=
    fun key hkey => returns_atKey (find_kafka cfg hkey)
  simp only [kafkaKeys, List.forall_mem_cons] at hkeys
  obtain ⟨h₁, h₂, h₃, h₄, h₅, h₆, h₇, h₈, h₉, h₁₀, h₁₁, -⟩ := hkeys
  exact h₁.bind fun _ _ => h₂.bind fun _ _ => h₃.bind fun _ _ => h₄.bind fun _ _ =>
    h₅.bind fun _ _ => h₆.bind fun _ _ => h₇.bind fun _ _ => h₈.bind fun _ _ =>
    h₉.bind fun _ _ => h₁₀.bind fun _ _ => h₁₁.bind fun _ _ => returns_ok _

theorem zmqDelivery_returns (zmqUri : Bytes) : Returns (zmqDelivery (zmqParameters cfg zmqUri)) :=
  returns_atKey ⟨_, find_zmqUri cfg zmqUri⟩

theorem makeServerCredentials_returns : Returns (makeServerCredentials (mainParameters cfg)) := by
  obtain ⟨-, -, -, -, htls, hcert, hkey, -⟩ := find_main cfg
  refine (returns_atKey ⟨_, htls⟩).bind fun tls _ => ?_
  split_ifs
  · exact returns_ok none
  · exact (returns_atKey ⟨_, hkey⟩).bind fun _ _ => (returns_atKey ⟨_, hcert⟩).bind fun _ _ =>
      returns_ok _

theorem labelEncode_returns : Returns (labelEncode (dataManipulationParameters cfg)) := by
  refine (returns_atKey ⟨_, find_enableCsv cfg⟩).bind fun csv _ => ?_
  split_ifs
  · exact returns_ok true
  · exact (returns_atKey ⟨_, find_enablePtm cfg⟩).bind fun _ _ => returns_ok _

theorem labelFiles_returns : Returns (labelFiles (dataManipulationParameters cfg)) := by
  have hcsv : Returns (labelFile (dataManipulationParameters cfg) "enable_label_encode_as_map"
      "label_map_csv_path") := by
    rw [labelFile, Params.atKey_of_find (find_enableCsv cfg), ok_bind]
    split_ifs with hon
    · exact returns_ok none
    · have hfind := find_csvPath cfg (decide_eq_true (not_not.mp hon))
      exact (returns_atKey ⟨_, hfind⟩).bind fun _ _ => returns_ok _
  have hptm : Returns (labelFile (dataManipulationParameters cfg) "enable_label_encode_as_map_ptm"
      "label_map_ptm_path") := by
    rw [labelFile, Params.atKey_of_find (find_enablePtm cfg), ok_bind]
    split_ifs with hon
    · exact returns_ok none
    · have hfind := find_ptmPath cfg (decide_eq_true (not_not.mp hon))
      exact (returns_atKey ⟨_, hfind⟩).bind fun _ _ => returns_ok _
  exact hcsv.bind fun _ _ => hptm.bind fun _ _ => returns_ok _

theorem corePidPath_returns : Returns (corePidPath (mainParameters cfg)) := by
  obtain ⟨hwriter, hfolder, -⟩ := find_main cfg
  exact (returns_atKey ⟨_, hfolder⟩).bind fun _ _ => (returns_atKey ⟨_, hwriter⟩).bind fun _ _ =>
    returns_ok _

theorem Vendor.keys_mem (v : Vendor) : v.keys ∈ vendors := by
  cases v <;> simp [Vendor.keys, vendors]

theorem socket_returns (v : Vendor) : Returns ((mainParameters cfg).atKey v.keys.socket) :=
  returns_atKey ⟨_, find_socket cfg v.keys_mem⟩

theorem listeningSockets_returns : Returns (listeningSockets (mainParameters cfg)) := by
  rw [listeningSockets]
  simp only [List.mapM_cons, List.mapM_nil]
  exact (socket_returns cfg .cisco).bind fun _ _ => ((socket_returns cfg .juniper).bind fun _ _ =>
    ((socket_returns cfg .nokia).bind fun _ _ => ((socket_returns cfg .huawei).bind fun _ _ =>
    returns_ok _).bind fun _ _ => returns_ok _).bind fun _ _ => returns_ok _).bind fun _ _ =>
    returns_ok _

theorem mainSettings_returns (zmqUri : Bytes) :
    Returns (mainSettings (fileParameters cfg zmqUri)) :=
  (corePidPath_returns cfg).bind fun _ _ => (labelFiles_returns cfg).bind fun _ _ =>
    (listeningSockets_returns cfg).bind fun _ _ => (zmqDelivery_returns cfg zmqUri).bind fun _ _ =>
    returns_ok _

end Reads

/-! ### A worker of a vendor -/

section Workers

variable {H : Host} {cfg : Config}

theorem deliveryOf_returns (h : acceptsMain H cfg) : Returns (deliveryOf (deliveryMethod cfg)) := by
  obtain ⟨-, -, -, -, -, -, -, -, hmethod⟩ := h
  have hknown : deliveryMethod cfg ∈ [lit "kafka", lit "zmq"] := by
    rw [Config.oneOf] at hmethod
    rw [deliveryMethod, Config.text]
    cases hlookup : cfg.lookup "data_delivery_method" with
    | none => exact List.mem_cons_self
    | some s =>
      rw [hlookup] at hmethod
      cases s with
      | string s => exact of_decide_eq_true hmethod
      | other => cases hmethod
  rw [deliveryOf]
  split_ifs with hkafka hzmq
  · exact returns_ok _
  · exact returns_ok _
  · simp [hkafka, hzmq] at hknown

theorem vendorPlumbing_returns (h : acceptsMain H cfg) (zmqUri : Bytes) :
    Returns (vendorPlumbing (fileParameters cfg zmqUri)) := by
  obtain ⟨hwriter, -, -, -, -, -, -, hmethod⟩ := find_main cfg
  refine (returns_raise (kafkaDelivery_returns cfg)).bind fun _ _ =>
    (returns_raise (zmqDelivery_returns cfg zmqUri)).bind fun _ _ =>
    (returns_raise (returns_atKey ⟨_, hwriter⟩)).bind fun _ _ => ?_
  rw [fileParameters, Params.atKey_of_find hmethod]
  exact (deliveryOf_returns h).bind fun _ _ =>
    (returns_raise (labelEncode_returns cfg)).bind fun _ _ => returns_ok _

/-- A worker gets as far as its streams once its vendor's replies are a number. -/
theorem vendorThread_returns (h : acceptsMain H cfg) (zmqUri : Bytes) (labelMap : LabelMap)
    (v : Vendor) (hreplies : Returns (replies (mainParameters cfg) v.keys.replies)) :
    Returns (vendorThread labelMap (fileParameters cfg zmqUri) v) := by
  obtain ⟨hmsg, hkv⟩ := find_cisco cfg
  have hfsm (key : String) (hkey : Returns (replies (mainParameters cfg) key)) :
      Returns (fsmCtrl (fileParameters cfg zmqUri) key) :=
    (vendorPlumbing_returns h zmqUri).bind fun _ _ => (returns_raise hkey).bind fun _ _ =>
      returns_ok _
  have hctx : Returns (v.fsmCtrl labelMap (fileParameters cfg zmqUri)) := by
    cases v with
    | cisco =>
      exact (hfsm _ hreplies).bind fun _ _ =>
        (returns_raise (returns_atKey ⟨_, hkv⟩)).bind fun _ _ =>
        (returns_raise (returns_atKey ⟨_, hmsg⟩)).bind fun _ _ => returns_ok _
    | juniper | nokia | huawei => exact (hfsm _ hreplies).bind fun _ _ => returns_ok _
  exact (returns_raise (socket_returns cfg v)).bind fun _ _ =>
    (returns_raise (makeServerCredentials_returns cfg)).bind fun _ _ => hctx.bind fun _ _ =>
    returns_ok _

end Workers

/-! ### All of them -/

section Accepted

variable {H : Host} {main : Params} {v : Vendor}

/-- A thread that has been started belongs to the vendor, whose counts have been checked. -/
theorem counts_of_mem_loadThreads {ts : List Vendor} (h : loadThreads H main v = .ok ts)
    {u : Vendor} (hu : u ∈ ts) :
    ∃ maxReplies workers, workerCounts main v = .ok (maxReplies, workers) ∧
      CountsAllowed maxReplies workers := by
  rw [loadThreads, bind_eq_ok] at h
  obtain ⟨socket, -, h⟩ := h
  split_ifs at h
  · cases h
    exact absurd hu List.not_mem_nil
  · cases hcounts : workerCounts main v with
    | error e =>
      rw [hcounts] at h
      cases h
    | ok counts =>
      rw [hcounts] at h
      simp only at h
      split_ifs at h with hallowed
      exact ⟨counts.1, counts.2, rfl, hallowed⟩

theorem loadThreads_ne_threw {socket : Bytes} (hsocket : main.atKey v.keys.socket = .ok socket)
    (e : StdException) : loadThreads H main v ≠ .error (.threw e) := by
  rw [loadThreads, hsocket]
  simp only [raise, Except.mapError, ok_bind]
  split_ifs
  · simp [pure, Except.pure]
  · cases workerCounts main v with
    | error _ => simp
    | ok counts =>
      simp only [startThreads]
      split_ifs <;> simp

/-- No read throws that a loaded configuration leads to. -/
structure ReadsSucceed (H : Host) (g : Stage → Params) : Prop where
  sinks : ∀ R e, setSpdlogSinks H R (g .logs) ≠ .error (.threw e)
  main : Returns (mainSettings g)
  reload : Returns (labelFiles (g .dataManipulation))
  counts : ∀ v : Vendor, ∃ socket, (g .main).atKey v.keys.socket = .ok socket ∧ (socket ≠ [] →
    Returns ((g .main).atKey v.keys.replies) ∧ Returns ((g .main).atKey v.keys.workers))
  threads : ∀ v e, loadThreads H (g .main) v ≠ .error (.threw e)
  worker : ∀ labelMap v ts, loadThreads H (g .main) v = .ok ts → v ∈ ts →
    Returns (vendorThread labelMap g v) ∧
      ∃ n, replies (g .main) v.keys.replies = .ok n ∧ 0 ≤ n ∧ n ≤ 1000

theorem accepted_reads_succeed {zmqUri : Bytes} {g g' : Globals}
    (h : loadStages H zmqUri stages g = .ok (true, g')) : ReadsSucceed H g'.params := by
  obtain ⟨cfg, -, haccepts, hparams⟩ := loadStages_accepted h
  rw [funext hparams]
  constructor
  · intro R e
    rw [fileParameters, setSpdlogSinks_eq, registerLogger]
    split_ifs <;> simp [ok_bind, error_bind]
  · exact mainSettings_returns cfg zmqUri
  · exact labelFiles_returns cfg
  · intro v
    refine ⟨_, Params.atKey_of_find (find_socket cfg v.keys_mem), fun hsocket => ?_⟩
    exact ⟨returns_atKey ⟨_, find_replies v.keys_mem hsocket⟩,
      returns_atKey ⟨_, find_workers v.keys_mem hsocket⟩⟩
  · exact fun v => loadThreads_ne_threw (Params.atKey_of_find (find_socket cfg v.keys_mem))
  · intro labelMap v ts hts hv
    obtain ⟨maxReplies, workers, hcounts, hallowed⟩ := counts_of_mem_loadThreads hts hv
    simp only [workerCounts, bind_eq_ok] at hcounts
    obtain ⟨n, hn, _, -, _, -, hcounts⟩ := hcounts
    cases hcounts
    exact ⟨vendorThread_returns (haccepts .main) zmqUri labelMap v ⟨_, hn⟩, _, hn, hallowed.1,
      hallowed.2.1⟩

theorem accepted_reads_succeed_ciscoOnly :
    ∃ g', loadStages (calmHost ciscoOnly) [] stages bootedGlobals = .ok (true, g') ∧
      loadThreads (calmHost ciscoOnly) (g'.params .main) .cisco = .ok [.cisco] ∧
      ReadsSucceed (calmHost ciscoOnly) g'.params := by
  have hload : ∃ g', loadStages (calmHost ciscoOnly) [] stages bootedGlobals = .ok (true, g') ∧
      loadThreads (calmHost ciscoOnly) (g'.params .main) .cisco = .ok [.cisco] := ⟨_, rfl, rfl⟩
  obtain ⟨g', hg', hthreads⟩ := hload
  exact ⟨g', hg', hthreads, accepted_reads_succeed hg'⟩

end Accepted

end MdtDialoutCollector.Core
