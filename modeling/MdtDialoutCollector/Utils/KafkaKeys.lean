import MdtDialoutCollector.Utils.Loading

/-! What Kafka's keys decide. Over ZMQ the validator still looks at those a file has; over
Kafka it takes the placeholder of ZMQ's security protocol for a protocol. -/

namespace MdtDialoutCollector.Utils

open Data External Text

/-! ### Over ZMQ -/

/-- Kafka's keys are the only ones that tell the two files apart. -/
def AgreeOffKafka (cfg cfg' : Config) : Prop :=
  ∀ key, key ∉ kafkaKeys → cfg.lookup key = cfg'.lookup key

/-- The values that ZMQ's collector has no use for. -/
def kafkaDummies : List (String × Bytes) :=
  [("topic", lit "dummy_topic"), ("bootstrap_servers", lit "dummy_servers"),
    ("security_protocol", lit "dummy_security_protocol")]

/-- The file is accepted with the dummies in it. -/
def YieldsDummies (H : Host) (R : Registry) (main : Params) : Prop :=
  ∃ params, lookupKafkaParameters H R main = .ok params ∧
    ∀ d ∈ kafkaDummies, params.find d.1 = some d.2

/-- The file has none of the keys that get a dummy, unless with the dummy's own value, and none
of the others with a value that is refused. -/
def LeavesDummies (cfg : Config) : Prop :=
  (∀ d ∈ kafkaDummies, cfg.oneOf d.1 [d.2] = true) ∧
    cfg.oneOf "enable_idempotence" booleans = true ∧ cfg.optional "client_id" = true ∧
    cfg.optional "log_level" = true

instance (cfg : Config) : Decidable (LeavesDummies cfg) := inferInstanceAs (Decidable (_ ∧ _))

section

variable {H : Host} {R : Registry} {cfg cfg' : Config} {main params : Params}

theorem find_brokerParameters (cfg : Config) :
    (kafkaParameters cfg).find "topic" = some (cfg.text "topic" (lit "dummy_topic")) ∧
      (kafkaParameters cfg).find "bootstrap_servers" =
        some (cfg.text "bootstrap_servers" (lit "dummy_servers")) ∧
      (kafkaParameters cfg).find "security_protocol" = some (securityProtocol cfg) := by
  rw [kafkaParameters, withSsl]
  split_ifs <;> simp [brokerParameters]

/-- A dummy is kept where the key is missing, and where the file spells it out. -/
theorem oneOf_dummy_iff (hmethod : deliveryMethod cfg = lit "zmq") {key : String} {dummy : Bytes}
    (hdummy : dummy ≠ []) :
    cfg.oneOf key [dummy] = true ↔ acceptsKafkaOnly cfg key ∧ cfg.text key dummy = dummy := by
  have hkafka : (lit "zmq" = lit "kafka") ↔ False := by decide
  rw [acceptsKafkaOnly, hmethod, hkafka, Config.oneOf, Config.mandatory, Config.text]
  cases cfg.lookup key with
  | none => simp
  | some s =>
    cases s with
    | other => simp
    | string s =>
      simp only [List.mem_singleton, decide_eq_true_eq, Option.isSome_some, true_or,
        forall_const]
      constructor
      · intro h
        rw [h]
        exact ⟨hdummy, rfl⟩
      · exact fun h => h.2

theorem yieldsDummies_iff (hR : R .multiLogger = true) (hfile : H.configFile = .read cfg)
    (hmethod : deliveryMethod cfg = lit "zmq")
    (hmain : main.find "data_delivery_method" = some (lit "zmq")) :
    YieldsDummies H R main ↔ LeavesDummies cfg := by
  rw [← hmethod] at hmain
  have hdecides := decides_lookupKafkaParameters hR hfile hmain
  obtain ⟨htopic, hservers, hprotocol⟩ := find_brokerParameters cfg
  have hkeys : (∀ d ∈ kafkaDummies, cfg.oneOf d.1 [d.2] = true) ↔
      ∀ d ∈ kafkaDummies, acceptsKafkaOnly cfg d.1 ∧ cfg.text d.1 d.2 = d.2 := by
    refine forall₂_congr fun d hd => oneOf_dummy_iff hmethod ?_
    revert d
    decide
  rw [LeavesDummies, hkeys]
  simp only [YieldsDummies, kafkaDummies, List.forall_mem_cons, List.not_mem_nil,
    IsEmpty.forall_iff, implies_true, and_true]
  constructor
  · rintro ⟨params, hok, htopic', hservers', hprotocol'⟩
    obtain ⟨-, ⟨ha₁, ha₂, hidempotence, hclient, hlog, ha₃, -, -⟩, rfl⟩ :=
      hdecides.eq_ok_iff.mp hok
    rw [htopic, Option.some_inj] at htopic'
    rw [hservers, Option.some_inj] at hservers'
    rw [hprotocol, Option.some_inj] at hprotocol'
    exact ⟨⟨⟨ha₁, htopic'⟩, ⟨ha₂, hservers'⟩, ha₃, hprotocol'⟩, hidempotence, hclient, hlog⟩
  · rintro ⟨⟨⟨ha₁, htopic'⟩, ⟨ha₂, hservers'⟩, ha₃, hprotocol'⟩, hidempotence, hclient, hlog⟩
    have hdummy : securityProtocol cfg = lit "dummy_security_protocol" := hprotocol'
    have hssl : acceptsSsl cfg := by
      intro hon
      rw [sslOn, hdummy] at hon
      exact absurd hon (by decide)
    refine ⟨_, hdecides.accepts not_false ⟨ha₁, ha₂, hidempotence, hclient, hlog, ha₃, ?_, hssl⟩,
      ?_, ?_, ?_⟩
    · rw [hdummy]
      decide
    · rw [htopic, htopic']
    · rw [hservers, hservers']
    · rw [hprotocol, hdummy]

/-- ZMQ excludes Kafka's keys for the files that leave the dummies alone, and for no others. -/
theorem zmq_excludes_kafka_iff (hR : R .multiLogger = true)
    (hmethod : deliveryMethod cfg = lit "zmq") (hagree : AgreeOffKafka cfg cfg')
    (hmain : main.find "data_delivery_method" = some (lit "zmq")) :
    (YieldsDummies { H with configFile := .read cfg } R main ∧
        YieldsDummies { H with configFile := .read cfg' } R main) ↔
      LeavesDummies cfg ∧ LeavesDummies cfg' := by
  have hmethod' : deliveryMethod cfg' = lit "zmq" := by
    rw [← hmethod, deliveryMethod, deliveryMethod, Config.text, Config.text,
      hagree "data_delivery_method" (by decide)]
  rw [yieldsDummies_iff hR rfl hmethod hmain, yieldsDummies_iff hR rfl hmethod' hmain]

end

/-- A collector that delivers over ZMQ. -/
def overZmq : List (String × CString) :=
  [("iface", eth0), ("data_delivery_method", zmqMethod)]

/-- The same, with a key that an earlier use of Kafka has left behind. -/
def leftover (key : String) (value : CString) : Config := .ofStrings (overZmq ++ [(key, value)])

theorem agreeOffKafka_leftover {key : String} (hkey : key ∈ kafkaKeys) (value : CString) :
    AgreeOffKafka (leftover key value) (.ofStrings overZmq) := by
  intro other hother
  have hne : (key == other) = false := by
    rw [beq_eq_false_iff_ne]
    rintro rfl
    exact hother hkey
  simp only [leftover, Config.ofStrings, List.find?_append, List.find?_cons, List.find?_nil, hne,
    Option.or_none]

theorem zmq_excludes_kafka_sslKey :
    YieldsDummies (calmHost (leftover "ssl_key_location" ⟨lit "/etc/key.pem", by decide⟩))
        (fun _ => true) (mainParameters (.ofStrings overZmq)) ∧
      YieldsDummies (calmHost (.ofStrings overZmq)) (fun _ => true)
        (mainParameters (.ofStrings overZmq)) :=
  (zmq_excludes_kafka_iff (H := calmHost (.ofStrings overZmq)) (R := fun _ => true) rfl rfl
    (agreeOffKafka_leftover (by decide) _) rfl).mpr ⟨by decide, by decide⟩

/-- A topic that has been left behind is kept. -/
theorem leftover_topic_kept :
    AgreeOffKafka (leftover "topic" ⟨lit "telemetry", by decide⟩) (.ofStrings overZmq) ∧
      (∃ params, lookupKafkaParameters (calmHost (leftover "topic" ⟨lit "telemetry", by decide⟩))
          (fun _ => true) (mainParameters (.ofStrings overZmq)) = .ok params ∧
        params.find "topic" = some (lit "telemetry")) ∧
      ¬YieldsDummies (calmHost (leftover "topic" ⟨lit "telemetry", by decide⟩)) (fun _ => true)
        (mainParameters (.ofStrings overZmq)) := by
  refine ⟨agreeOffKafka_leftover (by decide) _, ⟨_, rfl, rfl⟩, ?_⟩
  rintro ⟨params, hok, hfind⟩
  cases hok
  have htopic := hfind ("topic", lit "dummy_topic") (by decide)
  revert htopic
  decide

/-! ### Over Kafka -/

/-- The parameter is a string of the file, and not an empty one. -/
def Given (cfg : Config) (params : Params) (key : String) : Prop :=
  ∃ s, cfg.lookup key = some (.string s) ∧ s.bytes ≠ [] ∧ params.find key = some s.bytes

/-- The security of the connection to the brokers. -/
structure Secured (cfg : Config) (params : Params) : Prop where
  protocol : params.find "security_protocol" = some (lit "ssl") ∨
    params.find "security_protocol" = some (lit "plaintext")
  topic : Given cfg params "topic"
  bootstrapServers : Given cfg params "bootstrap_servers"
  ssl : params.find "security_protocol" = some (lit "ssl") →
    Given cfg params "ssl_key_location" ∧ Given cfg params "ssl_certificate_location" ∧
      Given cfg params "ssl_ca_location" ∧
      (cfg.lookup "enable_ssl_certificate_verification" = none →
        params.find "enable_ssl_certificate_verification" = some (lit "true"))
  plaintext : params.find "security_protocol" = some (lit "plaintext") →
    ∀ key ∈ ["ssl_key_location", "ssl_key_password", "ssl_certificate_location",
      "ssl_ca_location"], params.find key = some (lit "NULL")

section

variable {H : Host} {R : Registry} {cfg : Config} {main params : Params}

theorem given_of_mandatory {key : String} {default : Bytes} (h : cfg.mandatory key = true)
    (hfind : params.find key = some (cfg.text key default)) : Given cfg params key := by
  rw [Config.mandatory] at h
  rw [Config.text] at hfind
  split at h
  · next s hs =>
    rw [hs] at hfind
    exact ⟨s, hs, by simpa using h, hfind⟩
  · simp at h

theorem find_sslOn (hon : sslOn cfg = true) :
    (kafkaParameters cfg).find "ssl_key_location" = some (cfg.text "ssl_key_location" []) ∧
      (kafkaParameters cfg).find "ssl_certificate_location" =
        some (cfg.text "ssl_certificate_location" []) ∧
      (kafkaParameters cfg).find "ssl_ca_location" = some (cfg.text "ssl_ca_location" []) ∧
      (kafkaParameters cfg).find "enable_ssl_certificate_verification" =
        some (cfg.text "enable_ssl_certificate_verification" (lit "true")) := by
  simp [kafkaParameters, withSsl, hon, brokerParameters]

theorem find_sslOff (hoff : sslOn cfg = false) :
    ∀ key ∈ ["ssl_key_location", "ssl_key_password", "ssl_certificate_location",
      "ssl_ca_location"], (kafkaParameters cfg).find key = some (lit "NULL") := by
  simp [kafkaParameters, withSsl, hoff, brokerParameters]

/-- An accepted file is secured where it does not spell out the dummy of ZMQ. -/
theorem kafka_secured_iff (hR : R .multiLogger = true) (hfile : H.configFile = .read cfg)
    (hmethod : deliveryMethod cfg = lit "kafka")
    (hmain : main.find "data_delivery_method" = some (lit "kafka"))
    (haccept : lookupKafkaParameters H R main = .ok params) :
    Secured cfg params ↔ securityProtocol cfg ≠ lit "dummy_security_protocol" := by
  rw [← hmethod] at hmain
  obtain ⟨-, ⟨htopic, hservers, -, -, -, -, hprotocol, hssl⟩, rfl⟩ :=
    (decides_lookupKafkaParameters hR hfile hmain).eq_ok_iff.mp haccept
  obtain ⟨hfindTopic, hfindServers, hfindProtocol⟩ := find_brokerParameters cfg
  constructor
  · rintro ⟨hknown, -, -, -, -⟩ hdummy
    rw [hfindProtocol, hdummy] at hknown
    exact absurd hknown (by decide)
  · intro hdummy
    refine ⟨?_, ?_, ?_, ?_, ?_⟩
    · rw [hfindProtocol, Option.some_inj, Option.some_inj]
      simpa [hdummy] using hprotocol
    · exact given_of_mandatory (htopic (.inr hmethod)) hfindTopic
    · exact given_of_mandatory (hservers (.inr hmethod)) hfindServers
    · intro hon
      rw [hfindProtocol, Option.some_inj] at hon
      have hssl' : sslOn cfg = true := decide_eq_true hon
      obtain ⟨hkey, hcertificate, hca, -, -⟩ := hssl hssl'
      obtain ⟨hfindKey, hfindCertificate, hfindCa, hfindVerification⟩ := find_sslOn hssl'
      refine ⟨given_of_mandatory hkey hfindKey, given_of_mandatory hcertificate hfindCertificate,
        given_of_mandatory hca hfindCa, fun hmissing => ?_⟩
      rw [hfindVerification, Config.text, hmissing]
    · intro hoff
      rw [hfindProtocol, Option.some_inj] at hoff
      refine find_sslOff (decide_eq_false ?_)
      rw [hoff]
      decide

end

/-- A connection to the brokers over this protocol. -/
def overProtocol (protocol : CString) : Config :=
  .ofStrings [("iface", eth0), ("topic", ⟨lit "telemetry", by decide⟩),
    ("bootstrap_servers", ⟨lit "broker:9092", by decide⟩), ("security_protocol", protocol)]

theorem kafka_secured_plaintext :
    Secured (overProtocol ⟨lit "plaintext", by decide⟩)
      (kafkaParameters (overProtocol ⟨lit "plaintext", by decide⟩)) := by
  have haccept : lookupKafkaParameters (calmHost (overProtocol ⟨lit "plaintext", by decide⟩))
      (fun _ => true) (mainParameters (overProtocol ⟨lit "plaintext", by decide⟩)) =
      .ok (kafkaParameters (overProtocol ⟨lit "plaintext", by decide⟩)) := rfl
  exact (kafka_secured_iff rfl rfl rfl rfl haccept).mpr (by decide)

/-- The dummy of ZMQ is taken for a protocol. -/
theorem dummy_protocol_accepted :
    ∃ params, lookupKafkaParameters
        (calmHost (overProtocol ⟨lit "dummy_security_protocol", by decide⟩)) (fun _ => true)
        (mainParameters (overProtocol ⟨lit "dummy_security_protocol", by decide⟩)) = .ok params ∧
      params.find "security_protocol" = some (lit "dummy_security_protocol") ∧
      ¬Secured (overProtocol ⟨lit "dummy_security_protocol", by decide⟩) params := by
  refine ⟨_, rfl, rfl, ?_⟩
  rintro ⟨hknown, -, -, -, -⟩
  revert hknown
  decide

end MdtDialoutCollector.Utils
