import MdtDialoutCollector.External.JsonCpp
import MdtDialoutCollector.Labels.Map

/-! `BuildEnvelope`: the JSON record that goes to Kafka. The body is nested as the value
it parses to, or kept as a string where the parse fails; a parse that throws, and a port
that is no number, end the call. -/

namespace MdtDialoutCollector.DataManipulation

open External Json Labels Text

/-! ### Parsed or kept as text -/

/-- What the collector does with a text that may be JSON: the value if the parse
succeeds, the text itself if it fails. -/
def parseOrText (J : JsonCpp) (text : Bytes) : Except StdException Value :=
  match J.parse text with
  | .ok v => .ok v
  | .error => .ok (.str text)
  | .throws => .error .runtimeError

/-- The reader comes back from the text. -/
def Fits (J : JsonCpp) (text : Bytes) : Prop := J.parse text ≠ .throws

/-- The value a text that fits is turned into. -/
def textValue (J : JsonCpp) (text : Bytes) : Value :=
  match J.parse text with
  | .ok v => v
  | _ => .str text

instance (J : JsonCpp) (text : Bytes) : Decidable (Fits J text) :=
  match h : J.parse text with
  | .ok _ => isTrue (by simp [Fits, h])
  | .error => isTrue (by simp [Fits, h])
  | .throws => isFalse (by simp [Fits, h])

theorem parseOrText_of_fits {J : JsonCpp} {text : Bytes} (h : Fits J text) :
    parseOrText J text = .ok (textValue J text) := by
  unfold Fits at h
  unfold parseOrText textValue
  cases hp : J.parse text with
  | ok v => rfl
  | error => rfl
  | throws => exact absurd hp h

theorem parseOrText_of_not_fits {J : JsonCpp} {text : Bytes} (h : ¬Fits J text) :
    parseOrText J text = .error .runtimeError := by
  rw [Fits, not_not] at h
  rw [parseOrText, h]

theorem textValue_canonical {J : JsonCpp} (hJ : J.Lawful) (text : Bytes) :
    (textValue J text).Canonical ∧ (textValue J text).Every Value.NotNaN := by
  unfold textValue
  split
  · next v h => exact hJ.parse_canonical text v h
  · exact ⟨Value.canonical_str text, trivial⟩

theorem fits_nil {J : JsonCpp} (hJ : J.Lawful) : Fits J [] := by
  rw [Fits, hJ.parse_nil]
  simp

theorem fits_written {J : JsonCpp} (hJ : J.Lawful) {v : Value} (hv : v.Canonical) :
    Fits J (J.writeString v) ↔ v.depth ≤ stackLimit := by
  rw [Fits, ne_eq, hJ.parse_written_throws hv, not_lt]

theorem fits_document {J : JsonCpp} (hJ : J.Lawful) {text : Bytes} {t : Value}
    (h : strictTree J.floats text = some t) (ht : t.depth ≤ stackLimit) : Fits J text := by
  rw [Fits, hJ.parse_document text t h, if_pos ht]
  simp

/-! ### The envelope -/

/-- The `label` member: the labels of the peer, or two placeholders. -/
def labelValue (labelMap : LabelMap) (peerIp : Bytes) : Except StdException Value :=
  match labelMap.find peerIp with
  | some labels => do
    let nkey ← at' labels 0
    let pkey ← at' labels 1
    .ok (Record.null.setAll [(lit "nkey", .str nkey), (lit "pkey", .str pkey)]).toValue
  | none => .ok (Record.null.setAll
      [(lit "node_id", .str (lit "unknown")), (lit "platform_id", .str (lit "unknown"))]).toValue

def envelopeMembers (seq : UInt64) (timestamp : Int64) (writerId peerIp : Bytes) (port : ℤ)
    (telemetryData : Value) (label : Option Value) : Members :=
  [(lit "event_type", .str (lit "gRPC")),
    (lit "serialization", .str (lit "json_string")),
    (lit "seq", .ofUInt64 seq),
    (lit "timestamp", .ofInt64 timestamp),
    (lit "writer_id", .str writerId),
    (lit "telemetry_node", .str peerIp),
    (lit "telemetry_port", .int (port % 2 ^ 16)),
    (lit "telemetry_data", telemetryData)] ++
  label.toList.map fun l => (lit "label", l)

def envelope (seq : UInt64) (timestamp : Int64) (writerId peerIp : Bytes) (port : ℤ)
    (telemetryData : Value) (label : Option Value) : Record :=
  Record.null.setAll (envelopeMembers seq timestamp writerId peerIp port telemetryData label)

/-- `seq` is the number after `set_sequence_number`. -/
def buildEnvelope (J : JsonCpp) (seq : UInt64) (now : Int64) (telemetryBody peerIp peerPort : Bytes)
    (labelMap : Option LabelMap) (writerId : Bytes) : Except StdException Bytes := do
  let port ← stoi peerPort
  let telemetryData ← parseOrText J telemetryBody
  let label ← labelMap.mapM fun m => labelValue m peerIp
  .ok (J.writeString (envelope seq now writerId peerIp port telemetryData label).toValue)

/-- The labels a peer gets. -/
def labelsOf (labelMap : LabelMap) (peerIp : Bytes) : Record :=
  match labelMap.find peerIp with
  | some [nkey, pkey] => Record.null.setAll [(lit "nkey", .str nkey), (lit "pkey", .str pkey)]
  | _ => Record.null.setAll
      [(lit "node_id", .str (lit "unknown")), (lit "platform_id", .str (lit "unknown"))]

/-- The labels of the envelope of a peer, where label encoding is on. -/
def labelOf (labelMap : Option LabelMap) (peerIp : Bytes) : Option Value :=
  labelMap.map fun m => (labelsOf m peerIp).toValue

/-- With two labels per address both `at` calls are in range. -/
theorem labelValue_eq (labelMap : LabelMap) (peerIp : Bytes) :
    labelValue labelMap peerIp = .ok (labelsOf labelMap peerIp).toValue := by
  unfold labelValue labelsOf
  cases h : labelMap.find peerIp with
  | none => rfl
  | some labels =>
    obtain ⟨nkey, pkey, rfl⟩ := LabelMap.find_eq_pair h
    rfl

theorem mapM_labelValue (labelMap : Option LabelMap) (peerIp : Bytes) :
    (labelMap.mapM fun m => labelValue m peerIp) =
      Except.ok (labelOf labelMap peerIp) := by
  cases labelMap with
  | none => rfl
  | some m =>
    simp only [Option.mapM_some, labelValue_eq]
    rfl

/-- Everything that decides the call: the port has to be a number and the body to fit. -/
theorem buildEnvelope_eq (J : JsonCpp) (seq : UInt64) (now : Int64)
    (telemetryBody peerIp peerPort : Bytes) (labelMap : Option LabelMap) (writerId : Bytes) :
    buildEnvelope J seq now telemetryBody peerIp peerPort labelMap writerId =
      (stoi peerPort).bind fun port =>
        if Fits J telemetryBody then
          .ok (J.writeString (envelope seq now writerId peerIp port (textValue J telemetryBody)
            (labelOf labelMap peerIp)).toValue)
        else .error .runtimeError := by
  unfold buildEnvelope
  cases stoi peerPort with
  | error e => rfl
  | ok port =>
    by_cases h : Fits J telemetryBody
    · simp only [parseOrText_of_fits h, mapM_labelValue, if_pos h]
      rfl
    · simp only [parseOrText_of_not_fits h, if_neg h]
      rfl

theorem buildEnvelope_of_fits {J : JsonCpp} {telemetryBody peerPort : Bytes} {port : ℤ}
    (hport : stoi peerPort = .ok port) (hfit : Fits J telemetryBody) (seq : UInt64) (now : Int64)
    (peerIp : Bytes) (labelMap : Option LabelMap) (writerId : Bytes) :
    buildEnvelope J seq now telemetryBody peerIp peerPort labelMap writerId =
      .ok (J.writeString (envelope seq now writerId peerIp port (textValue J telemetryBody)
        (labelOf labelMap peerIp)).toValue) := by
  rw [buildEnvelope_eq, hport]
  exact if_pos hfit

/-! ### Members of the envelope -/

theorem canonical_labelsOf (labelMap : LabelMap) (peerIp : Bytes) :
    (labelsOf labelMap peerIp).toValue.Canonical := by
  unfold labelsOf
  split <;>
  · refine Record.canonical_setAll Value.canonical_null fun m hm => ?_
    simp only [List.mem_cons, List.not_mem_nil, or_false] at hm
    rcases hm with rfl | rfl <;> exact Value.canonical_str _

section Envelope

variable (seq : UInt64) (now : Int64) (writerId peerIp : Bytes) (port : ℤ) {telemetryData : Value}
  (labelMap : Option LabelMap)

theorem canonical_envelope (h : telemetryData.Canonical) :
    (envelope seq now writerId peerIp port telemetryData
      (labelOf labelMap peerIp)).toValue.Canonical := by
  refine Record.canonical_setAll Value.canonical_null fun m hm => ?_
  simp only [envelopeMembers, labelOf, List.mem_append, List.mem_cons, List.not_mem_nil, or_false,
    List.mem_map, Option.mem_toList, Option.map_eq_some_iff] at hm
  rcases hm with (rfl | rfl | rfl | rfl | rfl | rfl | rfl | rfl) | ⟨l, ⟨lm, -, rfl⟩, rfl⟩
  · exact Value.canonical_str _
  · exact Value.canonical_str _
  · exact Value.canonical_ofUInt64 seq
  · exact Value.canonical_ofInt64 now
  · exact Value.canonical_str _
  · exact Value.canonical_str _
  · exact Value.canonical_int (by omega)
  · exact h
  · exact canonical_labelsOf lm peerIp

end Envelope

end MdtDialoutCollector.DataManipulation
