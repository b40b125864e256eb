import MdtDialoutCollector.DataManipulation.Gnmi
import MdtDialoutCollector.External.JsonCpp
import MdtDialoutCollector.External.Protobuf

/-! `HuaweiGpbOpenconfigInterface`: the header fields of a message and its rows, each row
decoded and converted to a JSON text. The output is written again after every row, so
that a row that does not decode leaves the text of the rows before it. -/

namespace MdtDialoutCollector.DataManipulation

open External Json Proto Proto.Huawei Text

def huaweiHeader (huaweiTlm : Telemetry) : Record :=
  Record.null.setAll
    [(lit "collection_id", .ofUInt64 huaweiTlm.collectionId),
      (lit "collection_start_time", .ofUInt64 huaweiTlm.collectionStartTime),
      (lit "collection_end_time", .ofUInt64 huaweiTlm.collectionEndTime),
      (lit "current_period", .ofUInt32 huaweiTlm.currentPeriod),
      (lit "encoding", .ofInt32 huaweiTlm.encoding),
      (lit "except_desc", .str huaweiTlm.exceptDesc),
      (lit "msg_timestamp", .ofUInt64 huaweiTlm.msgTimestamp),
      (lit "node_id_str", .str huaweiTlm.nodeIdStr),
      (lit "product_name", .str huaweiTlm.productName),
      (lit "proto_path", .str huaweiTlm.protoPath),
      (lit "sensor_path", .str huaweiTlm.sensorPath),
      (lit "software_version", .str huaweiTlm.softwareVersion),
      (lit "subscription_id_str", .str huaweiTlm.subscriptionIdStr)]

/-- The record with the texts of the rows decoded so far. -/
def huaweiRoot (huaweiTlm : Telemetry) (decoded : List Bytes) : Record :=
  (huaweiHeader huaweiTlm).set (lit "decoded") (.arr (decoded.map .str))

/-- The loop over the rows: `decoded` are the texts so far, `out` is `json_str_out`. -/
def huaweiRows (J : JsonCpp) (P : Protobuf) (huaweiTlm : Telemetry) :
    List TelemetryRowGpb → List Bytes → Bytes → Bool × Bytes
  | [], _, out => (true, out)
  | row :: rows, decoded, out =>
    match P.parseInterfaces row.content with
    | some ocIf =>
      let decoded := decoded ++ [(P.interfacesToJson ocIf).2]
      huaweiRows J P huaweiTlm rows decoded (J.writeString (huaweiRoot huaweiTlm decoded).toValue)
    | none => (false, out)

def huaweiGpbOpenconfigInterface (J : JsonCpp) (P : Protobuf) (huaweiTlm : Telemetry) :
    Bool × Bytes :=
  huaweiRows J P huaweiTlm (huaweiTlm.dataGpb.getD []) [] []

/-! ### Shape of the output -/

theorem mem_huaweiHeader {tlm : Telemetry} {m : Bytes × Value}
    (h : m ∈ [(lit "collection_id", Value.ofUInt64 tlm.collectionId),
      (lit "collection_start_time", .ofUInt64 tlm.collectionStartTime),
      (lit "collection_end_time", .ofUInt64 tlm.collectionEndTime),
      (lit "current_period", .ofUInt32 tlm.currentPeriod),
      (lit "encoding", .ofInt32 tlm.encoding),
      (lit "except_desc", .str tlm.exceptDesc),
      (lit "msg_timestamp", .ofUInt64 tlm.msgTimestamp),
      (lit "node_id_str", .str tlm.nodeIdStr),
      (lit "product_name", .str tlm.productName),
      (lit "proto_path", .str tlm.protoPath),
      (lit "sensor_path", .str tlm.sensorPath),
      (lit "software_version", .str tlm.softwareVersion),
      (lit "subscription_id_str", .str tlm.subscriptionIdStr)]) :
    m.2.depth = 1 ∧ m.2.Canonical := by
  simp only [List.mem_cons, List.not_mem_nil, or_false] at h
  rcases h with rfl | rfl | rfl | rfl | rfl | rfl | rfl | rfl | rfl | rfl | rfl | rfl | rfl
  iterate 3 exact ⟨rfl, Value.canonical_ofUInt64 _⟩
  · exact ⟨rfl, Value.canonical_ofUInt32 _⟩
  · exact ⟨rfl, Value.canonical_ofInt32 _⟩
  · exact ⟨rfl, Value.canonical_str _⟩
  · exact ⟨rfl, Value.canonical_ofUInt64 _⟩
  iterate 6 exact ⟨rfl, Value.canonical_str _⟩

theorem depth_huaweiRoot_le (tlm : Telemetry) (decoded : List Bytes) :
    (huaweiRoot tlm decoded).toValue.depth ≤ 3 := by
  refine Record.depth_set_le (Record.depth_setAll_le (depth_null_le 2) fun m hm => ?_) ?_
  · rw [(mem_huaweiHeader hm).1]
    decide
  · rw [Value.depth_arr_le, List.forall_mem_map]
    exact fun s _ => Nat.le_refl 1

theorem canonical_huaweiRoot (tlm : Telemetry) (decoded : List Bytes) :
    (huaweiRoot tlm decoded).toValue.Canonical := by
  refine Record.canonical_set (Record.canonical_setAll Value.canonical_null fun m hm =>
    (mem_huaweiHeader hm).2) (Value.canonical_arr ?_)
  rw [List.forall_mem_map]
  exact fun s _ => Value.canonical_str s

/-- The texts of the rows before the first whose content does not parse. -/
def rowTexts (P : Protobuf) : List TelemetryRowGpb → List Bytes
  | [] => []
  | row :: rows =>
    match P.parseInterfaces row.content with
    | some ocIf => (P.interfacesToJson ocIf).2 :: rowTexts P rows
    | none => []

/-- The output is the text with these rows, and untouched where there are none. -/
theorem huaweiRows_out (J : JsonCpp) (P : Protobuf) (tlm : Telemetry) (rows : List TelemetryRowGpb)
    (decoded : List Bytes) (out : Bytes) :
    (huaweiRows J P tlm rows decoded out).2 =
      if rowTexts P rows = [] then out
      else J.writeString (huaweiRoot tlm (decoded ++ rowTexts P rows)).toValue := by
  induction rows generalizing decoded out with
  | nil => rfl
  | cons row rows ih =>
    rw [huaweiRows, rowTexts]
    cases P.parseInterfaces row.content with
    | none => rfl
    | some ocIf =>
      simp only [ih, reduceCtorEq, if_false, List.append_assoc, List.singleton_append]
      split_ifs with hrows
      · rw [hrows]
      · rfl

/-- The rows are decoded up to the first whose content does not parse. -/
theorem huaweiRows_ok (J : JsonCpp) (P : Protobuf) (tlm : Telemetry) (rows : List TelemetryRowGpb)
    (decoded : List Bytes) (out : Bytes) :
    (huaweiRows J P tlm rows decoded out).1 = true ↔
      ∀ row ∈ rows, (P.parseInterfaces row.content).isSome = true := by
  induction rows generalizing decoded out with
  | nil => simp [huaweiRows]
  | cons row rows ih =>
    rw [huaweiRows]
    cases h : P.parseInterfaces row.content with
    | none => simp [h]
    | some ocIf => simp [h, ih]

end MdtDialoutCollector.DataManipulation
