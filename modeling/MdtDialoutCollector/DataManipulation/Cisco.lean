import MdtDialoutCollector.External.JsonCpp
import MdtDialoutCollector.External.Protobuf

/-! `CiscoGpbkv2Json`: the self-describing fields of a Cisco message as JSON. A field
is its value, or an object when it has a time stamp or sub-fields, and a named field is
wrapped in an object of one member. Each level of fields is at most three levels of
JSON. -/

namespace MdtDialoutCollector.DataManipulation

open External Json Proto Proto.Cisco Text

def fieldValue : Option ValueByType → Value
  | none => .null
  | some (.bytesValue b) => .str b
  | some (.stringValue s) => .str s
  | some (.boolValue b) => .bool b
  | some (.uint32Value n) => .ofUInt32 n
  | some (.uint64Value n) => .ofUInt64 n
  | some (.sint32Value n) => .ofInt32 n
  | some (.sint64Value n) => .ofInt64 n
  | some (.doubleValue d) => .real d
  | some (.floatValue d) => .real d

/-- What a field becomes as an element of its parent's array. -/
def named (name : Bytes) (v : Value) : Value :=
  if name.isEmpty then v else .obj [(name, v)]

/-- Routers send 0 for fields without a time stamp; it is left out then. -/
def fieldMembers (timestamp : UInt64) (subFields : Value) : Members :=
  (if timestamp != 0 then [(lit "timestamp", .ofUInt64 timestamp)] else []) ++
    if !subFields.empty then [(lit "fields", subFields)] else []

/-- The object of a field that has a time stamp or sub-fields, else its value. -/
def fieldObject (timestamp : UInt64) (subFields value : Value) : Value :=
  let root := Record.null.setAll (fieldMembers timestamp subFields)
  if !root.toValue.empty then
    (if !value.empty then root.set (lit "value") value else root).toValue
  else value

mutual

def ciscoGpbkvField2Json : TelemetryField → Value
  | ⟨timestamp, _, value, fields, _⟩ =>
    fieldObject timestamp (.appended (ciscoGpbkvFields2Json fields)) (fieldValue value)

def ciscoGpbkvFields2Json : List TelemetryField → List Value
  | [] => []
  | f :: fs => named f.name (ciscoGpbkvField2Json f) :: ciscoGpbkvFields2Json fs

end

def ciscoGpbkvRoot (ciscoTlm : Telemetry) : Record :=
  Record.null.setAll <|
    (ciscoTlm.nodeIdStr.toList.map fun s => (lit "node_id", .str s)) ++
    (ciscoTlm.subscriptionIdStr.toList.map fun s => (lit "subscription_id", .str s)) ++
    [(lit "encoding_path", .str ciscoTlm.encodingPath),
      (lit "collection_id", .ofUInt64 ciscoTlm.collectionId),
      (lit "collection_start_time", .ofUInt64 ciscoTlm.collectionStartTime),
      (lit "msg_timestamp", .ofUInt64 ciscoTlm.msgTimestamp),
      (lit "collection_end_time", .ofUInt64 ciscoTlm.collectionEndTime),
      (lit "data_gpbkv", .appended (ciscoGpbkvFields2Json ciscoTlm.dataGpbkv))]

/-- The value returned and the text in `json_str_out`. -/
def ciscoGpbkv2Json (J : JsonCpp) (ciscoTlm : Telemetry) : Bool × Bytes :=
  (true, J.writeString (ciscoGpbkvRoot ciscoTlm).toValue)

/-! ### Depth -/

theorem depth_fieldValue (v : Option ValueByType) : (fieldValue v).depth = 1 := by
  cases v with
  | none => rfl
  | some v => cases v <;> rfl

theorem depth_named_le {n : ℕ} {v : Value} (h : v.depth ≤ n) (name : Bytes) :
    (named name v).depth ≤ n + 1 := by
  unfold named
  split_ifs
  · omega
  · exact (Value.depth_obj_le _).mpr (by simpa using h)

theorem mem_fieldMembers {timestamp : UInt64} {subFields : Value} {m : Bytes × Value}
    (h : m ∈ fieldMembers timestamp subFields) : m.2 = .ofUInt64 timestamp ∨ m.2 = subFields := by
  rcases List.mem_append.mp h with h | h <;> split_ifs at h <;> simp at h <;> simp [h]

theorem depth_fieldObject_le {n : ℕ} {subFields value : Value} (hs : subFields.depth ≤ n)
    (hv : value.depth ≤ n) (timestamp : UInt64) :
    (fieldObject timestamp subFields value).depth ≤ n + 1 := by
  have hpos : 1 ≤ n := subFields.depth_pos.trans hs
  have hroot : (Record.null.setAll (fieldMembers timestamp subFields)).toValue.depth ≤ n + 1 := by
    refine Record.depth_setAll_le (by simp [Record.toValue, Value.depth]) fun m hm => ?_
    rcases mem_fieldMembers hm with h | h
    · rw [h]
      exact hpos
    · rw [h]
      exact hs
  simp only [fieldObject]
  split_ifs
  · exact Record.depth_set_le hroot hv
  · exact hroot
  · omega

mutual

theorem depth_ciscoGpbkvField2Json (f : TelemetryField) :
    (ciscoGpbkvField2Json f).depth + 1 ≤ 3 * f.nesting := by
  obtain ⟨timestamp, name, value, fields, delete⟩ := f
  have hsub : (Value.appended (ciscoGpbkvFields2Json fields)).depth ≤ 3 * nestingList fields + 1 :=
    Value.depth_appended_le (depth_ciscoGpbkvFields2Json fields)
  have hv : (fieldValue value).depth ≤ 3 * nestingList fields + 1 := by
    rw [depth_fieldValue]
    omega
  have h := depth_fieldObject_le hsub hv timestamp
  rw [ciscoGpbkvField2Json, TelemetryField.nesting]
  omega

theorem depth_ciscoGpbkvFields2Json (fs : List TelemetryField) :
    ∀ x ∈ ciscoGpbkvFields2Json fs, x.depth ≤ 3 * nestingList fs := by
  match fs with
  | [] => simp [ciscoGpbkvFields2Json]
  | f :: fs =>
    have hf := depth_ciscoGpbkvField2Json f
    have hfs := depth_ciscoGpbkvFields2Json fs
    have hmax : f.nesting ≤ nestingList (f :: fs) ∧ nestingList fs ≤ nestingList (f :: fs) := by
      rw [nestingList]
      exact ⟨le_max_left _ _, le_max_right _ _⟩
    intro x hx
    rw [ciscoGpbkvFields2Json] at hx
    rcases List.mem_cons.mp hx with rfl | hx
    · have := depth_named_le (Nat.le_refl (ciscoGpbkvField2Json f).depth) f.name
      omega
    · have := hfs x hx
      omega

end

theorem depth_ciscoGpbkvRoot (m : Telemetry) :
    (ciscoGpbkvRoot m).toValue.depth ≤ 3 * nestingList m.dataGpbkv + 2 := by
  have hdata : (Value.appended (ciscoGpbkvFields2Json m.dataGpbkv)).depth ≤
      3 * nestingList m.dataGpbkv + 1 :=
    Value.depth_appended_le (depth_ciscoGpbkvFields2Json m.dataGpbkv)
  refine Record.depth_setAll_le (by simp [Record.toValue, Value.depth]) fun e he => ?_
  simp only [List.mem_append, List.mem_map, List.mem_cons, List.not_mem_nil, or_false] at he
  rcases he with (⟨s, -, rfl⟩ | ⟨s, -, rfl⟩) | rfl | rfl | rfl | rfl | rfl | rfl
  iterate 7 exact Nat.le_add_left _ _
  exact hdata

/-! ### Well-formedness -/

theorem canonical_fieldValue (v : Option ValueByType) : (fieldValue v).Canonical := by
  cases v with
  | none => exact Value.canonical_null
  | some v =>
    cases v with
    | bytesValue b => exact Value.canonical_str b
    | stringValue s => exact Value.canonical_str s
    | boolValue b => exact Value.canonical_bool b
    | uint32Value n => exact Value.canonical_ofUInt32 n
    | uint64Value n => exact Value.canonical_ofUInt64 n
    | sint32Value n => exact Value.canonical_ofInt32 n
    | sint64Value n => exact Value.canonical_ofInt64 n
    | doubleValue d => exact Value.canonical_real d
    | floatValue d => exact Value.canonical_real d

theorem canonical_named {v : Value} (h : v.Canonical) (name : Bytes) : (named name v).Canonical := by
  unfold named
  split_ifs
  · exact h
  · exact Record.canonical_set (r := .null) Value.canonical_null h

theorem canonical_fieldObject {subFields value : Value} (hs : subFields.Canonical)
    (hv : value.Canonical) (timestamp : UInt64) :
    (fieldObject timestamp subFields value).Canonical := by
  have hroot : (Record.null.setAll (fieldMembers timestamp subFields)).toValue.Canonical := by
    refine Record.canonical_setAll Value.canonical_null fun m hm => ?_
    rcases mem_fieldMembers hm with h | h
    · rw [h]
      exact Value.canonical_ofUInt64 timestamp
    · rw [h]
      exact hs
  simp only [fieldObject]
  split_ifs
  · exact Record.canonical_set hroot hv
  · exact hroot
  · exact hv

mutual

theorem canonical_ciscoGpbkvField2Json (f : TelemetryField) : (ciscoGpbkvField2Json f).Canonical := by
  obtain ⟨timestamp, name, value, fields, delete⟩ := f
  rw [ciscoGpbkvField2Json]
  exact canonical_fieldObject (Value.canonical_appended (canonical_ciscoGpbkvFields2Json fields))
    (canonical_fieldValue value) timestamp

theorem canonical_ciscoGpbkvFields2Json (fs : List TelemetryField) :
    ∀ x ∈ ciscoGpbkvFields2Json fs, x.Canonical := by
  match fs with
  | [] => simp [ciscoGpbkvFields2Json]
  | f :: fs =>
    rw [ciscoGpbkvFields2Json, List.forall_mem_cons]
    exact ⟨canonical_named (canonical_ciscoGpbkvField2Json f) f.name,
      canonical_ciscoGpbkvFields2Json fs⟩

end

theorem canonical_ciscoGpbkvRoot (m : Telemetry) : (ciscoGpbkvRoot m).toValue.Canonical := by
  refine Record.canonical_setAll Value.canonical_null fun e he => ?_
  simp only [List.mem_append, List.mem_map, List.mem_cons, List.not_mem_nil, or_false] at he
  rcases he with (⟨s, -, rfl⟩ | ⟨s, -, rfl⟩) | rfl | rfl | rfl | rfl | rfl | rfl
  iterate 3 exact Value.canonical_str _
  iterate 4 exact Value.canonical_ofUInt64 _
  exact Value.canonical_appended (canonical_ciscoGpbkvFields2Json m.dataGpbkv)

end MdtDialoutCollector.DataManipulation
