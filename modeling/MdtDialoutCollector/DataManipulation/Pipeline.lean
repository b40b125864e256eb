import MdtDialoutCollector.DataManipulation.EnvelopeBody
import MdtDialoutCollector.Utils.Parameters

/-! The pipeline that `BuildEnvelope` folds: `MetaData` parses the body and writes it into
an envelope, `AppendLabelMap` parses the envelope again and adds the labels. -/

namespace MdtDialoutCollector.DataManipulation

open Data External Json Labels Text Utils

/-- The root a parse leaves where the caller goes on: an empty text fails to parse and
leaves it null. `none` is the branch that returns `false`. -/
def parsedRoot (J : JsonCpp) (jsonStr : Bytes) : Except StdException (Option Value) :=
  match J.parse jsonStr with
  | .ok v => .ok (some v)
  | .error => .ok (if jsonStr = [] then some .null else none)
  | .throws => .error .runtimeError

/-- `root.clear()`, an error on anything but a null and the containers. -/
def clear : Value → Except StdException Value
  | .null => .ok .null
  | .arr _ => .ok (.arr [])
  | .obj _ => .ok (.obj [])
  | _ => .error .logicError

/-- `root[k] = x`. -/
def assign (root : Value) (k : Bytes) (x : Value) : Except StdException Value :=
  match root.assign? k x with
  | some v => .ok v
  | none => .error .logicError

def assignAll (root : Value) (ms : Members) : Except StdException Value :=
  ms.foldlM (fun root m => assign root m.1 m.2) root

/-- The text written, `none` where the call returns `false`, and the sequence number
after it. -/
def metaData (J : JsonCpp) (seq : UInt64) (timestamp : Int64) (mainCfgParameters : Params)
    (jsonStr peerIp peerPort : Bytes) : Except StdException (Option Bytes) × UInt64 :=
  match parsedRoot J jsonStr with
  | .error e => (.error e, seq)
  | .ok none => (.ok none, seq)
  | .ok (some telemetryJson) =>
    match clear telemetryJson with
    | .error e => (.error e, seq)
    | .ok root =>
      let seq := seq + 1
      let text := do
        let root ← assignAll root [(lit "event_type", .str (lit "gRPC")),
          (lit "serialization", .str (lit "json_string")), (lit "seq", .ofUInt64 seq),
          (lit "timestamp", .ofInt64 timestamp)]
        let writerId ← mainCfgParameters.atKey "writer_id"
        let root ← assignAll root [(lit "writer_id", .str writerId),
          (lit "telemetry_data", telemetryJson), (lit "telemetry_node", .str peerIp)]
        let port ← stoi peerPort
        let root ← assign root (lit "telemetry_port") (.int (port % 2 ^ 16))
        return some (J.writeString root)
      (text, seq)

def appendLabelMap (J : JsonCpp) (labelMap : LabelMap) (peerIp jsonStr : Bytes) :
    Except StdException (Option Bytes) := do
  match ← parsedRoot J jsonStr with
  | none => return none
  | some root =>
    let label ← labelValue labelMap peerIp
    let root ← assign root (lit "label") label
    return some (J.writeString root)

/-- The two of them as they were called, the second where labels are wanted. -/
def pipeline (J : JsonCpp) (seq : UInt64) (timestamp : Int64) (mainCfgParameters : Params)
    (jsonStr peerIp peerPort : Bytes) (labelMap : Option LabelMap) :
    Except StdException (Option Bytes) × UInt64 :=
  match metaData J seq timestamp mainCfgParameters jsonStr peerIp peerPort, labelMap with
  | (.ok (some text), seq), some m => (appendLabelMap J m peerIp text, seq)
  | result, _ => result

theorem assign_toValue (r : Record) (k : Bytes) (x : Value) :
    assign r.toValue k x = .ok (r.set k x).toValue := by
  rw [assign, Record.assign?_toValue]

theorem assignAll_toValue (r : Record) (ms : Members) :
    assignAll r.toValue ms = .ok (r.setAll ms).toValue := by
  induction ms generalizing r with
  | nil => rfl
  | cons m ms ih =>
    rw [assignAll, List.foldlM_cons, assign_toValue]
    exact ih (r.set m.1 m.2)

/-! ### What each of them does -/

theorem parsedRoot_of_ok {J : JsonCpp} {jsonStr : Bytes} {v : Value} (h : J.parse jsonStr = .ok v) :
    parsedRoot J jsonStr = .ok (some v) := by
  rw [parsedRoot, h]

theorem parsedRoot_of_throws {J : JsonCpp} {jsonStr : Bytes} (h : J.parse jsonStr = .throws) :
    parsedRoot J jsonStr = .error .runtimeError := by
  rw [parsedRoot, h]

section Envelope

variable (seq : UInt64) (timestamp : Int64) (writerId peerIp : Bytes) (port : ℤ) (data : Value)

/-- The members that both ways assign first. -/
def envelopeHeader : Members :=
  [(lit "event_type", .str (lit "gRPC")), (lit "serialization", .str (lit "json_string")),
    (lit "seq", .ofUInt64 seq), (lit "timestamp", .ofInt64 timestamp),
    (lit "writer_id", .str writerId)]

/-- `MetaData` assigns the body earlier than `BuildEnvelope` does. -/
theorem envelope_eq : envelope seq timestamp writerId peerIp port data none =
    (((Record.null.setAll (envelopeHeader seq timestamp writerId)).set (lit "telemetry_data") data).set
      (lit "telemetry_node") (.str peerIp)).set (lit "telemetry_port") (.int (port % 2 ^ 16)) := by
  set r := Record.null.setAll (envelopeHeader seq timestamp writerId) with hr
  have hsorted : r.toValue.KeysSorted := Record.keysSorted_setAll trivial
  have hnode : (r.set (lit "telemetry_node") (.str peerIp)).toValue.KeysSorted :=
    @Record.keysSorted_setAll [(lit "telemetry_node", .str peerIp)] r hsorted
  calc envelope seq timestamp writerId peerIp port data none
      = ((r.set (lit "telemetry_node") (.str peerIp)).set (lit "telemetry_port")
          (.int (port % 2 ^ 16))).set (lit "telemetry_data") data := rfl
    _ = ((r.set (lit "telemetry_node") (.str peerIp)).set (lit "telemetry_data") data).set
          (lit "telemetry_port") (.int (port % 2 ^ 16)) := Record.set_comm hnode (by decide) _ _
    _ = ((r.set (lit "telemetry_data") data).set (lit "telemetry_node") (.str peerIp)).set
          (lit "telemetry_port") (.int (port % 2 ^ 16)) := by
        rw [Record.set_comm hsorted (by decide)]

end Envelope

theorem metaData_of_ok {J : JsonCpp} {jsonStr : Bytes} {ms : Members}
    (hparse : J.parse jsonStr = .ok (.obj ms)) {mainCfgParameters : Params} {writerId : Bytes}
    (hwriter : mainCfgParameters.atKey "writer_id" = .ok writerId) (seq : UInt64) (timestamp : Int64)
    (peerIp peerPort : Bytes) :
    metaData J seq timestamp mainCfgParameters jsonStr peerIp peerPort =
      ((stoi peerPort).map fun port => some (J.writeString
        (envelope (seq + 1) timestamp writerId peerIp port (.obj ms) none).toValue), seq + 1) := by
  have hclear : clear (.obj ms) = .ok (Record.obj []).toValue := rfl
  simp only [metaData, parsedRoot_of_ok hparse, hclear, assignAll_toValue, hwriter, envelope_eq,
    bind, Except.bind]
  cases stoi peerPort with
  | error e => rfl
  | ok port =>
    simp only [assign_toValue]
    rfl

/-- The envelope is read back to be given its labels, if it is not nested too deep. -/
theorem appendLabelMap_written {J : JsonCpp} (hJ : J.Lawful) {r : Record}
    (hr : r.toValue.Canonical) (hnan : r.toValue.Every Value.NotNaN) (labelMap : LabelMap)
    (peerIp : Bytes) :
    appendLabelMap J labelMap peerIp (J.writeString r.toValue) =
      if r.toValue.depth ≤ stackLimit then
        .ok (some (J.writeString (r.set (lit "label") (labelsOf labelMap peerIp).toValue).toValue))
      else .error .runtimeError := by
  have hparse := hJ.parse_written r.toValue hr
  rw [Value.printed_eq_self hnan] at hparse
  by_cases hdepth : r.toValue.depth ≤ stackLimit
  · rw [if_pos hdepth] at hparse ⊢
    simp only [appendLabelMap, parsedRoot_of_ok hparse, labelValue_eq, bind, Except.bind,
      assign_toValue]
    rfl
  · rw [if_neg hdepth] at hparse ⊢
    simp only [appendLabelMap, parsedRoot_of_throws hparse, bind, Except.bind]

theorem depth_envelope_none_le (seq : UInt64) (timestamp : Int64) (writerId peerIp : Bytes)
    (port : ℤ) (data : Value) :
    (envelope seq timestamp writerId peerIp port data none).toValue.depth ≤ stackLimit ↔
      data.depth < stackLimit := by
  have hdata : (envelope seq timestamp writerId peerIp port data none) =
      (Record.null.setAll ((envelopeMembers seq timestamp writerId peerIp port data none).take 7)).set
        (lit "telemetry_data") data := rfl
  constructor
  · intro h
    rw [hdata] at h
    exact Nat.lt_succ_of_le (Record.depth_lt_of_set h)
  · intro h
    refine Record.depth_setAll_le (by decide) fun m hm => ?_
    simp only [envelopeMembers, Option.toList_none, List.map_nil, List.append_nil, List.mem_cons,
      List.not_mem_nil, or_false] at hm
    rcases hm with rfl | rfl | rfl | rfl | rfl | rfl | rfl | rfl
    iterate 7 exact Nat.le_add_left _ _
    exact Nat.le_of_lt_succ h

/-! ### The two ways -/

/-- `BuildEnvelope` with the number it counts up first. -/
def countedEnvelope (J : JsonCpp) (seq : UInt64) (timestamp : Int64)
    (telemetryBody peerIp peerPort : Bytes) (labelMap : Option LabelMap) (writerId : Bytes) :
    Except StdException Bytes × UInt64 :=
  (buildEnvelope J (seq + 1) timestamp telemetryBody peerIp peerPort labelMap writerId, seq + 1)

/-- Both ways succeed, with the same text and the same sequence number. -/
def Folds (J : JsonCpp) (seq : UInt64) (timestamp : Int64) (mainCfgParameters : Params)
    (body peerIp peerPort : Bytes) (labelMap : Option LabelMap) (writerId : Bytes) : Prop :=
  ∃ text after,
    countedEnvelope J seq timestamp body peerIp peerPort labelMap writerId = (.ok text, after) ∧
    pipeline J seq timestamp mainCfgParameters body peerIp peerPort labelMap = (.ok (some text), after)

section Lawful

variable {J : JsonCpp} (hJ : J.Lawful) {mainCfgParameters : Params} {writerId : Bytes}
  (hwriter : mainCfgParameters.atKey "writer_id" = .ok writerId)

include hJ hwriter

theorem pipeline_of_ok {body : Bytes} {ms : Members} (hparse : J.parse body = .ok (.obj ms))
    {peerPort : Bytes} {port : ℤ} (hport : stoi peerPort = .ok port) (seq : UInt64)
    (timestamp : Int64) (peerIp : Bytes) (labelMap : Option LabelMap) :
    pipeline J seq timestamp mainCfgParameters body peerIp peerPort labelMap =
      (if labelMap = none ∨ (Value.obj ms).depth < stackLimit then
        .ok (some (J.writeString (envelope (seq + 1) timestamp writerId peerIp port (.obj ms)
          (labelOf labelMap peerIp)).toValue))
      else .error .runtimeError, seq + 1) := by
  have hmeta := metaData_of_ok hparse hwriter seq timestamp peerIp peerPort
  rw [hport] at hmeta
  obtain ⟨hcan, hnan⟩ := hJ.parse_canonical body _ hparse
  unfold pipeline
  cases labelMap with
  | none =>
    rw [if_pos (.inl rfl), hmeta]
    rfl
  | some m =>
    have happend := appendLabelMap_written hJ
      (canonical_envelope (seq + 1) timestamp writerId peerIp port none hcan)
      (notNaN_envelope (seq + 1) timestamp writerId peerIp port none hnan) m peerIp
    have hdepth := depth_envelope_none_le (seq + 1) timestamp writerId peerIp port (.obj ms)
    have hiff : some m = none ∨ (Value.obj ms).depth < stackLimit ↔
        (envelope (seq + 1) timestamp writerId peerIp port (.obj ms)
          (labelOf none peerIp)).toValue.depth ≤ stackLimit := by
      rw [labelOf, Option.map_none, hdepth]
      simp
    rw [if_congr hiff rfl rfl, hmeta]
    simp only [Except.map]
    exact congrArg (·, seq + 1) happend

/-- For a body that is a JSON object and a port that is a decimal number, the two ways
agree exactly when `stoi` takes the port and no text is nested too deep for the reader. -/
theorem folds_iff {body : Bytes} {ms : Members} (hbody : strictTree J.floats body = some (.obj ms))
    {peerPort : Bytes} (hne : peerPort ≠ []) (hdigits : ∀ c ∈ peerPort, isDigit c = true)
    (seq : UInt64) (timestamp : Int64) (peerIp : Bytes) (labelMap : Option LabelMap) :
    Folds J seq timestamp mainCfgParameters body peerIp peerPort labelMap writerId ↔
      digitsValue peerPort < 2 ^ 31 ∧ (Value.obj ms).depth ≤ stackLimit ∧
        (labelMap = none ∨ (Value.obj ms).resolve.depth < stackLimit) := by
  have hport := stoi_decimal hne hdigits
  have hparse := hJ.parse_document body _ hbody
  have hresolve : (Value.obj ms).resolve = .obj (resolveObj [] ms) := by rw [Value.resolve]
  unfold Folds countedEnvelope
  rw [buildEnvelope_eq, hport]
  rw [hresolve] at hparse ⊢
  by_cases hlt : digitsValue peerPort < 2 ^ 31
  · rw [if_pos hlt] at hport ⊢
    by_cases hdepth : (Value.obj ms).depth ≤ stackLimit
    · rw [if_pos hdepth] at hparse
      have hfit : Fits J body := by
        rw [Fits, hparse]
        simp
      have hvalue : textValue J body = .obj (resolveObj [] ms) := by rw [textValue, hparse]
      have hpipe := pipeline_of_ok hJ hwriter hparse hport seq timestamp peerIp labelMap
      simp only [Except.bind, if_pos hfit, hvalue, hpipe, hlt, hdepth, true_and]
      by_cases hlabel : labelMap = none ∨ (Value.obj (resolveObj [] ms)).depth < stackLimit
      · rw [if_pos hlabel]
        exact iff_of_true ⟨_, _, rfl, rfl⟩ hlabel
      · rw [if_neg hlabel]
        refine iff_of_false ?_ hlabel
        rintro ⟨text, after, -, hfail⟩
        cases hfail
    · rw [if_neg hdepth] at hparse
      have hfit : ¬ Fits J body := by simp [Fits, hparse]
      simp only [Except.bind, if_neg hfit]
      refine iff_of_false ?_ fun h => hdepth h.2.1
      rintro ⟨text, after, hfail, -⟩
      cases hfail
  · rw [if_neg hlt]
    refine iff_of_false ?_ fun h => hlt h.1
    rintro ⟨text, after, hfail, -⟩
    cases hfail

end Lawful

/-! ### A body that is nested too deep -/

/-- An object with `n` objects inside one another. -/
def nested : ℕ → Value
  | 0 => .obj []
  | n + 1 => .obj [(lit "a", nested n)]

theorem depth_nested (n : ℕ) : (nested n).depth = n + 1 := by
  induction n with
  | zero => rfl
  | succ n ih => simp [nested, Value.depth, depthObj, ih]

theorem nested_plain (n : ℕ) : (nested n).Canonical ∧ (nested n).Every Value.NotNaN ∧
    (nested n).Strings validUtf8 := by
  have ha : validUtf8 (lit "a") = true := validUtf8_ascii (by decide)
  induction n with
  | zero =>
    refine ⟨⟨⟨List.Pairwise.nil, trivial⟩, trivial⟩, ⟨trivial, trivial⟩, ?_⟩
    exact (Value.strings_obj []).mpr (by simp)
  | succ n ih =>
    obtain ⟨hcan, hnan, hs⟩ := ih
    refine ⟨Record.canonical_set (r := .null) Value.canonical_null hcan,
      Record.notNaN_set (r := .null) trivial hnan, ?_⟩
    exact (Value.strings_obj _).mpr (by simpa using ⟨ha, hs⟩)

theorem strictTree_nested {J : JsonCpp} (hJ : J.Lawful) (n : ℕ) :
    strictTree J.floats (J.writeString (nested n)) = some (nested n) := by
  obtain ⟨hcan, hnan, hs⟩ := nested_plain n
  rw [hJ.written_tree _ hcan hs, Value.printed_eq_self hnan]

/-- A label map, the writer id of the defaults and an empty body. -/
theorem folds_braces :
    Folds Reference.jsonCpp 0 0 (Params.empty.emplace "writer_id" (lit "mdt-dialout-collector"))
      (Reference.jsonCpp.writeString (nested 0)) (lit "192.0.2.1") (lit "57400") (some .empty)
      (lit "mdt-dialout-collector") :=
  (folds_iff Reference.jsonCpp_lawful rfl
    (show strictTree _ _ = some (.obj []) from strictTree_nested Reference.jsonCpp_lawful 0)
    (by decide) (List.all_eq_true.mp (by decide)) 0 0 _ _).mpr
    ⟨by decide, by decide, .inr (by decide)⟩

/-- 1001 objects inside one another are JSON, and `BuildEnvelope` throws on them. -/
theorem nested_body_throws :
    (∃ ms, strictTree Reference.jsonCpp.floats (Reference.jsonCpp.writeString (nested 1000)) =
      some (.obj ms)) ∧
    ¬ Folds Reference.jsonCpp 0 0 (Params.empty.emplace "writer_id" (lit "mdt-dialout-collector"))
      (Reference.jsonCpp.writeString (nested 1000)) (lit "192.0.2.1") (lit "57400") none
      (lit "mdt-dialout-collector") := by
  have hJ := Reference.jsonCpp_lawful
  refine ⟨⟨[(lit "a", nested 999)], strictTree_nested hJ 1000⟩, ?_⟩
  rintro ⟨text, after, hbuild, -⟩
  have hfit : ¬ Fits Reference.jsonCpp (Reference.jsonCpp.writeString (nested 1000)) := by
    rw [fits_written hJ (nested_plain 1000).1, depth_nested]
    decide
  rw [countedEnvelope, buildEnvelope_eq, show stoi (lit "57400") = .ok 57400 by decide, Except.bind,
    if_neg hfit] at hbuild
  cases hbuild

end MdtDialoutCollector.DataManipulation
