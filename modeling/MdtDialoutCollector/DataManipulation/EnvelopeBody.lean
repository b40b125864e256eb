import MdtDialoutCollector.DataManipulation.Envelope
import MdtDialoutCollector.External.JsonCpp

/-! What a strict reader of the envelope finds under `telemetry_data`. The body is kept
when it is one JSON document, or when the parser rejects it and it is UTF-8; a parser
that accepts a prefix, or more than JSON, loses the rest of the body, and a string that
is not UTF-8 makes the envelope no JSON at all. -/

namespace MdtDialoutCollector.DataManipulation

open Data External Json Labels Text

/-- The value a body stands for: its own where it is one JSON document, else a string. -/
def denoted (J : JsonCpp) (body : Bytes) : Value := (strictRead J.floats body).getD (.str body)

def CarriesBody (J : JsonCpp) (envelope body : Bytes) : Prop :=
  ∃ root, strictRead J.floats envelope = some root ∧
    root.get? (lit "telemetry_data") = some (denoted J body)

/-- The texts of the envelope that do not come from the body. -/
def HeaderUtf8 (writerId peerIp : Bytes) (labelMap : Option LabelMap) : Prop :=
  validUtf8 writerId = true ∧ validUtf8 peerIp = true ∧
    ∀ m, labelMap = some m → (labelsOf m peerIp).toValue.Strings validUtf8

/-- A JSON document, or text that the parser rejects. -/
def KeepsBody (J : JsonCpp) (body : Bytes) : Prop :=
  (∃ v, strictRead J.floats body = some v) ∨ J.parse body = .error ∧ validUtf8 body = true

theorem strings_str {q : Bytes → Bool} (s : Bytes) : (Value.str s).Strings q ↔ q s = true := by
  simp [Value.Strings, Value.Every, Value.ownStrings]

theorem strings_int {q : Bytes → Bool} (n : ℤ) : (Value.int n).Strings q := by
  simp [Value.Strings, Value.Every, Value.ownStrings]

section Envelope

variable (seq : UInt64) (now : Int64) (writerId peerIp : Bytes) (port : ℤ) {telemetryData : Value}
  (labelMap : Option LabelMap)

theorem get?_envelope {k : Bytes} {x : Value} {label : Option Value}
    (h : (k, x) ∈ envelopeMembers seq now writerId peerIp port telemetryData label) :
    (envelope seq now writerId peerIp port telemetryData label).toValue.get? k = some x := by
  refine Record.get?_setAll_of_mem h ?_ .null
  cases label with
  | none => exact (by decide : ([lit "event_type", lit "serialization", lit "seq",
      lit "timestamp", lit "writer_id", lit "telemetry_node", lit "telemetry_port",
      lit "telemetry_data"] : List Bytes).Nodup)
  | some l => exact (by decide : ([lit "event_type", lit "serialization", lit "seq",
      lit "timestamp", lit "writer_id", lit "telemetry_node", lit "telemetry_port",
      lit "telemetry_data", lit "label"] : List Bytes).Nodup)

theorem get?_telemetryData (label : Option Value) :
    (envelope seq now writerId peerIp port telemetryData label).toValue.get? (lit "telemetry_data") =
      some telemetryData :=
  get?_envelope seq now writerId peerIp port (by simp [envelopeMembers])

theorem notNaN_labelsOf (m : LabelMap) : (labelsOf m peerIp).toValue.Every Value.NotNaN := by
  unfold labelsOf
  split <;>
  · refine Record.notNaN_setAll trivial fun m hm => ?_
    simp only [List.mem_cons, List.not_mem_nil, or_false] at hm
    rcases hm with rfl | rfl <;> trivial

theorem notNaN_envelope (h : telemetryData.Every Value.NotNaN) :
    (envelope seq now writerId peerIp port telemetryData
      (labelOf labelMap peerIp)).toValue.Every Value.NotNaN := by
  refine Record.notNaN_setAll trivial fun m hm => ?_
  simp only [envelopeMembers, labelOf, List.mem_append, List.mem_cons, List.not_mem_nil, or_false,
    List.mem_map, Option.mem_toList, Option.map_eq_some_iff] at hm
  rcases hm with (rfl | rfl | rfl | rfl | rfl | rfl | rfl | rfl) | ⟨l, ⟨lm, -, rfl⟩, rfl⟩
  iterate 7 trivial
  · exact h
  · exact notNaN_labelsOf peerIp lm

/-- The envelope is UTF-8 where the texts around the body and the body's value are. -/
theorem strings_envelope_iff :
    (envelope seq now writerId peerIp port telemetryData
      (labelOf labelMap peerIp)).toValue.Strings validUtf8 ↔
      HeaderUtf8 writerId peerIp labelMap ∧ telemetryData.Strings validUtf8 := by
  constructor
  · intro h
    have hmem : ∀ k x, (k, x) ∈ envelopeMembers seq now writerId peerIp port telemetryData
        (labelOf labelMap peerIp) → x.Strings validUtf8 := fun k x hx =>
      Value.every_of_get? h (get?_envelope seq now writerId peerIp port hx)
    refine ⟨⟨?_, ?_, fun m hm => ?_⟩, ?_⟩
    · exact (strings_str writerId).mp (hmem (lit "writer_id") _ (by simp [envelopeMembers]))
    · exact (strings_str peerIp).mp (hmem (lit "telemetry_node") _ (by simp [envelopeMembers]))
    · exact hmem (lit "label") _ (by simp [envelopeMembers, labelOf, hm])
    · exact hmem (lit "telemetry_data") _ (by simp [envelopeMembers])
  · rintro ⟨⟨hw, hip, hl⟩, hd⟩
    refine Record.strings_setAll (by simp [Value.Strings, Value.Every, Value.ownStrings,
      Record.toValue]) fun m hm => ?_
    simp only [envelopeMembers, labelOf, List.mem_append, List.mem_cons, List.not_mem_nil, or_false,
      List.mem_map, Option.mem_toList, Option.map_eq_some_iff] at hm
    have key : ∀ s : String, ((lit s).all fun c => c < 0x80) = true → validUtf8 (lit s) = true :=
      fun _ => validUtf8_ascii
    rcases hm with (rfl | rfl | rfl | rfl | rfl | rfl | rfl | rfl) | ⟨l, ⟨lm, hlm, rfl⟩, rfl⟩
    · exact ⟨key _ (by decide), (strings_str _).mpr (key _ (by decide))⟩
    · exact ⟨key _ (by decide), (strings_str _).mpr (key _ (by decide))⟩
    · exact ⟨key _ (by decide), strings_int _⟩
    · exact ⟨key _ (by decide), strings_int _⟩
    · exact ⟨key _ (by decide), (strings_str _).mpr hw⟩
    · exact ⟨key _ (by decide), (strings_str _).mpr hip⟩
    · exact ⟨key _ (by decide), strings_int _⟩
    · exact ⟨key _ (by decide), hd⟩
    · exact ⟨key _ (by decide), hl lm hlm⟩

end Envelope

/-! ### The body in the envelope -/

section Lawful

variable {J : JsonCpp} (hJ : J.Lawful)

include hJ

/-- Strictly read, an envelope is the record it was written from or no JSON at all. -/
theorem strictRead_envelope (seq : UInt64) (now : Int64) (writerId peerIp : Bytes) (port : ℤ)
    (labelMap : Option LabelMap) (body : Bytes) (root : Value) :
    strictRead J.floats (J.writeString (envelope seq now writerId peerIp port (textValue J body)
      (labelOf labelMap peerIp)).toValue) = some root ↔
      root = (envelope seq now writerId peerIp port (textValue J body)
        (labelOf labelMap peerIp)).toValue ∧
      HeaderUtf8 writerId peerIp labelMap ∧ (textValue J body).Strings validUtf8 := by
  obtain ⟨hcan, hnan⟩ := textValue_canonical hJ body
  have hcan := canonical_envelope seq now writerId peerIp port labelMap hcan
  have hnan := notNaN_envelope seq now writerId peerIp port labelMap hnan
  rw [← strings_envelope_iff seq now writerId peerIp port labelMap]
  by_cases hs : (envelope seq now writerId peerIp port (textValue J body)
      (labelOf labelMap peerIp)).toValue.Strings validUtf8
  · rw [hJ.strictRead_written hcan hnan hs, Option.some.injEq]
    exact ⟨fun h => ⟨h.symm, hs⟩, fun h => h.1.symm⟩
  · rw [hJ.strictRead_written_none hcan hs]
    exact iff_of_false nofun fun h => hs h.2

/-- What the envelope says about the body is right exactly on the bodies that are kept. -/
theorem textValue_denoted_iff {body : Bytes} (hfit : Fits J body) :
    (textValue J body = denoted J body ∧ (textValue J body).Strings validUtf8) ↔ KeepsBody J body := by
  unfold KeepsBody denoted
  cases hread : strictRead J.floats body with
  | some v =>
    have hparse : J.parse body = .ok v := (hJ.parse_of_strictRead hread).resolve_right hfit
    have hval : textValue J body = v := by rw [textValue, hparse]
    rw [hval]
    exact iff_of_true ⟨rfl, strings_of_strictRead hread⟩ (.inl ⟨v, rfl⟩)
  | none =>
    simp only [Option.getD_none, reduceCtorEq, exists_false, false_or]
    constructor
    · rintro ⟨hval, hs⟩
      rw [hval, strings_str] at hs
      refine ⟨?_, hs⟩
      cases hparse : J.parse body with
      | error => rfl
      | throws => exact absurd hparse hfit
      | ok v =>
        -- a string that is parsed is shorter than its text
        rw [textValue, hparse] at hval
        have hlt := hJ.parse_str body body (hval ▸ hparse)
        exact absurd hlt (Nat.lt_irrefl _)
    · rintro ⟨hparse, hs⟩
      have hval : textValue J body = .str body := by rw [textValue, hparse]
      exact ⟨hval, by rwa [hval, strings_str]⟩

theorem carriesBody_envelope_iff (seq : UInt64) (now : Int64) (writerId peerIp : Bytes) (port : ℤ)
    (labelMap : Option LabelMap) {body : Bytes} (hfit : Fits J body) :
    CarriesBody J (J.writeString (envelope seq now writerId peerIp port (textValue J body)
      (labelOf labelMap peerIp)).toValue) body ↔
      HeaderUtf8 writerId peerIp labelMap ∧ KeepsBody J body := by
  rw [← textValue_denoted_iff hJ hfit]
  unfold CarriesBody
  simp only [strictRead_envelope hJ]
  constructor
  · rintro ⟨root, ⟨rfl, hheader, hs⟩, hget⟩
    rw [get?_telemetryData, Option.some.injEq] at hget
    exact ⟨hheader, hget, hs⟩
  · rintro ⟨hheader, hval, hs⟩
    refine ⟨_, ⟨rfl, hheader, hs⟩, ?_⟩
    rw [← hval]
    exact get?_telemetryData seq now writerId peerIp port _

/-- Of the envelopes that are built, those around a kept body between UTF-8 texts carry it. -/
theorem buildEnvelope_carries_iff {seq : UInt64} {now : Int64} {body peerIp peerPort : Bytes}
    {labelMap : Option LabelMap} {writerId text : Bytes}
    (h : buildEnvelope J seq now body peerIp peerPort labelMap writerId = .ok text) :
    CarriesBody J text body ↔ HeaderUtf8 writerId peerIp labelMap ∧ KeepsBody J body := by
  rw [buildEnvelope_eq] at h
  cases hport : stoi peerPort with
  | error e => simp [hport, Except.bind] at h
  | ok port =>
    simp only [hport, Except.bind] at h
    split_ifs at h with hfit
    injection h with h
    rw [← h]
    exact carriesBody_envelope_iff hJ seq now writerId peerIp port labelMap hfit

end Lawful

theorem buildEnvelope_carries_braces :
    CarriesBody Reference.jsonCpp (Reference.jsonCpp.writeString (envelope 1 0 (lit "collector")
      (lit "192.0.2.1") 57400 (textValue Reference.jsonCpp (lit "{}")) none).toValue) (lit "{}") :=
  (buildEnvelope_carries_iff Reference.jsonCpp_lawful
    (buildEnvelope_of_fits (show stoi (lit "57400") = .ok 57400 by decide)
      (show Fits Reference.jsonCpp (lit "{}") by decide) 1 0 (lit "192.0.2.1") none
      (lit "collector"))).mpr
    ⟨⟨validUtf8_ascii (by decide), validUtf8_ascii (by decide), nofun⟩, .inl ⟨.obj [], rfl⟩⟩

/-- What follows the number in `1 x` is not in the envelope. -/
theorem trailing_bytes_dropped :
    ∃ text, buildEnvelope Reference.jsonCpp 1 0 (lit "1 x") (lit "192.0.2.1") (lit "57400") none
      (lit "collector") = .ok text ∧ ¬CarriesBody Reference.jsonCpp text (lit "1 x") := by
  refine ⟨_, buildEnvelope_of_fits (show stoi (lit "57400") = .ok 57400 by decide)
    (show Fits Reference.jsonCpp (lit "1 x") by decide) 1 0 _ none _, ?_⟩
  rintro ⟨root, hroot, hget⟩
  obtain ⟨rfl, -⟩ := (strictRead_envelope Reference.jsonCpp_lawful 1 0 _ _ 57400 none
    (lit "1 x") root).mp hroot
  have hvalue : textValue Reference.jsonCpp (lit "1 x") = .int 1 := rfl
  have hdenoted : denoted Reference.jsonCpp (lit "1 x") = .str (lit "1 x") := rfl
  rw [get?_telemetryData, hvalue, hdenoted] at hget
  cases hget

end MdtDialoutCollector.DataManipulation
