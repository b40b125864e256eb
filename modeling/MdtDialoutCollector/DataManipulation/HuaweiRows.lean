import MdtDialoutCollector.DataManipulation.Huawei
import MdtDialoutCollector.External.Reference
import Mathlib.Data.List.Forall2

/-! What `HuaweiGpbOpenconfigInterface` leaves in `json_str_out`. The output is written once
a row, so it is never written for a message without rows and stays written when a later
row does not parse. -/

namespace MdtDialoutCollector.DataManipulation

open External Json Proto.Huawei Text

variable {J : JsonCpp} {P : Protobuf} {tlm : Telemetry}

def gpbRows (huaweiTlm : Telemetry) : List TelemetryRowGpb := huaweiTlm.dataGpb.getD []

/-- The call, with `json_str_out` as it was before. -/
def huaweiInto (J : JsonCpp) (P : Protobuf) (huaweiTlm : Telemetry) (out : Bytes) : Bool × Bytes :=
  huaweiRows J P huaweiTlm (gpbRows huaweiTlm) [] out

theorem huaweiInto_nil (J : JsonCpp) (P : Protobuf) (tlm : Telemetry) :
    huaweiInto J P tlm [] = huaweiGpbOpenconfigInterface J P tlm := rfl

/-- The text is the JSON of the row. -/
def RowJson (P : Protobuf) (row : TelemetryRowGpb) (text : Bytes) : Prop :=
  ∃ ocIf, P.parseInterfaces row.content = some ocIf ∧ P.interfacesToJson ocIf = (true, text)

/-- Whatever the output was before: it is written in full where all rows parse, and kept
where one does not. -/
def WrittenOrKept (J : JsonCpp) (P : Protobuf) (tlm : Telemetry) : Prop :=
  ∀ out,
    ((huaweiInto J P tlm out).1 = true ↔
      ∀ row ∈ gpbRows tlm, (P.parseInterfaces row.content).isSome = true) ∧
    ((huaweiInto J P tlm out).1 = true → ∃ decoded, List.Forall₂ (RowJson P) (gpbRows tlm) decoded ∧
      (huaweiInto J P tlm out).2 = J.writeString (huaweiRoot tlm decoded).toValue) ∧
    ((huaweiInto J P tlm out).1 = false → (huaweiInto J P tlm out).2 = out)

/-- Once a row is decoded, nothing is left of the output before. -/
theorem huaweiRows_cons {row : TelemetryRowGpb} {ocIf : P.Interfaces}
    (h : P.parseInterfaces row.content = some ocIf) (rows : List TelemetryRowGpb)
    (decoded : List Bytes) (out out' : Bytes) :
    huaweiRows J P tlm (row :: rows) decoded out = huaweiRows J P tlm (row :: rows) decoded out' := by
  simp only [huaweiRows, h]

/-- The text written last holds all rows. -/
theorem huaweiRows_of_rowJson {rows : List TelemetryRowGpb} {texts : List Bytes}
    (h : List.Forall₂ (RowJson P) rows texts) (decoded : List Bytes) {out : Bytes}
    (hout : out = J.writeString (huaweiRoot tlm decoded).toValue) :
    huaweiRows J P tlm rows decoded out =
      (true, J.writeString (huaweiRoot tlm (decoded ++ texts)).toValue) := by
  induction h generalizing decoded out with
  | nil => rw [huaweiRows, hout, List.append_nil]
  | @cons row text rows texts hrow _ ih =>
    obtain ⟨ocIf, hparse, hjson⟩ := hrow
    simp only [huaweiRows, hparse, hjson]
    rw [ih (decoded ++ [text]) rfl, List.append_assoc]
    rfl

theorem exists_rowJson {rows : List TelemetryRowGpb} (h : ∀ row ∈ rows, ∃ text, RowJson P row text) :
    ∃ texts, List.Forall₂ (RowJson P) rows texts := by
  induction rows with
  | nil => exact ⟨[], .nil⟩
  | cons row rows ih =>
    obtain ⟨hrow, hrows⟩ := List.forall_mem_cons.mp h
    obtain ⟨text, htext⟩ := hrow
    obtain ⟨texts, htexts⟩ := ih hrows
    exact ⟨text :: texts, .cons htext htexts⟩

theorem exists_rowJson_of_mem {rows : List TelemetryRowGpb} {texts : List Bytes}
    (h : List.Forall₂ (RowJson P) rows texts) : ∀ row ∈ rows, ∃ text, RowJson P row text := by
  induction h with
  | nil => exact fun row hrow => absurd hrow List.not_mem_nil
  | cons hrow _ ih => exact List.forall_mem_cons.mpr ⟨⟨_, hrow⟩, ih⟩

theorem WrittenOrKept.rows_ne_nil (h : WrittenOrKept J P tlm) : gpbRows tlm ≠ [] := by
  intro hnil
  have hkept : ∀ out, huaweiInto J P tlm out = (true, out) := by
    intro out
    rw [huaweiInto, hnil]
    rfl
  have hwritten : ∀ out, out = J.writeString (huaweiRoot tlm []).toValue := by
    intro out
    obtain ⟨decoded, hdecoded, hout⟩ := (h out).2.1 (congrArg Prod.fst (hkept out))
    rw [hnil, List.forall₂_nil_left_iff] at hdecoded
    rw [hkept, hdecoded] at hout
    exact hout
  exact List.cons_ne_nil 0 [] ((hwritten [0]).trans (hwritten []).symm)

/-- With the first row decoded nothing can be kept, so all rows are written. -/
theorem WrittenOrKept.rowJson (h : WrittenOrKept J P tlm) {row : TelemetryRowGpb}
    {rows : List TelemetryRowGpb} {ocIf : P.Interfaces} (hrows : gpbRows tlm = row :: rows)
    (hparse : P.parseInterfaces row.content = some ocIf) :
    ∀ row ∈ gpbRows tlm, ∃ text, RowJson P row text := by
  have hsame : ∀ out, huaweiInto J P tlm out = huaweiInto J P tlm [] := by
    intro out
    rw [huaweiInto, huaweiInto, hrows]
    exact huaweiRows_cons hparse rows [] out []
  cases hok : (huaweiInto J P tlm []).1 with
  | false =>
    have hkept : ∀ out, (huaweiInto J P tlm []).2 = out := by
      intro out
      rw [← hsame out]
      exact (h out).2.2 (by rw [hsame, hok])
    exact absurd ((hkept [0]).symm.trans (hkept [])) (List.cons_ne_nil 0 [])
  | true =>
    obtain ⟨decoded, hdecoded, -⟩ := (h []).2.1 hok
    exact exists_rowJson_of_mem hdecoded

theorem writtenOrKept_of_none {row : TelemetryRowGpb} {rows : List TelemetryRowGpb}
    (hrows : gpbRows tlm = row :: rows) (hparse : P.parseInterfaces row.content = none) :
    WrittenOrKept J P tlm := by
  intro out
  have hfails : huaweiInto J P tlm out = (false, out) := by
    rw [huaweiInto, hrows]
    simp only [huaweiRows, hparse]
  refine ⟨huaweiRows_ok J P tlm _ [] out, ?_, fun _ => by rw [hfails]⟩
  rw [hfails]
  exact Bool.false_ne_true.elim

theorem writtenOrKept_of_rowJson (hne : gpbRows tlm ≠ [])
    (hall : ∀ row ∈ gpbRows tlm, ∃ text, RowJson P row text) : WrittenOrKept J P tlm := by
  intro out
  obtain ⟨texts, htexts⟩ := exists_rowJson hall
  obtain ⟨row, rows, hrows⟩ := List.exists_cons_of_ne_nil hne
  obtain ⟨text, ocIf, hparse, -⟩ := hall row (hrows ▸ List.mem_cons_self)
  have hwritten : huaweiInto J P tlm out =
      (true, J.writeString (huaweiRoot tlm texts).toValue) := by
    have hloop : huaweiRows J P tlm (gpbRows tlm) [] (J.writeString (huaweiRoot tlm []).toValue) =
        (true, J.writeString (huaweiRoot tlm texts).toValue) :=
      huaweiRows_of_rowJson htexts [] rfl
    rw [hrows] at hloop
    rw [huaweiInto, hrows, huaweiRows_cons hparse rows [] out _]
    exact hloop
  refine ⟨huaweiRows_ok J P tlm _ [] out, fun _ => ⟨texts, htexts, ?_⟩, ?_⟩
  · rw [hwritten]
  · rw [hwritten]
    exact nofun

theorem written_or_kept_iff (J : JsonCpp) (P : Protobuf) (tlm : Telemetry) :
    WrittenOrKept J P tlm ↔
      (∃ row rows, gpbRows tlm = row :: rows ∧ P.parseInterfaces row.content = none) ∨
      gpbRows tlm ≠ [] ∧ ∀ row ∈ gpbRows tlm, ∃ text, RowJson P row text := by
  constructor
  · intro h
    obtain ⟨row, rows, hrows⟩ := List.exists_cons_of_ne_nil h.rows_ne_nil
    cases hparse : P.parseInterfaces row.content with
    | none => exact .inl ⟨row, rows, hrows, hparse⟩
    | some ocIf => exact .inr ⟨h.rows_ne_nil, h.rowJson hrows hparse⟩
  · rintro (⟨row, rows, hrows, hparse⟩ | ⟨hne, hall⟩)
    · exact writtenOrKept_of_none hrows hparse
    · exact writtenOrKept_of_rowJson hne hall

/-- A message with the encoding GPB and no row. -/
def rowless : Telemetry where
  nodeIdStr := lit "HUAWEI"
  subscriptionIdStr := []
  sensorPath := lit "openconfig-interfaces:interfaces"
  protoPath := lit "openconfig_interfaces.Interfaces"
  collectionId := 1
  collectionStartTime := 0
  msgTimestamp := 0
  dataGpb := some []
  collectionEndTime := 0
  currentPeriod := 60
  exceptDesc := lit "OK"
  productName := []
  encoding := 0
  softwareVersion := []

theorem rowless_not_written :
    ¬∀ tlm, WrittenOrKept Reference.jsonCpp Reference.protobuf tlm := by
  intro h
  exact (h rowless).rows_ne_nil rfl

end MdtDialoutCollector.DataManipulation
