import MdtDialoutCollector.Core.HandleMessage
import MdtDialoutCollector.DataManipulation.CiscoDepth
import MdtDialoutCollector.External.Reference

/-! When `HandleMessage` returns. The texts the collector writes itself are shallow, so
what can throw is a text of the device that nests too deep for the JSON reader: a raw
Cisco message, a Huawei `data_json`, a Juniper JSON value, and the tree of metrics a
Juniper notification spells with its paths. -/

namespace MdtDialoutCollector.Core

open DataManipulation External Json Proto Text Utils

/-- The updates of a notification: no text too deep and, where the record is parsed
again for the envelope, no tree too deep. -/
def ReadableNotification (J : JsonCpp) (ctx : Context) (jup : Gnmi.Notification) : Prop :=
  TextsFit J jup.update ∧
    (ctx.delivery = .kafka → (Value.obj (metricsTree J jup.update)).depth < stackLimit)

/-- A Cisco message for the Kafka path. -/
def ReadableCisco (J : JsonCpp) (P : Protobuf) (ctx : Context) (data : Bytes) : Prop :=
  match P.parseCisco data with
  | none => Fits J data
  | some tlm =>
    if tlm.dataGpbkv.isEmpty then tlm.dataGpb.isSome → Fits J data
    else ctx.ciscoGpbkv2json = false → ctx.ciscoMsgToJson = true →
      (P.ciscoToJson tlm).1 = true ∨ Fits J (P.ciscoToJson tlm).2

/-- The messages that bring no text or tree too deep for the JSON reader. -/
def Readable (J : JsonCpp) (P : Protobuf) (ctx : Context) : Message → Prop
  | .cisco data => ctx.delivery = .kafka → data ≠ [] → ReadableCisco J P ctx data
  | .juniper stream =>
    HeadersDecode P stream.extension → ∀ jup, stream.update = some jup → ReadableNotification J ctx jup
  | .nokia _ => True
  | .huawei (.dataJson text) => ctx.delivery = .kafka → Fits J text
  | .huawei _ => True

section Lawful

variable {J : JsonCpp} {P : Protobuf} (hJ : J.Lawful) (hP : P.Lawful J.floats)

include hJ hP

omit hP in
/-- Whatever rows were decoded, the text in `json_str_out` is shallow. -/
theorem fits_huaweiGpb (tlm : Huawei.Telemetry) :
    Fits J (huaweiGpbOpenconfigInterface J P tlm).2 := by
  rw [huaweiGpbOpenconfigInterface, huaweiRows_out]
  split_ifs
  · exact fits_nil hJ
  · exact (fits_written hJ (canonical_huaweiRoot tlm _)).mpr
      ((depth_huaweiRoot_le tlm _).trans (by decide))

/-- A Juniper message without a notification writes the header members only. -/
theorem juniperBodies_cases (stream : Gnmi.SubscribeResponse) :
    (¬HeadersDecode P stream.extension ∧ juniperBodies J P stream = .ok [[]]) ∨
    (HeadersDecode P stream.extension ∧ ∃ root, HeaderRoot root ∧
      ((stream.update = none ∧ juniperBodies J P stream = .ok [J.writeString root.toValue]) ∨
      ∃ jup, stream.update = some jup ∧
        ((TextsFit J jup.update ∧ juniperBodies J P stream =
          .ok [J.writeString (notificationRoot J jup root).toValue]) ∨
        (¬TextsFit J jup.update ∧ juniperBodies J P stream = .error .runtimeError)))) := by
  obtain ⟨ok, root, heq, hroot, hiff⟩ := juniperExtension_spec hJ hP stream.extension headerRoot_null
  unfold juniperBodies
  simp only [heq, bind, Except.bind]
  cases ok with
  | false => exact .inl ⟨fun h => by simpa using hiff.mpr h, rfl⟩
  | true =>
    refine .inr ⟨hiff.mp rfl, root, hroot, ?_⟩
    unfold juniperUpdate
    cases hup : stream.update with
    | none => exact .inl ⟨rfl, rfl⟩
    | some jup =>
      refine .inr ⟨jup, rfl, ?_⟩
      by_cases hfit : TextsFit J jup.update
      · refine .inl ⟨hfit, ?_⟩
        simp only [notificationMembers_of_fit hfit, if_true, bind, Except.bind]
      · refine .inr ⟨hfit, ?_⟩
        simp only [notificationMembers_of_not_fit hfit, if_true, bind, Except.bind]

end Lawful

end MdtDialoutCollector.Core
