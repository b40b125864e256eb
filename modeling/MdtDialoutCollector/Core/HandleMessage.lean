import MdtDialoutCollector.Core.Delivery
import MdtDialoutCollector.DataManipulation.Cisco
import MdtDialoutCollector.DataManipulation.Huawei
import MdtDialoutCollector.DataManipulation.Juniper
import MdtDialoutCollector.DataManipulation.Nokia
import MdtDialoutCollector.Utils.PeerParser

/-! `HandleMessage` of the four streams. Decoding has no effect on what is delivered, so
a message is first turned into the bodies it passes to `deliver_payload`, in order, and
these are then delivered until one of the calls throws. -/

namespace MdtDialoutCollector.Core

open DataManipulation External Json Proto Text Utils

/-- A message as gRPC hands it over, on the stream of its vendor. -/
inductive Message where
  | cisco (data : Bytes)
  | juniper (stream : Gnmi.SubscribeResponse)
  | nokia (stream : Gnmi.SubscribeResponse)
  | huawei (stream : Huawei.MessageData)

/-! ### Decoding -/

def ciscoBodies (J : JsonCpp) (P : Protobuf) (ctx : Context) (data : Bytes) : List Bytes :=
  if data.isEmpty then []
  else match P.parseCisco data with
  | some tlm =>
    if !tlm.dataGpbkv.isEmpty then
      if ctx.ciscoGpbkv2json then
        let (ok, out) := ciscoGpbkv2Json J tlm
        if ok then [out] else []
      else if ctx.ciscoMsgToJson then [(P.ciscoToJson tlm).2]
      else []
    else if tlm.dataGpb.isSome then [data]
    else []
  | none => [data]

/-- The output is delivered whether or not the helpers succeed. -/
def juniperBodies (J : JsonCpp) (P : Protobuf) (stream : Gnmi.SubscribeResponse) :
    Except StdException (List Bytes) := do
  let (ok, root) ← juniperExtension J P stream.extension .null
  if ok then do
    let (_, out) ← juniperUpdate J stream root
    .ok [out]
  else .ok [[]]

def nokiaBodies (J : JsonCpp) (stream : Gnmi.SubscribeResponse) : List Bytes :=
  [(nokiaUpdate J stream .null).2]

/-- A message whose rows the helper decodes. -/
def decodesRows (tlm : Huawei.Telemetry) : Bool :=
  tlm.dataGpb.isSome && tlm.protoPath == lit "openconfig_interfaces.Interfaces"

def huaweiBodies (J : JsonCpp) (P : Protobuf) (stream : Huawei.MessageData) : List Bytes :=
  let gpb :=
    if stream.getData.isEmpty then []
    else match P.parseHuawei stream.getData with
    | some tlm => if decodesRows tlm then [(huaweiGpbOpenconfigInterface J P tlm).2] else []
    | none => []
  gpb ++ if stream.getDataJson.isEmpty then [] else [stream.getDataJson]

def bodies (J : JsonCpp) (P : Protobuf) (ctx : Context) : Message → Except StdException (List Bytes)
  | .cisco data => .ok (ciscoBodies J P ctx data)
  | .juniper stream => juniperBodies J P stream
  | .nokia stream => .ok (nokiaBodies J stream)
  | .huawei stream => .ok (huaweiBodies J P stream)

/-! ### Delivery -/

def deliverAll (J : JsonCpp) (T : Transport) (ctx : Context) (now : Int64) (peer : PeerEndpoint) :
    List Bytes → Worker → Except StdException Unit × Worker
  | [], w => (.ok (), w)
  | body :: rest, w =>
    match deliverPayload J T ctx now body peer.ip peer.port w with
    | (.ok (), w) => deliverAll J T ctx now peer rest w
    | (.error e, w) => (.error e, w)

/-- The result of the call, and the worker with what was handed over before it ended. -/
def handleMessage (J : JsonCpp) (P : Protobuf) (T : Transport) (ctx : Context) (now : Int64)
    (peer : Bytes) (msg : Message) (w : Worker) : Except StdException Unit × Worker :=
  match bodies J P ctx msg with
  | .ok bs => deliverAll J T ctx now (parsePeer peer) bs w
  | .error e => (.error e, w)

/-! ### What a body does -/

section Delivery

variable {J : JsonCpp} {T : Transport} {ctx : Context} (now : Int64) (body : Bytes)
  (peer : PeerEndpoint) (w : Worker)

theorem deliverPayload_zmq (h : ctx.delivery = .zmq) :
    ∃ w' pload, deliverPayload J T ctx now body peer.ip peer.port w = (.ok (), w') ∧
      w'.handed = w.handed ++ [.zmq pload] ∧ pload.telemetryData = cStr body := by
  unfold deliverPayload
  simp only [h]
  exact ⟨_, _, rfl, rfl, rfl⟩

theorem deliverPayload_kafka (hJ : J.Lawful) (h : ctx.delivery = .kafka) {port : ℤ}
    (hport : stoi peer.port = .ok port) (hfit : Fits J body) :
    ∃ w' value, deliverPayload J T ctx now body peer.ip peer.port w = (.ok (), w') ∧
      w'.handed = w.handed ++ [.kafka peer.ip value] := by
  have henv : ∀ seq label, (J.writeString (envelope seq now ctx.writerId peer.ip port
      (textValue J body) (labelOf label peer.ip)).toValue).isEmpty = false := fun seq label => by
    rw [List.isEmpty_eq_false_iff]
    exact hJ.writeString_ne_nil (canonical_envelope seq now _ _ port label
      (textValue_canonical hJ body).1)
  unfold deliverPayload
  simp only [h, buildEnvelope_eq, hport, Except.bind, if_pos hfit, asyncKafkaProducer, henv]
  exact ⟨_, _, rfl, rfl⟩

/-- A call that throws has handed nothing over. -/
theorem deliverPayload_throws (h : ctx.delivery = .kafka)
    (hbad : ∀ port, stoi peer.port = .ok port → ¬Fits J body) :
    ∃ e w', deliverPayload J T ctx now body peer.ip peer.port w = (.error e, w') ∧
      w'.handed = w.handed := by
  unfold deliverPayload
  simp only [h, buildEnvelope_eq]
  cases hport : stoi peer.port with
  | error e => exact ⟨e, _, rfl, rfl⟩
  | ok n =>
    simp only [Except.bind, if_neg (hbad n hport)]
    exact ⟨.runtimeError, _, rfl, rfl⟩

end Delivery

/-! ### The bodies of a message -/

section Bodies

variable (J : JsonCpp) (P : Protobuf) (ctx : Context)

/-- `data` and `data_json` are one `oneof`: only one of the two parts delivers. -/
theorem huaweiBodies_data (b : Bytes) :
    huaweiBodies J P (.data b) =
      if b.isEmpty then []
      else match P.parseHuawei b with
      | some tlm => if decodesRows tlm then [(huaweiGpbOpenconfigInterface J P tlm).2] else []
      | none => [] := by
  simp [huaweiBodies, Huawei.MessageData.getData, Huawei.MessageData.getDataJson]

theorem huaweiBodies_dataJson (text : Bytes) :
    huaweiBodies J P (.dataJson text) = if text.isEmpty then [] else [text] := by
  simp [huaweiBodies, Huawei.MessageData.getData, Huawei.MessageData.getDataJson]

end Bodies

end MdtDialoutCollector.Core
