import MdtDialoutCollector.DataManipulation.Envelope

/-! The two ways out of the collector. Kafka gets the envelope under the peer's address;
ZMQ gets a pointer to a payload of C strings copied from the data wrapper.
`deliver_payload` chooses by the delivery method of the worker. -/

namespace MdtDialoutCollector.Core

open DataManipulation External Labels Text

/-! ### The data wrapper and its payload -/

structure DataWrapper where
  sequenceNumber : UInt64 := 0
  eventType : Bytes := lit "gRPC"
  serialization : Bytes := lit "json_string"
  timestamp : Int64 := 0
  writerId : Bytes := lit "mdt-dialout-collector"
  telemetryNode : Bytes := lit "none"
  telemetryPort : Bytes := lit "none"
  telemetryData : Bytes := lit "none"

def buildDataWrapper (w : DataWrapper) (now : Int64) (eventType serialization writerId
    telemetryNode telemetryPort telemetryData : Bytes) : DataWrapper where
  sequenceNumber := w.sequenceNumber + 1
  eventType := eventType
  serialization := serialization
  timestamp := now
  writerId := writerId
  telemetryNode := telemetryNode
  telemetryPort := telemetryPort
  telemetryData := telemetryData

structure GrpcPayload where
  eventType : CString
  serialization : CString
  writerId : CString
  telemetryNode : CString
  telemetryPort : CString
  telemetryData : CString
  deriving DecidableEq

/-- Each argument is a `c_str()`, copied up to its first NUL byte. -/
def initGrpcPayload (eventType serialization writerId telemetryNode telemetryPort
    telemetryData : Bytes) : GrpcPayload where
  eventType := cStr eventType
  serialization := cStr serialization
  writerId := cStr writerId
  telemetryNode := cStr telemetryNode
  telemetryPort := cStr telemetryPort
  telemetryData := cStr telemetryData

/-! ### The senders -/

/-- What was passed to `producer.send` or to the ZMQ socket's `send`. -/
inductive Handed where
  | kafka (key value : Bytes)
  | zmq (pload : GrpcPayload)
  deriving DecidableEq

inductive SendResult where
  | accepted
  | again
  | zmqError
  deriving DecidableEq

/-- How the brokers answer: whether `producer.send` returns without a `KafkaException`,
and what the socket's `send` does under `dontwait`. -/
structure Transport where
  kafkaSend : Bytes → Bytes → Bool
  zmqSend : GrpcPayload → SendResult

/-- The value returned and what was passed to `producer.send`. -/
def asyncKafkaProducer (T : Transport) (peer jsonStr : Bytes) : Bool × List Handed :=
  if jsonStr.isEmpty then (false, [])
  else (T.kafkaSend peer jsonStr, [.kafka peer jsonStr])

def zmqPusher (T : Transport) (w : DataWrapper) : Bool × List Handed :=
  let pload := initGrpcPayload w.eventType w.serialization w.writerId w.telemetryNode
    w.telemetryPort w.telemetryData
  (T.zmqSend pload == .accepted, [.zmq pload])

/-! ### deliver_payload -/

inductive DeliveryMethod where
  | kafka
  | zmq
  deriving DecidableEq, Repr

/-- The context of a vendor's streams, with the two flags only Cisco has. -/
structure Context where
  labelMap : LabelMap
  maxReplies : ℕ
  delivery : DeliveryMethod
  writerId : Bytes
  labelEncode : Bool
  ciscoGpbkv2json : Bool
  ciscoMsgToJson : Bool

/-- The options a worker gets from a configuration that sets none of them. -/
def defaultContext (delivery : DeliveryMethod) : Context where
  labelMap := .empty
  maxReplies := 0
  delivery := delivery
  writerId := lit "mdt-dialout-collector"
  labelEncode := false
  ciscoGpbkv2json := true
  ciscoMsgToJson := false

/-- Brokers that take everything. -/
def acceptAll : Transport where
  kafkaSend _ _ := true
  zmqSend _ := .accepted

/-- The state a worker's messages change, with everything handed to the brokers so far. -/
structure Worker where
  sequenceNumber : UInt64 := 0
  dataWrapper : DataWrapper := {}
  handed : List Handed := []

def deliverPayload (J : JsonCpp) (T : Transport) (ctx : Context) (now : Int64)
    (body peerIp peerPort : Bytes) (w : Worker) : Except StdException Unit × Worker :=
  match ctx.delivery with
  | .kafka =>
    let w := { w with sequenceNumber := w.sequenceNumber + 1 }
    let labelMap := if ctx.labelEncode then some ctx.labelMap else none
    match buildEnvelope J w.sequenceNumber now body peerIp peerPort labelMap ctx.writerId with
    | .error e => (.error e, w)
    | .ok envelope =>
      (.ok (), { w with handed := w.handed ++ (asyncKafkaProducer T peerIp envelope).2 })
  | .zmq =>
    let dataWrapper := buildDataWrapper w.dataWrapper now (lit "gRPC") (lit "json_string")
      ctx.writerId peerIp peerPort body
    (.ok (), { w with
      dataWrapper := dataWrapper
      handed := w.handed ++ (zmqPusher T dataWrapper).2 })

end MdtDialoutCollector.Core
