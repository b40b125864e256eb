import MdtDialoutCollector.Json.Value

/-! The protobuf messages of the four vendors, with the fields the collector reads.
A `oneof` is an option or a sum, a `map` field is the list of its entries in iteration
order with distinct keys, and a single-precision field is the double it converts to. -/

namespace MdtDialoutCollector.Proto

open Json Text

/-! ### Cisco -/

namespace Cisco

inductive ValueByType where
  | bytesValue (b : Bytes)
  | stringValue (s : Bytes)
  | boolValue (b : Bool)
  | uint32Value (n : UInt32)
  | uint64Value (n : UInt64)
  | sint32Value (n : Int32)
  | sint64Value (n : Int64)
  | doubleValue (d : Double)
  | floatValue (d : Double)
  deriving DecidableEq, Repr

structure TelemetryField where
  timestamp : UInt64
  name : Bytes
  value : Option ValueByType
  fields : List TelemetryField
  delete : Bool

structure TelemetryRowGpb where
  timestamp : UInt64
  keys : Bytes
  content : Bytes

structure Telemetry where
  nodeIdStr : Option Bytes
  subscriptionIdStr : Option Bytes
  encodingPath : Bytes
  modelVersion : Bytes
  collectionId : UInt64
  collectionStartTime : UInt64
  msgTimestamp : UInt64
  dataGpbkv : List TelemetryField
  dataGpb : Option (List TelemetryRowGpb)
  collectionEndTime : UInt64

mutual

/-- Levels of fields, where a field without sub-fields is one level. -/
def TelemetryField.nesting : TelemetryField → ℕ
  | ⟨_, _, _, fields, _⟩ => nestingList fields + 1

def nestingList : List TelemetryField → ℕ
  | [] => 0
  | f :: fs => max f.nesting (nestingList fs)

end

end Cisco

/-! ### gNMI, for Juniper and Nokia -/

namespace Gnmi

inductive TypedValue where
  | stringVal (s : Bytes)
  | intVal (n : Int64)
  | uintVal (n : UInt64)
  | boolVal (b : Bool)
  | bytesVal (b : Bytes)
  | floatVal (d : Double)
  | doubleVal (d : Double)
  | decimalVal (digits : Int64) (precision : UInt32)
  | leaflistVal (element : List TypedValue)
  | anyVal (typeUrl value : Bytes)
  | jsonVal (text : Bytes)
  | jsonIetfVal (text : Bytes)
  | asciiVal (s : Bytes)
  | protoBytes (b : Bytes)

structure PathElem where
  name : Bytes
  key : List (Bytes × Bytes)
  nodup : (key.map Prod.fst).Nodup := by decide
  deriving DecidableEq

structure Update where
  path : List PathElem
  val : Option TypedValue

structure Notification where
  timestamp : Int64
  pathPrefix : List PathElem
  update : List Update

inductive Extension where
  | registeredExt (id : ℤ) (msg : Bytes)
  | masterArbitration

/-- `EID_JUNIPER_TELEMETRY_HEADER`. -/
def juniperTelemetryHeader : ℤ := 1

structure SubscribeResponse where
  update : Option Notification
  extension : List Extension

end Gnmi

/-! ### Huawei -/

namespace Huawei

structure TelemetryRowGpb where
  timestamp : UInt64
  content : Bytes

structure Telemetry where
  nodeIdStr : Bytes
  subscriptionIdStr : Bytes
  sensorPath : Bytes
  protoPath : Bytes
  collectionId : UInt64
  collectionStartTime : UInt64
  msgTimestamp : UInt64
  dataGpb : Option (List TelemetryRowGpb)
  collectionEndTime : UInt64
  currentPeriod : UInt32
  exceptDesc : Bytes
  productName : Bytes
  encoding : Int32
  softwareVersion : Bytes

/-- The two payload fields are members of one `oneof`. -/
inductive MessageData where
  | data (b : Bytes)
  | dataJson (text : Bytes)
  | unset

def MessageData.getData : MessageData → Bytes
  | .data b => b
  | _ => []

def MessageData.getDataJson : MessageData → Bytes
  | .dataJson t => t
  | _ => []

end Huawei

end MdtDialoutCollector.Proto
