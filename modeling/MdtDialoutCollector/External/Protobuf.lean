import MdtDialoutCollector.Json.Read
import MdtDialoutCollector.Proto.Messages

/-! The protobuf runtime as a parameter: parsing of the messages the collector decodes
itself, and `MessageToJsonString`, whose first component is the status. What a failed
conversion left in its output is part of the result. -/

namespace MdtDialoutCollector.External

open Json Proto Text

structure Protobuf where
  /-- `GnmiJuniperTelemetryHeaderExtension` -/
  HeaderExtension : Type
  /-- `openconfig_interfaces::Interfaces` -/
  Interfaces : Type
  parseCisco : Bytes → Option Cisco.Telemetry
  parseHuawei : Bytes → Option Huawei.Telemetry
  parseHeader : Bytes → Option HeaderExtension
  parseInterfaces : Bytes → Option Interfaces
  systemId : HeaderExtension → Bytes
  ciscoToJson : Cisco.Telemetry → Bool × Bytes
  headerToJson : HeaderExtension → Bool × Bytes
  interfacesToJson : Interfaces → Bool × Bytes

/-- The parser's default limit on nested messages. -/
def recursionLimit : ℕ := 100

/-- A converted message is a JSON document without NUL bytes. The telemetry header has
scalar fields only; the fields of a Cisco message are two levels of JSON each. -/
structure Protobuf.Lawful (P : Protobuf) (F : FloatText) : Prop where
  cisco_nesting : ∀ b m, P.parseCisco b = some m → Cisco.nestingList m.dataGpbkv ≤ recursionLimit
  cisco_json : ∀ m, (P.ciscoToJson m).1 = true → ∃ t,
    strictTree F (P.ciscoToJson m).2 = some t ∧ t.depth ≤ 2 * Cisco.nestingList m.dataGpbkv + 5
  header_json : ∀ h, (P.headerToJson h).1 = true → ∃ t,
    strictTree F (P.headerToJson h).2 = some t ∧ t.depth ≤ 2
  cisco_no_nul : ∀ m, 0 ∉ (P.ciscoToJson m).2

end MdtDialoutCollector.External
