import MdtDialoutCollector.External.JsonCpp
import MdtDialoutCollector.External.Protobuf

/-! A protobuf runtime for messages that are no protobuf: every parse fails. It
satisfies the laws, and on such messages it answers as the runtime does. -/

namespace MdtDialoutCollector.External.Reference

open Json Proto Text

def protobuf : Protobuf where
  HeaderExtension := Unit
  Interfaces := Unit
  parseCisco _ := none
  parseHuawei _ := none
  parseHeader _ := none
  parseInterfaces _ := none
  systemId _ := []
  ciscoToJson _ := (false, [])
  headerToJson _ := (false, [])
  interfacesToJson _ := (false, [])

theorem protobuf_lawful (F : FloatText) : protobuf.Lawful F where
  cisco_nesting := nofun
  cisco_json := nofun
  header_json := nofun
  cisco_no_nul _ := by simp [protobuf]

end MdtDialoutCollector.External.Reference
