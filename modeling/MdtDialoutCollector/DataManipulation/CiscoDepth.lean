import MdtDialoutCollector.DataManipulation.Cisco
import MdtDialoutCollector.DataManipulation.Envelope
import MdtDialoutCollector.External.Reference

/-! The body that `CiscoGpbkv2Json` writes, as `BuildEnvelope` reads it again. Its depth follows
from the levels of the fields, and those that protobuf can parse are far from the limit. -/

namespace MdtDialoutCollector.DataManipulation

open External Json Labels Proto Proto.Cisco Text

section Lawful

variable {J : JsonCpp} (hJ : J.Lawful)

include hJ

/-- What is read back from a body within the limit is the value it was written from. -/
theorem parse_ciscoGpbkv2Json {tlm : Telemetry} (hnest : nestingList tlm.dataGpbkv ≤ 100) :
    J.parse (ciscoGpbkv2Json J tlm).2 = .ok (ciscoGpbkvRoot tlm).toValue.printed := by
  have hdepth := depth_ciscoGpbkvRoot tlm
  have hlimit : (ciscoGpbkvRoot tlm).toValue.depth ≤ stackLimit := by
    rw [stackLimit]
    omega
  rw [ciscoGpbkv2Json, hJ.parse_written _ (canonical_ciscoGpbkvRoot tlm), if_pos hlimit]

theorem fits_of_nesting {tlm : Telemetry} (hnest : nestingList tlm.dataGpbkv ≤ 100) :
    Fits J (ciscoGpbkv2Json J tlm).2 := by
  rw [Fits, parse_ciscoGpbkv2Json hJ hnest]
  simp

/-- Three levels of JSON for each level of fields, and two around them. -/
theorem ciscoGpbkv2Json_depth (tlm : Telemetry) {d : ℕ}
    (hnest : nestingList tlm.dataGpbkv ≤ d) :
    (ciscoGpbkvRoot tlm).toValue.depth ≤ 3 * d + 2 ∧
      (ciscoGpbkv2Json J tlm).2 = J.writeString (ciscoGpbkvRoot tlm).toValue ∧
      (d ≤ 100 → (ciscoGpbkvRoot tlm).toValue.depth < stackLimit ∧
        J.parse (ciscoGpbkv2Json J tlm).2 = .ok (ciscoGpbkvRoot tlm).toValue.printed ∧
        ∀ (seq : UInt64) (now : Int64) (peerIp peerPort : Bytes) (port : ℤ)
          (labelMap : Option LabelMap) (writerId : Bytes), stoi peerPort = .ok port →
          ∃ text, buildEnvelope J seq now (ciscoGpbkv2Json J tlm).2 peerIp peerPort labelMap
            writerId = .ok text) := by
  have hdepth := depth_ciscoGpbkvRoot tlm
  refine ⟨by omega, rfl, fun hparser => ?_⟩
  have hlevels : nestingList tlm.dataGpbkv ≤ 100 := hnest.trans hparser
  refine ⟨?_, parse_ciscoGpbkv2Json hJ hlevels, ?_⟩
  · rw [stackLimit]
    omega
  · intro seq now peerIp peerPort port labelMap writerId hport
    exact ⟨_, buildEnvelope_of_fits hport (fits_of_nesting hJ hlevels) seq now peerIp labelMap
      writerId⟩

end Lawful

/-- A field with another one below it, both of them named and with a time stamp. -/
def twoLevels : Telemetry where
  nodeIdStr := none
  subscriptionIdStr := none
  encodingPath := lit "interfaces"
  modelVersion := []
  collectionId := 1
  collectionStartTime := 0
  msgTimestamp := 0
  dataGpbkv := [⟨1, lit "interface", none,
    [⟨1, lit "mtu", some (.uint32Value 1500), [], false⟩], false⟩]
  dataGpb := none
  collectionEndTime := 0

/-- The bound is reached. -/
example : (ciscoGpbkvRoot twoLevels).toValue.depth = 3 * 2 + 2 := by decide

theorem ciscoGpbkv2Json_depth_twoLevels :
    (ciscoGpbkvRoot twoLevels).toValue.depth ≤ 3 * 2 + 2 ∧
      ∃ text, buildEnvelope Reference.jsonCpp 1 0 (ciscoGpbkv2Json Reference.jsonCpp twoLevels).2
        (lit "192.0.2.1") (lit "57400") none (lit "collector") = .ok text := by
  have hnest : nestingList twoLevels.dataGpbkv ≤ 2 := by decide
  obtain ⟨hdepth, -, hread⟩ := ciscoGpbkv2Json_depth Reference.jsonCpp_lawful twoLevels hnest
  exact ⟨hdepth, (hread (by decide)).2.2 1 0 _ _ 57400 none _ (by decide)⟩

end MdtDialoutCollector.DataManipulation
