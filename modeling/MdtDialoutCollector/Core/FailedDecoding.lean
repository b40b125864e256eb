import MdtDialoutCollector.Core.Returns

/-! What is handed over when decoding fails. The Juniper and Huawei bodies are delivered
whether or not their helper succeeded, and the status of a Cisco conversion is not
looked at, so a record goes out for every failed decoding unless the envelope around it
cannot be built. -/

namespace MdtDialoutCollector.Core

open DataManipulation External Json Proto Proto.Gnmi Text Utils

/-- A row that does not parse, or whose conversion to JSON fails. -/
def RowFails (P : Protobuf) (row : Huawei.TelemetryRowGpb) : Prop :=
  ∀ ocIf, P.parseInterfaces row.content = some ocIf → (P.interfacesToJson ocIf).1 = false

/-- A helper returns false or `MessageToJsonString` gives a status that is not OK. -/
def DecodingFails (J : JsonCpp) (P : Protobuf) (ctx : Context) : Message → Prop
  | .cisco data => data ≠ [] ∧ ∃ tlm, P.parseCisco data = some tlm ∧ tlm.dataGpbkv ≠ [] ∧
      (ctx.ciscoGpbkv2json = true ∧ (ciscoGpbkv2Json J tlm).1 = false ∨
        ctx.ciscoGpbkv2json = false ∧ ctx.ciscoMsgToJson = true ∧ (P.ciscoToJson tlm).1 = false)
  | .juniper stream => ¬HeadersDecode P stream.extension
  | .nokia stream => (nokiaUpdate J stream .null).1 = false
  | .huawei stream => stream.getData ≠ [] ∧ ∃ tlm, P.parseHuawei stream.getData = some tlm ∧
      decodesRows tlm = true ∧ ∃ row ∈ tlm.dataGpb.getD [], RowFails P row

/-- The text a failed conversion of a Cisco message left in its output. -/
def failedText (P : Protobuf) : Message → Option Bytes
  | .cisco data => (P.parseCisco data).map fun tlm => (P.ciscoToJson tlm).2
  | _ => none

/-- Nothing in Kafka mode gets past a port that is no number or a text that is too deep. -/
def EnvelopeFails (J : JsonCpp) (P : Protobuf) (ctx : Context) (peer : PeerEndpoint)
    (msg : Message) : Prop :=
  ctx.delivery = .kafka ∧ ((∀ port, stoi peer.port ≠ .ok port) ∨
    ∃ text, failedText P msg = some text ∧ ¬Fits J text)

section Lawful

variable {J : JsonCpp} {P : Protobuf} (hJ : J.Lawful) (hP : P.Lawful J.floats)

include hJ

/-- A body alone is handed over exactly when the envelope can be built. -/
theorem deliverAll_singleton_handed (T : Transport) (ctx : Context) (now : Int64)
    (peer : PeerEndpoint) (body : Bytes) (w : Worker) :
    (deliverAll J T ctx now peer [body] w).2.handed = w.handed ↔
      ctx.delivery = .kafka ∧ ∀ port, stoi peer.port = .ok port → ¬Fits J body := by
  rw [deliverAll]
  cases h : ctx.delivery with
  | zmq =>
    obtain ⟨w', pload, heq, hw, -⟩ := deliverPayload_zmq (J := J) (T := T) now body peer w h
    simp [heq, deliverAll, hw]
  | kafka =>
    by_cases hbad : ∀ port, stoi peer.port = .ok port → ¬Fits J body
    · obtain ⟨e, w', heq, hw⟩ := deliverPayload_throws (T := T) now body peer w h hbad
      simp only [heq, hw]
      simpa using hbad
    · obtain ⟨port, hport, hfit⟩ : ∃ port, stoi peer.port = .ok port ∧ Fits J body := by
        simpa using hbad
      obtain ⟨w', value, heq, hw⟩ := deliverPayload_kafka (T := T) now body peer w hJ h hport hfit
      simp [heq, deliverAll, hw, hport, hfit]

include hP

/-- The one body a message whose decoding failed passes on. -/
theorem bodies_of_decodingFails (ctx : Context) {msg : Message} (h : DecodingFails J P ctx msg) :
    ∃ body, bodies J P ctx msg = .ok [body] ∧
      (¬Fits J body ↔ ∃ text, failedText P msg = some text ∧ ¬Fits J text) := by
  cases msg with
  | cisco data =>
    obtain ⟨hne, tlm, hparse, hkv, ⟨-, hfalse⟩ | ⟨hflag, hmsg, -⟩⟩ := h
    · cases hfalse
    · refine ⟨(P.ciscoToJson tlm).2, ?_, by simp [failedText, hparse]⟩
      simp [bodies, ciscoBodies, hne, hparse, hkv, hflag, hmsg]
  | juniper stream =>
    rcases juniperBodies_cases hJ hP stream with ⟨-, heq⟩ | ⟨hyes, -⟩
    · exact ⟨[], heq, by simp [failedText, fits_nil hJ]⟩
    · exact absurd hyes h
  | nokia stream => cases h
  | huawei stream =>
    obtain ⟨hne, tlm, hparse, hrows, -⟩ := h
    cases stream with
    | data b =>
      refine ⟨(huaweiGpbOpenconfigInterface J P tlm).2, ?_,
        by simp [failedText, fits_huaweiGpb hJ]⟩
      simp only [Huawei.MessageData.getData] at hne hparse
      simp [bodies, huaweiBodies_data, hne, hparse, hrows]
    | dataJson text => exact absurd rfl hne
    | unset => exact absurd rfl hne

/-- A failed decoding hands nothing over only where the envelope fails as well. -/
theorem failed_decoding_withheld_iff (T : Transport) (ctx : Context) (now : Int64) (peer : Bytes)
    (msg : Message) (w : Worker) :
    (DecodingFails J P ctx msg → (handleMessage J P T ctx now peer msg w).2.handed = w.handed) ↔
      (DecodingFails J P ctx msg → EnvelopeFails J P ctx (parsePeer peer) msg) := by
  refine imp_congr_right fun hfail => ?_
  obtain ⟨body, hbodies, hfit⟩ := bodies_of_decodingFails hJ hP ctx hfail
  simp only [handleMessage, hbodies, deliverAll_singleton_handed hJ, EnvelopeFails, ← hfit]
  refine and_congr_right fun _ => ?_
  constructor
  · intro h
    by_cases hport : ∀ port, stoi (parsePeer peer).port ≠ .ok port
    · exact .inl hport
    · push Not at hport
      obtain ⟨port, hport⟩ := hport
      exact .inr (h port hport)
  · rintro (h | h) port hport
    · exact absurd hport (h port)
    · exact h

end Lawful

theorem failed_decoding_withheld_portless :
    DecodingFails Reference.jsonCpp Reference.protobuf (defaultContext .kafka)
        (.juniper ⟨none, [.registeredExt juniperTelemetryHeader [255]]⟩) ∧
      (handleMessage Reference.jsonCpp Reference.protobuf acceptAll (defaultContext .kafka) 0 []
        (.juniper ⟨none, [.registeredExt juniperTelemetryHeader [255]]⟩) {}).2.handed = [] := by
  have hfail : DecodingFails Reference.jsonCpp Reference.protobuf (defaultContext .kafka)
      (.juniper ⟨none, [.registeredExt juniperTelemetryHeader [255]]⟩) := by
    intro h
    obtain ⟨header, hparse, -⟩ := h [255] List.mem_cons_self
    cases hparse
  refine ⟨hfail, ?_⟩
  apply (failed_decoding_withheld_iff Reference.jsonCpp_lawful (Reference.protobuf_lawful _)
    acceptAll (defaultContext .kafka) 0 [] _ {}).mpr
  · intro _
    exact ⟨rfl, .inl (by simp [parsePeer, find, stoi])⟩
  · exact hfail

/-- A telemetry header that does not parse is delivered as an empty body. -/
theorem undecoded_header_delivered :
    DecodingFails Reference.jsonCpp Reference.protobuf (defaultContext .kafka)
        (.juniper ⟨none, [.registeredExt juniperTelemetryHeader [255]]⟩) ∧
      (handleMessage Reference.jsonCpp Reference.protobuf acceptAll (defaultContext .kafka) 0
        (lit "ipv4:192.0.2.1:57400")
        (.juniper ⟨none, [.registeredExt juniperTelemetryHeader [255]]⟩) {}).2.handed ≠ [] := by
  have hport : stoi (parsePeer (lit "ipv4:192.0.2.1:57400")).port = .ok 57400 := by decide
  refine ⟨fun h => ?_, fun h => ?_⟩
  · obtain ⟨header, hparse, -⟩ := h [255] List.mem_cons_self
    cases hparse
  · have hnone := (deliverAll_singleton_handed Reference.jsonCpp_lawful acceptAll
      (defaultContext .kafka) 0 (parsePeer (lit "ipv4:192.0.2.1:57400")) [] {}).mp h
    exact hnone.2 _ hport (fits_nil Reference.jsonCpp_lawful)

end MdtDialoutCollector.Core
