import MdtDialoutCollector.Core.Envelopes
import MdtDialoutCollector.DataManipulation.EnvelopeBody
import MdtDialoutCollector.Text.Number
import MdtDialoutCollector.Utils.PeerForms

/-! The port of a peer, from the string that gRPC reports to the member of the envelope. The
parser takes any text for a port and the encoder converts it as it comes. -/

namespace MdtDialoutCollector.Core

open DataManipulation External Json Text Utils

/-- One of the two forms, with a port that begins with the number of a port. -/
def HasPort (peer : Bytes) : Prop :=
  ∃ e, Prints peer e ∧ ∃ n : ℕ, Number e.port n ∧ n ≤ 65535

/-- The call comes back, and the envelope has the number that the port begins with. -/
def PortDelivered (J : JsonCpp) (T : Transport) (ctx : Context) (now : Int64) (peer body : Bytes)
    (w : Worker) : Prop :=
  ∃ (n : ℕ) (r : Record), n ≤ 65535 ∧ stoi (parsePeer peer).port = .ok n ∧
    envelopeOf J ctx now (parsePeer peer) (w.sequenceNumber + 1) body = some r ∧
    r.toValue.get? (lit "telemetry_port") = some (.int n) ∧
    deliverPayload J T ctx now body (parsePeer peer).ip (parsePeer peer).port w = (.ok (), { w with
      sequenceNumber := w.sequenceNumber + 1
      handed := w.handed ++ (asyncKafkaProducer T (parsePeer peer).ip (J.writeString r.toValue)).2 })

theorem hasPort_iff {peer : Bytes} :
    HasPort peer ↔ ∃ n : ℕ, stoi (parsePeer peer).port = .ok n ∧ n ≤ 65535 := by
  constructor
  · rintro ⟨e, he, n, hn, hle⟩
    rw [parsePeer_of_prints he]
    exact ⟨n, stoi_ok_iff.mpr ⟨hn, by omega, by omega⟩, hle⟩
  · rintro ⟨n, hn, hle⟩
    rcases prints_parsePeer peer with hrefused | hprints
    · rw [hrefused] at hn
      cases hn
    · exact ⟨_, hprints, n, (stoi_ok_iff.mp hn).1, hle⟩

theorem get?_telemetryPort (seq : UInt64) (now : Int64) (writerId peerIp : Bytes) {n : ℕ}
    (hn : n ≤ 65535) (telemetryData : Value) (label : Option Value) :
    (envelope seq now writerId peerIp n telemetryData label).toValue.get? (lit "telemetry_port") =
      some (.int n) := by
  have hcast : ((n : ℤ) % 2 ^ 16) = n := by omega
  refine get?_envelope seq now writerId peerIp n ?_
  rw [envelopeMembers, hcast]
  simp

section Delivery

variable {J : JsonCpp} {T : Transport} {ctx : Context} {now : Int64}

/-- In Kafka mode a message gets through with the port of its peer where there is one. -/
theorem port_delivered_iff (h : ctx.delivery = .kafka) (peer body : Bytes) (w : Worker) :
    PortDelivered J T ctx now peer body w ↔ HasPort peer ∧ Fits J body := by
  rw [hasPort_iff]
  constructor
  · rintro ⟨n, r, hle, hport, henvelope, -⟩
    refine ⟨⟨n, hport, hle⟩, ?_⟩
    by_contra hfit
    rw [envelopeOf, hport] at henvelope
    simp [hfit] at henvelope
  · rintro ⟨⟨n, hport, hle⟩, hfit⟩
    have hdeliver := deliverPayload_envelope (J := J) now T h (parsePeer peer) body w
    rw [envelopeOf_of_fits hport hfit] at hdeliver
    exact ⟨n, _, hle, hport, envelopeOf_of_fits hport hfit _, get?_telemetryPort _ _ _ _ hle _ _,
      hdeliver⟩

end Delivery

theorem port_delivered_documentation :
    PortDelivered Reference.jsonCpp acceptAll (defaultContext .kafka) 0
      (lit "ipv4:192.0.2.1:57400") (lit "{}") {} := by
  have hnumber : Number (lit "57400") (57400 : ℕ) := (stoi_ok_iff.mp (by decide)).1
  have hprints : Prints (plainPeer (lit "ipv4") (lit "192.0.2.1") (lit "57400"))
      ⟨lit "192.0.2.1", lit "57400"⟩ := .plain (by decide) (by decide) (by decide)
  exact (port_delivered_iff rfl _ _ _).mpr ⟨⟨_, hprints, 57400, hnumber, by decide⟩, by decide⟩

/-- A peer without a port ends the call, whatever it has sent. -/
theorem portless_peer_throws :
    (deliverPayload Reference.jsonCpp acceptAll (defaultContext .kafka) 0 (lit "{}")
        (parsePeer (lit "unix:/run/telemetry.sock")).ip
        (parsePeer (lit "unix:/run/telemetry.sock")).port {}).1 = .error .invalidArgument ∧
      ¬PortDelivered Reference.jsonCpp acceptAll (defaultContext .kafka) 0
        (lit "unix:/run/telemetry.sock") (lit "{}") {} := by
  have hparse : parsePeer (lit "unix:/run/telemetry.sock") = {} := by decide
  rw [hparse]
  refine ⟨rfl, ?_⟩
  rintro ⟨n, r, -, hport, -⟩
  rw [hparse] at hport
  cases hport

end MdtDialoutCollector.Core
