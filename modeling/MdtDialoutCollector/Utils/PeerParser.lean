import MdtDialoutCollector.Text.Bytes

/-! `ParsePeer`: address and port of the peer string that gRPC reports. -/

namespace MdtDialoutCollector.Utils

open Text

structure PeerEndpoint where
  ip : Bytes := []
  port : Bytes := []
  deriving DecidableEq, Repr

def parsePeer (peer : Bytes) : PeerEndpoint :=
  match find peer 58 with
  | none => {}
  | some familySep =>
    let addrPort := peer.drop (familySep + 1)
    if addrPort.isEmpty then {}
    else if addrPort.head? = some 91 then
      match find addrPort 93 with
      | none => {}
      | some rb =>
        if addrPort.length < rb + 2 ∨ addrPort[rb + 1]? ≠ some 58 then {}
        else { ip := substr addrPort 1 (rb - 1), port := addrPort.drop (rb + 2) }
    else
      match rfind addrPort 58 with
      | none => {}
      | some portSep => { ip := addrPort.take portSep, port := addrPort.drop (portSep + 1) }

example : parsePeer (lit "ipv6:[2001:db8::1]:5678") = ⟨lit "2001:db8::1", lit "5678"⟩ := by decide

end MdtDialoutCollector.Utils
