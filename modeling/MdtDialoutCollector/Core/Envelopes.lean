import MdtDialoutCollector.Core.HandleMessage

/-! The envelopes that a message is turned into, as the records `BuildEnvelope` writes. In
Kafka mode their texts are what is handed over, and the worker's number goes up by one
for each. -/

namespace MdtDialoutCollector.Core

open DataManipulation External Json Labels Proto Text Utils

/-- The record that `BuildEnvelope` writes, where it comes back. -/
def envelopeOf (J : JsonCpp) (ctx : Context) (now : Int64) (peer : PeerEndpoint) (seq : UInt64)
    (body : Bytes) : Option Record :=
  match stoi peer.port with
  | .ok port =>
    if Fits J body then
      some (envelope seq now ctx.writerId peer.ip port (textValue J body)
        (labelOf (if ctx.labelEncode then some ctx.labelMap else none) peer.ip))
    else none
  | .error _ => none

/-- The envelopes of the bodies that are delivered; `seq` is the number before the first. -/
def bodyEnvelopes (J : JsonCpp) (ctx : Context) (now : Int64) (peer : PeerEndpoint) :
    List Bytes → UInt64 → List Record
  | [], _ => []
  | body :: rest, seq =>
    match ctx.delivery with
    | .zmq => []
    | .kafka =>
      match envelopeOf J ctx now peer (seq + 1) body with
      | some r => r :: bodyEnvelopes J ctx now peer rest (seq + 1)
      | none => []

/-- The envelopes of a message on a worker with this number. -/
def messageEnvelopes (J : JsonCpp) (P : Protobuf) (ctx : Context) (now : Int64) (peer : Bytes)
    (msg : Message) (seq : UInt64) : List Record :=
  match bodies J P ctx msg with
  | .ok bs => bodyEnvelopes J ctx now (parsePeer peer) bs seq
  | .error _ => []

section Delivery

variable {J : JsonCpp} {ctx : Context} {now : Int64}

theorem envelopeOf_of_fits {peer : PeerEndpoint} {port : ℤ} {body : Bytes}
    (hport : stoi peer.port = .ok port) (hfit : Fits J body) (seq : UInt64) :
    envelopeOf J ctx now peer seq body = some (envelope seq now ctx.writerId peer.ip port
      (textValue J body)
      (labelOf (if ctx.labelEncode then some ctx.labelMap else none) peer.ip)) := by
  rw [envelopeOf, hport]
  exact if_pos hfit

variable (ctx now) in
theorem buildEnvelope_ok_iff (peer : PeerEndpoint) (seq : UInt64) (body text : Bytes) :
    buildEnvelope J seq now body peer.ip peer.port
        (if ctx.labelEncode then some ctx.labelMap else none) ctx.writerId = .ok text ↔
      ∃ r, envelopeOf J ctx now peer seq body = some r ∧ J.writeString r.toValue = text := by
  rw [buildEnvelope_eq, envelopeOf]
  cases stoi peer.port with
  | error e => simp [Except.bind]
  | ok port =>
    by_cases hfit : Fits J body <;> simp [Except.bind, hfit]

variable (now) in
/-- In Kafka mode a body is handed over as its envelope, or the call throws. -/
theorem deliverPayload_envelope (T : Transport) (h : ctx.delivery = .kafka) (peer : PeerEndpoint)
    (body : Bytes) (w : Worker) :
    match envelopeOf J ctx now peer (w.sequenceNumber + 1) body with
    | some r => deliverPayload J T ctx now body peer.ip peer.port w = (.ok (), { w with
        sequenceNumber := w.sequenceNumber + 1
        handed := w.handed ++ (asyncKafkaProducer T peer.ip (J.writeString r.toValue)).2 })
    | none => ∃ e, deliverPayload J T ctx now body peer.ip peer.port w =
        (.error e, { w with sequenceNumber := w.sequenceNumber + 1 }) := by
  have hbuilt := buildEnvelope_ok_iff (J := J) ctx now peer
    (w.sequenceNumber + 1) body
  unfold deliverPayload
  simp only [h]
  cases hbuild : buildEnvelope J (w.sequenceNumber + 1) now body peer.ip peer.port
      (if ctx.labelEncode then some ctx.labelMap else none) ctx.writerId with
  | ok text =>
    obtain ⟨r, hr, rfl⟩ := (hbuilt text).mp hbuild
    rw [hr]
  | error e =>
    cases hr : envelopeOf J ctx now peer (w.sequenceNumber + 1) body with
    | none => exact ⟨e, rfl⟩
    | some r =>
      rw [(hbuilt _).mpr ⟨r, hr, rfl⟩] at hbuild
      cases hbuild

/-- A Huawei text is delivered as it came. -/
theorem messageEnvelopes_dataJson (P : Protobuf) (h : ctx.delivery = .kafka) {peer text : Bytes}
    (htext : text ≠ []) {port : ℤ} (hport : stoi (parsePeer peer).port = .ok port)
    (hfit : Fits J text) (seq : UInt64) :
    messageEnvelopes J P ctx now peer (.huawei (.dataJson text)) seq =
      [envelope (seq + 1) now ctx.writerId (parsePeer peer).ip port (textValue J text)
        (labelOf (if ctx.labelEncode then some ctx.labelMap else none) (parsePeer peer).ip)] := by
  have hbodies : bodies J P ctx (.huawei (.dataJson text)) = .ok [text] := by
    rw [bodies, huaweiBodies_dataJson, if_neg (by simpa using htext)]
  rw [messageEnvelopes, hbodies]
  simp only [bodyEnvelopes, h, envelopeOf_of_fits hport hfit]

variable (now) in
theorem handleMessage_dataJson (P : Protobuf) (T : Transport) (h : ctx.delivery = .kafka)
    {peer text : Bytes} (htext : text ≠ []) {port : ℤ}
    (hport : stoi (parsePeer peer).port = .ok port) (hfit : Fits J text) (w : Worker) :
    ∃ w', handleMessage J P T ctx now peer (.huawei (.dataJson text)) w = (.ok (), w') := by
  have hbodies : bodies J P ctx (.huawei (.dataJson text)) = .ok [text] := by
    rw [bodies, huaweiBodies_dataJson, if_neg (by simpa using htext)]
  have hdeliver := deliverPayload_envelope (J := J) now T h (parsePeer peer) text w
  rw [envelopeOf_of_fits hport hfit] at hdeliver
  rw [handleMessage, hbodies]
  simp only [deliverAll, hdeliver]
  exact ⟨_, rfl⟩

theorem deliverAll_handed (T : Transport) (h : ctx.delivery = .kafka) (peer : PeerEndpoint)
    (bs : List Bytes) (w : Worker) :
    (deliverAll J T ctx now peer bs w).2.handed = w.handed ++
      (bodyEnvelopes J ctx now peer bs w.sequenceNumber).flatMap fun r =>
        (asyncKafkaProducer T peer.ip (J.writeString r.toValue)).2 := by
  induction bs generalizing w with
  | nil => exact (List.append_nil _).symm
  | cons body rest ih =>
    have hdeliver := deliverPayload_envelope (J := J) now T h peer body w
    rw [deliverAll, bodyEnvelopes]
    simp only [h]
    cases hr : envelopeOf J ctx now peer (w.sequenceNumber + 1) body with
    | some r =>
      rw [hr] at hdeliver
      simp only [hdeliver, ih, List.flatMap_cons, List.append_assoc]
    | none =>
      rw [hr] at hdeliver
      obtain ⟨e, hdeliver⟩ := hdeliver
      simp only [hdeliver, List.flatMap_nil, List.append_nil]

theorem bodyEnvelopes_zmq (h : ctx.delivery = .zmq) (peer : PeerEndpoint) (bs : List Bytes)
    (seq : UInt64) : bodyEnvelopes J ctx now peer bs seq = [] := by
  cases bs with
  | nil => rfl
  | cons body rest => rw [bodyEnvelopes, h]

/-- A call that comes back has counted the envelopes it has built. -/
theorem deliverAll_sequenceNumber (T : Transport) (peer : PeerEndpoint) {bs : List Bytes}
    {w w' : Worker} (hok : deliverAll J T ctx now peer bs w = (.ok (), w')) :
    w'.sequenceNumber = w.sequenceNumber +
      UInt64.ofNat (bodyEnvelopes J ctx now peer bs w.sequenceNumber).length := by
  induction bs generalizing w with
  | nil =>
    cases hok
    exact (UInt64.add_zero _).symm
  | cons body rest ih =>
    rw [deliverAll] at hok
    cases h : ctx.delivery with
    | zmq =>
      simp only [deliverPayload, h] at hok
      have hnumber := ih hok
      rw [bodyEnvelopes_zmq h] at hnumber ⊢
      exact hnumber
    | kafka =>
      have hdeliver := deliverPayload_envelope (J := J) now T h peer body w
      rw [bodyEnvelopes, h]
      cases hr : envelopeOf J ctx now peer (w.sequenceNumber + 1) body with
      | none =>
        rw [hr] at hdeliver
        obtain ⟨e, hdeliver⟩ := hdeliver
        rw [hdeliver] at hok
        cases hok
      | some r =>
        rw [hr] at hdeliver
        rw [hdeliver] at hok
        rw [ih hok, List.length_cons, UInt64.ofNat_add, UInt64.add_assoc,
          UInt64.add_comm (UInt64.ofNat _)]
        rfl

theorem mem_asyncKafkaProducer {T : Transport} {key text : Bytes} {x : Handed}
    (h : x ∈ (asyncKafkaProducer T key text).2) : x = .kafka key text := by
  rw [asyncKafkaProducer] at h
  split_ifs at h
  · cases h
  · exact List.mem_singleton.mp h

/-- The bodies that are delivered first give the first envelopes. -/
theorem prefix_bodyEnvelopes (peer : PeerEndpoint) (done rest : List Bytes) (seq : UInt64) :
    bodyEnvelopes J ctx now peer done seq <+: bodyEnvelopes J ctx now peer (done ++ rest) seq := by
  induction done generalizing seq with
  | nil => exact List.nil_prefix
  | cons body done ih =>
    rw [List.cons_append, bodyEnvelopes, bodyEnvelopes]
    cases ctx.delivery with
    | zmq => exact List.prefix_rfl
    | kafka =>
      cases envelopeOf J ctx now peer (seq + 1) body with
      | none => exact List.prefix_rfl
      | some r => exact (List.prefix_cons_inj r).mpr (ih (seq + 1))

/-- What a message hands over in Kafka mode: its envelopes, as far as they are built. -/
theorem handleMessage_handed (P : Protobuf) (T : Transport) (h : ctx.delivery = .kafka)
    (peer : Bytes) (msg : Message) (w : Worker) :
    (handleMessage J P T ctx now peer msg w).2.handed = w.handed ++
      (messageEnvelopes J P ctx now peer msg w.sequenceNumber).flatMap fun r =>
        (asyncKafkaProducer T (parsePeer peer).ip (J.writeString r.toValue)).2 := by
  rw [handleMessage, messageEnvelopes]
  cases bodies J P ctx msg with
  | ok bs => exact deliverAll_handed T h (parsePeer peer) bs w
  | error e => exact (List.append_nil _).symm

theorem handleMessage_sequenceNumber (P : Protobuf) (T : Transport) (peer : Bytes) (msg : Message)
    {w w' : Worker} (hok : handleMessage J P T ctx now peer msg w = (.ok (), w')) :
    w'.sequenceNumber = w.sequenceNumber +
      UInt64.ofNat (messageEnvelopes J P ctx now peer msg w.sequenceNumber).length := by
  rw [handleMessage] at hok
  rw [messageEnvelopes]
  cases hbodies : bodies J P ctx msg with
  | ok bs =>
    rw [hbodies] at hok
    exact deliverAll_sequenceNumber T (parsePeer peer) hok
  | error e =>
    rw [hbodies] at hok
    cases hok

/-- Every envelope of a message was written by `BuildEnvelope`, with its number. -/
theorem getElem?_bodyEnvelopes {peer : PeerEndpoint} {bs : List Bytes} {seq : UInt64} {k : ℕ}
    {r : Record} (h : (bodyEnvelopes J ctx now peer bs seq)[k]? = some r) :
    ∃ body, envelopeOf J ctx now peer (seq + UInt64.ofNat (k + 1)) body = some r := by
  induction bs generalizing seq k with
  | nil => cases h
  | cons body rest ih =>
    cases hdelivery : ctx.delivery with
    | zmq =>
      rw [bodyEnvelopes_zmq hdelivery] at h
      cases h
    | kafka =>
      rw [bodyEnvelopes, hdelivery] at h
      cases hr : envelopeOf J ctx now peer (seq + 1) body with
      | none =>
        rw [hr] at h
        cases h
      | some r' =>
        rw [hr] at h
        cases k with
        | zero =>
          cases h
          exact ⟨body, hr⟩
        | succ k =>
          obtain ⟨body', hbody'⟩ := ih h
          refine ⟨body', ?_⟩
          rwa [UInt64.add_assoc, UInt64.add_comm 1, ← UInt64.ofNat_one, ← UInt64.ofNat_add]
            at hbody'

theorem getElem?_messageEnvelopes {P : Protobuf} {peer : Bytes} {msg : Message} {seq : UInt64}
    {k : ℕ} {r : Record} (h : (messageEnvelopes J P ctx now peer msg seq)[k]? = some r) :
    ∃ body, envelopeOf J ctx now (parsePeer peer) (seq + UInt64.ofNat (k + 1)) body = some r := by
  rw [messageEnvelopes] at h
  cases hbodies : bodies J P ctx msg with
  | ok bs =>
    rw [hbodies] at h
    exact getElem?_bodyEnvelopes h
  | error e =>
    rw [hbodies] at h
    cases h

/-- The record around a body, on a port that is a number. -/
theorem exists_of_envelopeOf {peer : PeerEndpoint} {seq : UInt64} {body : Bytes} {r : Record}
    (h : envelopeOf J ctx now peer seq body = some r) :
    ∃ port, r = envelope seq now ctx.writerId peer.ip port (textValue J body)
      (labelOf (if ctx.labelEncode then some ctx.labelMap else none) peer.ip) := by
  rw [envelopeOf] at h
  cases hport : stoi peer.port with
  | error e =>
    rw [hport] at h
    cases h
  | ok port =>
    simp only [hport] at h
    by_cases hfit : Fits J body
    · rw [if_pos hfit, Option.some.injEq] at h
      exact ⟨port, h.symm⟩
    · rw [if_neg hfit] at h
      cases h

end Delivery

end MdtDialoutCollector.Core
