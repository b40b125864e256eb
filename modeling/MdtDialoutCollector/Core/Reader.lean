import MdtDialoutCollector.Core.WorkerLoop
import MdtDialoutCollector.DataManipulation.EnvelopeBody

/-! A reader of what a worker has given to Kafka. Position by position it finds the bodies
that the messages were turned into, each in a record with its own number, its call's time
and its peer; where a body is not kept, or a text around it is no UTF-8, it does not. -/

namespace MdtDialoutCollector.Core

open Data DataManipulation External Json Labels Proto Runs Text Utils

section Reader

variable {J : JsonCpp} {P : Protobuf} {T : Transport} {ctx : Context} {workers : Vendor → ℕ}

namespace HandleCall

/-- The context in which a call handles its message. -/
def context (ctx : Context) (c : HandleCall workers) : Context := { ctx with labelMap := c.labelMap }

def endpoint (c : HandleCall workers) : PeerEndpoint := parsePeer c.sent.peer

/-- The port of the peer; a call that delivers a body has one. -/
def port (c : HandleCall workers) : ℤ :=
  match stoi c.endpoint.port with
  | .ok port => port
  | .error _ => 0

/-- The map that the labels of a call come from. -/
def labels (ctx : Context) (c : HandleCall workers) : Option LabelMap :=
  if ctx.labelEncode then some c.labelMap else none

end HandleCall

/-- The bodies of a message, none where they cannot be made. -/
def bodiesOf (J : JsonCpp) (P : Protobuf) (ctx : Context) (c : HandleCall workers) : List Bytes :=
  match bodies J P (c.context ctx) c.sent.msg with
  | .ok bs => bs
  | .error _ => []

/-- What the calls have to deliver, one body after the other. -/
def deliveries (J : JsonCpp) (P : Protobuf) (ctx : Context) (cs : List (HandleCall workers)) :
    List (HandleCall workers × Bytes) :=
  cs.flatMap fun c => (bodiesOf J P ctx c).map fun body => (c, body)

/-- The record about a body under a number, with this value in the place of the body. -/
def recordOf (ctx : Context) (c : HandleCall workers) (seq : UInt64) (telemetryData : Value) :
    Record :=
  envelope seq c.now ctx.writerId c.endpoint.ip c.port telemetryData
    (labelOf (c.labels ctx) c.endpoint.ip)

/-- The body is kept, and the texts around it are UTF-8. -/
def Kept (J : JsonCpp) (ctx : Context) (c : HandleCall workers) (body : Bytes) : Prop :=
  HeaderUtf8 ctx.writerId c.endpoint.ip (c.labels ctx) ∧ KeepsBody J body

/-- A strict reader finds the value of a kept body, and of no other. -/
theorem strictRead_recordOf_iff (hJ : J.Lawful) (c : HandleCall workers) (seq : UInt64)
    {body : Bytes} (hfit : Fits J body) :
    strictRead J.floats (J.writeString (recordOf ctx c seq (textValue J body)).toValue) =
      some (recordOf ctx c seq (denoted J body)).toValue ↔ Kept J ctx c body := by
  rw [recordOf, strictRead_envelope hJ, Kept, ← textValue_denoted_iff hJ hfit, recordOf]
  constructor
  · rintro ⟨hroot, hheader, hstrings⟩
    have hget := congrArg (fun root => root.get? (lit "telemetry_data")) hroot
    rw [get?_telemetryData, get?_telemetryData, Option.some.injEq] at hget
    exact ⟨hheader, hget.symm, hstrings⟩
  · rintro ⟨hheader, hvalue, hstrings⟩
    rw [hvalue] at hstrings ⊢
    exact ⟨rfl, hheader, hstrings⟩

/-! ### The envelopes of a call -/

/-- `BuildEnvelope` comes back from the body. -/
def Buildable (J : JsonCpp) (peer : PeerEndpoint) (body : Bytes) : Prop :=
  (∃ port, stoi peer.port = .ok port) ∧ Fits J body

theorem buildable_of_envelopeOf {now : Int64} {peer : PeerEndpoint} {seq : UInt64} {body : Bytes}
    {r : Record} (h : envelopeOf J ctx now peer seq body = some r) : Buildable J peer body := by
  rw [envelopeOf] at h
  cases hport : stoi peer.port with
  | error e =>
    rw [hport] at h
    cases h
  | ok port =>
    simp only [hport, Option.ite_none_right_eq_some] at h
    exact ⟨⟨port, hport⟩, h.1⟩

/-- A delivery that comes back has built an envelope for every body. -/
theorem buildable_of_deliverAll (hkafka : ctx.delivery = .kafka) {now : Int64} {peer : PeerEndpoint}
    {bs : List Bytes} {w w' : Worker} (hok : deliverAll J T ctx now peer bs w = (.ok (), w')) :
    ∀ body ∈ bs, Buildable J peer body := by
  induction bs generalizing w with
  | nil => exact fun body hbody => absurd hbody List.not_mem_nil
  | cons body rest ih =>
    have hdeliver := deliverPayload_envelope (J := J) now T hkafka peer body w
    rw [deliverAll] at hok
    cases hr : envelopeOf J ctx now peer (w.sequenceNumber + 1) body with
    | none =>
      rw [hr] at hdeliver
      obtain ⟨e, hdeliver⟩ := hdeliver
      rw [hdeliver] at hok
      cases hok
    | some r =>
      rw [hr] at hdeliver
      rw [hdeliver] at hok
      rw [List.forall_mem_cons]
      exact ⟨buildable_of_envelopeOf hr, ih hok⟩

/-- The number after the `k + 1`st of them. -/
theorem add_ofNat_succ (seq : UInt64) (n k : ℕ) :
    seq + UInt64.ofNat n + UInt64.ofNat (k + 1) = seq + UInt64.ofNat (k + n + 1) := by
  rw [UInt64.add_assoc, ← UInt64.ofNat_add, show n + (k + 1) = k + n + 1 by omega]

/-- The envelopes of buildable bodies, numbered as they come. -/
theorem bodyEnvelopes_eq (hkafka : ctx.delivery = .kafka) (c : HandleCall workers) {bs : List Bytes}
    (h : ∀ body ∈ bs, Buildable J c.endpoint body) (seq : UInt64) :
    bodyEnvelopes J (c.context ctx) c.now c.endpoint bs seq =
      bs.mapIdx fun k body => recordOf ctx c (seq + UInt64.ofNat (k + 1)) (textValue J body) := by
  induction bs generalizing seq with
  | nil => rfl
  | cons body rest ih =>
    rw [List.forall_mem_cons] at h
    obtain ⟨⟨⟨port, hport⟩, hfit⟩, hrest⟩ := h
    have hc : c.port = port := by rw [HandleCall.port, hport]
    have hfirst : envelopeOf J (c.context ctx) c.now c.endpoint (seq + 1) body =
        some (recordOf ctx c (seq + UInt64.ofNat 1) (textValue J body)) := by
      rw [envelopeOf_of_fits hport hfit, recordOf, hc]
      rfl
    have hdelivery : (c.context ctx).delivery = .kafka := hkafka
    have hnumber (k : ℕ) : seq + 1 + UInt64.ofNat (k + 1) = seq + UInt64.ofNat (k + 1 + 1) :=
      add_ofNat_succ seq 1 k
    rw [bodyEnvelopes, hdelivery, List.mapIdx_cons]
    simp only [hfirst, ih hrest, hnumber]

/-! ### The letters of a worker -/

/-- Every body of the call can be put into an envelope. -/
def Complete (J : JsonCpp) (P : Protobuf) (ctx : Context) (c : HandleCall workers) : Prop :=
  ∃ bs, bodies J P (c.context ctx) c.sent.msg = .ok bs ∧ ∀ body ∈ bs, Buildable J c.endpoint body

theorem complete_of_handleMessage (hkafka : ctx.delivery = .kafka) {c : HandleCall workers}
    {w w' : Worker}
    (h : handleMessage J P T (c.context ctx) c.now c.sent.peer c.sent.msg w = (.ok (), w')) :
    Complete J P ctx c := by
  rw [handleMessage] at h
  cases hbodies : bodies J P (c.context ctx) c.sent.msg with
  | error e =>
    rw [hbodies] at h
    cases h
  | ok bs =>
    rw [hbodies] at h
    have hdelivery : (c.context ctx).delivery = .kafka := hkafka
    exact ⟨bs, hbodies, buildable_of_deliverAll hdelivery h⟩

theorem complete_of_step (hkafka : ctx.delivery = .kafka) {c : HandleCall workers}
    {s t : Collector (WorkerId workers)} (h : Collector.step J P T ctx s c.received = some t) :
    Complete J P ctx c := by
  rw [Collector.step, Option.ite_none_right_eq_some] at h
  obtain ⟨-, h⟩ := h
  cases hhandle : handleMessage J P T { ctx with labelMap := c.labelMap } c.now c.sent.peer
      c.sent.msg (s.workers c.worker) with
  | mk result w =>
    cases result with
    | error e =>
      simp only [HandleCall.received, hhandle] at h
      cases h
    | ok _ => exact complete_of_handleMessage hkafka hhandle

theorem complete_of_calls (hkafka : ctx.delivery = .kafka) {cs : List (HandleCall workers)}
    {s t : Collector (WorkerId workers)}
    (h : (collector J P T ctx workers).run (cs.map HandleCall.received) s = some t) :
    ∀ c ∈ cs, Complete J P ctx c := by
  induction cs generalizing s with
  | nil => exact fun c hc => absurd hc List.not_mem_nil
  | cons c cs ih =>
    rw [List.map_cons, Machine.run_cons, Option.bind_eq_some_iff] at h
    obtain ⟨u, hu, h⟩ := h
    rw [List.forall_mem_cons]
    exact ⟨complete_of_step hkafka hu, ih h⟩

/-- The letters of complete calls are their deliveries, numbered through. -/
theorem letters_eq (hkafka : ctx.delivery = .kafka) {cs : List (HandleCall workers)}
    (h : ∀ c ∈ cs, Complete J P ctx c) (seq : UInt64) :
    letters J P ctx cs seq = (deliveries J P ctx cs).mapIdx fun k d =>
      (d.1, recordOf ctx d.1 (seq + UInt64.ofNat (k + 1)) (textValue J d.2)) := by
  induction cs generalizing seq with
  | nil => rfl
  | cons c cs ih =>
    rw [List.forall_mem_cons] at h
    obtain ⟨⟨bs, hbodies, hbuildable⟩, hrest⟩ := h
    have hof : bodiesOf J P ctx c = bs := by rw [bodiesOf, hbodies]
    have hrs : messageEnvelopes J P (c.context ctx) c.now c.sent.peer c.sent.msg seq =
        bs.mapIdx fun k body => recordOf ctx c (seq + UInt64.ofNat (k + 1)) (textValue J body) := by
      rw [messageEnvelopes, hbodies]
      exact bodyEnvelopes_eq hkafka c hbuildable seq
    have hletters : letters J P ctx (c :: cs) seq =
        (messageEnvelopes J P (c.context ctx) c.now c.sent.peer c.sent.msg seq).map (fun r => (c, r)) ++
          letters J P ctx cs (seq + UInt64.ofNat
            (messageEnvelopes J P (c.context ctx) c.now c.sent.peer c.sent.msg seq).length) := rfl
    have hdeliveries : deliveries J P ctx (c :: cs) =
        bs.map (fun body => (c, body)) ++ deliveries J P ctx cs := by rw [← hof]; rfl
    rw [hletters, hrs, ih hrest, hdeliveries, List.mapIdx_append]
    simp only [List.length_mapIdx, List.length_map, add_ofNat_succ]
    congr 1
    apply List.ext_getElem?
    intro k
    simp only [List.getElem?_map, List.getElem?_mapIdx, Option.map_map]
    rfl

theorem buildable_of_delivery {cs : List (HandleCall workers)} (h : ∀ c ∈ cs, Complete J P ctx c)
    {c : HandleCall workers} {body : Bytes} (hd : (c, body) ∈ deliveries J P ctx cs) :
    Buildable J c.endpoint body := by
  rw [deliveries, List.mem_flatMap] at hd
  obtain ⟨c', hc', hd⟩ := hd
  obtain ⟨body', hbody', hd⟩ := List.mem_map.mp hd
  cases hd
  obtain ⟨bs, hbodies, hbuildable⟩ := h c hc'
  rw [bodiesOf, hbodies] at hbody'
  exact hbuildable body hbody'

/-- In Kafka mode there is one text for each body that the messages of a worker were turned
into, in the order of its calls. The `p`th of them is under the address of its peer, and a
strict reader finds in it the value that the body stands for, with the number `p` and the
port, time and labels of its call, exactly if the body is kept and the texts around it are
UTF-8. -/
theorem Serving.reader_finds_bodies {m : Vendor → ℕ} (hJ : J.Lawful) (hkafka : ctx.delivery = .kafka)
    {s : Serving workers} (hs : (serving J P T ctx m workers).Reachable s) (i : WorkerId workers) :
    (s.process.workers i).handed.length =
        (deliveries J P ctx (s.calls.filter fun c => c.worker = i)).length ∧
      ∀ p c body, (deliveries J P ctx (s.calls.filter fun c => c.worker = i))[p]? = some (c, body) →
        stoi c.endpoint.port = .ok c.port ∧
        ∃ text, (s.process.workers i).handed[p]? = some (.kafka c.endpoint.ip text) ∧
          (strictRead J.floats text =
            some (recordOf ctx c (UInt64.ofNat (p + 1)) (denoted J body)).toValue ↔
            Kept J ctx c body) := by
  obtain ⟨-, hreplayed⟩ := inOrder_of_reachable hs
  have hcomplete : ∀ c ∈ s.calls.filter fun c => c.worker = i, Complete J P ctx c :=
    fun c hc => complete_of_calls hkafka hreplayed c (List.mem_filter.mp hc).1
  have hhanded := handed_of_calls hJ hkafka i hreplayed
  rw [letters_eq hkafka hcomplete] at hhanded
  refine ⟨?_, fun p c body hd => ?_⟩
  · rw [hhanded]
    simp
  · obtain ⟨⟨port, hport⟩, hfit⟩ := buildable_of_delivery hcomplete (List.mem_of_getElem? hd)
    have hc : c.port = port := by rw [HandleCall.port, hport]
    refine ⟨by rw [hport, hc], _, ?_, strictRead_recordOf_iff hJ c _ hfit⟩
    rw [hhanded]
    simp [hd, posted, HandleCall.endpoint]

end Reader

/-- The second message of the two streams, `{}` from the same peer, is found as an object
under the number two. -/
theorem Serving.reader_finds_bodies_twoStreams :
    ∃ (s : Serving twoHuawei) (c : HandleCall twoHuawei) (text : Bytes),
      (s.process.workers (huaweiWorker 1)).handed[1]? = some (.kafka c.endpoint.ip text) ∧
      strictRead Reference.jsonCpp.floats text =
        some (recordOf (defaultContext .kafka) c 2 (.obj [])).toValue := by
  let second (s : Serving twoHuawei) : Option (HandleCall twoHuawei × Bytes) :=
    (deliveries Reference.jsonCpp Reference.protobuf (defaultContext .kafka)
      (s.calls.filter fun c => c.worker = huaweiWorker 1))[1]?
  have hsecond : ((serving Reference.jsonCpp Reference.protobuf acceptAll (defaultContext .kafka)
      (fun _ => 0) twoHuawei).run (twoStreams 1) {}).map (fun s => (second s).map fun d =>
        (d.1.sent.peer, d.2)) = some (some (lit "ipv4:192.0.2.1:57400", lit "{}")) := by decide
  obtain ⟨s, hs, hd⟩ := Option.map_eq_some_iff.mp hsecond
  obtain ⟨⟨c, body⟩, hd, hpeer⟩ := Option.map_eq_some_iff.mp hd
  simp only [Prod.mk.injEq] at hpeer
  obtain ⟨hpeer, rfl⟩ := hpeer
  obtain ⟨-, hreads⟩ := reader_finds_bodies Reference.jsonCpp_lawful rfl ⟨twoStreams 1, hs⟩
    (huaweiWorker 1)
  obtain ⟨-, text, htext, hread⟩ := hreads 1 c (lit "{}") hd
  refine ⟨s, c, text, htext, hread.mpr ⟨⟨validUtf8_ascii (by decide), ?_, by simp [HandleCall.labels,
    defaultContext]⟩, .inl ⟨.obj [], rfl⟩⟩⟩
  rw [HandleCall.endpoint, hpeer]
  exact validUtf8_ascii (by decide)

end MdtDialoutCollector.Core
