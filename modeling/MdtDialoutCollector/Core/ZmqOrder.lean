import MdtDialoutCollector.Core.PayloadOwnership
import MdtDialoutCollector.Data.Channels
import MdtDialoutCollector.Runs.Simulation

/-! What the poller prints. Only an address goes through a ZMQ socket, and the payload is
read on the other side long after its worker has gone on to the next message; yet the
sockets stand for channels of whole payloads. ZMQ keeps the messages of one pusher in their
order, and takes from the pushers in any. -/

namespace MdtDialoutCollector.Core

open Data Runs Text

/-- What `ZmqPusher` makes of the data wrapper. -/
def payloadOf (w : DataWrapper) : GrpcPayload :=
  initGrpcPayload w.eventType w.serialization w.writerId w.telemetryNode w.telemetryPort
    w.telemetryData

/-- What is printed of a payload. -/
def printout (x : GrpcPayload) : List CString := printedFields.map x.field

/-- The threads with the queue of each pusher's socket. `wrapped` has the payload that the
worker has made last, and `accepted` those that its socket has taken. -/
structure Fifo (ι : Type) where
  zmq : Zmq ι := {}
  queues : ι → List Pointer := fun _ => []
  wrapped : ι → Option GrpcPayload := fun _ => none
  accepted : ι → List GrpcPayload := fun _ => []

namespace Fifo

variable {ι : Type} [DecidableEq ι]

inductive Action (ι : Type) where
  | receiveFrom (i : ι)
  | act (a : Zmq.Action ι)

/-- What is noted of a step that is not a `recv`. -/
def note (s : Fifo ι) : Zmq.Action ι → Option (Fifo ι)
  | .receive _ => none
  | .create i _ w => some { s with wrapped := Function.update s.wrapped i (some (payloadOf w)) }
  | .send i .accepted =>
    match s.zmq.pushers i, s.wrapped i with
    | .sending p, some x => some { s with
        queues := Function.update s.queues i (s.queues i ++ [p])
        accepted := Function.update s.accepted i (s.accepted i ++ [x]) }
    | _, _ => none
  | _ => some s

def step (s : Fifo ι) : Action ι → Option (Fifo ι)
  | .receiveFrom i =>
    match s.queues i with
    | [] => none
    | p :: ps => (s.zmq.step (.receive p)).map fun z => { s with
        zmq := z
        queues := Function.update s.queues i ps }
  | .act a =>
    match s.note a with
    | none => none
    | some t => (s.zmq.step a).map fun z => { t with zmq := z }

end Fifo

def fifo (ι : Type) [DecidableEq ι] : Machine (Fifo ι) (Fifo.Action ι) where
  start := {}
  step := Fifo.step

/-! ### What is at an address -/

namespace Zmq

variable {ι : Type} [DecidableEq ι] {s t : Zmq ι}

/-- The payload at an address. -/
def content (s : Zmq ι) (p : Pointer) : Option GrpcPayload := (s.heap p.1).map Cell.pload

/-- What is still to be printed of the payload in hand. -/
def unprinted (s : Zmq ι) : List CString :=
  match s.puller with
  | .printing p left =>
    match s.content p with
    | some x => left.map x.field
    | none => []
  | _ => []

omit [DecidableEq ι] in
theorem content_freePayload_of_ne {caller : Place ι} {p q : Pointer} (h : q.1 ≠ p.1) :
    (s.freePayload caller p).content q = s.content q := by
  rw [freePayload]
  cases s.heap p.1 with
  | none => rfl
  | some c =>
    show (Function.update s.heap p.1 none q.1).map Cell.pload = _
    rw [Function.update_of_ne h]
    rfl

omit [DecidableEq ι] in
theorem holds_freePayload_iff {caller place : Place ι} {p q : Pointer} :
    (s.freePayload caller p).Holds place q ↔ s.Holds place q := by
  rw [freePayload]
  cases s.heap p.1 <;> cases place <;> rfl

/-- Nobody writes to a payload that a party holds, or frees it. -/
theorem Owned.content_of_step (hs : Owned s) {a : Action ι} (hstep : s.step a = some t)
    {place place' : Place ι} {q : Pointer} (hq : s.Holds place q) (hq' : t.Holds place' q) :
    t.content q = s.content q := by
  cases steps_of_step hstep with
  | @create i fresh w pload hi hf =>
    obtain ⟨c, hc, -⟩ := hs.live place q.1 q.2 hq
    have hne : q.1 ≠ fresh := by
      intro h
      rw [h, hf] at hc
      cases hc
    show (Function.update s.heap fresh (some ⟨s.created, pload⟩) q.1).map Cell.pload = _
    rw [Function.update_of_ne hne]
    rfl
  | outOfMemory => rfl
  | accepted hi => rfl
  | refused hi => rfl
  | @release i p hi =>
    have hp : s.Holds (.pusher i) p := congrArg Pusher.pointer hi
    have hne := ((hs.moved_idle hp).holds_iff.mp (holds_freePayload_iff.mp hq')).1
    exact content_freePayload_of_ne (hs.ne_and_ne hp hq hne).1
  | receive hpull hp => rfl
  | recvError hpull => rfl
  | @print p f left hpull =>
    rw [content, printField]
    cases hc : s.heap p.1 <;> rfl
  | @free p hpull =>
    have hp : s.Holds .puller p := congrArg Puller.pointer hpull
    have hne := ((hs.moved_receiving hp).holds_iff.mp (holds_freePayload_iff.mp hq')).1
    exact content_freePayload_of_ne (hs.ne_and_ne hp hq hne).1

theorem unprinted_of_step (hs : Owned s) {a : Action ι} (hstep : s.step a = some t)
    (hpuller : t.puller = s.puller) : t.unprinted = s.unprinted := by
  rw [unprinted, unprinted, hpuller]
  cases hpull : s.puller with
  | receiving => rfl
  | exited => rfl
  | printing p left =>
    have hp : s.Holds .puller p := congrArg Puller.pointer hpull
    have hp' : t.Holds .puller p := by
      rw [Holds, hpuller]
      exact hp
    simp only [hs.content_of_step hstep hp hp']

theorem step_create {i : ι} {fresh : Addr} {w : DataWrapper}
    (hstep : s.step (.create i fresh w) = some t) : s.pushers i = .idle ∧
      t = (s.initPayload fresh (payloadOf w)).setPusher i (.sending (fresh, s.created)) := by
  unfold step at hstep
  split at hstep
  · cases hstep
  · simp only at hstep
    split at hstep
    · rename_i hi hf
      cases hstep
      exact ⟨hi, rfl⟩
    · cases hstep

theorem step_accepted {i : ι} {p : Pointer} (hp : s.pushers i = .sending p)
    (hstep : s.step (.send i .accepted) = some t) :
    t = { s.setPusher i .idle with inFlight := p ::ₘ s.inFlight } := by
  unfold step at hstep
  split at hstep
  · cases hstep
  · simp only [hp, if_true, Option.some.injEq] at hstep
    exact hstep.symm

theorem sending_of_update {pushers : ι → Pusher} {i j : ι} {u : Pusher} {p : Pointer}
    (hu : ∀ q, u ≠ .sending q) (h : Function.update pushers j u i = .sending p) :
    pushers i = .sending p := by
  by_cases hj : i = j
  · rw [hj, Function.update_self] at h
    exact absurd h (hu p)
  · rwa [Function.update_of_ne hj] at h

/-- A worker comes to its `send` by making a payload. -/
theorem sending_of_step {a : Action ι} (hstep : s.step a = some t) {i : ι} {p : Pointer}
    (hp : t.pushers i = .sending p) :
    s.pushers i = .sending p ∨
      ∃ fresh w, a = .create i fresh w ∧ p = (fresh, s.created) := by
  cases steps_of_step hstep with
  | @create j fresh w pload hi hf =>
    change Function.update s.pushers j (.sending (fresh, s.created)) i = .sending p at hp
    by_cases hj : i = j
    · subst hj
      rw [Function.update_self, Pusher.sending.injEq] at hp
      exact .inr ⟨fresh, w, rfl, hp.symm⟩
    · rw [Function.update_of_ne hj] at hp
      exact .inl hp
  | outOfMemory => exact .inl hp
  | accepted hi => exact .inl (sending_of_update (by simp) hp)
  | refused hi => exact .inl (sending_of_update (by simp) hp)
  | @release j q hi =>
    rw [freePayload] at hp
    refine .inl (sending_of_update (u := .idle) (j := j) (by simp) ?_)
    revert hp
    cases (s.setPusher j .idle).heap q.1 <;> exact id
  | receive hpull hq => exact .inl hp
  | recvError hpull => exact .inl hp
  | @print q f left hpull =>
    rw [printField] at hp
    revert hp
    cases Zmq.heap { s with puller := .printing q left } q.1 <;> exact .inl
  | @free q hpull =>
    rw [freePayload] at hp
    revert hp
    cases Zmq.heap { s with puller := .receiving } q.1 <;> exact .inl

theorem inFlight_of_step {a : Action ι} (hstep : s.step a = some t) (hreceive : ∀ p, a ≠ .receive p)
    (hsend : ∀ i, a ≠ .send i .accepted) : t.inFlight = s.inFlight := by
  cases steps_of_step hstep with
  | create pload hi hf => rfl
  | outOfMemory => rfl
  | @accepted i p hi => exact absurd rfl (hsend i)
  | refused hi => rfl
  | @release i p hi =>
    rw [freePayload]
    cases (s.setPusher i .idle).heap p.1 <;> rfl
  | @receive p hpull hp => exact absurd rfl (hreceive p)
  | recvError hpull => rfl
  | @print p f left hpull =>
    rw [printField]
    cases Zmq.heap { s with puller := .printing p left } p.1 <;> rfl
  | @free p hpull =>
    rw [freePayload]
    cases Zmq.heap { s with puller := .receiving } p.1 <;> rfl

/-- What is printed and what is left to print change together. -/
theorem Owned.printed_of_step (hs : Owned s) {a : Action ι} (hstep : s.step a = some t)
    (hreceive : ∀ p, a ≠ .receive p) : t.printed ++ t.unprinted = s.printed ++ s.unprinted := by
  have hsame (hprinted : t.printed = s.printed) (hpuller : t.puller = s.puller) :
      t.printed ++ t.unprinted = s.printed ++ s.unprinted := by
    rw [hprinted, unprinted_of_step hs hstep hpuller]
  cases steps_of_step hstep with
  | create pload hi hf => exact hsame rfl rfl
  | outOfMemory => exact hsame rfl rfl
  | accepted hi => exact hsame rfl rfl
  | refused hi => exact hsame rfl rfl
  | @release i p hi =>
    obtain ⟨c, hc, hserial⟩ := hs.live (.pusher i) p.1 p.2 (congrArg Pusher.pointer hi)
    rw [freePayload_eq (s := s.setPusher i .idle) hc hserial] at hsame ⊢
    exact hsame rfl rfl
  | @receive p hpull hp => exact absurd rfl (hreceive p)
  | @recvError terminated hpull =>
    have hnone : ∀ z : Puller, (∀ p left, z ≠ .printing p left) →
        ({ s with puller := z } : Zmq ι).unprinted = [] := by
      intro z hz
      cases z with
      | receiving => rfl
      | exited => rfl
      | printing p left => exact absurd rfl (hz p left)
    have hbefore : s.unprinted = [] := by rw [unprinted, hpull]
    rw [hbefore, hnone _ (by cases terminated <;> simp)]
  | @print p f left hpull =>
    obtain ⟨c, hc, hserial⟩ := hs.live .puller p.1 p.2 (congrArg Puller.pointer hpull)
    rw [printField_eq (s := { s with puller := .printing p left }) hc hserial]
    simp [unprinted, hpull, content, hc]
  | @free p hpull =>
    obtain ⟨c, hc, hserial⟩ := hs.live .puller p.1 p.2 (congrArg Puller.pointer hpull)
    rw [freePayload_eq (s := { s with puller := .receiving }) hc hserial]
    simp [unprinted, hpull, content, hc]

end Zmq

/-! ### The channels -/

namespace Fifo

variable {ι : Type} [DecidableEq ι] {s t : Fifo ι} {c : Channels ι GrpcPayload}

/-- The state of the threads stands for one of the channels. -/
structure Mirrors (s : Fifo ι) (c : Channels ι GrpcPayload) : Prop where
  owned : s.zmq.Owned
  waiting : ∀ i, (s.queues i).map s.zmq.content = (c.waiting i).map some
  inFlight : ∀ p, p ∈ s.zmq.inFlight ↔ ∃ i, p ∈ s.queues i
  nodup : ∀ i, (s.queues i).Nodup
  apart : ∀ i j p, p ∈ s.queues i → p ∈ s.queues j → i = j
  sending : ∀ i p, s.zmq.pushers i = .sending p →
    ∃ x, s.zmq.content p = some x ∧ s.wrapped i = some x
  accepted : ∀ i, c.sent i = s.accepted i
  printed : s.zmq.printed ++ s.zmq.unprinted = c.taken.flatMap fun e => printout e.2

omit [DecidableEq ι] in
theorem mirrors_start : Mirrors ({} : Fifo ι) {} where
  owned := Zmq.owned_start
  waiting i := rfl
  inFlight p := by simp
  nodup i := List.nodup_nil
  apart i j p hp := by cases hp
  sending i p hp := by cases hp
  accepted i := rfl
  printed := rfl

/-- The contents of what waits in the sockets do not change. -/
theorem Mirrors.content_queues (h : Mirrors s c) {z : Zmq ι} {a : Zmq.Action ι}
    (hstep : s.zmq.step a = some z) {i : ι} {ps : List Pointer} (hps : ∀ p ∈ ps, p ∈ s.queues i)
    (hheld : ∀ p ∈ ps, ∃ place, z.Holds place p) : ps.map z.content = ps.map s.zmq.content := by
  refine List.map_congr_left fun p hp => ?_
  obtain ⟨place, hplace⟩ := hheld p hp
  have hbefore : s.zmq.Holds .inFlight p := (h.inFlight p).mpr ⟨i, hps p hp⟩
  exact h.owned.content_of_step hstep hbefore hplace

/-- A step that hands no pointer to a socket and takes none from one. -/
theorem Mirrors.quiet (h : Mirrors s c) {z : Zmq ι} {a : Zmq.Action ι}
    (hstep : s.zmq.step a = some z) (hreceive : ∀ p, a ≠ .receive p)
    (hsend : ∀ i, a ≠ .send i .accepted) {wrapped : ι → Option GrpcPayload}
    (hwrapped : ∀ i, wrapped i = s.wrapped i ∨
      ∃ fresh w, a = .create i fresh w ∧ wrapped i = some (payloadOf w))
    (hcreate : ∀ i fresh w, a = .create i fresh w → wrapped i = some (payloadOf w)) :
    Mirrors { s with zmq := z, wrapped := wrapped } c where
  owned := h.owned.step hstep
  waiting i := by
    rw [← h.waiting i]
    refine h.content_queues hstep (fun _ => id) fun p hp => ⟨.inFlight, ?_⟩
    show p ∈ z.inFlight
    rw [Zmq.inFlight_of_step hstep hreceive hsend]
    exact (h.inFlight p).mpr ⟨i, hp⟩
  inFlight p := by
    show p ∈ z.inFlight ↔ _
    rw [Zmq.inFlight_of_step hstep hreceive hsend]
    exact h.inFlight p
  nodup := h.nodup
  apart := h.apart
  sending i p hp := by
    rcases Zmq.sending_of_step hstep hp with hs | ⟨fresh, w, rfl, rfl⟩
    · obtain ⟨x, hx, hsx⟩ := h.sending i p hs
      refine ⟨x, ?_, ?_⟩
      · have hbefore : s.zmq.Holds (.pusher i) p := congrArg Pusher.pointer hs
        have hafter : z.Holds (.pusher i) p := congrArg Pusher.pointer hp
        rw [← hx]
        exact h.owned.content_of_step hstep hbefore hafter
      · rcases hwrapped i with hsame | ⟨fresh, w, rfl, -⟩
        · exact hsame.trans hsx
        · -- a worker that is at its `send` makes no payload
          rw [(Zmq.step_create hstep).1] at hs
          cases hs
    · refine ⟨payloadOf w, ?_, hcreate i fresh w rfl⟩
      rw [(Zmq.step_create hstep).2]
      show (Function.update s.zmq.heap fresh _ fresh).map Cell.pload = _
      rw [Function.update_self]
      rfl
  accepted := h.accepted
  printed := by
    rw [← h.printed]
    exact h.owned.printed_of_step hstep hreceive

theorem step_act {a : Zmq.Action ι} (h : s.step (.act a) = some t) :
    ∃ u z, s.note a = some u ∧ s.zmq.step a = some z ∧ t = { u with zmq := z } := by
  rw [step] at h
  cases hnote : s.note a with
  | none =>
    rw [hnote] at h
    cases h
  | some u =>
    simp only [hnote, Option.map_eq_some_iff] at h
    obtain ⟨z, hz, rfl⟩ := h
    exact ⟨u, z, rfl, hz, rfl⟩

/-- A step in which nothing is noted. -/
theorem Mirrors.unnoted (h : Mirrors s c) {z : Zmq ι} {a : Zmq.Action ι}
    (hstep : s.zmq.step a = some z) (hreceive : ∀ p, a ≠ .receive p)
    (hsend : ∀ i, a ≠ .send i .accepted) (hcreate : ∀ i fresh w, a ≠ .create i fresh w) :
    Mirrors { s with zmq := z } c :=
  h.quiet hstep hreceive hsend (fun _ => .inl rfl) fun i fresh w ha =>
    absurd ha (hcreate i fresh w)

/-- The worker's payload goes into its channel. -/
theorem Mirrors.send (h : Mirrors s c) {z : Zmq ι} {i : ι}
    (hstep : s.zmq.step (.send i .accepted) = some z) {p : Pointer} {x : GrpcPayload}
    (hp : s.zmq.pushers i = .sending p) (hx : s.wrapped i = some x) :
    Mirrors { s with
        zmq := z
        queues := Function.update s.queues i (s.queues i ++ [p])
        accepted := Function.update s.accepted i (s.accepted i ++ [x]) }
      { c with
        waiting := Function.update c.waiting i (c.waiting i ++ [x])
        sent := Function.update c.sent i (c.sent i ++ [x]) } := by
  have howned := h.owned.step hstep
  obtain rfl := Zmq.step_accepted hp hstep
  have hheld : s.zmq.Holds (.pusher i) p := congrArg Pusher.pointer hp
  have hnew (j : ι) : p ∉ s.queues j := by
    intro hj
    have hin : s.zmq.Holds .inFlight p := (h.inFlight p).mpr ⟨j, hj⟩
    exact h.owned.ne_of_holds hheld hin (by simp) rfl
  have hmem : ∀ j q, q ∈ Function.update s.queues i (s.queues i ++ [p]) j ↔
      q ∈ s.queues j ∨ (j = i ∧ q = p) := by
    intro j q
    by_cases hj : j = i
    · subst hj
      simp only [Function.update_self, List.mem_append, List.mem_singleton, true_and]
    · simp only [Function.update_of_ne hj, hj, false_and, or_false]
  obtain ⟨x', hx', hwrapped⟩ := h.sending i p hp
  have hcontent : s.zmq.content p = some x := by
    rw [hx', ← hwrapped, hx]
  refine
    { owned := howned
      waiting := fun j => ?_
      inFlight := fun q => ?_
      nodup := fun j => ?_
      apart := fun j k q hj hk => ?_
      sending := fun j q hq => h.sending j q (Zmq.sending_of_update (by simp) hq)
      accepted := fun j => ?_
      printed := h.printed }
  · show (Function.update s.queues i (s.queues i ++ [p]) j).map s.zmq.content = _
    by_cases hj : j = i
    · subst hj
      simp only [Function.update_self, List.map_append, h.waiting j, List.map_singleton, hcontent]
    · simp only [Function.update_of_ne hj]
      exact h.waiting j
  · simp only [hmem]
    show q ∈ p ::ₘ s.zmq.inFlight ↔ _
    rw [Multiset.mem_cons, h.inFlight q]
    constructor
    · rintro (rfl | ⟨j, hj⟩)
      · exact ⟨i, .inr ⟨rfl, rfl⟩⟩
      · exact ⟨j, .inl hj⟩
    · rintro ⟨j, hj | ⟨-, rfl⟩⟩
      · exact .inr ⟨j, hj⟩
      · exact .inl rfl
  · show (Function.update s.queues i (s.queues i ++ [p]) j).Nodup
    by_cases hj : j = i
    · subst hj
      rw [Function.update_self]
      exact (List.nodup_append_comm.mp (List.nodup_cons.mpr ⟨hnew j, h.nodup j⟩))
    · rw [Function.update_of_ne hj]
      exact h.nodup j
  · rcases (hmem j q).mp hj with hj | ⟨hji, hq⟩
    · rcases (hmem k q).mp hk with hk | ⟨-, hq⟩
      · exact h.apart j k q hj hk
      · exact absurd (hq ▸ hj) (hnew j)
    · rcases (hmem k q).mp hk with hk | ⟨hki, -⟩
      · exact absurd (hq ▸ hk) (hnew k)
      · rw [hji, hki]
  · show Function.update c.sent i _ j = Function.update s.accepted i _ j
    rw [h.accepted i]
    by_cases hj : j = i
    · subst hj
      rw [Function.update_self, Function.update_self]
    · rw [Function.update_of_ne hj, Function.update_of_ne hj, h.accepted j]

/-- The poller takes the payload that has waited longest in a channel. -/
theorem Mirrors.take (h : Mirrors s c) {z : Zmq ι} {i : ι} {p : Pointer} {ps : List Pointer}
    (hqueue : s.queues i = p :: ps) (hstep : s.zmq.step (.receive p) = some z) :
    ∃ x xs, c.waiting i = x :: xs ∧
      Mirrors { s with zmq := z, queues := Function.update s.queues i ps }
        { c with
          waiting := Function.update c.waiting i xs
          taken := c.taken ++ [(i, x)] } := by
  have howned := h.owned.step hstep
  have hwaiting := h.waiting i
  rw [hqueue, List.map_cons] at hwaiting
  obtain ⟨x, xs, hchannel, hx, hxs⟩ : ∃ x xs, c.waiting i = x :: xs ∧
      s.zmq.content p = some x ∧ ps.map s.zmq.content = xs.map some := by
    cases hw : c.waiting i with
    | nil =>
      rw [hw] at hwaiting
      cases hwaiting
    | cons x xs =>
      rw [hw, List.map_cons, List.cons.injEq] at hwaiting
      exact ⟨x, xs, rfl, hwaiting⟩
  have hnodup := h.nodup i
  rw [hqueue, List.nodup_cons] at hnodup
  have hmem : ∀ j q, q ∈ Function.update s.queues i ps j ↔ q ∈ s.queues j ∧ q ≠ p := by
    intro j q
    by_cases hj : j = i
    · subst hj
      rw [Function.update_self, hqueue, List.mem_cons]
      constructor
      · intro hq
        exact ⟨.inr hq, fun heq => hnodup.1 (heq ▸ hq)⟩
      · rintro ⟨hq | hq, hne⟩
        · exact absurd hq hne
        · exact hq
    · rw [Function.update_of_ne hj]
      refine ⟨fun hq => ⟨hq, ?_⟩, fun hq => hq.1⟩
      rintro rfl
      exact hj (h.apart j i q hq (by rw [hqueue]; exact List.mem_cons_self))
  cases Zmq.steps_of_step hstep with
  | receive hpull hp =>
    refine ⟨x, xs, hchannel,
      { owned := howned
        waiting := fun j => ?_
        inFlight := fun q => ?_
        nodup := fun j => ?_
        apart := fun j k q hj hk => h.apart j k q ((hmem j q).mp hj).1 ((hmem k q).mp hk).1
        sending := h.sending
        accepted := h.accepted
        printed := ?_ }⟩
    · show (Function.update s.queues i ps j).map s.zmq.content = _
      by_cases hj : j = i
      · subst hj
        simp only [Function.update_self, hxs]
      · simp only [Function.update_of_ne hj]
        exact h.waiting j
    · simp only [hmem]
      show q ∈ s.zmq.inFlight.erase p ↔ _
      rw [h.owned.nodup.mem_erase_iff, h.inFlight q]
      constructor
      · rintro ⟨hne, j, hj⟩
        exact ⟨j, hj, hne⟩
      · rintro ⟨j, hj, hne⟩
        exact ⟨hne, j, hj⟩
    · show (Function.update s.queues i ps j).Nodup
      by_cases hj : j = i
      · rw [hj, Function.update_self]
        exact hnodup.2
      · rw [Function.update_of_ne hj]
        exact h.nodup j
    · have hbefore : s.zmq.unprinted = [] := by rw [Zmq.unprinted, hpull]
      have hprinted := h.printed
      rw [hbefore, List.append_nil] at hprinted
      have hcontent : (s.zmq.heap p.1).map Cell.pload = some x := hx
      simp only [Zmq.unprinted, Zmq.content, hcontent, hprinted, List.flatMap_append,
        List.flatMap_singleton]
      rfl

/-- What a step does to the channels. -/
def image (s : Fifo ι) : Action ι → List (Channels.Action ι GrpcPayload)
  | .receiveFrom i => [.take i]
  | .act (.send i .accepted) => (s.wrapped i).toList.map (.send i)
  | .act _ => []

theorem Mirrors.step (h : Mirrors s c) {a : Action ι} (hstep : s.step a = some t) :
    ∃ d, (channels ι GrpcPayload).run (image s a) c = some d ∧ Mirrors t d := by
  cases a with
  | receiveFrom i =>
    cases hqueue : s.queues i with
    | nil =>
      rw [Fifo.step, hqueue] at hstep
      cases hstep
    | cons p ps =>
      simp only [Fifo.step, hqueue, Option.map_eq_some_iff] at hstep
      obtain ⟨z, hz, rfl⟩ := hstep
      obtain ⟨x, xs, hchannel, hmirrors⟩ := h.take hqueue hz
      refine ⟨_, ?_, hmirrors⟩
      have htake : (channels ι GrpcPayload).step c (.take i) = some { c with
          waiting := Function.update c.waiting i xs
          taken := c.taken ++ [(i, x)] } := by
        show Channels.step c (.take i) = _
        rw [Channels.step, hchannel]
      exact (channels ι GrpcPayload).run_cons_of_step htake []
  | act a =>
    obtain ⟨u, z, hnote, hz, rfl⟩ := step_act hstep
    cases a with
    | receive p => cases hnote
    | create i fresh w =>
      cases hnote
      refine ⟨c, rfl, h.quiet hz (by simp) (by simp) (fun j => ?_) fun j fresh' w' ha => ?_⟩
      · by_cases hj : j = i
        · subst hj
          exact .inr ⟨fresh, w, rfl, Function.update_self _ _ _⟩
        · exact .inl (Function.update_of_ne hj _ _)
      · cases ha
        exact Function.update_self _ _ _
    | send i result =>
      cases result with
      | accepted =>
        rw [note] at hnote
        cases hp : s.zmq.pushers i with
        | sending p =>
          cases hx : s.wrapped i with
          | none =>
            rw [hp, hx] at hnote
            cases hnote
          | some x =>
            simp only [hp, hx, Option.some.injEq] at hnote
            subst hnote
            refine ⟨_, ?_, h.send hz hp hx⟩
            rw [image, hx]
            rfl
        | idle =>
          rw [hp] at hnote
          cases hnote
        | releasing p =>
          rw [hp] at hnote
          cases hnote
      | again | zmqError =>
        cases hnote
        exact ⟨c, rfl, h.unnoted hz (by simp) (by simp) (by simp)⟩
    | outOfMemory i =>
      cases hnote
      exact ⟨c, rfl, h.unnoted hz (by simp) (by simp) (by simp)⟩
    | release i =>
      cases hnote
      exact ⟨c, rfl, h.unnoted hz (by simp) (by simp) (by simp)⟩
    | recvError terminated =>
      cases hnote
      exact ⟨c, rfl, h.unnoted hz (by simp) (by simp) (by simp)⟩
    | print =>
      cases hnote
      exact ⟨c, rfl, h.unnoted hz (by simp) (by simp) (by simp)⟩
    | free =>
      cases hnote
      exact ⟨c, rfl, h.unnoted hz (by simp) (by simp) (by simp)⟩

/-- Sockets that pass addresses are channels that pass payloads. -/
def asChannels (ι : Type) [DecidableEq ι] : Simulation (fifo ι) (channels ι GrpcPayload) where
  rel := Mirrors
  image := image
  start := mirrors_start
  step := fun hmirrors hstep => Mirrors.step hmirrors hstep

/-- What is printed are whole payloads, field by field as their workers have wrapped them
however long ago, but for the rest of the one in hand; those of a worker come in the order
in which its socket has taken them, and what does not come yet is in the queue. No payload
is used after it has been freed. -/
theorem poller_prints_in_order (hs : (fifo ι).Reachable s) :
    s.zmq.fault = false ∧ ∃ taken : List (ι × GrpcPayload),
      s.zmq.printed ++ s.zmq.unprinted = taken.flatMap (fun e => printout e.2) ∧
      ∀ i, ∃ waiting, s.accepted i = Channels.takenFrom i taken ++ waiting ∧
        (s.queues i).map s.zmq.content = waiting.map some := by
  obtain ⟨c, hc, hrel⟩ := (asChannels ι).reachable hs
  have hmirrors : Mirrors s c := hrel
  have hconserved := Channels.conserved_of_reachable hc
  refine ⟨hmirrors.owned.safe, c.taken, hmirrors.printed, fun i => ⟨c.waiting i, ?_, ?_⟩⟩
  · rw [← hmirrors.accepted i]
    exact hconserved i
  · exact hmirrors.waiting i

/-- A payload at the address of one that has been printed and freed while a third waits. -/
def sameAddress : List (Action Bool) :=
  [.act (.create false 5 { telemetryData := lit "a" }), .act (.send false .accepted),
    .act (.create true 6 { telemetryData := lit "b" }), .act (.send true .accepted), .receiveFrom true] ++
  List.replicate 6 (.act .print) ++
  [.act .free, .act (.create true 6 { telemetryData := lit "c" }), .act (.send true .accepted),
    .receiveFrom true, .act .print]

theorem poller_prints_in_order_sameAddress : ∃ s : Fifo Bool,
    (fifo Bool).run sameAddress {} = some s ∧ s.zmq.printed.length = 7 ∧
    s.zmq.fault = false ∧ ∃ taken : List (Bool × GrpcPayload),
      s.zmq.printed ++ s.zmq.unprinted = taken.flatMap (fun e => printout e.2) ∧
      ∀ i, ∃ waiting, s.accepted i = Channels.takenFrom i taken ++ waiting ∧
        (s.queues i).map s.zmq.content = waiting.map some := by
  have hrun : ((fifo Bool).run sameAddress {}).map (fun s => s.zmq.printed.length) = some 7 := by
    decide
  obtain ⟨s, hs, hlength⟩ := Option.map_eq_some_iff.mp hrun
  exact ⟨s, hs, hlength, poller_prints_in_order ⟨sameAddress, hs⟩⟩

end Fifo

end MdtDialoutCollector.Core
