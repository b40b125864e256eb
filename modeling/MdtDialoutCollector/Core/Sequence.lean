import MdtDialoutCollector.Core.Envelopes
import MdtDialoutCollector.Core.Stream
import MdtDialoutCollector.DataManipulation.EnvelopeBody
import MdtDialoutCollector.External.Reference
import MdtDialoutCollector.Runs.Machine
import Mathlib.Data.Nat.ModEq

/-! The sequence numbers of a process. Every worker of every vendor counts for itself from
zero and writes the same writer id, so an envelope is told apart from the others of its
worker by its number, and from those of another worker by nothing. -/

namespace MdtDialoutCollector.Core

open DataManipulation External Json Labels Runs Text Utils

def Message.vendor : Message → Vendor
  | .cisco _ => .cisco
  | .juniper _ => .juniper
  | .nokia _ => .nokia
  | .huawei _ => .huawei

/-- A worker: its vendor, and which of the vendor's workers it is. -/
abbrev WorkerId (workers : Vendor → ℕ) := (v : Vendor) × Fin (workers v)

/-- The workers of a process, and the envelopes built so far with the worker of each. -/
structure Collector (ι : Type) where
  workers : ι → Worker := fun _ => {}
  built : List (ι × Record) := []

/-- A message that a worker takes from its completion queue, and what the process holds then. -/
structure Received (workers : Vendor → ℕ) where
  worker : WorkerId workers
  labelMap : LabelMap
  now : Int64
  peer : Bytes
  msg : Message

variable {J : JsonCpp} {P : Protobuf} {T : Transport} {ctx : Context} {workers : Vendor → ℕ}

/-- A worker handles a message of its vendor. An exception that leaves its thread ends the
process. -/
def Collector.step (J : JsonCpp) (P : Protobuf) (T : Transport) (ctx : Context)
    (s : Collector (WorkerId workers)) (a : Received workers) :
    Option (Collector (WorkerId workers)) :=
  if a.msg.vendor = a.worker.1 then
    let ctx := { ctx with labelMap := a.labelMap }
    match handleMessage J P T ctx a.now a.peer a.msg (s.workers a.worker) with
    | (.ok (), w) => some {
        workers := Function.update s.workers a.worker w
        built := s.built ++ (messageEnvelopes J P ctx a.now a.peer a.msg
          (s.workers a.worker).sequenceNumber).map fun r => (a.worker, r) }
    | (.error _, _) => none
  else none

/-- The workers of a configuration; `ctx` is what their plumbing reads from it. -/
def collector (J : JsonCpp) (P : Protobuf) (T : Transport) (ctx : Context) (workers : Vendor → ℕ) :
    Machine (Collector (WorkerId workers)) (Received workers) where
  start := {}
  step := Collector.step J P T ctx

/-- How many of the envelopes are the worker's. -/
def count {ι : Type} [DecidableEq ι] (i : ι) (built : List (ι × Record)) : ℕ :=
  built.countP fun e => e.1 = i

/-- The place of an envelope among those of its worker, counted from one. -/
def ordinal {ι : Type} [DecidableEq ι] (built : List (ι × Record)) (p : Fin built.length) : ℕ :=
  count built[p].1 (built.take (p + 1))

/-- What a consumer tells envelopes apart by. -/
def pairOf (r : Record) : Option Value × Option Value :=
  (r.toValue.get? (lit "writer_id"), r.toValue.get? (lit "seq"))

/-- The pair of a worker's `k`-th envelope. -/
def numbered (writerId : Bytes) (k : ℕ) : Option Value × Option Value :=
  (some (.str writerId), some (.ofUInt64 (UInt64.ofNat k)))

theorem numbered_eq_iff (writerId : Bytes) (k l : ℕ) :
    numbered writerId k = numbered writerId l ↔ k ≡ l [MOD 2 ^ 64] := by
  rw [Nat.ModEq]
  simp only [numbered, Prod.mk.injEq, true_and, Option.some.injEq, Value.ofUInt64, Value.int.injEq,
    UInt64.toNat_ofNat']
  exact Int.natCast_inj

/-! ### Each worker counts for itself -/

section Count

variable {ι : Type} [DecidableEq ι]

theorem count_append (i : ι) (built built' : List (ι × Record)) :
    count i (built ++ built') = count i built + count i built' := List.countP_append

theorem count_map_self (i : ι) (rs : List Record) : count i (rs.map fun r => (i, r)) = rs.length := by
  rw [count, List.countP_map, List.countP_eq_length.mpr]
  simp

theorem count_map_of_ne {i j : ι} (h : j ≠ i) (rs : List Record) :
    count i (rs.map fun r => (j, r)) = 0 := by
  rw [count, List.countP_map, List.countP_eq_zero]
  simp [h]

/-- A later envelope of a worker has a greater ordinal. -/
theorem ordinal_lt {built : List (ι × Record)} {p q : Fin built.length} (hpq : p < q)
    (hworker : built[p].1 = built[q].1) : ordinal built p < ordinal built q := by
  have hnext : built.take (q + 1) = built.take q ++ [built[q]] :=
    List.take_succ_eq_append_getElem q.isLt
  have hbefore : (built.take (p + 1)).Sublist (built.take q) := by
    have htake : built.take (p + 1) = (built.take q).take (p + 1) := by
      rw [List.take_take, Nat.min_eq_left (Nat.succ_le_of_lt hpq)]
    rw [htake]
    exact List.take_sublist _ _
  have hle : count built[q].1 (built.take (p + 1)) ≤ count built[q].1 (built.take q) :=
    hbefore.countP_le
  have hlast : count built[q].1 [built[q]] = 1 := by simp [count]
  rw [ordinal, ordinal, hworker, hnext, count_append, hlast]
  omega

end Count

/-- The counters stand at the numbers of envelopes built, and each envelope has the number of
its worker's counter when it was built. -/
structure Numbered (writerId : Bytes) (s : Collector (WorkerId workers)) : Prop where
  counter : ∀ i, (s.workers i).sequenceNumber = UInt64.ofNat (count i s.built)
  pair : ∀ p i r, s.built[p]? = some (i, r) →
    pairOf r = numbered writerId (count i (s.built.take (p + 1)))

theorem pairOf_envelopeOf {now : Int64} {peer : PeerEndpoint} {seq : UInt64} {body : Bytes}
    {r : Record} (h : envelopeOf J ctx now peer seq body = some r) :
    pairOf r = (some (.str ctx.writerId), some (.ofUInt64 seq)) := by
  obtain ⟨port, rfl⟩ := exists_of_envelopeOf h
  have hmem : ∀ telemetryData label, (lit "writer_id", Value.str ctx.writerId) ∈ envelopeMembers seq
      now ctx.writerId peer.ip port telemetryData label ∧
      (lit "seq", Value.ofUInt64 seq) ∈ envelopeMembers seq now ctx.writerId peer.ip port
        telemetryData label := fun _ _ => by simp [envelopeMembers]
  rw [pairOf, get?_envelope seq now ctx.writerId peer.ip port (hmem _ _).1,
    get?_envelope seq now ctx.writerId peer.ip port (hmem _ _).2]

/-- What one step does. -/
theorem Collector.step_cases {s t : Collector (WorkerId workers)} {a : Received workers}
    (h : Collector.step J P T ctx s a = some t) :
    ∃ (w : Worker) (rs : List Record), t.workers = Function.update s.workers a.worker w ∧
      t.built = s.built ++ rs.map (fun r => (a.worker, r)) ∧
      w.sequenceNumber = (s.workers a.worker).sequenceNumber + UInt64.ofNat rs.length ∧
      ∀ k r, rs[k]? = some r → pairOf r = (some (.str ctx.writerId),
        some (.ofUInt64 ((s.workers a.worker).sequenceNumber + UInt64.ofNat (k + 1)))) := by
  unfold Collector.step at h
  split_ifs at h
  generalize hctx : ({ ctx with labelMap := a.labelMap } : Context) = c at h
  have hwriter : c.writerId = ctx.writerId := hctx ▸ rfl
  cases hhandle : handleMessage J P T c a.now a.peer a.msg (s.workers a.worker) with
  | mk result w =>
    cases result with
    | error e =>
      simp only [hhandle] at h
      cases h
    | ok _ =>
      simp only [hhandle] at h
      cases h
      refine ⟨w, _, rfl, rfl, handleMessage_sequenceNumber P T a.peer a.msg hhandle, ?_⟩
      intro k r hr
      obtain ⟨body, hbody⟩ := getElem?_messageEnvelopes hr
      rw [pairOf_envelopeOf hbody, hwriter]

theorem Numbered.step {s t : Collector (WorkerId workers)} {a : Received workers}
    (hs : Numbered ctx.writerId s) (h : Collector.step J P T ctx s a = some t) :
    Numbered ctx.writerId t := by
  obtain ⟨w, rs, hworkers, hbuilt, hnumber, hpairs⟩ := Collector.step_cases h
  have hcount := hs.counter a.worker
  constructor
  · intro i
    rw [hworkers, hbuilt, count_append]
    by_cases hi : a.worker = i
    · subst hi
      rw [Function.update_self, hnumber, hcount, count_map_self, UInt64.ofNat_add]
    · rw [Function.update_of_ne (Ne.symm hi), hs.counter i, count_map_of_ne hi, Nat.add_zero]
  · intro p i r hp
    rw [hbuilt] at hp ⊢
    by_cases hold : p < s.built.length
    · rw [List.getElem?_append_left hold] at hp
      rw [List.take_append_of_le_length hold]
      exact hs.pair p i r hp
    · -- the envelope is one of those just built
      obtain ⟨k, rfl⟩ := Nat.exists_eq_add_of_le (Nat.not_lt.mp hold)
      rw [List.getElem?_append_right (Nat.le_add_right _ k), Nat.add_sub_cancel_left,
        List.getElem?_map, Option.map_eq_some_iff] at hp
      obtain ⟨r', hr', heq⟩ := hp
      cases heq
      have hk : k + 1 ≤ rs.length := (List.getElem?_eq_some_iff.mp hr').1
      have htake : count a.worker ((s.built ++ rs.map fun r => (a.worker, r)).take
          (s.built.length + k + 1)) = count a.worker s.built + (k + 1) := by
        rw [Nat.add_assoc, List.take_append, List.take_of_length_le (Nat.le_add_right _ _),
          Nat.add_sub_cancel_left, count_append, ← List.map_take, count_map_self,
          List.length_take, Nat.min_eq_left hk]
      rw [hpairs k r hr', hcount, htake, numbered, UInt64.ofNat_add (count a.worker s.built)]

theorem numbered_of_reachable {s : Collector (WorkerId workers)}
    (h : (collector J P T ctx workers).Reachable s) : Numbered ctx.writerId s := by
  refine (collector J P T ctx workers).reachable_invariant ⟨fun _ => rfl, ?_⟩
    (fun _ _ _ hs hstep => hs.step hstep) h
  intro p i r hp
  cases hp

theorem pairOf_getElem {s : Collector (WorkerId workers)} (h : Numbered ctx.writerId s)
    (p : Fin s.built.length) :
    pairOf s.built[p].2 = numbered ctx.writerId (ordinal s.built p) :=
  h.pair p s.built[p].1 s.built[p].2 (List.getElem?_eq_getElem p.isLt)

/-- Two envelopes of a process have one pair exactly where their places among those of their
own workers are the same up to the wrap of the counter. -/
theorem same_pair_iff {s : Collector (WorkerId workers)}
    (h : (collector J P T ctx workers).Reachable s) (p q : Fin s.built.length) :
    (pairOf s.built[p].2 = pairOf s.built[q].2 ↔
      ordinal s.built p ≡ ordinal s.built q [MOD 2 ^ 64]) ∧
    (p < q → s.built[p].1 = s.built[q].1 → ordinal s.built p < ordinal s.built q) := by
  have hnumbered := numbered_of_reachable h
  refine ⟨?_, ordinal_lt⟩
  rw [pairOf_getElem hnumbered, pairOf_getElem hnumbered, numbered_eq_iff]

/-! ### Two workers -/

theorem step_dataJson (s : Collector (WorkerId workers)) (a : Received workers) {text : Bytes}
    (hdelivery : ctx.delivery = .kafka) (hworker : a.worker.1 = .huawei)
    (hmsg : a.msg = .huawei (.dataJson text)) (htext : text ≠ []) {port : ℤ}
    (hport : stoi (parsePeer a.peer).port = .ok port) (hfit : Fits J text) :
    ∃ t r, Collector.step J P T ctx s a = some t ∧ t.built = s.built ++ [(a.worker, r)] := by
  have hvendor : a.msg.vendor = a.worker.1 := by
    rw [hmsg, hworker]
    rfl
  have hdelivery' : ({ ctx with labelMap := a.labelMap } : Context).delivery = .kafka := hdelivery
  obtain ⟨w, hw⟩ := handleMessage_dataJson a.now P T hdelivery' htext hport hfit
    (s.workers a.worker)
  have hstep : Collector.step J P T ctx s a = some {
      workers := Function.update s.workers a.worker w
      built := s.built ++ (messageEnvelopes J P { ctx with labelMap := a.labelMap } a.now a.peer
        (.huawei (.dataJson text)) (s.workers a.worker).sequenceNumber).map
          fun r => (a.worker, r) } := by
    rw [Collector.step, if_pos hvendor]
    simp only [hmsg, hw]
  rw [messageEnvelopes_dataJson P hdelivery' htext hport hfit] at hstep
  exact ⟨_, _, hstep, rfl⟩

/-- A configuration with two workers for Huawei. -/
def twoHuawei : Vendor → ℕ
  | .huawei => 2
  | _ => 0

def huaweiWorker (i : Fin 2) : WorkerId twoHuawei := ⟨.huawei, i⟩

def jsonTo (i : Fin 2) : Received twoHuawei where
  worker := huaweiWorker i
  labelMap := .empty
  now := 0
  peer := lit "ipv4:192.0.2.1:57400"
  msg := .huawei (.dataJson (lit "{}"))

/-- Each worker has built one envelope. -/
theorem exists_one_each : ∃ s r r', (collector Reference.jsonCpp Reference.protobuf acceptAll
    (defaultContext .kafka) twoHuawei).Reachable s ∧
      s.built = [(huaweiWorker 0, r), (huaweiWorker 1, r')] := by
  have hport : stoi (parsePeer (lit "ipv4:192.0.2.1:57400")).port = .ok 57400 := by decide
  have hfit : Fits Reference.jsonCpp (lit "{}") := by decide
  have hstep : ∀ (s : Collector (WorkerId twoHuawei)) (i : Fin 2), ∃ t r,
      Collector.step Reference.jsonCpp Reference.protobuf acceptAll (defaultContext .kafka) s
        (jsonTo i) = some t ∧ t.built = s.built ++ [(huaweiWorker i, r)] := fun s i =>
    step_dataJson s (jsonTo i) rfl rfl rfl (by decide) hport hfit
  obtain ⟨t, r, ht, htbuilt⟩ := hstep {} 0
  obtain ⟨u, r', hu, hubuilt⟩ := hstep t 1
  refine ⟨u, r, r', ⟨[jsonTo 0, jsonTo 1], ?_⟩, ?_⟩
  · simp only [Machine.run, collector, ht, hu, Option.bind_some]
  · rw [hubuilt, htbuilt]
    rfl

theorem same_pair_one_each : ∃ (s : Collector (WorkerId twoHuawei)) (p q : Fin s.built.length),
    (collector Reference.jsonCpp Reference.protobuf acceptAll (defaultContext .kafka)
      twoHuawei).Reachable s ∧ p < q ∧
    (pairOf s.built[p].2 = pairOf s.built[q].2 ↔
      ordinal s.built p ≡ ordinal s.built q [MOD 2 ^ 64]) := by
  obtain ⟨s, r, r', hs, hbuilt⟩ := exists_one_each
  have hlength : s.built.length = 2 := by rw [hbuilt]; rfl
  exact ⟨s, ⟨0, by omega⟩, ⟨1, by omega⟩, hs, Nat.one_pos, (same_pair_iff hs _ _).1⟩

/-- The first envelopes of two workers have the same pair. -/
theorem two_workers_repeat : ¬∀ (workers : Vendor → ℕ) (ctx : Context)
    (s : Collector (WorkerId workers)),
    (collector Reference.jsonCpp Reference.protobuf acceptAll ctx workers).Reachable s →
      ∀ p q : Fin s.built.length, p ≠ q → pairOf s.built[p].2 ≠ pairOf s.built[q].2 := by
  intro h
  obtain ⟨s, r, r', hs, hbuilt⟩ := exists_one_each
  have hlength : s.built.length = 2 := by rw [hbuilt]; rfl
  have hnumbered := numbered_of_reachable hs
  have hr : pairOf r = numbered (lit "mdt-dialout-collector") 1 := by
    have hpair := hnumbered.pair 0 (huaweiWorker 0) r (by rw [hbuilt]; rfl)
    rwa [hbuilt] at hpair
  have hr' : pairOf r' = numbered (lit "mdt-dialout-collector") 1 := by
    have hpair := hnumbered.pair 1 (huaweiWorker 1) r' (by rw [hbuilt]; rfl)
    rwa [hbuilt] at hpair
  have hne := h twoHuawei (defaultContext .kafka) s hs ⟨0, by omega⟩ ⟨1, by omega⟩
    (by simp)
  refine hne ?_
  simp only [hbuilt, Fin.getElem_fin, List.getElem_cons_zero, List.getElem_cons_succ]
  exact hr.trans hr'.symm

end MdtDialoutCollector.Core
