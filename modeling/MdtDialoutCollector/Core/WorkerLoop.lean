import MdtDialoutCollector.Core.RepliesCounter
import MdtDialoutCollector.Core.Sequence

/-! The workers at work. Each runs `RunFsm` over its own completion queue with the streams
of its vendor, and whatever the interleaving of the loops and of the streams of each, what
the process hands over is what the calls of `HandleMessage` amount to one after another;
on every stream these are made in the order in which its messages came. -/

namespace MdtDialoutCollector.Core

open Data DataManipulation External Json Labels Runs Text Utils

/-- What a Read brings, on the stream of its peer. -/
structure Sent where
  peer : Bytes
  msg : Message

/-- A loop with what its streams have gone through. The streams are numbered from one in the
order they are made, since an address may be given to a later one. -/
structure Loop where
  history : History Sent := {}
  spawned : ℕ := 0
  numbers : Addr → ℕ := fun _ => 0

/-- A call of `HandleMessage`, on a stream of a worker. -/
structure HandleCall (workers : Vendor → ℕ) where
  worker : WorkerId workers
  stream : ℕ
  sent : Sent
  labelMap : LabelMap
  now : Int64

def HandleCall.received {workers : Vendor → ℕ} (c : HandleCall workers) : Received workers where
  worker := c.worker
  labelMap := c.labelMap
  now := c.now
  peer := c.sent.peer
  msg := c.sent.msg

namespace Loop

/-- A stream that is made gets the next number. -/
def number (l : Loop) : Fsm.Action → Loop
  | .call fresh =>
    match l.history.fsm.todo with
    | .spawn :: _ => { l with
        spawned := l.spawned + 1
        numbers := Function.update l.numbers fresh (l.spawned + 1) }
    | _ => l
  | _ => l

/-- The stream and the message of a call of `HandleMessage`. -/
def handles (l : Loop) : Fsm.Action → Option (ℕ × Sent)
  | .call _ =>
    match l.history.fsm.todo with
    | .handleMessage self :: _ => (l.history.logs self).request.map fun sent => (l.numbers self, sent)
    | _ => none
  | _ => none

def step (v : Vendor) (maxReplies : ℕ) (l : Loop) (act : Fsm.Action) (sent : Sent) : Option Loop :=
  (History.step v maxReplies l.history (act, sent)).map fun h => { l.number act with history := h }

end Loop

/-- The loops of the workers, and the calls they have made with what these amount to. -/
structure Serving (workers : Vendor → ℕ) where
  loops : WorkerId workers → Loop := fun _ => {}
  calls : List (HandleCall workers) := []
  process : Collector (WorkerId workers) := {}

/-- What was sent in the calls on a stream. -/
def callsOn {workers : Vendor → ℕ} (calls : List (HandleCall workers)) (i : WorkerId workers)
    (stream : ℕ) : List Sent :=
  (calls.filter fun c => c.worker = i ∧ c.stream = stream).map HandleCall.sent

namespace Serving

/-- A step of a worker's loop: `sent` is what a Read that completes brings, `labelMap` and
`now` what the process holds then. -/
structure Action (workers : Vendor → ℕ) where
  worker : WorkerId workers
  act : Fsm.Action
  sent : Sent
  labelMap : LabelMap
  now : Int64

variable {J : JsonCpp} {P : Protobuf} {T : Transport} {ctx : Context} {workers : Vendor → ℕ}
  {m : Vendor → ℕ}

/-- The streams of a vendor carry messages of its type. An exception that leaves
`HandleMessage` ends the process. -/
def step (J : JsonCpp) (P : Protobuf) (T : Transport) (ctx : Context) (m : Vendor → ℕ)
    (s : Serving workers) (a : Action workers) : Option (Serving workers) :=
  if a.sent.msg.vendor = a.worker.1 then
    match (s.loops a.worker).step a.worker.1 (m a.worker.1) a.act a.sent with
    | none => none
    | some l =>
      let loops := Function.update s.loops a.worker l
      match (s.loops a.worker).handles a.act with
      | none => some { s with loops := loops }
      | some (stream, sent) =>
        let c : HandleCall workers := ⟨a.worker, stream, sent, a.labelMap, a.now⟩
        (Collector.step J P T ctx s.process c.received).map fun t =>
          ⟨loops, s.calls ++ [c], t⟩
  else none

end Serving

/-- The workers of a configuration; a stream of vendor `v` ends after `m v` messages. -/
def serving (J : JsonCpp) (P : Protobuf) (T : Transport) (ctx : Context) (m workers : Vendor → ℕ) :
    Machine (Serving workers) (Serving.Action workers) where
  start := {}
  step := Serving.step J P T ctx m

/-! ### What a step of a loop does -/

namespace History

variable {μ : Type} {v : Vendor} {m : ℕ} {h h' : History μ} {act : Fsm.Action} {msg : μ}

/-- Nothing but a stream newly made or a call of `HandleMessage` touches what has been
handled, and no other step makes a stream. -/
inductive Turn (h h' : History μ) (act : Fsm.Action) : Prop
  | spawns {fresh : Addr} {cs : List Call} (hact : act = .call fresh)
      (htodo : h.fsm.todo = .spawn :: cs) (hfree : h.fsm.heap fresh = none)
      (hself : (h'.logs fresh).handled = [])
      (hrest : ∀ a, a ≠ fresh → (h'.logs a).handled = (h.logs a).handled ∧
        (h'.fsm.heap a).isSome = (h.fsm.heap a).isSome)
  | handles {fresh self : Addr} {cs : List Call} (hact : act = .call fresh)
      (htodo : h.fsm.todo = .handleMessage self :: cs)
      (hself : (h'.logs self).handled = (h.logs self).handled ++ [(h.logs self).request])
      (hrest : ∀ a, a ≠ self → (h'.logs a).handled = (h.logs a).handled)
      (hheap : h'.fsm.heap = h.fsm.heap)
  | quiet (hact : ∀ fresh c cs, act = .call fresh → h.fsm.todo = c :: cs →
        c ≠ .spawn ∧ ∀ self, c ≠ .handleMessage self)
      (hrest : ∀ a, (h'.logs a).handled = (h.logs a).handled ∧
        ((h'.fsm.heap a).isSome = true → (h.fsm.heap a).isSome = true))

theorem isSome_proceed (s : Fsm) (self : Addr) (ok : Bool) (a : Addr) :
    ((s.proceed v m self ok).heap a).isSome = (s.heap a).isSome := by
  rw [Fsm.proceed]
  cases hself : s.heap self with
  | none => rfl
  | some st =>
    by_cases ha : a = self
    · simp only [ha, Function.update_self, hself, Option.isSome_some]
    · simp only [Function.update_of_ne ha]

theorem isSome_deleteThis (s : Fsm) (self : Addr) (a : Addr)
    (h : ((s.deleteThis self).heap a).isSome = true) : (s.heap a).isSome = true := by
  rw [Fsm.deleteThis] at h
  cases hself : s.heap self with
  | none =>
    rw [hself] at h
    exact h
  | some st =>
    simp only [hself] at h
    by_cases ha : a = self
    · rw [ha, hself]
      rfl
    · rwa [Function.update_of_ne ha] at h

/-- A call that starts an operation or deletes a stream. -/
theorem Turn.of_call {t : Fsm} {fresh : Addr} {c : Call} {cs : List Call}
    (htodo : h.fsm.todo = c :: cs) (hspawn : c ≠ .spawn) (hhandle : ∀ self, c ≠ .handleMessage self)
    (hheap : ∀ a, (t.heap a).isSome = true → (h.fsm.heap a).isSome = true) :
    Turn h ⟨t, log h.fsm msg h.logs (.call fresh)⟩ (.call fresh) := by
  refine .quiet (fun _ c' _ _ hc => ?_) fun a => ⟨?_, hheap a⟩
  · rw [htodo, List.cons.injEq] at hc
    rw [← hc.1]
    exact ⟨hspawn, hhandle⟩
  · rw [log, htodo]
    exact handled_logCall hspawn hhandle a

theorem turn_of_step (hstep : History.step v m h (act, msg) = some h') : Turn h h' act := by
  rw [History.step, Option.map_eq_some_iff] at hstep
  obtain ⟨t, ht, rfl⟩ := hstep
  cases Fsm.steps_of_step ht with
  | @complete op ok hp =>
    refine .quiet (fun _ _ _ hact => by cases hact) fun a => ⟨?_, id⟩
    exact handled_complete h.fsm msg h.logs op ok a
  | @spawn fresh cs htodo hfree =>
    have hlog : log h.fsm msg h.logs (.call fresh) = Function.update h.logs fresh {} := by
      rw [log, htodo]
      rfl
    refine .spawns rfl htodo hfree ?_ fun a ha => ⟨?_, ?_⟩
    · simp only [hlog, Function.update_self]
    · simp only [hlog, Function.update_of_ne ha]
    · simp only [Fsm.startOp, Function.update_of_ne ha]
  | read htodo => exact .of_call htodo (by simp) (by simp) fun _ => id
  | finish htodo => exact .of_call htodo (by simp) (by simp) fun _ => id
  | @handle fresh self cs htodo =>
    have hlog : log h.fsm msg h.logs (.call fresh) =
        logCall h.fsm fresh h.logs (.handleMessage self) := by
      rw [log, htodo]
    refine .handles rfl htodo ?_ (fun a ha => ?_) rfl
    · simp only [hlog, logCall, Function.update_self]
    · simp only [hlog, logCall, Function.update_of_ne ha]
  | delete htodo => exact .of_call htodo (by simp) (by simp) (isSome_deleteThis _ _)
  | next htodo hx hq =>
    refine .quiet (fun _ _ _ hact => by cases hact) fun a => ⟨rfl, fun ha => ?_⟩
    rwa [isSome_proceed] at ha
  | nextFalse => exact .quiet (fun _ _ _ hact => by cases hact) fun a => ⟨rfl, id⟩
  | serverShutdown => exact .quiet (fun _ _ _ hact => by cases hact) fun a => ⟨rfl, id⟩
  | cqShutdown => exact .quiet (fun _ _ _ hact => by cases hact) fun a => ⟨rfl, id⟩

theorem request_update (logs : Addr → StreamLog μ) {self a : Addr} {l : StreamLog μ} {x : μ}
    (hl : l.request = none ∨ l.request = (logs self).request ∨ l.request = some msg)
    (hx : (Function.update logs self l a).request = some x) :
    (logs a).request = some x ∨ x = msg := by
  by_cases ha : a = self
  · subst ha
    rw [Function.update_self] at hx
    rcases hl with hl | hl | hl
    · rw [hl] at hx
      cases hx
    · exact .inl (hl ▸ hx)
    · rw [hl, Option.some.injEq] at hx
      exact .inr hx.symm
  · rw [Function.update_of_ne ha] at hx
    exact .inl hx

/-- A buffer is filled by a Read that completes and by nothing else. -/
theorem request_of_step (hstep : History.step v m h (act, msg) = some h') {a : Addr} {x : μ}
    (hx : (h'.logs a).request = some x) : (h.logs a).request = some x ∨ x = msg := by
  rw [History.step, Option.map_eq_some_iff] at hstep
  obtain ⟨t, -, rfl⟩ := hstep
  cases act with
  | complete op ok =>
    obtain ⟨self, kind⟩ := op
    by_cases hread : kind = .read ∧ ok = true
    · obtain ⟨rfl, rfl⟩ := hread
      exact request_update h.logs (.inr (.inr rfl)) hx
    · cases kind with
      | read =>
        cases ok with
        | true => exact absurd ⟨rfl, rfl⟩ hread
        | false => exact .inl hx
      | request | finish => cases ok <;> exact .inl hx
  | call fresh =>
    cases htodo : h.fsm.todo with
    | nil =>
      simp only [log, htodo] at hx
      exact .inl hx
    | cons c cs =>
      simp only [log, htodo] at hx
      cases c with
      | spawn => exact request_update h.logs (.inl rfl) hx
      | read self | finish self | handleMessage self | deleteThis self =>
        refine request_update h.logs ?_ hx
        exact .inr (.inl rfl)
  | next op ok => exact .inl hx
  | nextFalse => exact .inl hx
  | serverShutdown => exact .inl hx
  | cqShutdown => exact .inl hx

end History

/-! ### What a loop keeps -/

namespace Loop

open History

variable {v : Vendor} {m : ℕ} {l l' : Loop} {act : Fsm.Action} {sent : Sent}

theorem history_of_step (hstep : l.step v m act sent = some l') :
    History.step v m l.history (act, sent) = some l'.history := by
  rw [Loop.step, Option.map_eq_some_iff] at hstep
  obtain ⟨h', hstep, rfl⟩ := hstep
  exact hstep

theorem fsm_of_step (hstep : l.step v m act sent = some l') :
    l.history.fsm.step v m act = some l'.history.fsm := by
  have hhistory := history_of_step hstep
  rw [History.step, Option.map_eq_some_iff] at hhistory
  obtain ⟨t, ht, heq⟩ := hhistory
  rw [← heq]
  exact ht

theorem number_spawn {fresh : Addr} {cs : List Call} (htodo : l.history.fsm.todo = .spawn :: cs) :
    l.number (.call fresh) = { l with
      spawned := l.spawned + 1
      numbers := Function.update l.numbers fresh (l.spawned + 1) } := by
  rw [number, htodo]

theorem number_of_not_spawn
    (h : ∀ fresh c cs, act = .call fresh → l.history.fsm.todo = c :: cs → c ≠ .spawn) :
    l.number act = l := by
  cases act with
  | call fresh =>
    cases htodo : l.history.fsm.todo with
    | nil => rw [number, htodo]
    | cons c cs =>
      have hspawn := h fresh c cs rfl htodo
      cases c with
      | spawn => exact absurd rfl hspawn
      | _ => rw [number, htodo]
  | _ => rfl

theorem handles_handle {fresh self : Addr} {cs : List Call}
    (htodo : l.history.fsm.todo = .handleMessage self :: cs) :
    l.handles (.call fresh) =
      (l.history.logs self).request.map fun sent => (l.numbers self, sent) := by
  rw [handles, htodo]

theorem handles_of_not_handle (h : ∀ fresh c cs, act = .call fresh →
    l.history.fsm.todo = c :: cs → ∀ self, c ≠ .handleMessage self) : l.handles act = none := by
  cases act with
  | call fresh =>
    cases htodo : l.history.fsm.todo with
    | nil => rw [handles, htodo]
    | cons c cs =>
      have hhandle := h fresh c cs rfl htodo
      cases c with
      | handleMessage self => exact absurd rfl (hhandle self)
      | _ => rw [handles, htodo]
  | _ => rfl

theorem exists_of_handles {stream : ℕ} (h : l.handles act = some (stream, sent)) :
    ∃ self cs, l.history.fsm.todo = .handleMessage self :: cs ∧ l.numbers self = stream ∧
      (l.history.logs self).request = some sent := by
  cases act with
  | call fresh =>
    cases htodo : l.history.fsm.todo with
    | nil => simp [handles, htodo] at h
    | cons c cs =>
      cases c with
      | handleMessage self =>
        rw [handles, htodo] at h
        obtain ⟨x, hx, heq⟩ := Option.map_eq_some_iff.mp h
        cases heq
        exact ⟨self, cs, rfl, rfl, hx⟩
      | spawn | read self | finish self | deleteThis self => simp [handles, htodo] at h
  | complete op ok | next op ok | nextFalse | serverShutdown | cqShutdown => simp [handles] at h

/-- What a step does to the numbers, and which call of `HandleMessage` it makes. -/
inductive Turn (l l' : Loop) (act : Fsm.Action) : Prop
  | spawns {fresh : Addr} (hhandles : l.handles act = none) (hspawned : l'.spawned = l.spawned + 1)
      (hnumbers : l'.numbers = Function.update l.numbers fresh (l.spawned + 1))
      (hself : (l'.history.logs fresh).handled = [])
      (hrest : ∀ a, a ≠ fresh →
        (l'.history.logs a).handled = (l.history.logs a).handled ∧
        (l'.history.fsm.heap a).isSome = (l.history.fsm.heap a).isSome)
  | handles {self : Addr} {cs : List Call} (htodo : l.history.fsm.todo = .handleMessage self :: cs)
      (hhandles : l.handles act =
        (l.history.logs self).request.map fun sent => (l.numbers self, sent))
      (hspawned : l'.spawned = l.spawned) (hnumbers : l'.numbers = l.numbers)
      (hself : (l'.history.logs self).handled =
        (l.history.logs self).handled ++ [(l.history.logs self).request])
      (hrest : ∀ a, a ≠ self → (l'.history.logs a).handled = (l.history.logs a).handled)
      (hheap : l'.history.fsm.heap = l.history.fsm.heap)
  | quiet (hhandles : l.handles act = none) (hspawned : l'.spawned = l.spawned)
      (hnumbers : l'.numbers = l.numbers)
      (hrest : ∀ a, (l'.history.logs a).handled = (l.history.logs a).handled ∧
        ((l'.history.fsm.heap a).isSome = true → (l.history.fsm.heap a).isSome = true))

theorem turn_of_step (hstep : l.step v m act sent = some l') : Turn l l' act := by
  rw [Loop.step, Option.map_eq_some_iff] at hstep
  obtain ⟨h', hstep, rfl⟩ := hstep
  cases History.turn_of_step hstep with
  | @spawns fresh cs hact htodo hfree hself hrest =>
    have hnumber : l.number act = { l with
        spawned := l.spawned + 1
        numbers := Function.update l.numbers fresh (l.spawned + 1) } := by
      rw [hact, number_spawn htodo]
    refine .spawns (handles_of_not_handle fun _ c _ _ hc self => ?_) (congrArg spawned hnumber)
      (congrArg numbers hnumber) hself hrest
    rw [htodo, List.cons.injEq] at hc
    rw [← hc.1]
    simp
  | @handles fresh self cs hact htodo hself hrest hheap =>
    have hnumber : l.number act = l := number_of_not_spawn fun _ c _ _ hc => by
      rw [htodo, List.cons.injEq] at hc
      rw [← hc.1]
      simp
    have hspawned : (l.number act).spawned = l.spawned := congrArg Loop.spawned hnumber
    have hnumbers : (l.number act).numbers = l.numbers := congrArg Loop.numbers hnumber
    refine .handles htodo ?_ hspawned hnumbers hself hrest hheap
    rw [hact, handles_handle htodo]
  | quiet hact hrest =>
    have hnumber : l.number act = l := number_of_not_spawn fun fresh c cs hc htodo =>
      (hact fresh c cs hc htodo).1
    have hspawned : (l.number act).spawned = l.spawned := congrArg Loop.spawned hnumber
    have hnumbers : (l.number act).numbers = l.numbers := congrArg Loop.numbers hnumber
    exact .quiet (handles_of_not_handle fun fresh c cs hc htodo => (hact fresh c cs hc htodo).2)
      hspawned hnumbers hrest

theorem spawned_le_of_step (hstep : l.step v m act sent = some l') : l.spawned ≤ l'.spawned := by
  cases turn_of_step hstep with
  | spawns _ hspawned => omega
  | handles _ _ hspawned => omega
  | quiet _ hspawned => omega

/-- The invariant of a loop: a stream that is alive has a number, and no other stream has it. -/
structure Sound (v : Vendor) (m : ℕ) (l : Loop) : Prop where
  recorded : Recorded m l.history
  vendor : ∀ a sent, (l.history.logs a).request = some sent → sent.msg.vendor = v
  numbered : ∀ a, (l.history.fsm.heap a).isSome = true → l.numbers a ≠ 0
  numbers_le : ∀ a, l.numbers a ≤ l.spawned
  distinct : ∀ a b, l.numbers a = l.numbers b → l.numbers a ≠ 0 → a = b

theorem sound_start (v : Vendor) (m : ℕ) : Sound v m {} where
  recorded := recorded_start
  vendor a sent h := by cases h
  numbered a h := by cases h
  numbers_le a := le_refl 0
  distinct a b _ h := absurd rfl h

/-- The number of a new stream is above those given before. -/
theorem distinct_update {numbers : Addr → ℕ} {n : ℕ} (hle : ∀ a, numbers a ≤ n)
    (hdistinct : ∀ a b, numbers a = numbers b → numbers a ≠ 0 → a = b) (fresh : Addr) {a b : Addr}
    (hab : Function.update numbers fresh (n + 1) a = Function.update numbers fresh (n + 1) b)
    (hne : Function.update numbers fresh (n + 1) a ≠ 0) : a = b := by
  have hlea := hle a
  have hleb := hle b
  by_cases ha : a = fresh
  · by_cases hb : b = fresh
    · rw [ha, hb]
    · rw [ha, Function.update_self, Function.update_of_ne hb] at hab
      omega
  · rw [Function.update_of_ne ha] at hab hne
    by_cases hb : b = fresh
    · rw [hb, Function.update_self] at hab
      omega
    · rw [Function.update_of_ne hb] at hab
      exact hdistinct a b hab hne

theorem Sound.step (hl : l.Sound v m) (hvendor : sent.msg.vendor = v)
    (hstep : l.step v m act sent = some l') : l'.Sound v m := by
  have hturn := turn_of_step hstep
  rw [Loop.step, Option.map_eq_some_iff] at hstep
  obtain ⟨h', hstep, rfl⟩ := hstep
  have hrecorded := hl.recorded.step hstep
  have hrequest : ∀ a sent, (h'.logs a).request = some sent → sent.msg.vendor = v := by
    intro a x hx
    rcases request_of_step hstep hx with hx | rfl
    · exact hl.vendor a x hx
    · exact hvendor
  cases hturn with
  | @spawns fresh _ hspawned hnumbers hself hrest =>
    refine ⟨hrecorded, hrequest, fun a ha => ?_, fun a => ?_, fun a b => ?_⟩
    · rw [hnumbers]
      by_cases hfresh : a = fresh
      · rw [hfresh, Function.update_self]
        omega
      · rw [Function.update_of_ne hfresh]
        rw [(hrest a hfresh).2] at ha
        exact hl.numbered a ha
    · rw [hnumbers, hspawned]
      by_cases hfresh : a = fresh
      · rw [hfresh, Function.update_self]
      · rw [Function.update_of_ne hfresh]
        exact Nat.le_succ_of_le (hl.numbers_le a)
    · rw [hnumbers]
      exact distinct_update hl.numbers_le hl.distinct fresh
  | handles _ _ hspawned hnumbers _ _ hheap =>
    refine ⟨hrecorded, hrequest, fun a ha => ?_, fun a => ?_, ?_⟩
    · rw [hheap] at ha
      rw [hnumbers]
      exact hl.numbered a ha
    · rw [hnumbers, hspawned]
      exact hl.numbers_le a
    · rw [hnumbers]
      exact hl.distinct
  | quiet _ hspawned hnumbers hrest =>
    refine ⟨hrecorded, hrequest, fun a ha => ?_, fun a => ?_, ?_⟩
    · rw [hnumbers]
      exact hl.numbered a ((hrest a).2 ha)
    · rw [hnumbers, hspawned]
      exact hl.numbers_le a
    · rw [hnumbers]
      exact hl.distinct

/-- A stream that is about to handle a message has one in its buffer. -/
theorem Sound.ready (hl : l.Sound v m) {self : Addr} {cs : List Call}
    (htodo : l.history.fsm.todo = .handleMessage self :: cs) :
    ∃ sent, (l.history.logs self).request = some sent ∧ sent.msg.vendor = v ∧
      l.numbers self ≠ 0 := by
  have hhandling : 0 < (work l.history.fsm self).handling := by simp [work, htodo]
  have hlogged := hl.recorded.logged self
  obtain ⟨st, hheap, -⟩ := hlogged.of_busy (by omega)
  have hmessages := hlogged.kept.messages
  have hmem : (l.history.logs self).request ∈ (l.history.logs self).arrived.map some := by
    rw [← hmessages]
    exact List.mem_append_right _ (List.mem_replicate.mpr ⟨by omega, rfl⟩)
  obtain ⟨sent, -, hsent⟩ := List.mem_map.mp hmem
  refine ⟨sent, hsent.symm, hl.vendor self sent hsent.symm, hl.numbered self ?_⟩
  rw [hheap]
  rfl

end Loop

/-! ### The calls on a stream -/

section Calls

variable {workers : Vendor → ℕ} {i : WorkerId workers} {c : HandleCall workers}

theorem callsOn_append_of_ne (calls : List (HandleCall workers)) {stream : ℕ}
    (h : c.worker ≠ i ∨ c.stream ≠ stream) :
    callsOn (calls ++ [c]) i stream = callsOn calls i stream := by
  have hc : ¬(c.worker = i ∧ c.stream = stream) := by
    rintro ⟨hworker, hstream⟩
    rcases h with h | h
    · exact h hworker
    · exact h hstream
  simp [callsOn, hc]

theorem callsOn_append_self (calls : List (HandleCall workers)) :
    callsOn (calls ++ [c]) c.worker c.stream = callsOn calls c.worker c.stream ++ [c.sent] := by
  simp [callsOn]

theorem callsOn_eq_nil {calls : List (HandleCall workers)} {stream : ℕ}
    (h : ∀ c ∈ calls, c.worker = i → c.stream ≠ stream) : callsOn calls i stream = [] := by
  rw [callsOn, List.map_eq_nil_iff, List.filter_eq_nil_iff]
  intro c hc
  simp only [decide_eq_true_eq, not_and]
  exact h c hc

end Calls

/-! ### The process -/

namespace Serving

open History

variable {J : JsonCpp} {P : Protobuf} {T : Transport} {ctx : Context} {m workers : Vendor → ℕ}
  {s t : Serving workers} {a : Action workers}

theorem step_cases (h : Serving.step J P T ctx m s a = some t) :
    a.sent.msg.vendor = a.worker.1 ∧
      ∃ l, (s.loops a.worker).step a.worker.1 (m a.worker.1) a.act a.sent = some l ∧
        t.loops = Function.update s.loops a.worker l ∧
        ((s.loops a.worker).handles a.act = none ∧ t.calls = s.calls ∧ t.process = s.process ∨
          ∃ c : HandleCall workers, c.worker = a.worker ∧
            (s.loops a.worker).handles a.act = some (c.stream, c.sent) ∧
            t.calls = s.calls ++ [c] ∧
            Collector.step J P T ctx s.process c.received = some t.process) := by
  rw [Serving.step, Option.ite_none_right_eq_some] at h
  obtain ⟨hvendor, h⟩ := h
  refine ⟨hvendor, ?_⟩
  cases hloop : (s.loops a.worker).step a.worker.1 (m a.worker.1) a.act a.sent with
  | none =>
    rw [hloop] at h
    cases h
  | some l =>
    refine ⟨l, rfl, ?_⟩
    simp only [hloop] at h
    cases hhandles : (s.loops a.worker).handles a.act with
    | none =>
      simp only [hhandles, Option.some.injEq] at h
      subst h
      exact ⟨rfl, .inl ⟨rfl, rfl, rfl⟩⟩
    | some call =>
      simp only [hhandles, Option.map_eq_some_iff] at h
      obtain ⟨u, hu, rfl⟩ := h
      exact ⟨rfl, .inr ⟨_, rfl, rfl, rfl, hu⟩⟩

/-- What holds of every loop, and of the one of the step after it, holds of every loop then. -/
theorem loops_of_step (p : WorkerId workers → Loop → Prop) (hs : ∀ i, p i (s.loops i))
    (h : Serving.step J P T ctx m s a = some t)
    (hstep : ∀ l, (s.loops a.worker).step a.worker.1 (m a.worker.1) a.act a.sent = some l →
      p a.worker l) : ∀ i, p i (t.loops i) := by
  obtain ⟨-, l, hl, hloops, -⟩ := step_cases h
  rw [hloops]
  exact (Function.forall_update_iff s.loops p).mpr ⟨hstep l hl, fun i _ => hs i⟩

/-- The invariant: the calls on a stream are what its log says has been handled. -/
structure InOrder (m : Vendor → ℕ) (s : Serving workers) : Prop where
  loops : ∀ i, (s.loops i).Sound i.1 (m i.1)
  streams : ∀ c ∈ s.calls, c.stream ≠ 0 ∧ c.stream ≤ (s.loops c.worker).spawned
  handled : ∀ i a, (callsOn s.calls i ((s.loops i).numbers a)).map some =
    ((s.loops i).history.logs a).handled

theorem inOrder_start : InOrder m ({} : Serving workers) where
  loops i := Loop.sound_start i.1 (m i.1)
  streams c hc := by cases hc
  handled i a := rfl

/-- A step that handles no message leaves the calls as they are. -/
theorem InOrder.quiet (hs : InOrder m s) {i : WorkerId workers} {l : Loop}
    (hstep : (s.loops i).step i.1 (m i.1) a.act a.sent = some l)
    (hhandles : (s.loops i).handles a.act = none) (b : Addr) :
    (callsOn s.calls i (l.numbers b)).map some = (l.history.logs b).handled := by
  have hhandled := hs.handled i b
  cases Loop.turn_of_step hstep with
  | @spawns fresh _ hspawned hnumbers hself hrest =>
    rw [hnumbers]
    by_cases hb : b = fresh
    · -- no call has been made on the new number
      rw [hb, Function.update_self, hself, callsOn_eq_nil, List.map_nil]
      intro c hc hworker
      have hle := (hs.streams c hc).2
      rw [hworker] at hle
      omega
    · rw [Function.update_of_ne hb, (hrest b hb).1]
      exact hhandled
  | handles htodo hhandles' =>
    obtain ⟨sent, hsent, -⟩ := (hs.loops i).ready htodo
    rw [hhandles', hsent] at hhandles
    cases hhandles
  | quiet _ _ hnumbers hrest =>
    rw [hnumbers, (hrest b).1]
    exact hhandled

/-- A step that handles a message adds it to the calls on its stream. -/
theorem InOrder.handle (hs : InOrder m s) {l : Loop} {c : HandleCall workers}
    (hstep : (s.loops c.worker).step c.worker.1 (m c.worker.1) a.act a.sent = some l)
    (hhandles : (s.loops c.worker).handles a.act = some (c.stream, c.sent)) (b : Addr) :
    (callsOn (s.calls ++ [c]) c.worker (l.numbers b)).map some = (l.history.logs b).handled ∧
      c.stream ≠ 0 ∧ c.stream ≤ l.spawned := by
  have hsound := hs.loops c.worker
  cases Loop.turn_of_step hstep with
  | spawns hnone =>
    rw [hnone] at hhandles
    cases hhandles
  | @handles self cs htodo hhandles' hspawned hnumbers hself hrest =>
    obtain ⟨sent, hsent, -, hborn⟩ := hsound.ready htodo
    rw [hhandles', hsent, Option.map_some, Option.some.injEq, Prod.mk.injEq] at hhandles
    obtain ⟨hstream, rfl⟩ := hhandles
    rw [hnumbers, hspawned, ← hstream]
    refine ⟨?_, hborn, hsound.numbers_le self⟩
    by_cases hb : b = self
    · rw [hb, hself, hsent, ← hs.handled c.worker self, hstream, callsOn_append_self,
        List.map_append, List.map_singleton]
    · have hne : c.stream ≠ (s.loops c.worker).numbers b := by
        rw [← hstream]
        intro hsame
        exact hb (hsound.distinct self b hsame hborn).symm
      rw [hrest b hb, callsOn_append_of_ne s.calls (.inr hne)]
      exact hs.handled c.worker b
  | quiet hnone =>
    rw [hnone] at hhandles
    cases hhandles

theorem InOrder.step (hs : InOrder m s) (h : Serving.step J P T ctx m s a = some t) :
    InOrder m t := by
  obtain ⟨hvendor, l, hstep, hloops, hcall⟩ := step_cases h
  have hspawned := Loop.spawned_le_of_step hstep
  -- the streams that have been called before
  have hold : ∀ c ∈ s.calls, c.stream ≠ 0 ∧ c.stream ≤ (t.loops c.worker).spawned := by
    intro c hc
    obtain ⟨hne, hle⟩ := hs.streams c hc
    rw [hloops]
    by_cases hworker : c.worker = a.worker
    · rw [hworker] at hle ⊢
      rw [Function.update_self]
      exact ⟨hne, le_trans hle hspawned⟩
    · rw [Function.update_of_ne hworker]
      exact ⟨hne, hle⟩
  refine ⟨loops_of_step _ hs.loops h fun l hl => (hs.loops a.worker).step hvendor hl, ?_,
    fun i b => ?_⟩
  · rcases hcall with ⟨-, hcalls, -⟩ | ⟨c, hworker, hhandles, hcalls, -⟩
    · rw [hcalls]
      exact hold
    · rw [← hworker] at hstep hhandles
      rw [hcalls]
      intro c' hc'
      rcases List.mem_append.mp hc' with hc' | hc'
      · exact hold c' hc'
      · rw [List.mem_singleton.mp hc', hloops, hworker, Function.update_self]
        exact (hs.handle hstep hhandles 0).2
  · rw [hloops]
    by_cases hi : i = a.worker
    · subst hi
      rw [Function.update_self]
      rcases hcall with ⟨hnone, hcalls, -⟩ | ⟨c, hworker, hhandles, hcalls, -⟩
      · rw [hcalls]
        exact hs.quiet hstep hnone b
      · rw [hcalls]
        rw [← hworker] at hstep hhandles ⊢
        exact (hs.handle hstep hhandles b).1
    · rw [Function.update_of_ne hi]
      rcases hcall with ⟨-, hcalls, -⟩ | ⟨c, hworker, -, hcalls, -⟩
      · rw [hcalls]
        exact hs.handled i b
      · rw [hcalls, callsOn_append_of_ne s.calls (.inl fun h => hi (h.symm.trans hworker))]
        exact hs.handled i b

/-- What the calls amount to, one after another. -/
theorem replayed_step (hs : (collector J P T ctx workers).run (s.calls.map HandleCall.received) {} =
      some s.process) (h : Serving.step J P T ctx m s a = some t) :
    (collector J P T ctx workers).run (t.calls.map HandleCall.received) {} = some t.process := by
  obtain ⟨-, l, -, -, hcall⟩ := step_cases h
  rcases hcall with ⟨-, hcalls, hprocess⟩ | ⟨c, -, -, hcalls, hprocess⟩
  · rw [hcalls, hprocess]
    exact hs
  · rw [hcalls, List.map_append, Machine.run_append, hs, Option.bind_some]
    exact (collector J P T ctx workers).run_cons_of_step hprocess []

theorem inOrder_of_reachable (hs : (serving J P T ctx m workers).Reachable s) :
    InOrder m s ∧
      (collector J P T ctx workers).run (s.calls.map HandleCall.received) {} = some s.process :=
  (serving J P T ctx m workers).reachable_invariant
    (I := fun s => InOrder m s ∧
      (collector J P T ctx workers).run (s.calls.map HandleCall.received) {} = some s.process)
    ⟨inOrder_start, rfl⟩ (fun _ _ _ hs hstep => ⟨hs.1.step hstep, replayed_step hs.2 hstep⟩) hs

theorem InOrder.calls_prefix (hs : InOrder m s) (i : WorkerId workers) (a : Addr) :
    callsOn s.calls i ((s.loops i).numbers a) <+: ((s.loops i).history.logs a).arrived := by
  have hmessages := (((hs.loops i).recorded).logged a).kept.messages
  rw [← hs.handled i a] at hmessages
  have hsome : (callsOn s.calls i ((s.loops i).numbers a)).map some <+:
      ((s.loops i).history.logs a).arrived.map some := ⟨_, hmessages⟩
  rwa [List.prefix_map_iff_of_injective (Option.some_injective _)] at hsome

/-- On a stream with no message in hand all that have arrived have been handled. -/
theorem InOrder.calls_eq_arrived (hs : InOrder m s) {i : WorkerId workers} {a : Addr}
    (hhand : ¬InHand (s.loops i).history.fsm a) :
    callsOn s.calls i ((s.loops i).numbers a) = ((s.loops i).history.logs a).arrived := by
  have hmessages := (((hs.loops i).recorded).logged a).kept.messages
  rw [← hs.handled i a] at hmessages
  rw [InHand, not_or] at hhand
  have hwaiting : (work (s.loops i).history.fsm a).waiting = 0 :=
    Multiset.count_eq_zero.mpr hhand.1
  have hhandling : (work (s.loops i).history.fsm a).handling = 0 :=
    List.count_eq_zero.mpr hhand.2
  rw [hwaiting, hhandling, List.replicate_zero, List.append_nil] at hmessages
  exact List.map_injective_iff.mpr (Option.some_injective _) hmessages

/-- Whatever the interleaving of the loops and of their streams, the state of the workers is
that of all their calls of `HandleMessage` made one after another, and the calls on a stream
are its messages in the order in which they came, all of them but one that is in hand. An
address stands for the newest stream at it: an older one is deleted by then, and what is said
of it is said in the state before its address is given away. -/
theorem loops_handle_in_order (hs : (serving J P T ctx m workers).Reachable s) :
    (collector J P T ctx workers).run (s.calls.map HandleCall.received) {} = some s.process ∧
      ∀ i a, callsOn s.calls i ((s.loops i).numbers a) <+: ((s.loops i).history.logs a).arrived ∧
        (¬ InHand (s.loops i).history.fsm a →
          callsOn s.calls i ((s.loops i).numbers a) = ((s.loops i).history.logs a).arrived) := by
  obtain ⟨horder, hreplayed⟩ := inOrder_of_reachable hs
  exact ⟨hreplayed, fun i a => ⟨horder.calls_prefix i a, horder.calls_eq_arrived⟩⟩

/-- A worker has two streams, and a message on each: that of the later stream is handled
first. -/
def twoStreams (i : Fin 2) : List (Action twoHuawei) :=
  [.call 7, .complete (7, .request) true, .next (7, .request) true, .call 9, .call 0,
    .complete (9, .request) true, .next (9, .request) true, .call 5, .call 0,
    .complete (7, .read) true, .complete (9, .read) true, .next (9, .read) true, .call 0, .call 0,
    .next (7, .read) true, .call 0, .call 0].map fun act =>
      ⟨huaweiWorker i, act, ⟨lit "ipv4:192.0.2.1:57400", .huawei (.dataJson (lit "{}"))⟩, .empty, 0⟩

theorem exists_two_calls : ∃ s, (serving Reference.jsonCpp Reference.protobuf acceptAll
    (defaultContext .kafka) (fun _ => 0) twoHuawei).run (twoStreams 1) {} = some s ∧
      s.calls.map HandleCall.stream = [2, 1] := by
  have hcalls : ((serving Reference.jsonCpp Reference.protobuf acceptAll (defaultContext .kafka)
      (fun _ => 0) twoHuawei).run (twoStreams 1) {}).map (fun s => s.calls.map HandleCall.stream) =
      some [2, 1] := by decide
  exact Option.map_eq_some_iff.mp hcalls

theorem loops_handle_in_order_twoStreams : ∃ s : Serving twoHuawei,
    s.calls.map HandleCall.stream = [2, 1] ∧
    (collector Reference.jsonCpp Reference.protobuf acceptAll (defaultContext .kafka) twoHuawei).run
      (s.calls.map HandleCall.received) {} = some s.process ∧
    ∀ i a, callsOn s.calls i ((s.loops i).numbers a) <+: ((s.loops i).history.logs a).arrived ∧
      (¬ InHand (s.loops i).history.fsm a →
        callsOn s.calls i ((s.loops i).numbers a) = ((s.loops i).history.logs a).arrived) := by
  obtain ⟨s, hs, hcalls⟩ := exists_two_calls
  exact ⟨s, hcalls, loops_handle_in_order ⟨twoStreams 1, hs⟩⟩

end Serving

/-! ### What the broker gets -/

section Letters

variable {J : JsonCpp} {P : Protobuf} {T : Transport} {ctx : Context} {workers : Vendor → ℕ}

/-- The envelopes of a worker's calls, each with its call; `seq` is the number before the
first. -/
def letters (J : JsonCpp) (P : Protobuf) (ctx : Context) :
    List (HandleCall workers) → UInt64 → List (HandleCall workers × Record)
  | [], _ => []
  | c :: cs, seq =>
    let rs := messageEnvelopes J P { ctx with labelMap := c.labelMap } c.now c.sent.peer c.sent.msg seq
    rs.map (fun r => (c, r)) ++ letters J P ctx cs (seq + UInt64.ofNat rs.length)

/-- What `producer.send` is given: the text of the envelope under the address of the peer. -/
def posted (J : JsonCpp) (e : HandleCall workers × Record) : Handed :=
  .kafka (parsePeer e.1.sent.peer).ip (J.writeString e.2.toValue)

/-- An envelope has a text, so that it is sent. -/
theorem asyncKafkaProducer_envelope (hJ : J.Lawful) {now : Int64} {peer : PeerEndpoint}
    {seq : UInt64} {body : Bytes} {r : Record}
    (h : envelopeOf J ctx now peer seq body = some r) (key : Bytes) :
    (asyncKafkaProducer T key (J.writeString r.toValue)).2 =
      [.kafka key (J.writeString r.toValue)] := by
  obtain ⟨port, rfl⟩ := exists_of_envelopeOf h
  have htext : (J.writeString (envelope seq now ctx.writerId peer.ip port (textValue J body)
      (labelOf (if ctx.labelEncode then some ctx.labelMap else none) peer.ip)).toValue).isEmpty =
      false := by
    rw [List.isEmpty_eq_false_iff]
    exact hJ.writeString_ne_nil (canonical_envelope seq now _ _ port _
      (textValue_canonical hJ body).1)
  rw [asyncKafkaProducer, htext]
  rfl

/-- What one call hands over. -/
theorem handed_of_call (hJ : J.Lawful) (hkafka : ctx.delivery = .kafka) {c : HandleCall workers}
    {s t : Collector (WorkerId workers)}
    (h : Collector.step J P T ctx s c.received = some t) :
    ∃ w rs, t.workers = Function.update s.workers c.worker w ∧
      messageEnvelopes J P { ctx with labelMap := c.labelMap } c.now c.sent.peer c.sent.msg
        (s.workers c.worker).sequenceNumber = rs ∧
      w.handed = (s.workers c.worker).handed ++ rs.map (fun r => posted J (c, r)) ∧
      w.sequenceNumber = (s.workers c.worker).sequenceNumber + UInt64.ofNat rs.length := by
  unfold Collector.step at h
  split_ifs at h
  generalize hctx : ({ ctx with labelMap := c.received.labelMap } : Context) = d at h
  have hdelivery : d.delivery = .kafka := by
    rw [← hctx]
    exact hkafka
  have hctx' : ({ ctx with labelMap := c.labelMap } : Context) = d := hctx
  rw [hctx']
  cases hhandle : handleMessage J P T d c.now c.sent.peer c.sent.msg (s.workers c.worker) with
  | mk result w =>
    cases result with
    | error e =>
      simp only [HandleCall.received, hhandle] at h
      cases h
    | ok _ =>
      simp only [HandleCall.received, hhandle] at h
      cases h
      refine ⟨w, _, rfl, rfl, ?_, handleMessage_sequenceNumber P T c.sent.peer c.sent.msg hhandle⟩
      have hhanded : (handleMessage J P T d c.now c.sent.peer c.sent.msg
          (s.workers c.worker)).2.handed = _ :=
        handleMessage_handed P T hdelivery c.sent.peer c.sent.msg (s.workers c.worker)
      rw [hhandle] at hhanded
      rw [hhanded, ← List.flatMap_pure_eq_map]
      congr 1
      refine List.flatMap_congr fun r hr => ?_
      obtain ⟨k, hk⟩ := List.mem_iff_getElem?.mp hr
      obtain ⟨body, hbody⟩ := getElem?_messageEnvelopes hk
      exact asyncKafkaProducer_envelope hJ hbody _

/-- What a worker hands over in a run of calls. -/
theorem handed_of_calls (hJ : J.Lawful) (hkafka : ctx.delivery = .kafka) (i : WorkerId workers)
    {cs : List (HandleCall workers)} {s t : Collector (WorkerId workers)}
    (h : (collector J P T ctx workers).run (cs.map HandleCall.received) s = some t) :
    (t.workers i).handed = (s.workers i).handed ++
      (letters J P ctx (cs.filter fun c => c.worker = i) (s.workers i).sequenceNumber).map
        (posted J) := by
  induction cs generalizing s with
  | nil =>
    cases h
    exact (List.append_nil _).symm
  | cons c cs ih =>
    rw [List.map_cons, Machine.run_cons, Option.bind_eq_some_iff] at h
    obtain ⟨u, hu, h⟩ := h
    obtain ⟨w, rs, hworkers, hrs, hhanded, hnumber⟩ := handed_of_call hJ hkafka hu
    rw [ih h, hworkers]
    by_cases hi : c.worker = i
    · subst hi
      rw [Function.update_self, hhanded, hnumber, List.filter_cons_of_pos (by simp), letters, hrs,
        List.map_append, List.map_map, List.append_assoc]
      rfl
    · rw [Function.update_of_ne (Ne.symm hi), List.filter_cons_of_neg (by simpa using hi)]

theorem pairOf_getElem?_letters {cs : List (HandleCall workers)} {seq : UInt64} {p : ℕ}
    {e : HandleCall workers × Record} (h : (letters J P ctx cs seq)[p]? = some e) :
    pairOf e.2 = (some (.str ctx.writerId), some (.ofUInt64 (seq + UInt64.ofNat (p + 1)))) := by
  induction cs generalizing seq p with
  | nil => cases h
  | cons c cs ih =>
    rw [letters] at h
    generalize hrs : messageEnvelopes J P { ctx with labelMap := c.labelMap } c.now c.sent.peer
      c.sent.msg seq = rs at h
    simp only [List.getElem?_append, List.length_map, List.getElem?_map] at h
    split_ifs at h with hp
    · obtain ⟨r, hr, rfl⟩ := Option.map_eq_some_iff.mp h
      rw [← hrs] at hr
      obtain ⟨body, hbody⟩ := getElem?_messageEnvelopes hr
      rw [pairOf_envelopeOf hbody]
    · have hindex : rs.length + (p - rs.length + 1) = p + 1 := by omega
      rw [ih h, UInt64.add_assoc, ← UInt64.ofNat_add, hindex]

end Letters

/-- In Kafka mode a worker has sent the envelopes of its calls, in their order and with
nothing between them, under the addresses of their peers, and they are numbered from one. -/
theorem Serving.handed_in_order {J : JsonCpp} {P : Protobuf} {T : Transport} {ctx : Context}
    {m workers : Vendor → ℕ} (hJ : J.Lawful) (hkafka : ctx.delivery = .kafka)
    {s : Serving workers} (hs : (serving J P T ctx m workers).Reachable s) (i : WorkerId workers) :
    (s.process.workers i).handed =
        (letters J P ctx (s.calls.filter fun c => c.worker = i) 0).map (posted J) ∧
      ∀ p e, (letters J P ctx (s.calls.filter fun c => c.worker = i) 0)[p]? = some e →
        pairOf e.2 = numbered ctx.writerId (p + 1) := by
  obtain ⟨-, hreplayed⟩ := inOrder_of_reachable hs
  refine ⟨handed_of_calls hJ hkafka i hreplayed, fun p e he => ?_⟩
  rw [pairOf_getElem?_letters he, UInt64.zero_add]
  rfl

theorem Serving.handed_in_order_twoStreams : ∃ s : Serving twoHuawei,
    s.calls.map HandleCall.stream = [2, 1] ∧
    (s.process.workers (huaweiWorker 1)).handed =
      (letters Reference.jsonCpp Reference.protobuf (defaultContext .kafka)
        (s.calls.filter fun c => c.worker = huaweiWorker 1) 0).map (posted Reference.jsonCpp) := by
  obtain ⟨s, hs, hcalls⟩ := exists_two_calls
  exact ⟨s, hcalls, (handed_in_order Reference.jsonCpp_lawful rfl ⟨twoStreams 1, hs⟩
    (huaweiWorker 1)).1⟩

end MdtDialoutCollector.Core
