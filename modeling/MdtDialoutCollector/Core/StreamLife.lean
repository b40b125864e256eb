import MdtDialoutCollector.Core.Stream

/-! The streams of a `RunFsm` loop and the operations outstanding for them. What the
worker still owes a stream is counted together with what is in flight for it, so that one
invariant covers the states inside `Proceed` as well. -/

namespace MdtDialoutCollector.Core

open Data Runs

/-! ### What a step can do -/

namespace Fsm

/-- The steps of the loop, one constructor a branch of the source. -/
inductive Steps (v : Vendor) (maxReplies : ℤ) (s : Fsm) : Action → Fsm → Prop where
  | complete {op ok} (h : op ∈ s.pending) : Steps v maxReplies s (.complete op ok)
      { s with pending := s.pending.erase op, queued := (op, ok) ::ₘ s.queued }
  | spawn {fresh cs} (h : s.todo = .spawn :: cs) (hf : s.heap fresh = none) :
      Steps v maxReplies s (.call fresh)
        ({ s with todo := cs, heap := Function.update s.heap fresh (some {}) }.startOp
          (fresh, .request))
  | read {fresh self cs} (h : s.todo = .read self :: cs) :
      Steps v maxReplies s (.call fresh) ({ s with todo := cs }.startOp (self, .read))
  | finish {fresh self cs} (h : s.todo = .finish self :: cs) :
      Steps v maxReplies s (.call fresh) ({ s with todo := cs }.startOp (self, .finish))
  | handle {fresh self cs} (h : s.todo = .handleMessage self :: cs) :
      Steps v maxReplies s (.call fresh) { s with todo := cs }
  | delete {fresh self cs} (h : s.todo = .deleteThis self :: cs) :
      Steps v maxReplies s (.call fresh) ({ s with todo := cs }.deleteThis self)
  | next {op ok} (h : s.todo = []) (hx : s.exited = false) (hq : (op, ok) ∈ s.queued) :
      Steps v maxReplies s (.next op ok)
        ({ s with queued := s.queued.erase (op, ok) }.proceed v maxReplies op.1 ok)
  | nextFalse (h : s.todo = []) (hx : s.exited = false) (hcq : s.cqShutdown = true)
      (hp : s.pending = 0) (hq : s.queued = 0) :
      Steps v maxReplies s .nextFalse { s with exited := true }
  | serverShutdown : Steps v maxReplies s .serverShutdown { s with serverShutdown := true }
  | cqShutdown (h : s.serverShutdown = true) :
      Steps v maxReplies s .cqShutdown { s with cqShutdown := true }

variable {v : Vendor} {maxReplies : ℤ} {s t : Fsm} {a : Action}

theorem steps_of_step (h : s.step v maxReplies a = some t) : Steps v maxReplies s a t := by
  cases a with
  | complete op ok =>
    rw [step, Option.ite_none_right_eq_some] at h
    obtain ⟨hp, h⟩ := h
    cases h
    exact .complete hp
  | call fresh =>
    rw [step] at h
    cases htodo : s.todo with
    | nil =>
      rw [htodo] at h
      cases h
    | cons c cs =>
      simp only [htodo] at h
      cases c with
      | spawn =>
        rw [perform, Fsm.spawn, Option.ite_none_right_eq_some] at h
        obtain ⟨hf, h⟩ := h
        cases h
        exact .spawn htodo hf
      | read self => cases h; exact .read htodo
      | finish self => cases h; exact .finish htodo
      | handleMessage self => cases h; exact .handle htodo
      | deleteThis self => cases h; exact .delete htodo
  | next op ok =>
    rw [step, Option.ite_none_right_eq_some] at h
    obtain ⟨⟨htodo, hx, hq⟩, h⟩ := h
    cases h
    exact .next htodo hx hq
  | nextFalse =>
    rw [step, Option.ite_none_right_eq_some] at h
    obtain ⟨⟨htodo, hx, hcq, hp, hq⟩, h⟩ := h
    cases h
    exact .nextFalse htodo hx hcq hp hq
  | serverShutdown =>
    rw [step, Option.ite_none_left_eq_some] at h
    cases h.2
    exact .serverShutdown
  | cqShutdown =>
    rw [step, Option.ite_none_right_eq_some] at h
    obtain ⟨⟨hserver, -⟩, h⟩ := h
    cases h
    exact .cqShutdown hserver

end Fsm

/-! ### Duties -/

/-- An operation in flight or about to be started, or a deletion about to be made. -/
inductive Duty where
  | op (kind : OpKind)
  | delete
  deriving DecidableEq

namespace Call

/-- The stream a call is made on. -/
def self : Call → Option Addr
  | .spawn => none
  | .read a | .finish a | .handleMessage a | .deleteThis a => some a

def duty : Call → Option (Addr × Duty)
  | .spawn | .handleMessage _ => none
  | .read a => some (a, .op .read)
  | .finish a => some (a, .op .finish)
  | .deleteThis a => some (a, .delete)

theorem self_of_duty {c : Call} {d : Addr × Duty} (h : c.duty = some d) : c.self = some d.1 := by
  cases c <;> cases h <;> rfl

end Call

/-- `Proceed` leaves a stream with one duty, its deletion or the operation its new state
waits for. -/
theorem streamProceed_duty (maxReplies : ℤ) (self : Addr) (ok : Bool) (s : Stream) :
    ∃ d, (streamProceed maxReplies self ok s).2.filterMap Call.duty = [(self, d)] ∧
      (d = .delete ∨
        ∃ k, (streamProceed maxReplies self ok s).1.state.awaits = some k ∧ d = .op k) := by
  rw [streamProceed]
  cases s.state with
  | create =>
    cases ok with
    | false => exact ⟨_, rfl, .inl rfl⟩
    | true => exact ⟨_, rfl, .inr ⟨.read, rfl, rfl⟩⟩
  | read =>
    cases ok with
    | false => exact ⟨_, rfl, .inr ⟨.finish, rfl, rfl⟩⟩
    | true =>
      by_cases hm : 0 < maxReplies ∧ maxReplies ≤ (s.replies + 1 : ℕ)
      · simp only [if_pos hm]
        exact ⟨_, rfl, .inr ⟨.finish, rfl, rfl⟩⟩
      · simp only [if_neg hm]
        exact ⟨_, rfl, .inr ⟨.read, rfl, rfl⟩⟩
  | finishing => exact ⟨_, rfl, .inl rfl⟩
  | done => exact ⟨_, rfl, .inl rfl⟩

namespace Fsm

variable {v : Vendor} {maxReplies : ℤ} {s t : Fsm}

/-- What is owed to each stream: the operations outstanding for it, and what the rest of
the current `Proceed` will start on it or delete. -/
def duties (s : Fsm) : Multiset (Addr × Duty) :=
  s.outstanding.map (Prod.map id Duty.op) + Multiset.ofList (s.todo.filterMap Call.duty)

theorem outstanding_complete {op : Operation} {ok : Bool} (h : op ∈ s.pending) :
    outstanding { s with pending := s.pending.erase op, queued := (op, ok) ::ₘ s.queued } =
      s.outstanding := by
  rw [outstanding, outstanding, Multiset.map_cons, Multiset.add_cons, ← Multiset.cons_add,
    Multiset.cons_erase h]

theorem outstanding_next {op : Operation} {ok : Bool} (h : (op, ok) ∈ s.queued) :
    s.outstanding = op ::ₘ (s.pending + (s.queued.erase (op, ok)).map Prod.fst) := by
  rw [outstanding, ← Multiset.add_cons]
  congr 1
  rw [show op = Prod.fst (op, ok) from rfl, ← Multiset.map_cons, Multiset.cons_erase h]

theorem outstanding_startOp (op : Operation) :
    (s.startOp op).outstanding = op ::ₘ s.outstanding :=
  Multiset.cons_add op s.pending (s.queued.map Prod.fst)

theorem duties_startOp (op : Operation) :
    (s.startOp op).duties = (op.1, .op op.2) ::ₘ s.duties := by
  rw [duties, outstanding_startOp, Multiset.map_cons, Multiset.cons_add]
  rfl

theorem duties_of_duty_none {c : Call} {cs : List Call} (h : s.todo = c :: cs)
    (hc : c.duty = none) : s.duties = duties { s with todo := cs } := by
  rw [duties, h, List.filterMap_cons_none hc]
  rfl

theorem duties_of_duty_some {c : Call} {cs : List Call} {d : Addr × Duty} (h : s.todo = c :: cs)
    (hc : c.duty = some d) : s.duties = d ::ₘ duties { s with todo := cs } := by
  rw [duties, h, List.filterMap_cons_some hc, ← Multiset.cons_coe, Multiset.add_cons]
  rfl

theorem duties_of_todo_nil (h : s.todo = []) : s.duties = s.outstanding.map (Prod.map id Duty.op) := by
  rw [duties, h, List.filterMap_nil, Multiset.coe_nil, Multiset.add_zero]

/-- A stream has one duty; a free address has none. -/
def Owed : Option Stream → Multiset Duty → Prop
  | none, d => d = 0
  | some st, d => d = {.delete} ∨ ∃ k, st.state.awaits = some k ∧ d = {.op k}

theorem owed_update {heap : Addr → Option Stream} {self : Addr} {o : Option Stream}
    {d : Multiset (Addr × Duty)} (hself : Owed o (slot d self))
    (hrest : ∀ a, a ≠ self → Owed (heap a) (slot d a)) (a : Addr) :
    Owed (Function.update heap self o a) (slot d a) := by
  by_cases ha : a = self
  · subst ha
    rw [Function.update_self]
    exact hself
  · rw [Function.update_of_ne ha]
    exact hrest a ha

structure Tracked (s : Fsm) : Prop where
  safe : s.fault = false
  owed : ∀ a, Owed (s.heap a) (slot s.duties a)
  exited : s.exited = true → s.todo = [] ∧ s.pending = 0 ∧ s.queued = 0

/-- A stream with a duty is alive, and the duty is its only one. -/
theorem Tracked.of_cons (h : Tracked s) {a : Addr} {d : Duty} {ds : Multiset (Addr × Duty)}
    (hd : s.duties = (a, d) ::ₘ ds) :
    ∃ st, s.heap a = some st ∧ slot ds a = 0 ∧ ∀ k, d = .op k → st.state.awaits = some k := by
  have hslot := h.owed a
  rw [hd] at hslot
  cases hheap : s.heap a with
  | none =>
    rw [hheap, Owed, slot_cons_self] at hslot
    exact absurd hslot Multiset.cons_ne_zero
  | some st =>
    rw [hheap] at hslot
    refine ⟨st, rfl, ?_⟩
    rcases hslot with hslot | ⟨k, hk, hslot⟩
    · obtain ⟨rfl, hzero⟩ := slot_eq_zero_of_cons hslot
      exact ⟨hzero, fun k hk => by cases hk⟩
    · obtain ⟨rfl, hzero⟩ := slot_eq_zero_of_cons hslot
      refine ⟨hzero, fun k' hk' => ?_⟩
      cases hk'
      exact hk

theorem Tracked.complete (h : Tracked s) {op : Operation} {ok : Bool} (hp : op ∈ s.pending) :
    Tracked { s with pending := s.pending.erase op, queued := (op, ok) ::ₘ s.queued } where
  safe := h.safe
  owed a := by
    rw [duties, outstanding_complete hp]
    exact h.owed a
  exited hx := by
    have hzero := (h.exited hx).2.1
    rw [hzero] at hp
    exact absurd hp (Multiset.notMem_zero op)

/-- The worker makes no call after the loop. -/
theorem Tracked.not_exited (h : Tracked s) {c : Call} {cs : List Call} (htodo : s.todo = c :: cs) :
    s.exited = false := by
  by_contra hx
  have hnil := (h.exited (by simpa using hx)).1
  rw [htodo] at hnil
  cases hnil

theorem Tracked.spawn (h : Tracked s) {fresh : Addr} {cs : List Call}
    (htodo : s.todo = .spawn :: cs) (hfree : s.heap fresh = none) :
    Tracked ({ s with todo := cs, heap := Function.update s.heap fresh (some {}) }.startOp
      (fresh, .request)) where
  safe := h.safe
  owed := by
    have hrest : s.duties = duties { s with todo := cs } := duties_of_duty_none htodo rfl
    rw [duties_startOp]
    refine owed_update ?_ fun a ha => ?_
    · have hempty := h.owed fresh
      rw [hfree, Owed, hrest] at hempty
      rw [slot_cons_self]
      exact Or.inr ⟨.request, rfl, congrArg (Multiset.cons (.op .request)) hempty⟩
    · have hslot := h.owed a
      rw [hrest] at hslot
      rw [slot_cons_of_ne (Ne.symm ha)]
      exact hslot
  exited hx := by
    rw [h.not_exited htodo] at hx
    cases hx

theorem Tracked.start (h : Tracked s) {c : Call} {cs : List Call} {op : Operation}
    (htodo : s.todo = c :: cs) (hc : c.duty = some (op.1, .op op.2)) :
    Tracked ({ s with todo := cs }.startOp op) where
  safe := h.safe
  owed a := by
    rw [duties_startOp, ← duties_of_duty_some htodo hc]
    exact h.owed a
  exited hx := by
    rw [h.not_exited htodo] at hx
    cases hx

theorem Tracked.handle (h : Tracked s) {self : Addr} {cs : List Call}
    (htodo : s.todo = .handleMessage self :: cs) : Tracked { s with todo := cs } where
  safe := h.safe
  owed a := by
    rw [← duties_of_duty_none htodo rfl]
    exact h.owed a
  exited hx := by
    rw [h.not_exited htodo] at hx
    cases hx

theorem Tracked.delete (h : Tracked s) {self : Addr} {cs : List Call}
    (htodo : s.todo = .deleteThis self :: cs) : Tracked ({ s with todo := cs }.deleteThis self) := by
  have hrest : s.duties = (self, .delete) ::ₘ duties { s with todo := cs } :=
    duties_of_duty_some htodo rfl
  obtain ⟨st, hheap, hempty, -⟩ := h.of_cons hrest
  rw [deleteThis, hheap]
  refine ⟨h.safe, owed_update hempty fun a ha => ?_, fun hx => ?_⟩
  · have hslot := h.owed a
    rw [hrest, slot_cons_of_ne (Ne.symm ha)] at hslot
    exact hslot
  · have hne := h.not_exited htodo
    rw [show s.exited = true from hx] at hne
    cases hne

theorem duties_next {op : Operation} {ok : Bool} (htodo : s.todo = []) (hq : (op, ok) ∈ s.queued) :
    s.duties = (op.1, .op op.2) ::ₘ
      (s.pending + (s.queued.erase (op, ok)).map Prod.fst).map (Prod.map id Duty.op) := by
  rw [duties_of_todo_nil htodo, outstanding_next hq, Multiset.map_cons]
  rfl

/-- The stream a completion is for is waiting for it. -/
theorem Tracked.awaits (h : Tracked s) {op : Operation} {ok : Bool} (htodo : s.todo = [])
    (hq : (op, ok) ∈ s.queued) : ∃ st, s.heap op.1 = some st ∧ st.state.awaits = some op.2 := by
  obtain ⟨st, hheap, -, hkind⟩ := h.of_cons (duties_next htodo hq)
  exact ⟨st, hheap, hkind op.2 rfl⟩

theorem Tracked.next (h : Tracked s) {op : Operation} {ok : Bool} (htodo : s.todo = [])
    (hx : s.exited = false) (hq : (op, ok) ∈ s.queued) :
    Tracked ({ s with queued := s.queued.erase (op, ok) }.proceed v maxReplies op.1 ok) := by
  have hduties := duties_next htodo hq
  obtain ⟨st, hheap, hempty, -⟩ := h.of_cons hduties
  rw [proceed]
  simp only [hheap, Vendor.proceed_eq]
  obtain ⟨d, hd, howed⟩ := streamProceed_duty maxReplies op.1 ok st
  have hslot : ∀ a ds, slot (ds + Multiset.ofList
      ((streamProceed maxReplies op.1 ok st).2.filterMap Call.duty)) a =
        slot ((op.1, d) ::ₘ ds) a := by
    intro a ds
    rw [hd, Multiset.coe_singleton, Multiset.add_comm, Multiset.singleton_add]
  refine ⟨h.safe, owed_update ?_ fun a ha => ?_, fun hx' => ?_⟩
  · rw [duties, outstanding, hslot, slot_cons_self, hempty]
    rcases howed with rfl | ⟨k, hk, rfl⟩
    · exact Or.inl rfl
    · exact Or.inr ⟨k, hk, rfl⟩
  · have hrest := h.owed a
    rw [hduties, slot_cons_of_ne (Ne.symm ha)] at hrest
    rw [duties, outstanding, hslot, slot_cons_of_ne (Ne.symm ha)]
    exact hrest
  · rw [hx] at hx'
    cases hx'

theorem Tracked.step (h : Tracked s) {a : Action} (hstep : s.step v maxReplies a = some t) :
    Tracked t := by
  cases steps_of_step hstep with
  | complete hp => exact h.complete hp
  | spawn htodo hfree => exact h.spawn htodo hfree
  | read htodo => exact h.start htodo rfl
  | finish htodo => exact h.start htodo rfl
  | handle htodo => exact h.handle htodo
  | delete htodo => exact h.delete htodo
  | next htodo hx hq => exact h.next htodo hx hq
  | nextFalse htodo _ _ hp hq => exact ⟨h.safe, h.owed, fun _ => ⟨htodo, hp, hq⟩⟩
  | serverShutdown => exact ⟨h.safe, h.owed, h.exited⟩
  | cqShutdown => exact ⟨h.safe, h.owed, h.exited⟩

theorem tracked_start : Tracked {} where
  safe := rfl
  owed _ := rfl
  exited hx := by cases hx

theorem tracked_of_reachable (h : (runFsm v maxReplies).Reachable s) : Tracked s :=
  (runFsm v maxReplies).reachable_invariant tracked_start (fun _ _ _ hs hstep => hs.step hstep) h

theorem slot_outstanding (s : Fsm) (a : Addr) (hcalls : ∀ c ∈ s.todo, c.self ≠ some a) :
    slot s.duties a = (slot s.outstanding a).map .op := by
  have hnone : slot (Multiset.ofList (s.todo.filterMap Call.duty)) a = 0 := by
    apply Multiset.eq_zero_of_forall_notMem
    intro d hd
    rw [mem_slot, Multiset.mem_coe, List.mem_filterMap] at hd
    obtain ⟨c, hc, hduty⟩ := hd
    exact hcalls c hc (Call.self_of_duty hduty)
  rw [duties, slot_add, hnone, Multiset.add_zero, slot_map]

/-- A stream that the rest of `Proceed` does not touch waits for one operation. -/
theorem Tracked.operation (h : Tracked s) {a : Addr} {st : Stream} (hst : s.heap a = some st)
    (hcalls : ∀ c ∈ s.todo, c.self ≠ some a) :
    ∃ k, st.state.awaits = some k ∧ slot s.outstanding a = {k} := by
  have howed := h.owed a
  rw [hst, slot_outstanding s a hcalls] at howed
  rcases howed with hdelete | ⟨k, hk, hop⟩
  · obtain ⟨k, -, hk⟩ := Multiset.map_eq_singleton.mp hdelete
    cases hk
  · obtain ⟨k', hslot, hk'⟩ := Multiset.map_eq_singleton.mp hop
    cases hk'
    exact ⟨k, hk, hslot⟩

/-- Between two events each live stream has one operation outstanding, the one its state
waits for, and inside `Proceed` so has every other stream. Tags in flight denote live
streams, no stream is used after its deletion, and none is left when `Next` returns
`false`. -/
theorem one_operation_per_stream (v : Vendor) (maxReplies : ℤ) {s : Fsm}
    (h : (runFsm v maxReplies).Reachable s) :
    s.fault = false ∧
      (∀ op ∈ s.outstanding, ∃ st, s.heap op.1 = some st) ∧
      (∀ a st, s.heap a = some st → (∀ c ∈ s.todo, c.self ≠ some a) →
        ∃ k, st.state.awaits = some k ∧ slot s.outstanding a = {k}) ∧
      (s.exited = true → ∀ a, s.heap a = none) := by
  have htracked := tracked_of_reachable h
  refine ⟨htracked.safe, fun op hop => ?_, fun a st hst hcalls => ?_, fun hx a => ?_⟩
  · obtain ⟨ops, hops⟩ := Multiset.exists_cons_of_mem hop
    have hduties : s.duties = (op.1, .op op.2) ::ₘ
        (ops.map (Prod.map id Duty.op) + Multiset.ofList (s.todo.filterMap Call.duty)) := by
      rw [duties, hops, Multiset.map_cons, Multiset.cons_add]
      rfl
    obtain ⟨st, hst, -⟩ := htracked.of_cons hduties
    exact ⟨st, hst⟩
  · exact htracked.operation hst hcalls
  · obtain ⟨htodo, hp, hq⟩ := htracked.exited hx
    have howed := htracked.owed a
    rw [duties, outstanding, htodo, hp, hq] at howed
    cases hheap : s.heap a with
    | none => rfl
    | some st =>
      rw [hheap] at howed
      rcases howed with hdelete | ⟨k, -, hop⟩
      · exact absurd hdelete (Multiset.zero_ne_singleton _)
      · exact absurd hop (Multiset.zero_ne_singleton _)

/-- The first stream is accepted at address 7 and the second one is spawned at address 9. -/
theorem one_operation_per_stream_accepted :
    ∃ s, (runFsm .cisco 10).run [.call 7, .complete (7, .request) true, .next (7, .request) true,
        .call 9, .call 0] {} = some s ∧
      s.fault = false ∧
      (∀ op ∈ s.outstanding, ∃ st, s.heap op.1 = some st) ∧
      (∀ a st, s.heap a = some st → (∀ c ∈ s.todo, c.self ≠ some a) →
        ∃ k, st.state.awaits = some k ∧ slot s.outstanding a = {k}) ∧
      (s.exited = true → ∀ a, s.heap a = none) := by
  refine ⟨_, rfl, ?_⟩
  apply one_operation_per_stream .cisco 10
  exact ⟨[.call 7, .complete (7, .request) true, .next (7, .request) true, .call 9, .call 0], rfl⟩

end Fsm

end MdtDialoutCollector.Core
