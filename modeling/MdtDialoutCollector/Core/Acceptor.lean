import MdtDialoutCollector.Core.StreamLife
import Mathlib.Data.Multiset.Count

/-! The acceptor of a `RunFsm` loop: the one stream whose `Request` is outstanding. An
accepted stream spawns its successor, so requests in flight and spawns about to be made are
counted together, and their number never changes while no `Request` fails. -/

namespace MdtDialoutCollector.Core.Fsm

open Data Runs

variable {v : Vendor} {maxReplies : ℤ} {s t : Fsm}

/-- No `Request` completes with `ok` false. -/
def RequestsSucceed (_ : Fsm) : Action → Prop
  | .complete op ok => op.2 = .request → ok = true
  | _ => True

instance (s : Fsm) : ∀ a, Decidable (RequestsSucceed s a)
  | .complete op ok => inferInstanceAs (Decidable (op.2 = .request → ok = true))
  | .call _ | .next _ _ | .nextFalse | .serverShutdown | .cqShutdown => isTrue trivial

/-- The requests among some operations. -/
def requests (ops : Multiset Operation) : ℕ := ops.countP fun op => op.2 = .request

/-- Requests outstanding, and spawns the worker is about to make. -/
def acceptors (s : Fsm) : ℕ := requests s.outstanding + s.todo.count .spawn

theorem requests_cons (op : Operation) (ops : Multiset Operation) :
    requests (op ::ₘ ops) = requests ops + if op.2 = .request then 1 else 0 := by
  rw [requests, Multiset.countP_cons]
  rfl

/-- An accepted stream spawns one more; no other completion makes `Proceed` spawn. -/
theorem count_spawn_streamProceed (maxReplies : ℤ) (self : Addr) (ok : Bool) (st : Stream) :
    (streamProceed maxReplies self ok st).2.count .spawn =
      if st.state = .create ∧ ok = true then 1 else 0 := by
  rw [streamProceed]
  cases st.state with
  | create => cases ok <;> simp
  | read =>
    cases ok with
    | false => simp
    | true => split_ifs <;> simp_all
  | finishing => simp
  | done => simp

structure Armed (s : Fsm) : Prop where
  one : s.acceptors = 1
  queued : ∀ q ∈ s.queued, q.1.2 = .request → q.2 = true

theorem armed_start : Armed {} where
  one := rfl
  queued _ hq := absurd hq (Multiset.notMem_zero _)

theorem Armed.complete (h : Armed s) {op : Operation} {ok : Bool} (hp : op ∈ s.pending)
    (hok : op.2 = .request → ok = true) :
    Armed { s with pending := s.pending.erase op, queued := (op, ok) ::ₘ s.queued } where
  one := by
    rw [acceptors, outstanding_complete hp]
    exact h.one
  queued q hq := by
    rcases Multiset.mem_cons.mp hq with rfl | hq
    · exact hok
    · exact h.queued q hq

/-- A call that starts no request and makes no stream leaves the count as it is. -/
theorem Armed.call (h : Armed s) {c : Call} {cs : List Call} (htodo : s.todo = c :: cs)
    (hc : c ≠ .spawn) (hpending : requests t.pending = requests s.pending)
    (hqueued : t.queued = s.queued) (ht : t.todo = cs) : Armed t where
  one := by
    have hone := h.one
    rw [acceptors, outstanding, requests, Multiset.countP_add, htodo,
      List.count_cons_of_ne hc] at hone
    rw [acceptors, outstanding, requests, Multiset.countP_add, ht, hqueued]
    rw [requests, requests] at hpending
    rw [hpending]
    exact hone
  queued := by
    rw [hqueued]
    exact h.queued

theorem Armed.next (h : Armed s) (htracked : Tracked s) {op : Operation} {ok : Bool}
    (htodo : s.todo = []) (hq : (op, ok) ∈ s.queued) :
    Armed ({ s with queued := s.queued.erase (op, ok) }.proceed v maxReplies op.1 ok) := by
  obtain ⟨st, hheap, hawaits⟩ := htracked.awaits htodo hq
  have hone := h.one
  rw [acceptors, outstanding_next hq, requests_cons, htodo] at hone
  rw [proceed]
  simp only [hheap, Vendor.proceed_eq]
  refine ⟨?_, fun q hq' => h.queued q (Multiset.mem_of_mem_erase hq')⟩
  rw [acceptors, count_spawn_streamProceed]
  have hstate : st.state = .create ∧ ok = true ↔ op.2 = .request := by
    constructor
    · rintro ⟨hst, -⟩
      rw [hst] at hawaits
      exact (Option.some.inj hawaits).symm
    · intro hop
      refine ⟨?_, h.queued _ hq hop⟩
      rw [hop] at hawaits
      cases hst : st.state <;> simp [hst, StreamState.awaits] at hawaits ⊢
  simp only [hstate]
  exact hone

theorem Armed.step (h : Armed s) (htracked : Tracked s) {a : Action} (hok : RequestsSucceed s a)
    (hstep : s.step v maxReplies a = some t) : Armed t := by
  cases steps_of_step hstep with
  | complete hp => exact h.complete hp hok
  | @spawn fresh cs htodo hfree =>
    refine ⟨?_, h.queued⟩
    have hone := h.one
    rw [acceptors, htodo, List.count_cons_self] at hone
    rw [acceptors, outstanding_startOp, requests_cons, if_pos rfl]
    show requests s.outstanding + 1 + cs.count .spawn = 1
    omega
  | read htodo =>
    exact h.call htodo (by simp) (by simp [startOp, requests]) rfl rfl
  | finish htodo =>
    exact h.call htodo (by simp) (by simp [startOp, requests]) rfl rfl
  | handle htodo => exact h.call htodo (by simp) rfl rfl rfl
  | delete htodo =>
    rw [deleteThis]
    split
    · exact h.call htodo (by simp) rfl rfl rfl
    · exact h.call htodo (by simp) rfl rfl rfl
  | next htodo hx hq => exact h.next htracked htodo hq
  | nextFalse htodo _ _ hp hq => exact ⟨h.one, h.queued⟩
  | serverShutdown => exact ⟨h.one, h.queued⟩
  | cqShutdown hserver => exact ⟨h.one, h.queued⟩

/-- As long as no `Request` has failed, between two events exactly one stream is in `Create`,
its `Request` is the one outstanding, and no other request is. -/
theorem one_acceptor (v : Vendor) (maxReplies : ℤ) {as : List Action} {s : Fsm}
    (h : (runFsm v maxReplies).run as (runFsm v maxReplies).start = some s)
    (hok : (runFsm v maxReplies).Meets RequestsSucceed as (runFsm v maxReplies).start)
    (htodo : s.todo = []) :
    ∃ a st, s.heap a = some st ∧ st.state = .create ∧ slot s.outstanding a = {.request} ∧
      (∀ b st, s.heap b = some st → st.state = .create → b = a) ∧
      ∀ b, (b, .request) ∈ s.outstanding → b = a := by
  obtain ⟨htracked, harmed⟩ : Tracked s ∧ Armed s :=
    (runFsm v maxReplies).run_preserves (I := fun s => Tracked s ∧ Armed s)
      (fun _ _ _ hs hC hstep => ⟨hs.1.step hstep, hs.2.step hs.1 hC hstep⟩)
      ⟨tracked_start, armed_start⟩ hok h
  have hone := harmed.one
  rw [acceptors, htodo, List.count_nil, Nat.add_zero, requests, Multiset.countP_eq_card_filter,
    Multiset.card_eq_one] at hone
  obtain ⟨⟨a, k⟩, hone⟩ := hone
  have hmem : ∀ b k', (b, k') ∈ s.outstanding ∧ k' = .request ↔ b = a ∧ k' = k := by
    intro b k'
    have hb : (b, k') ∈ s.outstanding.filter (fun op => op.2 = .request) ↔ (b, k') = (a, k) := by
      rw [hone, Multiset.mem_singleton]
    rwa [Multiset.mem_filter, Prod.mk.injEq] at hb
  obtain ⟨hout, rfl⟩ := (hmem a k).mpr ⟨rfl, rfl⟩
  have hstream : ∀ b st, s.heap b = some st →
      ∃ k, st.state.awaits = some k ∧ slot s.outstanding b = {k} :=
    fun b st hst => htracked.operation hst (by simp [htodo])
  have hduty : (a, .op .request) ∈ s.duties := by
    rw [duties_of_todo_nil htodo]
    exact Multiset.mem_map_of_mem (Prod.map id Duty.op) hout
  obtain ⟨ds, hds⟩ := Multiset.exists_cons_of_mem hduty
  obtain ⟨st, hst, -, hkind⟩ := htracked.of_cons hds
  have hawaits := hkind .request rfl
  obtain ⟨k, hk, hslot⟩ := hstream a st hst
  rw [hawaits, Option.some.injEq] at hk
  subst hk
  refine ⟨a, st, hst, ?_, hslot, fun b st' hst' hcreate => ?_, fun b hb => ?_⟩
  · cases hstate : st.state <;> simp [hstate, StreamState.awaits] at hawaits ⊢
  · obtain ⟨k, hk, hslot⟩ := hstream b st' hst'
    rw [hcreate, StreamState.awaits, Option.some.injEq] at hk
    subst hk
    have hb : (b, .request) ∈ s.outstanding := by
      rw [← mem_slot, hslot]
      exact Multiset.mem_singleton_self _
    exact ((hmem b .request).mp ⟨hb, rfl⟩).1
  · exact ((hmem b .request).mp ⟨hb, rfl⟩).1

/-- Two streams are accepted one after the other. -/
def twoAccepted : List Action :=
  [.call 7, .complete (7, .request) true, .next (7, .request) true, .call 9, .call 0,
    .complete (9, .request) true, .next (9, .request) true, .call 4, .call 0]

theorem one_acceptor_two_accepted :
    ∃ s, (runFsm .juniper 0).run twoAccepted (runFsm .juniper 0).start = some s ∧
      ∃ a st, s.heap a = some st ∧ st.state = .create ∧ slot s.outstanding a = {.request} ∧
        (∀ b st, s.heap b = some st → st.state = .create → b = a) ∧
        ∀ b, (b, .request) ∈ s.outstanding → b = a := by
  refine ⟨_, rfl, ?_⟩
  have hok : (runFsm .juniper 0).Meets RequestsSucceed twoAccepted (runFsm .juniper 0).start := by
    decide
  exact one_acceptor .juniper 0 rfl hok rfl

end MdtDialoutCollector.Core.Fsm
