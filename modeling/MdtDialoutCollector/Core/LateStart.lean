import MdtDialoutCollector.Core.StreamLife

/-! `Srv::Shutdown` shuts the completion queue down while the worker still reacts to the
completions queued on it. A stream that reads answers its failed read with a `Finish`, so
the queue has to be quiet before its `Shutdown`. -/

namespace MdtDialoutCollector.Core.Fsm

open Data Runs

variable {v : Vendor} {maxReplies : ℤ} {s t : Fsm}

/-- Once `Server::Shutdown` has been called, requests and reads complete with `ok` false. -/
def ServerFails (s : Fsm) : Action → Prop
  | .complete op ok => s.serverShutdown = true → op.2 ≠ .finish → ok = false
  | _ => True

/-- Calls that start an operation. -/
def Starts : Call → Prop
  | .spawn | .read _ | .finish _ => True
  | .handleMessage _ | .deleteThis _ => False

/-- The completions on which `Proceed` deletes the stream. -/
def Ends (op : Operation) (ok : Bool) : Prop := op.2 = .finish ∨ op.2 = .request ∧ ok = false

/-- The worker starts nothing more: it is not about to, and no completion makes it. -/
def Quiet (todo : List Call) (pending : Multiset Operation)
    (queued : Multiset (Operation × Bool)) : Prop :=
  (∀ c ∈ todo, ¬Starts c) ∧ (∀ op ∈ pending, op.2 ≠ .read) ∧ ∀ q ∈ queued, Ends q.1 q.2

/-- The queue is shut down in a quiet state only. -/
def QuietShutdown (s : Fsm) : Action → Prop
  | .cqShutdown => Quiet s.todo s.pending s.queued
  | _ => True

instance (s : Fsm) : ∀ a, Decidable (ServerFails s a)
  | .complete op ok =>
    inferInstanceAs (Decidable (s.serverShutdown = true → op.2 ≠ .finish → ok = false))
  | .call _ | .next _ _ | .nextFalse | .serverShutdown | .cqShutdown => isTrue trivial

instance : ∀ c, Decidable (Starts c)
  | .spawn | .read _ | .finish _ => isTrue trivial
  | .handleMessage _ | .deleteThis _ => isFalse id

instance (op : Operation) (ok : Bool) : Decidable (Ends op ok) :=
  inferInstanceAs (Decidable (_ ∨ _))

instance (s : Fsm) : ∀ a, Decidable (QuietShutdown s a)
  | .cqShutdown => inferInstanceAs (Decidable (_ ∧ _ ∧ _))
  | .complete _ _ | .call _ | .next _ _ | .nextFalse | .serverShutdown => isTrue trivial

theorem streamProceed_of_ends (self : Addr) {op : Operation} {ok : Bool} {st : Stream}
    (hawaits : st.state.awaits = some op.2) (h : Ends op ok) :
    streamProceed maxReplies self ok st = (st, [.deleteThis self]) := by
  rw [streamProceed]
  rcases h with h | ⟨h, rfl⟩
  · have hst : st.state = .finishing := by
      rw [h] at hawaits
      revert hawaits
      cases st.state <;> simp [StreamState.awaits]
    rw [hst]
  · have hst : st.state = .create := by
      rw [h] at hawaits
      revert hawaits
      cases st.state <;> simp [StreamState.awaits]
    rw [hst]
    rfl

/-- After the queue's shutdown the loop stays quiet. -/
structure Stopped (s : Fsm) : Prop where
  server : s.cqShutdown = true → s.serverShutdown = true
  quiet : s.cqShutdown = true → Quiet s.todo s.pending s.queued
  onTime : s.startedLate = false

theorem stopped_start : Stopped {} where
  server hcq := by cases hcq
  quiet hcq := by cases hcq
  onTime := rfl

/-- Only a spawn changes the heap, to the one with the new stream in it. -/
theorem Stopped.startOp {c : Call} {cs : List Call} (h : Stopped s) (htodo : s.todo = c :: cs)
    (hc : Starts c) (op : Operation) (heap : Addr → Option Stream) :
    Stopped ({ s with todo := cs, heap := heap }.startOp op) := by
  have hopen : s.cqShutdown = false := by
    by_contra hcq
    exact (h.quiet (by simpa using hcq)).1 c (htodo ▸ List.mem_cons_self) hc
  refine ⟨h.server, fun hcq => ?_, ?_⟩
  · rw [show s.cqShutdown = true from hcq] at hopen
    cases hopen
  · show (s.startedLate || s.cqShutdown) = false
    rw [h.onTime, hopen, Bool.or_false]

theorem Stopped.tail {c : Call} {cs : List Call} (h : Stopped s) (htodo : s.todo = c :: cs) :
    Stopped { s with todo := cs } where
  server := h.server
  quiet hcq := by
    obtain ⟨hcalls, hpending, hqueued⟩ := h.quiet hcq
    exact ⟨fun d hd => hcalls d (htodo ▸ List.mem_cons_of_mem c hd), hpending, hqueued⟩
  onTime := h.onTime

theorem Stopped.complete (h : Stopped s) {op : Operation} {ok : Bool} (hp : op ∈ s.pending)
    (hlaw : ServerFails s (.complete op ok)) :
    Stopped { s with pending := s.pending.erase op, queued := (op, ok) ::ₘ s.queued } where
  server := h.server
  quiet hcq := by
    obtain ⟨hcalls, hpending, hqueued⟩ := h.quiet hcq
    refine ⟨hcalls, fun o ho => hpending o (Multiset.mem_of_mem_erase ho), fun q hq => ?_⟩
    rcases Multiset.mem_cons.mp hq with rfl | hq
    · have hread := hpending op hp
      cases hkind : op.2 with
      | request => exact .inr ⟨hkind, hlaw (h.server hcq) (by rw [hkind]; simp)⟩
      | read => exact absurd hkind hread
      | finish => exact .inl hkind
    · exact hqueued q hq
  onTime := h.onTime

theorem Stopped.next (h : Stopped s) (htracked : Tracked s) {op : Operation} {ok : Bool}
    (htodo : s.todo = []) (hq : (op, ok) ∈ s.queued) :
    Stopped ({ s with queued := s.queued.erase (op, ok) }.proceed v maxReplies op.1 ok) := by
  obtain ⟨st, hheap, hawaits⟩ := htracked.awaits htodo hq
  rw [proceed]
  simp only [hheap, Vendor.proceed_eq]
  refine ⟨h.server, fun hcq => ?_, h.onTime⟩
  obtain ⟨-, hpending, hqueued⟩ := h.quiet hcq
  refine ⟨fun c hc => ?_, hpending, fun q hq' => hqueued q (Multiset.mem_of_mem_erase hq')⟩
  rw [streamProceed_of_ends op.1 hawaits (hqueued (op, ok) hq), List.mem_singleton] at hc
  subst hc
  exact id

theorem Stopped.step (h : Stopped s) (htracked : Tracked s) {a : Action}
    (hlaw : ServerFails s a) (hquiet : QuietShutdown s a)
    (hstep : s.step v maxReplies a = some t) : Stopped t := by
  cases steps_of_step hstep with
  | complete hp => exact h.complete hp hlaw
  | spawn htodo hfree => exact h.startOp htodo trivial _ _
  | read htodo => exact h.startOp htodo trivial _ s.heap
  | finish htodo => exact h.startOp htodo trivial _ s.heap
  | handle htodo => exact h.tail htodo
  | delete htodo =>
    have htail := h.tail htodo
    rw [deleteThis]
    split
    · exact ⟨htail.server, htail.quiet, htail.onTime⟩
    · exact ⟨htail.server, htail.quiet, htail.onTime⟩
  | next htodo hx hq => exact h.next htracked htodo hq
  | nextFalse htodo _ _ hp hq => exact ⟨h.server, h.quiet, h.onTime⟩
  | serverShutdown => exact ⟨fun _ => rfl, h.quiet, h.onTime⟩
  | cqShutdown hserver => exact ⟨fun _ => hserver, fun _ => hquiet, h.onTime⟩

/-- No operation is started on the queue after its shutdown, as long as the queue is quiet
when it is shut down. -/
theorem no_late_start (v : Vendor) (maxReplies : ℤ) {as : List Action} {s : Fsm}
    (h : (runFsm v maxReplies).run as (runFsm v maxReplies).start = some s)
    (hlaw : (runFsm v maxReplies).Meets ServerFails as (runFsm v maxReplies).start)
    (hquiet : (runFsm v maxReplies).Meets QuietShutdown as (runFsm v maxReplies).start) :
    s.startedLate = false := by
  have hinv : Tracked s ∧ Stopped s :=
    (runFsm v maxReplies).run_preserves (I := fun s => Tracked s ∧ Stopped s)
      (fun _ _ _ hs hC hstep => ⟨hs.1.step hstep, hs.2.step hs.1 hC.1 hC.2 hstep⟩)
      ⟨tracked_start, stopped_start⟩ (hlaw.and hquiet) h
  exact hinv.2.onTime

/-- The schedule in which the worker is idle while its only stream is being accepted. -/
def idleShutdown : List Action :=
  [.call 7, .serverShutdown, .complete (7, .request) false, .cqShutdown,
    .next (7, .request) false, .call 0, .nextFalse]

theorem no_late_start_idle :
    ∃ s, (runFsm .cisco 10).run idleShutdown (runFsm .cisco 10).start = some s ∧
      s.startedLate = false := by
  refine ⟨_, rfl, ?_⟩
  have hlaw : (runFsm .cisco 10).Meets ServerFails idleShutdown (runFsm .cisco 10).start := by decide
  have hquiet :
      (runFsm .cisco 10).Meets QuietShutdown idleShutdown (runFsm .cisco 10).start := by decide
  exact no_late_start .cisco 10 rfl hlaw hquiet

/-- A stream waits in `Read` when the two shutdowns come. -/
def openStream : List Action :=
  [.call 7, .complete (7, .request) true, .next (7, .request) true, .call 9, .call 0,
    .serverShutdown, .complete (7, .read) false, .complete (9, .request) false, .cqShutdown,
    .next (7, .read) false, .call 0]

/-- The stream's failed read is answered with a `Finish` on the queue already shut down. -/
theorem finish_started_late :
    ¬∀ as s, (runFsm .cisco 10).run as (runFsm .cisco 10).start = some s →
      (runFsm .cisco 10).Meets ServerFails as (runFsm .cisco 10).start → s.startedLate = false := by
  intro h
  have hlaw : (runFsm .cisco 10).Meets ServerFails openStream (runFsm .cisco 10).start := by decide
  have hlate := h openStream _ rfl hlaw
  cases hlate

end MdtDialoutCollector.Core.Fsm
