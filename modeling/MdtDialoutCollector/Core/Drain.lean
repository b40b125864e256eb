import MdtDialoutCollector.Core.LateStart
import Mathlib.Algebra.BigOperators.Group.Multiset.Basic
import Mathlib.Algebra.Order.Group.Nat
import Mathlib.Algebra.GroupWithZero.Nat
import Mathlib.Data.Fintype.EquivFin

/-! How a loop comes to its end. Once the server is shut down gRPC gives no call and no
message any more: every Request and every Read that is outstanding ends without one. What
is left to do for each operation is then bounded, whatever is in flight, so that the loop
runs dry by itself. It returns once its completion queue is shut down too, or gRPC ends the
process over an operation started after that; where the queue is quiet when it is shut
down, nothing is started late. -/

namespace MdtDialoutCollector.Core

open Data Runs

namespace Fsm

variable {v : Vendor} {m : ℤ} {s t : Fsm} {a : Action}

/-- The steps after the server's shutdown: no Request and no Read succeeds. What becomes of a
run in which an operation is started late is not said here but by `Alive`. -/
def Cancels : Action → Prop
  | .complete op ok => ok = true → op.2 = .finish
  | .serverShutdown => False
  | _ => True

/-! ### What is left to do -/

/-- The steps that an operation can still give rise to: its completion, the event, the calls
of `Proceed` and the operations that these start. -/
def pendingCost : OpKind → ℕ
  | .request => 3
  | .read => 6
  | .finish => 3

/-- An event that came before the shutdown may have brought a call or a message. -/
def queuedCost : OpKind → Bool → ℕ
  | .request, true => 12
  | .request, false => 2
  | .read, true => 9
  | .read, false => 5
  | .finish, _ => 2

def callCost : Call → ℕ
  | .spawn => 4
  | .read _ => 7
  | .finish _ => 4
  | .handleMessage _ => 1
  | .deleteThis _ => 1

def stepsLeft (s : Fsm) : ℕ :=
  (s.pending.map fun op => pendingCost op.2).sum + (s.queued.map fun e => queuedCost e.1.2 e.2).sum +
    (s.todo.map callCost).sum + (!s.exited).toNat + (!s.cqShutdown).toNat

theorem stepsLeft_startOp (s : Fsm) (op : Operation) :
    (s.startOp op).stepsLeft = s.stepsLeft + pendingCost op.2 := by
  simp only [stepsLeft, startOp, Multiset.map_cons, Multiset.sum_cons]
  omega

theorem stepsLeft_call {c : Call} {cs : List Call} (h : s.todo = c :: cs) :
    s.stepsLeft = stepsLeft { s with todo := cs } + callCost c := by
  simp only [stepsLeft, h, List.map_cons, List.sum_cons]
  omega

theorem stepsLeft_complete {op : Operation} (ok : Bool) (h : op ∈ s.pending) :
    stepsLeft { s with pending := s.pending.erase op, queued := (op, ok) ::ₘ s.queued } +
      pendingCost op.2 = s.stepsLeft + queuedCost op.2 ok := by
  have hsum : _ = (s.pending.map fun op => pendingCost op.2).sum := Multiset.sum_map_erase h
  simp only [stepsLeft, Multiset.map_cons, Multiset.sum_cons]
  omega

theorem stepsLeft_next {op : Operation} {ok : Bool} (heap : Addr → Option Stream) (cs : List Call)
    (htodo : s.todo = []) (h : (op, ok) ∈ s.queued) :
    stepsLeft { s with queued := s.queued.erase (op, ok), heap := heap, todo := cs } +
      queuedCost op.2 ok = s.stepsLeft + (cs.map callCost).sum := by
  have hsum : queuedCost op.2 ok +
      ((s.queued.erase (op, ok)).map fun e => queuedCost e.1.2 e.2).sum =
      (s.queued.map fun e => queuedCost e.1.2 e.2).sum :=
    Multiset.sum_map_erase (f := fun e : Operation × Bool => queuedCost e.1.2 e.2) h
  simp only [stepsLeft, htodo, List.map_nil, List.sum_nil]
  omega

/-- An event costs more than the calls that it leads to. -/
theorem callCost_streamProceed_lt (self : Addr) {kind : OpKind} (ok : Bool) {st : Stream}
    (h : st.state.awaits = some kind) :
    ((streamProceed m self ok st).2.map callCost).sum < queuedCost kind ok := by
  rw [streamProceed]
  cases hstate : st.state with
  | create =>
    rw [hstate] at h
    cases h
    cases ok <;> simp [callCost, queuedCost]
  | read =>
    rw [hstate] at h
    cases h
    cases ok with
    | false => simp [callCost, queuedCost]
    | true =>
      simp only [Bool.not_true, Bool.false_eq_true, if_false]
      split_ifs <;> simp [callCost, queuedCost]
  | finishing =>
    rw [hstate] at h
    cases h
    simp [callCost, queuedCost]
  | done =>
    rw [hstate] at h
    cases h

/-- Every step uses up some of what is left to do. -/
theorem Tracked.stepsLeft_lt (h : Tracked s) (ha : Cancels a) (hstep : s.step v m a = some t) :
    t.stepsLeft < s.stepsLeft := by
  cases a with
  | cqShutdown =>
    rw [Fsm.step, Option.ite_none_right_eq_some] at hstep
    obtain ⟨⟨-, hcq⟩, hstep⟩ := hstep
    cases hstep
    simp [stepsLeft, hcq]
  | serverShutdown => exact absurd ha id
  | complete op ok =>
    cases steps_of_step hstep with
    | complete hp =>
      have hcost : queuedCost op.2 ok < pendingCost op.2 := by
        have hok : ok = true → op.2 = .finish := ha
        cases hkind : op.2 <;> cases ok <;> simp_all [queuedCost, pendingCost]
      have hleft := stepsLeft_complete ok hp
      omega
  | call fresh =>
    cases steps_of_step hstep with
    | spawn htodo hfree =>
      rw [stepsLeft_startOp, stepsLeft_call htodo]
      show stepsLeft { s with todo := _ } + 3 < stepsLeft { s with todo := _ } + 4
      omega
    | read htodo =>
      rw [stepsLeft_startOp, stepsLeft_call htodo]
      simp [pendingCost, callCost]
    | finish htodo =>
      rw [stepsLeft_startOp, stepsLeft_call htodo]
      simp [pendingCost, callCost]
    | handle htodo =>
      rw [stepsLeft_call htodo]
      simp [callCost]
    | @delete _ self cs htodo =>
      rw [stepsLeft_call htodo, deleteThis]
      cases s.heap self <;> simp [callCost, stepsLeft]
  | next op ok =>
    cases steps_of_step hstep with
    | next htodo hx hq =>
      obtain ⟨st, hheap, hawaits⟩ := h.awaits htodo hq
      rw [proceed]
      simp only [hheap, Vendor.proceed_eq]
      have hcalls := callCost_streamProceed_lt (m := m) op.1 ok hawaits
      have hleft := stepsLeft_next (Function.update s.heap op.1
        (some (streamProceed m op.1 ok st).1)) (streamProceed m op.1 ok st).2 htodo hq
      omega
  | nextFalse =>
    cases steps_of_step hstep with
    | nextFalse htodo hx hcq hp hq => simp [stepsLeft, hx]

/-! ### The loop is never stuck -/

/-- Nothing is in flight, and no stream is left. -/
structure Idle (s : Fsm) : Prop where
  todo : s.todo = []
  pending : s.pending = 0
  queued : s.queued = 0
  heap : ∀ a, s.heap a = none

theorem Tracked.idle (h : Tracked s) (htodo : s.todo = []) (hp : s.pending = 0)
    (hq : s.queued = 0) : Idle s where
  todo := htodo
  pending := hp
  queued := hq
  heap a := by
    have howed := h.owed a
    rw [duties, outstanding, htodo, hp, hq] at howed
    cases hheap : s.heap a with
    | none => rfl
    | some st =>
      rw [hheap] at howed
      rcases howed with hdelete | ⟨k, -, hop⟩
      · exact absurd hdelete (Multiset.zero_ne_singleton _)
      · exact absurd hop (Multiset.zero_ne_singleton _)

theorem serverShutdown_of_step (hstep : s.step v m a = some t) (h : s.serverShutdown = true) :
    t.serverShutdown = true := by
  cases steps_of_step hstep with
  | complete hp => exact h
  | spawn htodo hfree => exact h
  | read htodo => exact h
  | finish htodo => exact h
  | handle htodo => exact h
  | @delete fresh self cs htodo =>
    rw [deleteThis]
    cases Fsm.heap { s with todo := cs } self <;> exact h
  | @next op ok htodo hx hq =>
    rw [proceed]
    cases Fsm.heap { s with queued := s.queued.erase (op, ok) } op.1 <;> exact h
  | nextFalse htodo hx hcq hp hq => exact h
  | serverShutdown => rfl
  | cqShutdown hserver => exact h

/-- There is a step after this one only as long as nothing was started late: gRPC ends the
process then. -/
def Alive (s : Fsm) (_ : Action) : Prop := s.startedLate = false

instance (s : Fsm) (a : Action) : Decidable (Alive s a) :=
  inferInstanceAs (Decidable (s.startedLate = false))

theorem Idle.quiet (h : Idle s) : Quiet s.todo s.pending s.queued := by
  rw [h.todo, h.pending, h.queued]
  exact ⟨by simp, by simp, by simp⟩

theorem Cancels.serverFails (h : Cancels a) : ServerFails s a := by
  cases a with
  | complete op ok =>
    intro _ hkind
    by_contra hok
    exact hkind (h (by simpa using hok))
  | call | next | nextFalse | serverShutdown | cqShutdown => trivial

/-- What holds of a loop whose server is shut down. -/
structure Draining (s : Fsm) : Prop where
  tracked : Tracked s
  server : s.serverShutdown = true

theorem Draining.step (h : Draining s) (ha : Cancels a) (hstep : s.step v m a = some t) :
    Draining t ∧ t.stepsLeft < s.stepsLeft :=
  ⟨⟨h.tracked.step hstep, serverShutdown_of_step hstep h.server⟩, h.tracked.stepsLeft_lt ha hstep⟩

end Fsm

end MdtDialoutCollector.Core
