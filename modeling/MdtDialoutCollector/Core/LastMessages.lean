import MdtDialoutCollector.Core.Drain
import MdtDialoutCollector.Core.Returns
import MdtDialoutCollector.Core.WorkerLoop
import MdtDialoutCollector.Data.Parts
import Mathlib.Data.Fintype.Sigma

/-! The last messages. When the servers are shut down there may be messages that have come
and have not been handled. The loops return only after they have handled these, on every
stream and whatever the interleaving of the workers; an operation that one of them starts on
its queue after that was shut down ends the process before. -/

namespace MdtDialoutCollector.Core

open Data DataManipulation External Json Labels Runs Text Utils

instance : Fintype Vendor := ⟨{.cisco, .juniper, .nokia, .huawei}, by intro v; cases v <;> simp⟩

namespace Fsm

variable {v : Vendor} {m : ℤ} {s t : Fsm} {a : Action} {b : Addr}

/-- A call of `HandleMessage` is made for the event of a Read with a message. -/
theorem read_of_handle {self : Addr} {ok : Bool} {st : Stream}
    (h : .handleMessage b ∈ (streamProceed m self ok st).2) :
    b = self ∧ st.state = .read ∧ ok = true := by
  rw [streamProceed] at h
  cases hstate : st.state with
  | create => cases ok <;> simp [hstate] at h
  | read =>
    cases ok with
    | false => simp [hstate] at h
    | true =>
      simp only [hstate, Bool.not_true, Bool.false_eq_true, if_false] at h
      split_ifs at h <;> simpa using h
  | finishing => simp [hstate] at h
  | done => simp [hstate] at h

/-- After the shutdown no message gets in hand. -/
theorem inHand_of_step (hs : Tracked s) (ha : Cancels a) (hstep : s.step v m a = some t)
    (h : History.InHand t b) : History.InHand s b := by
  cases steps_of_step hstep with
  | @complete op ok hp =>
    refine h.imp_left fun hq => ?_
    rw [Multiset.mem_cons] at hq
    rcases hq with hq | hq
    · cases hq
      exact absurd (ha rfl) (by simp)
    · exact hq
  | spawn htodo hfree =>
    rw [History.InHand, htodo]
    exact h.imp_right (List.mem_cons_of_mem _)
  | read htodo =>
    rw [History.InHand, htodo]
    exact h.imp_right (List.mem_cons_of_mem _)
  | finish htodo =>
    rw [History.InHand, htodo]
    exact h.imp_right (List.mem_cons_of_mem _)
  | handle htodo =>
    rw [History.InHand, htodo]
    exact h.imp_right (List.mem_cons_of_mem _)
  | @delete _ self cs htodo =>
    rw [History.InHand, htodo]
    refine Or.imp_right (List.mem_cons_of_mem _) ?_
    rw [deleteThis] at h
    cases hheap : Fsm.heap { s with todo := cs } self <;> rw [hheap] at h <;> exact h
  | @next op ok htodo hx hq =>
    obtain ⟨st, hheap, hawaits⟩ := hs.awaits htodo hq
    rw [proceed] at h
    simp only [hheap, Vendor.proceed_eq] at h
    left
    rcases h with h | h
    · exact Multiset.mem_of_mem_erase h
    · obtain ⟨rfl, hstate, rfl⟩ := read_of_handle h
      rw [hstate] at hawaits
      obtain ⟨self, kind⟩ := op
      cases hawaits
      exact hq
  | nextFalse htodo hx hcq hp hq => exact h
  | serverShutdown => exact h
  | cqShutdown hserver => exact h

/-- The step makes a stream at the address. -/
def Makes (s : Fsm) (act : Action) (a : Addr) : Prop := act = .call a ∧ ∃ cs, s.todo = .spawn :: cs

theorem Makes.free (h : Makes s a b) (hstep : s.step v m a = some t) : s.heap b = none := by
  obtain ⟨rfl, cs, htodo⟩ := h
  cases steps_of_step hstep with
  | spawn htodo' hfree => exact hfree
  | read htodo' | finish htodo' | handle htodo' | delete htodo' =>
    rw [htodo, List.cons.injEq] at htodo'
    cases htodo'.1

end Fsm

namespace History

variable {μ : Type} {v : Vendor} {m : ℕ} {h h' : History μ} {act : Fsm.Action} {msg : μ} {a : Addr}

theorem logs_of_makes (ha : h.fsm.Makes act a) (hstep : History.step v m h (act, msg) = some h') :
    h'.logs a = {} := by
  obtain ⟨rfl, cs, htodo⟩ := ha
  rw [History.step, Option.map_eq_some_iff] at hstep
  obtain ⟨t, -, rfl⟩ := hstep
  simp only [log, htodo, logCall, Function.update_self]

/-- After the shutdown no message is added to a log. -/
theorem logs_of_cancels (hact : Fsm.Cancels act) (ha : ¬h.fsm.Makes act a)
    (hstep : History.step v m h (act, msg) = some h') :
    (h'.logs a).request = (h.logs a).request ∧ (h'.logs a).arrived = (h.logs a).arrived := by
  rw [History.step, Option.map_eq_some_iff] at hstep
  obtain ⟨t, -, rfl⟩ := hstep
  cases act with
  | complete op ok =>
    obtain ⟨self, kind⟩ := op
    cases kind with
    | read =>
      cases ok with
      | true => exact absurd (hact rfl) (by simp)
      | false => exact ⟨rfl, rfl⟩
    | request | finish => cases ok <;> exact ⟨rfl, rfl⟩
  | call fresh =>
    simp only [log]
    cases htodo : h.fsm.todo with
    | nil => exact ⟨rfl, rfl⟩
    | cons c cs =>
      cases c with
      | spawn =>
        have hfresh : a ≠ fresh := by
          rintro rfl
          exact ha ⟨rfl, cs, htodo⟩
        simp only [logCall]
        rw [Function.update_of_ne hfresh]
        exact ⟨rfl, rfl⟩
      | read self | finish self | handleMessage self | deleteThis self =>
        simp only [logCall]
        by_cases hself : a = self
        · subst hself
          rw [Function.update_self]
          exact ⟨rfl, rfl⟩
        · rw [Function.update_of_ne hself]
          exact ⟨rfl, rfl⟩
  | next op ok => exact ⟨rfl, rfl⟩
  | nextFalse => exact ⟨rfl, rfl⟩
  | serverShutdown => exact hact.elim
  | cqShutdown => exact ⟨rfl, rfl⟩

/-- Where there is no stream there is no message in hand. -/
theorem Recorded.not_inHand (hr : Recorded m h) (hheap : h.fsm.heap a = none) :
    ¬InHand h.fsm a := by
  have hlogged := hr.logged a
  rw [hheap] at hlogged
  have hwaiting : (work h.fsm a).waiting = 0 := congrArg Work.waiting hlogged.1
  have hhandling : (work h.fsm a).handling = 0 := congrArg Work.handling hlogged.1
  rw [InHand, not_or]
  exact ⟨Multiset.count_eq_zero.mp hwaiting, List.count_eq_zero.mp hhandling⟩

end History

namespace Loop

open History

variable {v : Vendor} {m : ℕ} {l l' : Loop} {act : Fsm.Action} {sent : Sent} {a : Addr}

theorem numbers_of_makes (ha : l.history.fsm.Makes act a) (hstep : l.step v m act sent = some l') :
    l.handles act = none ∧ l'.spawned = l.spawned + 1 ∧
      l'.numbers = Function.update l.numbers a (l.spawned + 1) := by
  obtain ⟨rfl, cs, htodo⟩ := ha
  rw [Loop.step, Option.map_eq_some_iff] at hstep
  obtain ⟨h', -, rfl⟩ := hstep
  rw [handles, htodo, number_spawn htodo]
  exact ⟨rfl, rfl, rfl⟩

theorem numbers_of_not_makes (ha : ¬l.history.fsm.Makes act a)
    (hstep : l.step v m act sent = some l') : l'.numbers a = l.numbers a := by
  rw [Loop.step, Option.map_eq_some_iff] at hstep
  obtain ⟨h', -, rfl⟩ := hstep
  show (l.number act).numbers a = l.numbers a
  by_cases hspawn : ∃ fresh, l.history.fsm.Makes act fresh
  · obtain ⟨fresh, rfl, cs, htodo⟩ := hspawn
    have hfresh : a ≠ fresh := by
      rintro rfl
      exact ha ⟨rfl, cs, htodo⟩
    rw [number_spawn htodo]
    exact Function.update_of_ne hfresh _ _
  · rw [number_of_not_spawn]
    rintro fresh c cs rfl htodo rfl
    exact hspawn ⟨fresh, rfl, cs, htodo⟩

end Loop

/-! ### What is in hand at the shutdown -/

/-- A message that `HandleMessage` returns on, from a peer with a port. -/
structure Harmless (J : JsonCpp) (P : Protobuf) (ctx : Context) (x : Sent) : Prop where
  port : ∃ port, stoi (parsePeer x.peer).port = .ok port
  readable : Readable J P ctx x.msg

namespace Serving

open History

variable {J : JsonCpp} {P : Protobuf} {T : Transport} {ctx : Context} {m workers : Vendor → ℕ}
  {s t u : Serving workers} {a : Action workers}

/-- The messages in hand are harmless. -/
def Calm (J : JsonCpp) (P : Protobuf) (ctx : Context) (s : Serving workers) : Prop :=
  ∀ i b x, InHand (s.loops i).history.fsm b → ((s.loops i).history.logs b).request = some x →
    Harmless J P ctx x

/-- After the shutdown the messages in hand are among those that were so before. -/
theorem Calm.step (hs : InOrder m s) (hcalm : Calm J P ctx s) (ha : Fsm.Cancels a.act)
    (h : Serving.step J P T ctx m s a = some t) : Calm J P ctx t := by
  apply loops_of_step (fun _ l => ∀ b x, InHand l.history.fsm b →
    (l.history.logs b).request = some x → Harmless J P ctx x) hcalm h
  intro l hl b x hhand hx
  have htracked := ((hs.loops a.worker).recorded).tracked
  apply hcalm a.worker b x (Fsm.inHand_of_step htracked ha (Loop.fsm_of_step hl) hhand)
  by_cases hmakes : (s.loops a.worker).history.fsm.Makes a.act b
  · rw [logs_of_makes hmakes (Loop.history_of_step hl)] at hx
    cases hx
  · rw [← (logs_of_cancels ha hmakes (Loop.history_of_step hl)).1]
    exact hx

/-- A call is made on the stream of a live address. -/
theorem InOrder.callsOn_of_step (hs : InOrder m s) (h : Serving.step J P T ctx m s a = some t)
    {i : WorkerId workers} {n : ℕ}
    (hn : i = a.worker → ∀ b, (s.loops i).numbers b = n → n = 0) :
    callsOn t.calls i n = callsOn s.calls i n := by
  obtain ⟨-, l, hstep, -, hcall⟩ := step_cases h
  rcases hcall with ⟨-, hcalls, -⟩ | ⟨c, hworker, hhandles, hcalls, -⟩
  · rw [hcalls]
  · rw [hcalls]
    apply callsOn_append_of_ne
    by_cases hi : c.worker = i
    · right
      rw [← hworker] at hstep hhandles
      obtain ⟨-, hborn, -⟩ := hs.handle hstep hhandles 0
      obtain ⟨self, -, -, hself, -⟩ := Loop.exists_of_handles hhandles
      rintro rfl
      rw [hi] at hself
      exact hborn (hn (hi.symm.trans hworker) self hself)
    · exact .inl hi

/-- What becomes of the stream that the address `b` has in `s`: its messages are in the log of
`b` as long as the address is its own, and all have been handled when it is not. -/
inductive Followed (s t : Serving workers) (i : WorkerId workers) (b : Addr) : Prop
  | own (hnumber : (t.loops i).numbers b = (s.loops i).numbers b)
      (harrived : ((t.loops i).history.logs b).arrived = ((s.loops i).history.logs b).arrived)
  | gone (hcalls : callsOn t.calls i ((s.loops i).numbers b) = ((s.loops i).history.logs b).arrived)
      (hle : (s.loops i).numbers b ≤ (t.loops i).spawned)
      (hfree : ∀ c, (t.loops i).numbers c = (s.loops i).numbers b → (s.loops i).numbers b = 0)

theorem Followed.step {i : WorkerId workers} {b : Addr} (ht : InOrder m t) (hf : Followed s t i b)
    (ha : Fsm.Cancels a.act) (h : Serving.step J P T ctx m t a = some u) : Followed s u i b := by
  obtain ⟨-, l, hstep, hloops, hcall⟩ := step_cases h
  have hsound := ht.loops i
  by_cases hi : i = a.worker
  swap
  · have hloop : u.loops i = t.loops i := by rw [hloops, Function.update_of_ne hi]
    have hkept : ∀ n, callsOn u.calls i n = callsOn t.calls i n := fun n =>
      ht.callsOn_of_step h fun hi' => absurd hi' hi
    cases hf with
    | own hnumber harrived => exact .own (hloop ▸ hnumber) (hloop ▸ harrived)
    | gone hcalls hle hfree =>
      exact .gone ((hkept _).trans hcalls) (hloop ▸ hle) (hloop ▸ hfree)
  · subst hi
    have hloop : u.loops a.worker = l := by rw [hloops, Function.update_self]
    cases hf with
    | own hnumber harrived =>
      by_cases hmakes : (t.loops a.worker).history.fsm.Makes a.act b
      · -- the address is given to a new stream, so that the old one has been deleted
        obtain ⟨hnone, hspawned, hnumbers⟩ := Loop.numbers_of_makes hmakes hstep
        have hcalls : u.calls = t.calls := by
          rcases hcall with ⟨-, hcalls, -⟩ | ⟨c, -, hhandles, -⟩
          · exact hcalls
          · rw [hnone] at hhandles
            cases hhandles
        have hgone := hsound.recorded.not_inHand (hmakes.free (Loop.fsm_of_step hstep))
        have hle := hsound.numbers_le b
        refine .gone ?_ ?_ fun c hc => ?_
        · rw [hcalls, ← hnumber, ht.calls_eq_arrived hgone]
          exact harrived
        · rw [hloop]
          omega
        · rw [hloop, hnumbers] at hc
          by_cases hb : c = b
          · rw [hb, Function.update_self] at hc
            omega
          · rw [Function.update_of_ne hb, ← hnumber] at hc
            by_contra hne
            rw [← hnumber, ← hc] at hne
            exact hb (hsound.distinct c b hc hne)
      · refine .own ?_ ?_
        · rw [hloop, Loop.numbers_of_not_makes hmakes hstep]
          exact hnumber
        · rw [hloop, (logs_of_cancels ha hmakes (Loop.history_of_step hstep)).2]
          exact harrived
    | gone hcalls hle hfree =>
      have hkept := ht.callsOn_of_step h fun _ => hfree
      refine .gone (hkept.trans hcalls) ?_ fun c hc => ?_
      · rw [hloop]
        exact hle.trans (Loop.spawned_le_of_step hstep)
      · rw [hloop] at hc
        by_cases hmakes : (t.loops a.worker).history.fsm.Makes a.act c
        · obtain ⟨-, -, hnumbers⟩ := Loop.numbers_of_makes hmakes hstep
          rw [hnumbers, Function.update_self] at hc
          omega
        · rw [Loop.numbers_of_not_makes hmakes hstep] at hc
          exact hfree c hc

/-! ### The end of the workers -/

/-- What is left to do in all the loops. -/
def stepsLeft (s : Serving workers) : ℕ := ∑ i, (s.loops i).history.fsm.stepsLeft

theorem InOrder.stepsLeft_lt (hs : InOrder m s) (ha : Fsm.Cancels a.act)
    (h : Serving.step J P T ctx m s a = some t) : t.stepsLeft < s.stepsLeft := by
  obtain ⟨-, l, hstep, hloops, -⟩ := step_cases h
  have hlt : l.history.fsm.stepsLeft < (s.loops a.worker).history.fsm.stepsLeft :=
    ((hs.loops a.worker).recorded).tracked.stepsLeft_lt ha (Loop.fsm_of_step hstep)
  rw [Serving.stepsLeft, Serving.stepsLeft, hloops]
  exact sum_update_lt (fun l => l.history.fsm.stepsLeft) s.loops hlt

/-- The servers of all the workers are shut down. -/
def ShutDown (s : Serving workers) : Prop := ∀ i, (s.loops i).history.fsm.serverShutdown = true

theorem ShutDown.step (hs : ShutDown s) (h : Serving.step J P T ctx m s a = some t) :
    ShutDown t := by
  apply loops_of_step (fun _ l => l.history.fsm.serverShutdown = true) hs h
  intro l hl
  exact Fsm.serverShutdown_of_step (Loop.fsm_of_step hl) (hs a.worker)

/-- No worker has started an operation late. -/
def OnTime (s : Serving workers) : Prop := ∀ i, (s.loops i).history.fsm.startedLate = false

instance (s : Serving workers) : Decidable s.OnTime :=
  inferInstanceAs (Decidable (∀ i, (s.loops i).history.fsm.startedLate = false))

/-- There is a step after this one only as long as nothing was started late. -/
def Alive (s : Serving workers) (_ : Action workers) : Prop := s.OnTime

instance (s : Serving workers) (a : Action workers) : Decidable (Alive s a) :=
  inferInstanceAs (Decidable s.OnTime)

/-- The queue of a worker is shut down in a quiet state only. -/
def QuietShutdown (s : Serving workers) (a : Action workers) : Prop :=
  Fsm.QuietShutdown (s.loops a.worker).history.fsm a.act

instance (s : Serving workers) (a : Action workers) : Decidable (QuietShutdown s a) :=
  inferInstanceAs (Decidable (Fsm.QuietShutdown (s.loops a.worker).history.fsm a.act))

/-- After the shutdown of its queue every loop stays quiet. -/
def Stopped (s : Serving workers) : Prop := ∀ i, (s.loops i).history.fsm.Stopped

theorem Stopped.onTime (h : Stopped s) : OnTime s := fun i => (h i).onTime

theorem Stopped.step (hstopped : Stopped s) (hs : InOrder m s) (ha : Fsm.Cancels a.act)
    (hquiet : QuietShutdown s a) (h : Serving.step J P T ctx m s a = some t) : Stopped t := by
  apply loops_of_step (fun _ l => l.history.fsm.Stopped) hstopped h
  intro l hl
  have htracked := ((hs.loops a.worker).recorded).tracked
  exact (hstopped a.worker).step htracked ha.serverFails hquiet (Loop.fsm_of_step hl)

/-- What holds of the workers from the shutdown in `s` on. -/
structure Finishing (J : JsonCpp) (P : Protobuf) (ctx : Context) (m : Vendor → ℕ)
    (s t : Serving workers) : Prop where
  order : InOrder m t
  shut : ShutDown t
  calm : Calm J P ctx t
  followed : ∀ i b, Followed s t i b

theorem Finishing.step (h : Finishing J P ctx m s t) (ha : Fsm.Cancels a.act)
    (hstep : Serving.step J P T ctx m t a = some u) :
    Finishing J P ctx m s u ∧ u.stepsLeft < t.stepsLeft :=
  ⟨⟨h.order.step hstep, h.shut.step hstep, h.calm.step h.order ha hstep,
    fun i b => (h.followed i b).step h.order ha hstep⟩, h.order.stepsLeft_lt ha hstep⟩

end Serving

end MdtDialoutCollector.Core
