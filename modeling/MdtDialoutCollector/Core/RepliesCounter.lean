import MdtDialoutCollector.Core.StreamHistory

/-! The counter of the messages on a stream. It is an `int`; a positive cap keeps it small,
without one it grows with the stream. -/

namespace MdtDialoutCollector.Core

open Data Runs

/-- `INT_MAX`. -/
def intMax : ℕ := 2147483647

namespace History

variable {μ : Type}

/-- The messages handled on a stream, with the one that `HandleMessage` is being called on. -/
def handledCount (h : History μ) (a : Addr) : ℕ :=
  (h.logs a).handled.length + h.fsm.todo.count (.handleMessage a)

/-- Every counter is in the range of its type and tells how many messages have been handled. -/
def RepliesInRange (h : History μ) : Prop :=
  ∀ a st, h.fsm.heap a = some st → st.replies ≤ intMax ∧ st.replies = h.handledCount a

/-- There is a cap, or the stream that a message has arrived on can count one more. -/
def CanCount (m : ℕ) (h : History μ) (act : Fsm.Action × μ) : Prop :=
  ∀ a, act.1 = .next (a, .read) true → 0 < m ∨ (h.logs a).handled.length < intMax

/-- What a step does to the counter of a stream that is there after it. -/
inductive Counts (h h' : History μ) (act : Fsm.Action) (a : Addr) (st' : Stream) : Prop
  | fresh (hst : st'.replies = 0) (hcount : h'.handledCount a = 0)
  | kept {st : Stream} (hst : h.fsm.heap a = some st) (hreplies : st'.replies = st.replies)
      (hcount : h'.handledCount a = h.handledCount a)
  | received {n : ℕ} (hact : act = .next (a, .read) true) (hst : h.fsm.heap a = some ⟨.read, n⟩)
      (hreplies : st'.replies = n + 1) (hbefore : h.handledCount a = (h.logs a).handled.length)
      (hcount : h'.handledCount a = h.handledCount a + 1)

/-! ### One step -/

/-- The counter goes up with the call of `HandleMessage`. -/
theorem streamProceed_replies (maxReplies : ℤ) (self : Addr) (ok : Bool) (st : Stream) :
    (streamProceed maxReplies self ok st).1.replies =
      st.replies + (streamProceed maxReplies self ok st).2.count (.handleMessage self) := by
  rw [streamProceed]
  cases st.state with
  | create => cases ok <;> simp
  | read =>
    cases ok with
    | false => simp
    | true => split_ifs <;> simp
  | finishing => simp
  | done => simp

theorem streamProceed_handles {maxReplies : ℤ} {self : Addr} {ok : Bool} {st : Stream} :
    (streamProceed maxReplies self ok st).2.count (.handleMessage self) =
      if st.state = .read ∧ ok = true then 1 else 0 := by
  rw [streamProceed]
  cases st.state with
  | create => cases ok <;> simp
  | read =>
    cases ok with
    | false => simp
    | true =>
      by_cases hm : 0 < maxReplies ∧ maxReplies ≤ (st.replies + 1 : ℕ)
      · simp only [if_pos hm]
        simp
      · simp only [if_neg hm]
        simp
  | finishing => simp
  | done => simp

section Steps

variable {v : Vendor} {m : ℕ} {h h' : History μ} {a : Addr} {st' : Stream}

/-- A call other than `HandleMessage` leaves the counters and the messages as they were. -/
theorem handledCount_call {c : Call} {cs : List Call} {t : Fsm} {logs : Addr → StreamLog μ}
    (htodo : h.fsm.todo = c :: cs) (ht : t.todo = cs) (hc : c ≠ .handleMessage a)
    (hlogs : (logs a).handled = (h.logs a).handled) :
    handledCount ⟨t, logs⟩ a = h.handledCount a := by
  rw [handledCount, handledCount, hlogs, ht, htodo, List.count_cons_of_ne hc]

theorem Recorded.counts_next (hr : Recorded m h) {op : Operation} {ok : Bool}
    (htodo : h.fsm.todo = []) (hq : (op, ok) ∈ h.fsm.queued)
    (hst' : ({ h.fsm with queued := h.fsm.queued.erase (op, ok) }.proceed v m op.1 ok).heap a =
      some st') :
    Counts h ⟨{ h.fsm with queued := h.fsm.queued.erase (op, ok) }.proceed v m op.1 ok, h.logs⟩
      (.next op ok) a st' := by
  obtain ⟨self, kind⟩ := op
  obtain ⟨st, hheap, hawaits⟩ := hr.tracked.awaits htodo hq
  simp only at hheap hawaits
  rw [Fsm.proceed] at hst' ⊢
  simp only [hheap, Vendor.proceed_eq] at hst' ⊢
  have hbefore : h.handledCount a = (h.logs a).handled.length := by
    rw [handledCount, htodo, List.count_nil, Nat.add_zero]
  by_cases ha : a = self
  · subst ha
    rw [Function.update_self, Option.some_inj] at hst'
    subst hst'
    have hreplies := streamProceed_replies m a ok st
    have hhandles : (streamProceed m a ok st).2.count (.handleMessage a) = _ :=
      streamProceed_handles
    rw [hhandles] at hreplies
    by_cases hread : st.state = .read ∧ ok = true
    · obtain ⟨hstate, rfl⟩ := hread
      obtain ⟨state, n⟩ := st
      simp only at hstate
      subst hstate
      cases hawaits
      refine .received rfl hheap hreplies hbefore ?_
      rw [hbefore, handledCount]
      exact congrArg _ hhandles
    · rw [if_neg hread] at hreplies hhandles
      refine .kept hheap hreplies ?_
      rw [hbefore, handledCount]
      exact congrArg _ hhandles
  · rw [Function.update_of_ne ha] at hst'
    refine .kept hst' rfl ?_
    rw [hbefore, handledCount]
    have hnone : (streamProceed m self ok st).2.count (.handleMessage a) = 0 :=
      List.count_eq_zero.mpr fun hmem => streamProceed_self m self ok st ha _ hmem rfl
    exact congrArg _ hnone

theorem handled_update {logs : Addr → StreamLog μ} {self : Addr} {l : StreamLog μ}
    (hl : l.handled = (logs self).handled) (a : Addr) :
    (Function.update logs self l a).handled = (logs a).handled := by
  by_cases ha : a = self
  · subst ha
    rw [Function.update_self, hl]
  · rw [Function.update_of_ne ha]

theorem handled_complete (s : Fsm) (msg : μ) (logs : Addr → StreamLog μ) (op : Operation) (ok : Bool)
    (a : Addr) : (log s msg logs (.complete op ok) a).handled = (logs a).handled := by
  obtain ⟨self, kind⟩ := op
  cases kind with
  | request => rw [log_complete_of_ne s msg logs self ok (by simp)]
  | finish => rw [log_complete_of_ne s msg logs self ok (by simp)]
  | read =>
    cases ok with
    | false => rfl
    | true => exact handled_update (by rfl) a

theorem handled_logCall {s : Fsm} {fresh : Addr} {logs : Addr → StreamLog μ} {c : Call}
    (hspawn : c ≠ .spawn) (hhandle : ∀ b, c ≠ .handleMessage b) (a : Addr) :
    (logCall s fresh logs c a).handled = (logs a).handled := by
  cases c with
  | spawn => exact absurd rfl hspawn
  | read self => exact handled_update (by rfl) a
  | finish self => exact handled_update (by rfl) a
  | handleMessage self => exact absurd rfl (hhandle self)
  | deleteThis self => exact handled_update (by rfl) a

/-- A call that neither spawns nor handles a message keeps the counters. -/
theorem counts_call {c : Call} {cs : List Call} {t : Fsm} {fresh : Addr}
    (htodo : h.fsm.todo = c :: cs) (ht : t.todo = cs) (hspawn : c ≠ .spawn)
    (hhandle : ∀ b, c ≠ .handleMessage b) (hst : h.fsm.heap a = some st') :
    Counts h ⟨t, logCall h.fsm fresh h.logs c⟩ (.call fresh) a st' :=
  .kept hst rfl (handledCount_call htodo ht (hhandle a) (handled_logCall hspawn hhandle a))

theorem Recorded.counts_spawn (hr : Recorded m h) {fresh : Addr} {cs : List Call}
    (htodo : h.fsm.todo = .spawn :: cs)
    (hst' : Function.update h.fsm.heap fresh (some {}) a = some st') :
    Counts h ⟨{ h.fsm with
      todo := cs, heap := Function.update h.fsm.heap fresh (some {}) }.startOp (fresh, .request),
      logCall h.fsm fresh h.logs .spawn⟩ (.call fresh) a st' := by
  by_cases ha : a = fresh
  · subst ha
    rw [Function.update_self, Option.some_inj] at hst'
    subst hst'
    refine .fresh rfl ?_
    have hnone : cs.count (.handleMessage a) = 0 := by
      have hplan := htodo ▸ hr.plan
      cases hplan <;> simp
    show (Function.update h.logs a {} a).handled.length + cs.count (.handleMessage a) = 0
    rw [Function.update_self, hnone]
    rfl
  · rw [Function.update_of_ne ha] at hst'
    refine .kept hst' rfl (handledCount_call htodo rfl (by simp) ?_)
    rw [logCall, Function.update_of_ne ha]

theorem counts_handle {fresh self : Addr} {cs : List Call}
    (htodo : h.fsm.todo = .handleMessage self :: cs) (hst' : h.fsm.heap a = some st') :
    Counts h ⟨{ h.fsm with todo := cs }, logCall h.fsm fresh h.logs (.handleMessage self)⟩
      (.call fresh) a st' := by
  refine .kept hst' rfl ?_
  by_cases ha : a = self
  · subst ha
    show (Function.update h.logs a _ a).handled.length + cs.count (.handleMessage a) =
      (h.logs a).handled.length + h.fsm.todo.count (.handleMessage a)
    rw [Function.update_self, htodo, List.count_cons_self, List.length_append,
      List.length_singleton]
    omega
  · refine handledCount_call htodo rfl (by simpa using Ne.symm ha) ?_
    rw [logCall, Function.update_of_ne ha]

theorem counts_delete {fresh self : Addr} {cs : List Call}
    (htodo : h.fsm.todo = .deleteThis self :: cs)
    (hst' : ({ h.fsm with todo := cs }.deleteThis self).heap a = some st') :
    Counts h ⟨{ h.fsm with todo := cs }.deleteThis self,
      logCall h.fsm fresh h.logs (.deleteThis self)⟩ (.call fresh) a st' := by
  have htodo' : ({ h.fsm with todo := cs }.deleteThis self).todo = cs := by
    rw [Fsm.deleteThis]
    split <;> rfl
  have hst : h.fsm.heap a = some st' := by
    rw [Fsm.deleteThis] at hst'
    split at hst'
    · exact hst'
    · have hupdate : Function.update h.fsm.heap self none a = some st' := hst'
      by_cases ha : a = self
      · subst ha
        rw [Function.update_self] at hupdate
        cases hupdate
      · rwa [Function.update_of_ne ha] at hupdate
  exact counts_call htodo htodo' (by simp) (by simp) hst

theorem Recorded.counts (hr : Recorded m h) {act : Fsm.Action × μ}
    (hstep : History.step v m h act = some h') (hst' : h'.fsm.heap a = some st') :
    Counts h h' act.1 a st' := by
  obtain ⟨act, msg⟩ := act
  rw [History.step, Option.map_eq_some_iff] at hstep
  obtain ⟨t, ht, rfl⟩ := hstep
  cases Fsm.steps_of_step ht with
  | complete hp =>
    refine .kept hst' rfl ?_
    rw [handledCount, handledCount, handled_complete]
  | @spawn fresh cs htodo hfree =>
    rw [log, htodo]
    exact hr.counts_spawn htodo hst'
  | read htodo =>
    rw [log, htodo]
    exact counts_call htodo rfl (by simp) (by simp) hst'
  | finish htodo =>
    rw [log, htodo]
    exact counts_call htodo rfl (by simp) (by simp) hst'
  | handle htodo =>
    rw [log, htodo]
    exact counts_handle htodo hst'
  | delete htodo =>
    rw [log, htodo]
    exact counts_delete htodo hst'
  | next htodo hx hq => exact hr.counts_next htodo hq hst'
  | nextFalse htodo _ _ hp hq => exact .kept hst' rfl rfl
  | serverShutdown => exact .kept hst' rfl rfl
  | cqShutdown => exact .kept hst' rfl rfl

/-! ### A whole run -/

/-- One more message is counted in range where it can be. -/
theorem RepliesInRange.step (hm : m ≤ 1000) (hr : Recorded m h) (hrange : RepliesInRange h)
    {act : Fsm.Action × μ} (hcan : CanCount m h act) (hstep : History.step v m h act = some h') :
    RepliesInRange h' := by
  intro a st' hst'
  cases hr.counts hstep hst' with
  | fresh hst hcount =>
    rw [hst, hcount]
    exact ⟨Nat.zero_le _, rfl⟩
  | kept hst hreplies hcount =>
    rw [hreplies, hcount]
    exact hrange a _ hst
  | @received n hact hst hreplies hbefore hcount =>
    obtain ⟨-, hcounted⟩ := hrange a _ hst
    simp only at hcounted
    rw [hreplies, hcount]
    refine ⟨?_, by omega⟩
    rcases hcan a hact with hcap | hmax
    · have hfollows := hr.logged a
      rw [hst] at hfollows
      cases hfollows with
      | read n hmsgs hn hbelow =>
        have hlt := hbelow hcap
        rw [intMax]
        omega
    · omega

/-- Where it cannot be counted it is counted out of range. -/
theorem canCount_of_inRange (hr : Recorded m h) (hrange : RepliesInRange h)
    {act : Fsm.Action × μ} (hstep : History.step v m h act = some h')
    (hafter : RepliesInRange h') : CanCount m h act := by
  obtain ⟨act, msg⟩ := act
  rintro a rfl
  right
  rw [History.step, Option.map_eq_some_iff] at hstep
  obtain ⟨t, ht, rfl⟩ := hstep
  cases Fsm.steps_of_step ht with
  | next htodo hx hq =>
    obtain ⟨st, hheap, hawaits⟩ := hr.tracked.awaits htodo hq
    obtain ⟨state, n⟩ := st
    have hread : state = .read := by
      cases state <;> cases hawaits
      rfl
    subst hread
    have hreplies := streamProceed_replies m a true ⟨.read, n⟩
    rw [streamProceed_handles, if_pos ⟨rfl, rfl⟩] at hreplies
    have hnew := hafter a (streamProceed m a true ⟨.read, n⟩).1 (by
      simp only [Fsm.proceed, hheap, Vendor.proceed_eq, Function.update_self])
    have hold := hrange a _ hheap
    rw [handledCount, htodo, List.count_nil] at hold
    have hle := hnew.1
    simp only at hreplies hold
    omega

theorem repliesInRange_start : RepliesInRange ({} : History μ) := by
  intro a st hst
  cases hst

/-- For every number of replies that the configuration allows, the counters of a run stay in
range exactly as long as each message can be counted. -/
theorem replies_in_range_iff (v : Vendor) (hm : m ≤ 1000) {as : List (Fsm.Action × μ)}
    (hrun : (history μ v m).run as (history μ v m).start = some h) :
    (history μ v m).Throughout RepliesInRange as (history μ v m).start ↔
      (history μ v m).Meets (CanCount m) as (history μ v m).start := by
  apply (history μ v m).throughout_iff_meets (I := fun h => Recorded m h ∧ RepliesInRange h)
    (fun _ hI => hI.2) _ _ ⟨recorded_start, repliesInRange_start⟩ hrun
  · rintro s act t ⟨hr, hrange⟩ hcan hstep
    exact ⟨hr.step hstep, hrange.step hm hr hcan hstep⟩
  · rintro s act t ⟨hr, hrange⟩ hstep hafter
    exact canCount_of_inRange hr hrange hstep hafter

end Steps

theorem replies_in_range_row :
    ∃ h : History String, (history String .nokia 1).run oneMessage {} = some h ∧
      (history String .nokia 1).Throughout RepliesInRange oneMessage
        (history String .nokia 1).start := by
  refine ⟨_, rfl, (replies_in_range_iff (m := 1) .nokia (by decide) rfl).mpr ?_⟩
  exact Machine.meets_of_forall _ (fun _ _ _ _ _ => .inl Nat.one_pos) _

/-! ### A stream without a cap -/

/-- The stream waits for its next message, with this many behind it. -/
structure Listening (s : Fsm) (a : Addr) (n : ℕ) : Prop where
  heap : s.heap a = some ⟨.read, n⟩
  todo : s.todo = []
  exited : s.exited = false
  pending : (a, .read) ∈ s.pending

def accepting (self other : Addr) : List Fsm.Action :=
  [.call self, .complete (self, .request) true, .next (self, .request) true, .call other,
    .call other]

def receiving (self : Addr) : List Fsm.Action :=
  [.complete (self, .read) true, .next (self, .read) true, .call self, .call self]

theorem Listening.receive {v : Vendor} {s : Fsm} {self : Addr} {n : ℕ} (h : Listening s self n) :
    ∃ t, (runFsm v 0).run (receiving self) s = some t ∧ Listening t self (n + 1) := by
  obtain ⟨hheap, htodo, hexited, hpending⟩ := h
  -- the event is queued, `Proceed` counts it, and the two calls it leaves are made
  let arrived : Fsm := { s with
    pending := s.pending.erase (self, .read)
    queued := ((self, .read), true) ::ₘ s.queued }
  let counted : Fsm := { arrived with
    queued := arrived.queued.erase ((self, .read), true)
    heap := Function.update s.heap self (some ⟨.read, n + 1⟩)
    todo := [.handleMessage self, .read self] }
  have hcomplete : (runFsm v 0).step s (.complete (self, .read) true) = some arrived :=
    if_pos hpending
  have hnext : (runFsm v 0).step arrived (.next (self, .read) true) = some counted := by
    have hqueued : ((self, .read), true) ∈ arrived.queued := Multiset.mem_cons_self _ _
    have hproceed : Fsm.proceed v 0
        { arrived with queued := arrived.queued.erase ((self, .read), true) } self true =
        counted := by
      have hheap' : arrived.heap self = some ⟨.read, n⟩ := hheap
      simp only [Fsm.proceed, hheap', Vendor.proceed_eq, streamProceed]
      rfl
    rw [← hproceed]
    exact if_pos ⟨htodo, hexited, hqueued⟩
  refine ⟨{ counted with todo := [] }.startOp (self, .read), ?_, ?_⟩
  · rw [receiving, Machine.run_cons_of_step _ hcomplete, Machine.run_cons_of_step _ hnext]
    rfl
  · exact ⟨Function.update_self _ _ _, rfl, hexited, Multiset.mem_cons_self _ _⟩

theorem listening_reached (v : Vendor) (n : ℕ) :
    ∃ as t, (runFsm v 0).run as (runFsm v 0).start = some t ∧ Listening t 7 n := by
  induction n with
  | zero =>
    cases v <;> exact ⟨accepting 7 9, _, rfl, rfl, rfl, rfl, by decide⟩
  | succ n ih =>
    obtain ⟨as, s, hs, hlistening⟩ := ih
    obtain ⟨t, ht, hlistening⟩ := hlistening.receive (v := v)
    refine ⟨as ++ receiving 7, t, ?_, hlistening⟩
    rw [Machine.run_append, hs]
    exact ht

/-- Without a cap the counter of a stream passes `INT_MAX` with its 2147483648th message. -/
theorem replies_overflow :
    ∃ (as : List (Fsm.Action × String)) (h : History String),
      (history String .cisco 0).run as (history String .cisco 0).start = some h ∧
      (h.fsm.heap 7).map Stream.replies = some 2147483648 ∧ ¬RepliesInRange h := by
  obtain ⟨as, t, ht, hlistening⟩ := listening_reached .cisco 2147483648
  have hmap : (as.map fun a => (a, "row")).map Prod.fst = as := by
    rw [List.map_map]
    exact List.map_id as
  have hfsm : ((history String .cisco 0).run (as.map fun a => (a, "row")) {}).map History.fsm =
      (runFsm .cisco 0).run ((as.map fun a => (a, "row")).map Prod.fst) {} := run_fsm _ _
  rw [hmap] at hfsm
  have hrun : ((history String .cisco 0).run (as.map fun a => (a, "row")) {}).map History.fsm =
      some t := hfsm.trans ht
  obtain ⟨h, hh, rfl⟩ := Option.map_eq_some_iff.mp hrun
  refine ⟨_, h, hh, by rw [hlistening.heap]; rfl, fun hrange => ?_⟩
  have hle := (hrange 7 _ hlistening.heap).1
  simp only [intMax] at hle
  omega

end History

end MdtDialoutCollector.Core
