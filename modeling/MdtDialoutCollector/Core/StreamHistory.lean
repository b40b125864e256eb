import MdtDialoutCollector.Core.StreamLife
import Mathlib.Data.Multiset.Count

/-! What happens on each stream over a run. The machine of the loop is run beside a log for
every address, which starts anew when a stream is made there: the messages its Reads have
brought, those `HandleMessage` has run on, and the operations started. -/

namespace MdtDialoutCollector.Core

open Data Runs

/-- `request` is the buffer `request_` that Reads fill and `HandleMessage` looks at. -/
structure StreamLog (μ : Type) where
  request : Option μ := none
  arrived : List μ := []
  handled : List (Option μ) := []
  reads : ℕ := 0
  finishes : ℕ := 0
  deletedFrom : Option StreamState := none

structure History (μ : Type) where
  fsm : Fsm := {}
  logs : Addr → StreamLog μ := fun _ => {}

namespace History

variable {μ : Type}

def logCall (s : Fsm) (fresh : Addr) (logs : Addr → StreamLog μ) : Call → Addr → StreamLog μ
  | .spawn => Function.update logs fresh {}
  | .read a => Function.update logs a { logs a with reads := (logs a).reads + 1 }
  | .finish a => Function.update logs a { logs a with finishes := (logs a).finishes + 1 }
  | .handleMessage a =>
    Function.update logs a { logs a with handled := (logs a).handled ++ [(logs a).request] }
  | .deleteThis a =>
    Function.update logs a { logs a with deletedFrom := (s.heap a).map Stream.state }

/-- What an action adds to the logs; `msg` is the message of a Read that completes. -/
def log (s : Fsm) (msg : μ) (logs : Addr → StreamLog μ) : Fsm.Action → Addr → StreamLog μ
  | .complete (a, .read) true => Function.update logs a
      { logs a with request := some msg, arrived := (logs a).arrived ++ [msg] }
  | .call fresh =>
    match s.todo with
    | [] => logs
    | c :: _ => logCall s fresh logs c
  | _ => logs

def step (v : Vendor) (maxReplies : ℤ) (h : History μ) (a : Fsm.Action × μ) : Option (History μ) :=
  (h.fsm.step v maxReplies a.1).map fun t => ⟨t, log h.fsm a.2 h.logs a.1⟩

end History

/-- `runFsm` with its logs. -/
def history (μ : Type) (v : Vendor) (maxReplies : ℤ) : Machine (History μ) (Fsm.Action × μ) where
  start := {}
  step := History.step v maxReplies

namespace History

variable {μ : Type} {v : Vendor} {maxReplies : ℤ}

/-- The logs only record: the runs are those of `runFsm`, whatever the messages. -/
theorem run_fsm (as : List (Fsm.Action × μ)) (h : History μ) :
    ((history μ v maxReplies).run as h).map History.fsm =
      (runFsm v maxReplies).run (as.map Prod.fst) h.fsm := by
  induction as generalizing h with
  | nil => rfl
  | cons a as ih =>
    rw [List.map_cons, Machine.run_cons, Machine.run_cons]
    show ((History.step v maxReplies h a).bind _).map _ = (h.fsm.step v maxReplies a.1).bind _
    rw [History.step]
    cases h.fsm.step v maxReplies a.1 with
    | none => rfl
    | some t => exact ih _

/-! ### What is under way for a stream -/

/-- `reading` counts the Reads outstanding that have brought no message, `waiting` those
whose message has arrived but whose event is still queued; the others count the calls the
worker is about to make. -/
structure Work where
  reading : ℕ := 0
  waiting : ℕ := 0
  starting : ℕ := 0
  handling : ℕ := 0
  finishing : ℕ := 0
  deleting : ℕ := 0

def work (s : Fsm) (a : Addr) : Work where
  reading := s.pending.count (a, .read) + s.queued.count ((a, .read), false)
  waiting := s.queued.count ((a, .read), true)
  starting := s.todo.count (.read a)
  handling := s.todo.count (.handleMessage a)
  finishing := s.todo.count (.finish a)
  deleting := s.todo.count (.deleteThis a)

/-- The calls that can be left to make. -/
inductive Plan : List Call → Prop
  | done : Plan []
  | first : Plan [.spawn]
  | accepted (a : Addr) : Plan [.spawn, .read a]
  | handled (a : Addr) (c : Call) (hc : c = .read a ∨ c = .finish a) : Plan [.handleMessage a, c]
  | read (a : Addr) : Plan [.read a]
  | finish (a : Addr) : Plan [.finish a]
  | delete (a : Addr) : Plan [.deleteThis a]

theorem Plan.tail {c : Call} {cs : List Call} (h : Plan (c :: cs)) : Plan cs := by
  cases h with
  | first => exact .done
  | accepted a => exact .read a
  | handled a c hc =>
    rcases hc with rfl | rfl
    · exact .read a
    · exact .finish a
  | read a => exact .done
  | finish a => exact .done
  | delete a => exact .done

/-- Only a spawn and a message have a call after them. -/
theorem Plan.tail_eq_nil {c : Call} {cs : List Call} (h : Plan (c :: cs)) (hspawn : c ≠ .spawn)
    (hhandle : ∀ a, c ≠ .handleMessage a) : cs = [] := by
  cases h with
  | first => rfl
  | accepted a => exact absurd rfl hspawn
  | handled a c hc => exact absurd rfl (hhandle a)
  | read a => rfl
  | finish a => rfl
  | delete a => rfl

theorem plan_streamProceed (m : ℤ) (self : Addr) (ok : Bool) (st : Stream) :
    Plan (streamProceed m self ok st).2 := by
  rw [streamProceed]
  cases st.state with
  | create =>
    cases ok with
    | false => exact .delete self
    | true => exact .accepted self
  | read =>
    cases ok with
    | false => exact .finish self
    | true =>
      simp only [Bool.not_true, Bool.false_eq_true, if_false]
      split_ifs
      · exact .handled self _ (.inr rfl)
      · exact .handled self _ (.inl rfl)
  | finishing => exact .delete self
  | done => exact .delete self

/-! ### The invariant -/

/-- A log and what is under way, by the state of the stream. The messages handled, with the
one in the buffer if it is still to be handled, are those that have arrived. -/
inductive Follows (m : ℕ) (w : Work) (l : StreamLog μ) : Stream → Prop
  | create (hw : w.reading = 0 ∧ w.waiting = 0 ∧ w.starting = 0 ∧ w.handling = 0 ∧ w.finishing = 0)
      (hl : l = {}) : Follows m w l ⟨.create, 0⟩
  | read (n : ℕ) (hmsgs : l.handled ++ List.replicate (w.waiting + w.handling) l.request =
        l.arrived.map some)
      (hn : n = l.handled.length + w.handling) (hcap : 0 < m → n < m)
      (hreads : l.reads = l.arrived.length + w.reading)
      (hone : w.reading + w.waiting + w.starting = 1) (hhandling : w.handling ≤ w.starting)
      (hfinishes : l.finishes = 0 ∧ w.finishing = 0) (hdeleting : w.deleting = 0)
      (hdeleted : l.deletedFrom = none) : Follows m w l ⟨.read, n⟩
  | finishing (n : ℕ) (hmsgs : l.handled ++ List.replicate w.handling l.request = l.arrived.map some)
      (hcap : 0 < m → l.reads ≤ m) (hreads : l.arrived.length ≤ l.reads)
      (hnone : w.reading = 0 ∧ w.waiting = 0 ∧ w.starting = 0)
      (hhandling : w.handling ≤ w.finishing) (hfinishes : l.finishes + w.finishing = 1)
      (hdeleted : l.deletedFrom = none) : Follows m w l ⟨.finishing, n⟩

/-- What is said of the log of an address, whether its stream lives or has gone. -/
structure Kept (m : ℕ) (w : Work) (l : StreamLog μ) : Prop where
  messages : l.handled ++ List.replicate (w.waiting + w.handling) l.request = l.arrived.map some
  reads : l.arrived.length ≤ l.reads
  capped : 0 < m → l.reads ≤ m
  finishes : l.finishes ≤ 1
  finished : l.deletedFrom = some .finishing → l.finishes = 1

def Logged (m : ℕ) (w : Work) (l : StreamLog μ) : Option Stream → Prop
  | none => w = {} ∧ Kept m w l
  | some st => Follows m w l st

structure Recorded (m : ℕ) (h : History μ) : Prop where
  tracked : h.fsm.Tracked
  plan : Plan h.fsm.todo
  logged : ∀ a, Logged m (work h.fsm a) (h.logs a) (h.fsm.heap a)

/-! ### What a step does to the work of an address -/

section Frame

variable {s : Fsm} {a : Addr}

theorem work_startOp {op : Operation} (h : op ≠ (a, .read)) : work (s.startOp op) a = work s a := by
  simp only [work, Fsm.startOp, Multiset.count_cons_of_ne h.symm]

theorem work_call {c : Call} {cs : List Call} (h : s.todo = c :: cs) (hc : c.self ≠ some a) :
    work { s with todo := cs } a = work s a := by
  have hcount : ∀ c', c'.self = some a → (c :: cs).count c' = cs.count c' := by
    intro c' hc'
    refine List.count_cons_of_ne fun heq => hc ?_
    rw [heq]
    exact hc'
  simp only [work, h]
  rw [hcount _ rfl, hcount _ rfl, hcount _ rfl, hcount _ rfl]

theorem work_complete {op : Operation} {ok : Bool} (h : op ≠ (a, .read)) :
    work { s with pending := s.pending.erase op, queued := (op, ok) ::ₘ s.queued } a = work s a := by
  have hq : ∀ ok', ((a, OpKind.read), ok') ≠ (op, ok) := fun ok' heq =>
    h (congrArg Prod.fst heq).symm
  simp only [work, Multiset.count_erase_of_ne h.symm, Multiset.count_cons_of_ne (hq _)]

/-- A Read that ends takes a message with it or none. -/
theorem work_complete_self {ok : Bool} (hp : (a, .read) ∈ s.pending) :
    work { s with
      pending := s.pending.erase (a, .read), queued := ((a, .read), ok) ::ₘ s.queued } a =
      { work s a with
        reading := (work s a).reading - ok.toNat
        waiting := (work s a).waiting + ok.toNat } := by
  have hcount := Multiset.count_pos.mpr hp
  cases ok with
  | false =>
    have hne : ((a, OpKind.read), true) ≠ ((a, .read), false) := by simp
    simp only [work, Multiset.count_erase_self, Multiset.count_cons_self, Work.mk.injEq,
      Multiset.count_cons_of_ne hne, Bool.toNat_false, and_true]
    omega
  | true =>
    have hne : ((a, OpKind.read), false) ≠ ((a, .read), true) := by simp
    simp only [work, Multiset.count_erase_self, Multiset.count_cons_self, Work.mk.injEq,
      Multiset.count_cons_of_ne hne, Bool.toNat_true, and_true]
    omega

/-- What the worker will do on a stream that it has just run `Proceed` on. -/
theorem work_next {op : Operation} {ok : Bool} {calls : List Call} {heap : Addr → Option Stream}
    (htodo : s.todo = []) (hop : op ≠ (a, .read)) (hcalls : ∀ c ∈ calls, c.self ≠ some a) :
    work { s with queued := s.queued.erase (op, ok), heap := heap, todo := calls } a = work s a := by
  have hq : ∀ ok', ((a, OpKind.read), ok') ≠ (op, ok) := fun ok' heq =>
    hop (congrArg Prod.fst heq).symm
  have hcount : ∀ c, c.self = some a → calls.count c = 0 := by
    intro c hc
    exact List.count_eq_zero.mpr fun hmem => hcalls c hmem hc
  simp only [work, htodo, List.count_nil, Multiset.count_erase_of_ne (hq _)]
  rw [hcount _ rfl, hcount _ rfl, hcount _ rfl, hcount _ rfl]

end Frame

/-- A step is about one address: there the log follows it, elsewhere nothing changes. -/
theorem Recorded.at {m : ℕ} {h : History μ} {t : Fsm} {logs : Addr → StreamLog μ}
    (hr : Recorded m h) (htracked : t.Tracked) (hplan : Plan t.todo) (self : Addr)
    (hself : Logged m (work t self) (logs self) (t.heap self))
    (hrest : ∀ a, a ≠ self →
      work t a = work h.fsm a ∧ logs a = h.logs a ∧ t.heap a = h.fsm.heap a) :
    Recorded m ⟨t, logs⟩ where
  tracked := htracked
  plan := hplan
  logged a := by
    by_cases ha : a = self
    · subst ha
      exact hself
    · obtain ⟨hwork, hlog, hheap⟩ := hrest a ha
      show Logged m (work t a) (logs a) (t.heap a)
      rw [hwork, hlog, hheap]
      exact hr.logged a

/-! ### Steps -/

variable {m : ℕ} {h : History μ} {s t : Fsm}

/-- A stream on which nothing has been read. -/
theorem kept_empty {o : Option StreamState} (ho : o ≠ some .finishing) :
    Kept m {} ({ deletedFrom := o } : StreamLog μ) where
  messages := rfl
  reads := le_refl 0
  capped _ := Nat.zero_le m
  finishes := Nat.zero_le 1
  finished hd := absurd hd ho

/-- Where something is under way there is a stream. -/
theorem Logged.of_busy {w : Work} {l : StreamLog μ} {o : Option Stream} (hl : Logged m w l o)
    (hw : 0 < w.handling + w.finishing + w.deleting) : ∃ st, o = some st ∧ Follows m w l st := by
  cases o with
  | none =>
    obtain ⟨rfl, -⟩ := hl
    exact absurd hw (by decide)
  | some st => exact ⟨st, rfl, hl⟩

/-- The stream of an outstanding Read is in `Read`. -/
theorem Logged.of_reading {w : Work} {l : StreamLog μ} {o : Option Stream}
    (hl : Logged m w l o) (hw : 0 < w.reading + w.waiting + w.starting) :
    ∃ n, o = some ⟨.read, n⟩ ∧ Follows m w l ⟨.read, n⟩ := by
  cases o with
  | none =>
    obtain ⟨rfl, -⟩ := hl
    exact absurd hw (by decide)
  | some st =>
    cases hl with
    | create hw' => omega
    | read n hmsgs hn hcap hreads hone hhandling hfinishes hdeleting hdeleted =>
      exact ⟨n, rfl, .read n hmsgs hn hcap hreads hone hhandling hfinishes hdeleting hdeleted⟩
    | finishing n hmsgs hcap hreads hnone => omega

/-- Of the operations only a Read brings a message. -/
theorem log_complete_of_ne (s : Fsm) (msg : μ) (logs : Addr → StreamLog μ) (self : Addr) (ok : Bool)
    {kind : OpKind} (hkind : kind ≠ .read) :
    log s msg logs (.complete (self, kind) ok) = logs := by
  cases kind with
  | read => exact absurd rfl hkind
  | request => cases ok <;> rfl
  | finish => cases ok <;> rfl

theorem Recorded.complete (hr : Recorded m h) {op : Operation} {ok : Bool} (msg : μ)
    (hp : op ∈ h.fsm.pending) :
    Recorded m ⟨{ h.fsm with
      pending := h.fsm.pending.erase op, queued := (op, ok) ::ₘ h.fsm.queued },
      log h.fsm msg h.logs (.complete op ok)⟩ := by
  obtain ⟨self, kind⟩ := op
  have htracked : Fsm.Tracked { h.fsm with
      pending := h.fsm.pending.erase (self, kind), queued := ((self, kind), ok) ::ₘ h.fsm.queued } :=
    hr.tracked.complete hp
  have hself := hr.logged self
  by_cases hkind : kind = .read
  · subst hkind
    have hcount := Multiset.count_pos.mpr hp
    have hpos : 0 < (work h.fsm self).reading := Nat.add_pos_left hcount _
    obtain ⟨n, hheap, hfollows⟩ := hself.of_reading (by omega)
    cases ok with
    | false =>
      refine hr.at htracked hr.plan self ?_ fun a ha => ⟨work_complete (by simp [ha.symm]), rfl, rfl⟩
      rw [work_complete_self hp]
      exact hself
    | true =>
      refine hr.at htracked hr.plan self ?_ fun a ha =>
        ⟨work_complete (by simp [ha.symm]), Function.update_of_ne ha _ _, rfl⟩
      rw [work_complete_self hp, hheap, log, Function.update_self, Bool.toNat_true]
      cases hfollows with
      | read n hmsgs hn hcap hreads hone hhandling hfinishes hdeleting hdeleted =>
        -- the Read was the one outstanding, so that no message is waiting behind this one
        have hwaiting : (work h.fsm self).waiting + (work h.fsm self).handling = 0 := by omega
        rw [hwaiting, List.replicate_zero, List.append_nil] at hmsgs
        refine .read n ?_ hn hcap ?_ ?_ hhandling hfinishes hdeleting hdeleted
        · rw [show (work h.fsm self).waiting + 1 + (work h.fsm self).handling = 1 by omega,
            List.map_append, ← hmsgs]
          rfl
        · rw [List.length_append, List.length_singleton]
          show (h.logs self).reads = _ + ((work h.fsm self).reading - 1)
          omega
        · show (work h.fsm self).reading - 1 + ((work h.fsm self).waiting + 1) +
            (work h.fsm self).starting = 1
          omega
  · rw [log_complete_of_ne h.fsm msg h.logs self ok hkind]
    have hne : ∀ a, (self, kind) ≠ (a, OpKind.read) := fun a heq => hkind (congrArg Prod.snd heq)
    refine ⟨htracked, hr.plan, fun a => ?_⟩
    show Logged m (work _ a) _ _
    rw [work_complete (hne a)]
    exact hr.logged a

theorem Recorded.spawn (hr : Recorded m h) {fresh : Addr} {cs : List Call}
    (htodo : h.fsm.todo = .spawn :: cs) (hfree : h.fsm.heap fresh = none) :
    Recorded m ⟨{ h.fsm with
      todo := cs, heap := Function.update h.fsm.heap fresh (some {}) }.startOp (fresh, .request),
      logCall h.fsm fresh h.logs .spawn⟩ := by
  have hwork : ∀ a, work ({ h.fsm with
      todo := cs, heap := Function.update h.fsm.heap fresh (some {}) }.startOp (fresh, .request)) a =
      work h.fsm a := by
    intro a
    rw [work_startOp (by simp)]
    exact work_call htodo (by simp [Call.self])
  refine hr.at (hr.tracked.spawn htodo hfree) (htodo ▸ hr.plan).tail fresh ?_ fun a ha =>
    ⟨hwork a, Function.update_of_ne ha _ _, Function.update_of_ne ha _ _⟩
  have hold := hr.logged fresh
  rw [hfree] at hold
  rw [hwork, hold.1, logCall, Function.update_self]
  show Logged m _ _ (Function.update h.fsm.heap fresh (some {}) fresh)
  rw [Function.update_self]
  exact .create ⟨rfl, rfl, rfl, rfl, rfl⟩ rfl

theorem Recorded.read (hr : Recorded m h) {fresh self : Addr} {cs : List Call}
    (htodo : h.fsm.todo = .read self :: cs) :
    Recorded m ⟨{ h.fsm with todo := cs }.startOp (self, .read),
      logCall h.fsm fresh h.logs (.read self)⟩ := by
  refine hr.at (hr.tracked.start htodo rfl) (htodo ▸ hr.plan).tail self ?_ fun a ha =>
    ⟨?_, Function.update_of_ne ha _ _, rfl⟩
  · have hcs : cs = [] := (htodo ▸ hr.plan).tail_eq_nil (by simp) (by simp)
    subst hcs
    have hstarting : (work h.fsm self).starting = 1 ∧ (work h.fsm self).handling = 0 := by
      simp [work, htodo]
    obtain ⟨n, hheap, hfollows⟩ := (hr.logged self).of_reading (by omega)
    have hwork : work ({ h.fsm with todo := [] }.startOp (self, .read)) self =
        { work h.fsm self with
          reading := (work h.fsm self).reading + 1
          starting := 0 } := by
      simp only [work, Fsm.startOp, htodo, Multiset.count_cons_self, Work.mk.injEq]
      simp
      omega
    show Logged m _ _ (h.fsm.heap self)
    rw [hwork, hheap, logCall, Function.update_self]
    cases hfollows with
    | read n hmsgs hn hcap hreads hone hhandling hfinishes hdeleting hdeleted =>
      refine .read n hmsgs hn hcap ?_ ?_ ?_ hfinishes hdeleting hdeleted
      · show (h.logs self).reads + 1 =
          (h.logs self).arrived.length + ((work h.fsm self).reading + 1)
        omega
      · show (work h.fsm self).reading + 1 + (work h.fsm self).waiting + 0 = 1
        omega
      · show (work h.fsm self).handling ≤ 0
        omega
  · rw [work_startOp (by simp [ha.symm])]
    exact work_call htodo (by simp [Call.self, ha.symm])

theorem Recorded.finish (hr : Recorded m h) {fresh self : Addr} {cs : List Call}
    (htodo : h.fsm.todo = .finish self :: cs) :
    Recorded m ⟨{ h.fsm with todo := cs }.startOp (self, .finish),
      logCall h.fsm fresh h.logs (.finish self)⟩ := by
  refine hr.at (hr.tracked.start htodo rfl) (htodo ▸ hr.plan).tail self ?_ fun a ha =>
    ⟨?_, Function.update_of_ne ha _ _, rfl⟩
  · have hcs : cs = [] := (htodo ▸ hr.plan).tail_eq_nil (by simp) (by simp)
    subst hcs
    have hfinishing : (work h.fsm self).finishing = 1 ∧ (work h.fsm self).handling = 0 := by
      simp [work, htodo]
    have hwork : work ({ h.fsm with todo := [] }.startOp (self, .finish)) self =
        { work h.fsm self with finishing := 0 } := by
      rw [work_startOp (by simp)]
      simp [work, htodo]
    obtain ⟨st, hheap, hfollows⟩ := (hr.logged self).of_busy (by omega)
    show Logged m _ _ (h.fsm.heap self)
    rw [hwork, hheap, logCall, Function.update_self]
    cases hfollows with
    | create hw => omega
    | read n hmsgs hn hcap hreads hone hhandling hfinishes => omega
    | finishing n hmsgs hcap hreads hnone hhandling hfinishes hdeleted =>
      refine .finishing n hmsgs hcap hreads hnone ?_ ?_ hdeleted
      · show (work h.fsm self).handling ≤ 0
        omega
      · show (h.logs self).finishes + 1 + 0 = 1
        omega
  · rw [work_startOp (by simp)]
    exact work_call htodo (by simp [Call.self, ha.symm])

theorem Recorded.handle (hr : Recorded m h) {fresh self : Addr} {cs : List Call}
    (htodo : h.fsm.todo = .handleMessage self :: cs) :
    Recorded m ⟨{ h.fsm with todo := cs }, logCall h.fsm fresh h.logs (.handleMessage self)⟩ := by
  refine hr.at (hr.tracked.handle htodo) (htodo ▸ hr.plan).tail self ?_ fun a ha =>
    ⟨work_call htodo (by simp [Call.self, ha.symm]), Function.update_of_ne ha _ _, rfl⟩
  have hhandle : (work h.fsm self).handling = cs.count (.handleMessage self) + 1 := by
    simp [work, htodo]
  have hwork : work { h.fsm with todo := cs } self =
      { work h.fsm self with handling := (work h.fsm self).handling - 1 } := by
    simp [work, htodo]
  obtain ⟨st, hheap, hfollows⟩ := (hr.logged self).of_busy (by omega)
  show Logged m _ _ (h.fsm.heap self)
  rw [hwork, hheap, logCall, Function.update_self]
  cases hfollows with
  | create hw => omega
  | read n hmsgs hn hcap hreads hone hhandling hfinishes hdeleting hdeleted =>
    have hmsg : (work h.fsm self).waiting = 0 ∧ (work h.fsm self).handling = 1 := by omega
    rw [hmsg.1, hmsg.2] at hmsgs
    refine .read n ?_ ?_ hcap hreads hone ?_ hfinishes hdeleting hdeleted
    · rw [hmsg.1, hmsg.2, ← hmsgs]
      exact List.append_nil _
    · rw [List.length_append, List.length_singleton]
      show n = _ + 1 + ((work h.fsm self).handling - 1)
      omega
    · show (work h.fsm self).handling - 1 ≤ (work h.fsm self).starting
      omega
  | finishing n hmsgs hcap hreads hnone hhandling hfinishes hdeleted =>
    have hmsg : (work h.fsm self).handling = 1 := by omega
    rw [hmsg] at hmsgs
    refine .finishing n ?_ hcap hreads hnone ?_ hfinishes hdeleted
    · rw [hmsg, ← hmsgs]
      exact List.append_nil _
    · show (work h.fsm self).handling - 1 ≤ (work h.fsm self).finishing
      omega

theorem Recorded.delete (hr : Recorded m h) {fresh self : Addr} {cs : List Call}
    (htodo : h.fsm.todo = .deleteThis self :: cs) :
    Recorded m ⟨{ h.fsm with todo := cs }.deleteThis self,
      logCall h.fsm fresh h.logs (.deleteThis self)⟩ := by
  have htracked := hr.tracked.delete htodo
  have hcs : cs = [] := (htodo ▸ hr.plan).tail_eq_nil (by simp) (by simp)
  subst hcs
  have hdelete : (work h.fsm self).deleting = 1 ∧ (work h.fsm self).finishing = 0 ∧
      (work h.fsm self).handling = 0 ∧ (work h.fsm self).starting = 0 := by
    simp [work, htodo]
  have hwork : work { h.fsm with todo := [], heap := Function.update h.fsm.heap self none } self =
      { work h.fsm self with deleting := 0 } := by
    simp [work, htodo]
  obtain ⟨st, hheap, hfollows⟩ := (hr.logged self).of_busy (by omega)
  have hdeleteThis : { h.fsm with todo := [] }.deleteThis self =
      { h.fsm with todo := [], heap := Function.update h.fsm.heap self none } := by
    simp only [Fsm.deleteThis, hheap]
  rw [hdeleteThis] at htracked ⊢
  refine hr.at htracked .done self ?_ fun a ha =>
    ⟨work_call htodo (by simp [Call.self, ha.symm]), Function.update_of_ne ha _ _,
      Function.update_of_ne ha _ _⟩
  rw [hwork, logCall, hheap, Function.update_self]
  show Logged m _ _ (Function.update h.fsm.heap self none self)
  rw [Function.update_self]
  cases hfollows with
  | create hw hl =>
    rw [hl]
    have hwork : { work h.fsm self with deleting := 0 } = ({} : Work) := by
      simp only [hw]
    rw [hwork]
    exact ⟨rfl, kept_empty fun hd => by cases hd⟩
  | read n hmsgs hn hcap hreads hone hhandling hfinishes hdeleting => omega
  | finishing n hmsgs hcap hreads hnone hhandling hfinishes hdeleted =>
    obtain ⟨-, hfinishing, hhandled, -⟩ := hdelete
    have hfinished : (h.logs self).finishes = 1 := by omega
    have hwork : { work h.fsm self with deleting := 0 } = ({} : Work) := by
      simp only [hnone, hfinishing, hhandled]
    rw [hwork]
    rw [hhandled] at hmsgs
    exact ⟨rfl, hmsgs, hreads, hcap, hfinished.le, fun _ => hfinished⟩

/-- `Proceed` makes its calls on its own stream. -/
theorem streamProceed_self (maxReplies : ℤ) (self : Addr) (ok : Bool) (st : Stream) {a : Addr}
    (ha : a ≠ self) : ∀ c ∈ (streamProceed maxReplies self ok st).2, c.self ≠ some a := by
  rw [streamProceed]
  cases st.state with
  | create => cases ok <;> simp [Call.self, ha.symm]
  | read =>
    cases ok with
    | false => simp [Call.self, ha.symm]
    | true => split_ifs <;> simp [Call.self, ha.symm]
  | finishing => simp [Call.self, ha.symm]
  | done => simp [Call.self, ha.symm]

/-- An event taken off the queue, and the calls `Proceed` is to make for it. -/
theorem work_self {s : Fsm} {self : Addr} {kind : OpKind} {ok : Bool} {calls : List Call}
    {heap : Addr → Option Stream} (hq : ((self, kind), ok) ∈ s.queued) :
    work { s with queued := s.queued.erase ((self, kind), ok), heap := heap, todo := calls } self =
      { reading := (work s self).reading - if kind = .read ∧ ok = false then 1 else 0
        waiting := (work s self).waiting - if kind = .read ∧ ok = true then 1 else 0
        starting := calls.count (.read self)
        handling := calls.count (.handleMessage self)
        finishing := calls.count (.finish self)
        deleting := calls.count (.deleteThis self) } := by
  have hcount := Multiset.count_pos.mpr hq
  have hne : ∀ ok', (kind, ok) ≠ (.read, ok') →
      (s.queued.erase ((self, kind), ok)).count ((self, .read), ok') =
        s.queued.count ((self, .read), ok') := by
    intro ok' hk
    refine Multiset.count_erase_of_ne ?_ _
    simpa [eq_comm] using hk
  by_cases hkind : kind = .read
  · subst hkind
    cases ok with
    | false =>
      simp only [work, Multiset.count_erase_self, hne true (by simp), Work.mk.injEq, and_true]
      simp
      omega
    | true =>
      simp only [work, Multiset.count_erase_self, hne false (by simp), Work.mk.injEq, and_true]
      simp
  · simp only [work, hne _ (by simp [hkind]), hkind, false_and, if_false, Nat.sub_zero]

theorem waiting_pos {s : Fsm} {self : Addr} (hq : ((self, .read), true) ∈ s.queued) :
    0 < (work s self).waiting :=
  Multiset.count_pos.mpr hq

theorem reading_pos {s : Fsm} {self : Addr} (hq : ((self, .read), false) ∈ s.queued) :
    0 < (work s self).reading :=
  Nat.add_pos_right _ (Multiset.count_pos.mpr hq)

/-- The last Read of a stream has brought nothing: `replies` is still below the cap. -/
theorem Follows.ended {s : Fsm} {self : Addr} {n : ℕ} {l : StreamLog μ}
    {heap : Addr → Option Stream} (htodo : s.todo = []) (hq : ((self, .read), false) ∈ s.queued)
    (hf : Follows m (work s self) l ⟨.read, n⟩) :
    Follows m (work { s with
      queued := s.queued.erase ((self, .read), false)
      heap := heap
      todo := [.finish self] } self) l ⟨.finishing, n⟩ := by
  rw [work_self hq]
  cases hf with
  | read n hmsgs hn hcap hreads hone hhandling hfinishes hdeleting hdeleted =>
    have hhandled : (work s self).handling = 0 := by simp [work, htodo]
    have hreading := reading_pos hq
    have hwaiting : (work s self).waiting = 0 := by omega
    rw [hwaiting, hhandled, List.replicate_zero, List.append_nil] at hmsgs
    have hlen : l.handled.length = l.arrived.length := by rw [hmsgs, List.length_map]
    refine .finishing n ?_ (fun hm => ?_) (by omega) ?_ ?_ ?_ hdeleted
    · simp [hmsgs]
    · have hlt := hcap hm
      omega
    · simp [hwaiting]
      omega
    · simp
    · simp [hfinishes]

/-- A message that arrives is counted, and the stream reads on or, at the cap, finishes. -/
theorem Follows.received {s : Fsm} {self : Addr} {n : ℕ} {l : StreamLog μ}
    {heap : Addr → Option Stream} (htodo : s.todo = []) (hq : ((self, .read), true) ∈ s.queued)
    (hf : Follows m (work s self) l ⟨.read, n⟩) :
    Follows m (work { s with
      queued := s.queued.erase ((self, .read), true)
      heap := heap
      todo := (streamProceed m self true ⟨.read, n⟩).2 } self) l
      (streamProceed m self true ⟨.read, n⟩).1 := by
  rw [work_self hq]
  cases hf with
  | read n hmsgs hn hcap hreads hone hhandling hfinishes hdeleting hdeleted =>
    have hhandled : (work s self).handling = 0 := by simp [work, htodo]
    have hpos := waiting_pos hq
    have hwaiting : (work s self).waiting = 1 ∧ (work s self).reading = 0 ∧
        (work s self).starting = 0 := by omega
    rw [hwaiting.1, hhandled] at hmsgs
    have hlen : l.handled.length + 1 = l.arrived.length := by
      have hlength := congrArg List.length hmsgs
      simpa using hlength
    by_cases hstop : 0 < (m : ℤ) ∧ (m : ℤ) ≤ (n + 1 : ℕ)
    · simp only [streamProceed, Bool.not_true, Bool.false_eq_true, if_false, if_pos hstop]
      refine .finishing (n + 1) ?_ (fun hm => ?_) (by omega) ?_ ?_ ?_ hdeleted
      · simpa using hmsgs
      · have hlt := hcap hm
        omega
      · simp [hwaiting]
      · simp
      · simp [hfinishes]
    · simp only [streamProceed, Bool.not_true, Bool.false_eq_true, if_false, if_neg hstop]
      refine .read (n + 1) ?_ ?_ (fun hm => ?_) ?_ ?_ ?_ ⟨hfinishes.1, ?_⟩ ?_ hdeleted
      · simpa [hwaiting] using hmsgs
      · simp
        omega
      · omega
      · simp [hwaiting]
        omega
      · simp [hwaiting]
      · simp
      · simp
      · simp

/-- The state and the calls that `Proceed` leaves follow the log, which it does not touch. -/
theorem Follows.next {s : Fsm} {self : Addr} {kind : OpKind} {ok : Bool} {st : Stream}
    {l : StreamLog μ} {heap : Addr → Option Stream} (htodo : s.todo = [])
    (hq : ((self, kind), ok) ∈ s.queued) (hawaits : st.state.awaits = some kind)
    (hf : Follows m (work s self) l st) :
    Follows m (work { s with
      queued := s.queued.erase ((self, kind), ok)
      heap := heap
      todo := (streamProceed m self ok st).2 } self) l (streamProceed m self ok st).1 := by
  cases hf with
  | create hw hl =>
    cases hawaits
    rw [work_self hq]
    cases ok with
    | false =>
      refine .create ?_ hl
      simp [hw, streamProceed]
    | true =>
      subst hl
      refine .read 0 ?_ ?_ id ?_ ?_ ?_ ⟨rfl, ?_⟩ ?_ rfl <;> simp [hw, streamProceed]
  | read n hmsgs hn hcap hreads hone hhandling hfinishes hdeleting hdeleted =>
    cases hawaits
    have hf : Follows m (work s self) l ⟨.read, n⟩ :=
      .read n hmsgs hn hcap hreads hone hhandling hfinishes hdeleting hdeleted
    cases ok with
    | false => exact hf.ended htodo hq
    | true => exact hf.received htodo hq
  | finishing n hmsgs hcap hreads hnone hhandling hfinishes hdeleted =>
    cases hawaits
    rw [work_self hq]
    have htodo' : (work s self).handling = 0 ∧ (work s self).finishing = 0 := by
      simp [work, htodo]
    rw [htodo'.1] at hmsgs
    rw [htodo'.2] at hfinishes
    refine .finishing n ?_ hcap hreads ?_ ?_ ?_ hdeleted
    · simpa [streamProceed] using hmsgs
    · simp [hnone, streamProceed]
    · simp [streamProceed]
    · simpa [streamProceed] using hfinishes

theorem Recorded.next (hr : Recorded m h) {op : Operation} {ok : Bool} (htodo : h.fsm.todo = [])
    (hx : h.fsm.exited = false) (hq : (op, ok) ∈ h.fsm.queued) :
    Recorded m
      ⟨{ h.fsm with queued := h.fsm.queued.erase (op, ok) }.proceed v m op.1 ok, h.logs⟩ := by
  obtain ⟨self, kind⟩ := op
  have htracked : Fsm.Tracked
      ({ h.fsm with queued := h.fsm.queued.erase ((self, kind), ok) }.proceed v m self ok) :=
    hr.tracked.next htodo hx hq
  obtain ⟨st, hheap, hawaits⟩ := hr.tracked.awaits htodo hq
  have hself := hr.logged self
  simp only [hheap] at hself hawaits
  rw [Fsm.proceed] at htracked ⊢
  simp only [hheap, Vendor.proceed_eq] at htracked ⊢
  refine hr.at htracked (plan_streamProceed m self ok st) self ?_ fun a ha =>
    ⟨work_next htodo (by simp [ha.symm]) (streamProceed_self m self ok st ha), rfl,
      Function.update_of_ne ha _ _⟩
  show Logged m _ _ (Function.update h.fsm.heap self _ self)
  rw [Function.update_self]
  exact Follows.next htodo hq hawaits hself

theorem Recorded.step (hr : Recorded m h) {a : Fsm.Action × μ} {h' : History μ}
    (hstep : History.step v m h a = some h') : Recorded m h' := by
  obtain ⟨a, msg⟩ := a
  rw [History.step, Option.map_eq_some_iff] at hstep
  obtain ⟨t, ht, rfl⟩ := hstep
  cases Fsm.steps_of_step ht with
  | complete hp => exact hr.complete msg hp
  | @spawn fresh cs htodo hfree =>
    rw [log, htodo]
    exact hr.spawn htodo hfree
  | read htodo =>
    rw [log, htodo]
    exact hr.read htodo
  | finish htodo =>
    rw [log, htodo]
    exact hr.finish htodo
  | handle htodo =>
    rw [log, htodo]
    exact hr.handle htodo
  | delete htodo =>
    rw [log, htodo]
    exact hr.delete htodo
  | next htodo hx hq => exact hr.next htodo hx hq
  | nextFalse htodo _ _ hp hq =>
    exact ⟨⟨hr.tracked.safe, hr.tracked.owed, fun _ => ⟨htodo, hp, hq⟩⟩, hr.plan, hr.logged⟩
  | serverShutdown =>
    exact ⟨⟨hr.tracked.safe, hr.tracked.owed, hr.tracked.exited⟩, hr.plan, hr.logged⟩
  | cqShutdown =>
    exact ⟨⟨hr.tracked.safe, hr.tracked.owed, hr.tracked.exited⟩, hr.plan, hr.logged⟩

theorem recorded_start : Recorded m ({} : History μ) where
  tracked := Fsm.tracked_start
  plan := .first
  logged a := by
    have hwork : work (History.fsm ({} : History μ)) a = {} := by simp [work]
    rw [hwork]
    exact ⟨rfl, kept_empty fun hd => by cases hd⟩

theorem recorded_of_reachable (hr : (history μ v m).Reachable h) : Recorded m h :=
  (history μ v m).reachable_invariant recorded_start (fun _ _ _ hs hstep => hs.step hstep) hr

/-- A message of the stream has arrived and `HandleMessage` has not run on it yet. -/
def InHand (s : Fsm) (a : Addr) : Prop :=
  ((a, .read), true) ∈ s.queued ∨ .handleMessage a ∈ s.todo

theorem Logged.kept {w : Work} {l : StreamLog μ} {o : Option Stream} (hl : Logged m w l o) :
    Kept m w l := by
  cases o with
  | none =>
    exact hl.2
  | some st =>
    cases hl with
    | create hw hl =>
      subst hl
      refine ⟨?_, le_refl 0, fun _ => Nat.zero_le m, Nat.zero_le 1, fun hd => by cases hd⟩
      rw [hw.2.1, hw.2.2.2.1]
      rfl
    | read n hmsgs hn hcap hreads hone hhandling hfinishes hdeleting hdeleted =>
      have hlen : l.handled.length + (w.waiting + w.handling) = l.arrived.length := by
        have hlength := congrArg List.length hmsgs
        simpa using hlength
      refine ⟨hmsgs, by omega, fun hm => ?_, by omega, fun hd => ?_⟩
      · have hlt := hcap hm
        omega
      · rw [hdeleted] at hd
        cases hd
    | finishing n hmsgs hcap hreads hnone hhandling hfinishes hdeleted =>
      refine ⟨?_, hreads, hcap, by omega, fun hd => ?_⟩
      · rw [hnone.2.1, Nat.zero_add]
        exact hmsgs
      · rw [hdeleted] at hd
        cases hd

/-- The messages of a stream are handled once each, in the order they arrive: those handled
are the first of those that have arrived, and all of them up to the cap when none is in hand.
No Read is started past the cap, and a stream is finished once before it is deleted. -/
theorem each_message_handled_once (v : Vendor) (m : ℕ) (hr : (history μ v m).Reachable h)
    (a : Addr) :
    (h.logs a).handled <+: (h.logs a).arrived.map some ∧
      (¬ InHand h.fsm a → (h.logs a).handled = ((h.logs a).arrived.map some).take
        (if m = 0 then (h.logs a).arrived.length else min m (h.logs a).arrived.length)) ∧
      (0 < m → (h.logs a).arrived.length ≤ m ∧ (h.logs a).reads ≤ m) ∧
      (h.logs a).arrived.length ≤ (h.logs a).reads ∧
      (h.logs a).finishes ≤ 1 ∧
      ((h.logs a).deletedFrom = some .finishing → (h.logs a).finishes = 1) := by
  have hkept := ((recorded_of_reachable hr).logged a).kept
  have hlen := hkept.reads
  refine ⟨⟨_, hkept.messages⟩, fun hhand => ?_, fun hm => ?_, hlen, hkept.finishes, hkept.finished⟩
  · have hnone : (work h.fsm a).waiting = 0 ∧ (work h.fsm a).handling = 0 := by
      rw [InHand, not_or] at hhand
      exact ⟨Multiset.count_eq_zero.mpr hhand.1, List.count_eq_zero.mpr hhand.2⟩
    have hall := hkept.messages
    rw [hnone.1, hnone.2, List.replicate_zero, List.append_nil] at hall
    rw [hall, List.take_of_length_le]
    rw [List.length_map]
    split
    · exact le_refl _
    · have hcap := hkept.capped (by omega)
      rw [min_eq_right (by omega)]
  · have hcap := hkept.capped hm
    exact ⟨by omega, hcap⟩

/-- One message over a cap of one: the stream handles it, finishes and is deleted. -/
def oneMessage : List (Fsm.Action × String) :=
  [.call 7, .complete (7, .request) true, .next (7, .request) true, .call 9, .call 0,
    .complete (7, .read) true, .next (7, .read) true, .call 0, .call 0,
    .complete (7, .finish) true, .next (7, .finish) true, .call 0].map fun a => (a, "row")

theorem each_message_handled_once_row :
    ∃ h : History String, (history String .nokia 1).run oneMessage {} = some h ∧
      (h.logs 7).handled <+: (h.logs 7).arrived.map some ∧
      (¬ InHand h.fsm 7 → (h.logs 7).handled = ((h.logs 7).arrived.map some).take
        (if 1 = 0 then (h.logs 7).arrived.length else min 1 (h.logs 7).arrived.length)) ∧
      (0 < 1 → (h.logs 7).arrived.length ≤ 1 ∧ (h.logs 7).reads ≤ 1) ∧
      (h.logs 7).arrived.length ≤ (h.logs 7).reads ∧
      (h.logs 7).finishes ≤ 1 ∧
      ((h.logs 7).deletedFrom = some .finishing → (h.logs 7).finishes = 1) := by
  refine ⟨_, rfl, ?_⟩
  apply each_message_handled_once .nokia 1
  exact ⟨oneMessage, rfl⟩

end History

end MdtDialoutCollector.Core
