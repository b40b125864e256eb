import MdtDialoutCollector.Core.LabelLock
import MdtDialoutCollector.Core.WorkerLoop

/-! The loops of the workers over the shared label map. What the loops take for one step, a
call of `HandleMessage`, is many: the lock is taken shared, the bodies are delivered one by
one and the lock is given back, while gRPC goes on with the streams of all workers, the other
workers with their messages, and a reload takes its turn. -/

namespace MdtDialoutCollector.Core

open Data DataManipulation External Json Labels Runs Text Utils

/-- What is done to a loop from outside, also while its worker is busy. -/
def Fsm.Action.outside : Fsm.Action → Bool
  | .complete .. | .serverShutdown | .cqShutdown => true
  | .call _ | .next .. | .nextFalse => false

/-- `calls` has the calls of `HandleMessage` that have come to their ends, and `reloaded` the
files of the reloads that have taken the lock. -/
structure Working (workers : Vendor → ℕ) where
  loops : WorkerId workers → Loop := fun _ => {}
  calls : List (HandleCall workers) := []
  reloaded : List (Option Bytes × Option Bytes) := []
  locked : Locked (WorkerId workers)

namespace Working

variable {workers : Vendor → ℕ}

/-- `loop` is a step of a loop other than a call of `HandleMessage`; this is entered, delivers
its bodies and is left. -/
inductive Action (workers : Vendor → ℕ) where
  | loop (i : WorkerId workers) (act : Fsm.Action) (sent : Sent)
  | enter (i : WorkerId workers) (now : Int64)
  | deliver (i : WorkerId workers)
  | leave (i : WorkerId workers)
  | lock (csv ptm : Option Bytes)
  | write
  | unlock

def step (J : JsonCpp) (P : Protobuf) (T : Transport) (ctx : Context) (c : LabelSettings)
    (m : Vendor → ℕ) (s : Working workers) : Action workers → Option (Working workers)
  | .loop i act sent =>
    if sent.msg.vendor = i.1 ∧ ((s.loops i).handles act).isNone = true ∧
        ((s.locked.handling i).isNone || act.outside) = true then
      ((s.loops i).step i.1 (m i.1) act sent).map fun l =>
        { s with loops := Function.update s.loops i l }
    else none
  | .enter i now =>
    match (s.loops i).handles (.call 0) with
    | some (_, sent) =>
      (Locked.step J P T ctx c s.locked (.lockShared i now sent.peer sent.msg)).map fun k =>
        { s with locked := k }
    | none => none
  | .deliver i => (Locked.step J P T ctx c s.locked (.deliver i)).map fun k => { s with locked := k }
  | .leave i =>
    match (s.loops i).handles (.call 0), s.locked.handling i with
    | some (stream, sent), some h =>
      match (s.loops i).step i.1 (m i.1) (.call 0) sent,
        Locked.step J P T ctx c s.locked (.unlockShared i) with
      | some l, some k => some { s with
          loops := Function.update s.loops i l
          calls := s.calls ++ [⟨i, stream, sent, s.locked.labelMap, h.now⟩]
          locked := k }
      | _, _ => none
    | _, _ => none
  | .lock csv ptm =>
    (Locked.step J P T ctx c s.locked (.lock csv ptm)).map fun k =>
      { s with reloaded := s.reloaded ++ [(csv, ptm)], locked := k }
  | .write => (Locked.step J P T ctx c s.locked .write).map fun k => { s with locked := k }
  | .unlock => (Locked.step J P T ctx c s.locked .unlock).map fun k => { s with locked := k }

end Working

def working (J : JsonCpp) (P : Protobuf) (T : Transport) (ctx : Context) (c : LabelSettings)
    (m workers : Vendor → ℕ) : Machine (Working workers) (Working.Action workers) where
  start := { locked := { labelMap := ctx.labelMap } }
  step := Working.step J P T ctx c m

/-! ### Whole calls and whole reloads -/

/-- The loops with whole calls of `HandleMessage`, and a label map that reloads change at once. -/
structure Turns (workers : Vendor → ℕ) where
  serving : Serving workers := {}
  reloaded : List (Option Bytes × Option Bytes) := []
  labelMap : LabelMap

namespace Turns

variable {workers : Vendor → ℕ}

inductive Action (workers : Vendor → ℕ) where
  | step (i : WorkerId workers) (act : Fsm.Action) (sent : Sent) (now : Int64)
  | reload (csv ptm : Option Bytes)

def step (J : JsonCpp) (P : Protobuf) (T : Transport) (ctx : Context) (c : LabelSettings)
    (m : Vendor → ℕ) (s : Turns workers) : Action workers → Option (Turns workers)
  | .step i act sent now =>
    (Serving.step J P T ctx m s.serving ⟨i, act, sent, s.labelMap, now⟩).map fun t =>
      { s with serving := t }
  | .reload csv ptm =>
    match reloadLabelMaps c csv ptm s.labelMap with
    | .running labelMap => some { s with
        reloaded := s.reloaded ++ [(csv, ptm)]
        labelMap := labelMap }
    | _ => none

end Turns

def turns (J : JsonCpp) (P : Protobuf) (T : Transport) (ctx : Context) (c : LabelSettings)
    (m workers : Vendor → ℕ) : Machine (Turns workers) (Turns.Action workers) where
  start := { labelMap := ctx.labelMap }
  step := Turns.step J P T ctx c m

/-! ### What goes on while a worker is busy -/

theorem Fsm.todo_of_outside {v : Vendor} {m : ℤ} {s t : Fsm} {act : Fsm.Action}
    (hact : act.outside = true) (h : s.step v m act = some t) : t.todo = s.todo := by
  cases Fsm.steps_of_step h with
  | complete hp => rfl
  | serverShutdown => rfl
  | cqShutdown hserver => rfl
  | spawn | read | finish | handle | delete | next | nextFalse => cases hact

/-- No Read is outstanding on a stream whose message is being handled. -/
theorem History.request_of_outside {μ : Type} {v : Vendor} {m : ℕ} {h h' : History μ}
    {act : Fsm.Action} {msg : μ} (hr : History.Recorded m h) (hact : act.outside = true)
    (hstep : History.step v m h (act, msg) = some h') {self : Addr} {cs : List Call}
    (htodo : h.fsm.todo = .handleMessage self :: cs) :
    (h'.logs self).request = (h.logs self).request := by
  rw [History.step, Option.map_eq_some_iff] at hstep
  obtain ⟨t, ht, rfl⟩ := hstep
  cases act with
  | complete op ok =>
    obtain ⟨b, kind⟩ := op
    cases kind with
    | read =>
      cases ok with
      | false => rfl
      | true =>
        have hp : (b, OpKind.read) ∈ h.fsm.pending := by
          cases Fsm.steps_of_step ht with
          | complete hp => exact hp
        have hb : self ≠ b := by
          rintro rfl
          have hreading : 0 < h.fsm.pending.count (self, .read) := Multiset.count_pos.mpr hp
          have hhandling : (History.work h.fsm self).handling =
              h.fsm.todo.count (.handleMessage self) := rfl
          rw [htodo, List.count_cons_self] at hhandling
          have hwork : h.fsm.pending.count (self, .read) ≤ (History.work h.fsm self).reading :=
            Nat.le_add_right _ _
          obtain ⟨n, -, hfollows⟩ := (hr.logged self).of_reading (by omega)
          cases hfollows with
          | read n hmsgs hn hcap hreads hone hstarting => omega
        exact congrArg StreamLog.request (Function.update_of_ne hb _ _)
    | request | finish => cases ok <;> rfl
  | serverShutdown | cqShutdown => rfl
  | call fresh | next op ok | nextFalse => cases hact

theorem Loop.handles_of_outside {v : Vendor} {m : ℕ} {l l' : Loop} {act : Fsm.Action} {sent : Sent}
    (hl : l.Sound v m) (hact : act.outside = true) (hstep : l.step v m act sent = some l')
    {call : ℕ × Sent} (hcall : l.handles (.call 0) = some call) :
    l'.handles (.call 0) = some call := by
  obtain ⟨stream, x⟩ := call
  obtain ⟨self, cs, htodo, hstream, hx⟩ := exists_of_handles hcall
  have htodo' := Fsm.todo_of_outside hact (fsm_of_step hstep)
  have hx' := History.request_of_outside hl.recorded hact (history_of_step hstep) htodo
  have hnumbers : l'.numbers = l.numbers := by
    rw [Loop.step, Option.map_eq_some_iff] at hstep
    obtain ⟨h', -, rfl⟩ := hstep
    cases act with
    | complete op ok | serverShutdown | cqShutdown => rfl
    | call fresh | next op ok | nextFalse => cases hact
  rw [handles_handle (htodo'.trans htodo), hx', hx, hnumbers, hstream]
  rfl

/-- A call under way was entered with its peer and its message. -/
theorem Locked.handling_of_step {ι : Type} [DecidableEq ι] {J : JsonCpp} {P : Protobuf} {T : Transport}
    {ctx : Context} {c : LabelSettings} {s s' : Locked ι} {a : Locked.Action ι}
    (h : Locked.step J P T ctx c s a = some s') {i : ι} {x' : Handling}
    (hx' : s'.handling i = some x') :
    (∃ x, s.handling i = some x ∧ x.peer = x'.peer ∧ x.msg = x'.msg) ∨
      ∃ now, a = .lockShared i now x'.peer x'.msg := by
  cases a with
  | lockShared j now peer msg =>
    rw [Locked.step] at h
    split at h
    · cases h
      by_cases hij : i = j
      · simp only [hij, Function.update_self, Option.some.injEq] at hx'
        subst hij hx'
        exact .inr ⟨now, rfl⟩
      · simp only [Function.update_of_ne hij] at hx'
        exact .inl ⟨x', hx', rfl, rfl⟩
    · cases h
  | deliver j =>
    rw [Locked.step] at h
    split at h
    · rename_i now peer msg body rest hj
      split at h
      · cases h
        by_cases hij : i = j
        · simp only [hij, Function.update_self, Option.some.injEq] at hx'
          subst hij hx'
          exact .inl ⟨_, hj, rfl, rfl⟩
        · simp only [Function.update_of_ne hij] at hx'
          exact .inl ⟨x', hx', rfl, rfl⟩
      · cases h
    · cases h
  | unlockShared j =>
    rw [Locked.step] at h
    split at h
    · cases h
      by_cases hij : i = j
      · simp only [hij, Function.update_self, reduceCtorEq] at hx'
      · simp only [Function.update_of_ne hij] at hx'
        exact .inl ⟨x', hx', rfl, rfl⟩
    · cases h
  | lock csv ptm =>
    rw [Locked.step] at h
    split at h <;> cases h
    exact .inl ⟨x', hx', rfl, rfl⟩
  | write =>
    rw [Locked.step] at h
    split at h <;> cases h
    exact .inl ⟨x', hx', rfl, rfl⟩
  | unlock =>
    rw [Locked.step] at h
    split at h <;> cases h
    exact .inl ⟨x', hx', rfl, rfl⟩

theorem Locked.handling_of_unlockShared {ι : Type} [DecidableEq ι] {J : JsonCpp} {P : Protobuf}
    {T : Transport} {ctx : Context} {c : LabelSettings} {s s' : Locked ι} {i : ι}
    (h : Locked.step J P T ctx c s (.unlockShared i) = some s') : s'.handling i = none := by
  rw [Locked.step] at h
  split at h
  · cases h
    exact Function.update_self ..
  · cases h

/-- A call of `HandleMessage` alone is a call of the process. -/
theorem Collector.step_of_serial {J : JsonCpp} {P : Protobuf} {T : Transport} {ctx : Context}
    {c : LabelSettings} {workers : Vendor → ℕ} {call : HandleCall workers}
    {p : Collector (WorkerId workers)} {t : Serial (WorkerId workers)}
    (hvendor : call.sent.msg.vendor = call.worker.1)
    (h : Serial.step J P T ctx c ⟨call.labelMap, p.workers⟩
      (.handle call.worker call.now call.sent.peer call.sent.msg) = some t) :
    ∃ p', Collector.step J P T ctx p call.received = some p' ∧ t = ⟨call.labelMap, p'.workers⟩ := by
  rw [Serial.step] at h
  split at h
  · rename_i w hw
    cases h
    unfold Collector.step
    rw [if_pos (show call.received.msg.vendor = call.received.worker.1 from hvendor)]
    simp only [HandleCall.received]
    simp only at hw
    rw [hw]
    exact ⟨_, rfl, rfl⟩
  · cases h

/-! ### The loops stand as if their calls were made one at a time -/

namespace Working

variable {J : JsonCpp} {P : Protobuf} {T : Transport} {ctx : Context} {c : LabelSettings}
  {m workers : Vendor → ℕ} {s s' : Working workers} {t : Turns workers}

/-- A worker in `HandleMessage` is there with the message its loop is about to handle. -/
structure Stands (J : JsonCpp) (P : Protobuf) (T : Transport) (ctx : Context) (m : Vendor → ℕ)
    (s : Working workers) (t : Turns workers) : Prop where
  loops : t.serving.loops = s.loops
  calls : t.serving.calls = s.calls
  reloaded : t.reloaded = s.reloaded
  locked : Locked.Stands J P T ctx s.locked ⟨t.labelMap, t.serving.process.workers⟩
  order : Serving.InOrder m t.serving
  own : ∀ i x, s.locked.handling i = some x → ∃ stream sent,
    (s.loops i).handles (.call 0) = some (stream, sent) ∧ x.peer = sent.peer ∧ x.msg = sent.msg

/-- What a step amounts to: a call where it is left, a reload where it takes the lock. -/
def turn (s : Working workers) : Action workers → List (Turns.Action workers)
  | .loop i act sent => [.step i act sent 0]
  | .leave i => ((s.loops i).handles (.call 0)).toList.flatMap fun call =>
      (s.locked.handling i).toList.map fun x => .step i (.call 0) call.2 x.now
  | .lock csv ptm => [.reload csv ptm]
  | .enter .. | .deliver _ | .write | .unlock => []

namespace Stands

variable (h : Stands J P T ctx m s t)

include h

theorem loop {i : WorkerId workers} {act : Fsm.Action} {sent : Sent}
    (hstep : Working.step J P T ctx c m s (.loop i act sent) = some s') :
    ∃ t', Turns.step J P T ctx c m t (.step i act sent 0) = some t' ∧ Stands J P T ctx m s' t' := by
  rw [Working.step, Option.ite_none_right_eq_some] at hstep
  obtain ⟨⟨hvendor, hnone, hfree⟩, hstep⟩ := hstep
  rw [Option.isNone_iff_eq_none] at hnone
  obtain ⟨l, hl, rfl⟩ := Option.map_eq_some_iff.mp hstep
  have hserving : Serving.step J P T ctx m t.serving ⟨i, act, sent, t.labelMap, 0⟩ =
      some { t.serving with loops := Function.update s.loops i l } := by
    rw [Serving.step, if_pos hvendor]
    simp only [h.loops, hl, hnone]
  refine ⟨{ t with serving := { t.serving with loops := Function.update s.loops i l } }, ?_,
    rfl, h.calls, h.reloaded, h.locked, h.order.step hserving, fun j x hx => ?_⟩
  · rw [Turns.step, hserving]
    rfl
  · obtain ⟨stream, y, hy, hpeer, hmsg⟩ := h.own j x hx
    refine ⟨stream, y, ?_, hpeer, hmsg⟩
    by_cases hj : j = i
    · subst hj
      have hbusy : (s.locked.handling j).isNone = false := by
        rw [hx]
        rfl
      rw [hbusy, Bool.false_or] at hfree
      have hsound := h.order.loops j
      rw [h.loops] at hsound
      show (Function.update s.loops j l j).handles (.call 0) = _
      rw [Function.update_self]
      exact Loop.handles_of_outside hsound hfree hl hy
    · show (Function.update s.loops i l j).handles (.call 0) = _
      rw [Function.update_of_ne hj]
      exact hy

theorem enter {i : WorkerId workers} {now : Int64}
    (hstep : Working.step J P T ctx c m s (.enter i now) = some s') : Stands J P T ctx m s' t := by
  rw [Working.step] at hstep
  cases hcall : (s.loops i).handles (.call 0) with
  | none =>
    rw [hcall] at hstep
    cases hstep
  | some call =>
    obtain ⟨stream, sent⟩ := call
    simp only [hcall] at hstep
    obtain ⟨k, hk, rfl⟩ := Option.map_eq_some_iff.mp hstep
    refine ⟨h.loops, h.calls, h.reloaded, h.locked.lockShared hk, h.order, fun j x hx => ?_⟩
    rcases Locked.handling_of_step hk hx with ⟨x₀, hx₀, hpeer, hmsg⟩ | ⟨now', heq⟩
    · rw [← hpeer, ← hmsg]
      exact h.own j x₀ hx₀
    · simp only [Locked.Action.lockShared.injEq] at heq
      obtain ⟨rfl, -, hpeer, hmsg⟩ := heq
      exact ⟨stream, sent, hcall, hpeer.symm, hmsg.symm⟩

omit h in
/-- No step at the lock but a call's entering puts a worker in `HandleMessage`. -/
theorem own_of_step (hown : ∀ i x, s.locked.handling i = some x → ∃ stream sent,
      (s.loops i).handles (.call 0) = some (stream, sent) ∧ x.peer = sent.peer ∧ x.msg = sent.msg)
    {a : Locked.Action (WorkerId workers)} {k : Locked (WorkerId workers)}
    (ha : ∀ i now peer msg, a ≠ .lockShared i now peer msg)
    (hk : Locked.step J P T ctx c s.locked a = some k) (i : WorkerId workers) (x : Handling)
    (hx : k.handling i = some x) : ∃ stream sent,
      (s.loops i).handles (.call 0) = some (stream, sent) ∧ x.peer = sent.peer ∧ x.msg = sent.msg := by
  rcases Locked.handling_of_step hk hx with ⟨x₀, hx₀, hpeer, hmsg⟩ | ⟨now, heq⟩
  · rw [← hpeer, ← hmsg]
    exact hown i x₀ hx₀
  · exact absurd heq (ha i now _ _)

/-- Where the call is left it has been the whole call, with the map as it is. -/
theorem leave_whole {i : WorkerId workers} {stream : ℕ} {sent : Sent} {x : Handling} {l : Loop}
    {k : Locked (WorkerId workers)} (hcall : (s.loops i).handles (.call 0) = some (stream, sent))
    (hx : s.locked.handling i = some x)
    (hl : (s.loops i).step i.1 (m i.1) (.call 0) sent = some l)
    (hk : Locked.step J P T ctx c s.locked (.unlockShared i) = some k) :
    ∃ t', Turns.step J P T ctx c m t (.step i (.call 0) sent x.now) = some t' ∧
      Stands J P T ctx m ⟨Function.update s.loops i l,
        s.calls ++ [⟨i, stream, sent, s.locked.labelMap, x.now⟩], s.reloaded, k⟩ t' := by
  have hsound := h.order.loops i
  rw [h.loops] at hsound
  obtain ⟨self, cs, -, -, hrequest⟩ := Loop.exists_of_handles hcall
  have hvendor : sent.msg.vendor = i.1 := hsound.vendor self sent hrequest
  have hmap : s.locked.labelMap = t.labelMap := by
    apply h.locked.labelMap_eq
    intro hmutex
    have hshared := (h.locked.busy i x hx).1
    rw [hmutex] at hshared
    exact SharedMutex.not_sharedBy_exclusive hshared
  obtain ⟨now, peer, msg, t₁, hi, ht₁, hstands⟩ := h.locked.unlockShared hk
  rw [hx, Option.some.injEq] at hi
  obtain ⟨stream', sent', hcall', hpeer, hmsg⟩ := h.own i x hx
  rw [hcall, Option.some.injEq, Prod.mk.injEq] at hcall'
  obtain ⟨rfl, rfl⟩ := hcall'
  subst hi
  simp only at hpeer hmsg
  subst hpeer hmsg
  let call : HandleCall workers := ⟨i, stream, sent, t.labelMap, now⟩
  have hcollector : ∃ p, Collector.step J P T ctx t.serving.process call.received = some p ∧
      t₁ = ⟨call.labelMap, p.workers⟩ := Collector.step_of_serial hvendor ht₁
  obtain ⟨p, hp, rfl⟩ := hcollector
  have hserving : Serving.step J P T ctx m t.serving ⟨i, .call 0, sent, t.labelMap, now⟩ =
      some ⟨Function.update s.loops i l, t.serving.calls ++ [call], p⟩ := by
    rw [Serving.step, if_pos hvendor]
    simp only [h.loops, hl, hcall]
    rw [hp]
    rfl
  refine ⟨{ t with serving := ⟨Function.update s.loops i l, t.serving.calls ++ [call], p⟩ }, ?_,
    rfl, ?_, h.reloaded, hstands, h.order.step hserving, fun j y hy => ?_⟩
  · rw [Turns.step, hserving]
    rfl
  · show t.serving.calls ++ [call] = _
    rw [h.calls, hmap]
  · have hj : j ≠ i := by
      rintro rfl
      rw [Locked.handling_of_unlockShared hk] at hy
      cases hy
    rcases Locked.handling_of_step hk hy with ⟨y₀, hy₀, hpeer, hmsg⟩ | ⟨now', heq⟩
    · show ∃ stream sent, (Function.update s.loops i l j).handles (.call 0) = some (stream, sent) ∧ _
      rw [Function.update_of_ne hj, ← hpeer, ← hmsg]
      exact h.own j y₀ hy₀
    · cases heq

theorem leave {i : WorkerId workers} (hstep : Working.step J P T ctx c m s (.leave i) = some s') :
    ∃ stream sent x t', (s.loops i).handles (.call 0) = some (stream, sent) ∧
      s.locked.handling i = some x ∧
      Turns.step J P T ctx c m t (.step i (.call 0) sent x.now) = some t' ∧
      Stands J P T ctx m s' t' := by
  rw [Working.step] at hstep
  cases hcall : (s.loops i).handles (.call 0) with
  | none =>
    rw [hcall] at hstep
    cases hstep
  | some call =>
    obtain ⟨stream, sent⟩ := call
    cases hx : s.locked.handling i with
    | none =>
      simp only [hcall, hx] at hstep
      cases hstep
    | some x =>
      simp only [hcall, hx] at hstep
      cases hl : (s.loops i).step i.1 (m i.1) (.call 0) sent with
      | none =>
        simp only [hl] at hstep
        cases hstep
      | some l =>
        cases hk : Locked.step J P T ctx c s.locked (.unlockShared i) with
        | none =>
          simp only [hl, hk] at hstep
          cases hstep
        | some k =>
          simp only [hl, hk, Option.some.injEq] at hstep
          obtain ⟨t', ht', hstands⟩ := h.leave_whole hcall hx hl hk
          exact ⟨stream, sent, x, t', rfl, rfl, ht', hstep ▸ hstands⟩

theorem lock {csv ptm : Option Bytes}
    (hstep : Working.step J P T ctx c m s (.lock csv ptm) = some s') :
    ∃ t', Turns.step J P T ctx c m t (.reload csv ptm) = some t' ∧ Stands J P T ctx m s' t' := by
  rw [Working.step] at hstep
  obtain ⟨k, hk, rfl⟩ := Option.map_eq_some_iff.mp hstep
  obtain ⟨t₁, ht₁, hstands⟩ := h.locked.lock hk
  rw [Serial.step] at ht₁
  split at ht₁
  · rename_i labelMap hreload
    cases ht₁
    refine ⟨{ t with reloaded := t.reloaded ++ [(csv, ptm)], labelMap := labelMap }, ?_,
      h.loops, h.calls, ?_, hstands, h.order, own_of_step h.own (by simp) hk⟩
    · rw [Turns.step, hreload]
    · show t.reloaded ++ _ = s.reloaded ++ _
      rw [h.reloaded]
  · cases ht₁

theorem step {a : Action workers} (hstep : Working.step J P T ctx c m s a = some s') :
    ∃ t', (turns J P T ctx c m workers).run (turn s a) t = some t' ∧
      Stands J P T ctx m s' t' := by
  cases a with
  | loop i act sent =>
    obtain ⟨t', ht', hstands⟩ := h.loop hstep
    have hturn : (turns J P T ctx c m workers).step t (.step i act sent 0) = some t' := ht'
    exact ⟨t', (turns J P T ctx c m workers).run_cons_of_step hturn [], hstands⟩
  | enter i now => exact ⟨t, rfl, h.enter hstep⟩
  | leave i =>
    obtain ⟨stream, sent, x, t', hcall, hx, ht', hstands⟩ := h.leave hstep
    have hturn : (turns J P T ctx c m workers).step t (.step i (.call 0) sent x.now) = some t' := ht'
    refine ⟨t', ?_, hstands⟩
    rw [turn, hcall, hx]
    exact (turns J P T ctx c m workers).run_cons_of_step hturn []
  | lock csv ptm =>
    obtain ⟨t', ht', hstands⟩ := h.lock hstep
    have hturn : (turns J P T ctx c m workers).step t (.reload csv ptm) = some t' := ht'
    exact ⟨t', (turns J P T ctx c m workers).run_cons_of_step hturn [], hstands⟩
  | deliver i =>
    rw [Working.step] at hstep
    obtain ⟨k, hk, rfl⟩ := Option.map_eq_some_iff.mp hstep
    exact ⟨t, rfl, h.loops, h.calls, h.reloaded, h.locked.deliver hk, h.order,
      own_of_step h.own (by simp) hk⟩
  | write =>
    rw [Working.step] at hstep
    obtain ⟨k, hk, rfl⟩ := Option.map_eq_some_iff.mp hstep
    exact ⟨t, rfl, h.loops, h.calls, h.reloaded, h.locked.write hk, h.order,
      own_of_step h.own (by simp) hk⟩
  | unlock =>
    rw [Working.step] at hstep
    obtain ⟨k, hk, rfl⟩ := Option.map_eq_some_iff.mp hstep
    exact ⟨t, rfl, h.loops, h.calls, h.reloaded, h.locked.unlock hk, h.order,
      own_of_step h.own (by simp) hk⟩

end Stands

end Working

/-- The loops do what they do with whole calls and whole reloads. -/
def wholeCalls (J : JsonCpp) (P : Protobuf) (T : Transport) (ctx : Context) (c : LabelSettings)
    (m workers : Vendor → ℕ) :
    Simulation (working J P T ctx c m workers) (turns J P T ctx c m workers) where
  rel := Working.Stands J P T ctx m
  image := Working.turn
  start := ⟨rfl, rfl, rfl, Locked.stands_start ctx.labelMap, Serving.inOrder_start,
    fun i x hx => by cases hx⟩
  step h hstep := h.step hstep

/-! ### What the calls are made with -/

namespace Serving

variable {J : JsonCpp} {P : Protobuf} {T : Transport} {ctx : Context} {m workers : Vendor → ℕ}
  {s t : Serving workers} {a : Action workers}

/-- A call is made with the map as it is then. -/
theorem calls_of_step (h : Serving.step J P T ctx m s a = some t) :
    t.calls = s.calls ∨ ∃ call, t.calls = s.calls ++ [call] ∧ call.labelMap = a.labelMap := by
  rw [Serving.step, Option.ite_none_right_eq_some] at h
  obtain ⟨-, h⟩ := h
  cases hloop : (s.loops a.worker).step a.worker.1 (m a.worker.1) a.act a.sent with
  | none =>
    rw [hloop] at h
    cases h
  | some l =>
    simp only [hloop] at h
    cases hhandles : (s.loops a.worker).handles a.act with
    | none =>
      simp only [hhandles, Option.some.injEq] at h
      exact .inl (congrArg calls h).symm
    | some call =>
      simp only [hhandles, Option.map_eq_some_iff] at h
      obtain ⟨u, -, rfl⟩ := h
      exact .inr ⟨_, rfl, rfl⟩

end Serving

/-- The calls are made with maps that the first of the reloads have left, later calls after
at least as many. -/
def MapsOf (c : LabelSettings) (labelMap : LabelMap) (files : List (Option Bytes × Option Bytes))
    {workers : Vendor → ℕ} (calls : List (HandleCall workers)) : Prop :=
  ∃ ks : List ℕ, ks.Pairwise (· ≤ ·) ∧ (∀ k ∈ ks, k ≤ files.length) ∧
    List.Forall₂ (fun k call => reloads c (files.take k) labelMap = .running call.labelMap) ks calls

namespace MapsOf

variable {c : LabelSettings} {labelMap : LabelMap} {files : List (Option Bytes × Option Bytes)}
  {workers : Vendor → ℕ} {calls : List (HandleCall workers)}

theorem append_call (h : MapsOf c labelMap files calls) {call : HandleCall workers}
    (hcall : reloads c files labelMap = .running call.labelMap) :
    MapsOf c labelMap files (calls ++ [call]) := by
  obtain ⟨ks, hsorted, hle, hmaps⟩ := h
  refine ⟨ks ++ [files.length], ?_, ?_, ?_⟩
  · rw [List.pairwise_append]
    refine ⟨hsorted, List.pairwise_singleton _ _, fun k hk k' hk' => ?_⟩
    rw [List.mem_singleton.mp hk']
    exact hle k hk
  · intro k hk
    rcases List.mem_append.mp hk with hk | hk
    · exact hle k hk
    · exact (List.mem_singleton.mp hk).le
  · apply List.rel_append hmaps
    refine .cons ?_ .nil
    rw [List.take_length]
    exact hcall

theorem append_file (h : MapsOf c labelMap files calls) (file : Option Bytes × Option Bytes) :
    MapsOf c labelMap (files ++ [file]) calls := by
  obtain ⟨ks, hsorted, hle, hmaps⟩ := h
  refine ⟨ks, hsorted, fun k hk => ?_, ?_⟩
  · rw [List.length_append]
    exact Nat.le_add_right_of_le (hle k hk)
  · have hboth := List.forall₂_and_left ks calls |>.mpr ⟨hle, hmaps⟩
    refine hboth.imp fun k call hk => ?_
    rw [List.take_append_of_le_length hk.1]
    exact hk.2

end MapsOf

namespace Turns

variable {J : JsonCpp} {P : Protobuf} {T : Transport} {ctx : Context} {c : LabelSettings}
  {m workers : Vendor → ℕ} {s t : Turns workers} {a : Action workers}

/-- What holds one call at a time. -/
structure Sound (J : JsonCpp) (P : Protobuf) (T : Transport) (ctx : Context) (c : LabelSettings)
    (m : Vendor → ℕ) (s : Turns workers) : Prop where
  order : Serving.InOrder m s.serving
  replayed : (collector J P T ctx workers).run (s.serving.calls.map HandleCall.received) {} =
    some s.serving.process
  labelMap : reloads c s.reloaded ctx.labelMap = .running s.labelMap
  maps : MapsOf c ctx.labelMap s.reloaded s.serving.calls

theorem Sound.step (hs : Sound J P T ctx c m s) (h : Turns.step J P T ctx c m s a = some t) :
    Sound J P T ctx c m t := by
  cases a with
  | step i act sent now =>
    rw [Turns.step, Option.map_eq_some_iff] at h
    obtain ⟨u, hu, rfl⟩ := h
    refine ⟨hs.order.step hu, Serving.replayed_step hs.replayed hu, hs.labelMap, ?_⟩
    rcases Serving.calls_of_step hu with hcalls | ⟨call, hcalls, hmap⟩
    · show MapsOf c ctx.labelMap s.reloaded u.calls
      rw [hcalls]
      exact hs.maps
    · show MapsOf c ctx.labelMap s.reloaded u.calls
      rw [hcalls]
      exact hs.maps.append_call (hmap ▸ hs.labelMap)
  | reload csv ptm =>
    rw [Turns.step] at h
    split at h
    · rename_i labelMap hreload
      cases h
      refine ⟨hs.order, hs.replayed, ?_, hs.maps.append_file (csv, ptm)⟩
      have hmap := hs.labelMap
      rw [reloads] at hmap ⊢
      rw [List.foldlM_append, hmap]
      show (reloadLabelMaps c csv ptm s.labelMap >>= fun m => .running m) = _
      rw [hreload]
      rfl
    · cases h

theorem sound_of_reachable (hs : (turns J P T ctx c m workers).Reachable s) :
    Sound J P T ctx c m s :=
  (turns J P T ctx c m workers).reachable_invariant
    ⟨Serving.inOrder_start, rfl, rfl, ⟨[], List.Pairwise.nil, by simp, .nil⟩⟩
    (fun _ _ _ hs hstep => hs.step hstep) hs

end Turns

namespace Working

variable {J : JsonCpp} {P : Protobuf} {T : Transport} {ctx : Context} {c : LabelSettings}
  {m workers : Vendor → ℕ} {s : Working workers}

/-- However the loops, the bodies of their messages and the reloads interleave: a worker outside
`HandleMessage` has sent the envelopes of its calls in their order, the calls on a stream are
its messages in the order in which they came, and each is made with one map from its first
body to its last, which the reloads so far have left. -/
theorem loops_work_in_turn (hJ : J.Lawful) (hkafka : ctx.delivery = .kafka)
    (hs : (working J P T ctx c m workers).Reachable s) :
    (∀ i, s.locked.handling i = none → (s.locked.workers i).handed =
      (letters J P ctx (s.calls.filter fun call => call.worker = i) 0).map (posted J)) ∧
    (∀ i a, callsOn s.calls i ((s.loops i).numbers a) <+: ((s.loops i).history.logs a).arrived ∧
      (¬History.InHand (s.loops i).history.fsm a →
        callsOn s.calls i ((s.loops i).numbers a) = ((s.loops i).history.logs a).arrived)) ∧
    MapsOf c ctx.labelMap s.reloaded s.calls := by
  obtain ⟨t, ht, hstands⟩ := (wholeCalls J P T ctx c m workers).reachable hs
  have hstands : Stands J P T ctx m s t := hstands
  have hsound := Turns.sound_of_reachable ht
  refine ⟨fun i hi => ?_, fun i a => ?_, ?_⟩
  · rw [hstands.locked.idle i hi, ← hstands.calls]
    exact handed_of_calls hJ hkafka i hsound.replayed
  · rw [← hstands.loops, ← hstands.calls]
    exact ⟨hsound.order.calls_prefix i a, hsound.order.calls_eq_arrived⟩
  · rw [← hstands.calls, ← hstands.reloaded]
    exact hsound.maps

def loopSteps (i : Fin 2) (acts : List Fsm.Action) : List (Action twoHuawei) :=
  acts.map fun act => .loop (huaweiWorker i) act
    ⟨lit "ipv4:192.0.2.1:57400", .huawei (.dataJson (lit "{}"))⟩

/-- A message comes before a reload and is handled after it, while a second stream begins. -/
def reloadThenHandle (i : Fin 2) (csv : Bytes) : List (Action twoHuawei) :=
  loopSteps i [.call 7, .complete (7, .request) true, .next (7, .request) true, .call 9, .call 0,
      .complete (7, .read) true, .next (7, .read) true] ++
    [.lock (some csv) none, .write, .write, .unlock, .enter (huaweiWorker i) 0] ++
    loopSteps i [.complete (9, .request) true] ++
    [.deliver (huaweiWorker i), .leave (huaweiWorker i)] ++ loopSteps i [.call 0]

theorem exists_reloadThenHandle : ∃ s, (working Reference.jsonCpp Reference.protobuf acceptAll
    (defaultContext .kafka) ⟨true, false, by decide⟩ (fun _ => 0) twoHuawei).run
      (reloadThenHandle 1 (lit "192.0.2.1,node,platform")) { locked := { labelMap := .empty } } =
        some s ∧
      s.calls.map HandleCall.stream = [1] ∧ s.reloaded.length = 1 ∧
      (s.locked.handling (huaweiWorker 1)).isNone = true := by
  have hrun : ((working Reference.jsonCpp Reference.protobuf acceptAll (defaultContext .kafka)
      ⟨true, false, by decide⟩ (fun _ => 0) twoHuawei).run
        (reloadThenHandle 1 (lit "192.0.2.1,node,platform")) { locked := { labelMap := .empty } }).map
          (fun s => (s.calls.map HandleCall.stream, s.reloaded.length,
            (s.locked.handling (huaweiWorker 1)).isNone)) = some ([1], 1, true) := by decide
  obtain ⟨s, hs, heq⟩ := Option.map_eq_some_iff.mp hrun
  simp only [Prod.mk.injEq] at heq
  exact ⟨s, hs, heq⟩

theorem loops_work_in_turn_reloadThenHandle : ∃ s : Working twoHuawei,
    s.calls.map HandleCall.stream = [1] ∧ s.reloaded.length = 1 ∧
    (s.locked.workers (huaweiWorker 1)).handed =
      (letters Reference.jsonCpp Reference.protobuf (defaultContext .kafka)
        (s.calls.filter fun call => call.worker = huaweiWorker 1) 0).map (posted Reference.jsonCpp) ∧
    MapsOf ⟨true, false, by decide⟩ .empty s.reloaded s.calls := by
  obtain ⟨s, hs, hcalls, hreloaded, hidle⟩ := exists_reloadThenHandle
  rw [Option.isNone_iff_eq_none] at hidle
  obtain ⟨hhanded, -, hmaps⟩ := loops_work_in_turn Reference.jsonCpp_lawful rfl
    ⟨reloadThenHandle 1 (lit "192.0.2.1,node,platform"), hs⟩
  exact ⟨s, hcalls, hreloaded, hhanded _ hidle, hmaps⟩

end Working

end MdtDialoutCollector.Core
