import MdtDialoutCollector.Bridge.Join
import MdtDialoutCollector.Bridge.Snapshot
import Mathlib.Algebra.Order.BigOperators.Group.Finset

/-! One thread that starts the workers and stops them, call by call. Between two of its calls
every worker that has not gone will be joined; a call uses up the steps that its workers have
left, and is never stuck before its end, unless its snapshot has missed a worker. -/

namespace MdtDialoutCollector.Bridge

open Runs

/-- The next step of a worker thread. -/
inductive WorkerStep where
  | register | enter | leave | unregister | destroy
  deriving DecidableEq

def WorkerStep.action (k : WorkerStep) (w : WorkerId) : Action :=
  match k with
  | .register => .register w
  | .enter => .enter w
  | .leave => .leave w
  | .unregister => .unregister w
  | .destroy => .destroy w

/-- The threads that `LoadThreads` creates, numbered from `first`. -/
def spawn (first : ℕ) : ℕ → List Action
  | 0 => []
  | n + 1 => .create first :: .track first :: spawn (first + 1) n

/-- A stop that has returned leaves the thread of the host free for the next call. -/
def Process.callReturned (s : Process) : Process :=
  if s.callers 0 = .returned .stop then s.setCaller 0 .idle else s

/-! ### The steps of the workers -/

def Phase.stepsLeft : Phase → ℕ
  | .building => 5
  | .registered => 4
  | .inFsm => 3
  | .leftFsm => 2
  | .unregistered => 1
  | .destroyed => 0

/-- A stop joins the workers it finds when it has been through its snapshot. -/
def Caller.stepsLeft (workers : ℕ) : Caller → ℕ
  | .idle | .returned _ => 0
  | .draining _ rest => 2 * rest.length + workers + 2
  | .closing _ _ rest => 2 * rest.length + workers + 3
  | .joining rest => rest.length + 1

/-- What a step of worker `w` leaves as it was, and what it may mark. -/
structure Worked (s t : Process) (w : WorkerId) : Prop where
  callers : t.callers = s.callers
  activeWorkers : t.activeWorkers = s.activeWorkers
  phase : ∃ p q, s.phase w = some p ∧ t.phase = Function.update s.phase w (some q) ∧
    q.stepsLeft < p.stepsLeft
  done : ∀ u, t.shutdownDone u = true → s.shutdownDone u = true ∨
    u = w ∧ Process.Past (s.phase w) ∧ t.phase w = some .destroyed ∧ t.cqShutdown w = true
  cq : ∀ u, s.cqShutdown u = true → t.cqShutdown u = true

theorem worked_of_step {s t : Process} {k : WorkerStep} {w : WorkerId}
    (h : s.step (k.action w) = some t) : Worked s t w := by
  have hsteps := Process.steps_of_step h
  cases k with
  | register =>
    cases hsteps with
    | register hw =>
      exact ⟨rfl, rfl, ⟨_, .registered, hw, rfl, by decide⟩, fun _ hu => .inl hu, fun _ hu => hu⟩
  | enter =>
    cases hsteps with
    | enter hw =>
      exact ⟨rfl, rfl, ⟨_, .inFsm, hw, rfl, by decide⟩, fun _ hu => .inl hu, fun _ hu => hu⟩
  | leave =>
    cases hsteps with
    | leave hw hcq =>
      exact ⟨rfl, rfl, ⟨_, .leftFsm, hw, rfl, by decide⟩, fun _ hu => .inl hu, fun _ hu => hu⟩
  | unregister =>
    cases hsteps with
    | unregister hw =>
      exact ⟨rfl, rfl, ⟨_, .unregistered, hw, rfl, by decide⟩, fun _ hu => .inl hu, fun _ hu => hu⟩
  | destroy =>
    cases hsteps with
    | destroy hw =>
      refine ⟨rfl, rfl, ⟨_, .destroyed, hw, rfl, by decide⟩, fun u hu => ?_, fun u hu => ?_⟩
      · rcases Process.shutdownDone_markDone.mp hu with rfl | hu
        · exact .inr ⟨rfl, .inr (.inl hw), Process.setPhase_self _ _ _,
            Process.cqShutdown_shutQueue.mpr (.inl rfl)⟩
        · exact .inl hu
      · exact Process.cqShutdown_shutQueue.mpr (.inr hu)

namespace Worked

variable {s t : Process} {w u : WorkerId}

theorem phase_ne_none_iff (h : Worked s t w) : t.phase u ≠ none ↔ s.phase u ≠ none := by
  obtain ⟨p, q, hw, hphase, -⟩ := h.phase
  by_cases hu : u = w
  · simp [hphase, hu, hw]
  · rw [hphase, Function.update_of_ne hu]

theorem destroyed (h : Worked s t w) (hu : s.phase u = some .destroyed) :
    t.phase u = some .destroyed := by
  obtain ⟨p, q, hw, hphase, hlt⟩ := h.phase
  by_cases huw : u = w
  · rw [huw, hw] at hu
    cases hu
    exact absurd hlt (Nat.not_lt_zero _)
  · rw [hphase, Function.update_of_ne huw, hu]

end Worked

/-! ### One host at a time -/

/-- The caller is the thread of a host in its stop, or between two calls. -/
def Caller.OfStop : Caller → Prop
  | .idle | .draining .stop _ | .closing .stop _ _ | .joining _ => True
  | _ => False

namespace Process

/-- The workers that the host joins, or will join at its next stop. -/
def toJoin (s : Process) : List WorkerId :=
  match s.callers 0 with
  | .joining rest => rest
  | _ => s.activeWorkers

/-- Calls that come one after another, from one thread: no server waits in two snapshots,
`Shutdown` is followed by the shutdown of the queue, and every worker left is joined. -/
structure Orderly (s : Process) (next : ℕ) : Prop where
  sound : Sound s
  covered : Covered s
  exclusive : Exclusive s
  alone : ∀ c, c ≠ 0 → s.callers c = .idle
  ofStop : (s.callers 0).OfStop
  known : ∀ w, s.shutdownDone w = true → s.phase w ≠ none
  shut : ∀ w, s.shutdownDone w = true →
    s.cqShutdown w = true ∨ ∃ rest, s.callers 0 = .closing .stop w rest
  joined : ∀ w, s.phase w ≠ none → s.phase w = some .destroyed ∨ w ∈ s.toJoin
  quiet : s.callers 0 = .idle → ∀ w, s.shutdownDone w = true → s.phase w = some .destroyed
  fresh : ∀ w : ℕ, next ≤ w → s.phase w = none

variable {s t q : Process} {w next : ℕ} {pc : Caller}

theorem Orderly.work (h : Orderly s next) {k : WorkerStep} (hstep : s.step (k.action w) = some t) :
    Orderly t next := by
  have hw := worked_of_step hstep
  have hjoin : t.toJoin = s.toJoin := by rw [toJoin, toJoin, hw.callers, hw.activeWorkers]
  constructor
  · exact h.sound.step hstep
  · exact h.covered.step h.sound (by cases k <;> trivial) (by cases k <;> trivial) hstep
  · exact h.exclusive.step h.sound (by cases k <;> trivial) hstep
  · rw [hw.callers]
    exact h.alone
  · rw [hw.callers]
    exact h.ofStop
  · intro u hu
    rcases hw.done u hu with hu | ⟨rfl, -, hdestroyed, -⟩
    · exact hw.phase_ne_none_iff.mpr (h.known u hu)
    · simp [hdestroyed]
  · intro u hu
    rw [hw.callers]
    rcases hw.done u hu with hu | ⟨rfl, -, -, hcq⟩
    · exact (h.shut u hu).imp_left (hw.cq u)
    · exact .inl hcq
  · intro u hu
    rw [hjoin]
    exact (h.joined u (hw.phase_ne_none_iff.mp hu)).imp_left hw.destroyed
  · intro hidle u hu
    rw [hw.callers] at hidle
    rcases hw.done u hu with hu | ⟨rfl, -, hdestroyed, -⟩
    · exact hw.destroyed (h.quiet hidle u hu)
    · exact hdestroyed
  · intro u hu
    by_contra hn
    exact hw.phase_ne_none_iff.mp hn (h.fresh u hu)

/-- Between two calls a worker that nobody has shut down is in the registry, or will be. -/
theorem Orderly.unclaimed (h : Orderly s next) (hidle : s.callers 0 = .idle) :
    Unclaimed s (.initiateShutdown 0 .stop) := by
  intro w hw
  have hlisted := (h.sound.listed w).mp hw
  constructor
  · by_contra hdone
    rw [h.quiet hidle w (by simpa using hdone)] at hlisted
    simp [Listed] at hlisted
  · intro c
    by_cases hc : c = 0
    · simp [hc, hidle, Caller.uncalled]
    · simp [h.alone c hc, Caller.uncalled]

/-- What a step of the caller has to keep, where it leaves the workers as they are. -/
theorem Orderly.setCaller (h : Orderly s next) (hphase : q.phase = s.phase)
    (hcallers : q.callers = s.callers)
    (hinv : Sound (q.setCaller 0 pc) ∧ Covered (q.setCaller 0 pc) ∧ Exclusive (q.setCaller 0 pc))
    (hpc : pc.OfStop)
    (hdone : ∀ w, q.shutdownDone w = true → q.phase w ≠ none ∧
      (q.cqShutdown w = true ∨ ∃ rest, pc = .closing .stop w rest))
    (hjoin : ∀ w ∈ s.toJoin, s.phase w = some .destroyed ∨ w ∈ (q.setCaller 0 pc).toJoin)
    (hquiet : pc = .idle → ∀ w, s.phase w ≠ none → s.phase w = some .destroyed) :
    Orderly (q.setCaller 0 pc) next := by
  obtain ⟨hsound, hcovered, hexclusive⟩ := hinv
  refine ⟨hsound, hcovered, hexclusive, fun c hc => ?_, ?_, fun w hw => (hdone w hw).1,
    fun w hw => ?_, fun w hw => ?_, fun hidle w hw => ?_, fun w hw => ?_⟩
  · rw [setCaller_of_ne q hc, hcallers]
    exact h.alone c hc
  · rw [setCaller_self]
    exact hpc
  · rw [setCaller_self]
    exact (hdone w hw).2
  · show q.phase w = _ ∨ _
    rw [hphase]
    rcases h.joined w (hphase ▸ hw) with hdestroyed | hin
    · exact .inl hdestroyed
    · exact hjoin w hin
  · rw [setCaller_self] at hidle
    show q.phase w = _
    rw [hphase]
    exact hquiet hidle w (hphase ▸ (hdone w hw).1)
  · show q.phase w = none
    rw [hphase]
    exact h.fresh w hw

theorem toJoin_setCaller (hpc : ∀ rest, pc ≠ .joining rest) :
    (q.setCaller 0 pc).toJoin = q.activeWorkers := by
  rw [toJoin, setCaller_self]
  split
  · rename_i rest
    exact absurd rfl (hpc rest)
  · rfl

theorem toJoin_of_ne (h : ∀ rest, s.callers 0 ≠ .joining rest) : s.toJoin = s.activeWorkers := by
  rw [toJoin]
  split
  · rename_i rest hc
    exact absurd hc (h rest)
  · rfl

theorem Orderly.done_cq (h : Orderly s next) (hc : ∀ rest, s.callers 0 ≠ .closing .stop w rest)
    (hw : s.shutdownDone w = true) : s.cqShutdown w = true := by
  rcases h.shut w hw with hcq | ⟨rest, hclosing⟩
  · exact hcq
  · exact absurd hclosing (hc rest)

/-- Outside of a call of `Shutdown` no queue is waiting to be shut down. -/
theorem Orderly.settled (h : Orderly s next)
    (hc : ∀ w rest, s.callers 0 ≠ .closing .stop w rest) (w : WorkerId)
    (hw : s.shutdownDone w = true) :
    s.phase w ≠ none ∧ (s.cqShutdown w = true ∨ ∃ rest, pc = .closing .stop w rest) :=
  ⟨h.known w hw, .inl (h.done_cq (hc w) hw)⟩

theorem Orderly.stop (h : Orderly s next) (hbuilt : ∀ w, s.phase w ≠ some .building)
    (hstep : s.step (.initiateShutdown 0 .stop) = some t) : Orderly t next := by
  have hsound := h.sound.step hstep
  have hafter : AfterStart s (.initiateShutdown 0 .stop) := trivial
  have hcovered := h.covered.step h.sound hafter hbuilt hstep
  cases steps_of_step hstep with
  | snapshot hidle =>
    have hexclusive := h.exclusive.step h.sound (h.unclaimed hidle) hstep
    apply h.setCaller rfl rfl ⟨hsound, hcovered, hexclusive⟩ trivial
    · exact h.settled (by simp [hidle])
    · rw [toJoin_of_ne (by simp [hidle]), toJoin_setCaller (by simp)]
      exact fun w hw => .inr hw
    · simp

theorem listed_ne_none {p : Option Phase} (h : Listed p) : p ≠ none := by
  rintro rfl
  simp [Listed] at h

/-- The head of a snapshot is in the registry, and nobody has shut it down. -/
theorem Orderly.head (h : Orderly s next) {entry : Entry} {rest : List WorkerId}
    (hc : s.callers 0 = .draining entry (w :: rest)) :
    s.shutdownDone w = false ∧ Listed (s.phase w) :=
  h.exclusive.fresh 0 w (by rw [hc]; exact List.mem_cons_self)

/-- Past the joins every worker has gone. -/
theorem Orderly.all_destroyed (h : Orderly s next) (hc : s.callers 0 = .joining [])
    (hw : s.phase w ≠ none) : s.phase w = some .destroyed := by
  have hjoined := h.joined w hw
  simpa [toJoin, hc] using hjoined

theorem callReturned_of_ne (hpc : pc ≠ .returned .stop) :
    callReturned (q.setCaller 0 pc) = q.setCaller 0 pc := by
  rw [callReturned, setCaller_self, if_neg hpc]

theorem callReturned_returned :
    callReturned (q.setCaller 0 (.returned .stop)) = q.setCaller 0 .idle := by
  rw [callReturned, setCaller_self, if_pos rfl]
  simp only [Process.setCaller, Function.update_idem]

/-- `Shutdown` of the next server, up to its flag: the shutdown of the queue is still to come. -/
theorem Orderly.call (h : Orderly s next) {entry : Entry} {rest : List WorkerId}
    (hc : s.callers 0 = .draining entry (w :: rest))
    (hinv : Sound ((s.markDone w).setCaller 0 (.closing entry w rest)) ∧
      Covered ((s.markDone w).setCaller 0 (.closing entry w rest)) ∧
      Exclusive ((s.markDone w).setCaller 0 (.closing entry w rest))) :
    Orderly ((s.markDone w).setCaller 0 (.closing entry w rest)) next := by
  have hofStop := h.ofStop
  rw [hc] at hofStop
  cases entry with
  | watcher => exact hofStop.elim
  | stop =>
    apply h.setCaller (q := s.markDone w) rfl rfl hinv trivial
    · intro u hu
      rcases shutdownDone_markDone.mp hu with rfl | hu
      · exact ⟨listed_ne_none (h.head hc).2, .inr ⟨rest, rfl⟩⟩
      · exact h.settled (by simp [hc]) u hu
    · rw [toJoin_of_ne (by simp [hc]), toJoin_setCaller (by simp)]
      exact fun u hu => .inr hu
    · simp

theorem Orderly.close (h : Orderly s next) {entry : Entry} {rest : List WorkerId}
    (hc : s.callers 0 = .closing entry w rest)
    (hinv : Sound ((s.shutQueue w).setCaller 0 (.draining entry rest)) ∧
      Covered ((s.shutQueue w).setCaller 0 (.draining entry rest)) ∧
      Exclusive ((s.shutQueue w).setCaller 0 (.draining entry rest))) :
    Orderly ((s.shutQueue w).setCaller 0 (.draining entry rest)) next := by
  have hofStop := h.ofStop
  rw [hc] at hofStop
  cases entry with
  | watcher => exact hofStop.elim
  | stop =>
    apply h.setCaller (q := s.shutQueue w) rfl rfl hinv trivial
    · intro u hu
      refine ⟨h.known u hu, .inl (cqShutdown_shutQueue.mpr ?_)⟩
      rcases h.shut u hu with hcq | ⟨rest', hu⟩
      · exact .inr hcq
      · rw [hc] at hu
        cases hu
        exact .inl rfl
    · rw [toJoin_of_ne (by simp [hc]), toJoin_setCaller (by simp)]
      exact fun u hu => .inr hu
    · simp

theorem Orderly.advance (h : Orderly s next) (hstep : s.advance 0 = some t) :
    Orderly t.callReturned next := by
  have hsound := h.sound.step (a := .advance 0) hstep
  have hcovered := h.covered.step (a := .advance 0) h.sound trivial trivial hstep
  have hexclusive := h.exclusive.step (a := .advance 0) h.sound trivial hstep
  have hinv := And.intro hsound (And.intro hcovered hexclusive)
  cases steps_of_advance hstep with
  | callDestroyed hc hw =>
    have hlisted := (h.head hc).2
    simp [hw, Listed] at hlisted
  | callAgain hc hdone =>
    rw [(h.head hc).1] at hdone
    cases hdone
  | call hc hdone =>
    rw [callReturned_of_ne (by simp)]
    exact h.call hc hinv
  | close hc =>
    rw [callReturned_of_ne (by simp)]
    exact h.close hc hinv
  | swap hc =>
    rw [callReturned_of_ne (by simp)]
    apply h.setCaller (q := { s with activeWorkers := [] }) rfl rfl hinv trivial
    · exact h.settled (by simp [hc])
    · rw [toJoin_of_ne (by simp [hc]), toJoin, setCaller_self]
      exact fun u hu => .inr hu
    · simp
  | watched hc =>
    have hofStop := h.ofStop
    rw [hc] at hofStop
    exact hofStop.elim
  | @join _ w rest hc hw =>
    rw [callReturned_of_ne (by simp)]
    apply h.setCaller rfl rfl hinv trivial
    · exact h.settled (by simp [hc])
    · rw [toJoin, toJoin, hc, setCaller_self]
      intro u hu
      rcases List.mem_cons.mp hu with rfl | hu
      · exact .inl hw
      · exact .inr hu
    · simp
  | joined hc =>
    rw [callReturned_returned]
    have hinv' : Sound (s.setCaller 0 .idle) ∧ Covered (s.setCaller 0 .idle) ∧
        Exclusive (s.setCaller 0 .idle) := by
      refine ⟨h.sound.setCaller (by simp) (by simp), h.covered.setCaller (by simp [hc]) ?_,
        h.exclusive.setCaller (List.nil_sublist _)⟩
      simp [hc, Caller.uncalled]
    apply h.setCaller rfl rfl hinv' trivial
    · exact h.settled (by simp [hc])
    · simp [toJoin, hc]
    · exact fun _ u hu => h.all_destroyed hc hu

/-- `LoadThreads` between two calls: the new worker is among those the next stop joins. -/
theorem Orderly.load (h : Orderly s next) (hidle : s.callers 0 = .idle) :
    ∃ t u, s.step (.create next) = some t ∧ t.step (.track next) = some u ∧
      Orderly u (next + 1) ∧ u.callers = s.callers := by
  have hnone := h.fresh next le_rfl
  have hout : next ∉ s.activeWorkers := fun hin => h.sound.tracked next hin hnone
  have hcallers (c : CallerId) : s.callers c = .idle := by
    by_cases hc : c = 0
    · rw [hc, hidle]
    · exact h.alone c hc
  let t := s.setPhase next .building
  have hcreate : s.step (.create next) = some t := by rw [step, if_pos hnone]
  have htrack : t.step (.track next) =
      some { t with activeWorkers := t.activeWorkers ++ [next] } := by
    rw [step, if_pos ⟨by simp [t], hout⟩]
  have hafter : AfterStart s (.create next) := hcallers
  have hafter' : AfterStart t (.track next) := hcallers
  have hfree : Unclaimed s (.create next) := trivial
  have hfree' : Unclaimed t (.track next) := trivial
  have hs := h.sound.step hcreate
  have hc := h.covered.step h.sound hafter trivial hcreate
  have he := h.exclusive.step h.sound hfree hcreate
  have hold {w : WorkerId} (hw : w ≠ next) : t.phase w = s.phase w := setPhase_of_ne s hw _
  refine ⟨t, _, hcreate, htrack, ⟨hs.step htrack, hc.step hs hafter' trivial htrack,
    he.step hs hfree' htrack, h.alone, h.ofStop, fun w hw => setPhase_ne_none (h.known w hw),
    h.shut, fun w hw => ?_, fun _ w hw => ?_, fun w hw => ?_⟩, rfl⟩
  · rw [toJoin_of_ne (s := { t with activeWorkers := _ }) (by simp [t, setPhase, hidle])]
    by_cases hwn : w = next
    · simp [hwn]
    · have hw' : t.phase w ≠ none := hw
      rw [hold hwn] at hw'
      have hjoined := h.joined w hw'
      rw [toJoin_of_ne (by simp [hidle])] at hjoined
      show t.phase w = _ ∨ _
      rw [hold hwn]
      exact hjoined.imp_right (List.mem_append_left _)
  · have hdestroyed := h.quiet hidle w hw
    show t.phase w = _
    rw [hold (by rintro rfl; simp [hnone] at hdestroyed)]
    exact hdestroyed
  · show t.phase w = none
    rw [hold (Nat.ne_of_gt hw)]
    exact h.fresh w (Nat.le_of_succ_le hw)

theorem Orderly.spawn (h : Orderly s next) (hidle : s.callers 0 = .idle) (n : ℕ) :
    ∃ t, Bridge.process.run (Bridge.spawn next n) s = some t ∧ Orderly t (next + n) ∧ t.callers = s.callers := by
  induction n generalizing s next with
  | zero => exact ⟨s, rfl, h, rfl⟩
  | succ n ih =>
    obtain ⟨t, u, hcreate, htrack, hu, hcallers⟩ := h.load hidle
    obtain ⟨v, hrun, hv, hcallers'⟩ := ih hu (by rw [hcallers, hidle])
    refine ⟨v, ?_, ?_, hcallers'.trans hcallers⟩
    · have hfirst : Bridge.process.step s (.create next) = some t := hcreate
      have hsecond : Bridge.process.step t (.track next) = some u := htrack
      rw [Bridge.spawn, Machine.run_cons_of_step _ hfirst, Machine.run_cons_of_step _ hsecond, hrun]
    · rw [show next + (n + 1) = next + 1 + n by omega]
      exact hv

/-! ### A call comes to its end -/

def workersLeft (s : Process) (next : ℕ) : ℕ :=
  ∑ w ∈ Finset.range next, (s.phase w).elim 0 Phase.stepsLeft

def callLeft (s : Process) : ℕ := (s.callers 0).stepsLeft s.activeWorkers.length

theorem callLeft_setCaller : (q.setCaller 0 pc).callLeft = pc.stepsLeft q.activeWorkers.length := by
  rw [callLeft, setCaller_self, Process.setCaller]

theorem Orderly.work_uses (h : Orderly s next) {k : WorkerStep}
    (hstep : s.step (k.action w) = some t) :
    t.workersLeft next + t.callLeft < s.workersLeft next + s.callLeft := by
  have hw := worked_of_step hstep
  have hcall : t.callLeft = s.callLeft := by rw [callLeft, callLeft, hw.callers, hw.activeWorkers]
  obtain ⟨p, q, hp, hphase, hlt⟩ := hw.phase
  have hmem : w < next := by
    by_contra hn
    rw [h.fresh w (by omega)] at hp
    cases hp
  have hsum : t.workersLeft next < s.workersLeft next := by
    apply Finset.sum_lt_sum
    · intro u _
      rw [hphase, Function.update_apply]
      split_ifs with hu
      · simpa [hu, hp] using hlt.le
      · exact le_rfl
    · refine ⟨w, Finset.mem_range.mpr hmem, ?_⟩
      simpa [hphase, hp] using hlt
  rw [hcall]
  exact Nat.add_lt_add_right hsum _

theorem Orderly.advance_uses (h : Orderly s next) (hstep : s.advance 0 = some t) :
    t.callReturned.workersLeft next + t.callReturned.callLeft <
      s.workersLeft next + s.callLeft := by
  have hofStop := h.ofStop
  have hleft : t.phase = s.phase ∧ t.callReturned.callLeft < s.callLeft := by
    cases steps_of_advance hstep with
    | callDestroyed hc hw =>
      have hlisted := (h.head hc).2
      simp [hw, Listed] at hlisted
    | callAgain hc hdone =>
      rw [(h.head hc).1] at hdone
      cases hdone
    | call hc hdone =>
      rw [callReturned_of_ne (by simp), callLeft_setCaller, callLeft, hc, Caller.stepsLeft,
        Caller.stepsLeft, List.length_cons]
      exact ⟨rfl, show 2 * _ + s.activeWorkers.length + 3 < _ by omega⟩
    | close hc =>
      rw [callReturned_of_ne (by simp), callLeft_setCaller, callLeft, hc]
      exact ⟨rfl, Nat.lt_succ_self _⟩
    | swap hc =>
      rw [callReturned_of_ne (by simp), callLeft_setCaller, callLeft, hc]
      exact ⟨rfl, by simp [Caller.stepsLeft]⟩
    | watched hc =>
      rw [hc] at hofStop
      exact hofStop.elim
    | join hc hw =>
      rw [callReturned_of_ne (by simp), callLeft_setCaller, callLeft, hc]
      exact ⟨rfl, by simp [Caller.stepsLeft]⟩
    | joined hc =>
      rw [callReturned_returned, callLeft_setCaller, callLeft, hc]
      exact ⟨rfl, by simp [Caller.stepsLeft]⟩
  obtain ⟨hphase, hcall⟩ := hleft
  have hworkers : t.callReturned.workersLeft next = s.workersLeft next := by
    have hsame : t.callReturned.phase = t.phase := by
      rw [callReturned]
      split_ifs <;> rfl
    rw [workersLeft, workersLeft, hsame, hphase]
  rw [hworkers]
  exact Nat.add_lt_add_left hcall _

/-- The host joins, or is going to join, a worker that the snapshot has missed. -/
structure Stranded (s : Process) (w : WorkerId) : Prop where
  sound : Sound s
  busy : s.callers 0 ≠ .idle
  missed : w ∉ (s.callers 0).uncalled
  joined : w ∈ s.toJoin
  notDone : s.shutdownDone w = false

theorem Stranded.not_past (h : Stranded s w) : ¬Past (s.phase w) := by
  intro hpast
  have hdone := h.sound.closed w (h.sound.past w hpast)
  rw [h.notDone] at hdone
  cases hdone

theorem Stranded.work (h : Stranded s w) {k : WorkerStep} {u : WorkerId}
    (hstep : s.step (k.action u) = some t) : Stranded t w := by
  have hw := worked_of_step hstep
  refine ⟨h.sound.step hstep, ?_, ?_, ?_, ?_⟩
  · rw [hw.callers]
    exact h.busy
  · rw [hw.callers]
    exact h.missed
  · rw [toJoin, hw.callers, hw.activeWorkers]
    exact h.joined
  · by_contra hdone
    rcases hw.done w (by simpa using hdone) with hdone | ⟨rfl, hpast, -⟩
    · rw [h.notDone] at hdone
      cases hdone
    · exact h.not_past hpast

theorem stranded_setCaller (hs : Sound (q.setCaller 0 pc)) (hpc : pc ≠ .idle)
    (hmissed : w ∉ pc.uncalled) (hjoined : w ∈ (q.setCaller 0 pc).toJoin)
    (hdone : q.shutdownDone w = false) : Stranded (q.setCaller 0 pc) w := by
  refine ⟨hs, ?_, ?_, hjoined, hdone⟩
  · rw [setCaller_self]
    exact hpc
  · rw [setCaller_self]
    exact hmissed

/-- As long as the caller has not come to its joins, the worker waits among all the others. -/
theorem stranded_of_active (hs : Sound (q.setCaller 0 pc)) (hpc : pc ≠ .idle)
    (hnot : ∀ rest, pc ≠ .joining rest) (hmissed : w ∉ pc.uncalled) (hactive : w ∈ q.activeWorkers)
    (hdone : q.shutdownDone w = false) : Stranded (q.setCaller 0 pc) w := by
  apply stranded_setCaller hs hpc hmissed _ hdone
  rw [toJoin_setCaller hnot]
  exact hactive

theorem Stranded.advance (h : Stranded s w) (hstep : s.advance 0 = some t) :
    Stranded t.callReturned w := by
  have hsound := h.sound.step (a := .advance 0) hstep
  have hactive (hc : ∀ rest, s.callers 0 ≠ .joining rest) : w ∈ s.activeWorkers := by
    rw [← toJoin_of_ne hc]
    exact h.joined
  have hmissed := h.missed
  have hjoined := h.joined
  cases steps_of_advance hstep with
  | callDestroyed hc hu =>
    rw [callReturned_of_ne (by simp)]
    rw [hc, Caller.uncalled, List.mem_cons, not_or] at hmissed
    exact stranded_of_active hsound (by simp) (by simp) hmissed.2 (hactive (by simp [hc])) h.notDone
  | callAgain hc hu =>
    rw [callReturned_of_ne (by simp)]
    rw [hc, Caller.uncalled, List.mem_cons, not_or] at hmissed
    exact stranded_of_active hsound (by simp) (by simp) hmissed.2 (hactive (by simp [hc])) h.notDone
  | call hc hu =>
    rw [callReturned_of_ne (by simp)]
    rw [hc, Caller.uncalled, List.mem_cons, not_or] at hmissed
    have hdone := (Function.update_of_ne hmissed.1 true s.shutdownDone).trans h.notDone
    exact stranded_of_active hsound (by simp) (by simp) hmissed.2 (hactive (by simp [hc])) hdone
  | close hc =>
    rw [callReturned_of_ne (by simp)]
    rw [hc, Caller.uncalled] at hmissed
    exact stranded_of_active hsound (by simp) (by simp) hmissed (hactive (by simp [hc])) h.notDone
  | swap hc =>
    rw [callReturned_of_ne (by simp)]
    apply stranded_setCaller hsound (by simp) List.not_mem_nil _ h.notDone
    rw [toJoin, setCaller_self]
    exact hactive (by simp [hc])
  | watched hc =>
    rw [callReturned_of_ne (by simp)]
    exact stranded_of_active hsound (by simp) (by simp) List.not_mem_nil (hactive (by simp [hc]))
      h.notDone
  | @join _ u rest hc hu =>
    rw [callReturned_of_ne (by simp)]
    rw [toJoin, hc] at hjoined
    apply stranded_setCaller hsound (by simp) List.not_mem_nil _ h.notDone
    rw [toJoin, setCaller_self]
    rcases List.mem_cons.mp hjoined with rfl | hjoined
    · exact absurd (.inr (.inr hu)) h.not_past
    · exact hjoined
  | joined hc =>
    rw [toJoin, hc] at hjoined
    exact absurd hjoined List.not_mem_nil

end Process

end MdtDialoutCollector.Bridge
