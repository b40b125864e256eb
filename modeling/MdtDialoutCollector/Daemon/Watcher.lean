import MdtDialoutCollector.Bridge.Orderly

/-! The workers of the daemon and the one caller of `initiate_shutdown` that it has, its
signal watcher. Nothing is shut down before the watcher takes its snapshot; from then on
each of its steps uses up some of what it has left, and it comes back whatever the workers
do. A worker that the snapshot has missed is never shut down. -/

namespace MdtDialoutCollector.Bridge

open Runs

/-- The caller is the watcher, before its call, in it or after it. -/
def Caller.OfWatcher : Caller → Prop
  | .idle | .draining .watcher _ | .closing .watcher _ _ | .returned .watcher => True
  | _ => False

namespace Process

/-- The process of the daemon, with the workers below `n` created. -/
structure Watched (p : Process) (n : ℕ) : Prop where
  sound : Sound p
  exclusive : Exclusive p
  alone : ∀ c, c ≠ 0 → p.callers c = .idle
  ofWatcher : (p.callers 0).OfWatcher
  created : ∀ w : ℕ, p.phase w ≠ none ↔ w < n
  shut : ∀ w, p.shutdownDone w = true → p.phase w ≠ none ∧
    (p.cqShutdown w = true ∨ ∃ rest, p.callers 0 = .closing .watcher w rest)
  quiet : p.callers 0 = .idle → ∀ w, p.shutdownDone w = false

theorem watched_start : Watched {} 0 where
  sound := sound_start
  exclusive := exclusive_start
  alone _ _ := rfl
  ofWatcher := trivial
  created w := by simp
  shut _ hw := by cases hw
  quiet _ _ := rfl

variable {p q : Process} {n : ℕ} {w : WorkerId} {pc : Caller}

/-- Before the watcher's call no worker has come past `RunFsm`. -/
theorem Watched.not_past (h : Watched p n) (hidle : p.callers 0 = .idle) (w : WorkerId) :
    ¬Past (p.phase w) := by
  intro hpast
  have hdone := h.sound.closed w (h.sound.past w hpast)
  rw [h.quiet hidle w] at hdone
  cases hdone

theorem Watched.idle (h : Watched p n) (hidle : p.callers 0 = .idle) (c : CallerId) :
    p.callers c = .idle := by
  by_cases hc : c = 0
  · rw [hc, hidle]
  · exact h.alone c hc

/-! ### The steps -/

/-- `LoadThreads` makes one more worker. -/
theorem Watched.create (h : Watched p n) :
    ∃ q, p.step (.create n) = some q ∧ Watched q (n + 1) ∧ q.callers = p.callers := by
  have hnone : p.phase n = none := by
    by_contra hsome
    exact absurd ((h.created n).mp hsome) (Nat.lt_irrefl n)
  have hstep : p.step (.create n) = some (p.setPhase n .building) := by rw [step, if_pos hnone]
  have hfree : Unclaimed p (.create n) := trivial
  refine ⟨_, hstep, ⟨h.sound.step hstep, h.exclusive.step h.sound hfree hstep, h.alone,
    h.ofWatcher, fun w => ?_, fun w hw => ?_, h.quiet⟩, rfl⟩
  · by_cases hw : w = n
    · subst hw
      simp
    · rw [setPhase_of_ne p hw, h.created w]
      omega
  · exact ⟨setPhase_ne_none (h.shut w hw).1, (h.shut w hw).2⟩

theorem Watched.work (h : Watched p n) {k : WorkerStep} (hstep : p.step (k.action w) = some q) :
    Watched q n := by
  have hw := worked_of_step hstep
  refine ⟨h.sound.step hstep, h.exclusive.step h.sound (by cases k <;> trivial) hstep, ?_, ?_,
    fun u => hw.phase_ne_none_iff.trans (h.created u), fun u hu => ?_, fun hidle u => ?_⟩
  · rw [hw.callers]
    exact h.alone
  · rw [hw.callers]
    exact h.ofWatcher
  · rw [hw.callers]
    rcases hw.done u hu with hu | ⟨rfl, -, hdestroyed, hcq⟩
    · exact ⟨hw.phase_ne_none_iff.mpr (h.shut u hu).1, (h.shut u hu).2.imp_left (hw.cq u)⟩
    · exact ⟨by simp [hdestroyed], .inl hcq⟩
  · rw [hw.callers] at hidle
    by_contra hdone
    rcases hw.done u (by simpa using hdone) with hdone | ⟨rfl, hpast, -⟩
    · rw [h.quiet hidle u] at hdone
      cases hdone
    · exact h.not_past hidle u hpast

theorem alone_setCaller (h : ∀ c, c ≠ 0 → p.callers c = .idle) (pc : Caller) (c : CallerId)
    (hc : c ≠ 0) : (p.setCaller 0 pc).callers c = .idle := by
  rw [setCaller_of_ne p hc]
  exact h c hc

theorem Watched.snapshot (h : Watched p n) (hidle : p.callers 0 = .idle) :
    p.step (.initiateShutdown 0 .watcher) =
        some (p.setCaller 0 (.draining .watcher p.activeServers)) ∧
      Watched (p.setCaller 0 (.draining .watcher p.activeServers)) n := by
  have hstep : p.step (.initiateShutdown 0 .watcher) =
      some (p.setCaller 0 (.draining .watcher p.activeServers)) := by
    rw [step, if_pos hidle]
  have hfree : Unclaimed p (.initiateShutdown 0 .watcher) := by
    intro w _
    refine ⟨h.quiet hidle w, fun c => ?_⟩
    rw [h.idle hidle c]
    exact List.not_mem_nil
  refine ⟨hstep, h.sound.step hstep, h.exclusive.step h.sound hfree hstep,
    alone_setCaller h.alone _, ?_, h.created, fun w hw => ?_, fun hbusy => ?_⟩
  · rw [setCaller_self]
    trivial
  · have hdone : p.shutdownDone w = true := hw
    rw [h.quiet hidle w] at hdone
    cases hdone
  · rw [setCaller_self] at hbusy
    cases hbusy

/-- The head of the snapshot is in the registry, and nobody has shut it down. -/
theorem Watched.head (h : Watched p n) {entry : Entry} {rest : List WorkerId}
    (hc : p.callers 0 = .draining entry (w :: rest)) :
    p.shutdownDone w = false ∧ Listed (p.phase w) :=
  h.exclusive.fresh 0 w (by rw [hc]; exact List.mem_cons_self)

theorem Watched.not_closing (h : Watched p n) (hw : p.shutdownDone w = true)
    (hc : ∀ rest, p.callers 0 ≠ .closing .watcher w rest) :
    p.phase w ≠ none ∧ p.cqShutdown w = true := by
  obtain ⟨hphase, hcq | ⟨rest, hclosing⟩⟩ := h.shut w hw
  · exact ⟨hphase, hcq⟩
  · exact absurd hclosing (hc rest)

/-- A step of the watcher in its call leaves the workers as they are, and it has less to do. -/
theorem Watched.advance (h : Watched p n) (hstep : p.advance 0 = some q) :
    Watched q n ∧ q.phase = p.phase ∧ q.activeWorkers = p.activeWorkers ∧ q.callers 0 ≠ .idle ∧
      q.callLeft < p.callLeft := by
  have hsound := h.sound.step (a := .advance 0) hstep
  have hexclusive := h.exclusive.step (a := .advance 0) h.sound trivial hstep
  have hofWatcher := h.ofWatcher
  cases steps_of_advance hstep with
  | callDestroyed hc hw =>
    have hlisted := (h.head hc).2
    simp [hw, Listed] at hlisted
  | callAgain hc hdone =>
    rw [(h.head hc).1] at hdone
    cases hdone
  | @call _ entry w rest hc hdone =>
    rw [hc] at hofWatcher
    have hnone : p.phase w ≠ none := listed_ne_none (h.head hc).2
    cases entry with
    | stop => exact hofWatcher.elim
    | watcher =>
      refine ⟨⟨hsound, hexclusive, alone_setCaller h.alone _, ?_, h.created, fun u hu => ?_,
        fun hidle => ?_⟩, rfl, rfl, ?_, ?_⟩
      · rw [setCaller_self]
        trivial
      · rw [setCaller_self]
        rcases shutdownDone_markDone.mp hu with rfl | hu
        · exact ⟨hnone, .inr ⟨rest, rfl⟩⟩
        · exact (h.not_closing hu (by simp [hc])).imp_right .inl
      · rw [setCaller_self] at hidle
        cases hidle
      · rw [setCaller_self]
        simp
      · rw [callLeft_setCaller, callLeft, hc, Caller.stepsLeft, Caller.stepsLeft, List.length_cons]
        exact show 2 * _ + p.activeWorkers.length + 3 < _ by omega
  | @close _ entry w rest hc =>
    rw [hc] at hofWatcher
    cases entry with
    | stop => exact hofWatcher.elim
    | watcher =>
      refine ⟨⟨hsound, hexclusive, alone_setCaller h.alone _, ?_, h.created, fun u hu => ?_,
        fun hidle => ?_⟩, rfl, rfl, ?_, ?_⟩
      · rw [setCaller_self]
        trivial
      · obtain ⟨hphase, hcq⟩ := h.shut u hu
        refine ⟨hphase, .inl (cqShutdown_shutQueue.mpr ?_)⟩
        rcases hcq with hcq | ⟨rest', hclosing⟩
        · exact .inr hcq
        · rw [hc] at hclosing
          cases hclosing
          exact .inl rfl
      · rw [setCaller_self] at hidle
        cases hidle
      · rw [setCaller_self]
        simp
      · rw [callLeft_setCaller, callLeft, hc]
        exact Nat.lt_succ_self _
  | swap hc =>
    rw [hc] at hofWatcher
    exact hofWatcher.elim
  | watched hc =>
    refine ⟨⟨hsound, hexclusive, alone_setCaller h.alone _, ?_, h.created, fun u hu => ?_,
      fun hidle => ?_⟩, rfl, rfl, ?_, ?_⟩
    · rw [setCaller_self]
      trivial
    · exact (h.not_closing hu (by simp [hc])).imp_right .inl
    · rw [setCaller_self] at hidle
      cases hidle
    · rw [setCaller_self]
      simp
    · rw [callLeft_setCaller, callLeft, hc]
      simp [Caller.stepsLeft]
  | join hc hw =>
    rw [hc] at hofWatcher
    exact hofWatcher.elim
  | joined hc =>
    rw [hc] at hofWatcher
    exact hofWatcher.elim

theorem Watched.work_uses (h : Watched p n) {k : WorkerStep}
    (hstep : p.step (k.action w) = some q) :
    q.workersLeft n < p.workersLeft n ∧ q.callLeft = p.callLeft := by
  have hw := worked_of_step hstep
  obtain ⟨phase, phase', hp, hphase, hlt⟩ := hw.phase
  refine ⟨?_, by rw [callLeft, callLeft, hw.callers, hw.activeWorkers]⟩
  apply Finset.sum_lt_sum
  · intro u _
    rw [hphase, Function.update_apply]
    split_ifs with hu
    · simpa [hu, hp] using hlt.le
    · exact le_rfl
  · refine ⟨w, Finset.mem_range.mpr ((h.created w).mp (by simp [hp])), ?_⟩
    simpa [hphase, hp] using hlt

/-! ### A worker that the snapshot has missed -/

structure Missed (p : Process) (w : WorkerId) : Prop where
  made : p.phase w ≠ none
  notDone : p.shutdownDone w = false
  busy : p.callers 0 ≠ .idle
  out : w ∉ (p.callers 0).uncalled

theorem Missed.work (h : Missed p w) (hs : Sound p) {k : WorkerStep} {u : WorkerId}
    (hstep : p.step (k.action u) = some q) : Missed q w := by
  have hw := worked_of_step hstep
  refine ⟨hw.phase_ne_none_iff.mpr h.made, ?_, ?_, ?_⟩
  · by_contra hdone
    rcases hw.done w (by simpa using hdone) with hdone | ⟨rfl, hpast, -⟩
    · rw [h.notDone] at hdone
      cases hdone
    · have hdone := hs.closed w (hs.past w hpast)
      rw [h.notDone] at hdone
      cases hdone
  · rw [hw.callers]
    exact h.busy
  · rw [hw.callers]
    exact h.out

theorem Missed.advance (h : Missed p w) (hp : Watched p n) (hstep : p.advance 0 = some q) :
    Missed q w := by
  obtain ⟨-, hphase, -, hbusy, -⟩ := hp.advance hstep
  have hofWatcher := hp.ofWatcher
  have hout := h.out
  refine ⟨hphase ▸ h.made, ?_, hbusy, ?_⟩
  · cases steps_of_advance hstep with
    | @call _ entry u rest hc hdone =>
      rw [hc, Caller.uncalled, List.mem_cons, not_or] at hout
      exact (Function.update_of_ne hout.1 true p.shutdownDone).trans h.notDone
    | callDestroyed | callAgain | close | swap | watched | join | joined => exact h.notDone
  · cases steps_of_advance hstep with
    | callDestroyed hc hw =>
      rw [hc, Caller.uncalled, List.mem_cons, not_or] at hout
      rw [setCaller_self]
      exact hout.2
    | callAgain hc hdone =>
      rw [hc, Caller.uncalled, List.mem_cons, not_or] at hout
      rw [setCaller_self]
      exact hout.2
    | call hc hdone =>
      rw [hc, Caller.uncalled, List.mem_cons, not_or] at hout
      rw [setCaller_self]
      exact hout.2
    | close hc =>
      rw [hc, Caller.uncalled] at hout
      rw [setCaller_self]
      exact hout
    | swap hc | watched hc | join hc | joined hc =>
      rw [setCaller_self]
      exact List.not_mem_nil

/-- A worker that is still building its server is in no snapshot. -/
theorem Watched.missed (h : Watched p n) (hidle : p.callers 0 = .idle)
    (hw : p.phase w = some .building) :
    Missed (p.setCaller 0 (.draining .watcher p.activeServers)) w := by
  refine ⟨by simp [setCaller, hw], h.quiet hidle w, ?_, ?_⟩
  · rw [setCaller_self]
    simp
  · rw [setCaller_self]
    exact h.sound.not_active (by simp [hw, Listed])

end Process

end MdtDialoutCollector.Bridge
