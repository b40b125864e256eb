import MdtDialoutCollector.Daemon.Signals

/-! The end of the daemon. `main` returns only when everything it has started has ended and
every server has been shut down and destroyed; and a shutdown that has begun comes to that end
by itself, unless its snapshot was taken while a worker was still building its server. Then
that worker is never shut down, and `main` never returns. -/

namespace MdtDialoutCollector.Daemon

open Bridge Labels Runs

namespace Threads

variable {c : LabelSettings} {m : LabelMap} {n : ℕ} {s t : Threads} {a : Action}

/-! ### A clean exit -/

/-- `main` creates its `n` workers before anything else. -/
def Counted (n : ℕ) (s : Threads) : Prop :=
  match s.main with
  | .loading left => s.created + left = n
  | _ => s.created = n

theorem Counted.step (h : Counted n s) (hstep : s.step c a = some t) : Counted n t := by
  obtain ⟨-, hsteps⟩ := steps_of_step hstep
  cases hsteps with
  | @create left p hmain hp =>
    rw [Counted, hmain] at h
    show s.created + 1 + left = n
    omega
  | watch hmain =>
    rw [Counted, hmain] at h
    exact h
  | join hmain hw =>
    rw [Counted, hmain] at h
    exact h
  | joined hmain =>
    rw [Counted, hmain] at h
    exact h
  | joinPoller hmain hp =>
    rw [Counted, hmain] at h
    exact h
  | joinWatcher hmain hw =>
    rw [Counted, hmain] at h
    exact h
  | deliver | interrupt | reload | exit | snapshot | advance | drained | close | work | poller =>
    exact h

theorem counted_of_reachable (h : (daemon c m n).Reachable s) : Counted n s :=
  (daemon c m n).reachable_invariant (show 0 + n = n by omega)
    (fun _ _ _ hs hstep => hs.step hstep) h

/-- What there is when `main` returns: all its threads have ended, after a signal that asked
for it, and no server is left or has been used after its end. -/
structure CleanExit (n : ℕ) (s : Threads) : Prop where
  asked : ∃ sig ∈ s.served, sig ≠ .usr1
  workers : ∀ w : ℕ, w < n → s.process.phase w = some .destroyed ∧ s.process.cqShutdown w = true
  servers : s.process.activeServers = [] ∧ s.process.dangling = false
  poller : s.ctxShutdown = true ∧ s.pollerReturned = true
  watcher : s.watcher = .returned

end Threads

theorem exit_is_clean {c : LabelSettings} {m : LabelMap} {n : ℕ} {s : Threads}
    (h : (daemon c m n).Reachable s) (hmain : s.main = .returned) : s.CleanExit n := by
  obtain ⟨hs, hlogged⟩ := Threads.logged_of_reachable h
  have hcount := Threads.counted_of_reachable h
  rw [Threads.Counted, hmain] at hcount
  have hjoined := hs.joined
  rw [Threads.Joined, hmain] at hjoined
  obtain ⟨hgone, hpoller, hwatcher⟩ := hjoined
  have hctx := hs.poller hpoller
  have hcall := (hs.ctx.mp hctx).2
  refine ⟨?_, fun w hw => ?_, ⟨?_, hs.watched.exclusive.live⟩, ⟨hctx, hpoller⟩, hwatcher⟩
  · exact hlogged.signalsInOrder.shutdown.mpr (by simp [hcall])
  · have hphase := hgone w (hcount ▸ hw)
    exact ⟨hphase, hs.watched.sound.past w (.inr (.inr hphase))⟩
  · by_contra hne
    obtain ⟨w, hw⟩ := List.exists_mem_of_ne_nil _ hne
    have hlisted := (hs.watched.sound.listed w).mp hw
    rw [hgone w ((hs.watched.created w).mp (Process.listed_ne_none hlisted))] at hlisted
    simp [Process.Listed] at hlisted

/-- One worker, which is in its loop when `SIGTERM` comes. -/
def stopOne : List Action :=
  [.create, .watch, .work .register 0, .work .enter 0, .deliver .term, .take none none, .advance,
    .advance, .work .leave 0, .advance, .work .unregister 0, .advance, .work .destroy 0, .join,
    .join, .advance, .poller, .join, .join]

theorem exit_is_clean_stopOne :
    ∃ s, (daemon noLabels .empty 1).run stopOne (daemon noLabels .empty 1).start = some s ∧
      s.main = .returned ∧ s.CleanExit 1 :=
  ⟨_, rfl, rfl, exit_is_clean (c := noLabels) (m := .empty) ⟨stopOne, rfl⟩ rfl⟩

/-! ### A shutdown comes to its end -/

/-- What goes on without a new signal once the watcher has started. -/
def Action.Background : Action → Prop
  | .advance | .work _ _ | .poller | .join => True
  | .create | .watch | .deliver _ | .interrupt _ | .take _ _ => False

def Watcher.stepsLeft : Watcher → ℕ
  | .draining => 2
  | .closing => 1
  | .notStarted | .reading | .returned => 0

def MainThread.stepsLeft : MainThread → ℕ
  | .joining rest => rest.length + 3
  | .joiningPoller => 2
  | .joiningWatcher => 1
  | .loading _ | .returned => 0

namespace Threads

variable {c : LabelSettings} {m : LabelMap} {n : ℕ} {s t : Threads} {a : Action}

def stepsLeft (s : Threads) : ℕ :=
  s.process.workersLeft s.created + s.process.callLeft + s.watcher.stepsLeft + s.main.stepsLeft +
    (!s.pollerReturned).toNat

/-- The shutdown is under way or over, and has missed no worker. -/
structure Stopping (s : Threads) : Prop where
  steady : Steady s
  covered : s.process.Covered
  busy : s.process.callers 0 ≠ .idle

/-- Every step of a shutdown uses up some of what is left to do. -/
theorem Stopping.background (h : Stopping s) (ha : a.Background) (hstep : s.step c a = some t) :
    Stopping t ∧ t.stepsLeft < s.stepsLeft := by
  have hsteady := h.steady.step hstep
  obtain ⟨-, hsteps⟩ := steps_of_step hstep
  cases hsteps with
  | create | watch | deliver | interrupt | reload | exit | snapshot => exact ha.elim
  | @advance p hw hp =>
    obtain ⟨-, hphase, -, hbusy, hless⟩ := h.steady.watched.advance hp
    have hcovered := h.covered.step (a := .advance 0) h.steady.watched.sound trivial trivial hp
    refine ⟨⟨hsteady, hcovered, hbusy⟩, ?_⟩
    have hworkers : p.workersLeft s.created = s.process.workersLeft s.created := by
      rw [Process.workersLeft, Process.workersLeft, hphase]
    simp only [stepsLeft, hworkers]
    omega
  | drained hw hc =>
    refine ⟨⟨hsteady, h.covered, h.busy⟩, ?_⟩
    simp only [stepsLeft, hw, Watcher.stepsLeft]
    omega
  | close hw =>
    refine ⟨⟨hsteady, h.covered, h.busy⟩, ?_⟩
    simp only [stepsLeft, hw, Watcher.stepsLeft]
    omega
  | @work k w p hp =>
    have hcovered := h.covered.step h.steady.watched.sound (by cases k <;> trivial)
      (by cases k <;> trivial) hp
    have hcallers := (worked_of_step hp).callers
    refine ⟨⟨hsteady, hcovered, show p.callers 0 ≠ .idle by rw [hcallers]; exact h.busy⟩, ?_⟩
    obtain ⟨hless, hcall⟩ := h.steady.watched.work_uses hp
    simp only [stepsLeft, hcall]
    omega
  | poller hctx hnot =>
    refine ⟨⟨hsteady, h.covered, h.busy⟩, ?_⟩
    simp only [stepsLeft, hnot, Bool.not_false, Bool.toNat_true, Bool.not_true, Bool.toNat_false]
    omega
  | join hmain hw =>
    refine ⟨⟨hsteady, h.covered, h.busy⟩, ?_⟩
    simp only [stepsLeft, hmain, MainThread.stepsLeft, List.length_cons]
    omega
  | joined hmain =>
    refine ⟨⟨hsteady, h.covered, h.busy⟩, ?_⟩
    simp only [stepsLeft, hmain, MainThread.stepsLeft, List.length_nil]
    omega
  | joinPoller hmain hp =>
    refine ⟨⟨hsteady, h.covered, h.busy⟩, ?_⟩
    simp only [stepsLeft, hmain, MainThread.stepsLeft]
    omega
  | joinWatcher hmain hw =>
    refine ⟨⟨hsteady, h.covered, h.busy⟩, ?_⟩
    simp only [stepsLeft, hmain, MainThread.stepsLeft]
    omega

/-- `main` waits for a worker that nobody will shut down. -/
structure Held (w : WorkerId) (s : Threads) : Prop where
  steady : Steady s
  missed : s.process.Missed w
  live : s.exited = false

/-- No worker is created and no second snapshot taken while the call of the watcher is busy. -/
theorem Held.not_reading {w : WorkerId} (h : Held w s) :
    s.watcher ≠ .reading ∧ s.watcher ≠ .notStarted := by
  have hfits := h.steady.fits
  constructor
  · intro hw
    rw [hw] at hfits
    exact h.missed.busy hfits
  · intro hw
    rw [hw] at hfits
    exact h.missed.busy hfits

theorem Held.step {w : WorkerId} (h : Held w s) (hstep : s.step c a = some t) : Held w t := by
  have hsteady := h.steady.step hstep
  obtain ⟨hreading, hstarted⟩ := h.not_reading
  obtain ⟨-, hsteps⟩ := steps_of_step hstep
  cases hsteps with
  | create hmain => exact absurd hmain (h.steady.not_loading hstarted _)
  | watch hmain => exact absurd hmain (h.steady.not_loading hstarted _)
  | interrupt hw => exact absurd hw hreading
  | reload hw => exact absurd hw hreading
  | exit hw => exact absurd hw hreading
  | snapshot hw => exact absurd hw hreading
  | advance hw hp => exact ⟨hsteady, h.missed.advance h.steady.watched hp, h.live⟩
  | work hp => exact ⟨hsteady, h.missed.work h.steady.watched.sound hp, h.live⟩
  | deliver | drained | close | poller | join | joined | joinPoller | joinWatcher =>
    exact ⟨hsteady, h.missed, h.live⟩

theorem Held.run {w : WorkerId} (h : Held w s) {as : List Action}
    (hrun : (daemon c m n).run as s = some t) : Held w t :=
  (daemon c m n).run_preserves (C := fun _ _ => True) (I := Held w)
    (fun _ _ _ hs _ hstep => hs.step hstep) h ((daemon c m n).meets_of_forall (fun _ _ _ => trivial) _)
    hrun

end Threads

end MdtDialoutCollector.Daemon
