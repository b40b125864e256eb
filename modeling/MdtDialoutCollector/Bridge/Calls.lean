import MdtDialoutCollector.Bridge.Orderly
import MdtDialoutCollector.Bridge.Start

/-! The calls of `start_grpc_dialout_collector` and `stop_grpc_dialout_collector` that a host
makes one after another. What a start has registered with spdlog stays there, after a stop
and after a refused configuration too, so that every later start throws; a stop comes back
when the workers it joins have gone, and a worker whose queue is shut down is taken to leave
its loop, late starts aside. -/

namespace MdtDialoutCollector.Bridge

open Data External Runs Text Utils

/-- The host with the collector in it. Its own thread is caller 0 of every stop, and nobody
else calls `initiate_shutdown`. -/
structure HostProcess where
  globals : Globals := freshGlobals
  process : Process := {}
  starts : ℕ := 0
  nextWorker : ℕ := 0
  crashed : Bool := false

/-- The two calls, and what goes on until the next one. -/
inductive Event where
  | start (H : Host) (zmqUri : Bytes)
  | stop
  | advance
  | work (k : WorkerStep) (w : WorkerId)

namespace HostProcess

/-- A call that throws or exits takes the host with it: nothing catches below `extern "C"`. -/
def start (s : HostProcess) (H : Host) (zmqUri : Bytes) : Option HostProcess :=
  match startGrpcDialoutCollector H zmqUri s.globals with
  | .error _ => some { s with starts := s.starts + 1, crashed := true }
  | .ok r =>
    (Bridge.process.run (spawn s.nextWorker r.workers.length) s.process).map fun p =>
      { s with
        globals := r.globals
        process := p
        starts := s.starts + 1
        nextWorker := s.nextWorker + r.workers.length }

def setProcess (s : HostProcess) (p : Process) : HostProcess := { s with process := p }

def step (s : HostProcess) (e : Event) : Option HostProcess :=
  if s.crashed then none else
    match e with
    | .start H zmqUri => if s.process.callers 0 = .idle then s.start H zmqUri else none
    | .stop => (s.process.step (.initiateShutdown 0 .stop)).map s.setProcess
    | .advance => (s.process.advance 0).map fun p => s.setProcess p.callReturned
    | .work k w => (s.process.step (k.action w)).map s.setProcess

end HostProcess

def hosting : Machine HostProcess Event where
  start := {}
  step := HostProcess.step

/-- What happens without a new call of the host. -/
def Event.Background : Event → Prop
  | .advance | .work _ _ => True
  | .start _ _ | .stop => False

/-- No call has thrown, none has used a destroyed server, and the call under way, if there
is one, comes to its end. -/
def CallsReturn (s : HostProcess) : Prop :=
  s.crashed = false ∧ s.process.dangling = false ∧
    hosting.EndsIn Event.Background (fun t => t.process.callers 0 = .idle) s

/-- The one start of the process, on a host where a first start returns; and a stop that no
worker misses. -/
def OnceAndReady (s : HostProcess) : Event → Prop
  | .start H _ => s.starts = 0 ∧ StartSafe H
  | .stop => ∀ w, s.process.phase w ≠ some .building
  | .advance | .work _ _ => True

/-! ### What a start leaves in the registry of loggers -/

section Start

variable {H : Host} {zmqUri : Bytes} {g g' : Globals} {logger : Logger}

theorem registered_of_useLogger {R : Registry} {u : Unit} (h : useLogger R logger = .ok u) :
    R logger = true := by
  by_contra hn
  rw [useLogger, if_neg hn] at h
  cases h

theorem setSpdlogSinks_keeps {R R' : Registry} {logs : Params} {b : Bool} (hlog : R logger = true)
    (h : setSpdlogSinks H R logs = .ok (b, R')) : R' logger = true := by
  rw [setSpdlogSinks, bind_eq_ok] at h
  obtain ⟨-, -, h⟩ := h
  obtain ⟨opened, -, h⟩ := bind_eq_ok.mp h
  cases opened with
  | false =>
    cases h
    exact hlog
  | true =>
    obtain ⟨R₁, hR₁, h⟩ := bind_eq_ok.mp h
    cases h
    rw [registerLogger] at hR₁
    split_ifs at hR₁
    cases hR₁
    rw [Function.update_apply]
    split_ifs
    · rfl
    · exact hlog

theorem loadStages_keeps {rest : List Stage} {b : Bool} (hlog : g.registry logger = true)
    (h : loadStages H zmqUri rest g = .ok (b, g')) : g'.registry logger = true := by
  induction rest generalizing g with
  | nil =>
    cases h
    exact hlog
  | cons s rest ih =>
    obtain ⟨-, rfl⟩ | ⟨p, g₁, -, hg₁, h⟩ := loadStages_cons h
    · exact hlog
    · refine ih ?_ h
      cases s with
      | logs =>
        obtain ⟨⟨built, R⟩, hR, hg₁⟩ := bind_eq_ok.mp hg₁
        cases hg₁
        exact setSpdlogSinks_keeps hlog hR
      | main | dataManipulation | kafka | zmq =>
        cases hg₁
        exact hlog

theorem startWorkers_loaded {r : Started} (h : startWorkers H g = .ok r) :
    r.loaded = true ∧ r.globals = g := by
  obtain ⟨-, -, h⟩ := bind_eq_ok.mp h
  obtain ⟨sockets, -, h⟩ := bind_eq_ok.mp h
  split_ifs at h
  · cases h
    exact ⟨rfl, rfl⟩
  · obtain ⟨workers, -, h⟩ := bind_eq_ok.mp h
    cases h
    exact ⟨rfl, rfl⟩

/-- A start that comes back has registered the boot logger, and has spawned nothing where the
configuration was refused. -/
theorem start_leaves {r : Started} (h : startGrpcDialoutCollector H zmqUri g = .ok r) :
    r.globals.registry .multiLoggerBoot = true ∧ (r.loaded = false → r.workers = []) := by
  obtain ⟨⟨loaded, g₁⟩, hload, h⟩ := bind_eq_ok.mp h
  obtain ⟨R, -, hload⟩ := bind_eq_ok.mp hload
  obtain ⟨_, hboot, hload⟩ := bind_eq_ok.mp hload
  obtain ⟨-, -, hload⟩ := bind_eq_ok.mp hload
  have hkept := loadStages_keeps (g := { g with registry := R }) (registered_of_useLogger hboot) hload
  cases loaded with
  | false =>
    obtain ⟨-, -, h⟩ := bind_eq_ok.mp h
    cases h
    exact ⟨hkept, fun _ => rfl⟩
  | true =>
    obtain ⟨hloaded, hglobals⟩ := startWorkers_loaded h
    rw [hglobals, hloaded]
    exact ⟨hkept, fun hnot => by cases hnot⟩

/-- The constructor of the handler registers the boot logger a second time. -/
theorem start_again_throws (hboot : g.registry .multiLoggerBoot = true) :
    ¬Returns (startGrpcDialoutCollector H zmqUri g) := by
  rintro ⟨r, hr⟩
  obtain ⟨_, hload, -⟩ := bind_eq_ok.mp hr
  obtain ⟨R, hhandler, -⟩ := bind_eq_ok.mp hload
  obtain ⟨⟨built, R₁⟩, hbuilt, hhandler⟩ := bind_eq_ok.mp hhandler
  rw [setBootSpdlogSinks, registerLogger, if_pos hboot] at hbuilt
  split_ifs at hbuilt
  · cases hbuilt
  · cases hbuilt
    cases hhandler

theorem first_start_returns_iff (params : Stage → Params) :
    Returns (startGrpcDialoutCollector H zmqUri ⟨fun _ => false, params⟩) ↔ StartSafe H := by
  rw [← start_returns_iff H zmqUri params]
  constructor
  · rintro ⟨r, hr⟩
    exact ⟨r, hr, (start_leaves hr).2⟩
  · rintro ⟨r, hr, -⟩
    exact ⟨r, hr⟩

end Start

/-! ### The runs of a host -/

namespace HostProcess

/-- The process lives, and has loggers only from its one start. -/
structure Ready (s : HostProcess) : Prop where
  alive : s.crashed = false
  orderly : s.process.Orderly s.nextWorker
  unlogged : s.starts = 0 → s.globals.registry = fun _ => false
  logged : s.starts ≠ 0 → s.globals.registry .multiLoggerBoot = true

variable {s t : HostProcess} {e : Event}

/-- The start of a live process comes back where it is the first one, and safe. -/
theorem Ready.returns_iff (h : Ready s) {H : Host} {zmqUri : Bytes} :
    Returns (startGrpcDialoutCollector H zmqUri s.globals) ↔ s.starts = 0 ∧ StartSafe H := by
  by_cases hstarts : s.starts = 0
  · have hglobals : s.globals = ⟨fun _ => false, s.globals.params⟩ := by
      rw [← h.unlogged hstarts]
    rw [hglobals, first_start_returns_iff]
    exact (and_iff_right hstarts).symm
  · simp [start_again_throws (h.logged hstarts), hstarts]

theorem Ready.start (h : Ready s) {H : Host} {zmqUri : Bytes} (hidle : s.process.callers 0 = .idle)
    (honce : OnceAndReady s (.start H zmqUri)) (hstep : s.start H zmqUri = some t) : Ready t := by
  have hreturns : Returns (startGrpcDialoutCollector H zmqUri s.globals) := h.returns_iff.mpr honce
  obtain ⟨r, hr⟩ := hreturns
  obtain ⟨p, hrun, hp, -⟩ := h.orderly.spawn hidle r.workers.length
  simp only [HostProcess.start, hr, hrun, Option.map_some, Option.some.injEq] at hstep
  rw [← hstep]
  exact ⟨h.alive, hp, fun hzero => absurd hzero (Nat.succ_ne_zero _), fun _ => (start_leaves hr).1⟩

/-- In the background the caller goes on, or a worker. -/
theorem of_background (he : e.Background) (hstep : s.step e = some t) :
    (∃ p, s.process.advance 0 = some p ∧ t = s.setProcess p.callReturned) ∨
      ∃ k w p, s.process.step (WorkerStep.action k w) = some p ∧ t = s.setProcess p := by
  cases e with
  | start H zmqUri => exact he.elim
  | stop => exact he.elim
  | advance =>
    rw [HostProcess.step] at hstep
    split_ifs at hstep
    obtain ⟨p, hp, rfl⟩ := Option.map_eq_some_iff.mp hstep
    exact .inl ⟨p, hp, rfl⟩
  | work k w =>
    rw [HostProcess.step] at hstep
    split_ifs at hstep
    obtain ⟨p, hp, rfl⟩ := Option.map_eq_some_iff.mp hstep
    exact .inr ⟨k, w, p, hp, rfl⟩

theorem Ready.background (h : Ready s) (he : e.Background) (hstep : s.step e = some t) :
    Ready t ∧ t.process.workersLeft t.nextWorker + t.process.callLeft <
      s.process.workersLeft s.nextWorker + s.process.callLeft := by
  obtain ⟨p, hp, rfl⟩ | ⟨k, w, p, hp, rfl⟩ := of_background he hstep
  · exact ⟨⟨h.alive, h.orderly.advance hp, h.unlogged, h.logged⟩, h.orderly.advance_uses hp⟩
  · exact ⟨⟨h.alive, h.orderly.work hp, h.unlogged, h.logged⟩, h.orderly.work_uses hp⟩

theorem Ready.step (h : Ready s) (honce : OnceAndReady s e) (hstep : s.step e = some t) :
    Ready t := by
  cases e with
  | start H zmqUri =>
    rw [HostProcess.step, h.alive] at hstep
    obtain ⟨hidle, hstep⟩ := Option.ite_none_right_eq_some.mp hstep
    exact h.start hidle honce hstep
  | stop =>
    rw [HostProcess.step, h.alive] at hstep
    obtain ⟨p, hp, rfl⟩ := Option.map_eq_some_iff.mp hstep
    exact ⟨h.alive, h.orderly.stop honce hp, h.unlogged, h.logged⟩
  | advance => exact (h.background (e := .advance) trivial hstep).1
  | work k w => exact (h.background (e := .work k w) trivial hstep).1

end HostProcess

/-- A start that is refused at the interface, and one more with a file that is accepted. -/
def retry : List Event :=
  [.start (calmHost (.ofStrings [])) [], .start (calmHost ciscoOnly) []]

/-- The second start registers its first logger again. -/
theorem retry_throws :
    ¬∀ es s, hosting.run es hosting.start = some s →
      hosting.Throughout CallsReturn es hosting.start := by
  intro h
  have halive := (((h retry _ rfl).2 _ rfl).2 _ rfl).1
  cases halive

end MdtDialoutCollector.Bridge
