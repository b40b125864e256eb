import MdtDialoutCollector.Core.EnvelopeLabel
import MdtDialoutCollector.Daemon.Watcher

/-! `main` of the daemon from the moment its signal handlers are installed. A handler writes
its signal to a pipe; the watcher reads the pipe, reloads the label map or shuts everything
down; `main` creates the workers and the watcher, and joins all its threads. The ZMQ poller
ends once the context has been shut down. -/

namespace MdtDialoutCollector.Daemon

open MdtDialoutCollector.Core Bridge Labels Runs Text

/-- The signals that have a handler. -/
inductive Signal where
  | term | int | usr1
  deriving DecidableEq

/-- Where the watcher thread is: in its loop, in `initiate_shutdown`, before the shutdown of
the ZMQ context. -/
inductive Watcher where
  | notStarted | reading | draining | closing | returned
  deriving DecidableEq

/-- `left` workers are still to be created; `rest` are still to be joined. -/
inductive MainThread where
  | loading (left : ℕ)
  | joining (rest : List WorkerId)
  | joiningPoller
  | joiningWatcher
  | returned
  deriving DecidableEq

/-- `exited` says that a reload has ended the process. `delivered`, `served` and `reloaded`
record the signals delivered, those the watcher has acted on and the files it has loaded. -/
structure Threads where
  main : MainThread
  labelMap : LabelMap
  process : Process := {}
  created : ℕ := 0
  watcher : Watcher := .notStarted
  pipe : List Signal := []
  ctxShutdown : Bool := false
  pollerReturned : Bool := false
  exited : Bool := false
  delivered : List Signal := []
  served : List Signal := []
  reloaded : List (Option Bytes × Option Bytes) := []

/-- `deliver` runs the handler on any thread; `interrupt` runs it on the watcher's own while
that is blocked in `read`, which fails then. The files are those a reload would find. -/
inductive Action where
  | create
  | watch
  | deliver (sig : Signal)
  | interrupt (sig : Signal)
  | take (csv ptm : Option Bytes)
  | advance
  | work (k : WorkerStep) (w : WorkerId)
  | poller
  | join

namespace Threads

/-- `signal_pipe_handler`. -/
def handler (s : Threads) (sig : Signal) : Threads :=
  { s with pipe := s.pipe ++ [sig], delivered := s.delivered ++ [sig] }

def serve (s : Threads) (sig : Signal) (rest : List Signal) : Threads :=
  { s with pipe := rest, served := s.served ++ [sig] }

/-- `ReloadLabelMaps`, which ends the process where it does not come back. -/
def reload (c : LabelSettings) (s : Threads) (csv ptm : Option Bytes) : Threads :=
  match reloadLabelMaps c csv ptm s.labelMap with
  | .running m => { s with labelMap := m, reloaded := s.reloaded ++ [(csv, ptm)] }
  | _ => { s with exited := true }

/-- The next `join` of `main`, where the thread has ended. -/
def join (s : Threads) : Option Threads :=
  match s.main with
  | .loading _ | .returned => none
  | .joining (w :: rest) =>
    if s.process.phase w = some .destroyed then some { s with main := .joining rest } else none
  | .joining [] => some { s with main := .joiningPoller }
  | .joiningPoller =>
    if s.pollerReturned = true then some { s with main := .joiningWatcher } else none
  | .joiningWatcher => if s.watcher = .returned then some { s with main := .returned } else none

def step (c : LabelSettings) (s : Threads) (a : Action) : Option Threads :=
  if s.exited = true ∨ s.main = .returned then none else
  match a with
  | .create =>
    match s.main with
    | .loading (n + 1) => (s.process.step (.create s.created)).map fun p =>
        { s with main := .loading n, process := p, created := s.created + 1 }
    | _ => none
  | .watch =>
    match s.main with
    | .loading 0 => some { s with main := .joining (List.range s.created), watcher := .reading }
    | _ => none
  | .deliver sig => some (s.handler sig)
  | .interrupt sig =>
    if s.watcher = .reading ∧ s.pipe = [] then some { s.handler sig with watcher := .returned }
    else none
  | .take csv ptm =>
    match s.watcher, s.pipe with
    | .reading, .usr1 :: rest => some ((s.serve .usr1 rest).reload c csv ptm)
    | .reading, sig :: rest => (s.process.step (.initiateShutdown 0 .watcher)).map fun p =>
        { s.serve sig rest with process := p, watcher := .draining }
    | _, _ => none
  | .advance =>
    match s.watcher with
    | .draining =>
      if s.process.callers 0 = .returned .watcher then some { s with watcher := .closing }
      else (s.process.advance 0).map fun p => { s with process := p }
    | .closing => some { s with ctxShutdown := true, watcher := .returned }
    | _ => none
  | .work k w => (s.process.step (k.action w)).map fun p => { s with process := p }
  | .poller =>
    if s.ctxShutdown = true ∧ s.pollerReturned = false then some { s with pollerReturned := true }
    else none
  | .join => s.join

end Threads

/-- The daemon with `n` workers to create, and the map that it has loaded. -/
def daemon (c : LabelSettings) (m : LabelMap) (n : ℕ) : Machine Threads Action where
  start := { main := .loading n, labelMap := m }
  step := Threads.step c

/-! ### What a step can do -/

namespace Threads

variable {c : LabelSettings} {s t : Threads} {a : Action}

inductive Steps (c : LabelSettings) (s : Threads) : Action → Threads → Prop where
  | create {n p} (hmain : s.main = .loading (n + 1))
      (hp : s.process.step (.create s.created) = some p) :
      Steps c s .create { s with main := .loading n, process := p, created := s.created + 1 }
  | watch (hmain : s.main = .loading 0) :
      Steps c s .watch { s with main := .joining (List.range s.created), watcher := .reading }
  | deliver {sig} : Steps c s (.deliver sig) (s.handler sig)
  | interrupt {sig} (hw : s.watcher = .reading) (hpipe : s.pipe = []) :
      Steps c s (.interrupt sig) { s.handler sig with watcher := .returned }
  | reload {csv ptm rest m} (hw : s.watcher = .reading) (hpipe : s.pipe = .usr1 :: rest)
      (hm : reloadLabelMaps c csv ptm s.labelMap = .running m) : Steps c s (.take csv ptm)
      { s.serve .usr1 rest with labelMap := m, reloaded := s.reloaded ++ [(csv, ptm)] }
  | exit {csv ptm rest} (hw : s.watcher = .reading) (hpipe : s.pipe = .usr1 :: rest) :
      Steps c s (.take csv ptm) { s.serve .usr1 rest with exited := true }
  | snapshot {csv ptm sig rest p} (hw : s.watcher = .reading) (hpipe : s.pipe = sig :: rest)
      (hsig : sig ≠ .usr1) (hp : s.process.step (.initiateShutdown 0 .watcher) = some p) :
      Steps c s (.take csv ptm) { s.serve sig rest with process := p, watcher := .draining }
  | advance {p} (hw : s.watcher = .draining) (hp : s.process.advance 0 = some p) :
      Steps c s .advance { s with process := p }
  | drained (hw : s.watcher = .draining) (hc : s.process.callers 0 = .returned .watcher) :
      Steps c s .advance { s with watcher := .closing }
  | close (hw : s.watcher = .closing) :
      Steps c s .advance { s with ctxShutdown := true, watcher := .returned }
  | work {k w p} (hp : s.process.step (WorkerStep.action k w) = some p) :
      Steps c s (.work k w) { s with process := p }
  | poller (hctx : s.ctxShutdown = true) (hnot : s.pollerReturned = false) :
      Steps c s .poller { s with pollerReturned := true }
  | join {w rest} (hmain : s.main = .joining (w :: rest))
      (hw : s.process.phase w = some .destroyed) : Steps c s .join { s with main := .joining rest }
  | joined (hmain : s.main = .joining []) : Steps c s .join { s with main := .joiningPoller }
  | joinPoller (hmain : s.main = .joiningPoller) (hp : s.pollerReturned = true) :
      Steps c s .join { s with main := .joiningWatcher }
  | joinWatcher (hmain : s.main = .joiningWatcher) (hw : s.watcher = .returned) :
      Steps c s .join { s with main := .returned }

theorem steps_of_join (h : s.join = some t) : Steps c s .join t := by
  rw [Threads.join] at h
  split at h
  · cases h
  · cases h
  · rename_i w rest hmain
    obtain ⟨hw, h⟩ := Option.ite_none_right_eq_some.mp h
    cases h
    exact .join hmain hw
  · rename_i hmain
    cases h
    exact .joined hmain
  · rename_i hmain
    obtain ⟨hp, h⟩ := Option.ite_none_right_eq_some.mp h
    cases h
    exact .joinPoller hmain hp
  · rename_i hmain
    obtain ⟨hw, h⟩ := Option.ite_none_right_eq_some.mp h
    cases h
    exact .joinWatcher hmain hw

theorem steps_of_take {csv ptm : Option Bytes} (hlive : ¬(s.exited = true ∨ s.main = .returned))
    (h : s.step c (.take csv ptm) = some t) : Steps c s (.take csv ptm) t := by
  rw [step, if_neg hlive] at h
  dsimp only at h
  split at h
  · rename_i rest hw hpipe
    rw [Option.some.injEq, Threads.reload] at h
    split at h
    · rename_i m hm
      rw [← h]
      exact .reload hw hpipe hm
    · rw [← h]
      exact .exit hw hpipe
  · rename_i sig rest hsig hw hpipe
    obtain ⟨p, hp, rfl⟩ := Option.map_eq_some_iff.mp h
    exact .snapshot hw hpipe (fun heq => hsig heq) hp
  · cases h

theorem steps_of_step (h : s.step c a = some t) :
    (s.exited = false ∧ s.main ≠ .returned) ∧ Steps c s a t := by
  have hlive : ¬(s.exited = true ∨ s.main = .returned) := by
    intro hend
    rw [step.eq_def, if_pos hend] at h
    cases h
  refine ⟨by simpa using hlive, ?_⟩
  cases a with
  | take csv ptm => exact steps_of_take hlive h
  | join =>
    rw [step, if_neg hlive] at h
    exact steps_of_join h
  | create =>
    rw [step, if_neg hlive] at h
    split at h
    · rename_i n hmain
      obtain ⟨p, hp, rfl⟩ := Option.map_eq_some_iff.mp h
      exact .create hmain hp
    · cases h
  | watch =>
    rw [step, if_neg hlive] at h
    split at h
    · rename_i hmain
      cases h
      exact .watch hmain
    · cases h
  | deliver sig =>
    rw [step, if_neg hlive] at h
    cases h
    exact .deliver
  | interrupt sig =>
    rw [step, if_neg hlive] at h
    obtain ⟨⟨hw, hpipe⟩, h⟩ := Option.ite_none_right_eq_some.mp h
    cases h
    exact .interrupt hw hpipe
  | advance =>
    rw [step, if_neg hlive] at h
    split at h
    · rename_i hw
      split_ifs at h with hc
      · cases h
        exact .drained hw hc
      · obtain ⟨p, hp, rfl⟩ := Option.map_eq_some_iff.mp h
        exact .advance hw hp
    · rename_i hw
      cases h
      exact .close hw
    · cases h
  | work k w =>
    rw [step, if_neg hlive] at h
    obtain ⟨p, hp, rfl⟩ := Option.map_eq_some_iff.mp h
    exact .work hp
  | poller =>
    rw [step, if_neg hlive] at h
    obtain ⟨⟨hctx, hnot⟩, h⟩ := Option.ite_none_right_eq_some.mp h
    cases h
    exact .poller hctx hnot

/-! ### The threads fit together -/

/-- Where the call of `initiate_shutdown` is. -/
def Fits : Watcher → Caller → Prop
  | .notStarted, call | .reading, call => call = .idle
  | .draining, call => call ≠ .idle
  | .closing, call => call = .returned .watcher
  | .returned, call => call = .idle ∨ call = .returned .watcher

/-- All the workers have gone. -/
def AllGone (s : Threads) : Prop := ∀ w : ℕ, w < s.created → s.process.phase w = some .destroyed

/-- What `main` has joined has ended. -/
def Joined (s : Threads) : Prop :=
  match s.main with
  | .loading _ => True
  | .joining rest => (∀ w ∈ rest, w < s.created) ∧
      ∀ w : ℕ, w < s.created → s.process.phase w = some .destroyed ∨ w ∈ rest
  | .joiningPoller => s.AllGone
  | .joiningWatcher => s.AllGone ∧ s.pollerReturned = true
  | .returned => s.AllGone ∧ s.pollerReturned = true ∧ s.watcher = .returned

structure Steady (s : Threads) : Prop where
  watched : s.process.Watched s.created
  fits : Fits s.watcher (s.process.callers 0)
  loading : s.watcher = .notStarted ↔ ∃ n, s.main = .loading n
  ctx : s.ctxShutdown = true ↔ s.watcher = .returned ∧ s.process.callers 0 = .returned .watcher
  poller : s.pollerReturned = true → s.ctxShutdown = true
  joined : Joined s

theorem steady_start (m : LabelMap) (n : ℕ) : Steady { main := .loading n, labelMap := m } where
  watched := Process.watched_start
  fits := rfl
  loading := ⟨fun _ => ⟨n, rfl⟩, fun _ => rfl⟩
  ctx := by simp
  poller h := by cases h
  joined := trivial

/-- Once the watcher is there no worker is created any more. -/
theorem not_loading_iff {watcher : Watcher} {main : MainThread} (hw : watcher ≠ .notStarted)
    (hmain : ∀ n, main ≠ .loading n) : watcher = .notStarted ↔ ∃ n, main = .loading n :=
  ⟨fun h => absurd h hw, fun ⟨n, h⟩ => absurd h (hmain n)⟩

theorem ctx_iff {b : Bool} {watcher : Watcher} {call : Caller} (hb : b = false)
    (hw : watcher ≠ .returned) :
    b = true ↔ watcher = .returned ∧ call = .returned .watcher := by
  simp [hb, hw]

/-- The context is up as long as the watcher is there. -/
theorem Steady.ctx_up (h : Steady s) (hw : s.watcher ≠ .returned) : s.ctxShutdown = false := by
  by_contra hctx
  exact hw (h.ctx.mp (by simpa using hctx)).1

theorem Steady.not_loading (h : Steady s) (hw : s.watcher ≠ .notStarted) (n : ℕ) :
    s.main ≠ .loading n := fun hmain => hw (h.loading.mpr ⟨n, hmain⟩)

theorem Steady.started (h : Steady s) (hmain : ∀ n, s.main ≠ .loading n) :
    s.watcher ≠ .notStarted := by
  intro hw
  obtain ⟨n, hn⟩ := h.loading.mp hw
  exact hmain n hn

/-- Workers that have gone stay gone. -/
theorem joined_of_phase {p : Process} {main : MainThread} (h : Joined { s with main := main })
    (hp : ∀ w, s.process.phase w = some .destroyed → p.phase w = some .destroyed) :
    Joined { s with main := main, process := p } := by
  cases main with
  | loading n => trivial
  | joining rest => exact ⟨h.1, fun w hw => (h.2 w hw).imp_left (hp w)⟩
  | joiningPoller => exact fun w hw => hp w (h w hw)
  | joiningWatcher => exact ⟨fun w hw => hp w (h.1 w hw), h.2⟩
  | returned => exact ⟨fun w hw => hp w (h.1 w hw), h.2⟩

/-- The watcher moves on before `main` has come to join it. -/
theorem joined_of_watcher {watcher : Watcher} (h : Joined s) (hmain : s.main ≠ .returned) :
    Joined { s with watcher := watcher } := by
  rw [Joined] at h ⊢
  cases hm : s.main with
  | returned => exact absurd hm hmain
  | loading n => trivial
  | joining rest =>
    rw [hm] at h
    exact h
  | joiningPoller =>
    rw [hm] at h
    exact h
  | joiningWatcher =>
    rw [hm] at h
    exact h

theorem Steady.step (h : Steady s) (hstep : s.step c a = some t) : Steady t := by
  obtain ⟨⟨hexited, hreturned⟩, hsteps⟩ := steps_of_step hstep
  have hfits := h.fits
  cases hsteps with
  | @create n p hmain hp =>
    have hw := h.loading.mpr ⟨_, hmain⟩
    obtain ⟨q, hq, hwatched, hcallers⟩ := h.watched.create
    rw [hp, Option.some.injEq] at hq
    subst hq
    refine ⟨hwatched, ?_, ⟨fun _ => ⟨n, rfl⟩, fun _ => hw⟩, ?_, h.poller, trivial⟩
    · show Fits s.watcher (p.callers 0)
      rw [hcallers]
      exact hfits
    · show _ ↔ s.watcher = .returned ∧ p.callers 0 = _
      rw [hcallers]
      exact h.ctx
  | watch hmain =>
    have hw := h.loading.mpr ⟨_, hmain⟩
    rw [hw] at hfits
    refine ⟨h.watched, hfits, not_loading_iff (by simp) (by simp), ?_, h.poller, ?_⟩
    · exact ctx_iff (h.ctx_up (by simp [hw])) (by simp)
    · exact ⟨fun w hw => List.mem_range.mp hw, fun w hw => .inr (List.mem_range.mpr hw)⟩
  | deliver => exact ⟨h.watched, h.fits, h.loading, h.ctx, h.poller, h.joined⟩
  | interrupt hw hpipe =>
    rw [hw] at hfits
    have hidle : s.process.callers 0 = .idle := hfits
    have hup := h.ctx_up (by simp [hw])
    refine ⟨h.watched, .inl hfits, not_loading_iff (by simp) (h.not_loading (by simp [hw])), ?_,
      h.poller, joined_of_watcher h.joined hreturned⟩
    show s.ctxShutdown = true ↔ _ ∧ s.process.callers 0 = _
    simp [hup, hidle]
  | reload hw hpipe hm => exact ⟨h.watched, h.fits, h.loading, h.ctx, h.poller, h.joined⟩
  | exit hw hpipe => exact ⟨h.watched, h.fits, h.loading, h.ctx, h.poller, h.joined⟩
  | @snapshot csv ptm sig rest p hw hpipe hsig hp =>
    rw [hw] at hfits
    obtain ⟨hq, hwatched⟩ := h.watched.snapshot hfits
    rw [hp, Option.some.injEq] at hq
    subst hq
    have hbusy : (s.process.setCaller 0 (.draining .watcher s.process.activeServers)).callers 0 ≠
        .idle := by
      rw [Process.setCaller_self]
      simp
    refine ⟨hwatched, hbusy, not_loading_iff (by simp) (h.not_loading (by simp [hw])),
      ctx_iff (h.ctx_up (by simp [hw])) (by simp), h.poller, ?_⟩
    · have hjoined : Joined { s with watcher := .draining } :=
        joined_of_watcher h.joined hreturned
      exact joined_of_phase (s := { s with watcher := .draining }) hjoined fun w hw => hw
  | @advance p hw hp =>
    obtain ⟨hwatched, hphase, -, hbusy, -⟩ := h.watched.advance hp
    refine ⟨hwatched, ?_, h.loading, ctx_iff (h.ctx_up (by simp [hw])) (by simp [hw]), h.poller, ?_⟩
    · show Fits s.watcher (p.callers 0)
      rw [hw]
      exact hbusy
    · exact joined_of_phase h.joined fun w hw => by rw [hphase, hw]
  | drained hw hc =>
    exact ⟨h.watched, hc, not_loading_iff (by simp) (h.not_loading (by simp [hw])),
      ctx_iff (h.ctx_up (by simp [hw])) (by simp), h.poller, joined_of_watcher h.joined hreturned⟩
  | close hw =>
    rw [hw] at hfits
    exact ⟨h.watched, .inr hfits, not_loading_iff (by simp) (h.not_loading (by simp [hw])),
      ⟨fun _ => ⟨rfl, hfits⟩, fun _ => rfl⟩, fun _ => rfl,
      joined_of_watcher (s := { s with ctxShutdown := true }) h.joined hreturned⟩
  | @work k w p hp =>
    have hworked := worked_of_step hp
    refine ⟨h.watched.work hp, ?_, h.loading, ?_, h.poller,
      joined_of_phase h.joined fun u hu => hworked.destroyed hu⟩
    · show Fits s.watcher (p.callers 0)
      rw [hworked.callers]
      exact hfits
    · show _ ↔ s.watcher = .returned ∧ p.callers 0 = _
      rw [hworked.callers]
      exact h.ctx
  | poller hctx hnot =>
    refine ⟨h.watched, h.fits, h.loading, h.ctx, fun _ => hctx, ?_⟩
    have hjoined := h.joined
    rw [Joined] at hjoined ⊢
    cases hm : s.main with
    | returned => exact absurd hm hreturned
    | loading n => trivial
    | joining rest =>
      rw [hm] at hjoined
      exact hjoined
    | joiningPoller =>
      rw [hm] at hjoined
      exact hjoined
    | joiningWatcher =>
      rw [hm] at hjoined
      exact ⟨hjoined.1, rfl⟩
  | @join w rest hmain hw =>
    have hjoined := h.joined
    rw [Joined, hmain] at hjoined
    refine ⟨h.watched, h.fits, ?_, h.ctx, h.poller, ?_⟩
    · exact not_loading_iff (h.started (by simp [hmain])) (by simp)
    · refine ⟨fun u hu => hjoined.1 u (List.mem_cons_of_mem w hu), fun u hu => ?_⟩
      rcases hjoined.2 u hu with hgone | hin
      · exact .inl hgone
      · rcases List.mem_cons.mp hin with rfl | hin
        · exact .inl hw
        · exact .inr hin
  | joined hmain =>
    have hjoined := h.joined
    rw [Joined, hmain] at hjoined
    refine ⟨h.watched, h.fits, ?_, h.ctx, h.poller, fun u hu => ?_⟩
    · exact not_loading_iff (h.started (by simp [hmain])) (by simp)
    · exact (hjoined.2 u hu).resolve_right List.not_mem_nil
  | joinPoller hmain hp =>
    have hjoined := h.joined
    rw [Joined, hmain] at hjoined
    refine ⟨h.watched, h.fits, ?_, h.ctx, h.poller, ⟨hjoined, hp⟩⟩
    exact not_loading_iff (h.started (by simp [hmain])) (by simp)
  | joinWatcher hmain hw =>
    have hjoined := h.joined
    rw [Joined, hmain] at hjoined
    refine ⟨h.watched, h.fits, ?_, h.ctx, h.poller, ⟨hjoined.1, hjoined.2, hw⟩⟩
    exact not_loading_iff (h.started (by simp [hmain])) (by simp)

theorem steady_of_reachable {m : LabelMap} {n : ℕ} (h : (daemon c m n).Reachable s) : Steady s :=
  (daemon c m n).reachable_invariant (steady_start m n) (fun _ _ _ hs hstep => hs.step hstep) h

/-! ### What becomes of the signals -/

/-- A signal that is no reload is the last one served, and has started the shutdown. -/
def ServedUpTo (call : Caller) (served : List Signal) : Prop :=
  (call = .idle → ∀ sig ∈ served, sig = .usr1) ∧
    (call ≠ .idle → ∃ before sig, served = before ++ [sig] ∧ sig ≠ .usr1 ∧ ∀ x ∈ before, x = .usr1)

structure Logged (c : LabelSettings) (m : LabelMap) (s : Threads) : Prop where
  fifo : s.served ++ s.pipe = s.delivered
  order : ServedUpTo (s.process.callers 0) s.served
  map : reloads c s.reloaded m = .running s.labelMap
  count : s.exited = false → s.reloaded.length = s.served.count .usr1

theorem logged_start (m : LabelMap) (n : ℕ) : Logged c m { main := .loading n, labelMap := m } where
  fifo := rfl
  order := ⟨fun _ _ h => (by cases h), fun h => absurd rfl h⟩
  map := rfl
  count _ := rfl

/-- A call that is under way is not taken back, and one that is not is left alone. -/
theorem ServedUpTo.of_idle_iff {call call' : Caller} {served : List Signal}
    (h : ServedUpTo call served) (hidle : call' = .idle ↔ call = .idle) :
    ServedUpTo call' served :=
  ⟨fun h' => h.1 (hidle.mp h'), fun h' => h.2 (mt hidle.mpr h')⟩

theorem ServedUpTo.usr1 {served : List Signal} (h : ServedUpTo .idle served) :
    ServedUpTo .idle (served ++ [.usr1]) := by
  refine ⟨fun _ sig hsig => ?_, fun hbusy => absurd rfl hbusy⟩
  rcases List.mem_append.mp hsig with hsig | hsig
  · exact h.1 rfl sig hsig
  · exact List.mem_singleton.mp hsig

theorem fifo_serve {sig : Signal} {rest : List Signal} (hpipe : s.pipe = sig :: rest)
    (h : s.served ++ s.pipe = s.delivered) : s.served ++ [sig] ++ rest = s.delivered := by
  rw [List.append_assoc, List.singleton_append, ← hpipe, h]

theorem fifo_handler {sig : Signal} (h : s.served ++ s.pipe = s.delivered) :
    s.served ++ (s.pipe ++ [sig]) = s.delivered ++ [sig] := by
  rw [← List.append_assoc, h]

theorem Logged.step {m : LabelMap} (h : Logged c m s) (hs : Steady s)
    (hstep : s.step c a = some t) : Logged c m t := by
  have hsteady := hs.step hstep
  obtain ⟨⟨hexited, hreturned⟩, hsteps⟩ := steps_of_step hstep
  have hfits := hs.fits
  cases hsteps with
  | @create n p hmain hp =>
    obtain ⟨q, hq, -, hcallers⟩ := hs.watched.create
    rw [hp, Option.some.injEq] at hq
    subst hq
    exact ⟨h.fifo, h.order.of_idle_iff (by rw [hcallers]), h.map, h.count⟩
  | deliver => exact ⟨fifo_handler h.fifo, h.order, h.map, h.count⟩
  | interrupt hw hpipe => exact ⟨fifo_handler h.fifo, h.order, h.map, h.count⟩
  | @reload csv ptm rest m' hw hpipe hm =>
    rw [hw] at hfits
    have horder := h.order
    rw [show s.process.callers 0 = .idle from hfits] at horder
    refine ⟨fifo_serve hpipe h.fifo, ?_, ?_, fun _ => ?_⟩
    · show ServedUpTo (s.process.callers 0) (s.served ++ [.usr1])
      rw [show s.process.callers 0 = .idle from hfits]
      exact horder.usr1
    · have hmap := h.map
      rw [reloads] at hmap
      rw [reloads, List.foldlM_append, hmap]
      simp [hm]
    · show (s.reloaded ++ [(csv, ptm)]).length = (s.served ++ [Signal.usr1]).count .usr1
      rw [List.length_append, List.count_append, h.count hexited]
      rfl
  | @exit csv ptm rest hw hpipe =>
    rw [hw] at hfits
    have horder := h.order
    rw [show s.process.callers 0 = .idle from hfits] at horder
    refine ⟨fifo_serve hpipe h.fifo, ?_, h.map, fun hnot => by cases hnot⟩
    show ServedUpTo (s.process.callers 0) (s.served ++ [.usr1])
    rw [show s.process.callers 0 = .idle from hfits]
    exact horder.usr1
  | @snapshot csv ptm sig rest p hw hpipe hsig hp =>
    rw [hw] at hfits
    have hall := h.order.1 hfits
    have hbusy : p.callers 0 ≠ .idle := hsteady.fits
    refine ⟨fifo_serve hpipe h.fifo, ?_, h.map, fun _ => ?_⟩
    · exact ⟨fun hidle => absurd hidle hbusy, fun _ => ⟨s.served, sig, rfl, hsig, hall⟩⟩
    · show s.reloaded.length = (s.served ++ [sig]).count .usr1
      rw [List.count_append, List.count_singleton, h.count hexited]
      simp [hsig]
  | @advance p hw hp =>
    rw [hw] at hfits
    have hbusy := (hs.watched.advance hp).2.2.2.1
    exact ⟨h.fifo, h.order.of_idle_iff (iff_of_false hbusy hfits), h.map, h.count⟩
  | @work k w p hp =>
    refine ⟨h.fifo, h.order.of_idle_iff ?_, h.map, h.count⟩
    rw [(worked_of_step hp).callers]
  | watch | drained | close | poller | join | joined | joinPoller | joinWatcher =>
    exact ⟨h.fifo, h.order, h.map, h.count⟩

/-- The signals are served in the order of their delivery, none of them lost or served twice;
the first that asks for an end is the last one served. The map is what the reloads asked for
have made of the first one. -/
structure SignalsInOrder (c : LabelSettings) (m : LabelMap) (s : Threads) : Prop where
  fifo : s.served ++ s.pipe = s.delivered
  last : ∀ before sig after, s.served = before ++ sig :: after → sig ≠ .usr1 → after = []
  shutdown : (∃ sig ∈ s.served, sig ≠ .usr1) ↔ s.process.callers 0 ≠ .idle
  map : s.exited = false → ∃ files, files.length = s.served.count .usr1 ∧
    reloads c files m = .running s.labelMap

theorem Logged.signalsInOrder {m : LabelMap} (h : Logged c m s) : SignalsInOrder c m s := by
  refine ⟨h.fifo, fun before sig after hserved hsig => ?_, ⟨?_, fun hbusy => ?_⟩, fun hexited => ?_⟩
  · by_cases hidle : s.process.callers 0 = .idle
    · have hmem : sig ∈ s.served := by simp [hserved]
      exact absurd (h.order.1 hidle sig hmem) hsig
    · obtain ⟨first, last, hlast, -, hfirst⟩ := h.order.2 hidle
      by_contra hafter
      -- a signal with others after it is one of the first
      have hmem : sig ∈ first := by
        rw [hserved, ← List.dropLast_append_getLast hafter, ← List.cons_append,
          ← List.append_assoc] at hlast
        have hinit := (List.append_inj' hlast rfl).1
        rw [← hinit]
        simp
      exact hsig (hfirst sig hmem)
  · rintro ⟨sig, hmem, hsig⟩ hidle
    exact hsig (h.order.1 hidle sig hmem)
  · obtain ⟨first, last, hlast, hsig, -⟩ := h.order.2 hbusy
    exact ⟨last, by simp [hlast], hsig⟩
  · exact ⟨s.reloaded, h.count hexited, h.map⟩

theorem logged_of_reachable {m : LabelMap} {n : ℕ} (h : (daemon c m n).Reachable s) :
    Steady s ∧ Logged c m s :=
  (daemon c m n).reachable_invariant (I := fun s => Steady s ∧ Logged c m s)
    ⟨steady_start m n, logged_start m n⟩
    (fun _ _ _ hs hstep => ⟨hs.1.step hstep, hs.2.step hs.1 hstep⟩) h

end Threads

theorem signals_in_order {c : LabelSettings} {m : LabelMap} {n : ℕ} {s : Threads}
    (h : (daemon c m n).Reachable s) : s.SignalsInOrder c m :=
  (Threads.logged_of_reachable h).2.signalsInOrder

/-- No labels are configured. -/
def noLabels : LabelSettings := ⟨false, false, by decide⟩

/-- A reload is asked for while the worker is still being created, and then an end. -/
def reloadThenStop : List Action :=
  [.deliver .usr1, .create, .deliver .term, .watch, .work .register 0, .take none none,
    .take none none]

theorem signals_in_order_reloadThenStop :
    ∃ s, (daemon noLabels .empty 1).run reloadThenStop (daemon noLabels .empty 1).start = some s ∧
      s.SignalsInOrder noLabels .empty :=
  ⟨_, rfl, signals_in_order (n := 1) ⟨reloadThenStop, rfl⟩⟩

/-! ### An interrupted watcher -/

namespace Threads

variable {c : LabelSettings} {s t : Threads} {a : Action}

/-- The watcher has ended without having shut anything down. -/
def Deaf (s : Threads) : Prop := s.watcher = .returned ∧ s.process.callers 0 = .idle

theorem Deaf.step (h : Deaf s) (hs : Steady s) (hstep : s.step c a = some t) :
    Deaf t ∧ t.labelMap = s.labelMap ∧ t.served = s.served := by
  obtain ⟨-, hsteps⟩ := steps_of_step hstep
  have hw := h.1
  cases hsteps with
  | create hmain hp => simp [hs.loading.mpr ⟨_, hmain⟩] at hw
  | watch hmain => simp [hs.loading.mpr ⟨_, hmain⟩] at hw
  | interrupt hw' | reload hw' | exit hw' | snapshot hw' | advance hw' | drained hw' | close hw' =>
    rw [hw'] at hw
    cases hw
  | work hp =>
    refine ⟨⟨hw, ?_⟩, rfl, rfl⟩
    show Process.callers _ 0 = _
    rw [(worked_of_step hp).callers]
    exact h.2
  | deliver | poller | join | joined | joinPoller | joinWatcher => exact ⟨h, rfl, rfl⟩

/-- As long as nothing has shut the context down, `main` waits for the poller. -/
theorem Deaf.not_returned (h : Deaf s) (hs : Steady s) : s.main ≠ .returned := by
  intro hmain
  have hjoined := hs.joined
  rw [Joined, hmain] at hjoined
  have hcall := (hs.ctx.mp (hs.poller hjoined.2.1)).2
  rw [h.2] at hcall
  cases hcall

end Threads

/-- After a signal has interrupted the watcher in its `read` the daemon never serves another
one: it reloads nothing, shuts no server down and does not come to its end. -/
theorem deaf_after_interrupt {c : LabelSettings} {m : LabelMap} {n : ℕ} {s t u : Threads}
    {sig : Signal} {as : List Action} (hs : (daemon c m n).Reachable s)
    (hinterrupt : s.step c (.interrupt sig) = some t) (h : (daemon c m n).run as t = some u) :
    u.served = s.served ∧ u.labelMap = s.labelMap ∧ u.main ≠ .returned ∧
      ∀ w, u.process.shutdownDone w = false := by
  have hsteady := Threads.steady_of_reachable hs
  have ht : t.Steady ∧ t.Deaf ∧ t.labelMap = s.labelMap ∧ t.served = s.served := by
    refine ⟨hsteady.step hinterrupt, ?_⟩
    obtain ⟨-, hsteps⟩ := Threads.steps_of_step hinterrupt
    cases hsteps with
    | interrupt hw hpipe =>
      have hfits := hsteady.fits
      rw [hw] at hfits
      exact ⟨⟨rfl, hfits⟩, rfl, rfl⟩
  have hu : u.Steady ∧ u.Deaf ∧ u.labelMap = s.labelMap ∧ u.served = s.served := by
    refine (daemon c m n).run_preserves (C := fun _ _ => True)
      (I := fun u => u.Steady ∧ u.Deaf ∧ u.labelMap = s.labelMap ∧ u.served = s.served)
      (fun u a v hu _ hstep => ?_) ht ((daemon c m n).meets_of_forall (fun _ _ _ => trivial) t) h
    obtain ⟨hdeaf, hmap, hserved⟩ := hu.2.1.step hu.1 hstep
    exact ⟨hu.1.step hstep, hdeaf, hmap.trans hu.2.2.1, hserved.trans hu.2.2.2⟩
  obtain ⟨hsteady, hdeaf, hmap, hserved⟩ := hu
  exact ⟨hserved, hmap, hdeaf.not_returned hsteady, hsteady.watched.quiet hdeaf.2⟩

/-- The signals after the one that interrupts. -/
def lateSignals : List Action := [.work .register 0, .work .enter 0, .deliver .term, .deliver .int]

theorem deaf_after_interrupt_lateSignals :
    ∃ s t u, (daemon noLabels .empty 1).run [.create, .watch] (daemon noLabels .empty 1).start =
        some s ∧ s.step noLabels (.interrupt .usr1) = some t ∧
      (daemon noLabels .empty 1).run lateSignals t = some u ∧
      u.served = s.served ∧ u.labelMap = s.labelMap ∧ u.main ≠ .returned ∧
        ∀ w, u.process.shutdownDone w = false :=
  ⟨_, _, _, rfl, rfl, rfl, deaf_after_interrupt (c := noLabels) (m := .empty) (n := 1)
    ⟨[.create, .watch], rfl⟩ rfl (show (daemon noLabels .empty 1).run lateSignals _ = _ from rfl)⟩

end MdtDialoutCollector.Daemon
