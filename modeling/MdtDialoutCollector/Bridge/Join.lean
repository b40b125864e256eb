import MdtDialoutCollector.Bridge.Lifecycle

/-! Which workers are shut down when a caller of `initiate_shutdown` comes to its joins.
The snapshot holds the workers that have registered; one that is still building its server
is missed, and runs on with nobody left to shut it down. -/

namespace MdtDialoutCollector.Bridge.Process

open Runs

variable {s t : Process} {a : Action}

/-- `Shutdown` has been called on the worker's `Srv`, or it can no longer enter `RunFsm`. -/
def ShutOff (s : Process) (w : WorkerId) : Prop := s.shutdownDone w = true ∨ Past (s.phase w)

/-- A worker that `stop_grpc_dialout_collector` has come to join is shut off, and so is every
worker when the signal watcher has returned. -/
def JoinsShutOff (s : Process) : Prop :=
  (∀ c w rest, s.callers c = .joining (w :: rest) → s.ShutOff w) ∧
    ∀ c, s.callers c = .returned .watcher → ∀ w, s.phase w ≠ none → s.ShutOff w

/-- The workers are created before anybody calls `initiate_shutdown`. -/
def AfterStart (s : Process) : Action → Prop
  | .create _ | .track _ => ∀ c, s.callers c = .idle
  | _ => True

/-- A snapshot is taken only when every worker created has registered its server. -/
def AllRegistered (s : Process) : Action → Prop
  | .initiateShutdown _ _ => ∀ w, s.phase w ≠ some .building
  | _ => True

/-- A caller past its snapshot has called `Shutdown` on every worker, or is about to. -/
def Covered (s : Process) : Prop :=
  ∀ c, s.callers c ≠ .idle → ∀ w, s.phase w ≠ none →
    s.phase w ≠ some .building ∧ (s.shutdownDone w = true ∨ w ∈ (s.callers c).uncalled)

theorem Covered.setPhase (h : Covered s) {w : WorkerId} {p : Phase} (hw : s.phase w ≠ none)
    (hp : p ≠ .building) : Covered (s.setPhase w p) := by
  intro c hc u hu
  by_cases huw : u = w
  · subst huw
    rw [setPhase_self]
    exact ⟨by simpa using hp, (h c hc u hw).2⟩
  · rw [setPhase_of_ne s huw] at hu ⊢
    exact h c hc u hu

theorem Covered.setCaller (h : Covered s) {c : CallerId} {pc : Caller} (hc : s.callers c ≠ .idle)
    (hpc : ∀ w ∈ (s.callers c).uncalled, s.shutdownDone w = true ∨ w ∈ pc.uncalled) :
    Covered (s.setCaller c pc) := by
  intro d hd w hw
  by_cases hdc : d = c
  · subst hdc
    obtain ⟨hbuilt, hcover⟩ := h d hc w hw
    refine ⟨hbuilt, ?_⟩
    rw [setCaller_self]
    rcases hcover with hdone | hin
    · exact .inl hdone
    · exact hpc w hin
  · rw [setCaller_of_ne s hdc] at hd ⊢
    exact h d hd w hw

/-- A caller goes on to the rest of its snapshot once the next server in it is marked. -/
theorem Covered.called (h : Covered s) {c : CallerId} {entry : Entry} {w : WorkerId}
    {rest : List WorkerId} (hc : s.callers c = .draining entry (w :: rest))
    (hdone : s.shutdownDone w = true) {pc : Caller} (hpc : pc.uncalled = rest) :
    Covered (s.setCaller c pc) := by
  apply h.setCaller (by simp [hc])
  rw [hc, hpc]
  intro u hu
  rcases List.mem_cons.mp hu with rfl | hu
  · exact .inl hdone
  · exact .inr hu

theorem Covered.markDone (h : Covered s) (w : WorkerId) : Covered (s.markDone w) := by
  intro c hc u hu
  obtain ⟨hbuilt, hcover⟩ := h c hc u hu
  exact ⟨hbuilt, hcover.imp_left fun hdone => shutdownDone_markDone.mpr (.inr hdone)⟩

/-- At the snapshot itself the registry covers every worker that is not shut down yet. -/
theorem Covered.snapshot (h : Covered s) (hs : Sound s) {c : CallerId} {entry : Entry}
    (hbuilt : ∀ w, s.phase w ≠ some .building) :
    Covered (s.setCaller c (.draining entry s.activeServers)) := by
  intro d hd w hw
  by_cases hdc : d = c
  · subst hdc
    refine ⟨hbuilt w, ?_⟩
    rw [setCaller_self]
    by_cases hin : w ∈ s.activeServers
    · exact .inr hin
    · have hpast := (listed_or_past hw (hbuilt w)).resolve_left fun hl => hin ((hs.listed w).mpr hl)
      exact .inl (hs.closed w (hs.past w hpast))
  · rw [setCaller_of_ne s hdc] at hd ⊢
    exact h d hd w hw

theorem Covered.step (h : Covered s) (hs : Sound s) (hstart : AfterStart s a)
    (hreg : AllRegistered s a) (hstep : s.step a = some t) : Covered t := by
  cases steps_of_step hstep with
  | create hw => exact fun c hc => absurd (hstart c) hc
  | track hw => exact h
  | @register w hw => exact h.setPhase (s := { s with activeServers := _ }) (by simp [hw]) (by simp)
  | enter hw => exact h.setPhase (by simp [hw]) (by simp)
  | leave hw hcq => exact h.setPhase (by simp [hw]) (by simp)
  | unregister hw => exact h.setPhase (s := { s with activeServers := _ }) (by simp [hw]) (by simp)
  | @destroy w hw =>
    have hmarked : Covered ((s.markDone w).shutQueue w) := h.markDone w
    exact hmarked.setPhase (show s.phase w ≠ none by simp [hw]) (by simp)
  | snapshot hc => exact h.snapshot hs hreg
  | callDestroyed hc hw =>
    exact Covered.called (s := { s with dangling := true }) h hc
      (hs.closed _ (hs.past _ (.inr (.inr hw)))) rfl
  | callAgain hc hdone => exact h.called hc hdone rfl
  | @call c entry w rest hc hdone =>
    exact (h.markDone w).called hc (shutdownDone_markDone.mpr (.inl rfl)) rfl
  | @close c entry w rest hc =>
    apply Covered.setCaller (s := s.shutQueue w) h
    · rw [show (s.shutQueue w).callers c = _ from hc]
      simp
    · rw [show (s.shutQueue w).callers c = _ from hc]
      exact fun u hu => .inr hu
  | swap hc =>
    exact Covered.setCaller (s := { s with activeWorkers := [] }) h (by simp [hc])
      (by simp [hc, Caller.uncalled])
  | watched hc => exact h.setCaller (by simp [hc]) (by simp [hc, Caller.uncalled])
  | join hc hw => exact h.setCaller (by simp [hc]) (by simp [hc, Caller.uncalled])
  | joined hc => exact h.setCaller (by simp [hc]) (by simp [hc, Caller.uncalled])

theorem covered_start : Covered {} := fun _ hc => absurd rfl hc

theorem Covered.joinsShutOff (h : Covered s) (hs : Sound s) : JoinsShutOff s := by
  constructor
  · intro c w rest hc
    have hw := hs.joining c (w :: rest) hc w List.mem_cons_self
    obtain ⟨-, hdone | hin⟩ := h c (by simp [hc]) w hw
    · exact .inl hdone
    · simp [hc, Caller.uncalled] at hin
  · intro c hc w hw
    obtain ⟨-, hdone | hin⟩ := h c (by simp [hc]) w hw
    · exact .inl hdone
    · simp [hc, Caller.uncalled] at hin

/-- In a run whose snapshots are taken after every worker has registered, a worker that is
joined is shut off. -/
theorem joins_shut_off (as : List Action) {s : Process} (h : process.run as process.start = some s)
    (hstart : process.Meets AfterStart as process.start)
    (hreg : process.Meets AllRegistered as process.start) : JoinsShutOff s := by
  have hinv : Sound s ∧ Covered s :=
    process.run_preserves (I := fun s => Sound s ∧ Covered s)
      (fun _ _ _ hs hC hstep => ⟨hs.1.step hstep, hs.2.step hs.1 hC.1 hC.2 hstep⟩)
      ⟨sound_start, covered_start⟩ (hstart.and hreg) h
  exact hinv.2.joinsShutOff hinv.1

/-- The worker has registered its server when `stop_grpc_dialout_collector` is called. -/
def lateStop : List Action :=
  [.create 0, .track 0, .register 0, .initiateShutdown 0 .stop, .advance 0, .advance 0, .advance 0]

theorem joins_shut_off_registered :
    ∃ s, process.run lateStop process.start = some s ∧ JoinsShutOff s := by
  refine ⟨_, rfl, ?_⟩
  apply joins_shut_off lateStop rfl
  · apply Machine.Meets.cons (fun _ => rfl) rfl
    apply Machine.Meets.cons (fun _ => rfl) rfl
    apply Machine.meets_of_forall
    simp [AfterStart]
  · apply Machine.Meets.cons trivial rfl
    apply Machine.Meets.cons trivial rfl
    apply Machine.Meets.cons trivial rfl
    apply Machine.Meets.cons _ rfl
    · apply Machine.meets_of_forall
      simp [AllRegistered]
    · intro w
      by_cases hw : w = 0 <;> simp [process, setPhase, Function.update, hw]

/-- The worker has been created and tracked, but is still building its server. -/
def earlyStop : List Action :=
  [.create 0, .track 0, .initiateShutdown 0 .stop, .advance 0, .register 0, .enter 0]

/-- `stop_grpc_dialout_collector` joins a worker that nobody has shut down. -/
theorem running_worker_joined :
    ¬∀ as s, process.run as process.start = some s →
      process.Meets AfterStart as process.start → JoinsShutOff s := by
  intro h
  have hjoins := h earlyStop _ rfl ?_
  · rcases hjoins.1 0 0 [] rfl with hdone | hpast
    · cases hdone
    · rcases hpast with hpast | hpast | hpast <;> cases hpast
  · apply Machine.Meets.cons (fun _ => rfl) rfl
    apply Machine.Meets.cons (fun _ => rfl) rfl
    apply Machine.meets_of_forall
    simp [AfterStart]

end MdtDialoutCollector.Bridge.Process
