import MdtDialoutCollector.Bridge.Lifecycle

/-! The pointers of a snapshot are used after the registry has been unlocked. A server
stays alive until somebody shuts it down, so a pointer is safe in the one snapshot that
holds it, and a second snapshot that shares it is not. -/

namespace MdtDialoutCollector.Bridge.Process

open Runs

variable {s t : Process} {a : Action}

/-- The worker's `Srv` has been constructed and not been destroyed. -/
def Alive (s : Process) (w : WorkerId) : Prop := ∃ p, s.phase w = some p ∧ p ≠ .destroyed

/-- `Shutdown` has not been called on a destroyed `Srv`, and where a caller is about to call
it, the `Srv` is alive. -/
def PointersLive (s : Process) : Prop :=
  s.dangling = false ∧
    ∀ c entry w rest, s.callers c = .draining entry (w :: rest) → s.Alive w

/-- A snapshot is taken only when no server in the registry has been shut down already or
is waiting in the snapshot of another caller. -/
def Unclaimed (s : Process) : Action → Prop
  | .initiateShutdown _ _ =>
    ∀ w ∈ s.activeServers, s.shutdownDone w = false ∧ ∀ c, w ∉ (s.callers c).uncalled
  | _ => True

/-- A server waits in one snapshot at most, and while it waits it is registered and not shut
down. -/
structure Exclusive (s : Process) : Prop where
  live : s.dangling = false
  nodup : ∀ c, (s.callers c).uncalled.Nodup
  unique : ∀ c d w, w ∈ (s.callers c).uncalled → w ∈ (s.callers d).uncalled → c = d
  fresh : ∀ c w, w ∈ (s.callers c).uncalled → s.shutdownDone w = false ∧ Listed (s.phase w)

theorem Exclusive.setPhase (h : Exclusive s) {w : WorkerId} {p : Phase}
    (hw : Listed (some p) ∨ ∀ c, w ∉ (s.callers c).uncalled) : Exclusive (s.setPhase w p) where
  live := h.live
  nodup := h.nodup
  unique := h.unique
  fresh c u hu := by
    refine ⟨(h.fresh c u hu).1, ?_⟩
    by_cases huw : u = w
    · subst huw
      rw [setPhase_self]
      exact hw.resolve_right fun hout => hout c hu
    · rw [setPhase_of_ne s huw]
      exact (h.fresh c u hu).2

/-- A caller may drop servers from what it still has to call. -/
theorem Exclusive.setCaller (h : Exclusive s) {c : CallerId} {pc : Caller}
    (hsub : pc.uncalled.Sublist (s.callers c).uncalled) : Exclusive (s.setCaller c pc) := by
  have hmem : ∀ d w, w ∈ ((s.setCaller c pc).callers d).uncalled → w ∈ (s.callers d).uncalled := by
    intro d w hw
    by_cases hdc : d = c
    · subst hdc
      rw [setCaller_self] at hw
      exact hsub.subset hw
    · rwa [setCaller_of_ne s hdc] at hw
  refine ⟨h.live, fun d => ?_, fun d e w hd he => ?_, fun d w hd => ?_⟩
  · by_cases hdc : d = c
    · subst hdc
      rw [setCaller_self]
      exact (h.nodup d).sublist hsub
    · rw [setCaller_of_ne s hdc]
      exact h.nodup d
  · exact h.unique d e w (hmem d w hd) (hmem e w he)
  · exact h.fresh d w (hmem d w hd)

/-- Marking a server that waits nowhere. -/
theorem Exclusive.markDone (h : Exclusive s) {w : WorkerId}
    (hw : ∀ c, w ∉ (s.callers c).uncalled) : Exclusive (s.markDone w) where
  live := h.live
  nodup := h.nodup
  unique := h.unique
  fresh c u hu := by
    refine ⟨?_, (h.fresh c u hu).2⟩
    by_contra hdone
    rcases shutdownDone_markDone.mp (by simpa using hdone) with rfl | hdone
    · exact hw c hu
    · rw [(h.fresh c u hu).1] at hdone
      cases hdone

theorem Exclusive.snapshot (h : Exclusive s) (hs : Sound s) {c : CallerId} {entry : Entry}
    (hfree : ∀ w ∈ s.activeServers, s.shutdownDone w = false ∧ ∀ d, w ∉ (s.callers d).uncalled) :
    Exclusive (s.setCaller c (.draining entry s.activeServers)) := by
  have hmem : ∀ d w, w ∈ ((s.setCaller c (.draining entry s.activeServers)).callers d).uncalled →
      d = c ∧ w ∈ s.activeServers ∨ w ∈ (s.callers d).uncalled := by
    intro d w hw
    by_cases hdc : d = c
    · subst hdc
      rw [setCaller_self] at hw
      exact .inl ⟨rfl, hw⟩
    · rw [setCaller_of_ne s hdc] at hw
      exact .inr hw
  refine ⟨h.live, fun d => ?_, fun d e w hd he => ?_, fun d w hd => ?_⟩
  · by_cases hdc : d = c
    · subst hdc
      rw [setCaller_self]
      exact hs.nodup
    · rw [setCaller_of_ne s hdc]
      exact h.nodup d
  · rcases hmem d w hd with ⟨hdc, hin⟩ | hold
    · rcases hmem e w he with ⟨hec, -⟩ | hold
      · rw [hdc, hec]
      · exact absurd hold ((hfree w hin).2 e)
    · rcases hmem e w he with ⟨-, hin⟩ | hold'
      · exact absurd hold ((hfree w hin).2 d)
      · exact h.unique d e w hold hold'
  · rcases hmem d w hd with ⟨rfl, hin⟩ | hd
    · exact ⟨(hfree w hin).1, (hs.listed w).mp hin⟩
    · exact h.fresh d w hd

/-- The server a caller marks is in no other snapshot, and not a second time in its own. -/
theorem Exclusive.call (h : Exclusive s) {c : CallerId} {entry : Entry} {w : WorkerId}
    {rest : List WorkerId} (hc : s.callers c = .draining entry (w :: rest)) :
    Exclusive ((s.markDone w).setCaller c (.closing entry w rest)) := by
  have hin : w ∈ (s.callers c).uncalled := by
    rw [hc]
    exact List.mem_cons_self
  have hnodup := h.nodup c
  rw [hc] at hnodup
  have hdropped : Exclusive (s.setCaller c (.closing entry w rest)) := by
    apply h.setCaller
    rw [hc]
    exact List.sublist_cons_self w rest
  apply hdropped.markDone
  intro d hd
  by_cases hdc : d = c
  · subst hdc
    rw [setCaller_self] at hd
    exact (List.nodup_cons.mp hnodup).1 hd
  · rw [setCaller_of_ne s hdc] at hd
    exact hdc (h.unique d c w hd hin)

/-- A worker whose queue is shut down waits in no snapshot. -/
theorem Exclusive.not_waiting (h : Exclusive s) (hs : Sound s) {w : WorkerId}
    (hw : Past (s.phase w)) (c : CallerId) : w ∉ (s.callers c).uncalled := by
  intro hin
  have hdone := hs.closed w (hs.past w hw)
  rw [(h.fresh c w hin).1] at hdone
  cases hdone

theorem Exclusive.step (h : Exclusive s) (hs : Sound s) (hfree : Unclaimed s a)
    (hstep : s.step a = some t) : Exclusive t := by
  cases steps_of_step hstep with
  | @create w hw =>
    refine h.setPhase (.inr fun c hin => ?_)
    have hlisted := (h.fresh c w hin).2
    rw [hw] at hlisted
    simp [Listed] at hlisted
  | track hw => exact ⟨h.live, h.nodup, h.unique, h.fresh⟩
  | @register w hw =>
    have hservers : Exclusive { s with activeServers := s.activeServers ++ [w] } :=
      ⟨h.live, h.nodup, h.unique, h.fresh⟩
    exact hservers.setPhase (.inl (.inl rfl))
  | enter hw => exact h.setPhase (.inl (.inr (.inl rfl)))
  | leave hw hcq => exact h.setPhase (.inl (.inr (.inr rfl)))
  | @unregister w hw =>
    have hservers : Exclusive { s with activeServers := s.activeServers.erase w } :=
      ⟨h.live, h.nodup, h.unique, h.fresh⟩
    exact hservers.setPhase (.inr (h.not_waiting hs (.inl hw)))
  | @destroy w hw =>
    have hout := h.not_waiting hs (.inr (.inl hw))
    have hmarked := h.markDone hout
    exact Exclusive.setPhase (s := (s.markDone w).shutQueue w)
      ⟨hmarked.live, hmarked.nodup, hmarked.unique, hmarked.fresh⟩ (.inr hout)
  | snapshot hc => exact h.snapshot hs hfree
  | @callDestroyed c entry w rest hc hw =>
    have hlisted := (h.fresh c w (by rw [hc]; exact List.mem_cons_self)).2
    rw [hw] at hlisted
    simp [Listed] at hlisted
  | @callAgain c entry w rest hc hdone =>
    apply h.setCaller
    rw [hc]
    exact List.sublist_cons_self w rest
  | call hc hdone => exact h.call hc
  | @close c entry w rest hc =>
    apply Exclusive.setCaller (s := s.shutQueue w) ⟨h.live, h.nodup, h.unique, h.fresh⟩
    rw [show (s.shutQueue w).callers c = _ from hc]
    exact List.Sublist.refl rest
  | swap hc =>
    exact Exclusive.setCaller (s := { s with activeWorkers := [] })
      ⟨h.live, h.nodup, h.unique, h.fresh⟩ (List.nil_sublist _)
  | watched hc => exact h.setCaller (List.nil_sublist _)
  | join hc hw => exact h.setCaller (List.nil_sublist _)
  | joined hc => exact h.setCaller (List.nil_sublist _)

theorem exclusive_start : Exclusive {} where
  live := rfl
  nodup _ := List.nodup_nil
  unique _ _ _ hw := by cases hw
  fresh _ _ hw := by cases hw

theorem Exclusive.pointersLive (h : Exclusive s) : PointersLive s := by
  refine ⟨h.live, fun c entry w rest hc => ?_⟩
  have hlisted := (h.fresh c w (by rw [hc]; exact List.mem_cons_self)).2
  rcases hlisted with hp | hp | hp
  · exact ⟨_, hp, by simp⟩
  · exact ⟨_, hp, by simp⟩
  · exact ⟨_, hp, by simp⟩

/-- In a run whose snapshots share no server, `Shutdown` is called on live servers only. -/
theorem shutdown_calls_live (as : List Action) {s : Process}
    (h : process.run as process.start = some s)
    (hfree : process.Meets Unclaimed as process.start) : PointersLive s := by
  have hinv : Sound s ∧ Exclusive s :=
    process.run_preserves (I := fun s => Sound s ∧ Exclusive s)
      (fun _ _ _ hs hC hstep => ⟨hs.1.step hstep, hs.2.step hs.1 hC hstep⟩)
      ⟨sound_start, exclusive_start⟩ hfree h
  exact hinv.2.pointersLive

/-- One caller shuts the only server down, and its worker goes. -/
def singleCaller : List Action :=
  [.create 0, .register 0, .enter 0, .initiateShutdown 0 .stop, .advance 0, .advance 0, .leave 0,
    .unregister 0, .destroy 0]

theorem shutdown_calls_live_single :
    ∃ s, process.run singleCaller process.start = some s ∧ PointersLive s := by
  refine ⟨_, rfl, ?_⟩
  apply shutdown_calls_live singleCaller rfl
  apply Machine.Meets.cons trivial rfl
  apply Machine.Meets.cons trivial rfl
  apply Machine.Meets.cons trivial rfl
  apply Machine.Meets.cons _ rfl
  · apply Machine.meets_of_forall
    simp [Unclaimed]
  · exact fun w _ => ⟨rfl, fun c => List.not_mem_nil⟩

/-- Two `stop` calls overlap: the second takes its snapshot before the first has called
`Shutdown`, and comes to use it when the worker has gone. -/
def sharedSnapshot : List Action :=
  [.create 0, .register 0, .enter 0, .initiateShutdown 0 .stop, .initiateShutdown 1 .stop,
    .advance 0, .advance 0, .leave 0, .unregister 0, .destroy 0, .advance 1]

/-- The second caller calls `Shutdown` on a destroyed server. -/
theorem shutdown_called_on_destroyed :
    ¬∀ as s, process.run as process.start = some s → PointersLive s := by
  intro h
  have hlive := (h sharedSnapshot _ rfl).1
  cases hlive

end MdtDialoutCollector.Bridge.Process
