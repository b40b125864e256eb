import MdtDialoutCollector.Runs.Machine
import Mathlib.Data.List.Nodup
import Mathlib.Logic.Function.Basic

/-! The worker threads with their servers, the registry of live servers, and the threads
that call `initiate_shutdown`. The registry hands a shutdown caller a copy of its raw
pointers and is unlocked before they are used, so every step of a worker can fall between
two steps of a caller. Of `RunFsm` only its return is kept: a loop whose queue is shut down
is taken to return, which it does unless it starts an operation too late
(`Core.Fsm.startedLate`). -/

namespace MdtDialoutCollector.Bridge

open Runs

/-- A worker thread and the `Srv` on its stack. -/
abbrev WorkerId := ℕ

/-- A thread that calls `initiate_shutdown` once; a repeated call is another caller. -/
abbrev CallerId := ℕ

/-- Where a worker stands in `VendorThread`: `building` until `register_server`,
`destroyed` once its `Srv` has gone out of scope and the thread has ended. -/
inductive Phase where
  | building | registered | inFsm | leftFsm | unregistered | destroyed
  deriving DecidableEq

/-- Who calls: `stop_grpc_dialout_collector`, which joins the workers afterwards, or the
daemon's signal watcher, which returns. -/
inductive Entry where
  | stop | watcher
  deriving DecidableEq

inductive Caller where
  | idle
  | draining (entry : Entry) (rest : List WorkerId)
  | closing (entry : Entry) (srv : WorkerId) (rest : List WorkerId)
  | joining (rest : List WorkerId)
  | returned (entry : Entry)
  deriving DecidableEq

/-- The servers of the snapshot on which `Shutdown` has not been called yet. -/
def Caller.uncalled : Caller → List WorkerId
  | .draining _ rest | .closing _ _ rest => rest
  | .idle | .joining _ | .returned _ => []

/-- `dangling` records that `Shutdown` was called through a pointer to a destroyed `Srv`. -/
structure Process where
  phase : WorkerId → Option Phase := fun _ => none
  activeServers : List WorkerId := []
  activeWorkers : List WorkerId := []
  shutdownDone : WorkerId → Bool := fun _ => false
  cqShutdown : WorkerId → Bool := fun _ => false
  callers : CallerId → Caller := fun _ => .idle
  dangling : Bool := false

/-- `create` and `track` are the two steps of `LoadThreads` for one worker. -/
inductive Action where
  | create (w : WorkerId)
  | track (w : WorkerId)
  | register (w : WorkerId)
  | enter (w : WorkerId)
  | leave (w : WorkerId)
  | unregister (w : WorkerId)
  | destroy (w : WorkerId)
  | initiateShutdown (c : CallerId) (entry : Entry)
  | advance (c : CallerId)
  deriving DecidableEq

namespace Process

def setPhase (s : Process) (w : WorkerId) (p : Phase) : Process :=
  { s with phase := Function.update s.phase w (some p) }

def setCaller (s : Process) (c : CallerId) (pc : Caller) : Process :=
  { s with callers := Function.update s.callers c pc }

/-- `shutdown_done_.exchange(true)`. -/
def markDone (s : Process) (w : WorkerId) : Process :=
  { s with shutdownDone := Function.update s.shutdownDone w true }

/-- `Shutdown` on the completion queue of the worker's server. -/
def shutQueue (s : Process) (w : WorkerId) : Process :=
  { s with cqShutdown := Function.update s.cqShutdown w true }

@[simp] theorem setPhase_self (s : Process) (w : WorkerId) (p : Phase) :
    (s.setPhase w p).phase w = some p := Function.update_self ..

theorem setPhase_of_ne (s : Process) {w u : WorkerId} (h : u ≠ w) (p : Phase) :
    (s.setPhase w p).phase u = s.phase u := Function.update_of_ne h ..

@[simp] theorem setCaller_self (s : Process) (c : CallerId) (pc : Caller) :
    (s.setCaller c pc).callers c = pc := Function.update_self ..

theorem setCaller_of_ne (s : Process) {c d : CallerId} (h : d ≠ c) (pc : Caller) :
    (s.setCaller c pc).callers d = s.callers d := Function.update_of_ne h ..

theorem shutdownDone_markDone {s : Process} {w u : WorkerId} :
    (s.markDone w).shutdownDone u = true ↔ u = w ∨ s.shutdownDone u = true := by
  by_cases hu : u = w <;> simp [markDone, Function.update, hu]

theorem cqShutdown_shutQueue {s : Process} {w u : WorkerId} :
    (s.shutQueue w).cqShutdown u = true ↔ u = w ∨ s.cqShutdown u = true := by
  by_cases hu : u = w <;> simp [shutQueue, Function.update, hu]

/-- A call of `Srv::Shutdown` up to the two shutdowns it makes. -/
def shutdown (s : Process) (c : CallerId) (entry : Entry) (w : WorkerId) (rest : List WorkerId) :
    Process :=
  if s.phase w = some .destroyed then
    { s with dangling := true }.setCaller c (.draining entry rest)
  else if s.shutdownDone w then s.setCaller c (.draining entry rest)
  else (s.markDone w).setCaller c (.closing entry w rest)

/-- The next step of a caller. -/
def advance (s : Process) (c : CallerId) : Option Process :=
  match s.callers c with
  | .idle | .returned _ => none
  | .draining entry (w :: rest) => some (s.shutdown c entry w rest)
  | .closing entry w rest => some ((s.shutQueue w).setCaller c (.draining entry rest))
  | .draining .stop [] =>
    some ({ s with activeWorkers := [] }.setCaller c (.joining s.activeWorkers))
  | .draining .watcher [] => some (s.setCaller c (.returned .watcher))
  | .joining (w :: rest) =>
    if s.phase w = some .destroyed then some (s.setCaller c (.joining rest)) else none
  | .joining [] => some (s.setCaller c (.returned .stop))

/-- `RunFsm` returns when its queue is shut down, late starts aside, and `~Srv` calls
`Shutdown` once more. -/
def step (s : Process) : Action → Option Process
  | .create w => if s.phase w = none then some (s.setPhase w .building) else none
  | .track w =>
    if s.phase w ≠ none ∧ w ∉ s.activeWorkers then
      some { s with activeWorkers := s.activeWorkers ++ [w] }
    else none
  | .register w =>
    if s.phase w = some .building then
      some ({ s with activeServers := s.activeServers ++ [w] }.setPhase w .registered)
    else none
  | .enter w => if s.phase w = some .registered then some (s.setPhase w .inFsm) else none
  | .leave w =>
    if s.phase w = some .inFsm ∧ s.cqShutdown w = true then some (s.setPhase w .leftFsm) else none
  | .unregister w =>
    if s.phase w = some .leftFsm then
      some ({ s with activeServers := s.activeServers.erase w }.setPhase w .unregistered)
    else none
  | .destroy w =>
    if s.phase w = some .unregistered then
      some (((s.markDone w).shutQueue w).setPhase w .destroyed)
    else none
  | .initiateShutdown c entry =>
    if s.callers c = .idle then some (s.setCaller c (.draining entry s.activeServers)) else none
  | .advance c => s.advance c

end Process

def process : Machine Process Action where
  start := {}
  step := Process.step

/-! ### What a step can do -/

namespace Process

inductive Steps (s : Process) : Action → Process → Prop where
  | create {w} (h : s.phase w = none) : Steps s (.create w) (s.setPhase w .building)
  | track {w} (h : s.phase w ≠ none) :
      Steps s (.track w) { s with activeWorkers := s.activeWorkers ++ [w] }
  | register {w} (h : s.phase w = some .building) : Steps s (.register w)
      ({ s with activeServers := s.activeServers ++ [w] }.setPhase w .registered)
  | enter {w} (h : s.phase w = some .registered) : Steps s (.enter w) (s.setPhase w .inFsm)
  | leave {w} (h : s.phase w = some .inFsm) (hcq : s.cqShutdown w = true) :
      Steps s (.leave w) (s.setPhase w .leftFsm)
  | unregister {w} (h : s.phase w = some .leftFsm) : Steps s (.unregister w)
      ({ s with activeServers := s.activeServers.erase w }.setPhase w .unregistered)
  | destroy {w} (h : s.phase w = some .unregistered) : Steps s (.destroy w)
      (((s.markDone w).shutQueue w).setPhase w .destroyed)
  | snapshot {c entry} (h : s.callers c = .idle) : Steps s (.initiateShutdown c entry)
      (s.setCaller c (.draining entry s.activeServers))
  | callDestroyed {c entry w rest} (h : s.callers c = .draining entry (w :: rest))
      (hw : s.phase w = some .destroyed) : Steps s (.advance c)
      ({ s with dangling := true }.setCaller c (.draining entry rest))
  | callAgain {c entry w rest} (h : s.callers c = .draining entry (w :: rest))
      (hdone : s.shutdownDone w = true) : Steps s (.advance c)
      (s.setCaller c (.draining entry rest))
  | call {c entry w rest} (h : s.callers c = .draining entry (w :: rest))
      (hdone : s.shutdownDone w = false) : Steps s (.advance c)
      ((s.markDone w).setCaller c (.closing entry w rest))
  | close {c entry w rest} (h : s.callers c = .closing entry w rest) : Steps s (.advance c)
      ((s.shutQueue w).setCaller c (.draining entry rest))
  | swap {c} (h : s.callers c = .draining .stop []) : Steps s (.advance c)
      ({ s with activeWorkers := [] }.setCaller c (.joining s.activeWorkers))
  | watched {c} (h : s.callers c = .draining .watcher []) : Steps s (.advance c)
      (s.setCaller c (.returned .watcher))
  | join {c w rest} (h : s.callers c = .joining (w :: rest)) (hw : s.phase w = some .destroyed) :
      Steps s (.advance c) (s.setCaller c (.joining rest))
  | joined {c} (h : s.callers c = .joining []) : Steps s (.advance c)
      (s.setCaller c (.returned .stop))

variable {s t : Process} {a : Action}

theorem steps_of_advance {c : CallerId} (h : s.advance c = some t) : Steps s (.advance c) t := by
  rw [advance] at h
  split at h
  · cases h
  · cases h
  · rename_i entry w rest hc
    cases h
    rw [shutdown]
    split_ifs with hw hdone
    · exact .callDestroyed hc hw
    · exact .callAgain hc hdone
    · exact .call hc (by simpa using hdone)
  · rename_i hc
    cases h
    exact .close hc
  · rename_i hc
    cases h
    exact .swap hc
  · rename_i hc
    cases h
    exact .watched hc
  · rename_i hc
    rw [Option.ite_none_right_eq_some] at h
    obtain ⟨hw, h⟩ := h
    cases h
    exact .join hc hw
  · rename_i hc
    cases h
    exact .joined hc

theorem steps_of_step (h : s.step a = some t) : Steps s a t := by
  cases a with
  | advance c => exact steps_of_advance h
  | create w =>
    rw [step, Option.ite_none_right_eq_some] at h
    obtain ⟨hw, h⟩ := h
    cases h
    exact .create hw
  | track w =>
    rw [step, Option.ite_none_right_eq_some] at h
    obtain ⟨⟨hw, -⟩, h⟩ := h
    cases h
    exact .track hw
  | register w =>
    rw [step, Option.ite_none_right_eq_some] at h
    obtain ⟨hw, h⟩ := h
    cases h
    exact .register hw
  | enter w =>
    rw [step, Option.ite_none_right_eq_some] at h
    obtain ⟨hw, h⟩ := h
    cases h
    exact .enter hw
  | leave w =>
    rw [step, Option.ite_none_right_eq_some] at h
    obtain ⟨⟨hw, hcq⟩, h⟩ := h
    cases h
    exact .leave hw hcq
  | unregister w =>
    rw [step, Option.ite_none_right_eq_some] at h
    obtain ⟨hw, h⟩ := h
    cases h
    exact .unregister hw
  | destroy w =>
    rw [step, Option.ite_none_right_eq_some] at h
    obtain ⟨hw, h⟩ := h
    cases h
    exact .destroy hw
  | initiateShutdown c entry =>
    rw [step, Option.ite_none_right_eq_some] at h
    obtain ⟨hc, h⟩ := h
    cases h
    exact .snapshot hc

/-! ### What the registry and the flags say of a worker -/

/-- From `register_server` to `unregister_server`. -/
def Listed (p : Option Phase) : Prop :=
  p = some .registered ∨ p = some .inFsm ∨ p = some .leftFsm

/-- The worker can no longer enter `RunFsm`. -/
def Past (p : Option Phase) : Prop :=
  p = some .leftFsm ∨ p = some .unregistered ∨ p = some .destroyed

/-- A worker that has built its server is in the registry or past its `RunFsm`. -/
theorem listed_or_past {p : Option Phase} (hp : p ≠ none) (hbuilt : p ≠ some .building) :
    Listed p ∨ Past p := by
  cases p with
  | none => exact absurd rfl hp
  | some p => cases p <;> simp_all [Listed, Past]

structure Sound (s : Process) : Prop where
  listed : ∀ w, w ∈ s.activeServers ↔ Listed (s.phase w)
  nodup : s.activeServers.Nodup
  closed : ∀ w, s.cqShutdown w = true → s.shutdownDone w = true
  past : ∀ w, Past (s.phase w) → s.cqShutdown w = true
  closing : ∀ c entry w rest, s.callers c = .closing entry w rest → s.shutdownDone w = true
  tracked : ∀ w ∈ s.activeWorkers, s.phase w ≠ none
  joining : ∀ c rest, s.callers c = .joining rest → ∀ w ∈ rest, s.phase w ≠ none

theorem Sound.setCaller (h : Sound s) {c : CallerId} {pc : Caller}
    (hpc : ∀ entry w rest, pc = .closing entry w rest → s.shutdownDone w = true)
    (hjoin : ∀ rest, pc = .joining rest → ∀ w ∈ rest, s.phase w ≠ none) :
    Sound (s.setCaller c pc) where
  listed := h.listed
  nodup := h.nodup
  closed := h.closed
  past := h.past
  closing d entry w rest hd := by
    by_cases hdc : d = c
    · subst hdc
      rw [setCaller_self] at hd
      exact hpc entry w rest hd
    · rw [setCaller_of_ne s hdc] at hd
      exact h.closing d entry w rest hd
  tracked := h.tracked
  joining d rest hd := by
    by_cases hdc : d = c
    · subst hdc
      rw [setCaller_self] at hd
      exact hjoin rest hd
    · rw [setCaller_of_ne s hdc] at hd
      exact h.joining d rest hd

theorem setPhase_ne_none {u w : WorkerId} {p : Phase} (h : s.phase u ≠ none) :
    (s.setPhase w p).phase u ≠ none := by
  by_cases hu : u = w
  · subst hu
    rw [setPhase_self]
    exact Option.some_ne_none p
  · rw [setPhase_of_ne s hu]
    exact h

theorem Sound.setPhase (h : Sound s) {w : WorkerId} {p : Phase} {servers : List WorkerId}
    (hself : w ∈ servers ↔ Listed (some p))
    (hother : ∀ u, u ≠ w → (u ∈ servers ↔ u ∈ s.activeServers)) (hnodup : servers.Nodup)
    (hpast : Past (some p) → s.cqShutdown w = true) :
    Sound ({ s with activeServers := servers }.setPhase w p) where
  listed u := by
    by_cases hu : u = w
    · subst hu
      rw [setPhase_self]
      exact hself
    · rw [setPhase_of_ne _ hu, ← h.listed u]
      exact hother u hu
  nodup := hnodup
  closed := h.closed
  past u hu := by
    by_cases huw : u = w
    · subst huw
      rw [setPhase_self] at hu
      exact hpast hu
    · rw [setPhase_of_ne _ huw] at hu
      exact h.past u hu
  closing := h.closing
  tracked u hu := setPhase_ne_none (h.tracked u hu)
  joining c rest hc u hu := setPhase_ne_none (h.joining c rest hc u hu)

theorem Sound.markDone (h : Sound s) (w : WorkerId) : Sound (s.markDone w) where
  listed := h.listed
  nodup := h.nodup
  closed u hu := shutdownDone_markDone.mpr (.inr (h.closed u hu))
  past := h.past
  closing c entry u rest hc := shutdownDone_markDone.mpr (.inr (h.closing c entry u rest hc))
  tracked := h.tracked
  joining := h.joining

theorem Sound.shutQueue (h : Sound s) {w : WorkerId} (hw : s.shutdownDone w = true) :
    Sound (s.shutQueue w) where
  listed := h.listed
  nodup := h.nodup
  closed u hu := by
    rcases cqShutdown_shutQueue.mp hu with rfl | hu
    · exact hw
    · exact h.closed u hu
  past u hu := cqShutdown_shutQueue.mpr (.inr (h.past u hu))
  closing := h.closing
  tracked := h.tracked
  joining := h.joining

theorem sound_start : Sound {} where
  listed w := by simp [Listed]
  nodup := List.nodup_nil
  closed _ hw := by cases hw
  past w hw := by simp [Past] at hw
  closing _ _ _ _ hc := by cases hc
  tracked _ hw := by cases hw
  joining _ _ hc := by cases hc

theorem Sound.not_active (h : Sound s) {w : WorkerId} (hw : ¬Listed (s.phase w)) :
    w ∉ s.activeServers := mt (h.listed w).mp hw

theorem Sound.step (h : Sound s) (hstep : s.step a = some t) : Sound t := by
  cases steps_of_step hstep with
  | @create w hw =>
    have hout : w ∉ s.activeServers := h.not_active (by simp [hw, Listed])
    apply h.setPhase
    · simp [hout, Listed]
    · exact fun u _ => Iff.rfl
    · exact h.nodup
    · simp [Past]
  | @track w hw =>
    refine ⟨h.listed, h.nodup, h.closed, h.past, h.closing, fun u hu => ?_, h.joining⟩
    rcases List.mem_append.mp hu with hu | hu
    · exact h.tracked u hu
    · exact List.mem_singleton.mp hu ▸ hw
  | @register w hw =>
    have hout : w ∉ s.activeServers := h.not_active (by simp [hw, Listed])
    apply h.setPhase
    · simp [Listed]
    · intro u hu
      simp [hu]
    · refine List.nodup_append.mpr ⟨h.nodup, List.nodup_singleton w, fun u hu v hv huv => ?_⟩
      rw [List.mem_singleton.mp hv] at huv
      exact hout (huv ▸ hu)
    · simp [Past]
  | @enter w hw =>
    have hin : w ∈ s.activeServers := (h.listed w).mpr (.inl hw)
    apply h.setPhase
    · simp [hin, Listed]
    · exact fun u _ => Iff.rfl
    · exact h.nodup
    · simp [Past]
  | @leave w hw hcq =>
    have hin : w ∈ s.activeServers := (h.listed w).mpr (.inr (.inl hw))
    apply h.setPhase
    · simp [hin, Listed]
    · exact fun u _ => Iff.rfl
    · exact h.nodup
    · exact fun _ => hcq
  | @unregister w hw =>
    apply h.setPhase
    · simp [Listed, h.nodup.mem_erase_iff]
    · exact fun u hu => List.mem_erase_of_ne hu
    · exact h.nodup.erase w
    · exact fun _ => h.past w (.inl hw)
  | @destroy w hw =>
    have hout : w ∉ s.activeServers := h.not_active (by simp [hw, Listed])
    have hmarked := (h.markDone w).shutQueue (shutdownDone_markDone.mpr (.inl rfl))
    apply hmarked.setPhase
    · show w ∈ s.activeServers ↔ _
      simp [hout, Listed]
    · exact fun u _ => Iff.rfl
    · exact h.nodup
    · exact fun _ => cqShutdown_shutQueue.mpr (.inl rfl)
  | snapshot hc => exact h.setCaller (by simp) (by simp)
  | callDestroyed hc hw =>
    have hs : Sound { s with dangling := true } :=
      ⟨h.listed, h.nodup, h.closed, h.past, h.closing, h.tracked, h.joining⟩
    exact hs.setCaller (by simp) (by simp)
  | callAgain hc hdone => exact h.setCaller (by simp) (by simp)
  | @call c entry w rest hc hdone =>
    apply (h.markDone w).setCaller
    · rintro _ _ _ ⟨⟩
      exact shutdownDone_markDone.mpr (.inl rfl)
    · simp
  | close hc => exact (h.shutQueue (h.closing _ _ _ _ hc)).setCaller (by simp) (by simp)
  | swap hc =>
    have hs : Sound { s with activeWorkers := [] } :=
      ⟨h.listed, h.nodup, h.closed, h.past, h.closing, by simp, h.joining⟩
    apply hs.setCaller (by simp)
    rintro _ ⟨⟩
    exact h.tracked
  | watched hc => exact h.setCaller (by simp) (by simp)
  | @join c w rest hc hw =>
    apply h.setCaller (by simp)
    rintro _ ⟨⟩ u hu
    exact h.joining c (w :: rest) hc u (List.mem_cons_of_mem w hu)
  | joined hc => exact h.setCaller (by simp) (by simp)

end Process

end MdtDialoutCollector.Bridge
