import Mathlib.Data.List.Basic

/-! A mutex that any number of owners share or one owner has to itself, as
`std::shared_mutex`. A call that would block is refused. -/

namespace MdtDialoutCollector.Data

/-- `shared` has the owners of the shared lock; with none the mutex is free. -/
inductive SharedMutex (ι : Type*) where
  | shared (owners : List ι)
  | exclusive

namespace SharedMutex

variable {ι : Type*} [DecidableEq ι] {m m' : SharedMutex ι} {i j : ι}

def lockShared (m : SharedMutex ι) (i : ι) : Option (SharedMutex ι) :=
  match m with
  | .shared owners => if i ∈ owners then none else some (.shared (i :: owners))
  | .exclusive => none

def unlockShared (m : SharedMutex ι) (i : ι) : Option (SharedMutex ι) :=
  match m with
  | .shared owners => if i ∈ owners then some (.shared (owners.erase i)) else none
  | .exclusive => none

omit [DecidableEq ι] in
def lock : SharedMutex ι → Option (SharedMutex ι)
  | .shared [] => some .exclusive
  | .shared (_ :: _) | .exclusive => none

omit [DecidableEq ι] in
def unlock : SharedMutex ι → Option (SharedMutex ι)
  | .exclusive => some (.shared [])
  | .shared _ => none

/-- The owner has the shared lock, once. -/
def SharedBy (m : SharedMutex ι) (i : ι) : Prop :=
  match m with
  | .shared owners => i ∈ owners
  | .exclusive => False

def Proper : SharedMutex ι → Prop
  | .shared owners => owners.Nodup
  | .exclusive => True

omit [DecidableEq ι] in
theorem not_sharedBy_exclusive : ¬(exclusive : SharedMutex ι).SharedBy i := id

theorem lockShared_spec (h : m.lockShared i = some m') :
    m ≠ .exclusive ∧ m' ≠ .exclusive ∧ ¬m.SharedBy i ∧
      (∀ j, m'.SharedBy j ↔ j = i ∨ m.SharedBy j) ∧ (m.Proper → m'.Proper) := by
  cases m with
  | exclusive => cases h
  | shared owners =>
    rw [lockShared] at h
    split_ifs at h with hi
    cases h
    refine ⟨by simp, by simp, hi, fun j => List.mem_cons, fun hnodup => ?_⟩
    exact List.nodup_cons.mpr ⟨hi, hnodup⟩

theorem unlockShared_spec (h : m.unlockShared i = some m') :
    m ≠ .exclusive ∧ m' ≠ .exclusive ∧ m.SharedBy i ∧
      (m.Proper → m'.Proper ∧ ∀ j, m'.SharedBy j ↔ j ≠ i ∧ m.SharedBy j) := by
  cases m with
  | exclusive => cases h
  | shared owners =>
    rw [unlockShared] at h
    split_ifs at h with hi
    cases h
    refine ⟨by simp, by simp, hi, fun hnodup => ⟨?_, fun j => ?_⟩⟩
    · exact List.Nodup.erase i hnodup
    · exact List.Nodup.mem_erase_iff hnodup

omit [DecidableEq ι] in
/-- Whoever has the mutex to himself has it from nobody. -/
theorem lock_spec (h : m.lock = some m') :
    m ≠ .exclusive ∧ m' = .exclusive ∧ ∀ j, ¬m.SharedBy j := by
  match m with
  | .shared [] =>
    cases h
    exact ⟨by simp, rfl, fun j => List.not_mem_nil⟩
  | .shared (_ :: _) => cases h
  | .exclusive => cases h

omit [DecidableEq ι] in
theorem unlock_spec (h : m.unlock = some m') :
    m = .exclusive ∧ m' = .shared [] ∧ ∀ j, ¬m'.SharedBy j := by
  cases m with
  | shared owners => cases h
  | exclusive =>
    cases h
    exact ⟨rfl, rfl, fun j => List.not_mem_nil⟩

end SharedMutex

end MdtDialoutCollector.Data
