import Mathlib.Algebra.BigOperators.Group.Finset.Basic
import Mathlib.Algebra.Order.BigOperators.Group.Finset

/-! A system of finitely many parts of which one changes at a time. What is left to do in the
system is what is left to do in its parts, so that a part that gets on brings all of it on. -/

namespace MdtDialoutCollector.Data

variable {ι β : Type*} [Fintype ι] [DecidableEq ι]

theorem sum_update_lt (cost : β → ℕ) (parts : ι → β) {i : ι} {x : β} (h : cost x < cost (parts i)) :
    ∑ j, cost (Function.update parts i x j) < ∑ j, cost (parts j) := by
  apply Finset.sum_lt_sum
  · intro j _
    by_cases hj : j = i
    · rw [hj, Function.update_self]
      exact h.le
    · rw [Function.update_of_ne hj]
  · refine ⟨i, Finset.mem_univ i, ?_⟩
    rw [Function.update_self]
    exact h

end MdtDialoutCollector.Data
