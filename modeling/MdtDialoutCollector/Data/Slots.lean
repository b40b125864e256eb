import Mathlib.Data.Multiset.Filter

/-! A multiset of keyed items, read one key at a time. -/

namespace MdtDialoutCollector.Data

variable {ι δ ε : Type*} [DecidableEq ι]

/-- The items filed under one key. -/
def slot (d : Multiset (ι × δ)) (i : ι) : Multiset δ := (d.filter fun x => x.1 = i).map Prod.snd

@[simp] theorem slot_zero (i : ι) : slot (0 : Multiset (ι × δ)) i = 0 := rfl

theorem slot_cons_self (i : ι) (y : δ) (d : Multiset (ι × δ)) :
    slot ((i, y) ::ₘ d) i = y ::ₘ slot d i := by
  rw [slot, Multiset.filter_cons_of_pos (p := fun x : ι × δ => x.1 = i) _ rfl, Multiset.map_cons]
  rfl

theorem slot_cons_of_ne {i j : ι} (h : j ≠ i) (y : δ) (d : Multiset (ι × δ)) :
    slot ((j, y) ::ₘ d) i = slot d i := by
  rw [slot, Multiset.filter_cons_of_neg (p := fun x : ι × δ => x.1 = i) _ h]
  rfl

theorem slot_add (d e : Multiset (ι × δ)) (i : ι) : slot (d + e) i = slot d i + slot e i := by
  simp only [slot, Multiset.filter_add, Multiset.map_add]

theorem mem_slot {d : Multiset (ι × δ)} {i : ι} {y : δ} : y ∈ slot d i ↔ (i, y) ∈ d := by
  simp [slot]

theorem slot_map (f : δ → ε) (d : Multiset (ι × δ)) (i : ι) :
    slot (d.map (Prod.map id f)) i = (slot d i).map f := by
  induction d using Multiset.induction with
  | empty => rfl
  | cons x d ih =>
    obtain ⟨j, y⟩ := x
    rw [Multiset.map_cons, show Prod.map id f (j, y) = (j, f y) from rfl]
    by_cases hj : j = i
    · subst hj
      rw [slot_cons_self, slot_cons_self, ih, Multiset.map_cons]
    · rw [slot_cons_of_ne hj, slot_cons_of_ne hj, ih]

/-- Taking the only item of a slot out leaves the slot empty. -/
theorem slot_eq_zero_of_cons {d : Multiset (ι × δ)} {i : ι} {y z : δ}
    (h : slot ((i, y) ::ₘ d) i = {z}) : y = z ∧ slot d i = 0 := by
  rw [slot_cons_self, ← Multiset.cons_zero] at h
  have hy : y = z := by
    have hmem : y ∈ z ::ₘ (0 : Multiset δ) := h ▸ Multiset.mem_cons_self y _
    simpa using hmem
  subst hy
  exact ⟨rfl, (Multiset.cons_inj_right y).mp h⟩

end MdtDialoutCollector.Data
