import Mathlib.Data.List.Basic
import Mathlib.Data.List.Pairwise
import Mathlib.Order.Lattice

/-! Finite maps as association lists kept in key order, the way `std::map` keeps
them: assignment through `operator[]` puts an entry at its place or overwrites the
one there, and iteration runs in key order. The lookup rules need no order; the
order makes equal maps equal lists. -/

namespace MdtDialoutCollector.Data

namespace Assoc

variable {κ β : Type*} [LinearOrder κ]

/-- `m.find(k)`. -/
def get? (k : κ) : List (κ × β) → Option β
  | [] => none
  | (j, y) :: m => if j = k then some y else get? k m

/-- `m[k] = x`. -/
def set (k : κ) (x : β) : List (κ × β) → List (κ × β)
  | [] => [(k, x)]
  | (j, y) :: m =>
    if k < j then (k, x) :: (j, y) :: m
    else if j = k then (k, x) :: m
    else (j, y) :: set k x m

/-- Keys in strictly increasing order. -/
def Sorted (m : List (κ × β)) : Prop := m.Pairwise fun a b => a.1 < b.1

@[simp] theorem get?_nil (k : κ) : get? k ([] : List (κ × β)) = none := rfl

theorem get?_cons (k j : κ) (y : β) (m : List (κ × β)) :
    get? k ((j, y) :: m) = if j = k then some y else get? k m := rfl

@[simp] theorem get?_set_self (k : κ) (x : β) (m : List (κ × β)) : get? k (set k x m) = some x := by
  induction m with
  | nil => simp [set, get?]
  | cons e m ih =>
    obtain ⟨j, y⟩ := e
    simp only [set]
    split_ifs with h₁ h₂
    · simp [get?]
    · simp [get?]
    · simp [get?, h₂, ih]

@[simp] theorem get?_set_of_ne {j k : κ} (h : j ≠ k) (x : β) (m : List (κ × β)) :
    get? j (set k x m) = get? j m := by
  induction m with
  | nil => simp [set, get?, h.symm]
  | cons e m ih =>
    obtain ⟨i, y⟩ := e
    simp only [set]
    split_ifs with h₁ h₂
    · simp [get?, h.symm]
    · subst h₂
      simp [get?, h.symm]
    · simp [get?, ih]

theorem mem_set_self (k : κ) (x : β) (m : List (κ × β)) : (k, x) ∈ set k x m := by
  induction m with
  | nil => simp [set]
  | cons e m ih =>
    obtain ⟨j, y⟩ := e
    simp only [set]
    split_ifs <;> simp [ih]

theorem mem_of_mem_set {k : κ} {x : β} {m : List (κ × β)} {e : κ × β} (h : e ∈ set k x m) :
    e = (k, x) ∨ e ∈ m := by
  induction m with
  | nil => simpa [set] using h
  | cons e' m ih =>
    obtain ⟨j, y⟩ := e'
    simp only [set] at h
    split_ifs at h with h₁ h₂
    · simpa using h
    · rcases List.mem_cons.mp h with h | h
      · exact .inl h
      · exact .inr (List.mem_cons_of_mem _ h)
    · rcases List.mem_cons.mp h with h | h
      · exact .inr (h ▸ List.mem_cons_self)
      · rcases ih h with h | h
        · exact .inl h
        · exact .inr (List.mem_cons_of_mem _ h)

theorem mem_of_get? {k : κ} {x : β} {m : List (κ × β)} (h : get? k m = some x) : (k, x) ∈ m := by
  induction m with
  | nil => simp at h
  | cons e m ih =>
    obtain ⟨j, y⟩ := e
    rw [get?_cons] at h
    split_ifs at h with hj
    · simp only [Option.some.injEq] at h
      subst hj h
      exact List.mem_cons_self
    · exact List.mem_cons_of_mem _ (ih h)

theorem sorted_set {m : List (κ × β)} (h : Sorted m) (k : κ) (x : β) : Sorted (set k x m) := by
  induction m with
  | nil => simp [set, Sorted]
  | cons e m ih =>
    obtain ⟨j, y⟩ := e
    obtain ⟨hj, hm⟩ := List.pairwise_cons.mp h
    simp only [set]
    split_ifs with h₁ h₂
    · refine List.pairwise_cons.mpr ⟨fun e he => ?_, h⟩
      rcases List.mem_cons.mp he with rfl | he
      · exact h₁
      · exact h₁.trans (hj e he)
    · subst h₂
      exact List.pairwise_cons.mpr ⟨hj, hm⟩
    · refine List.pairwise_cons.mpr ⟨fun e he => ?_, ih hm⟩
      rcases mem_of_mem_set he with rfl | he
      · exact lt_of_le_of_ne (not_lt.mp h₁) h₂
      · exact hj e he

/-- Entries assigned in increasing key order are appended. -/
theorem set_eq_append {m : List (κ × β)} {k : κ} (h : ∀ e ∈ m, e.1 < k) (x : β) :
    set k x m = m ++ [(k, x)] := by
  induction m with
  | nil => rfl
  | cons e m ih =>
    obtain ⟨j, y⟩ := e
    have hj : j < k := h (j, y) List.mem_cons_self
    simp only [set, if_neg hj.asymm, if_neg hj.ne, List.cons_append, List.cons.injEq, true_and]
    exact ih fun e he => h e (List.mem_cons_of_mem _ he)

theorem get?_eq_none_of_lt {k : κ} {m : List (κ × β)} (h : ∀ e ∈ m, k < e.1) :
    get? k m = none := by
  induction m with
  | nil => rfl
  | cons e m ih =>
    obtain ⟨j, y⟩ := e
    obtain ⟨hj, hm⟩ := List.forall_mem_cons.mp h
    rw [get?_cons, if_neg (ne_of_gt hj)]
    exact ih hm

/-- The first entry of a sorted map has the least of its keys. -/
theorem head_le {e : κ × β} {m : List (κ × β)} (hm : Sorted (e :: m)) {k : κ} {x : β}
    (h : get? k (e :: m) = some x) : e.1 ≤ k := by
  by_contra hlt
  rw [not_le] at hlt
  have hall : ∀ e' ∈ e :: m, k < e'.1 :=
    List.forall_mem_cons.mpr ⟨hlt, fun e' he' => hlt.trans ((List.pairwise_cons.mp hm).1 e' he')⟩
  rw [get?_eq_none_of_lt hall] at h
  cases h

/-- Sorted maps with the same lookups are the same list. -/
theorem ext {m m' : List (κ × β)} (hm : Sorted m) (hm' : Sorted m')
    (h : ∀ k, get? k m = get? k m') : m = m' := by
  induction m generalizing m' with
  | nil =>
    cases m' with
    | nil => rfl
    | cons e m' =>
      have hhead := h e.1
      rw [get?_nil, show e :: m' = (e.1, e.2) :: m' from rfl, get?_cons, if_pos rfl] at hhead
      cases hhead
  | cons e m ih =>
    obtain ⟨j, y⟩ := e
    obtain ⟨hj, htail⟩ := List.pairwise_cons.mp hm
    cases m' with
    | nil =>
      have hhead := h j
      rw [get?_nil, get?_cons, if_pos rfl] at hhead
      cases hhead
    | cons e' m' =>
      obtain ⟨j', y'⟩ := e'
      obtain ⟨hj', htail'⟩ := List.pairwise_cons.mp hm'
      have hfirst : get? j ((j, y) :: m) = some y := by rw [get?_cons, if_pos rfl]
      have hfirst' : get? j' ((j', y') :: m') = some y' := by rw [get?_cons, if_pos rfl]
      have hkey : j = j' :=
        le_antisymm (head_le hm ((h j').trans hfirst')) (head_le hm' ((h j).symm.trans hfirst))
      subst hkey
      have hval := h j
      rw [get?_cons, get?_cons, if_pos rfl, if_pos rfl, Option.some.injEq] at hval
      subst hval
      congr 1
      refine ih htail htail' fun k => ?_
      by_cases hk : j = k
      · subst hk
        rw [get?_eq_none_of_lt hj, get?_eq_none_of_lt hj']
      · have hk' := h k
        rwa [get?_cons, get?_cons, if_neg hk, if_neg hk] at hk'

/-- Assigning what is there changes nothing. -/
theorem set_eq_self {k : κ} {x : β} {m : List (κ × β)} (hm : Sorted m) (h : get? k m = some x) :
    set k x m = m := by
  refine ext (sorted_set hm k x) hm fun i => ?_
  by_cases hi : i = k
  · subst hi
    rw [get?_set_self, h]
  · exact get?_set_of_ne hi x m

/-- Assignments to different keys commute. -/
theorem set_comm {j k : κ} (hjk : j ≠ k) (x y : β) {m : List (κ × β)} (hm : Sorted m) :
    set j x (set k y m) = set k y (set j x m) := by
  refine ext (sorted_set (sorted_set hm k y) j x) (sorted_set (sorted_set hm j x) k y) fun i => ?_
  by_cases hi : i = j
  · subst hi
    rw [get?_set_self, get?_set_of_ne hjk, get?_set_self]
  · by_cases hi' : i = k
    · subst hi'
      rw [get?_set_of_ne hi, get?_set_self, get?_set_self]
    · rw [get?_set_of_ne hi, get?_set_of_ne hi', get?_set_of_ne hi', get?_set_of_ne hi]

end Assoc

end MdtDialoutCollector.Data
