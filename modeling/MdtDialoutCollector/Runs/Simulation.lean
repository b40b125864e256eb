import MdtDialoutCollector.Runs.Machine

/-! One machine standing for another. A step of the first amounts to some steps of the
second, none where it only prepares them, and a relation between the two states is kept; so
a whole run of the first amounts to a run of the second, put together step by step. -/

namespace MdtDialoutCollector.Runs

variable {σ τ α β : Type*}

/-- `image` gives the steps that a step taken in a state amounts to. -/
structure Simulation (M : Machine σ α) (N : Machine τ β) where
  rel : σ → τ → Prop
  image : σ → α → List β
  start : rel M.start N.start
  step : ∀ {s t a s'}, rel s t → M.step s a = some s' →
    ∃ t', N.run (image s a) t = some t' ∧ rel s' t'

namespace Simulation

variable {M : Machine σ α} {N : Machine τ β} (S : Simulation M N)

/-- What a run amounts to. -/
def images : List α → σ → List β
  | [], _ => []
  | a :: as, s => S.image s a ++ (M.step s a).elim [] (images as)

theorem images_cons_of_step {a : α} {s s' : σ} (h : M.step s a = some s') (as : List α) :
    S.images (a :: as) s = S.image s a ++ S.images as s' := by
  rw [images, h, Option.elim_some]

theorem run {as : List α} {s s' : σ} {t : τ} (hrel : S.rel s t) (h : M.run as s = some s') :
    ∃ t', N.run (S.images as s) t = some t' ∧ S.rel s' t' := by
  induction as generalizing s t with
  | nil =>
    simp only [Machine.run_nil, Option.some.injEq] at h
    exact ⟨t, rfl, h ▸ hrel⟩
  | cons a as ih =>
    rw [Machine.run_cons, Option.bind_eq_some_iff] at h
    obtain ⟨u, hu, h⟩ := h
    obtain ⟨v, hv, hrel⟩ := S.step hrel hu
    obtain ⟨t', ht', hrel⟩ := ih hrel h
    refine ⟨t', ?_, hrel⟩
    rw [S.images_cons_of_step hu, Machine.run_append, hv, Option.bind_some, ht']

/-- What is so of every state the second machine reaches is so of a state that stands for the
first machine's. -/
theorem reachable {s : σ} (h : M.Reachable s) : ∃ t, N.Reachable t ∧ S.rel s t := by
  obtain ⟨as, has⟩ := h
  obtain ⟨t, ht, hrel⟩ := S.run S.start has
  exact ⟨t, ⟨_, ht⟩, hrel⟩

end Simulation

end MdtDialoutCollector.Runs
