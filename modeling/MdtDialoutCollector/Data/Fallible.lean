import Mathlib.Data.List.Basic
import Mathlib.Tactic.SplitIfs
import Mathlib.Tactic.Tauto

/-! Computations that may fail, run one after the other. Some failures are ordinary, part of
what the computation is for; any other one is a crash. A computation settles when its
three ends, a crash, an ordinary failure and a value, are told apart by two conditions on
its input, and a chain of such computations settles again. -/

namespace MdtDialoutCollector.Data

universe u

variable {ε : Type*} {α β : Type u}

theorem bind_eq_ok {x : Except ε α} {f : α → Except ε β} {b : β} :
    (x >>= f) = .ok b ↔ ∃ a, x = .ok a ∧ f a = .ok b := by
  cases x with
  | error e => simp [bind, Except.bind]
  | ok a => simp [bind, Except.bind]

theorem ok_bind (a : α) (f : α → Except ε β) : (Except.ok a >>= f) = f a := rfl

theorem error_bind (e : ε) (f : α → Except ε β) : (Except.error e >>= f) = .error e := rfl

/-- The computation comes back with a value. -/
def Returns (x : Except ε α) : Prop := ∃ a, x = .ok a

theorem returns_ok (a : α) : Returns (.ok a : Except ε α) := ⟨a, rfl⟩

theorem returns_bind_iff {x : Except ε α} {f : α → Except ε β} :
    Returns (x >>= f) ↔ ∃ a, x = .ok a ∧ Returns (f a) := by
  simp only [Returns, bind_eq_ok]
  constructor
  · rintro ⟨b, a, ha, hb⟩
    exact ⟨a, ha, b, hb⟩
  · rintro ⟨a, ha, b, hb⟩
    exact ⟨b, a, ha, hb⟩

theorem Returns.bind {x : Except ε α} {f : α → Except ε β} (hx : Returns x)
    (hf : ∀ a, x = .ok a → Returns (f a)) : Returns (x >>= f) := by
  obtain ⟨a, ha⟩ := hx
  exact returns_bind_iff.mpr ⟨a, ha, hf a ha⟩

/-- The computation crashes where `crash` holds; elsewhere it returns `a` or fails in the
ordinary way, by whether `accept` holds. -/
structure Settles (ordinary : ε → Prop) (x : Except ε α) (crash accept : Prop) (a : α) : Prop where
  crashes : crash → ∃ e, x = .error e ∧ ¬ordinary e
  refuses : ¬crash → ¬accept → ∃ e, x = .error e ∧ ordinary e
  accepts : ¬crash → accept → x = .ok a

namespace Settles

variable {ordinary : ε → Prop} {x y : Except ε α} {crash crash' accept accept' : Prop} {a a' b : α}

theorem ok (a : α) : Settles ordinary (.ok a) False True a where
  crashes h := h.elim
  refuses _ h := absurd trivial h
  accepts _ _ := rfl

theorem error {e : ε} (he : ordinary e) (a : α) : Settles ordinary (.error e) False False a where
  crashes h := h.elim
  refuses _ _ := ⟨e, rfl, he⟩
  accepts _ h := h.elim

theorem of_crash {e : ε} (he : ¬ordinary e) (a : α) : Settles ordinary (.error e) True False a where
  crashes _ := ⟨e, rfl, he⟩
  refuses h := absurd trivial h
  accepts _ h := h.elim

theorem congr (h : Settles ordinary x crash accept a) (hcrash : crash' ↔ crash)
    (haccept : ¬crash → (accept' ↔ accept)) (ha : accept → a = a') :
    Settles ordinary x crash' accept' a' where
  crashes hc := h.crashes (hcrash.mp hc)
  refuses hc hn := by
    have hc' : ¬crash := fun c => hc (hcrash.mpr c)
    exact h.refuses hc' fun ha => hn ((haccept hc').mpr ha)
  accepts hc hacc := by
    have hc' : ¬crash := fun c => hc (hcrash.mpr c)
    have hacc' := (haccept hc').mp hacc
    rw [← ha hacc']
    exact h.accepts hc' hacc'

/-- One step and what comes after its value. -/
theorem bind {f : α → Except ε β} {b : β} (hx : Settles ordinary x crash accept a)
    (hf : accept → Settles ordinary (f a) crash' accept' b) :
    Settles ordinary (x >>= f) (crash ∨ accept ∧ crash') (accept ∧ accept') b where
  crashes h := by
    by_cases hc : crash
    · obtain ⟨e, rfl, he⟩ := hx.crashes hc
      exact ⟨e, rfl, he⟩
    · obtain ⟨hacc, hc'⟩ := h.resolve_left hc
      rw [hx.accepts hc hacc]
      exact (hf hacc).crashes hc'
  refuses h hn := by
    have hc : ¬crash := fun hc => h (.inl hc)
    by_cases hacc : accept
    · rw [hx.accepts hc hacc]
      exact (hf hacc).refuses (fun hc' => h (.inr ⟨hacc, hc'⟩)) fun hacc' => hn ⟨hacc, hacc'⟩
    · obtain ⟨e, rfl, he⟩ := hx.refuses hc hacc
      exact ⟨e, rfl, he⟩
  accepts h hacc := by
    have hc : ¬crash := fun hc => h (.inl hc)
    rw [hx.accepts hc hacc.1]
    exact (hf hacc.1).accepts (fun hc' => h (.inr ⟨hacc.1, hc'⟩)) hacc.2

theorem ite {c : Prop} [Decidable c] (hx : c → Settles ordinary x crash accept a)
    (hy : ¬c → Settles ordinary y crash' accept' a') :
    Settles ordinary (if c then x else y) (c ∧ crash ∨ ¬c ∧ crash') (if c then accept else accept')
      (if c then a else a') := by
  by_cases hc : c
  · rw [if_pos hc, if_pos hc, if_pos hc]
    refine (hx hc).congr ?_ (fun _ => Iff.rfl) fun _ => rfl
    simp [hc]
  · rw [if_neg hc, if_neg hc, if_neg hc]
    refine (hy hc).congr ?_ (fun _ => Iff.rfl) fun _ => rfl
    simp [hc]

theorem eq_ok_iff (h : Settles ordinary x crash accept a) :
    x = .ok b ↔ ¬crash ∧ accept ∧ b = a := by
  constructor
  · intro hx
    have hc : ¬crash := by
      intro hc
      obtain ⟨e, he, -⟩ := h.crashes hc
      rw [he] at hx
      cases hx
    have hacc : accept := by
      by_contra hn
      obtain ⟨e, he, -⟩ := h.refuses hc hn
      rw [he] at hx
      cases hx
    rw [h.accepts hc hacc] at hx
    cases hx
    exact ⟨hc, hacc, rfl⟩
  · rintro ⟨hc, hacc, rfl⟩
    exact h.accepts hc hacc

/-- A loop of steps that never crash, each from where the steps before it have led. -/
theorem foldlM {γ : Type*} {f : β → γ → Except ε β} {g : β → γ → β} {accept : γ → Prop}
    (I : β → Prop) (xs : List γ) (hstep : ∀ b, I b → ∀ c ∈ xs,
      Settles ordinary (f b c) False (accept c) (g b c) ∧ I (g b c)) {b : β} (hb : I b) :
    Settles ordinary (xs.foldlM f b) False (∀ c ∈ xs, accept c) (xs.foldl g b) := by
  induction xs generalizing b with
  | nil => exact (ok b).congr Iff.rfl (by simp) fun _ => rfl
  | cons c xs ih =>
    rw [List.foldlM_cons, List.foldl_cons]
    have hc := hstep b hb c List.mem_cons_self
    have hxs := ih (fun b hb d hd => hstep b hb d (List.mem_cons_of_mem c hd)) hc.2
    exact (hc.1.bind fun _ => hxs).congr (by simp) (by simp) fun _ => rfl

end Settles

end MdtDialoutCollector.Data
