import MdtDialoutCollector.Runs.Machine
import Mathlib.Logic.Function.Basic

/-! Channels into one receiver. Each sender has a queue of its own and the receiver takes
from any that is not empty, so that it gets what a sender has sent in the order in which it
was sent, and nothing is lost on the way or comes twice. -/

namespace MdtDialoutCollector.Data

open Runs

structure Channels (ι α : Type*) where
  waiting : ι → List α := fun _ => []
  sent : ι → List α := fun _ => []
  taken : List (ι × α) := []

namespace Channels

variable {ι α : Type*} [DecidableEq ι]

inductive Action (ι α : Type*) where
  | send (i : ι) (x : α)
  | take (i : ι)

def step (c : Channels ι α) : Action ι α → Option (Channels ι α)
  | .send i x => some { c with
      waiting := Function.update c.waiting i (c.waiting i ++ [x])
      sent := Function.update c.sent i (c.sent i ++ [x]) }
  | .take i =>
    match c.waiting i with
    | [] => none
    | x :: xs => some { c with
        waiting := Function.update c.waiting i xs
        taken := c.taken ++ [(i, x)] }

/-- What the receiver has taken from one sender. -/
def takenFrom (i : ι) (taken : List (ι × α)) : List α :=
  (taken.filter fun e => e.1 = i).map Prod.snd

theorem takenFrom_append_self (i : ι) (taken : List (ι × α)) (x : α) :
    takenFrom i (taken ++ [(i, x)]) = takenFrom i taken ++ [x] := by
  simp [takenFrom]

theorem takenFrom_append_of_ne {i j : ι} (h : j ≠ i) (taken : List (ι × α)) (x : α) :
    takenFrom i (taken ++ [(j, x)]) = takenFrom i taken := by
  simp [takenFrom, h]

/-- What a sender has sent has been taken or waits, in the order in which it was sent. -/
def Conserved (c : Channels ι α) : Prop := ∀ i, c.sent i = takenFrom i c.taken ++ c.waiting i

theorem Conserved.step {c d : Channels ι α} {a : Action ι α} (hc : c.Conserved)
    (h : c.step a = some d) : d.Conserved := by
  intro j
  have hj := hc j
  cases a with
  | send i x =>
    rw [Channels.step, Option.some.injEq] at h
    subst h
    by_cases hi : j = i
    · subst hi
      simp only [Function.update_self, hj, List.append_assoc]
    · simp only [Function.update_of_ne hi, hj]
  | take i =>
    rw [Channels.step] at h
    cases hw : c.waiting i with
    | nil =>
      rw [hw] at h
      cases h
    | cons x xs =>
      simp only [hw, Option.some.injEq] at h
      subst h
      by_cases hi : j = i
      · subst hi
        simp only [hj, hw, Function.update_self, takenFrom_append_self, List.append_assoc,
          List.singleton_append]
      · simp only [hj, Function.update_of_ne hi, takenFrom_append_of_ne (Ne.symm hi)]

end Channels

def channels (ι α : Type*) [DecidableEq ι] : Machine (Channels ι α) (Channels.Action ι α) where
  start := {}
  step := Channels.step

theorem Channels.conserved_of_reachable {ι α : Type*} [DecidableEq ι] {c : Channels ι α}
    (h : (channels ι α).Reachable c) : c.Conserved :=
  (channels ι α).reachable_invariant (fun _ => rfl) (fun _ _ _ hc hstep => hc.step hstep) h

end MdtDialoutCollector.Data
