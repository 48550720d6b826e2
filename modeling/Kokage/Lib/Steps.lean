/-
  Kokage.Lib.Steps — machines given by a step function, and what their runs preserve.

  `step s a` is the state after action `a`, or nothing when `a` cannot happen in `s`.
  `Reach step s₀ s` says that some run from `s₀` leads to `s`. A condition on the steps
  of a run is put into the machine: `within ok step` makes only the steps that meet `ok`.
-/

import Mathlib.Logic.Basic

namespace Kokage.Lib

variable {σ α : Type}

inductive Reach (step : σ → α → Option σ) (s₀ : σ) : σ → Prop
  | start : Reach step s₀ s₀
  | next {s s' : σ} {a : α} : Reach step s₀ s → step s a = some s' → Reach step s₀ s'

/-- What holds at the start and is kept by every step holds wherever a run leads. -/
theorem Reach.invariant {step : σ → α → Option σ} {s₀ s : σ} {I : σ → Prop} (h0 : I s₀)
    (hstep : ∀ s a s', I s → step s a = some s' → I s') (h : Reach step s₀ s) : I s := by
  induction h with
  | start => exact h0
  | next _ hs ih => exact hstep _ _ _ ih hs

theorem Reach.trans {step : σ → α → Option σ} {s₀ s s' : σ} (h : Reach step s₀ s) (h' : Reach step s s') :
    Reach step s₀ s' := by
  induction h' with
  | start => exact h
  | next _ hs ih => exact .next ih hs

/-! ## Runs given by their actions -/

def replay (step : σ → α → Option σ) : σ → List α → Option σ
  | s, [] => some s
  | s, a :: as => (step s a).bind fun s' => replay step s' as

theorem Reach.of_replay {step : σ → α → Option σ} {s₀ s : σ} {as : List α} (h : replay step s₀ as = some s) :
    Reach step s₀ s := by
  induction as generalizing s₀ with
  | nil =>
    cases h
    exact .start
  | cons a as ih =>
    obtain ⟨s', hs, h⟩ := Option.bind_eq_some_iff.mp h
    exact (Reach.next .start hs).trans (ih h)

/-! ## Conditions on the steps of a run -/

def within (ok : σ → α → Prop) [∀ s a, Decidable (ok s a)] (step : σ → α → Option σ) (s : σ) (a : α) : Option σ :=
  if ok s a then step s a else none

variable {ok : σ → α → Prop} [∀ s a, Decidable (ok s a)] {step : σ → α → Option σ}

theorem within_eq_some {s s' : σ} {a : α} : within ok step s a = some s' ↔ ok s a ∧ step s a = some s' := by
  unfold within
  split <;> simp_all

theorem Reach.of_within {s₀ s : σ} (h : Reach (within ok step) s₀ s) : Reach step s₀ s := by
  induction h with
  | start => exact .start
  | next _ hs ih => exact .next ih (within_eq_some.mp hs).2

end Kokage.Lib
