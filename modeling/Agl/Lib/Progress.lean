/-
What every run of a transition system comes to.

`Settles may goal s`: with only the steps in `may`, every run from `s`
reaches `goal`, whichever of the enabled steps is taken each time; none goes
on for ever, and none stops short of it. A rank that every such step lowers
gives it, when a state without one is in `goal` (`settles_of_rank`).
-/
import Mathlib.Data.Prod.Lex
import Agl.Lib.Machine

namespace Agl.Machine

universe u v w

variable {σ : Type u} {α : Type v} {M : Machine σ α} {may : σ → α → Prop} {goal : σ → Prop}

/-- Every run of the steps in `may` ends up in `goal`. -/
inductive Settles (M : Machine σ α) (may : σ → α → Prop) (goal : σ → Prop) : σ → Prop
  | done {s} : goal s → Settles M may goal s
  | step {s} : (∃ a s', may s a ∧ M.step s a = some s') →
      (∀ a s', may s a → M.step s a = some s' → Settles M may goal s') → Settles M may goal s

/-- The steps keep `P` and lower the rank; where there is none, the goal is reached. -/
theorem settles_of_rank {β : Type w} [LT β] [WellFoundedLT β] {P : σ → Prop} (rank : σ → β)
    (step : ∀ s a s', P s → may s a → M.step s a = some s' → P s' ∧ rank s' < rank s)
    (rest : ∀ s, P s → (∀ a s', may s a → M.step s a ≠ some s') → goal s) {s} (h : P s) : M.Settles may goal s := by
  induction hr : rank s using WellFoundedLT.induction generalizing s with
  | ind n ih =>
    by_cases hex : ∃ a s', may s a ∧ M.step s a = some s'
    · refine .step hex fun a s' ha hs => ?_
      obtain ⟨hp, hlt⟩ := step s a s' h ha hs
      exact ih (rank s') (hr ▸ hlt) hp rfl
    · exact .done (rest s h fun a s' ha hs => hex ⟨a, s', ha, hs⟩)

end Agl.Machine
