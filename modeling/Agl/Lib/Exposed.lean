/-
What others may still do after a step: a state is exposed to a fault when
some run of the actions in `other` from it commits one.

A party that takes a resource away cannot stop the others; whether it was
safe shows later. `not_exposed` gives safety from an invariant of the others'
steps, and `not_exposed_iff` the condition of the step from the two directions.
-/
import Agl.Lib.Machine

namespace Agl.Machine

universe u v

variable {σ : Type u} {α : Type v} {M : Machine σ α} {other : α → Prop} {fault : σ → α → Prop}

/-- Some run of the actions in `other` ends with a faulty one. -/
inductive Exposed (M : Machine σ α) (other : α → Prop) (fault : σ → α → Prop) : σ → Prop
  | now {s a s'} : other a → M.step s a = some s' → fault s a → Exposed M other fault s
  | later {s a s'} : other a → M.step s a = some s' → Exposed M other fault s' → Exposed M other fault s

/-- Where the others keep `P`, and commit no fault under it, there is no exposure. -/
theorem not_exposed {P : σ → Prop} (keep : ∀ s a s', P s → other a → M.step s a = some s' → P s')
    (safe : ∀ s a s', P s → other a → M.step s a = some s' → ¬fault s a) {s} (h : P s) :
    ¬M.Exposed other fault s := by
  intro he
  induction he with
  | now ha hs hf => exact safe _ _ _ h ha hs hf
  | later ha hs _ ih => exact ih (keep _ _ _ h ha hs)

/-- A step is safe exactly under `ok`, when under `ok` it leads to `P` and
otherwise to an exposed state. -/
theorem not_exposed_iff {P : σ → Prop} {ok : Prop} {s' : σ}
    (keep : ∀ s a s', P s → other a → M.step s a = some s' → P s')
    (safe : ∀ s a s', P s → other a → M.step s a = some s' → ¬fault s a) (good : ok → P s')
    (bad : ¬ok → M.Exposed other fault s') : ¬M.Exposed other fault s' ↔ ok := by
  constructor
  · intro h
    by_cases ho : ok
    · exact ho
    · exact absurd (bad ho) h
  · intro ho
    exact not_exposed keep safe (good ho)

end Agl.Machine
