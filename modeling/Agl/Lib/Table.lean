/-
Finite tables (`AList` with values of one type): what an insertion or an
erasure leaves under each key, and properties of all entries.
-/
import Mathlib.Data.List.AList

namespace Agl

universe u v

/-- A finite table. -/
abbrev Table (κ : Type u) (β : Type v) := AList fun _ : κ => β

namespace Table

variable {κ : Type u} {β : Type v} [DecidableEq κ] {t : Table κ β} {k k' : κ} {b b' : β} {P : κ → β → Prop}

theorem lookup_insert_some :
    (AList.insert k b t).lookup k' = some b' ↔ k' = k ∧ b = b' ∨ k' ≠ k ∧ t.lookup k' = some b' := by
  by_cases hk : k' = k
  · subst k'
    simp
  · simp [hk]

theorem lookup_erase_some : (AList.erase k t).lookup k' = some b' ↔ k' ≠ k ∧ t.lookup k' = some b' := by
  by_cases hk : k' = k
  · subst k'
    simp
  · simp [hk]

/-- Every entry has the property. -/
def All (P : κ → β → Prop) (t : Table κ β) : Prop := ∀ k b, t.lookup k = some b → P k b

theorem All.insert (h : All P t) (hb : P k b) : All P (AList.insert k b t) := by
  intro k' b' hl
  obtain ⟨rfl, rfl⟩ | ⟨-, hl⟩ := lookup_insert_some.mp hl
  · exact hb
  · exact h k' b' hl

theorem All.erase (h : All P t) : All P (AList.erase k t) := fun k' b' hl => h k' b' (lookup_erase_some.mp hl).2

end Table

end Agl
