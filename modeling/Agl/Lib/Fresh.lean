/-
Handing out numbers: the smallest one from a start on that is not in use.
It is computed by a search through one more candidate than there are
numbers in use.
-/
import Mathlib.Data.Finset.Card

namespace Agl

/-- The smallest number from `start` on that is not used. -/
def smallestFree (used : Finset Nat) (start : Nat) : Nat :=
  ((List.range' start (used.card + 1)).find? fun i => decide (i ∉ used)).getD 0

/-- Among one more candidate than there are numbers in use, one is free. -/
theorem exists_free (used : Finset Nat) (start : Nat) : ∃ i ∈ List.range' start (used.card + 1), i ∉ used := by
  by_contra h
  push Not at h
  have hsub : (List.range' start (used.card + 1)).toFinset ⊆ used := fun i hi => h i (List.mem_toFinset.mp hi)
  have hcard := Finset.card_le_card hsub
  rw [List.toFinset_card_of_nodup List.nodup_range', List.length_range'] at hcard
  omega

theorem smallestFree_find (used : Finset Nat) (start : Nat) :
    (List.range' start (used.card + 1)).find? (fun i => decide (i ∉ used)) = some (smallestFree used start) := by
  obtain ⟨i, hi, hfree⟩ := exists_free used start
  have hsome : ((List.range' start (used.card + 1)).find? fun i => decide (i ∉ used)).isSome :=
    List.find?_isSome.mpr ⟨i, hi, by simpa using hfree⟩
  obtain ⟨j, hj⟩ := Option.isSome_iff_exists.mp hsome
  simp only [smallestFree, hj, Option.getD_some]

theorem smallestFree_not_mem (used : Finset Nat) (start : Nat) : smallestFree used start ∉ used := by
  simpa using List.find?_some (smallestFree_find used start)

end Agl
