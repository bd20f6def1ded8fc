/-
Going from one point to another in equal steps.

`Ramp n x d t` says that `n` steps of `d` lead from `x` to `t`. The way is
a segment, so it never leaves a convex set that holds both ends.
-/
import Mathlib.Analysis.Convex.Basic
import Mathlib.Tactic.Positivity

namespace Agl

universe u v

variable {E : Type v} [AddCommGroup E] {x d t : E} {n : ℕ}

/-- From `x` it is `n` steps of `d` to `t`. -/
def Ramp (n : ℕ) (x d t : E) : Prop := x + n • d = t

namespace Ramp

@[simp] theorem zero : Ramp 0 x d t ↔ x = t := by
  simp [Ramp]

theorem succ : Ramp (n + 1) x d t ↔ Ramp n (x + d) d t := by
  unfold Ramp
  rw [succ_nsmul', add_assoc]

section

variable {𝕜 : Type u} [Field 𝕜] [LinearOrder 𝕜] [IsStrictOrderedRing 𝕜] [Module 𝕜 E]

/-- Where the way is divided into equal steps. -/
theorem of_div (hn : n ≠ 0) : Ramp n x ((n : 𝕜)⁻¹ • (t - x)) t := by
  have hcast : (n : 𝕜) ≠ 0 := Nat.cast_ne_zero.mpr hn
  unfold Ramp
  rw [← Nat.cast_smul_eq_nsmul 𝕜, smul_smul, mul_inv_cancel₀ hcast, one_smul, add_sub_cancel]

theorem step_eq (h : Ramp (n + 1) x d t) : d = ((n + 1 : ℕ) : 𝕜)⁻¹ • (t - x) := by
  have hcast : ((n + 1 : ℕ) : 𝕜) ≠ 0 := Nat.cast_ne_zero.mpr (Nat.succ_ne_zero n)
  have hway : t - x = (n + 1) • d := sub_eq_of_eq_add' h.symm
  rw [hway, ← Nat.cast_smul_eq_nsmul 𝕜 (n + 1) d, smul_smul, inv_mul_cancel₀ hcast, one_smul]

/-- A step stays between the ends. -/
theorem step_mem {K : Set E} (hK : Convex 𝕜 K) (h : Ramp (n + 1) x d t) (hx : x ∈ K) (ht : t ∈ K) : x + d ∈ K := by
  have hone : (1 : 𝕜) ≤ ((n + 1 : ℕ) : 𝕜) := Nat.one_le_cast.mpr (Nat.succ_pos n)
  have hd : d = ((n + 1 : ℕ) : 𝕜)⁻¹ • (t - x) := h.step_eq
  rw [hd]
  exact hK.add_smul_sub_mem hx ht ⟨by positivity, inv_le_one_of_one_le₀ hone⟩

end

end Ramp

end Agl
