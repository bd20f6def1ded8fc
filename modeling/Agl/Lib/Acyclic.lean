/-
Recursion along the edges of a finite graph, without a memory of where it
has been: it ends exactly when no cycle can be reached.

A recursive function is given by what its fuel is enough for: `ok n a` says
that `n` levels are enough at `a`.
-/
import Mathlib.Order.WellFounded
import Mathlib.Order.Preorder.Finite

namespace Agl

open Relation

universe u

variable {α : Type u} {r : α → α → Prop} {a b : α}

/-- No cycle can be reached. -/
def Acyclic (r : α → α → Prop) (a : α) : Prop := ∀ b, ReflTransGen r a b → ¬ TransGen r b b

/-- A path that never ends comes back to where it was, when only finitely
many points lead on. -/
theorem acc_of_acyclic (hfin : {a | ∃ b, r a b}.Finite) (h : Acyclic r a) : Acc (flip r) a := by
  by_contra hacc
  obtain ⟨path, h0, hpath⟩ := not_acc_iff_exists_descending_chain.mp hacc
  have hstep (n : ℕ) : r (path n) (path (n + 1)) := hpath n
  have hmem (n : ℕ) : path n ∈ {a | ∃ b, r a b} := ⟨path (n + 1), hstep n⟩
  obtain ⟨m, n, hmn, heq⟩ := hfin.exists_lt_map_eq_of_forall_mem hmem
  have hreach (n : ℕ) : ReflTransGen r a (path n) := by
    induction n with
    | zero => rw [h0]
    | succ n ih => exact ih.tail (hstep n)
  have hcycle := Nat.rel_of_forall_rel_succ_of_lt (TransGen r) (fun n => .single (hstep n)) hmn
  rw [← heq] at hcycle
  exact h _ (hreach m) hcycle

theorem acyclic_of_acc (h : Acc (flip r) a) : Acyclic r a := by
  induction h with
  | intro a _ ih =>
    intro b hab hb
    rcases ReflTransGen.cases_head hab with rfl | ⟨c, hac, hcb⟩
    · -- the cycle is left along its first edge
      obtain ⟨c, hac, hca⟩ := TransGen.head'_iff.mp hb
      exact ih c hac a hca hb
    · exact ih c hac b hcb hb

theorem acc_iff_acyclic (hfin : {a | ∃ b, r a b}.Finite) : Acc (flip r) a ↔ Acyclic r a :=
  ⟨acyclic_of_acc, acc_of_acyclic hfin⟩

/-! ## Fuel -/

section

variable {next : α → List α} {ok : ℕ → α → Prop}

theorem fuel_mono (h0 : ∀ a, ¬ ok 0 a) (hs : ∀ n a, ok (n + 1) a ↔ ∀ b ∈ next a, ok n b) {n m : ℕ} (hnm : n ≤ m)
    (h : ok n a) : ok m a := by
  induction n generalizing a m with
  | zero => exact absurd h (h0 a)
  | succ n ih =>
    obtain ⟨m, rfl⟩ : ∃ k, m = k + 1 := ⟨m - 1, by omega⟩
    exact (hs m a).mpr fun b hb => ih (by omega) ((hs n a).mp h b hb)

/-- Enough for each is enough for all of finitely many. -/
theorem fuel_forall (h0 : ∀ a, ¬ ok 0 a) (hs : ∀ n a, ok (n + 1) a ↔ ∀ b ∈ next a, ok n b) {l : List α}
    (h : ∀ b ∈ l, ∃ n, ok n b) : ∃ n, ∀ b ∈ l, ok n b := by
  induction l with
  | nil => exact ⟨0, fun _ hb => by cases hb⟩
  | cons b l ih =>
    obtain ⟨n, hn⟩ := h b List.mem_cons_self
    obtain ⟨m, hm⟩ := ih fun c hc => h c (List.mem_cons_of_mem b hc)
    refine ⟨max n m, fun c hc => ?_⟩
    rcases List.mem_cons.mp hc with rfl | hc
    · exact fuel_mono h0 hs (Nat.le_max_left n m) hn
    · exact fuel_mono h0 hs (Nat.le_max_right n m) (hm c hc)

/-- A recursion that asks for every successor ends where it is well founded. -/
theorem fuel_iff_acc (h0 : ∀ a, ¬ ok 0 a) (hs : ∀ n a, ok (n + 1) a ↔ ∀ b ∈ next a, ok n b) :
    (∃ n, ok n a) ↔ Acc (flip fun a b => b ∈ next a) a := by
  constructor
  · intro h
    obtain ⟨n, hn⟩ := h
    induction n generalizing a with
    | zero => exact absurd hn (h0 a)
    | succ n ih => exact .intro a fun b hb => ih ((hs n a).mp hn b hb)
  · intro h
    induction h with
    | intro a _ ih =>
      obtain ⟨n, hn⟩ := fuel_forall h0 hs ih
      exact ⟨n + 1, (hs n a).mpr hn⟩

end

end Agl
