/-
Loops without a bound: a body that changes the state or says that the loop is
over. What a loop comes to is a relation, so that a loop that does not end
comes to nothing. Loops over a list, whose rounds may fail to return, come
after them.
-/
import Mathlib.Data.List.Basic

namespace Agl

universe u v w

namespace Loop

variable {σ : Type u} {body : σ → Option σ}

/-- The loop, entered in `s`, is left in `t`. -/
inductive Ends (body : σ → Option σ) : σ → σ → Prop
  | ended {s} : body s = none → Ends body s s
  | again {s s' t} : body s = some s' → Ends body s' t → Ends body s t

/-- Total correctness: a loop ends whose rounds keep `P` and make some measure
smaller; `P` holds when it is over. -/
theorem exists_ends {P : σ → Prop} (m : σ → Nat) (hm : ∀ s s', P s → body s = some s' → P s' ∧ m s' < m s) {s : σ}
    (hs : P s) : ∃ t, Ends body s t ∧ P t ∧ body t = none := by
  generalize hn : m s = n
  induction n using Nat.strongRecOn generalizing s with
  | ind n ih =>
    cases hb : body s with
    | none => exact ⟨s, .ended hb, hs, hb⟩
    | some s' =>
      obtain ⟨hs', hlt⟩ := hm s s' hs hb
      obtain ⟨t, ht, hrest⟩ := ih (m s') (hn ▸ hlt) hs' rfl
      exact ⟨t, .again hb ht, hrest⟩

/-- A loop does not end from where every round leads to where there is another. -/
theorem not_ends {P : σ → Prop} (hP : ∀ s, P s → ∃ s', body s = some s' ∧ P s') {s : σ} (hs : P s) (t : σ) :
    ¬Ends body s t := by
  intro h
  induction h with
  | ended hn =>
    obtain ⟨s', hs', -⟩ := hP _ hs
    rw [hn] at hs'
    cases hs'
  | again hb _ ih =>
    obtain ⟨s', hs', hp⟩ := hP _ hs
    rw [hb] at hs'
    cases hs'
    exact ih hp

/-- `n` rounds, if the loop has as many. -/
def rounds (body : σ → Option σ) : Nat → σ → Option σ
  | 0, s => some s
  | n + 1, s => (body s).bind (rounds body n)

/-! ## Loops over a list -/

/-- A round returns where `ok` holds, and adds to what the state holds: then
so does the loop, with what all rounds add. -/
theorem foldlM_collects {α : Type v} {β : Type w} {step : σ → α → Option σ} {P : σ → Prop} {ok : α → Prop}
    {holds : σ → β → Prop} {adds : α → β → Prop} {l : List α}
    (h : ∀ s, ∀ a ∈ l, P s → ((step s a).isSome ↔ ok a) ∧
      ∀ s', step s a = some s' → P s' ∧ ∀ b, holds s' b ↔ holds s b ∨ adds a b) {s : σ} (hs : P s) :
    ((l.foldlM step s).isSome ↔ ∀ a ∈ l, ok a) ∧
      ∀ s', l.foldlM step s = some s' → P s' ∧ ∀ b, holds s' b ↔ holds s b ∨ ∃ a ∈ l, adds a b := by
  induction l generalizing s with
  | nil =>
    refine ⟨by simp, fun s' hs' => ?_⟩
    cases hs'
    exact ⟨hs, by simp⟩
  | cons a l ih =>
    obtain ⟨hsome, hstep⟩ := h s a List.mem_cons_self hs
    rw [List.foldlM_cons, List.forall_mem_cons, ← hsome]
    cases hround : step s a with
    | none => exact ⟨by simp, fun s' hs' => by cases hs'⟩
    | some t =>
      obtain ⟨ht, hadds⟩ := hstep t hround
      obtain ⟨hsome', hrest⟩ := ih (fun s a ha => h s a (List.mem_cons_of_mem _ ha)) ht
      refine ⟨?_, fun s' hs' => ?_⟩
      · change (l.foldlM step t).isSome = true ↔ _
        rw [hsome']
        simp
      · obtain ⟨hP, hall⟩ := hrest s' hs'
        refine ⟨hP, fun b => ?_⟩
        rw [hall b, hadds b]
        simp only [List.mem_cons, exists_eq_or_imp, or_assoc]

end Loop

end Agl
