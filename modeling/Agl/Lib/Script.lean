/-
Straight-line scripts under `set -e`: commands run one after the other, and
the first that fails ends the script. A command may also fail unnoticed
(`.. || true`).

What becomes of the commands is chosen by the environment: for each one that
is passed whether all went well, and how far the one got that ends the
script, if one does. A script exits with 0 when none does.
-/
import Mathlib.Data.List.Basic

namespace Agl

universe u v

/-- Commands `γ` on states `σ`. -/
structure Shell (γ : Type u) (σ : Type v) where
  /-- the state after a command that is passed; `false` stands for a failure unnoticed -/
  passed : γ → Bool → σ → Option σ
  /-- what a command leaves that fails -/
  failed : γ → Nat → σ → σ

namespace Shell

variable {γ : Type u} {σ : Type v} {sh : Shell γ σ} {P : σ → Prop} {cs cs' : List γ} {c : γ} {os : List Bool}
  {stop : Option Nat} {s s' : σ}

def exec (sh : Shell γ σ) : List γ → List Bool → Option Nat → σ → Option σ
  | [], [], none, s => some s
  | c :: _, [], some n, s => some (sh.failed c n s)
  | c :: cs, o :: os, stop, s => (sh.passed c o s).bind (exec sh cs os stop)
  | [], [], some _, _ | [], _ :: _, _, _ | _ :: _, [], none, _ => none

theorem exec_nil (h : sh.exec [] os stop s = some s') : os = [] ∧ stop = none ∧ s' = s := by
  cases os <;> cases stop <;> cases h
  exact ⟨rfl, rfl, rfl⟩

/-- The first command ends the script, or is passed. -/
theorem exec_cons (h : sh.exec (c :: cs) os stop s = some s') :
    (∃ n, os = [] ∧ stop = some n ∧ s' = sh.failed c n s) ∨
      ∃ o os' t, os = o :: os' ∧ sh.passed c o s = some t ∧ sh.exec cs os' stop t = some s' := by
  cases os with
  | nil =>
    cases stop <;> cases h
    exact .inl ⟨_, rfl, rfl, rfl⟩
  | cons o os =>
    obtain ⟨t, ht, h⟩ := Option.bind_eq_some_iff.mp h
    exact .inr ⟨o, os, t, rfl, ht, h⟩

/-- A script in two parts ends in the first, or goes through it. -/
theorem exec_append (h : sh.exec (cs ++ cs') os stop s = some s') :
    (stop ≠ none ∧ sh.exec cs os stop s = some s') ∨
      ∃ os₁ os₂ t, os = os₁ ++ os₂ ∧ sh.exec cs os₁ none s = some t ∧ sh.exec cs' os₂ stop t = some s' := by
  induction cs generalizing os s with
  | nil => exact .inr ⟨[], os, s, rfl, rfl, h⟩
  | cons c cs ih =>
    rw [List.cons_append] at h
    obtain ⟨n, rfl, rfl, rfl⟩ | ⟨o, os', t, rfl, ht, h⟩ := exec_cons h
    · exact .inl ⟨Option.some_ne_none n, rfl⟩
    · obtain ⟨hstop, h⟩ | ⟨os₁, os₂, u, rfl, hu, h⟩ := ih h
      · exact .inl ⟨hstop, by simp only [exec, ht, Option.bind_some, h]⟩
      · exact .inr ⟨o :: os₁, os₂, u, rfl, by simp only [exec, ht, Option.bind_some, hu], h⟩

/-- So for a script that comes to its end. -/
theorem exec_append_none (h : sh.exec (cs ++ cs') os none s = some s') :
    ∃ os₁ os₂ t, os = os₁ ++ os₂ ∧ sh.exec cs os₁ none s = some t ∧ sh.exec cs' os₂ none t = some s' :=
  (exec_append h).resolve_left fun hstop => hstop.1 rfl

/-- What every command keeps, whatever becomes of it. -/
structure Keeps (sh : Shell γ σ) (P : σ → Prop) (c : γ) : Prop where
  passed : ∀ o s s', P s → sh.passed c o s = some s' → P s'
  failed : ∀ n s, P s → P (sh.failed c n s)

theorem exec_keeps (hc : ∀ c ∈ cs, sh.Keeps P c) (hs : P s) (h : sh.exec cs os stop s = some s') : P s' := by
  induction cs generalizing os s with
  | nil =>
    obtain ⟨-, -, rfl⟩ := exec_nil h
    exact hs
  | cons c cs ih =>
    have hk := hc c List.mem_cons_self
    obtain ⟨n, -, -, rfl⟩ | ⟨o, os', t, -, ht, h⟩ := exec_cons h
    · exact hk.failed n s hs
    · exact ih (fun c' hc' => hc c' (List.mem_cons_of_mem c hc')) (hk.passed o s t hs ht) h

end Shell

end Agl
