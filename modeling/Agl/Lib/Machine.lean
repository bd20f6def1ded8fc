/-
Transition systems with a partial step function: what a run is, and how a
fact about one step becomes a fact about every run.

An action carries every choice the environment makes (an allocation that
fails, the request a device completes next), so a step is a function of the
state and the action, and a run can be replayed. `Reach ok` holds of the
states of the runs whose steps all meet `ok`; `Reachable` of those of any run.
-/
import Mathlib.Logic.Basic

namespace Agl

universe u v w

/-- Initial states, and the state an action leads to when it is enabled. -/
structure Machine (σ : Type u) (α : Type v) where
  init : σ → Prop
  step : σ → α → Option σ

namespace Machine

variable {σ : Type u} {α : Type v} {M : Machine σ α} {ok ok' : σ → α → Prop}

/-- The states of the runs whose steps all meet `ok`. -/
inductive Reach (M : Machine σ α) (ok : σ → α → Prop) : σ → Prop
  | init {s} : M.init s → Reach M ok s
  | step {s a s'} : Reach M ok s → ok s a → M.step s a = some s' → Reach M ok s'

/-- The states of any run. -/
abbrev Reachable (M : Machine σ α) : σ → Prop := M.Reach fun _ _ => True

theorem Reach.mono (hok : ∀ s a, ok s a → ok' s a) {s} (h : M.Reach ok s) : M.Reach ok' s := by
  induction h with
  | init h => exact .init h
  | step _ ha hs ih => exact .step ih (hok _ _ ha) hs

theorem Reach.reachable {s} (h : M.Reach ok s) : M.Reachable s := h.mono fun _ _ _ => trivial

/-- `P` holds at the start of a run and no step that meets `ok` breaks it. -/
structure Inductive (M : Machine σ α) (ok : σ → α → Prop) (P : σ → Prop) : Prop where
  init : ∀ s, M.init s → P s
  step : ∀ s a s', P s → ok s a → M.step s a = some s' → P s'

theorem Inductive.reach {P : σ → Prop} (hP : M.Inductive ok P) {s} (h : M.Reach ok s) : P s := by
  induction h with
  | init h => exact hP.init _ h
  | step _ ha hs ih => exact hP.step _ _ _ ih ha hs

/-- Where every step that does not meet `ok` breaks `Q`, `ok` is exactly what keeps it. -/
theorem Inductive.keeps_iff {P Q : σ → Prop} (hP : M.Inductive ok P) (hQ : ∀ s, P s → Q s)
    (breaks : ∀ s a s', P s → ¬ok s a → M.step s a = some s' → ¬Q s') {s a s'} (h : M.Reach ok s)
    (hs : M.step s a = some s') : Q s' ↔ ok s a := by
  have hp := hP.reach h
  constructor
  · intro hq
    by_cases ha : ok s a
    · exact ha
    · exact absurd hq (breaks s a s' hp ha hs)
  · intro ha
    exact hQ s' (hP.step s a s' hp ha hs)

/-- Steps that meet `ok` meet `ok'` where the invariant holds, so runs of the one kind are of the other. -/
theorem Inductive.reach_mono {P : σ → Prop} (hP : M.Inductive ok P) (hok : ∀ s a, P s → ok s a → ok' s a) {s}
    (h : M.Reach ok s) : M.Reach ok' s := by
  induction h with
  | init h => exact .init h
  | step hr ha hs ih => exact .step ih (hok _ _ (hP.reach hr) ha) hs

/-- A second invariant, whose step may use the first one before and after. -/
theorem Inductive.and {P Q : σ → Prop} (hP : M.Inductive ok P) (init : ∀ s, M.init s → Q s)
    (step : ∀ s a s', P s → P s' → Q s → ok s a → M.step s a = some s' → Q s') :
    M.Inductive ok fun s => P s ∧ Q s where
  init s h := ⟨hP.init s h, init s h⟩
  step s a s' h ha hs :=
    have hp := hP.step s a s' h.1 ha hs
    ⟨hp, step s a s' h.1 hp h.2 ha hs⟩

theorem Inductive.mono {P : σ → Prop} (hok : ∀ s a, ok' s a → ok s a) (hP : M.Inductive ok P) :
    M.Inductive ok' P :=
  ⟨hP.init, fun s a s' h ha hs => hP.step s a s' h (hok s a ha) hs⟩

/-- The same machine, started in `s`. -/
def startAt (M : Machine σ α) (s : σ) : Machine σ α := { M with init := fun t => t = s }

theorem Inductive.startAt {P : σ → Prop} (hP : M.Inductive ok P) {s : σ} (hs : P s) : (M.startAt s).Inductive ok P where
  init _ h := h ▸ hs
  step := hP.step

/-- Seen through `f` each step is one of `N`, or nothing, so the runs of `M` are runs of `N`. -/
theorem Reach.project {τ : Type w} {β : Type*} {N : Machine τ β} {okN : τ → β → Prop} {s}
    (h : M.Reach ok s) (f : σ → τ) (init : ∀ s, M.init s → N.init (f s))
    (step : ∀ s a s', ok s a → M.step s a = some s' → f s' = f s ∨ ∃ b, okN (f s) b ∧ N.step (f s) b = some (f s')) :
    N.Reach okN (f s) := by
  induction h with
  | init h => exact .init (init _ h)
  | step _ ha hs ih =>
    rcases step _ _ _ ha hs with he | hb
    · exact he ▸ ih
    · obtain ⟨b, hok, hb⟩ := hb
      exact .step ih hok hb

/-! ## A history variable -/

variable {γ : Type w} {g₀ : γ} {note : σ → α → γ → γ}

/-- The machine with a variable that takes down something of each step. -/
def watched (M : Machine σ α) (g₀ : γ) (note : σ → α → γ → γ) : Machine (σ × γ) α where
  init s := M.init s.1 ∧ s.2 = g₀
  step s a := (M.step s.1 a).map fun s' => (s', note s.1 a s.2)

theorem watched_step {s s' : σ × γ} {a : α} :
    (M.watched g₀ note).step s a = some s' ↔ M.step s.1 a = some s'.1 ∧ s'.2 = note s.1 a s.2 := by
  simp only [watched, Option.map_eq_some_iff]
  constructor
  · intro h
    obtain ⟨t, ht, rfl⟩ := h
    exact ⟨ht, rfl⟩
  · intro h
    exact ⟨s'.1, h.1, by rw [← h.2]⟩

/-- Its runs are those of the machine. -/
theorem Reach.of_watched {s : σ × γ} (h : (M.watched g₀ note).Reach (fun s a => ok s.1 a) s) : M.Reach ok s.1 := by
  induction h with
  | init h => exact .init h.1
  | step _ ha hs ih => exact .step ih ha (watched_step.mp hs).1

theorem Inductive.watched {P : σ → Prop} (hP : M.Inductive ok P) :
    (M.watched g₀ note).Inductive (fun s a => ok s.1 a) fun s => P s.1 where
  init s h := hP.init s.1 h.1
  step s a s' h ha hs := hP.step s.1 a s'.1 h ha (watched_step.mp hs).1

/-- Every run of the machine is one of its. -/
theorem Reach.watched {s : σ} (h : M.Reach ok s) :
    ∃ g, (M.watched g₀ note).Reach (fun s a => ok s.1 a) (s, g) := by
  induction h with
  | init h => exact ⟨g₀, .init ⟨h, rfl⟩⟩
  | @step s a s' _ ha hs ih =>
    obtain ⟨g, hg⟩ := ih
    exact ⟨note s a g, .step hg ha (watched_step.mpr ⟨hs, rfl⟩)⟩

/-! ## Replaying a run -/

/-- Take the actions in order, as long as each is enabled and meets `ok`. -/
def exec (M : Machine σ α) (ok : σ → α → Prop) [∀ s a, Decidable (ok s a)] : σ → List α → Option σ
  | s, [] => some s
  | s, a :: as => if ok s a then (M.step s a).bind fun s' => exec M ok s' as else none

theorem Reach.exec [∀ s a, Decidable (ok s a)] : ∀ {s s'}, M.Reach ok s → ∀ as : List α,
    M.exec ok s as = some s' → M.Reach ok s'
  | s, s', h, [], he => by
    simp only [Machine.exec, Option.some.injEq] at he
    exact he ▸ h
  | s, s', h, a :: as, he => by
    simp only [Machine.exec] at he
    split at he
    · next ha =>
      obtain ⟨t, ht, he⟩ := Option.bind_eq_some_iff.mp he
      exact Reach.exec (.step h ha ht) as he
    · cases he

/-- A replayed run from an initial state ends in a reached state, with the
property `p` when the replay evaluates to one that has it. -/
theorem exists_reach (ok : σ → α → Prop) [∀ s a, Decidable (ok s a)] {s : σ} (h : M.init s) (as : List α)
    (p : σ → Prop) [DecidablePred p] (hr : ∃ t ∈ M.exec ok s as, p t) : ∃ t, M.Reach ok t ∧ p t := by
  obtain ⟨t, ht, hp⟩ := hr
  exact ⟨t, (Reach.init h).exec as ht, hp⟩

end Machine

end Agl
