/-
A shared word that threads change by compare-and-swap loops.

A loop reads the word and gives up on some values. Otherwise it swaps its
new value in for the value it read, and reads again when the word has
changed in between. Nothing a loop tested before it began is tested again:
what it does rest on is that it replaces the word as it is, and never holds a
value it gives up on (`casStep_cases`).
-/
import Mathlib.Logic.Basic

namespace Agl

universe u

/-- Where a loop is: about to read the word, or to swap out what it read. -/
inductive CasPc (α : Type u)
  | read
  | swap (prev : α)
  deriving DecidableEq, Repr

variable {α : Type u} [DecidableEq α]

/-- One step of a loop that writes `new`: the word, and where the loop is
then (none: it has returned). -/
def casStep (stop : α → Bool) (new cur : α) : CasPc α → α × Option (CasPc α)
  | .read => (cur, if stop cur then none else some (.swap cur))
  | .swap prev => if cur = prev then (new, none) else (cur, some .read)

/-- A loop never holds a value it gives up on. -/
def CasPc.Goes (stop : α → Bool) : CasPc α → Prop
  | .read => True
  | .swap prev => stop prev = false

/-- A step replaces the word, which is then the value the loop has read, or
leaves it; it leaves it for good only when it gives up. -/
theorem casStep_cases (stop : α → Bool) (new cur : α) (pc : CasPc α) :
    (pc = .swap cur ∧ casStep stop new cur pc = (new, none)) ∨
      (pc ≠ .swap cur ∧ ∃ o, casStep stop new cur pc = (cur, o) ∧ (o = none → stop cur = true) ∧
        ∀ p, o = some p → p.Goes stop) := by
  cases pc with
  | read =>
    refine .inr ⟨by simp, _, rfl, by simp, fun p hp => ?_⟩
    by_cases hc : stop cur = true
    · simp [hc] at hp
    · simp only [hc, Bool.false_eq_true, if_false, Option.some.injEq] at hp
      rw [← hp]
      simpa [CasPc.Goes] using hc
  | swap prev =>
    by_cases hc : cur = prev
    · exact .inl ⟨by rw [hc], by simp [casStep, hc]⟩
    · refine .inr ⟨by simp [Ne.symm hc], some .read, by simp [casStep, hc], by simp, fun p hp => ?_⟩
      cases hp
      trivial

/-- A loop nobody disturbs writes its value, unless it gives up. -/
theorem casStep_alone {stop : α → Bool} (new : α) {cur : α} (hc : stop cur = false) :
    casStep stop new cur .read = (cur, some (.swap cur)) ∧ casStep stop new cur (.swap cur) = (new, none) := by
  simp [casStep, hc]

end Agl
