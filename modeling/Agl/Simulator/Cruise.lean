/-
The cruise control of the simulator: which button is down, the two copies
of the mode, and when cruise may be active.

No branch of the handler looks at `cruisemode`: the release of SET starts
cruise whenever it is not active, and so does the release of RES when a
speed is stored, which a cancel stores in any mode. These two with the mode
off are all that breaks "active only while the mode is on"
(`cruise_when`).
-/
import Agl.Simulator.Buttons

namespace Agl.Simulator

/-- The four flags. -/
def Wheel.flags (w : Wheel) : List Bool := [w.buttonEnabled, w.buttonCancel, w.buttonDec, w.buttonInc]

/-- What the handler keeps from one frame to the next. -/
structure Consistent (s : State) : Prop where
  one : s.wheel.flags.count true ≤ 1
  pressed : true ∈ s.wheel.flags ↔ s.wheel.buttonPressed = true
  mode : s.wheel.cruiseMode = s.sim.cruiseMode
  active : s.wheel.cruiseActive = s.sim.cruiseActive
  guarded : s.wheel.cruiseActive = true → s.wheel.cruiseMode = true

/-- A step that switches the mode off clears what is stored. -/
def Clears (s s' : State) : Prop :=
  s.wheel.cruiseMode = true → s'.wheel.cruiseMode = false → s'.sim.cruiseSpeed = 0 ∧ s'.sim.cruiseRpm = 0

/-- With the mode off and cruise not active, the step is no release of SET,
and none of RES with a speed stored. -/
def Guarded (s : State) (a : Act) : Prop :=
  s.releases a = true → s.wheel.cruiseMode = false → s.wheel.cruiseActive = false →
    s.wheel.buttonDec = false ∧ (s.wheel.buttonInc = true → s.sim.cruiseSpeed ≤ 0)

instance (s : State) (a : Act) : Decidable (Guarded s a) := inferInstanceAs (Decidable (_ → _ → _ → _))

/-! ## The latch -/

theorem flags_latch (mode active : Bool) (held : Option Button) :
    (latch mode active held).flags.count true ≤ 1 ∧
      (true ∈ (latch mode active held).flags ↔ (latch mode active held).buttonPressed = true) := by
  cases held with
  | none => exact ⟨by simp [latch, Wheel.flags], by simp [latch, Wheel.flags]⟩
  | some x => cases x <;> exact ⟨by simp [latch, Wheel.flags], by simp [latch, Wheel.flags]⟩

theorem Latched.copies {s : State} (hl : Latched s) :
    s.wheel.cruiseMode = s.sim.cruiseMode ∧ s.wheel.cruiseActive = s.sim.cruiseActive := by
  by_cases hpc : s.wheelPc.current = none
  · obtain ⟨held, hheld⟩ := hl.waits hpc
    rw [hheld]
    exact ⟨rfl, rfl⟩
  · rw [(hl.handles hpc).1]
    exact ⟨rfl, rfl⟩

theorem Latched.consistent {s : State} (hl : Latched s) (hpc : s.wheelPc.current = none)
    (hg : s.sim.cruiseActive = true → s.sim.cruiseMode = true) : Consistent s := by
  obtain ⟨held, hheld⟩ := hl.waits hpc
  obtain ⟨hmode, ha⟩ := hl.copies
  have hflags := flags_latch s.sim.cruiseMode s.sim.cruiseActive held
  rw [← hheld] at hflags
  exact ⟨hflags.1, hflags.2, hmode, ha, by rwa [hmode, ha]⟩

/-! ## Steps -/

theorem guarded_of_not_releases {s : State} {a : Act} (h : s.releases a = false) : Guarded s a := by
  intro hr
  rw [h] at hr
  cases hr

/-- The condition by the button that is released. -/
theorem guarded_iff {s : State} {a : Act} {x : Button} (hx : s.holds (some x)) (hr : s.releases a = true) :
    Guarded s a ↔ (s.sim.cruiseMode = false → s.sim.cruiseActive = false →
      x ≠ .dec ∧ (x = .inc → s.sim.cruiseSpeed ≤ 0)) := by
  unfold Guarded
  rw [hx]
  simp only [latch, hr, forall_true_left, Option.some.injEq, decide_eq_false_iff_not, decide_eq_true_eq, ne_eq]

theorem Step.clears {s s' : State} {a : Act} (hl : Latched s) (hl' : Latched s') (hs : Step s a s') :
    Clears s s' := by
  intro hon hoff
  rw [hl.copies.1] at hon
  rw [hl'.copies.1] at hoff
  cases hs with
  | disable => exact ⟨rfl, rfl⟩
  | enable => cases hoff
  | skip | fail | press | cancel | set | decrease | increase | unset | resume | resumed | round | leave
  | driveMove | driveTop | driveReset | driveCall | driveRound => exact absurd (hon.symm.trans hoff) (by decide)

/-- What keeps cruise from being active with the mode off. -/
theorem Step.guarded_iff {s s' : State} {a : Act} (hg : s.sim.cruiseActive = true → s.sim.cruiseMode = true)
    (hs : Step s a s') : (s'.sim.cruiseActive = true → s'.sim.cruiseMode = true) ↔ Guarded s a := by
  cases hs with
  | skip _ hr | fail _ hr | press _ _ hr => exact iff_of_true hg (guarded_of_not_releases hr)
  | round | leave | driveMove | driveTop | driveReset | driveCall | driveRound =>
    exact iff_of_true hg (guarded_of_not_releases rfl)
  | enable hx hr => exact iff_of_true (fun _ => rfl) ((Simulator.guarded_iff hx hr).mpr fun _ _ => by simp)
  | disable hx hr => exact iff_of_true (fun h => by cases h) ((Simulator.guarded_iff hx hr).mpr fun _ _ => by simp)
  | cancel hx hr => exact iff_of_true (fun h => by cases h) ((Simulator.guarded_iff hx hr).mpr fun _ _ => by simp)
  | decrease hx hr ha | increase hx hr ha =>
    refine iff_of_true hg ((Simulator.guarded_iff hx hr).mpr fun _ hoff => ?_)
    exact absurd (ha.symm.trans hoff) (by decide)
  | unset hx hr ha hspeed =>
    refine iff_of_true (fun h => absurd (h.symm.trans ha) (by decide)) ((Simulator.guarded_iff hx hr).mpr fun _ _ => ?_)
    exact ⟨by decide, fun _ => hspeed⟩
  | set hx hr ha =>
    rw [Simulator.guarded_iff hx hr]
    cases hmode : s.sim.cruiseMode <;> simp [State.back, VehicleSimulator.store, hmode, ha]
  | resume hx hr ha hspeed | resumed hx hr ha hspeed =>
    rw [Simulator.guarded_iff hx hr]
    cases hmode : s.sim.cruiseMode <;> simp [State.back, State.inLoop, hmode, ha, hspeed]

theorem guarded_inductive : machine.Inductive Guarded fun s =>
    Latched s ∧ (s.sim.cruiseActive = true → s.sim.cruiseMode = true) :=
  (latched_inductive.mono fun _ _ _ => trivial).and (fun s h hact => by subst h; cases hact)
    fun _ _ _ hl _ hg ha hs => ((step_cases hl hs).guarded_iff hg).mpr ha

/-! ## Along a run -/

/-- **In every run that never starts cruise with the mode off, between two
frames at most one of the button flags is set, one exactly when a button is
down, handler and simulator agree on the mode, and cruise is active only
while the mode is on.** A step that switches the mode off clears what is
stored, and the next step keeps "active only while on" exactly if it does
not start cruise with the mode off. -/
theorem cruise_when {s : State} (h : machine.Reach Guarded s) :
    (s.wheelPc.current = none → Consistent s) ∧ ∀ a s', machine.step s a = some s' →
      Clears s s' ∧ ((s'.wheel.cruiseActive = true → s'.wheel.cruiseMode = true) ↔ Guarded s a) := by
  obtain ⟨hl, hg⟩ := guarded_inductive.reach h
  refine ⟨fun hpc => hl.consistent hpc hg, fun a s' hs => ?_⟩
  have hstep := step_cases hl hs
  have hl' := hstep.latched hl
  refine ⟨hstep.clears hl hl', ?_⟩
  rw [hl'.copies.1, hl'.copies.2]
  exact hstep.guarded_iff hg

/-- Mode on, SET, and the mode off again. -/
theorem cruise_when_switched : ∃ s s', machine.Reach Guarded s ∧ Consistent s ∧ s.wheel.cruiseActive = true ∧
    machine.step s (lin 0x00) = some s' ∧ Clears s s' ∧ s'.wheel.cruiseMode = false := by
  obtain ⟨s, hs, hpc, ha, hoff⟩ := Machine.exists_reach (M := machine) Guarded (s := start) rfl
    [lin 0x80, lin 0x00, lin 0x10, lin 0x00, lin 0x80]
    (fun s => s.wheelPc.current = none ∧ s.wheel.cruiseActive = true ∧
      (machine.step s (lin 0x00)).any fun s' => !s'.wheel.cruiseMode)
    ⟨_, rfl, by decide +kernel⟩
  obtain ⟨s', hstep, hoff⟩ := (Option.any_eq_true _ _).mp hoff
  obtain ⟨hcons, hnext⟩ := cruise_when hs
  exact ⟨s, s', hs, hcons hpc, ha, hstep, (hnext _ s' hstep).1, by simpa using hoff⟩

/-- SET is pressed and released with the mode off. -/
theorem set_without_mode : ∃ s, machine.Reach (fun _ a => ∃ data, a = .frame 0x21 data ∧ 7 ≤ data.length) s ∧
    s.wheelPc = .idle ∧ s.wheel.cruiseActive = true ∧ s.wheel.cruiseMode = false ∧ ¬Consistent s := by
  refine ⟨_, .step (.step (.init rfl) ⟨[0, 0, 0, 0, 0, 0, 0x10, 0], rfl, by decide⟩ rfl)
    ⟨[0, 0, 0, 0, 0, 0, 0x00, 0], rfl, by decide⟩ rfl, rfl, rfl, rfl, fun h => ?_⟩
  exact absurd (h.guarded rfl) (by decide)

end Agl.Simulator
