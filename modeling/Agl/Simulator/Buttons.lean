/-
What one step of the simulator can do (`Step`).

The flags of the steering wheel's handler say which button is down, and its
copies of the mode are those of the simulator (`Latched`): a press latches
one button, further ones are skipped until it is released, and its release
does what that one button stands for.
-/
import Agl.Simulator.Vehicle

namespace Agl.Simulator

/-! ## The latch -/

inductive Button
  | enabled | cancel | dec | inc
  deriving DecidableEq, Repr

/-- The button of the byte. -/
def Button.ofByte (b : UInt8) : Option Button :=
  if b = 0x80 then some .enabled
  else if b = 0x08 then some .cancel
  else if b = 0x10 then some .dec
  else if b = 0x40 then some .inc
  else none

/-- The handler with one button down, or none. -/
def latch (mode active : Bool) (held : Option Button) : Wheel where
  buttonPressed := held.isSome
  buttonEnabled := held = some .enabled
  buttonCancel := held = some .cancel
  buttonDec := held = some .dec
  buttonInc := held = some .inc
  cruiseMode := mode
  cruiseActive := active

/-- The handler in the loop a release has begun. -/
def handling (mode active : Bool) : Wheel := { latch mode active none with buttonPressed := true }

/-- The handler waits with this button down. -/
def State.holds (s : State) (held : Option Button) : Prop :=
  s.wheel = latch s.sim.cruiseMode s.sim.cruiseActive held

instance (s : State) (held : Option Button) : Decidable (s.holds held) := inferInstanceAs (Decidable (_ = _))

/-- Back in `recv` with this button down. -/
def State.back (s : State) (sim : VehicleSimulator) (held : Option Button) : State :=
  { s with sim, wheel := latch sim.cruiseMode sim.cruiseActive held, wheelPc := .idle }

/-- In a loop of a button. -/
def State.inLoop (s : State) (sim : VehicleSimulator) (pc : WheelPc) : State :=
  { s with sim, wheel := handling sim.cruiseMode sim.cruiseActive, wheelPc := pc }

/-- The loop the steering wheel's thread is in. -/
def WheelPc.current : WheelPc → Option Loop
  | .dec l | .inc l => some l
  | .idle | .dead => none

/-- The loop the drive thread is in. -/
def DrivePc.current : DrivePc → Option Loop
  | .loop l _ => some l
  | .top | .calls _ => none

/-- The calls the drive thread has yet to make. -/
def DrivePc.rest : DrivePc → List Call
  | .calls rest | .loop _ rest => rest
  | .top => []

/-- The flags are those of one button, and the copies agree. -/
structure Latched (s : State) : Prop where
  waits : s.wheelPc.current = none → ∃ held, s.holds held
  handles : s.wheelPc.current ≠ none →
    s.wheel = handling s.sim.cruiseMode s.sim.cruiseActive ∧ s.sim.cruiseActive = true

/-- The frame of a button, or of none, on the LIN bus. -/
def lin (b : UInt8) : Act := .frame 0x21 [0, 0, 0, 0, 0, 0, b, 0]

/-- The step handles a release. -/
def State.releases (s : State) : Act → Bool
  | .frame canId data =>
    decide (s.wheelPc = .idle ∧ canId = 0x21 ∧ data[6]? = some 0x00) && s.wheel.buttonPressed
  | .wheel | .drive => false

/-! ## Presses -/

theorem press_latch_none (mode active : Bool) (b : UInt8) :
    press (latch mode active none) b = latch mode active (Button.ofByte b) := by
  unfold press Button.ofByte
  by_cases h80 : b = 0x80
  · subst h80
    rfl
  by_cases h08 : b = 0x08
  · subst h08
    rfl
  by_cases h10 : b = 0x10
  · subst h10
    rfl
  by_cases h40 : b = 0x40
  · subst h40
    rfl
  simp only [h80, h08, h10, h40, false_and, if_false]

/-- Buttons that follow are skipped. -/
theorem press_of_pressed {w : Wheel} (h : w.buttonPressed = true) (b : UInt8) : press w b = w := by
  simp only [press, h, not_true, and_false, if_false]

/-! ## Releases -/

namespace VehicleSimulator

/-- With the speeds taken as the cruise speeds. -/
def store (s : VehicleSimulator) (active : Bool) : VehicleSimulator :=
  { s with cruiseSpeed := s.getVehicleSpeed, cruiseRpm := s.getEngineSpeed, cruiseActive := active }

/-- With the cruise control off. -/
def off (s : VehicleSimulator) : VehicleSimulator :=
  { s with cruiseMode := false, cruiseActive := false, cruiseSpeed := 0, cruiseRpm := 0 }

end VehicleSimulator

section

variable {s : State} {sim : VehicleSimulator}

theorem back_self {held : Option Button} (h : s.holds held) (hpc : s.wheelPc = .idle) : s.back s.sim held = s := by
  unfold State.back
  rw [← h, ← hpc]

theorem release_enable (hmode : sim.cruiseMode = false) :
    release (s.back sim (some .enabled)) = s.back { sim with cruiseMode := true } none := by
  simp [release, releaseEnabled, releaseCancel, releaseDec, releaseInc, released, latch, State.back, hmode]

theorem release_disable (hmode : sim.cruiseMode = true) :
    release (s.back sim (some .enabled)) = s.back sim.off none := by
  simp [release, releaseEnabled, releaseCancel, releaseDec, releaseInc, released, latch, State.back, hmode,
    VehicleSimulator.off]

theorem release_cancel : release (s.back sim (some .cancel)) = s.back (sim.store false) none := by
  simp [release, releaseEnabled, releaseCancel, releaseDec, releaseInc, released, latch, State.back, storeSpeeds,
    VehicleSimulator.store, VehicleSimulator.getVehicleSpeed, VehicleSimulator.getEngineSpeed]

theorem release_set (ha : sim.cruiseActive = false) :
    release (s.back sim (some .dec)) = s.back (sim.store true) none := by
  simp [release, releaseEnabled, releaseCancel, releaseDec, releaseInc, released, latch, State.back, storeSpeeds,
    VehicleSimulator.store, VehicleSimulator.getVehicleSpeed, VehicleSimulator.getEngineSpeed, ha]

theorem release_decrease {l : Loop} (ha : sim.cruiseActive = true) (hl : sim.decrease = some l) :
    release (s.back sim (some .dec)) = s.inLoop sim (.dec l) := by
  simp [release, releaseEnabled, releaseCancel, releaseDec, latch, State.inLoop, State.back, handling, ha, hl]

theorem release_increase {l : Loop} (ha : sim.cruiseActive = true) (hl : sim.increase = some l) :
    release (s.back sim (some .inc)) = s.inLoop sim (.inc l) := by
  simp [release, releaseEnabled, releaseCancel, releaseDec, releaseInc, latch, State.inLoop, State.back, handling, ha,
    hl]

/-- Nothing is stored to go back to. -/
theorem release_unset (ha : sim.cruiseActive = false) (hspeed : sim.cruiseSpeed ≤ 0) :
    release (s.back sim (some .inc)) = s.back sim none := by
  simp [release, releaseEnabled, releaseCancel, releaseDec, releaseInc, released, latch, State.back, ha, hspeed]

theorem release_resume {l : Loop} (ha : sim.cruiseActive = false) (hspeed : 0 < sim.cruiseSpeed)
    (hl : { sim with cruiseActive := true }.resume = some l) :
    release (s.back sim (some .inc)) = s.inLoop { sim with cruiseActive := true } (.inc l) := by
  simp [release, releaseEnabled, releaseCancel, releaseDec, releaseInc, latch, State.inLoop, State.back, handling, ha,
    hl, hspeed]

theorem release_resumed (ha : sim.cruiseActive = false) (hspeed : 0 < sim.cruiseSpeed)
    (hl : { sim with cruiseActive := true }.resume = none) :
    release (s.back sim (some .inc)) = s.back { sim with cruiseActive := true } none := by
  simp [release, releaseEnabled, releaseCancel, releaseDec, releaseInc, released, latch, State.back, ha, hl, hspeed]

end

/-! ## Loops -/

/-- What a round adds to the two speeds. -/
def Loop.rate (l : Loop) : ℚ × ℚ := if l.up then (l.v, l.r) else (-l.v, -l.r)

namespace VehicleSimulator

variable {s : VehicleSimulator}

def speeds (s : VehicleSimulator) : ℚ × ℚ := (s.vehicleSpeed, s.engineSpeed)

def withSpeeds (s : VehicleSimulator) (x : ℚ × ℚ) : VehicleSimulator :=
  { s with vehicleSpeed := x.1, engineSpeed := x.2 }

theorem round_eq (l : Loop) : s.round l = s.withSpeeds (s.speeds + l.rate) := by
  unfold round Loop.rate
  split
  · rfl
  · simp only [withSpeeds, speeds, Prod.fst_add, Prod.snd_add, sub_eq_add_neg]

/-- The target is below the speed. -/
theorem decrease_some (ha : s.cruiseActive = true) : ∃ l, s.decrease = some l := by
  have hbelow : ¬s.vehicleSpeed - 5 ≥ s.vehicleSpeed := by linarith
  simp only [decrease, ha, brake, if_neg hbelow, if_true]
  exact ⟨_, rfl⟩

/-- The target is above the speed. -/
theorem increase_some (ha : s.cruiseActive = true) : ∃ l, s.increase = some l := by
  have habove : ¬s.vehicleSpeed + 5 ≤ s.vehicleSpeed := by linarith
  simp only [increase, ha, accelerate, if_neg habove, if_true]
  exact ⟨_, rfl⟩

end VehicleSimulator

/-! ## What a step can do -/

/-- One step, by the branch taken. -/
inductive Step (s : State) : Act → State → Prop
  /-- another frame, no button, or one button after another -/
  | skip {canId data} : s.wheelPc = .idle → s.releases (.frame canId data) = false → Step s (.frame canId data) s
  /-- the frame is too short -/
  | fail {canId data} : s.wheelPc = .idle → s.releases (.frame canId data) = false →
      Step s (.frame canId data) { s with wheelPc := .dead }
  | press {canId data x} : s.wheelPc = .idle → s.holds none → s.releases (.frame canId data) = false →
      Step s (.frame canId data) (s.back s.sim (some x))
  | enable {canId data} : s.holds (some .enabled) → s.releases (.frame canId data) = true →
      s.sim.cruiseMode = false → Step s (.frame canId data) (s.back { s.sim with cruiseMode := true } none)
  | disable {canId data} : s.holds (some .enabled) → s.releases (.frame canId data) = true →
      s.sim.cruiseMode = true → Step s (.frame canId data) (s.back s.sim.off none)
  | cancel {canId data} : s.holds (some .cancel) → s.releases (.frame canId data) = true →
      Step s (.frame canId data) (s.back (s.sim.store false) none)
  | set {canId data} : s.holds (some .dec) → s.releases (.frame canId data) = true → s.sim.cruiseActive = false →
      Step s (.frame canId data) (s.back (s.sim.store true) none)
  | decrease {canId data l} : s.holds (some .dec) → s.releases (.frame canId data) = true →
      s.sim.cruiseActive = true → s.sim.decrease = some l → Step s (.frame canId data) (s.inLoop s.sim (.dec l))
  | increase {canId data l} : s.holds (some .inc) → s.releases (.frame canId data) = true →
      s.sim.cruiseActive = true → s.sim.increase = some l → Step s (.frame canId data) (s.inLoop s.sim (.inc l))
  | unset {canId data} : s.holds (some .inc) → s.releases (.frame canId data) = true → s.sim.cruiseActive = false →
      s.sim.cruiseSpeed ≤ 0 → Step s (.frame canId data) (s.back s.sim none)
  | resume {canId data l} : s.holds (some .inc) → s.releases (.frame canId data) = true →
      s.sim.cruiseActive = false → 0 < s.sim.cruiseSpeed → { s.sim with cruiseActive := true }.resume = some l →
      Step s (.frame canId data) (s.inLoop { s.sim with cruiseActive := true } (.inc l))
  | resumed {canId data} : s.holds (some .inc) → s.releases (.frame canId data) = true →
      s.sim.cruiseActive = false → 0 < s.sim.cruiseSpeed → { s.sim with cruiseActive := true }.resume = none →
      Step s (.frame canId data) (s.back { s.sim with cruiseActive := true } none)
  | round {l} : s.wheelPc.current = some l → s.sim.goesOn l = true →
      Step s .wheel { s with sim := s.sim.withSpeeds (s.sim.speeds + l.rate) }
  | leave {l} : s.wheelPc.current = some l → s.sim.goesOn l = false → Step s .wheel (s.back s.sim none)
  /-- the drive thread moves between its calls -/
  | driveMove {rest} : rest = driveCycle ∨ rest ⊆ s.drive.rest → Step s .drive { s with drive := .calls rest }
  | driveTop : Step s .drive { s with drive := .top }
  | driveReset : s.sim.cruiseActive = false →
      Step s .drive { s with sim := s.sim.withSpeeds (0, VehicleSimulator.defaultIdleRpm), drive := .top }
  | driveCall {c rest l} : s.drive = .calls (c :: rest) → c.start s.sim = some l →
      Step s .drive { s with drive := .loop l rest }
  | driveRound {l rest} : s.drive = .loop l rest → s.sim.goesOn l = true →
      Step s .drive { s with sim := s.sim.withSpeeds (s.sim.speeds + l.rate) }

theorem release_step {s : State} {canId : ℕ} {data : List UInt8} {x : Button} (hpc : s.wheelPc = .idle)
    (hx : s.holds (some x)) (hr : s.releases (.frame canId data) = true) :
    Step s (.frame canId data) (release s) := by
  rw [← congrArg release (back_self hx hpc)]
  cases x with
  | enabled =>
    cases hmode : s.sim.cruiseMode with
    | false =>
      rw [release_enable hmode]
      exact .enable hx hr hmode
    | true =>
      rw [release_disable hmode]
      exact .disable hx hr hmode
  | cancel =>
    rw [release_cancel]
    exact .cancel hx hr
  | dec =>
    cases ha : s.sim.cruiseActive with
    | false =>
      rw [release_set ha]
      exact .set hx hr ha
    | true =>
      obtain ⟨l, hl⟩ := VehicleSimulator.decrease_some ha
      rw [release_decrease ha hl]
      exact .decrease hx hr ha hl
  | inc =>
    cases ha : s.sim.cruiseActive with
    | true =>
      obtain ⟨l, hl⟩ := VehicleSimulator.increase_some ha
      rw [release_increase ha hl]
      exact .increase hx hr ha hl
    | false =>
      by_cases hspeed : 0 < s.sim.cruiseSpeed
      · cases hl : { s.sim with cruiseActive := true }.resume with
        | some l =>
          rw [release_resume ha hspeed hl]
          exact .resume hx hr ha hspeed hl
        | none =>
          rw [release_resumed ha hspeed hl]
          exact .resumed hx hr ha hspeed hl
      · have hspeed : s.sim.cruiseSpeed ≤ 0 := not_lt.mp hspeed
        rw [release_unset ha hspeed]
        exact .unset hx hr ha hspeed

theorem handleFrame_step {s s' : State} {canId : ℕ} {data : List UInt8} (hl : Latched s)
    (h : handleFrame s canId data = some s') : Step s (.frame canId data) s' := by
  unfold handleFrame at h
  split at h
  swap
  · cases h
  next hpc =>
  obtain ⟨held, hheld⟩ := hl.waits (by rw [hpc]; rfl)
  split at h
  swap
  · next hid =>
    cases h
    refine .skip hpc ?_
    simp only [State.releases, Bool.and_eq_false_iff, decide_eq_false_iff_not]
    refine .inl fun hrel => hid ⟨hrel.2.1, fun hnil => ?_⟩
    rw [hnil] at hrel
    cases hrel.2.2
  next hid =>
  unfold Python.index at h
  cases hb : data[6]? with
  | none =>
    simp only [hb, Option.some.injEq] at h
    subst h
    exact .fail hpc (by simp [State.releases, hb])
  | some b =>
    simp only [hb, Option.some.injEq] at h
    cases held with
    | some x =>
      have hdown : s.wheel.buttonPressed = true := by
        rw [hheld]
        rfl
      rw [press_of_pressed hdown] at h
      by_cases h0 : b = 0x00
      · simp only [h0, hdown, and_self, if_true] at h
        subst h
        exact release_step hpc hheld (by simp [State.releases, hpc, hid.1, hb, h0, hdown])
      · simp only [h0, false_and, if_false] at h
        subst h
        exact .skip hpc (by simp [State.releases, hb, h0])
    | none =>
      have hup : s.wheel.buttonPressed = false := by
        rw [hheld]
        rfl
      have hrel : s.releases (.frame canId data) = false := by simp only [State.releases, hup, Bool.and_false]
      have hpress : press s.wheel b = latch s.sim.cruiseMode s.sim.cruiseActive (Button.ofByte b) := by
        rw [hheld]
        exact press_latch_none _ _ b
      have hnot : ¬(b = 0x00 ∧ (latch s.sim.cruiseMode s.sim.cruiseActive (Button.ofByte b)).buttonPressed = true) := by
        intro hb0
        rw [hb0.1] at hb0
        cases hb0.2
      simp only [hpress, if_neg hnot] at h
      subst h
      cases hx : Button.ofByte b with
      | none =>
        rw [← hheld]
        exact .skip hpc hrel
      | some x =>
        have hback : { s with wheel := latch s.sim.cruiseMode s.sim.cruiseActive (some x) } =
            s.back s.sim (some x) := by
          unfold State.back
          rw [← hpc]
        rw [hback]
        exact .press hpc hheld hrel

theorem wheelStep_step {s s' : State} (hl : Latched s) (h : wheelStep s = some s') : Step s .wheel s' := by
  unfold wheelStep at h
  have hleave (l : Loop) (hpc : s.wheelPc.current = some l) :
      releaseInc s = s.back s.sim none ∧ released s = s.back s.sim none := by
    obtain ⟨hwheel, ha⟩ := hl.handles (by rw [hpc]; exact Option.some_ne_none l)
    have hinc : s.wheel.buttonInc = false := by
      rw [hwheel]
      rfl
    have hreleased : released s = s.back s.sim none := by
      simp only [released, State.back, hwheel, handling]
      rfl
    refine ⟨?_, hreleased⟩
    unfold releaseInc
    rw [hinc]
    exact hreleased
  have hcases (l : Loop) (hloop : s.wheelPc.current = some l)
      (hs : s' = if s.sim.goesOn l then { s with sim := s.sim.round l } else s.back s.sim none) : Step s .wheel s' := by
    cases hgo : s.sim.goesOn l with
    | true =>
      rw [if_pos hgo, VehicleSimulator.round_eq] at hs
      exact hs ▸ .round hloop hgo
    | false =>
      rw [if_neg (by simp [hgo])] at hs
      exact hs ▸ .leave hloop hgo
  split at h
  · next l hpc =>
    have hloop : s.wheelPc.current = some l := congrArg WheelPc.current hpc
    rw [(hleave l hloop).1] at h
    exact hcases l hloop (Option.some.inj h).symm
  · next l hpc =>
    have hloop : s.wheelPc.current = some l := congrArg WheelPc.current hpc
    rw [(hleave l hloop).2] at h
    exact hcases l hloop (Option.some.inj h).symm
  · cases h
  · cases h

theorem driveStep_step (s : State) : Step s .drive (driveStep s) := by
  unfold driveStep
  split
  · next hd =>
    split
    · have hstay : { s with drive := .top } = s := by rw [← hd]
      exact hstay ▸ .driveTop
    · exact .driveMove (.inl rfl)
  · cases ha : s.sim.cruiseActive with
    | true => exact .driveTop
    | false => exact .driveReset ha
  · next c rest hd =>
    split
    · next l hl => exact .driveCall hd hl
    · exact .driveMove (.inr (hd ▸ List.subset_cons_self c rest))
  · next l rest hd =>
    split
    · next hgo =>
      rw [VehicleSimulator.round_eq]
      exact .driveRound hd hgo
    · exact .driveMove (.inr (hd ▸ List.Subset.refl rest))

theorem step_cases {s s' : State} {a : Act} (hl : Latched s) (h : machine.step s a = some s') : Step s a s' := by
  cases a with
  | frame canId data => exact handleFrame_step hl h
  | wheel => exact wheelStep_step hl h
  | drive =>
    cases h
    exact driveStep_step s

/-! ## The latch along a run -/

theorem latched_back (s : State) (sim : VehicleSimulator) (held : Option Button) : Latched (s.back sim held) where
  waits _ := ⟨held, rfl⟩
  handles h := absurd rfl h

theorem latched_inLoop (s : State) {sim : VehicleSimulator} {pc : WheelPc} {l : Loop} (hpc : pc.current = some l)
    (ha : sim.cruiseActive = true) : Latched (s.inLoop sim pc) where
  waits h := by
    rw [show (s.inLoop sim pc).wheelPc = pc from rfl, hpc] at h
    cases h
  handles _ := ⟨rfl, ha⟩

/-- A step that leaves the handler and the cruise control alone. -/
theorem Latched.congr {s s' : State} (hl : Latched s) (hwheel : s'.wheel = s.wheel) (hpc : s'.wheelPc = s.wheelPc)
    (hmode : s'.sim.cruiseMode = s.sim.cruiseMode) (ha : s'.sim.cruiseActive = s.sim.cruiseActive) : Latched s' where
  waits h := by
    obtain ⟨held, hheld⟩ := hl.waits (hpc ▸ h)
    exact ⟨held, by rw [State.holds, hwheel, hheld, hmode, ha]⟩
  handles h := by
    have hs := hl.handles (hpc ▸ h)
    rwa [hwheel, hmode, ha]

theorem Step.latched {s s' : State} {a : Act} (hl : Latched s) (hs : Step s a s') : Latched s' := by
  cases hs with
  | skip => exact hl
  | fail hpc =>
    obtain ⟨held, hheld⟩ := hl.waits (by rw [hpc]; rfl)
    exact ⟨fun _ => ⟨held, hheld⟩, fun h => absurd rfl h⟩
  | press | enable | disable | cancel | set | unset | resumed | leave => exact latched_back _ _ _
  | decrease _ _ ha | increase _ _ ha => exact latched_inLoop s rfl ha
  | resume => exact latched_inLoop s rfl rfl
  | round | driveMove | driveTop | driveReset | driveCall | driveRound => exact hl.congr rfl rfl rfl rfl

/-- In every run the flags are those of one button. -/
theorem latched_inductive : machine.Inductive (fun _ _ => True) Latched where
  init s h := by
    subst h
    exact ⟨fun _ => ⟨none, rfl⟩, fun h => absurd rfl h⟩
  step s a s' hl _ h := (step_cases hl h).latched hl

end Agl.Simulator
