/-
The CAN vehicle simulator (`simple_can_simulator.py`) as a machine: the
speeds and the cruise control in `VehicleSimulator`, the thread that drives
the cycle (`VehicleSimulator.run`) and the thread that reads the steering
wheel (`SteeringWheelMessageHandler.run`).

Speeds are exact rationals. A thread is cut at each call of the drive
cycle, after the two rates of a loop are computed and after each round of
it, so that any number of rounds of one thread can pass between two of the
other; the handling of a frame up to its first loop is one step. The
senders only read the speeds: they are functions of a state (`Report`).
-/
import Agl.Lib.Machine
import Agl.Lib.Python

namespace Agl.Simulator

/-- `VehicleSimulator`: what the threads share. -/
structure VehicleSimulator where
  /-- `CRUISEMODE` -/
  cruiseMode : Bool
  cruiseActive : Bool
  cruiseSpeed : ℤ
  cruiseRpm : ℤ
  vehicleSpeed : ℚ
  engineSpeed : ℚ
  deriving DecidableEq, Repr

/-- A loop of `accelerate` (`up`) or of `brake` that has been entered, with
what it has computed. -/
structure Loop where
  up : Bool
  targetSpeed : ℚ
  v : ℚ
  r : ℚ
  bycruise : Bool
  deriving DecidableEq, Repr

namespace VehicleSimulator

def defaultIdleRpm : ℚ := 600

/-- Rounds in a second. -/
def freq : ℚ := 10

def reset (s : VehicleSimulator) : VehicleSimulator := { s with vehicleSpeed := 0, engineSpeed := defaultIdleRpm }

def getEngineSpeed (s : VehicleSimulator) : ℤ := Python.int s.engineSpeed

def getVehicleSpeed (s : VehicleSimulator) : ℤ := Python.int s.vehicleSpeed

/-- `accelerate` up to its loop; none where it returns. -/
def accelerate (s : VehicleSimulator) (targetSpeed targetRpm duration : ℚ) (bycruise : Bool) : Option Loop :=
  if targetSpeed ≤ s.vehicleSpeed then none
  else some
    { up := true, targetSpeed, bycruise
      v := (targetSpeed - s.vehicleSpeed) / (duration * freq)
      r := (targetRpm - s.engineSpeed) / (duration * freq) }

/-- `brake` up to its loop; none where it returns. -/
def brake (s : VehicleSimulator) (targetSpeed targetRpm duration : ℚ) (bycruise : Bool) : Option Loop :=
  if targetSpeed ≥ s.vehicleSpeed then none
  else some
    { up := false, targetSpeed, bycruise
      v := (s.vehicleSpeed - targetSpeed) / (duration * freq)
      r := (s.engineSpeed - targetRpm) / (duration * freq) }

/-- The condition of the loop. -/
def goesOn (s : VehicleSimulator) (l : Loop) : Bool :=
  (if l.up then decide (s.vehicleSpeed < l.targetSpeed) else decide (s.vehicleSpeed > l.targetSpeed)) &&
    (!s.cruiseActive || l.bycruise)

/-- The body of the loop. -/
def round (s : VehicleSimulator) (l : Loop) : VehicleSimulator :=
  if l.up then { s with vehicleSpeed := s.vehicleSpeed + l.v, engineSpeed := s.engineSpeed + l.r }
  else { s with vehicleSpeed := s.vehicleSpeed - l.v, engineSpeed := s.engineSpeed - l.r }

def increase (s : VehicleSimulator) : Option Loop :=
  if s.cruiseActive then s.accelerate (s.vehicleSpeed + 5) (s.engineSpeed * (11 / 10)) 2 true else none

def decrease (s : VehicleSimulator) : Option Loop :=
  if s.cruiseActive then s.brake (s.vehicleSpeed - 5) (s.engineSpeed * (9 / 10)) 2 true else none

def resume (s : VehicleSimulator) : Option Loop :=
  if s.cruiseSpeed > s.getVehicleSpeed then s.accelerate s.cruiseSpeed s.cruiseRpm 2 true
  else s.brake s.cruiseSpeed s.cruiseRpm 2 true

end VehicleSimulator

/-! ## The drive cycle -/

/-- A call in the drive cycle. -/
inductive Call
  | accelerate (targetSpeed targetRpm duration : ℚ)
  | brake (targetSpeed targetRpm duration : ℚ)
  deriving DecidableEq, Repr

def Call.start (s : VehicleSimulator) : Call → Option Loop
  | .accelerate targetSpeed targetRpm duration => s.accelerate targetSpeed targetRpm duration false
  | .brake targetSpeed targetRpm duration => s.brake targetSpeed targetRpm duration false

def driveCycle : List Call :=
  [.accelerate 80 3000 5, .accelerate 104 4000 3, .brake 80 3000 3, .accelerate 104 4000 6, .brake 40 2000 4,
   .accelerate 90 3000 5, .brake 1 650 5]

/-- Where `VehicleSimulator.run` is. -/
inductive DrivePc
  /-- at the head of `while True` -/
  | top
  /-- about to make these calls -/
  | calls (rest : List Call)
  /-- in a loop, with these calls to follow -/
  | loop (l : Loop) (rest : List Call)
  deriving DecidableEq, Repr

/-! ## The steering wheel -/

/-- The fields of `SteeringWheelMessageHandler`. -/
structure Wheel where
  buttonPressed : Bool
  buttonEnabled : Bool
  buttonCancel : Bool
  buttonDec : Bool
  buttonInc : Bool
  cruiseMode : Bool
  cruiseActive : Bool
  deriving DecidableEq, Repr

/-- Where `SteeringWheelMessageHandler.run` is. -/
inductive WheelPc
  /-- in `recv` -/
  | idle
  /-- in the loop of `decrease` -/
  | dec (l : Loop)
  /-- in the loop of `increase` or of `resume` -/
  | inc (l : Loop)
  /-- ended by an exception -/
  | dead
  deriving DecidableEq, Repr

structure State where
  sim : VehicleSimulator
  wheel : Wheel
  wheelPc : WheelPc
  drive : DrivePc
  deriving DecidableEq, Repr

/-- The four tests for a button that goes down. -/
def press (w : Wheel) (b : UInt8) : Wheel :=
  let w := if b = 0x80 ∧ ¬w.buttonPressed then { w with buttonPressed := true, buttonEnabled := true } else w
  let w := if b = 0x08 ∧ ¬w.buttonPressed then { w with buttonPressed := true, buttonCancel := true } else w
  let w := if b = 0x10 ∧ ¬w.buttonPressed then { w with buttonPressed := true, buttonDec := true } else w
  if b = 0x40 ∧ ¬w.buttonPressed then { w with buttonPressed := true, buttonInc := true } else w

/-- Under `if self.buttonenabled`. -/
def releaseEnabled (s : State) : State :=
  if s.wheel.buttonEnabled then
    let mode := !s.wheel.cruiseMode
    let s := { s with
      wheel := { s.wheel with buttonEnabled := false, cruiseMode := mode }
      sim := { s.sim with cruiseMode := mode } }
    if mode then s
    else { s with
      wheel := { s.wheel with cruiseActive := false }
      sim := { s.sim with cruiseActive := false, cruiseSpeed := 0, cruiseRpm := 0 } }
  else s

/-- Take the speeds as the cruise speeds, and set `cruiseactive`. -/
def storeSpeeds (s : State) (active : Bool) : State :=
  { s with
    wheel := { s.wheel with cruiseActive := active }
    sim := { s.sim with
      cruiseSpeed := s.sim.getVehicleSpeed, cruiseRpm := s.sim.getEngineSpeed, cruiseActive := active } }

/-- Under `if self.buttoncancel`. -/
def releaseCancel (s : State) : State :=
  if s.wheel.buttonCancel then storeSpeeds { s with wheel := { s.wheel with buttonCancel := false } } false else s

/-- The end of the handling of a release. -/
def released (s : State) : State := { s with wheel := { s.wheel with buttonPressed := false }, wheelPc := .idle }

/-- Under `if self.buttoninc`, and what follows. -/
def releaseInc (s : State) : State :=
  if s.wheel.buttonInc then
    let s := { s with wheel := { s.wheel with buttonInc := false } }
    if s.wheel.cruiseActive then
      match s.sim.increase with
      | some l => { s with wheelPc := .inc l }
      | none => released s
    else if s.sim.cruiseSpeed > 0 then
      let active := !s.wheel.cruiseActive
      let s := { s with
        wheel := { s.wheel with cruiseActive := active }
        sim := { s.sim with cruiseActive := active } }
      match s.sim.resume with
      | some l => { s with wheelPc := .inc l }
      | none => released s
    else released s
  else released s

/-- Under `if self.buttondec`, and what follows. -/
def releaseDec (s : State) : State :=
  if s.wheel.buttonDec then
    let s := { s with wheel := { s.wheel with buttonDec := false } }
    if s.wheel.cruiseActive then
      match s.sim.decrease with
      | some l => { s with wheelPc := .dec l }
      | none => releaseInc s
    else releaseInc (storeSpeeds s (!s.wheel.cruiseActive))
  else releaseInc s

/-- The handling of a release, up to its first loop. -/
def release (s : State) : State := releaseDec (releaseCancel (releaseEnabled s))

/-! ## The machine -/

/-- `recv` returns a frame. -/
def handleFrame (s : State) (canId : ℕ) (data : List UInt8) : Option State :=
  if s.wheelPc = .idle then
    if canId = 0x21 ∧ data ≠ [] then
      match Python.index data 6 with
      | .ok b =>
        let s := { s with wheel := press s.wheel b }
        some (if b = 0x00 ∧ s.wheel.buttonPressed then release s else s)
      | .error _ => some { s with wheelPc := .dead }
    else some s
  else none

/-- A round of the loop a button is in, or what follows the loop. -/
def wheelStep (s : State) : Option State :=
  match s.wheelPc with
  | .dec l => some (if s.sim.goesOn l then { s with sim := s.sim.round l } else releaseInc s)
  | .inc l => some (if s.sim.goesOn l then { s with sim := s.sim.round l } else released s)
  | .idle | .dead => none

/-- One step of `VehicleSimulator.run`. The test of a loop is made outside the
lock; it is taken together with the round that follows it. -/
def driveStep (s : State) : State :=
  match s.drive with
  | .top => if s.sim.cruiseActive then s else { s with drive := .calls driveCycle }
  | .calls [] => { s with sim := if s.sim.cruiseActive then s.sim else s.sim.reset, drive := .top }
  | .calls (c :: rest) =>
    match c.start s.sim with
    | some l => { s with drive := .loop l rest }
    | none => { s with drive := .calls rest }
  | .loop l rest => if s.sim.goesOn l then { s with sim := s.sim.round l } else { s with drive := .calls rest }

inductive Act
  /-- the steering wheel's thread receives a frame -/
  | frame (canId : ℕ) (data : List UInt8)
  /-- the steering wheel's thread goes on in a loop -/
  | wheel
  /-- the drive thread goes on -/
  | drive
  deriving DecidableEq, Repr

def step (s : State) : Act → Option State
  | .frame canId data => handleFrame s canId data
  | .wheel => wheelStep s
  | .drive => some (driveStep s)

/-- After `main` has started the threads. -/
def start : State :=
  { sim :=
      { cruiseMode := false, cruiseActive := false, cruiseSpeed := 0, cruiseRpm := 0, vehicleSpeed := 0
        engineSpeed := VehicleSimulator.defaultIdleRpm }
    wheel :=
      { buttonPressed := false, buttonEnabled := false, buttonCancel := false, buttonDec := false, buttonInc := false
        cruiseMode := false, cruiseActive := false }
    wheelPc := .idle
    drive := .top }

def machine : Machine State Act where
  init s := s = start
  step := step

end Agl.Simulator
