/-
What the simulator reports: the frames of `StatusMessageSender` and the
replies of `DiagnosticMessageHandler`, as functions of what they read.

Engine speed goes out in quarters of a revolution, vehicle speed in 1/128
km/h or whole km/h. The cap on the engine speed replaces the `int` by a
`float`, which `bytes` refuses; the vehicle speed is taken modulo 256. So a
state reports its speeds exactly when both are in range (`reports_iff`).
-/
import Agl.Simulator.Vehicle

namespace Agl.Simulator

open Python

/-- A frame on the CAN bus. -/
structure Frame where
  canId : ℕ
  data : List UInt8
  deriving DecidableEq, Repr

/-- `can_sock.send(can_id, bytes(msg), 0)` -/
def send (canId : ℕ) (msg : List Number) : Except Err Frame := (bytes msg).map (Frame.mk canId)

/-- The engine speed with its cap. -/
def capped (speed : ℤ) : Number := if (speed : ℚ) > 16383.75 then .float 16383.75 else .int speed

/-! ## StatusMessageSender -/

def statusEngine (s : VehicleSimulator) : Except Err Frame :=
  let speed := (capped s.getEngineSpeed).mul 4
  send 0x3d9 ([.int 0, .int 0] ++ [speed.floorDiv 256, speed.mod 256] ++ [.int 0, .int 0, .int 0, .int 0])

def statusVehicle (s : VehicleSimulator) : Except Err Frame :=
  let speed := ((Number.int s.getVehicleSpeed).mod 256).mul 128
  send 0x3e9 ([speed.floorDiv 256, speed.mod 256] ++ [.int 0, .int 0, .int 0, .int 0, .int 0, .int 0])

/-! ## DiagnosticMessageHandler -/

def diagnosticEngine (s : VehicleSimulator) : Except Err Frame :=
  let speed := (capped s.getEngineSpeed).mul 4
  send 0x7e8 ([.int 0x04, .int 0x41, .int 0x0C] ++ [speed.floorDiv 256, speed.mod 256] ++ [.int 0, .int 0, .int 0])

def diagnosticVehicle (s : VehicleSimulator) : Except Err Frame :=
  let speed := (Number.int s.getVehicleSpeed).mod 256
  send 0x7e8 ([.int 0x03, .int 0x41, .int 0x0D] ++ [speed] ++ [.int 0, .int 0, .int 0, .int 0])

/-- The reply to a frame, if it is a request. -/
def diagnostic (s : VehicleSimulator) (canId : ℕ) (data : List UInt8) : Except Err (Option Frame) :=
  if canId = 0x7df then do
    let mode ← index data 1
    if mode = 0x01 then
      let pid ← index data 2
      if pid = 0x0C then (diagnosticEngine s).map some
      else if pid = 0x0D then (diagnosticVehicle s).map some
      else return none
    else return none
  else return none

/-! ## Decoding -/

/-- Quarters of a revolution, big endian at place `i`. -/
def quarterRpm (data : List UInt8) (i : ℕ) : Option ℚ := (word data i).map fun w => (w : ℚ) / 4

/-- 1/128 km/h, big endian at place `i`. -/
def scaledKmh (data : List UInt8) (i : ℕ) : Option ℚ := (word data i).map fun w => (w : ℚ) / 128

/-- km/h at place `i` -/
def kmh (data : List UInt8) (i : ℕ) : Option ℚ := data[i]?.map fun b => (b.toNat : ℚ)

/-- The frame is built under this identifier, and decoding it gives `x`. -/
def Tells (frame : Except Err Frame) (canId : ℕ) (decode : List UInt8 → Option ℚ) (x : ℚ) : Prop :=
  ∃ data, frame = .ok ⟨canId, data⟩ ∧ decode data = some x

/-- A reply is sent, and it is this frame. -/
def Replies (s : VehicleSimulator) (pid : UInt8) (decode : List UInt8 → Option ℚ) (x : ℚ) : Prop :=
  ∀ data : List UInt8, data[1]? = some 0x01 → data[2]? = some pid →
    ∃ reply, diagnostic s 0x7df data = .ok (some ⟨0x7e8, reply⟩) ∧ decode reply = some x

/-- The senders report the speeds of the state. -/
structure Reports (s : VehicleSimulator) : Prop where
  engine : Tells (statusEngine s) 0x3d9 (quarterRpm · 2) (min s.getEngineSpeed 16383.75)
  vehicle : Tells (statusVehicle s) 0x3e9 (scaledKmh · 0) s.getVehicleSpeed
  engineReply : Replies s 0x0C (quarterRpm · 3) (min s.getEngineSpeed 16383.75)
  vehicleReply : Replies s 0x0D (kmh · 3) s.getVehicleSpeed

theorem bytes_of_send {canId : ℕ} {msg : List Number} {f : Frame} (h : send canId msg = .ok f) :
    bytes msg = .ok f.data := by
  unfold send at h
  cases hb : bytes msg with
  | error e =>
    rw [hb] at h
    cases h
  | ok data =>
    rw [hb] at h
    cases h
    rfl

/-! ## Engine speed -/

theorem cap_le_iff {n : ℤ} : (n : ℚ) > 16383.75 ↔ 16384 ≤ n := by
  constructor
  · intro h
    have hlt : ((16383 : ℤ) : ℚ) < n := lt_trans (by norm_num) h
    have hlt : 16383 < n := Int.cast_lt.mp hlt
    omega
  · intro h
    have hle : ((16384 : ℤ) : ℚ) ≤ n := Int.cast_le.mpr h
    exact lt_of_lt_of_le (by norm_num) hle

/-- Below the cap the number stays an `int`. -/
theorem capped_of_lt {n : ℤ} (h : n < 16384) : capped n = .int n := if_neg fun hcap => by
  have := cap_le_iff.mp hcap
  omega

theorem min_of_lt {n : ℤ} (h : n < 16384) : min (n : ℚ) 16383.75 = n := min_eq_left (not_lt.mp fun hcap => by
  have := cap_le_iff.mp hcap
  omega)

/-- The two bytes of the engine speed are built, and read back. -/
theorem engine_word {n : ℤ} (hpos : 0 ≤ n) (hlt : n < 16384) : ∃ hi lo : UInt8,
    byte (((capped n).mul 4).floorDiv 256) = .ok hi ∧ byte (((capped n).mul 4).mod 256) = .ok lo ∧
      ((256 * hi.toNat + lo.toNat : ℕ) : ℚ) / 4 = min (n : ℚ) 16383.75 := by
  obtain ⟨m, rfl⟩ := Int.eq_ofNat_of_zero_le hpos
  have hw : m * 4 < 65536 := by omega
  have hnum : (capped m).mul 4 = .int ((m * 4 : ℕ) : ℤ) := by
    rw [capped_of_lt hlt]
    simp only [Number.mul, Nat.cast_mul, Nat.cast_ofNat]
  obtain ⟨hhi, hlo⟩ := byte_word hw
  refine ⟨_, _, hnum ▸ hhi, hnum ▸ hlo, ?_⟩
  rw [word_bytes hw, min_of_lt hlt]
  push_cast
  ring

/-- An engine speed whose high byte is built is in range. -/
theorem range_of_engine {n : ℤ} {b : UInt8} (h : byte (((capped n).mul 4).floorDiv 256) = .ok b) :
    0 ≤ n ∧ n < 16384 := by
  obtain ⟨w, hw, hnum⟩ := word_of_byte h
  unfold capped at hnum
  split at hnum
  · cases hnum
  · next hcap =>
    have hlt : n < 16384 := not_le.mp fun hle => hcap (cap_le_iff.mpr hle)
    have heq : n * 4 = w := Number.int.inj hnum
    omega

/-! ## Vehicle speed -/

theorem mod_of_range {n : ℤ} (hpos : 0 ≤ n) (hlt : n < 256) : (Number.int n).mod 256 = .int n := by
  rw [Number.mod, Int.fmod_eq_emod_of_nonneg _ (by decide), Int.emod_eq_of_lt hpos hlt]

theorem vehicle_word {n : ℤ} (hpos : 0 ≤ n) (hlt : n < 256) : ∃ hi lo : UInt8,
    byte ((((Number.int n).mod 256).mul 128).floorDiv 256) = .ok hi ∧
      byte ((((Number.int n).mod 256).mul 128).mod 256) = .ok lo ∧
      ((256 * hi.toNat + lo.toNat : ℕ) : ℚ) / 128 = n := by
  rw [mod_of_range hpos hlt]
  obtain ⟨m, rfl⟩ := Int.eq_ofNat_of_zero_le hpos
  have hw : m * 128 < 65536 := by omega
  have hnum : (Number.int m).mul 128 = .int ((m * 128 : ℕ) : ℤ) := by
    simp only [Number.mul, Nat.cast_mul, Nat.cast_ofNat]
  obtain ⟨hhi, hlo⟩ := byte_word hw
  refine ⟨_, _, hnum ▸ hhi, hnum ▸ hlo, ?_⟩
  rw [word_bytes hw]
  push_cast
  ring

/-! ## Reports -/

theorem reports_of_range {s : VehicleSimulator} (hv : 0 ≤ s.getVehicleSpeed ∧ s.getVehicleSpeed < 256)
    (he : 0 ≤ s.getEngineSpeed ∧ s.getEngineSpeed < 16384) : Reports s := by
  obtain ⟨hi, lo, hhi, hlo, hword⟩ := engine_word he.1 he.2
  obtain ⟨vhi, vlo, hvhi, hvlo, hvword⟩ := vehicle_word hv.1 hv.2
  constructor
  · refine ⟨[0, 0, hi, lo, 0, 0, 0, 0], ?_, congrArg some hword⟩
    simp only [statusEngine, send, bytes, List.cons_append, List.nil_append, hhi, hlo]
    rfl
  · refine ⟨[vhi, vlo, 0, 0, 0, 0, 0, 0], ?_, congrArg some hvword⟩
    simp only [statusVehicle, send, bytes, List.cons_append, List.nil_append, hvhi, hvlo]
    rfl
  · intro data hmode hpid
    refine ⟨[0x04, 0x41, 0x0C, hi, lo, 0, 0, 0], ?_, congrArg some hword⟩
    simp only [diagnostic, diagnosticEngine, index, hmode, hpid, send, bytes, List.cons_append, List.nil_append, hhi,
      hlo]
    rfl
  · intro data hmode hpid
    obtain ⟨m, hm⟩ := Int.eq_ofNat_of_zero_le hv.1
    have hlt : m < 256 := by omega
    have hb : byte ((Number.int s.getVehicleSpeed).mod 256) = .ok (UInt8.ofNat m) := by
      rw [mod_of_range hv.1 hv.2, hm]
      exact byte_nat hlt
    have hnum : ((UInt8.ofNat m).toNat : ℚ) = s.getVehicleSpeed := by
      rw [UInt8.toNat_ofNat', Nat.mod_eq_of_lt hlt, hm]
      rfl
    refine ⟨[0x03, 0x41, 0x0D, UInt8.ofNat m, 0, 0, 0, 0], ?_, congrArg some hnum⟩
    simp only [diagnostic, diagnosticVehicle, index, hmode, hpid, send, bytes, List.cons_append, List.nil_append, hb]
    rfl

theorem Reports.engineSpeed {s : VehicleSimulator} (h : Reports s) :
    0 ≤ s.getEngineSpeed ∧ s.getEngineSpeed < 16384 := by
  obtain ⟨data, hframe, -⟩ := h.engine
  obtain ⟨hi, hhi⟩ : ∃ hi, byte (((capped s.getEngineSpeed).mul 4).floorDiv 256) = .ok hi :=
    byte_of_bytes (bytes_of_send hframe) (by simp)
  exact range_of_engine hhi

theorem Reports.vehicleSpeed {s : VehicleSimulator} (h : Reports s) :
    0 ≤ s.getVehicleSpeed ∧ s.getVehicleSpeed < 256 := by
  obtain ⟨reply, -, hkmh⟩ := h.vehicleReply [0, 0x01, 0x0D] rfl rfl
  obtain ⟨b, -, hb⟩ := Option.map_eq_some_iff.mp hkmh
  have hb : ((b.toNat : ℤ) : ℚ) = s.getVehicleSpeed := hb
  have hb : (b.toNat : ℤ) = s.getVehicleSpeed := Int.cast_inj.mp hb
  have hlt := b.toNat_lt
  omega

/-- The speeds are reported exactly when a frame can carry them. -/
theorem reports_iff {s : VehicleSimulator} : Reports s ↔
    (-1 < s.vehicleSpeed ∧ s.vehicleSpeed < 256) ∧ -1 < s.engineSpeed ∧ s.engineSpeed < 16384 := by
  have hv : (0 ≤ s.getVehicleSpeed ∧ s.getVehicleSpeed < 256) ↔ -1 < s.vehicleSpeed ∧ s.vehicleSpeed < 256 :=
    and_congr int_nonneg_iff (int_lt_iff (n := 256) (by decide))
  have he : (0 ≤ s.getEngineSpeed ∧ s.getEngineSpeed < 16384) ↔ -1 < s.engineSpeed ∧ s.engineSpeed < 16384 :=
    and_congr int_nonneg_iff (int_lt_iff (n := 16384) (by decide))
  rw [← hv, ← he]
  exact ⟨fun h => ⟨h.vehicleSpeed, h.engineSpeed⟩, fun h => reports_of_range h.1 h.2⟩

end Agl.Simulator
