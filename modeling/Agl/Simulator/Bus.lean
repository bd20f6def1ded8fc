/-
The simulator on the bus: the packets of `CANSocket` and the thread that
answers OBD-II requests (`DiagnosticMessageHandler.run`).

The thread reads one packet after the other and ends with the first that
raises an exception: a packet of another size than a frame's, a request too
short to be looked at, an engine speed that does not fit the reply. Until
then it answers each request for a speed, in their order, with the speed at
that moment (`diagnostics_run`), of the vehicle modulo 256. That the socket
itself fails is left out.
-/
import Agl.Lib.Words
import Agl.Simulator.Report

namespace Agl.Simulator

open Python

/-! ## CANSocket -/

/-- What ends a thread. -/
inductive Raised
  /-- `struct.error` -/
  | struct
  | python (e : Err)
  deriving DecidableEq, Repr

/-- `struct.pack("<IB3x8s", canId, length, data)`, with `size` for the 8: the
data is cut, or filled up with zeros. -/
def pack (size canId length : ℕ) (data : List UInt8) : Except Raised (List UInt8) :=
  if canId < 2 ^ 32 ∧ length < 256 then
    .ok (le32Bytes (UInt32.ofNat canId) ++ ([UInt8.ofNat length, 0, 0, 0] ++
      (data.take size ++ List.replicate (size - data.length) 0)))
  else .error .struct

/-- `struct.unpack("<IB3x8s", pkt)` -/
def unpack (size : ℕ) (pkt : List UInt8) : Except Raised (ℕ × ℕ × List UInt8) :=
  if pkt.length = 8 + size then
    .ok (((Mem.ofList pkt fun _ => 0).le32 0).toNat, (pkt.getD 4 0).toNat, pkt.drop 8)
  else .error .struct

/-- `socket.CAN_EFF_MASK` -/
def canEffMask : ℕ := 0x1FFFFFFF

namespace CANSocket

/-- `CANSocket.send`: the packet written. -/
def send (canId : ℕ) (data : List UInt8) (flags : ℕ) : Except Raised (List UInt8) :=
  pack 8 (canId ||| flags) data.length data

/-- `CANSocket.recv`, when the socket gives `pkt`. -/
def recv (pkt : List UInt8) : Except Raised (ℕ × List UInt8) :=
  (if pkt.length = 16 then unpack 8 pkt else unpack 64 pkt).map fun x => (x.1 &&& canEffMask, x.2.2.take x.2.1)

end CANSocket

/-! ## DiagnosticMessageHandler.run -/

/-- One round of the loop: a packet is read, and answered or not. -/
def diagRound (s : VehicleSimulator) (pkt : List UInt8) : Except Raised (Option (List UInt8)) :=
  match CANSocket.recv pkt with
  | .error e => .error e
  | .ok (canId, data) =>
    match diagnostic s canId data with
    | .error e => .error (.python e)
    | .ok none => .ok none
    | .ok (some f) => (CANSocket.send f.canId f.data 0).map some

/-- The packets written for those read, and what ended the thread; each
packet comes with the state it is handled in. -/
def diagRun : List (VehicleSimulator × List UInt8) → List (List UInt8) × Option Raised
  | [] => ([], none)
  | (s, pkt) :: rest =>
    match diagRound s pkt with
    | .error e => ([], some e)
    | .ok reply => (reply.toList ++ (diagRun rest).1, (diagRun rest).2)

/-! ## What is asked, what is answered -/

/-- The parameter a packet asks for. -/
def asked (pkt : List UInt8) : Option UInt8 :=
  match CANSocket.recv pkt with
  | .error _ => none
  | .ok (canId, data) => if canId = 0x7df ∧ data[1]? = some 0x01 then data[2]? else none

/-- A request for one of the two speeds. -/
def isRequest (pkt : List UInt8) : Bool := asked pkt = some 0x0C ∨ asked pkt = some 0x0D

/-- The packet can be read, a request is long enough to be looked at, and the engine speed asked for fits. -/
def survives (s : VehicleSimulator) (pkt : List UInt8) : Bool :=
  match CANSocket.recv pkt with
  | .error _ => false
  | .ok (canId, data) =>
    canId ≠ 0x7df ∨ 2 ≤ data.length ∧ (data[1]? = some 0x01 → 3 ≤ data.length) ∧
      (asked pkt = some 0x0C → 0 ≤ s.getEngineSpeed ∧ s.getEngineSpeed < 16384)

/-- The reply is a frame of eight bytes that tells the speed asked for. -/
def Answers (s : VehicleSimulator) (pkt reply : List UInt8) : Prop :=
  ∃ data, CANSocket.recv reply = .ok (0x7e8, data) ∧ data.length = 8 ∧ data[1]? = some 0x41 ∧ data[2]? = asked pkt ∧
    (asked pkt = some 0x0C → quarterRpm data 3 = some (s.getEngineSpeed : ℚ)) ∧
    (asked pkt = some 0x0D → kmh data 3 = some ((s.getVehicleSpeed % 256 : ℤ) : ℚ))

/-! ## Packets -/

theorem unpack_pack {size canId length : ℕ} {data pkt : List UInt8} (hp : pack size canId length data = .ok pkt) :
    pkt.length = 8 + size ∧ unpack size pkt =
      .ok (canId, length, data.take size ++ List.replicate (size - data.length) 0) := by
  unfold pack at hp
  split at hp
  · next h =>
    cases hp
    have hlen : (le32Bytes (UInt32.ofNat canId) ++ ([UInt8.ofNat length, 0, 0, 0] ++
        (data.take size ++ List.replicate (size - data.length) 0))).length = 8 + size := by
      simp only [List.length_append, length_le32Bytes, List.length_cons, List.length_nil, List.length_take,
        List.length_replicate]
      omega
    refine ⟨hlen, ?_⟩
    have hid := (Mem.holds_ofList (le32Bytes (UInt32.ofNat canId) ++ ([UInt8.ofNat length, 0, 0, 0] ++
      (data.take size ++ List.replicate (size - data.length) 0))) fun _ => 0).left.le32
    rw [unpack, if_pos hlen, hid, UInt32.toNat_ofNat_of_lt' h.1]
    have hlength : (UInt8.ofNat length).toNat = length := UInt8.toNat_ofNat_of_lt' h.2
    simp [le32Bytes, hlength]
  · cases hp

/-- What is sent is received. -/
theorem recv_send {canId : ℕ} {data : List UInt8} (hid : canId ≤ canEffMask) (hlen : data.length ≤ 8) :
    ∃ pkt, CANSocket.send canId data 0 = .ok pkt ∧ CANSocket.recv pkt = .ok (canId, data) := by
  have hlt : canId < 2 ^ 29 := Nat.lt_succ_of_le hid
  have hok : ∃ pkt, CANSocket.send canId data 0 = .ok pkt := by
    rw [CANSocket.send, pack, if_pos]
    · exact ⟨_, rfl⟩
    · rw [Nat.or_zero]
      omega
  obtain ⟨pkt, hpkt⟩ := hok
  obtain ⟨h16, hun⟩ := unpack_pack hpkt
  refine ⟨pkt, hpkt, ?_⟩
  have hmask : canId &&& canEffMask = canId := Nat.and_two_pow_sub_one_of_lt_two_pow hlt
  have htake : (data.take 8 ++ List.replicate (8 - data.length) 0).take data.length = data := by
    rw [List.take_of_length_le hlen, List.take_left']
    rfl
  simp only [CANSocket.recv, h16, if_true, hun, Except.map, Nat.or_zero, hmask, htake]

/-! ## One round -/

/-- The engine speed is sent exactly when it fits. -/
theorem diagnosticEngine_ok {s : VehicleSimulator} (h : 0 ≤ s.getEngineSpeed ∧ s.getEngineSpeed < 16384) :
    ∃ hi lo : UInt8, diagnosticEngine s = .ok ⟨0x7e8, [0x04, 0x41, 0x0C, hi, lo, 0, 0, 0]⟩ ∧
      ((256 * hi.toNat + lo.toNat : ℕ) : ℚ) / 4 = s.getEngineSpeed := by
  obtain ⟨hi, lo, hhi, hlo, hword⟩ := engine_word h.1 h.2
  refine ⟨hi, lo, ?_, hword.trans (min_of_lt h.2)⟩
  simp only [diagnosticEngine, send, bytes, List.cons_append, List.nil_append, hhi, hlo]
  rfl

theorem range_of_diagnosticEngine {s : VehicleSimulator} {f : Frame} (h : diagnosticEngine s = .ok f) :
    0 ≤ s.getEngineSpeed ∧ s.getEngineSpeed < 16384 := by
  obtain ⟨hi, hhi⟩ : ∃ hi, byte (((capped s.getEngineSpeed).mul 4).floorDiv 256) = .ok hi :=
    byte_of_bytes (bytes_of_send h) (by simp)
  exact range_of_engine hhi

/-- The vehicle speed is sent modulo 256. -/
theorem diagnosticVehicle_ok (s : VehicleSimulator) : ∃ b : UInt8,
    diagnosticVehicle s = .ok ⟨0x7e8, [0x03, 0x41, 0x0D, b, 0, 0, 0, 0]⟩ ∧
      (b.toNat : ℚ) = ((s.getVehicleSpeed % 256 : ℤ) : ℚ) := by
  have hmod : (Number.int s.getVehicleSpeed).mod 256 = .int (s.getVehicleSpeed % 256) := by
    rw [Number.mod, Int.fmod_eq_emod_of_nonneg _ (by decide)]
  obtain ⟨n, hn⟩ := Int.eq_ofNat_of_zero_le (Int.emod_nonneg s.getVehicleSpeed (b := 256) (by decide))
  have hlt : n < 256 := by omega
  have hb : byte ((Number.int s.getVehicleSpeed).mod 256) = .ok (UInt8.ofNat n) := by
    rw [hmod, hn]
    exact byte_nat hlt
  refine ⟨UInt8.ofNat n, ?_, ?_⟩
  · simp only [diagnosticVehicle, send, bytes, List.cons_append, List.nil_append, hb]
    rfl
  · rw [UInt8.toNat_ofNat_of_lt' hlt, hn]
    rfl

theorem getElem?_length {data : List UInt8} {i : ℕ} {b : UInt8} (h : data[i]? = some b) : i + 1 ≤ data.length :=
  (List.getElem?_eq_some_iff.mp h).1

/-- A frame of the simulator's own is received as it was sent. -/
theorem answer_sent {f : Frame} (hid : f.canId = 0x7e8) (hlen : f.data.length = 8) :
    ∃ r, CANSocket.send f.canId f.data 0 = .ok r ∧ CANSocket.recv r = .ok (0x7e8, f.data) := by
  rw [hid]
  exact recv_send (by decide) (Nat.le_of_eq hlen)

/-- The round of a packet that asks for a parameter. -/
theorem diagRound_asked {s : VehicleSimulator} {pkt data : List UInt8} {pid : UInt8}
    (hrecv : CANSocket.recv pkt = .ok (0x7df, data)) (hmode : data[1]? = some 0x01) (hpid : data[2]? = some pid)
    (hasked : asked pkt = some pid) :
    (¬(pid = 0x0C → 0 ≤ s.getEngineSpeed ∧ s.getEngineSpeed < 16384) → ∃ e, diagRound s pkt = .error e) ∧
      ((pid = 0x0C → 0 ≤ s.getEngineSpeed ∧ s.getEngineSpeed < 16384) → ∃ reply, diagRound s pkt = .ok reply ∧
        if isRequest pkt then ∃ r, reply = some r ∧ Answers s pkt r else reply = none) := by
  by_cases hengine : pid = 0x0C
  · subst hengine
    have hround : diagRound s pkt = match (diagnosticEngine s).map some with
        | .error e => .error (.python e)
        | .ok none => .ok none
        | .ok (some f) => (CANSocket.send f.canId f.data 0).map some := by
      simp only [diagRound, hrecv, diagnostic, index, hmode, hpid]
      rfl
    refine ⟨fun hrange => ?_, fun hrange => ?_⟩
    · cases hd : diagnosticEngine s with
      | error e =>
        rw [hround, hd]
        exact ⟨_, rfl⟩
      | ok f => exact absurd (fun _ => range_of_diagnosticEngine hd) hrange
    · obtain ⟨hi, lo, hd, hword⟩ := diagnosticEngine_ok (hrange rfl)
      obtain ⟨r, hsend, hback⟩ := answer_sent (f := ⟨0x7e8, [0x04, 0x41, 0x0C, hi, lo, 0, 0, 0]⟩) rfl rfl
      refine ⟨some r, ?_, ?_⟩
      · rw [hround, hd]
        simp only [Except.map, hsend]
      · rw [if_pos (by simp [isRequest, hasked])]
        exact ⟨r, rfl, _, hback, rfl, rfl, hasked.symm, fun _ => congrArg some hword, fun h => by simp [hasked] at h⟩
  · refine ⟨fun h => absurd (fun he => absurd he hengine) h, fun _ => ?_⟩
    by_cases hvehicle : pid = 0x0D
    · subst hvehicle
      obtain ⟨b, hd, hb⟩ := diagnosticVehicle_ok s
      obtain ⟨r, hsend, hback⟩ := answer_sent (f := ⟨0x7e8, [0x03, 0x41, 0x0D, b, 0, 0, 0, 0]⟩) rfl rfl
      refine ⟨some r, ?_, ?_⟩
      · simp only [diagRound, hrecv, diagnostic, index, hmode, hpid, hd]
        simp [bind, Except.bind, Except.map, hsend]
      · rw [if_pos (by simp [isRequest, hasked])]
        exact ⟨r, rfl, _, hback, rfl, rfl, hasked.symm, fun h => by simp [hasked] at h, fun _ => congrArg some hb⟩
    · refine ⟨none, ?_, ?_⟩
      · simp only [diagRound, hrecv, diagnostic, index, hmode, hpid]
        simp [bind, Except.bind, hengine, hvehicle, pure, Except.pure]
      · rw [if_neg (by simp [isRequest, hasked, hengine, hvehicle])]

/-- A round ends the thread, or answers the packet if it is a request. -/
theorem diagRound_spec (s : VehicleSimulator) (pkt : List UInt8) :
    (survives s pkt = false → ∃ e, diagRound s pkt = .error e) ∧
      (survives s pkt = true → ∃ reply, diagRound s pkt = .ok reply ∧
        if isRequest pkt then ∃ r, reply = some r ∧ Answers s pkt r else reply = none) := by
  cases hrecv : CANSocket.recv pkt with
  | error e =>
    refine ⟨fun _ => ⟨e, by simp only [diagRound, hrecv]⟩, fun h => ?_⟩
    simp [survives, hrecv] at h
  | ok x =>
    obtain ⟨canId, data⟩ := x
    by_cases hid : canId = 0x7df
    · subst hid
      cases hmode : data[1]? with
      | none =>
        have hlen : ¬2 ≤ data.length := Nat.not_le.mpr (Nat.lt_succ_of_le (List.getElem?_eq_none_iff.mp hmode))
        refine ⟨fun _ => ⟨.python .indexError, ?_⟩, fun h => ?_⟩
        · simp only [diagRound, hrecv, diagnostic, index, hmode]
          rfl
        · simp [survives, hrecv, hlen] at h
      | some mode =>
        have hlen : 2 ≤ data.length := getElem?_length hmode
        by_cases hone : mode = 0x01
        · subst hone
          cases hpid : data[2]? with
          | none =>
            have hlen : ¬3 ≤ data.length := Nat.not_le.mpr (Nat.lt_succ_of_le (List.getElem?_eq_none_iff.mp hpid))
            refine ⟨fun _ => ⟨.python .indexError, ?_⟩, fun h => ?_⟩
            · simp only [diagRound, hrecv, diagnostic, index, hmode, hpid]
              rfl
            · simp [survives, hrecv, hlen, hmode] at h
          | some pid =>
            have hasked : asked pkt = some pid := by simp [asked, hrecv, hmode, hpid]
            have hsurvives : survives s pkt = true ↔
                (pid = 0x0C → 0 ≤ s.getEngineSpeed ∧ s.getEngineSpeed < 16384) := by
              simp [survives, hrecv, hmode, hasked, hlen, getElem?_length hpid, imp_iff_not_or]
            rw [← Bool.not_eq_true, hsurvives]
            exact diagRound_asked hrecv hmode hpid hasked
        · have hasked : asked pkt = none := by simp [asked, hrecv, hmode, hone]
          have hdiag : diagRound s pkt = .ok none := by
            simp only [diagRound, hrecv, diagnostic, index, hmode]
            simp [bind, Except.bind, hone, pure, Except.pure]
          refine ⟨fun h => ?_, fun _ => ⟨none, hdiag, by simp [isRequest, hasked]⟩⟩
          simp [survives, hrecv, hlen, hmode, hone, hasked] at h
    · have hasked : asked pkt = none := by simp [asked, hrecv, hid]
      have hdiag : diagRound s pkt = .ok none := by
        simp [diagRound, hrecv, diagnostic, hid, pure, Except.pure]
      refine ⟨fun h => ?_, fun _ => ⟨none, hdiag, by simp [isRequest, hasked]⟩⟩
      simp [survives, hrecv, hid] at h

/-! ## The thread -/

/-- **The diagnostic thread answers until it dies.** For every sequence of
packets, each with the state the other threads have left by then: the thread
lives on after all of them exactly if none of them ends it, and until one
does, the packets it writes are, one for one and in order, the answers to the
requests, which tell the engine speed of that moment, or the vehicle speed
modulo 256. -/
theorem diagnostics_run (l : List (VehicleSimulator × List UInt8)) :
    ((diagRun l).2 = none ↔ ∀ x ∈ l, survives x.1 x.2 = true) ∧
      List.Forall₂ (fun x reply => Answers x.1 x.2 reply)
        ((l.takeWhile fun x => survives x.1 x.2).filter fun x => isRequest x.2) (diagRun l).1 := by
  induction l with
  | nil => exact ⟨by simp [diagRun], .nil⟩
  | cons x rest ih =>
    obtain ⟨s, pkt⟩ := x
    obtain ⟨hdies, hgoes⟩ := diagRound_spec s pkt
    cases hs : survives s pkt with
    | false =>
      obtain ⟨e, he⟩ := hdies hs
      simp [diagRun, he, hs]
    | true =>
      obtain ⟨reply, hr, hif⟩ := hgoes hs
      refine ⟨?_, ?_⟩
      · simp only [diagRun, hr, List.forall_mem_cons, hs, true_and]
        exact ih.1
      · simp only [diagRun, hr, List.takeWhile_cons, hs, if_true, List.filter_cons]
        split at hif
        · next hreq =>
          obtain ⟨r, rfl, hans⟩ := hif
          rw [if_pos hreq]
          exact .cons hans ih.2
        · next hreq =>
          rw [if_neg hreq, hif]
          exact ih.2

end Agl.Simulator
