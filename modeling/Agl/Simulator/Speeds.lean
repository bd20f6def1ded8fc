/-
Which speeds the simulator reaches.

A loop of `accelerate` or `brake` goes from the two speeds it is entered at
to the target speed and the target rpm in equal steps (`Aims`), so it stays
in range when both ends are. The targets of the drive cycle are in range,
and so is what was stored for a resume; those of an increase or a decrease
need not be, and a loop whose speeds have been changed under it aims
nowhere. Without these three the speeds are reported in every run
(`reports_when`).
-/
import Agl.Lib.Ramp
import Agl.Simulator.Buttons
import Agl.Simulator.Report

namespace Agl.Simulator

/-! ## Ranges -/

/-- Where the speeds are kept. -/
def safe : Set (ℚ × ℚ) := Set.Ioo (-1) 256 ×ˢ Set.Ico 0 16384

theorem convex_safe : Convex ℚ safe := (convex_Ioo _ _).prod (convex_Ico _ _)

theorem reports_of_safe {s : VehicleSimulator} (h : s.speeds ∈ safe) : Reports s := by
  obtain ⟨hv, hpos, hlt⟩ := h
  have hneg : (-1 : ℚ) < 0 := by norm_num
  exact reports_iff.mpr ⟨hv, hneg.trans_le hpos, hlt⟩

theorem safe_idle : ((0 : ℚ), VehicleSimulator.defaultIdleRpm) ∈ safe := by
  unfold VehicleSimulator.defaultIdleRpm
  exact ⟨⟨by norm_num, by norm_num⟩, by norm_num, by norm_num⟩

theorem safe_zero : (((0 : ℤ) : ℚ), ((0 : ℤ) : ℚ)) ∈ safe := ⟨⟨by norm_num, by norm_num⟩, by norm_num, by norm_num⟩

/-- The speeds as they are read are in range too. -/
theorem safe_int {s : VehicleSimulator} (h : s.speeds ∈ safe) :
    ((s.getVehicleSpeed : ℚ), (s.getEngineSpeed : ℚ)) ∈ safe := by
  obtain ⟨⟨hvpos, hvlt⟩, hepos, helt⟩ := h
  have hv : 0 ≤ s.getVehicleSpeed ∧ s.getVehicleSpeed < (256 : ℕ) :=
    ⟨Python.int_nonneg_iff.mpr hvpos, (Python.int_lt_iff (by decide)).mpr hvlt⟩
  have he : 0 ≤ s.getEngineSpeed ∧ s.getEngineSpeed < (16384 : ℕ) := by
    dsimp only [VehicleSimulator.speeds] at hepos
    exact ⟨Python.int_nonneg_iff.mpr (by linarith), (Python.int_lt_iff (by decide)).mpr helt⟩
  have hvpos : (0 : ℚ) ≤ s.getVehicleSpeed := Int.cast_nonneg hv.1
  have hvlt : (s.getVehicleSpeed : ℚ) < (256 : ℤ) := Int.cast_lt.mpr hv.2
  have hepos : (0 : ℚ) ≤ s.getEngineSpeed := Int.cast_nonneg he.1
  have helt : (s.getEngineSpeed : ℚ) < (16384 : ℤ) := Int.cast_lt.mpr he.2
  exact ⟨⟨by linarith, hvlt⟩, hepos, helt⟩

/-! ## Loops -/

/-- From the speeds `x` the loop has `n` rounds to go, and ends at `t`. -/
structure Aims (x : ℚ × ℚ) (l : Loop) (n : ℕ) (t : ℚ × ℚ) : Prop where
  ramp : Ramp n x l.rate t
  target : t.1 = l.targetSpeed
  pos : 0 < l.v

section

variable {s : VehicleSimulator} {targetSpeed targetRpm duration : ℚ} {b : Bool} {l : Loop} {n : ℕ} {x t : ℚ × ℚ}

/-- The rates that `accelerate` computes, and `brake` with the sign turned. -/
theorem ramp_rates (hn : n ≠ 0) : Ramp n s.speeds
    ((targetSpeed - s.vehicleSpeed) / n, (targetRpm - s.engineSpeed) / n) (targetSpeed, targetRpm) := by
  have hrate : (n : ℚ)⁻¹ • ((targetSpeed, targetRpm) - s.speeds) =
      ((targetSpeed - s.vehicleSpeed) / n, (targetRpm - s.engineSpeed) / n) := by
    simp only [VehicleSimulator.speeds, Prod.mk_sub_mk, Prod.smul_mk, smul_eq_mul, div_eq_inv_mul]
  rw [← hrate]
  exact Ramp.of_div hn

theorem accelerate_aims (h : s.accelerate targetSpeed targetRpm duration b = some l)
    (hn : duration * VehicleSimulator.freq = n) (hpos : n ≠ 0) :
    Aims s.speeds l n (targetSpeed, targetRpm) ∧ l.bycruise = b := by
  have hcast : (0 : ℚ) < n := Nat.cast_pos.mpr (Nat.pos_of_ne_zero hpos)
  unfold VehicleSimulator.accelerate at h
  split at h
  · cases h
  next hlt =>
  rw [hn] at h
  cases h
  exact ⟨⟨ramp_rates hpos, rfl, div_pos (by linarith) hcast⟩, rfl⟩

theorem brake_aims (h : s.brake targetSpeed targetRpm duration b = some l)
    (hn : duration * VehicleSimulator.freq = n) (hpos : n ≠ 0) :
    Aims s.speeds l n (targetSpeed, targetRpm) ∧ l.bycruise = b := by
  have hcast : (0 : ℚ) < n := Nat.cast_pos.mpr (Nat.pos_of_ne_zero hpos)
  have hturn (x y : ℚ) : -((x - y) / n) = (y - x) / n := by rw [← neg_div, neg_sub]
  unfold VehicleSimulator.brake at h
  split at h
  · cases h
  next hlt =>
  rw [hn] at h
  cases h
  refine ⟨⟨?_, rfl, div_pos (by linarith) hcast⟩, rfl⟩
  simp only [Loop.rate, Bool.false_eq_true, if_false, hturn]
  exact ramp_rates hpos

/-- At its end a loop does not go on. -/
theorem Aims.rounds_left (h : Aims s.speeds l n t) (hgo : s.goesOn l = true) : ∃ k, n = k + 1 := by
  cases n with
  | succ k => exact ⟨k, rfl⟩
  | zero =>
    have hend : s.vehicleSpeed = l.targetSpeed := by
      rw [← h.target, ← Ramp.zero.mp h.ramp]
      rfl
    simp only [VehicleSimulator.goesOn, hend, gt_iff_lt, lt_self_iff_false, decide_false, ite_self,
        Bool.false_and] at hgo
    cases hgo

theorem Aims.next (h : Aims x l (n + 1) t) : Aims (x + l.rate) l n t := ⟨Ramp.succ.mp h.ramp, h.target, h.pos⟩

theorem Aims.next_safe (h : Aims x l (n + 1) t) (hx : x ∈ safe) (ht : t ∈ safe) : x + l.rate ∈ safe :=
  h.ramp.step_mem convex_safe hx ht

/-- With rounds to go the vehicle speed is short of the target. -/
theorem Aims.goesOn (h : Aims s.speeds l (n + 1) t) (hby : s.cruiseActive = false ∨ l.bycruise = true) :
    s.goesOn l = true := by
  have hway : s.vehicleSpeed + ((n + 1 : ℕ) : ℚ) * l.rate.1 = l.targetSpeed := by
    have hfst := congrArg Prod.fst h.ramp
    rwa [Prod.fst_add, Prod.smul_fst, nsmul_eq_mul, h.target] at hfst
  have hcast : (0 : ℚ) < ((n + 1 : ℕ) : ℚ) := Nat.cast_pos.mpr (Nat.succ_pos n)
  have hmul := mul_pos hcast h.pos
  have hdrive : (!s.cruiseActive || l.bycruise) = true := by
    cases hby with
    | inl ha => rw [ha]; rfl
    | inr hb => rw [hb, Bool.or_true]
  unfold VehicleSimulator.goesOn
  rw [hdrive, Bool.and_true]
  unfold Loop.rate at hway
  split
  · next hup =>
    rw [if_pos hup] at hway
    exact decide_eq_true (by linarith)
  · next hup =>
    rw [if_neg hup] at hway
    exact decide_eq_true (by dsimp only at hway; linarith)

theorem decrease_aims (h : s.decrease = some l) :
    Aims s.speeds l 20 (s.vehicleSpeed - 5, s.engineSpeed * (9 / 10)) ∧ l.bycruise = true := by
  unfold VehicleSimulator.decrease at h
  split at h
  · exact brake_aims h (by norm_num [VehicleSimulator.freq]) (by decide)
  · cases h

theorem increase_aims (h : s.increase = some l) :
    Aims s.speeds l 20 (s.vehicleSpeed + 5, s.engineSpeed * (11 / 10)) ∧ l.bycruise = true := by
  unfold VehicleSimulator.increase at h
  split at h
  · exact accelerate_aims h (by norm_num [VehicleSimulator.freq]) (by decide)
  · cases h

theorem resume_aims (h : s.resume = some l) :
    Aims s.speeds l 20 (s.cruiseSpeed, s.cruiseRpm) ∧ l.bycruise = true := by
  unfold VehicleSimulator.resume at h
  split at h
  · exact accelerate_aims h (by norm_num [VehicleSimulator.freq]) (by decide)
  · exact brake_aims h (by norm_num [VehicleSimulator.freq]) (by decide)

end

/-! ## The drive cycle -/

namespace Call

def target : Call → ℚ × ℚ
  | accelerate targetSpeed targetRpm _ | brake targetSpeed targetRpm _ => (targetSpeed, targetRpm)

def duration : Call → ℚ
  | accelerate _ _ duration | brake _ _ duration => duration

def rounds (c : Call) : ℕ := (c.duration * VehicleSimulator.freq).num.toNat

theorem start_aims {s : VehicleSimulator} {c : Call} {l : Loop} {n : ℕ} (h : c.start s = some l)
    (hn : c.duration * VehicleSimulator.freq = n) (hpos : n ≠ 0) :
    Aims s.speeds l n c.target ∧ l.bycruise = false := by
  cases c with
  | accelerate => exact accelerate_aims h hn hpos
  | brake => exact brake_aims h hn hpos

end Call

/-- Each call takes whole rounds, to a target in range. -/
theorem driveCycle_targets : ∀ c ∈ driveCycle, (c.duration * VehicleSimulator.freq = c.rounds ∧ c.rounds ≠ 0) ∧
    (-1 < c.target.1 ∧ c.target.1 < 256) ∧ 0 ≤ c.target.2 ∧ c.target.2 < 16384 := by
  decide +kernel

theorem driveCycle_aims {s : VehicleSimulator} {c : Call} {l : Loop} (hc : c ∈ driveCycle)
    (h : c.start s = some l) : (∃ n t, Aims s.speeds l n t ∧ t ∈ safe) ∧ l.bycruise = false := by
  obtain ⟨⟨hrounds, hpos⟩, htarget⟩ := driveCycle_targets c hc
  obtain ⟨haims, hby⟩ := Call.start_aims h hrounds hpos
  exact ⟨⟨_, _, haims, htarget⟩, hby⟩

/-! ## Loops whose speeds have been changed -/

/-- The speeds have been changed by a button since the drive thread
computed the rates it holds. -/
def noteStale (s : State) (a : Act) (stale : Bool) : Bool :=
  match a with
  | .frame _ _ => stale
  | .wheel => stale || s.wheelPc.current.any s.sim.goesOn
  | .drive => stale && s.drive.current.isSome

/-- The simulator, its drive thread watched. -/
def driveMachine : Machine (State × Bool) Act := machine.watched false noteStale

/-- An increase is begun only where 5 km/h and a tenth of the engine speed
more are in range, a decrease only where 5 km/h less are. -/
def InBounds (s : State) (a : Act) : Prop :=
  s.releases a = true → s.wheel.cruiseActive = true →
    (s.wheel.buttonInc = true → s.sim.vehicleSpeed + 5 < 256 ∧ s.sim.engineSpeed * (11 / 10) < 16384) ∧
    (s.wheel.buttonDec = true → -1 < s.sim.vehicleSpeed - 5)

instance (s : State) (a : Act) : Decidable (InBounds s a) := inferInstanceAs (Decidable (_ → _ → _ ∧ _))

/-- And no round of the drive cycle is made at rates that are stale. -/
def Kept (w : State × Bool) (a : Act) : Prop :=
  InBounds w.1 a ∧ (a = .drive → w.1.drive.current.any w.1.sim.goesOn = true → w.2 = false)

instance (w : State × Bool) (a : Act) : Decidable (Kept w a) := inferInstanceAs (Decidable (_ ∧ (_ → _ → _)))

/-! ## The invariant -/

/-- The speeds are in range, and so is where every loop ends that will go on. -/
structure Steady (w : State × Bool) : Prop where
  speeds : w.1.sim.speeds ∈ safe
  stored : ((w.1.sim.cruiseSpeed : ℚ), (w.1.sim.cruiseRpm : ℚ)) ∈ safe
  cycle : w.1.drive.rest ⊆ driveCycle
  wheel : ∀ l, w.1.wheelPc.current = some l → ∃ n t, Aims w.1.sim.speeds l n t ∧ t ∈ safe
  drive : ∀ l, w.1.drive.current = some l → l.bycruise = false ∧
    (w.2 = false → ∃ n t, Aims w.1.sim.speeds l n t ∧ t ∈ safe)

theorem steady_start : Steady (start, false) where
  speeds := safe_idle
  stored := safe_zero
  cycle := List.nil_subset _
  wheel l h := by cases h
  drive l h := by cases h

/-- In a loop of a button only that loop goes on. -/
theorem Latched.drive_waits {s : State} (hl : Latched s) {l : Loop} (hby : l.bycruise = false)
    (hgo : s.sim.goesOn l = true) : s.wheelPc.current = none := by
  cases hpc : s.wheelPc.current with
  | none => rfl
  | some k =>
    have ha := (hl.handles (by rw [hpc]; exact Option.some_ne_none k)).2
    simp only [VehicleSimulator.goesOn, ha, hby, Bool.not_true, Bool.or_false, Bool.and_false] at hgo
    cases hgo

/-- A release with the cruise speeds in range. -/
theorem Steady.back {w : State × Bool} (h : Steady w) {sim : VehicleSimulator} (held : Option Button)
    (hspeeds : sim.speeds = w.1.sim.speeds) (hstored : ((sim.cruiseSpeed : ℚ), (sim.cruiseRpm : ℚ)) ∈ safe) :
    Steady (w.1.back sim held, w.2) where
  speeds := hspeeds ▸ h.speeds
  stored := hstored
  cycle := h.cycle
  wheel l hl := by cases hl
  drive l hl := by
    have hdrive := h.drive l hl
    dsimp only [State.back] at hdrive ⊢
    rwa [hspeeds]

theorem Steady.inLoop {w : State × Bool} (h : Steady w) {sim : VehicleSimulator} {pc : WheelPc} {l : Loop} {n : ℕ}
    {t : ℚ × ℚ} (hpc : pc.current = some l) (hspeeds : sim.speeds = w.1.sim.speeds)
    (hstored : ((sim.cruiseSpeed : ℚ), (sim.cruiseRpm : ℚ)) ∈ safe) (haims : Aims w.1.sim.speeds l n t)
    (ht : t ∈ safe) : Steady (w.1.inLoop sim pc, w.2) where
  speeds := hspeeds ▸ h.speeds
  stored := hstored
  cycle := h.cycle
  wheel k hk := by
    have hk : pc.current = some k := hk
    rw [hpc] at hk
    cases hk
    exact ⟨n, t, hspeeds ▸ haims, ht⟩
  drive k hk := by
    have hdrive := h.drive k hk
    dsimp only [State.inLoop] at hdrive ⊢
    rwa [hspeeds]

/-- The loop of a button makes a round. -/
theorem Steady.round {w : State × Bool} (h : Steady w) {l : Loop} (hpc : w.1.wheelPc.current = some l)
    (hgo : w.1.sim.goesOn l = true) :
    Steady ({ w.1 with sim := w.1.sim.withSpeeds (w.1.sim.speeds + l.rate) }, true) := by
  obtain ⟨n, t, haims, ht⟩ := h.wheel l hpc
  obtain ⟨k, rfl⟩ := haims.rounds_left hgo
  refine ⟨haims.next_safe h.speeds ht, h.stored, h.cycle, fun m hm => ?_, fun m hm => ?_⟩
  · cases hpc.symm.trans hm
    exact ⟨k, t, haims.next, ht⟩
  · exact ⟨(h.drive m hm).1, fun hfresh => by cases hfresh⟩

/-- The drive thread makes a round, at rates that are not stale. -/
theorem Steady.driveRound {s : State} (h : Steady (s, false)) (hl : Latched s) {l : Loop}
    (hd : s.drive.current = some l) (hgo : s.sim.goesOn l = true) :
    Steady ({ s with sim := s.sim.withSpeeds (s.sim.speeds + l.rate) }, false) := by
  obtain ⟨hby, hend⟩ := h.drive l hd
  obtain ⟨n, t, haims, ht⟩ := hend rfl
  obtain ⟨k, rfl⟩ := haims.rounds_left hgo
  have hwait := hl.drive_waits hby hgo
  refine ⟨haims.next_safe h.speeds ht, h.stored, h.cycle, fun m hm => ?_, fun m hm => ?_⟩
  · cases hwait.symm.trans hm
  · cases hd.symm.trans hm
    exact ⟨hby, fun _ => ⟨k, t, haims.next, ht⟩⟩

/-- The drive thread goes on to another place, with no loop entered. -/
theorem Steady.driveMove {w : State × Bool} (h : Steady w) {pc : DrivePc} {stale : Bool} (hpc : pc.current = none)
    (hrest : pc.rest ⊆ driveCycle) : Steady ({ w.1 with drive := pc }, stale) :=
  ⟨h.speeds, h.stored, hrest, h.wheel, fun l hl => by cases hpc.symm.trans hl⟩

theorem Step.steady {s s' : State} {stale : Bool} {a : Act} (hl : Latched s) (h : Steady (s, stale))
    (hk : Kept (s, stale) a) (hs : Step s a s') : Steady (s', noteStale s a stale) := by
  obtain ⟨hbounds, hfresh⟩ := hk
  have hsafe : s.sim.speeds ∈ safe := h.speeds
  obtain ⟨⟨hvpos, hvlt⟩, hepos, helt⟩ := hsafe
  dsimp only [VehicleSimulator.speeds] at hvpos hvlt hepos helt
  cases hs with
  | skip => exact h
  | fail hpc => exact ⟨h.speeds, h.stored, h.cycle, fun l hl => (by cases hl), h.drive⟩
  | press hpc => exact h.back _ rfl h.stored
  | enable => exact h.back _ rfl h.stored
  | disable => exact h.back _ rfl safe_zero
  | cancel => exact h.back _ rfl (safe_int h.speeds)
  | set => exact h.back _ rfl (safe_int h.speeds)
  | unset => exact h.back _ rfl h.stored
  | resumed => exact h.back _ rfl h.stored
  | decrease hx hr ha hdec =>
    have hlow := (hbounds hr (by rw [hx]; exact ha)).2 (by rw [hx]; rfl)
    refine h.inLoop rfl rfl h.stored (decrease_aims hdec).1 ⟨⟨hlow, ?_⟩, ?_, ?_⟩
    · dsimp only
      linarith
    · dsimp only
      linarith
    · dsimp only
      linarith
  | increase hx hr ha hinc =>
    obtain ⟨hhigh, hrpm⟩ := (hbounds hr (by rw [hx]; exact ha)).1 (by rw [hx]; rfl)
    refine h.inLoop rfl rfl h.stored (increase_aims hinc).1 ⟨⟨?_, hhigh⟩, ?_, hrpm⟩
    · dsimp only
      linarith
    · dsimp only
      linarith
  | resume hx hr ha hspeed hres => exact h.inLoop rfl rfl h.stored (resume_aims hres).1 h.stored
  | round hpc hgo =>
    have hnote : noteStale s .wheel stale = true := by simp [noteStale, hpc, hgo]
    rw [hnote]
    exact h.round hpc hgo
  | leave hpc hgo =>
    have hnote : noteStale s .wheel stale = stale := by simp [noteStale, hpc, hgo]
    rw [hnote]
    exact h.back _ rfl h.stored
  | driveMove hrest =>
    refine h.driveMove rfl ?_
    cases hrest with
    | inl hcycle => exact hcycle ▸ List.Subset.refl _
    | inr hsub => exact List.Subset.trans hsub h.cycle
  | driveTop => exact h.driveMove rfl (List.nil_subset _)
  | driveReset ha =>
    -- no button is in a loop while cruise is not active
    have hwait : s.wheelPc.current = none := by
      by_contra hloop
      exact absurd (ha.symm.trans (hl.handles hloop).2) (by decide)
    refine ⟨safe_idle, h.stored, List.nil_subset _, fun l hl => ?_, fun l hl => (by cases hl)⟩
    cases hwait.symm.trans hl
  | @driveCall c rest k hd hstart =>
    have hrest : c :: rest ⊆ driveCycle := by
      have hcycle := h.cycle
      rwa [hd] at hcycle
    obtain ⟨hend, hby⟩ := driveCycle_aims (hrest List.mem_cons_self) hstart
    refine ⟨h.speeds, h.stored, fun x hx => hrest (List.mem_cons_of_mem c hx), h.wheel, fun l hl => ?_⟩
    cases hl
    exact ⟨hby, fun _ => hend⟩
  | @driveRound l rest hd hgo =>
    have hcur : s.drive.current = some l := congrArg DrivePc.current hd
    have hstale : stale = false := hfresh rfl (by simp [hcur, hgo])
    subst hstale
    exact h.driveRound hl hcur hgo

theorem steady_inductive : driveMachine.Inductive Kept fun w => Latched w.1 ∧ Steady w :=
  (latched_inductive.watched.mono fun _ _ _ => trivial).and
    (fun w hw => by
      obtain ⟨s, stale⟩ := w
      obtain ⟨rfl, rfl⟩ := hw
      exact steady_start)
    fun w a w' hl _ h hk hs => by
      obtain ⟨s', stale'⟩ := w'
      obtain ⟨hstep, hnote⟩ := Machine.watched_step.mp hs
      dsimp only at hstep hnote
      subst hnote
      exact (step_cases hl hstep).steady hl h hk

/-! ## The loop of a button -/

theorem wheelStep_round {s : State} {l : Loop} (hpc : s.wheelPc.current = some l) (hgo : s.sim.goesOn l = true) :
    wheelStep s = some { s with sim := s.sim.withSpeeds (s.sim.speeds + l.rate) } := by
  unfold wheelStep
  rw [← VehicleSimulator.round_eq]
  split
  · next k hk =>
    rw [hk] at hpc
    cases hpc
    rw [if_pos hgo]
  · next k hk =>
    rw [hk] at hpc
    cases hpc
    rw [if_pos hgo]
  · next hk =>
    rw [hk] at hpc
    cases hpc
  · next hk =>
    rw [hk] at hpc
    cases hpc

/-- Left to itself, the loop of a button gets where it aims. -/
theorem loop_ends {M : Machine State Act} {p : State → Act → Prop} (hM : M.step = step) (hp : ∀ s, p s .wheel)
    {l : Loop} (hby : l.bycruise = true) {t : ℚ × ℚ} {n : ℕ} : ∀ {s : State}, M.Reach p s →
    s.wheelPc.current = some l → Aims s.sim.speeds l n t →
    M.Reach p { s with sim := s.sim.withSpeeds t } := by
  induction n with
  | zero =>
    intro s h _ haims
    rwa [← Ramp.zero.mp haims.ramp]
  | succ n ih =>
    intro s h hpc haims
    have hround : M.step s .wheel = some { s with sim := s.sim.withSpeeds (s.sim.speeds + l.rate) } := by
      rw [hM]
      exact wheelStep_round hpc (haims.goesOn (.inr hby))
    have hnext := Machine.Reach.step h (hp s) hround
    have hend := ih hnext hpc haims.next
    exact hend

theorem inBounds_of_not_releases {s : State} {a : Act} (h : s.releases a = false) : InBounds s a := by
  intro hr
  rw [h] at hr
  cases hr

/-- The condition by the button that is released. -/
theorem inBounds_iff {s : State} {a : Act} {x : Button} (hx : s.holds (some x)) (hr : s.releases a = true) :
    InBounds s a ↔ (s.sim.cruiseActive = true →
      (x = .inc → s.sim.vehicleSpeed + 5 < 256 ∧ s.sim.engineSpeed * (11 / 10) < 16384) ∧
      (x = .dec → -1 < s.sim.vehicleSpeed - 5)) := by
  unfold InBounds
  rw [hx]
  simp only [latch, hr, forall_true_left, Option.some.injEq, decide_eq_true_eq]

/-- Out of bounds, the loop of the button ends at speeds that are not reported. -/
theorem Step.not_reports {s s' : State} {a : Act} (hs : Step s a s') (hout : ¬InBounds s a) :
    ∃ t, (machine.startAt s').Reach (fun _ b => b = .wheel) t ∧ ¬Reports t.sim := by
  cases hs with
  | skip _ hr | fail _ hr | press _ _ hr => exact absurd (inBounds_of_not_releases hr) hout
  | round | leave | driveMove | driveTop | driveReset | driveCall | driveRound =>
    exact absurd (inBounds_of_not_releases rfl) hout
  | enable hx hr | disable hx hr | cancel hx hr =>
    exact absurd ((inBounds_iff hx hr).mpr fun _ => ⟨fun h => (by cases h), fun h => (by cases h)⟩) hout
  | set hx hr ha | unset hx hr ha | resume hx hr ha | resumed hx hr ha =>
    exact absurd ((inBounds_iff hx hr).mpr fun hact => absurd (ha.symm.trans hact) (by decide)) hout
  | @decrease canId data l hx hr ha hl =>
    rw [inBounds_iff hx hr] at hout
    obtain ⟨haims, hby⟩ := decrease_aims hl
    have hentered : (machine.startAt (s.inLoop s.sim (.dec l))).Reach (fun _ b => b = .wheel) _ := .init rfl
    have hend := loop_ends (p := fun _ b => b = .wheel) rfl (fun _ => rfl) hby hentered rfl haims
    refine ⟨_, hend, fun hrep => hout fun _ => ?_⟩
    exact ⟨fun h => (by cases h), fun _ => (reports_iff.mp hrep).1.1⟩
  | @increase canId data l hx hr ha hl =>
    rw [inBounds_iff hx hr] at hout
    obtain ⟨haims, hby⟩ := increase_aims hl
    have hentered : (machine.startAt (s.inLoop s.sim (.inc l))).Reach (fun _ b => b = .wheel) _ := .init rfl
    have hend := loop_ends (p := fun _ b => b = .wheel) rfl (fun _ => rfl) hby hentered rfl haims
    refine ⟨_, hend, fun hrep => hout fun _ => ?_⟩
    exact ⟨fun _ => ⟨(reports_iff.mp hrep).1.2, (reports_iff.mp hrep).2.2⟩, fun h => (by cases h)⟩

/-! ## Along a run -/

/-- **In every run that begins an increase or a decrease only within bounds,
and never goes on in the drive cycle at stale rates, every state's speeds are
reported**, and after such a run an increase or a decrease out of bounds
leads, by the rounds of its own loop, to speeds that are not. -/
theorem reports_when {w : State × Bool} (h : driveMachine.Reach Kept w) :
    Reports w.1.sim ∧ ∀ a s', machine.step w.1 a = some s' → ¬InBounds w.1 a →
      ∃ t, (machine.startAt s').Reach (fun _ b => b = .wheel) t ∧ ¬Reports t.sim := by
  obtain ⟨hl, hsteady⟩ := steady_inductive.reach h
  exact ⟨reports_of_safe hsteady.speeds, fun a s' hs => (step_cases hl hs).not_reports⟩

/-- Two rounds of the drive cycle, SET, and a decrease that is about to begin too low. -/
theorem reports_when_low : ∃ w s', driveMachine.Reach Kept w ∧ 0 < w.1.sim.vehicleSpeed ∧ Reports w.1.sim ∧
    machine.step w.1 (lin 0x00) = some s' ∧ ∃ t, (machine.startAt s').Reach (fun _ b => b = .wheel) t ∧
      ¬Reports t.sim := by
  have hrun : (driveMachine.exec Kept (start, false) [.drive, .drive, .drive, .drive, lin 0x80, lin 0x00, lin 0x10,
      lin 0x00, .drive, lin 0x10]).any (fun w => 0 < w.1.sim.vehicleSpeed ∧ ¬InBounds w.1 (lin 0x00) ∧
        (machine.step w.1 (lin 0x00)).isSome) = true := by
    decide +kernel
  obtain ⟨w, hexec, hw⟩ := (Option.any_eq_true _ _).mp hrun
  obtain ⟨hpos, hout, hnext⟩ := of_decide_eq_true hw
  obtain ⟨s', hs'⟩ := Option.isSome_iff_exists.mp hnext
  have hstart : driveMachine.init (start, false) := ⟨rfl, rfl⟩
  have hreach := (Machine.Reach.init hstart).exec _ hexec
  obtain ⟨hrep, hlow⟩ := reports_when hreach
  exact ⟨w, s', hreach, hpos, hrep, hs', hlow _ s' hs' hout⟩

/-- The loop of a button is left where it has ended. -/
theorem wheelStep_leave {s : State} {sim : VehicleSimulator} {pc : WheelPc} {l : Loop} {x : ℚ × ℚ}
    (hpc : pc.current = some l) (hgo : (sim.withSpeeds x).goesOn l = false) :
    wheelStep { s.inLoop sim pc with sim := sim.withSpeeds x } = some (s.back (sim.withSpeeds x) none) := by
  cases pc with
  | idle | dead => cases hpc
  | dec k | inc k =>
    cases hpc
    simp only [wheelStep, State.inLoop, hgo, Bool.false_eq_true, if_false]
    rfl

/-- A button with a loop is pressed and released, and the loop is followed to its end. -/
theorem press_ends {s : State} {sim : VehicleSimulator} {b : UInt8} {x : Button} {pc : WheelPc} {l : Loop} {n : ℕ}
    {t : ℚ × ℚ} (h : machine.Reachable (s.back sim none))
    (hdown : machine.step (s.back sim none) (lin b) = some (s.back sim (some x)))
    (hrel : release (s.back sim (some x)) = s.inLoop sim pc) (hpc : pc.current = some l) (hby : l.bycruise = true)
    (haims : Aims sim.speeds l n t) : machine.Reachable (s.back (sim.withSpeeds t) none) := by
  have hup : machine.step (s.back sim (some x)) (lin 0x00) = some (s.inLoop sim pc) := hrel ▸ rfl
  have hloop := (h.step trivial hdown).step trivial hup
  have hend := loop_ends rfl (fun _ => trivial) hby hloop hpc haims
  have hgo : (sim.withSpeeds t).goesOn l = false := by
    by_contra hgo
    have hover : Aims (sim.withSpeeds t).speeds l 0 t := ⟨Ramp.zero.mpr rfl, haims.target, haims.pos⟩
    obtain ⟨k, hk⟩ := hover.rounds_left (by simpa using hgo)
    cases hk
  have hleave : machine.step { s.inLoop sim pc with sim := sim.withSpeeds t } .wheel =
      some (s.back (sim.withSpeeds t) none) := wheelStep_leave hpc hgo
  exact .step hend trivial hleave

theorem press_increase {s : State} {sim : VehicleSimulator} (h : machine.Reachable (s.back sim none))
    (ha : sim.cruiseActive = true) :
    machine.Reachable (s.back (sim.withSpeeds (sim.vehicleSpeed + 5, sim.engineSpeed * (11 / 10))) none) := by
  obtain ⟨l, hl⟩ := VehicleSimulator.increase_some ha
  obtain ⟨haims, hby⟩ := increase_aims hl
  exact press_ends (b := 0x40) h rfl (release_increase ha hl) rfl hby haims

theorem press_decrease {s : State} {sim : VehicleSimulator} (h : machine.Reachable (s.back sim none))
    (ha : sim.cruiseActive = true) :
    machine.Reachable (s.back (sim.withSpeeds (sim.vehicleSpeed - 5, sim.engineSpeed * (9 / 10))) none) := by
  obtain ⟨l, hl⟩ := VehicleSimulator.decrease_some ha
  obtain ⟨haims, hby⟩ := decrease_aims hl
  exact press_ends (b := 0x10) h rfl (release_decrease ha hl) rfl hby haims

/-- At rest, mode on and cruise set. -/
def cruising : VehicleSimulator :=
  { cruiseMode := true, cruiseActive := true, cruiseSpeed := 0, cruiseRpm := 600, vehicleSpeed := 0
    engineSpeed := VehicleSimulator.defaultIdleRpm }

theorem cruising_reachable : machine.Reachable (start.back cruising none) := by
  have hrun : machine.exec (fun _ _ => True) start [lin 0x80, lin 0x00, lin 0x10, lin 0x00] =
      some (start.back cruising none) := by
    decide +kernel
  exact (Machine.Reach.init rfl).exec _ hrun

/-- Presses of RES multiply the engine speed without end. -/
theorem increases_reachable (n : ℕ) :
    machine.Reachable (start.back (cruising.withSpeeds (5 * n, 600 * (11 / 10) ^ n)) none) := by
  induction n with
  | zero =>
    have hzero : cruising.withSpeeds (5 * (0 : ℕ), 600 * (11 / 10) ^ 0) = cruising := by
      norm_num [VehicleSimulator.withSpeeds, cruising, VehicleSimulator.defaultIdleRpm]
    rw [hzero]
    exact cruising_reachable
  | succ n ih =>
    have hnext := press_increase ih rfl
    have hspeeds : ((5 * n : ℚ) + 5, 600 * (11 / 10 : ℚ) ^ n * (11 / 10)) =
        (5 * ((n + 1 : ℕ) : ℚ), 600 * (11 / 10 : ℚ) ^ (n + 1)) := by
      rw [pow_succ, Nat.cast_succ, mul_add, mul_one, mul_assoc]
    exact hspeeds ▸ hnext

/-- The cap makes the engine speed a `float`, which `bytes` refuses; and a
speed below zero is reported as one of 251 km/h. -/
theorem capped_raises :
    (∃ s, machine.Reachable s ∧ s.sim.getEngineSpeed = 16861 ∧ statusEngine s.sim = .error .typeError ∧
      diagnosticEngine s.sim = .error .typeError ∧ ¬Reports s.sim) ∧
    ∃ s, machine.Reachable s ∧ s.sim.getVehicleSpeed = -5 ∧
      statusVehicle s.sim = .ok ⟨0x3e9, [125, 128, 0, 0, 0, 0, 0, 0]⟩ ∧
      scaledKmh [125, 128, 0, 0, 0, 0, 0, 0] 0 = some 251 ∧ ¬Reports s.sim := by
  refine ⟨⟨_, increases_reachable 35, by decide +kernel, by decide +kernel, by decide +kernel, fun h => ?_⟩,
    ⟨_, press_decrease cruising_reachable rfl, by decide +kernel, by decide +kernel, by decide +kernel, fun h => ?_⟩⟩
  · have hlt := h.engineSpeed.2
    revert hlt
    decide +kernel
  · have hpos := h.vehicleSpeed.1
    revert hpos
    decide +kernel

end Agl.Simulator
