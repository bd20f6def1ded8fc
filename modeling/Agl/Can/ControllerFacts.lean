/-
When the driver's controller state is that of the controller, and when a
bus-off is lost.

`virtio_can_start` sets `can.state` whatever the device has answered, and
`virtio_can_restore` sets it for a closed interface too; beside them
`virtio_can_handle_busoff` sets the state and the carrier in two steps. The
state matches the controller in the runs without these (`canState_matches`).
An indication is kept unless it arrives before `virtio_can_start` has set the
state, or is cleared with an older one (`busoff_notLost`).
-/
import Mathlib.Data.Option.Basic
import Agl.Can.Controller

namespace Agl.VirtioCan.Controller

/-! ## What a step can do -/

/-- One step, by the branch taken. -/
inductive Step (s : State) : Act → State → Prop
  | ndoOpen : s.op = none → s.running = false → Step s (.enter .ndoOpen)
      { s with started := false, running := true, op := some (.ctrl .ndoOpen .send) }
  | doSetMode : s.op = none → s.running = true → Step s (.enter .doSetMode)
      { s with started := false, op := some (.ctrl .doSetMode .send) }
  | ndoStop : s.op = none → Step s (.enter .ndoStop)
      { s with started := false, running := false, op := some (.ctrl .ndoStop .send) }
  | freeze : s.op = none → s.running = true → Step s (.enter .freeze)
      { s with started := false, suspended := true, op := some (.ctrl .freeze .send) }
  | freezeDown : s.op = none → s.running = false → Step s (.enter .freeze)
      { s with started := false, suspended := true, op := some .sleep }
  | restore : s.op = none → s.running = true → Step s (.enter .restore)
      { s with started := false, canState := .errorActive, op := some (.ctrl .restore .send) }
  | restoreDown : s.op = none → s.running = false → Step s (.enter .restore)
      { s with started := false, canState := .errorActive, suspended := false }
  | start {caller} : s.op = some (.ctrl caller .send) → caller.msg = .start → Step s (.reply true)
      { s with
        op := some (.ctrl caller .clear), lastOk := some .start, starts := s.starts + 1, started := true
        processed := false }
  | stop {caller} : s.op = some (.ctrl caller .send) → caller.msg = .stop → Step s (.reply true)
      { s with op := some (.ctrl caller .clear), lastOk := some .stop }
  | refused {caller} : s.op = some (.ctrl caller .send) → Step s (.reply false)
      { s with op := some (.ctrl caller .clear) }
  | clear {caller} : s.op = some (.ctrl caller .clear) → Step s .op
      { s with busoffPending := false, op := some (.ctrl caller .setState) }
  | setActive {caller} : s.op = some (.ctrl caller .setState) → caller.msg = .start → Step s .op
      { s with canState := .errorActive, op := some (.ctrl caller .carrier) }
  | setStopped {caller} : s.op = some (.ctrl caller .setState) → caller.msg = .stop → Step s .op
      { s with canState := .stopped, op := some (.ctrl caller .carrier) }
  | carrierOn {caller} : s.op = some (.ctrl caller .carrier) → caller.msg = .start → Step s .op
      { s with carrier := true, op := none, suspended := if caller = .restore then false else s.suspended }
  | carrierOff {caller} : s.op = some (.ctrl caller .carrier) → caller.msg = .stop → Step s .op
      { s with carrier := false, op := caller.next }
  | sleep : s.op = some .sleep → Step s .op { s with canState := .sleeping, inds := [], op := none }
  | indicate {busoff} : Step s (.indicate busoff)
      { s with inds := s.inds ++ [if busoff then some s.starts else none] }
  | getBuf {ind rest} : s.inds = ind :: rest → Step s .getBuf
      { s with evind := ind.map (.testPending, ·), inds := rest }
  | pending {n} : s.evind = some (.testPending, n) → s.busoffPending = true → Step s .evind (s.putback n)
  | notPending {n} : s.evind = some (.testPending, n) → Step s .evind { s with evind := some (.testState, n) }
  | below {n} : s.evind = some (.testState, n) → Step s .evind { s with evind := some (.setPending, n) }
  | notBelow {n} : s.evind = some (.testState, n) → ¬ s.belowBusOff → Step s .evind (s.putback n)
  | setPending {n} : s.evind = some (.setPending, n) → Step s .evind { s.putback n with busoffPending := true }
  | poll : s.handler = none → Step s .busoff { s with handler := some .testState }
  | tested {pc} : s.handler = some .testState → pc = .setState ∨ pc = .receive →
      Step s .busoff { s with handler := some pc }
  | setBusOff : s.handler = some .setState → Step s .busoff { s with canState := .busOff, handler := some .canBusOff }
  | canBusOff : s.handler = some .canBusOff → Step s .busoff { s with carrier := false, handler := some .receive }
  | received : s.handler = some .receive → Step s (.receive true) { s with handler := none, busoffPending := false }
  | notReceived : s.handler = some .receive → Step s (.receive false) { s with handler := none }

theorem enter_cases {s s' : State} {caller : Caller} (h : enter s caller = some s') : Step s (.enter caller) s' := by
  unfold enter at h
  split at h
  · next hop =>
    cases caller with
    | ndoOpen =>
      dsimp only at h
      split at h <;> cases h
      next hc => exact .ndoOpen hop (by simpa using (not_or.mp hc).2)
    | doSetMode =>
      dsimp only at h
      split at h <;> cases h
      next hc => exact .doSetMode hop (by simpa using (not_or.mp hc).2)
    | ndoStop =>
      dsimp only at h
      split at h <;> cases h
      exact .ndoStop hop
    | freeze =>
      dsimp only at h
      split at h <;> cases h
      by_cases hr : s.running = true
      · rw [if_pos hr]
        exact .freeze hop hr
      · rw [if_neg hr]
        exact .freezeDown hop (by simpa using hr)
    | restore =>
      dsimp only at h
      split at h
      · cases h
      · split at h
        · cases h
          exact .restore hop ‹_›
        · next hr =>
          cases h
          exact .restoreDown hop (by simpa using hr)
  · cases h

theorem reply_cases {s s' : State} {ok : Bool} (h : reply s ok = some s') : Step s (.reply ok) s' := by
  unfold reply at h
  split at h
  · next hop =>
    cases ok with
    | false =>
      cases h
      exact .refused hop
    | true =>
      simp only [if_true] at h
      split at h <;> cases h
      · exact .start hop ‹_›
      · exact .stop hop ‹_›
  · cases h

theorem opStep_cases {s s' : State} (h : opStep s = some s') : Step s .op s' := by
  unfold opStep at h
  split at h
  · cases h
    exact .clear ‹_›
  · next caller hop =>
    cases h
    cases hm : caller.msg with
    | start => exact .setActive hop hm
    | stop => exact .setStopped hop hm
  · next caller hop =>
    cases h
    cases caller with
    | ndoOpen | doSetMode | restore => exact .carrierOn hop rfl
    | ndoStop | freeze => exact .carrierOff hop rfl
  · cases h
    exact .sleep ‹_›
  · cases h

theorem evindStep_cases {s s' : State} (h : evindStep s = some s') : Step s .evind s' := by
  unfold evindStep at h
  split at h
  · cases h
  · next he =>
    split at h <;> cases h
    · exact .pending he ‹_›
    · exact .notPending he
  · next he =>
    split at h <;> cases h
    · exact .below he
    · exact .notBelow he ‹_›
  · next he =>
    cases h
    exact .setPending he

theorem busoffStep_cases {s s' : State} (h : busoffStep s = some s') : Step s .busoff s' := by
  unfold busoffStep at h
  split at h
  · split at h <;> cases h
    exact .poll ‹_›
  · next hh =>
    cases h
    split
    · exact .tested hh (.inl rfl)
    · exact .tested hh (.inr rfl)
  · cases h
    exact .setBusOff ‹_›
  · cases h
    exact .canBusOff ‹_›
  · cases h

theorem step_cases {s s' : State} {a : Act} (h : machine.step s a = some s') : Step s a s' := by
  simp only [machine, step] at h
  cases a with
  | enter caller => exact enter_cases h
  | reply ok => exact reply_cases h
  | op => exact opStep_cases h
  | indicate busoff =>
    cases h
    exact .indicate
  | getBuf =>
    simp only [getBuf] at h
    split at h <;> cases h
    exact .getBuf ‹_›
  | evind => exact evindStep_cases h
  | busoff => exact busoffStep_cases h
  | receive ok =>
    simp only [receive] at h
    split at h <;> cases h
    cases ok with
    | false => exact .notReceived ‹_›
    | true => exact .received ‹_›

/-! ## State and carrier -/

/-- Before its assignment to `can.state`. -/
def Op.settling : Op → Bool
  | .ctrl _ .carrier | .sleep => false
  | .ctrl _ _ => true

/-- `virtio_can_stop` after its assignment to `can.state`, and what follows. -/
def Op.stopped : Op → Bool
  | .ctrl caller .carrier => caller.msg = .stop
  | .ctrl _ _ => false
  | .sleep => true

/-- On its way to switch the carrier. -/
def Op.turns (m : Msg) : Op → Bool
  | .ctrl caller _ => caller.msg = m
  | .sleep => false

/-- The operation under way is such a one. -/
def State.opIs (s : State) (p : Op → Bool) : Prop := ∃ op ∈ s.op, p op = true

instance (s : State) (p : Op → Bool) : Decidable (s.opIs p) := inferInstanceAs (Decidable (∃ op ∈ s.op, _))

theorem opIs_of_none {s : State} (hop : s.op = none) (p : Op → Bool) : ¬ s.opIs p := by
  simp [State.opIs, hop]

theorem opIs_of_some {s : State} {op : Op} (hop : s.op = some op) (p : Op → Bool) : s.opIs p ↔ p op = true := by
  simp [State.opIs, hop]

/-- The driver takes the controller for started when the last answer of the
device says so, `virtio_can_restore` finds a running interface, and neither
switch of the carrier comes after the other side's change of the state. -/
def Settled (s : State) : Act → Prop
  | .enter .restore => s.running = true
  | .op =>
    match s.op with
    | some (.ctrl caller .setState) => caller.msg = .start → s.lastOk = some .start
    | some (.ctrl caller .carrier) => caller.msg = .start → s.belowBusOff ∨ s.handler = some .canBusOff
    | _ => True
  | .busoff => s.handler = some .canBusOff → s.belowBusOff → s.opIs (Op.turns .start)
  | _ => True

instance (s : State) (a : Act) : Decidable (Settled s a) := by
  unfold Settled
  split
  · infer_instance
  · split <;> infer_instance
  all_goals infer_instance

/-- What ties the state, the carrier and the operation under way. -/
structure Inv (s : State) : Prop where
  /-- a START is for a running interface -/
  up : s.opIs (Op.turns .start) → s.running = true
  down : s.opIs Op.stopped → ¬ s.belowBusOff
  active : s.belowBusOff → s.opIs Op.settling ∨ (s.running = true ∧ s.lastOk = some .start)
  carrierOn : s.belowBusOff → s.carrier = true ∨ s.opIs (Op.turns .start)
  carrierOff : s.carrier = true → s.belowBusOff ∨ s.handler = some .canBusOff ∨ s.opIs (Op.turns .stop)

theorem Inv.up_step {s s' : State} {a : Act} (h : Inv s) (hs : Step s a s') (ht : s'.opIs (Op.turns .start)) :
    s'.running = true := by
  cases hs with
  | ndoOpen => rfl
  | doSetMode _ hr | freeze _ hr | restore _ hr => exact hr
  | ndoStop | freezeDown => simp [State.opIs, Op.turns, Caller.msg] at ht
  | restoreDown hop => simp [State.opIs, hop] at ht
  | start hop | stop hop | refused hop | clear hop | setActive hop | setStopped hop =>
    exact h.up (by simpa [State.opIs, Op.turns, hop] using ht)
  | @carrierOff caller hop => cases caller <;> simp [State.opIs, Op.turns, Caller.next] at ht
  | carrierOn | sleep => simp [State.opIs] at ht
  | _ => exact h.up ht

/-- With no operation under way, a state below bus-off is a running one. -/
theorem Inv.running {s : State} (h : Inv s) (hop : s.op = none) (hb : s.belowBusOff) :
    s.running = true ∧ s.lastOk = some .start :=
  (h.active hb).resolve_left (opIs_of_none hop _)

theorem Inv.down_step {s s' : State} {a : Act} (h : Inv s) (hs : Step s a s') (ht : s'.opIs Op.stopped) :
    ¬ s'.belowBusOff := by
  cases hs with
  | ndoOpen | doSetMode | ndoStop | freeze | restore | start | stop | refused | clear =>
    simp [State.opIs, Op.stopped] at ht
  | freezeDown hop hr =>
    intro hb
    exact absurd (h.running hop hb).1 (by simp [hr])
  | restoreDown hop => simp [State.opIs, hop] at ht
  | setActive hop hm => simp [State.opIs, Op.stopped, hm] at ht
  | setStopped | sleep | setBusOff => simp [State.belowBusOff, CanState.val]
  | carrierOff hop hm => exact h.down (by simp [State.opIs, Op.stopped, hop, hm])
  | carrierOn => simp [State.opIs] at ht
  | _ => exact h.down ht

theorem Inv.active_step {s s' : State} {a : Act} (h : Inv s) (hs : Step s a s') (ha : Settled s a)
    (hb : s'.belowBusOff) : s'.opIs Op.settling ∨ (s'.running = true ∧ s'.lastOk = some .start) := by
  cases hs with
  | ndoOpen | doSetMode | ndoStop | freeze | restore | start | stop | refused | clear =>
    exact .inl (by simp [State.opIs, Op.settling])
  | freezeDown hop hr => exact absurd (h.running hop hb).1 (by simp [hr])
  | restoreDown _ hr => exact absurd ha (by simp [Settled, hr])
  | setActive hop hm =>
    simp only [Settled, hop] at ha
    exact .inr ⟨h.up (by simp [State.opIs, Op.turns, hop, hm]), ha hm⟩
  | setStopped | sleep | setBusOff => simp [State.belowBusOff, CanState.val] at hb
  | carrierOn hop | carrierOff hop =>
    exact .inr ((h.active hb).resolve_left (by simp [State.opIs, Op.settling, hop]))
  | _ => exact h.active hb

theorem Inv.carrierOn_step {s s' : State} {a : Act} (h : Inv s) (hs : Step s a s') (ha : Settled s a)
    (hb : s'.belowBusOff) : s'.carrier = true ∨ s'.opIs (Op.turns .start) := by
  cases hs with
  | ndoOpen | doSetMode | restore => exact .inr (by simp [State.opIs, Op.turns, Caller.msg])
  | ndoStop hop | freeze hop | freezeDown hop => exact .inl ((h.carrierOn hb).resolve_right (opIs_of_none hop _))
  | restoreDown _ hr => exact absurd ha (by simp [Settled, hr])
  | start hop | stop hop | refused hop | clear hop =>
    exact (h.carrierOn hb).imp_right fun ht => by simpa [State.opIs, Op.turns, hop] using ht
  | setActive hop hm => exact .inr (by simp [State.opIs, Op.turns, hm])
  | setStopped | sleep | setBusOff => simp [State.belowBusOff, CanState.val] at hb
  | carrierOn => exact .inl rfl
  | carrierOff hop hm => exact absurd hb (h.down (by simp [State.opIs, Op.stopped, hop, hm]))
  | canBusOff hh => exact .inr (ha hh hb)
  | _ => exact h.carrierOn hb

theorem Inv.carrierOff_step {s s' : State} {a : Act} (h : Inv s) (hs : Step s a s') (ha : Settled s a)
    (hc : s'.carrier = true) : s'.belowBusOff ∨ s'.handler = some .canBusOff ∨ s'.opIs (Op.turns .stop) := by
  cases hs with
  | ndoOpen hop | doSetMode hop | ndoStop hop | freeze hop | freezeDown hop =>
    exact (h.carrierOff hc).imp_right fun hh => .inl (hh.resolve_right (opIs_of_none hop _))
  | restore | restoreDown | setActive => exact .inl (by simp [State.belowBusOff, CanState.val])
  | start hop | stop hop | refused hop | clear hop =>
    refine (h.carrierOff hc).imp_right (Or.imp_right fun ht => ?_)
    simpa [State.opIs, Op.turns, hop] using ht
  | setStopped hop hm => exact .inr (.inr (by simp [State.opIs, Op.turns, hm]))
  | carrierOn hop hm =>
    simp only [Settled, hop] at ha
    exact (ha hm).imp_right .inl
  | carrierOff | canBusOff => cases hc
  | sleep hop =>
    rcases h.carrierOff hc with hb | hh | ht
    · exact absurd hb (h.down (by simp [State.opIs, Op.stopped, hop]))
    · exact .inr (.inl hh)
    · simp [State.opIs, Op.turns, hop] at ht
  | setBusOff => exact .inr (.inl rfl)
  | poll hh | tested hh | received hh | notReceived hh =>
    refine (h.carrierOff hc).imp_right fun ht => .inr (ht.resolve_left ?_)
    simp [hh]
  | _ => exact h.carrierOff hc

theorem inv_inductive : machine.Inductive Settled Inv where
  init s hs := by
    subst hs
    constructor <;> simp [probe, State.opIs, State.belowBusOff, CanState.val]
  step s a s' h ha hs :=
    have hs := step_cases hs
    ⟨h.up_step hs, h.down_step hs, h.active_step hs ha, h.carrierOn_step hs ha, h.carrierOff_step hs ha⟩

/-- **The state matches the controller.** In every run in which `can.state`
is set to active only after the device has accepted a START, no closed
interface is resumed and no switch of the carrier is overtaken: with no
operation under way, the state is below bus-off only if the interface is up
and the last accepted request is a START, and the carrier is on exactly when
it is. -/
theorem canState_matches {s : State} (hs : machine.Reach Settled s) : Matches s := by
  have h := inv_inductive.reach hs
  intro hop hh
  refine ⟨h.running hop, fun hc => ?_, fun hb => (h.carrierOn hb).resolve_right (opIs_of_none hop _)⟩
  rcases h.carrierOff hc with hb | hc | ht
  · exact hb
  · cases hh.symm.trans hc
  · exact absurd ht (opIs_of_none hop _)

/-- An operation with a control call, and the result of the call. -/
def ctrlOp (caller : Caller) (ok : Bool) : List Act := [.enter caller, .reply ok, .op, .op, .op]

/-- An open, a bus-off, a restart and a suspend cycle. -/
theorem canState_matches_restarted : ∃ s, machine.Reach Settled s ∧ s.op = none ∧ s.handler = none ∧
    s.canState = .errorActive ∧ s.starts = 3 ∧ Matches s := by
  obtain ⟨s, hs, hop, hh, hst, hn⟩ := Machine.exists_reach (M := machine) Settled (s := probe) rfl
    (ctrlOp .ndoOpen true ++ [.indicate true, .getBuf, .evind, .evind, .evind] ++
      [.busoff, .busoff, .busoff, .busoff, .receive true] ++ ctrlOp .doSetMode true ++
      ctrlOp .freeze true ++ [.op] ++ ctrlOp .restore true)
    (fun s => s.op = none ∧ s.handler = none ∧ s.canState = .errorActive ∧ s.starts = 3) (by decide)
  exact ⟨s, hs, hop, hh, hst, hn, canState_matches hs⟩

/-- A closed interface is suspended and resumed: no START has ever been sent,
and the controller counts as active. -/
theorem closedRestore_active : ∃ s, machine.Reachable s ∧ s.running = false ∧ s.starts = 0 ∧
    s.canState = .errorActive ∧ ¬ Matches s :=
  Machine.exists_reach (M := machine) (fun _ _ => True) (s := probe) rfl [.enter .freeze, .op, .enter .restore]
    (fun s => s.running = false ∧ s.starts = 0 ∧ s.canState = .errorActive ∧ ¬ Matches s) (by decide)

/-- So does one whose START the device has refused, with the carrier on. -/
theorem refusedStart_active : ∃ s, machine.Reachable s ∧ s.lastOk = none ∧ s.carrier = true ∧ ¬ Matches s :=
  Machine.exists_reach (M := machine) (fun _ _ => True) (s := probe) rfl (ctrlOp .ndoOpen false)
    (fun s => s.lastOk = none ∧ s.carrier = true ∧ ¬ Matches s) (by decide)

/-! ## Bus-off indications -/

/-- `virtio_can_start` between its control call and its assignment to
`can.state`. -/
def Op.starting : Op → Bool
  | .ctrl _ .clear | .ctrl _ .setState => true
  | _ => false

/-- `virtio_can_start` past its control call. -/
def Op.begun : Op → Bool
  | .ctrl _ .send | .sleep => false
  | .ctrl caller _ => caller.msg = .start

/-- The indication was sent after the latest START was acknowledged. -/
def State.current (s : State) (n : Nat) : Prop := s.started = true ∧ n = s.starts

instance (s : State) (n : Nat) : Decidable (s.current n) := inferInstanceAs (Decidable (_ ∧ _))

/-- No indication is tested that was sent after the latest START was
acknowledged while `virtio_can_start` has yet to set the state, and
`busoff_pending` is cleared only in the bus-off state, or when no such
indication has been processed. -/
def KeepsBusoff (s : State) : Act → Prop
  | .evind =>
    match s.evind with
    | some (.testPending, n) => s.current n → ¬ s.opIs Op.starting
    | _ => True
  | .receive true => s.started = true → s.processed = true → s.canState = .busOff
  | _ => True

instance (s : State) (a : Act) : Decidable (KeepsBusoff s a) := by
  unfold KeepsBusoff
  split
  · split <;> infer_instance
  all_goals infer_instance

/-- Indications are of STARTs that have been acknowledged. -/
structure Stamped (s : State) : Prop where
  inds : ∀ n, some n ∈ s.inds → n ≤ s.starts
  evind : ∀ p, s.evind = some p → p.2 ≤ s.starts

/-- What holds once the latest START is acknowledged. -/
structure Started (s : State) : Prop where
  op : ∀ op ∈ s.op, op.begun = true
  unprocessed : s.opIs Op.starting → s.processed = false
  state : ¬ s.opIs Op.starting → s.canState = .errorActive ∨ s.canState = .busOff
  evind : ∀ p, s.evind = some p → p.1 ≠ .testPending → p.2 = s.starts → ¬ s.opIs Op.starting
  known : ¬ s.opIs Op.starting → s.processed = true → s.busoffPending = true ∨ s.canState = .busOff

theorem Stamped.step {s s' : State} {a : Act} (h : Stamped s) (hs : Step s a s') : Stamped s' := by
  cases hs with
  | start => exact ⟨fun n hn => Nat.le_succ_of_le (h.inds n hn), fun p hp => Nat.le_succ_of_le (h.evind p hp)⟩
  | sleep => exact ⟨by simp, h.evind⟩
  | @indicate busoff =>
    refine ⟨fun n hn => ?_, h.evind⟩
    cases busoff <;> simp at hn
    · exact h.inds n hn
    · rcases hn with hn | rfl
      · exact h.inds n hn
      · exact Nat.le_refl _
  | @getBuf ind rest hi =>
    refine ⟨fun n hn => h.inds n (by rw [hi]; exact List.mem_cons_of_mem _ hn), fun p hp => ?_⟩
    obtain ⟨n, rfl, rfl⟩ := Option.map_eq_some_iff.mp hp
    exact h.inds n (by simp [hi])
  | pending | notBelow | setPending => exact ⟨h.inds, by simp [State.putback]⟩
  | notPending he | below he => exact ⟨h.inds, by simpa using h.evind _ he⟩
  | _ => exact ⟨h.inds, h.evind⟩

/-- An indication is done with: when it is a current one the START has set
the state, and the driver knows of it. -/
theorem Started.putback {s : State} (h : Started s) {n : Nat} (hn : n = s.starts → ¬ s.opIs Op.starting)
    (hk : ¬ s.opIs Op.starting → s.busoffPending = true ∨ s.canState = .busOff) : Started (s.putback n) := by
  refine ⟨h.op, fun hop => ?_, h.state, by simp [State.putback], fun hop _ => hk hop⟩
  simp only [State.putback, Bool.or_eq_false_iff, decide_eq_false_iff_not]
  exact ⟨h.unprocessed hop, fun he => hn he hop⟩

theorem Started.step {s s' : State} {a : Act} (h : s.started = true → Started s) (hst : Stamped s) (hs : Step s a s')
    (ha : KeepsBusoff s a) (ht : s'.started = true) : Started s' := by
  -- what is under way in `s` has its control call behind it
  have begun {op : Op} (hop : s.op = some op) (ht : s.started = true) : op.begun = true := (h ht).op op (by simp [hop])
  cases hs with
  | ndoOpen | doSetMode | ndoStop | freeze | freezeDown | restore | restoreDown => cases ht
  | start hop hm =>
    refine ⟨by simp [Op.begun, hm], fun _ => rfl, ?_, fun p hp _ hn => ?_, ?_⟩
    · simp [State.opIs, Op.starting]
    · exact absurd (hst.evind p hp) (by simp only at hn; omega)
    · simp [State.opIs, Op.starting]
  | stop hop | refused hop => exact absurd (begun hop ht) (by simp [Op.begun])
  | @clear caller hop =>
    have h := h ht
    have hstart : s.opIs Op.starting := (opIs_of_some hop _).mpr rfl
    refine ⟨?_, fun _ => h.unprocessed hstart, ?_, fun p hp hpc hn => absurd hstart (h.evind p hp hpc hn), ?_⟩
    · simpa [Op.begun] using begun hop ht
    · simp [State.opIs, Op.starting]
    · simp [State.opIs, Op.starting]
  | setActive hop hm =>
    have h := h ht
    have hstart : s.opIs Op.starting := (opIs_of_some hop _).mpr rfl
    refine ⟨by simp [Op.begun, hm], ?_, fun _ => .inl rfl, ?_, fun _ hp => ?_⟩
    · simp [State.opIs, Op.starting]
    · simp [State.opIs, Op.starting]
    · rw [h.unprocessed hstart] at hp
      cases hp
  | setStopped hop hm | carrierOff hop hm => exact absurd (begun hop ht) (by simp [Op.begun, hm])
  | carrierOn hop hm =>
    have h := h ht
    have hstart : ¬ s.opIs Op.starting := by simp [State.opIs, hop, Op.starting]
    refine ⟨by simp, ?_, fun _ => h.state hstart, ?_, fun _ => h.known hstart⟩
    · simp [State.opIs]
    · simp [State.opIs]
  | sleep hop => exact absurd (begun hop ht) (by simp [Op.begun])
  | getBuf =>
    have h := h ht
    refine ⟨h.op, h.unprocessed, h.state, fun p hp hpc => ?_, h.known⟩
    obtain ⟨n, -, rfl⟩ := Option.map_eq_some_iff.mp hp
    exact absurd rfl hpc
  | pending he hp =>
    simp only [KeepsBusoff, he] at ha
    exact (h ht).putback (fun hn => ha ⟨ht, hn⟩) fun _ => .inl hp
  | notPending he =>
    simp only [KeepsBusoff, he] at ha
    have h := h ht
    refine ⟨h.op, h.unprocessed, h.state, fun p hp _ hn => ?_, h.known⟩
    cases hp
    exact ha ⟨ht, hn⟩
  | below he =>
    have h := h ht
    refine ⟨h.op, h.unprocessed, h.state, fun p hp _ hn => ?_, h.known⟩
    cases hp
    exact h.evind _ he (by simp) hn
  | notBelow he hb =>
    have h := h ht
    refine h.putback (h.evind _ he (by simp)) fun hop => .inr ((h.state hop).resolve_left fun hc => hb ?_)
    simp [State.belowBusOff, hc, CanState.val]
  | setPending he =>
    have h := h ht
    have h : Started { s with busoffPending := true } := ⟨h.op, h.unprocessed, h.state, h.evind, fun _ _ => .inl rfl⟩
    exact h.putback (h.evind _ he (by simp)) fun _ => .inl rfl
  | setBusOff =>
    have h := h ht
    exact ⟨h.op, h.unprocessed, fun _ => .inr rfl, h.evind, fun _ _ => .inr rfl⟩
  | received =>
    have h := h ht
    exact ⟨h.op, h.unprocessed, h.state, h.evind, fun _ hp => .inr (ha ht hp)⟩
  | _ =>
    have h := h ht
    exact ⟨h.op, h.unprocessed, h.state, h.evind, h.known⟩

theorem started_inductive : machine.Inductive KeepsBusoff fun s => Stamped s ∧ (s.started = true → Started s) where
  init s hs := by
    subst hs
    exact ⟨⟨by simp [probe], by simp [probe]⟩, by simp [probe]⟩
  step s a s' h ha hs :=
    have hs := step_cases hs
    ⟨h.1.step hs, Started.step h.2 h.1 hs ha⟩

/-- **No bus-off is lost.** In every run in which no indication arrives
between the acknowledgement of a START and the assignment to `can.state`, and
`busoff_pending` is cleared for one that has set the state: when
`virtio_can_start` has returned and an indication sent after the
acknowledgement has been processed, `busoff_pending` is set or the state is
bus-off. -/
theorem busoff_notLost {s : State} (hs : machine.Reach KeepsBusoff s) : BusoffKnown s := by
  intro hop ht hp
  exact ((started_inductive.reach hs).2 ht).known (opIs_of_none hop _) hp

/-- A bus-off after an open, with the message not passed on and then passed on. -/
theorem busoff_notLost_opened : ∃ s, machine.Reach KeepsBusoff s ∧ s.op = none ∧ s.started = true ∧
    s.processed = true ∧ s.busoffPending = false ∧ BusoffKnown s := by
  obtain ⟨s, hs, hop, ht, hp, hb⟩ := Machine.exists_reach (M := machine) KeepsBusoff (s := probe) rfl
    (ctrlOp .ndoOpen true ++ [.indicate true, .getBuf, .evind, .evind, .evind] ++
      [.busoff, .busoff, .busoff, .busoff, .receive false] ++ [.busoff, .busoff, .receive true])
    (fun s => s.op = none ∧ s.started = true ∧ s.processed = true ∧ s.busoffPending = false) (by decide)
  exact ⟨s, hs, hop, ht, hp, hb, busoff_notLost hs⟩

/-- The indication follows the acknowledgement at once: `can.state` is still
`CAN_STATE_STOPPED`, the interrupt drops it, and the start goes on. -/
theorem earlyBusoff_dropped : ∃ s, machine.Reachable s ∧ s.canState = .errorActive ∧ ¬ BusoffKnown s :=
  Machine.exists_reach (M := machine) (fun _ _ => True) (s := probe) rfl
    [.enter .ndoOpen, .reply true, .indicate true, .getBuf, .evind, .evind, .op, .op, .op]
    (fun s => s.canState = .errorActive ∧ ¬ BusoffKnown s) (by decide)

/-- Nor is an early one needed: the poll function, still at the bus-off
before a restart, clears the flag that the next one has set. -/
theorem lateClear_lost : ∃ s, machine.Reachable s ∧ s.canState = .errorActive ∧ ¬ BusoffKnown s :=
  Machine.exists_reach (M := machine) (fun _ _ => True) (s := probe) rfl
    (ctrlOp .ndoOpen true ++ [.indicate true, .getBuf, .evind, .evind, .evind] ++
      [.busoff, .busoff, .busoff, .busoff] ++ ctrlOp .doSetMode true ++
      [.indicate true, .getBuf, .evind, .evind, .evind, .receive true])
    (fun s => s.canState = .errorActive ∧ ¬ BusoffKnown s) (by decide)

end Agl.VirtioCan.Controller
