/-
The transmit queue of a closed interface.

`virtio_can_close` stops the queue and leaves TX NAPI running, so that
cancelled frames are reclaimed; `virtio_can_read_tx_queue` wakes a stopped
queue after each of them, whatever the state of the interface. So the queue
stays stopped as long as no frame in flight at the close is completed and
taken before the next open or restart, and a completion that is taken in that
time starts it (`closed_staysStopped`).
-/
import Agl.Can.TxFacts

namespace Agl.VirtioCan

/-- `netif_stop_queue` of a close has run, and no open or restart since. -/
def noteClose (s : State) (a : Act) (closed : Bool) : Bool :=
  match a with
  | .admin =>
    match s.admin with
    | .up => true
    | .down => false
    | _ => closed
  | .restart => false
  | _ => closed

/-- The transmit machine, its closes watched. -/
def closeMachine : Machine (State × Bool) Act := machine.watched false noteClose

/-- The queue of a closed interface is stopped. -/
def StaysStopped (w : State × Bool) : Prop := w.2 = true → w.1.queueStopped = true

/-- On a closed interface `virtio_can_read_tx_queue` has no completion in its
hands, and finds none in the virtqueue. -/
def FindsNone (w : State × Bool) (a : Act) : Prop :=
  w.2 = true → a = .read → w.1.read = .idle ∨ w.1.read = .get ∧ w.1.used = []

instance (w : State × Bool) (a : Act) : Decidable (FindsNone w a) := inferInstanceAs (Decidable (_ → _ → _))

/-- Some steps of `virtio_can_read_tx_queue`, and no others, lead to a queue
that runs on a closed interface. -/
def Wakes (w : State × Bool) : Prop :=
  ∃ n w', closeMachine.exec (fun _ _ => True) w (List.replicate n .read) = some w' ∧ ¬StaysStopped w'

/-! ## Who starts the queue -/

/-- Past the stop of a close, and not past the start of an open. -/
def AdminPc.shut : AdminPc → Bool
  | .closing | .flushing | .down => true
  | .opening | .up => false

theorem freeze_keepsStopped {s s' : State} (hf : freeze s = some s') (hq : s.queueStopped = true) :
    s'.queueStopped = true := by
  unfold freeze at hf
  split at hf
  · cases hf
    dsimp only [delVq]
    split
    · rfl
    · exact hq
  · cases hf

theorem restore_keepsStopped {s s' : State} {ok : Bool} (hr : restore s ok = some s') (hup : s.admin ≠ .up)
    (hq : s.queueStopped = true) : s'.queueStopped = true := by
  unfold restore at hr
  split at hr
  · cases hr
    dsimp only
    rw [if_neg hup]
    exact hq
  · cases hr
    exact hq

/-- What is closed is shut and stopped. -/
structure CloseInv (w : State × Bool) : Prop where
  shut : w.2 = true → w.1.admin.shut = true
  stopped : StaysStopped w

/-- Before any close, and from an open or a restart on, there is nothing to keep. -/
theorem CloseInv.of_open {w : State × Bool} (h : w.2 = false) : CloseInv w where
  shut hc := by cases h.symm.trans hc
  stopped hc := by cases h.symm.trans hc

theorem CloseInv.step {w w' : State × Bool} {a : Act} (h : CloseInv w) (ha : FindsNone w a)
    (hs : Step w.1 a w'.1) (hnote : w'.2 = noteClose w.1 a w.2) : CloseInv w' := by
  obtain ⟨s, closed⟩ := w
  obtain ⟨s', closed'⟩ := w'
  obtain rfl : closed' = noteClose s a closed := hnote
  obtain ⟨hshut, hstop⟩ := h
  unfold StaysStopped at hstop
  dsimp only at hs hshut hstop
  cases hs with
  -- the close, then the rest of it
  | closeStop => exact ⟨fun _ => rfl, fun _ => rfl⟩
  | closeCtrl hpc =>
    have hc : noteClose s .admin closed = closed := by simp only [noteClose, hpc]
    exact ⟨fun _ => rfl, fun hcl => hstop (hc ▸ hcl)⟩
  | closeFlush hpc =>
    have hc : noteClose s .admin closed = closed := by simp only [noteClose, hpc]
    exact ⟨fun _ => rfl, fun hcl => hstop (hc ▸ hcl)⟩
  -- an open or a restart ends the closed time
  | openStart hpc =>
    have hc : noteClose s .admin closed = false := by simp only [noteClose, hpc]
    exact .of_open hc
  | openQueue hpc =>
    have hc : noteClose s .admin closed = closed := by simp only [noteClose, hpc]
    have hopen : closed = false := by
      rw [hpc] at hshut
      simpa [AdminPc.shut] using hshut
    exact .of_open (hc.trans hopen)
  | restart | restartWake => exact .of_open rfl
  | rdWake hr =>
    refine .of_open (Bool.eq_false_iff.mpr fun hcl => ?_)
    rcases ha hcl rfl with hidle | ⟨hget, -⟩
    · cases hr.symm.trans hidle
    · cases hr.symm.trans hget
  | stopBusy | stopNormal | stopFail => exact ⟨hshut, fun _ => rfl⟩
  | alloc _ hal =>
    obtain ⟨n, f, rfl⟩ := allocTxIdx_frame hal
    exact ⟨hshut, hstop⟩
  | undo _ hfr | rdFree _ hfr =>
    obtain ⟨n, f, rfl⟩ := freeTxIdx_frame hfr
    exact ⟨hshut, hstop⟩
  | echo =>
    rename_i skb m _ _
    obtain ⟨e, g, he⟩ := canPutEchoSkb_frame s skb m.putidx
    rw [he]
    exact ⟨hshut, hstop⟩
  | rdEcho =>
    rename_i m _
    obtain ⟨e, g, he⟩ := takeEchoSkb_frame s m.putidx
    rw [he]
    exact ⟨hshut, hstop⟩
  | busOff =>
    unfold VirtioCan.busOff
    split <;> exact ⟨hshut, hstop⟩
  | freeze hf =>
    refine ⟨?_, fun hcl => freeze_keepsStopped hf (hstop hcl)⟩
    obtain ⟨-, -, -, -, q, rfl⟩ := freeze_cases hf
    exact hshut
  | restore hr _ =>
    refine ⟨?_, fun hcl => restore_keepsStopped hr (fun hup => ?_) (hstop hcl)⟩
    · rcases restore_cases hr with ⟨-, rfl⟩ | ⟨-, q, -, rfl⟩ <;> exact hshut
    · have := hshut hcl
      rw [hup] at this
      cases this
  | _ => exact ⟨hshut, hstop⟩

theorem closeInv_inductive : closeMachine.Inductive FindsNone CloseInv where
  init w hw := .of_open hw.2
  step w a w' h ha hs := by
    obtain ⟨hstep, hnote⟩ := Machine.watched_step.mp hs
    exact h.step ha (step_cases hstep).1 hnote

/-! ## A completion taken on a closed interface -/

/-- The queue is stopped, and its reader may run: no `BUG_ON` has fired and the
device is not suspended. -/
structure StoppedQueue (s : State) : Prop where
  bug : s.bug = none
  awake : s.suspended = false
  stopped : s.queueStopped = true

theorem Wakes.back {s t : State} (hs : StoppedQueue s) (hr : readStep s = some t) (h : Wakes (t, true)) :
    Wakes (s, true) := by
  obtain ⟨n, w, hw, hq⟩ := h
  have hstep : closeMachine.step (s, true) .read = some (t, true) := by
    simp [closeMachine, Machine.watched, machine, step, hs.bug, hs.awake, hr, noteClose]
  refine ⟨n + 1, w, ?_, hq⟩
  rw [List.replicate_succ, Machine.exec, if_pos trivial, hstep]
  exact hw

theorem wakes_wake {s : State} (hs : StoppedQueue s) (hr : s.read = .wake) : Wakes (s, true) := by
  refine .back hs (t := { s with queueStopped := false, read := .idle }) (by rw [readStep, hr]) ?_
  exact ⟨0, _, rfl, fun hstop => by cases hstop rfl⟩

theorem wakes_test {s : State} (hs : StoppedQueue s) (hr : s.read = .test) : Wakes (s, true) := by
  refine .back hs (t := { s with read := .wake }) (by rw [readStep, hr, hs.stopped]; rfl) ?_
  exact wakes_wake { hs with } rfl

theorem wakes_freeIdx {s : State} {lost : List Int} {m : TxMsg} (hs : StoppedQueue s) (hi : Inv lost s)
    (hr : s.read = .freeIdx m) : Wakes (s, true) := by
  refine .back hs (by rw [readStep, hr]; dsimp only; rw [hi.free_ok hr]) ?_
  exact wakes_test { hs with } rfl

theorem wakes_unlink {s : State} {lost : List Int} {m : TxMsg} (hs : StoppedQueue s) (hi : Inv lost s)
    (hr : s.read = .unlink m) : Wakes (s, true) := by
  have hunlink : readStep s = some { s with txList := s.txList.erase m, read := .freeIdx m } := by rw [readStep, hr]
  exact .back hs hunlink (wakes_freeIdx { hs with } (hi.step (.rdUnlink hr) (by decide)) rfl)

theorem wakes_echo {s : State} {lost : List Int} {m : TxMsg} (hs : StoppedQueue s) (hi : Inv lost s)
    (hr : s.read = .echo m) : Wakes (s, true) := by
  obtain ⟨e, g, he⟩ := takeEchoSkb_frame s m.putidx
  have hecho : readStep s = some { takeEchoSkb s m.putidx with read := .unlink m } := by
    rw [readStep, hr]
    dsimp only
    split <;> rfl
  refine .back hs hecho (wakes_unlink ?_ (hi.step (.rdEcho hr) (by decide)) rfl)
  rw [he]
  exact { hs with }

/-- Whatever it has taken, `virtio_can_read_tx_queue` ends with the wake. -/
theorem wakes_of_taken {s : State} {lost : List Int} (hs : StoppedQueue s) (hi : Inv lost s)
    (hr : ¬(s.read = .idle ∨ s.read = .get ∧ s.used = [])) : Wakes (s, true) := by
  cases hread : s.read with
  | idle => exact absurd (.inl hread) hr
  | get =>
    obtain ⟨m, rest, hused⟩ := List.exists_cons_of_ne_nil fun hnil => hr (.inr ⟨hread, hnil⟩)
    refine .back hs (t := { s with used := rest, read := .echo m }) (by rw [readStep, hread, hused]) ?_
    exact wakes_echo { hs with } (hi.step (.rdGet hread hused) (by decide)) rfl
  | echo m => exact wakes_echo hs hi hread
  | unlink m => exact wakes_unlink hs hi hread
  | freeIdx m => exact wakes_freeIdx hs hi hread
  | test => exact wakes_test hs hread
  | wake => exact wakes_wake hs hread

/-- **A closed interface stays stopped as long as no completion is taken.** In
every run in which `virtio_can_read_tx_queue` has no completion in its hands
and finds none in the virtqueue between the `netif_stop_queue` of a close and
the next open or restart, the queue is stopped there in every state. Where
it has one or finds one, its own steps are enough to start the queue. -/
theorem closed_staysStopped {w : State × Bool} (h : closeMachine.Reach FindsNone w) :
    StaysStopped w ∧ ∀ a w', closeMachine.step w a = some w' → ¬FindsNone w a → Wakes w := by
  have hinv := closeInv_inductive.reach h
  refine ⟨hinv.stopped, fun a w' hs ha => ?_⟩
  obtain ⟨hstep, -⟩ := Machine.watched_step.mp hs
  obtain ⟨lost, hi⟩ := lost_inductive.watched.reach h.reachable
  obtain ⟨s, closed⟩ := w
  simp only [FindsNone, Classical.not_imp] at ha
  obtain ⟨rfl, rfl, hr⟩ := ha
  obtain ⟨-, hbug, hawake⟩ := step_cases hstep
  exact wakes_of_taken ⟨hbug, hawake.resolve_right nofun, hinv.stopped rfl⟩ hi hr

/-- A frame is sent and its completion taken; then comes the close, and the
reader looks again. -/
theorem closed_staysStopped_idle : ∃ w : State × Bool, w.2 = true ∧ w.1.read = .get ∧ StaysStopped w := by
  obtain ⟨w, hw, hc, hr⟩ := Machine.exists_reach FindsNone (M := closeMachine) (s := (probe 4 true, false))
    ⟨probe_init 4 true, rfl⟩ (openAndSend 7 ++ [.complete 0] ++ List.replicate 6 .read ++ [.admin, .read])
    (fun w => w.2 = true ∧ w.1.read = .get) (by decide +kernel)
  exact ⟨w, hc, hr, (closed_staysStopped hw).1⟩

/-- A frame is in flight at the close; its completion wakes the queue. -/
theorem closed_wakes : ∃ w : State × Bool, closeMachine.Reachable w ∧ ¬ StaysStopped w := by
  obtain ⟨w, hw, hc, hq⟩ := Machine.exists_reach (fun _ _ => True) (M := closeMachine) (s := (probe 4 true, false))
    ⟨probe_init 4 true, rfl⟩ (openAndSend 7 ++ [.complete 0, .admin] ++ List.replicate 7 .read)
    (fun w => w.2 = true ∧ w.1.queueStopped = false) (by decide +kernel)
  exact ⟨w, hw, fun hstop => (by cases hq.symm.trans (hstop hc))⟩

end Agl.VirtioCan
