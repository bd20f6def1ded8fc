/-
The last transmission slot: who stops the queue when it is taken.

`virtio_can_start_xmit` compares `tx_inflight` with the limit twice before
it takes an index and never after, so the call that takes the last slot
leaves the queue running (`lastSlot_keepsQueue`) and a next call finds no
slot and returns `NETDEV_TX_BUSY`. As long as no call takes the last slot,
none does (`stopsInTime`).

A call in progress is watched: whether it has taken the last slot, and
whether it has stopped the queue.
-/
import Agl.Can.Flow
import Agl.Can.Suspend

namespace Agl.VirtioCan

/-- What the call of `virtio_can_start_xmit` in progress has done. -/
structure Call where
  /-- it has taken the last slot -/
  tookLast : Bool
  /-- it has called `netif_stop_queue` -/
  stopped : Bool
  deriving DecidableEq, Repr

/-- In `virtio_can_alloc_tx_idx`. -/
def XmitPc.allocating : XmitPc → Bool
  | .alloc _ _ => true
  | _ => false

/-- The call after a step. -/
def noteCall (s : State) (a : Act) (c : Call) : Call :=
  match a with
  | .xmitCall _ => ⟨false, false⟩
  | .xmit =>
    { tookLast := c.tookLast || (s.xmit.allocating && s.txInflight + 1 ≥ s.txLimit)
      stopped := c.stopped || s.xmit.stopping }
  | _ => c

/-- The transmit machine, its calls watched. -/
def callMachine (numFree : Nat) (indirect : Bool) : Machine (State × Call) Act :=
  (machine.startAt (probe numFree indirect)).watched ⟨false, false⟩ noteCall

/-- The queue is stopped in time. -/
structure InTime (w : State × Call) : Prop where
  /-- `NETDEV_TX_BUSY` is never returned. -/
  busy : ∀ skb, (skb, .busy) ∉ w.1.returned
  /-- A call that has taken the last slot has stopped the queue when it returns. -/
  last : ∀ skb ret, w.1.xmit = .kick skb ret → w.2.tookLast = true → w.2.stopped = true
  /-- A completion wakes the queue when a slot is free. -/
  wake : w.1.read = .wake → w.1.txInflight < w.1.txLimit

/-- The stack calls only while the queue is not stopped, and
`virtqueue_add_sgs` does not fail. -/
def Served (s : State) : Act → Prop
  | .xmitCall _ => s.queueStopped = false
  | .xmitAdd ok => ok = true
  | _ => True

instance (s : State) : (a : Act) → Decidable (Served s a)
  | .xmitCall _ => inferInstanceAs (Decidable (s.queueStopped = false))
  | .xmitAdd ok => inferInstanceAs (Decidable (ok = true))
  | .xmitDrop | .xmitKzalloc _ | .xmit | .read | .complete _ | .admin | .restart | .busOff | .freeze | .restore _ =>
    inferInstanceAs (Decidable True)

/-- No call takes the last slot. -/
def LeavesSlot (s : State) (a : Act) : Prop :=
  a = .xmit → s.xmit.allocating = true → s.txInflight + 1 < s.txLimit

instance (s : State) (a : Act) : Decidable (LeavesSlot s a) := inferInstanceAs (Decidable (_ → _ → _))

/-! ## The counter -/

theorem allocTxIdx_counts {p p' : Priv} {prio : Nat} {idx : Int} (h : allocTxIdx p prio = .ok (idx, p')) :
    p'.txInflight = p.txInflight + 1 := by
  unfold allocTxIdx at h
  split at h
  · cases h
  split at h
  · cases h
  dsimp only at h
  split at h <;> cases h <;> rfl

theorem freeTxIdx_counts {p p' : Priv} {prio : Nat} {idx : Int} (h : freeTxIdx p prio idx = .ok p') :
    p'.txInflight ≤ p.txInflight := by
  unfold freeTxIdx at h
  split at h
  · cases h
  split at h
  · cases h
  split at h
  · cases h
  · cases h
    exact Nat.sub_le _ _

/-- Only `virtio_can_alloc_tx_idx` counts up. -/
theorem Step.counts {s s' : State} {a : Act} (hs : Step s a s') :
    s'.txInflight ≤ s.txInflight ∨
      a = .xmit ∧ (∃ skb addr, s.xmit = .alloc skb addr) ∧ s'.txInflight = s.txInflight + 1 := by
  cases hs with
  | alloc hx ha => exact .inr ⟨rfl, ⟨_, _, hx⟩, allocTxIdx_counts ha⟩
  | undo _ ha =>
    have hle := freeTxIdx_counts ha
    exact .inl hle
  | rdFree _ ha => exact .inl (freeTxIdx_counts ha)
  | echo =>
    rename_i skb m _ _
    obtain ⟨e, g, he⟩ := canPutEchoSkb_frame s skb m.putidx
    rw [he]
    exact .inl (Nat.le_refl _)
  | rdEcho =>
    rename_i m _
    obtain ⟨e, g, he⟩ := takeEchoSkb_frame s m.putidx
    rw [he]
    exact .inl (Nat.le_refl _)
  | busOff =>
    unfold VirtioCan.busOff
    split <;> exact .inl (Nat.le_refl _)
  | freeze hf =>
    obtain ⟨-, -, -, -, q, rfl⟩ := freeze_cases hf
    exact .inl (Nat.le_refl _)
  | restore hr _ =>
    rcases restore_cases hr with ⟨-, rfl⟩ | ⟨-, q, -, rfl⟩ <;> exact .inl (Nat.le_refl _)
  | _ => exact .inl (Nat.le_refl _)

/-! ## Without the last slot -/

/-- About to stop the queue, or to return `NETDEV_TX_BUSY`. -/
def XmitPc.full : XmitPc → Bool
  | .kick _ .busy => true
  | pc => pc.stopping

/-- No call has found the slots taken, or has taken the last one. -/
structure SlotInv (w : State × Call) : Prop where
  room : w.1.txInflight < w.1.txLimit
  pc : w.1.xmit.full = false
  busy : ∀ skb, (skb, .busy) ∉ w.1.returned
  call : w.2.tookLast = false

/-- A step to `xmit` or past the return of a call keeps the calls' part. -/
theorem SlotInv.calls {s s' : State} {a : Act} (hr : s.txInflight < s.txLimit) (hx : s.xmit.full = false)
    (hb : ∀ skb, (skb, .busy) ∉ s.returned) (hs : Step s a s') (hserved : Served s a) :
    s'.xmit.full = false ∧ ∀ skb, (skb, .busy) ∉ s'.returned := by
  cases hs with
  | full1 _ hl | full2 _ hl => exact absurd hr (Nat.not_lt.mpr hl)
  | stopBusy hpc | stopNormal hpc | stopFail hpc =>
    rw [hpc] at hx
    cases hx
  | kick hpc =>
    rename_i skb ret
    rw [hpc] at hx
    refine ⟨rfl, fun skb' hmem => ?_⟩
    cases ret with
    | ok => exact hb skb' (by simpa using hmem)
    | busy => cases hx
  | undo => cases hserved
  | echo =>
    rename_i skb m _ _
    obtain ⟨e, g, he⟩ := canPutEchoSkb_frame s skb m.putidx
    rw [he]
    exact ⟨rfl, hb⟩
  | rdEcho =>
    rename_i m _
    obtain ⟨e, g, he⟩ := takeEchoSkb_frame s m.putidx
    rw [he]
    exact ⟨hx, hb⟩
  | busOff =>
    unfold VirtioCan.busOff
    split <;> exact ⟨hx, hb⟩
  | freeze hf =>
    obtain ⟨-, -, -, -, q, rfl⟩ := freeze_cases hf
    exact ⟨hx, hb⟩
  | restore hre _ =>
    rcases restore_cases hre with ⟨-, rfl⟩ | ⟨-, q, -, rfl⟩ <;> exact ⟨hx, hb⟩
  | call | drop | kzalloc | noMem | room1 | room2 | lock1 | alloc | link | lock2 | add => exact ⟨rfl, hb⟩
  | _ => exact ⟨hx, hb⟩

theorem SlotInv.step {w w' : State × Call} {a : Act} (h : SlotInv w) (hserved : Served w.1 a)
    (hleaves : LeavesSlot w.1 a) (hs : Step w.1 a w'.1) (hnote : w'.2 = noteCall w.1 a w.2) : SlotInv w' := by
  obtain ⟨hlimit, -⟩ := hs.limits
  obtain ⟨hpc, hbusy⟩ := SlotInv.calls h.room h.pc h.busy hs hserved
  refine ⟨?_, hpc, hbusy, ?_⟩
  · rw [hlimit]
    rcases hs.counts with hle | ⟨ha, ⟨skb, addr, hx⟩, hcount⟩
    · exact Nat.lt_of_le_of_lt hle h.room
    · rw [hcount]
      exact hleaves ha (by rw [hx]; rfl)
  · rw [hnote]
    cases a with
    | xmit =>
      simp only [noteCall, h.call, Bool.false_or, Bool.and_eq_false_iff, decide_eq_false_iff_not]
      by_cases hx : w.1.xmit.allocating = true
      · exact .inr (Nat.not_le.mpr (hleaves rfl hx))
      · exact .inl (by simpa using hx)
    | xmitCall => rfl
    | _ => exact h.call

/-- Every step of a run is served and leaves a slot. -/
def InTimeStep (w : State × Call) (a : Act) : Prop := Served w.1 a ∧ LeavesSlot w.1 a

instance (w : State × Call) (a : Act) : Decidable (InTimeStep w a) := inferInstanceAs (Decidable (_ ∧ _))

theorem slotInv_inductive {numFree : Nat} {indirect : Bool} (hlimit : 1 ≤ (probe numFree indirect).txLimit) :
    (callMachine numFree indirect).Inductive InTimeStep SlotInv where
  init w hw := by
    obtain ⟨hs, hc⟩ := hw
    obtain ⟨s, c⟩ := w
    cases hs
    cases hc
    exact ⟨hlimit, rfl, fun _ hmem => (by cases hmem), rfl⟩
  step w a w' h ha hs := by
    obtain ⟨hstep, hnote⟩ := Machine.watched_step.mp hs
    exact h.step ha.1 ha.2 (step_cases hstep).1 hnote

/-- **The queue is stopped in time as long as no call takes the last slot.**
In every run in which the stack calls only while the queue is not stopped,
`virtqueue_add_sgs` does not fail and `tx_limit` is at least 1: if no call
takes the last slot, `NETDEV_TX_BUSY` is never returned, and completions
wake the queue with a slot free. -/
theorem stopsInTime {numFree : Nat} {indirect : Bool} (hlimit : 1 ≤ (probe numFree indirect).txLimit)
    {w : State × Call} (h : (callMachine numFree indirect).Reach InTimeStep w) : InTime w := by
  have hi := (slotInv_inductive hlimit).reach h
  exact ⟨hi.busy, fun _ _ _ htook => (by cases hi.call.symm.trans htook), fun _ => hi.room⟩

/-- One frame on a ring of eight. -/
theorem stopsInTime_room : ∃ w : State × Call, w.1.txInflight = 1 ∧ InTime w := by
  obtain ⟨w, hw, hsent⟩ := Machine.exists_reach InTimeStep (M := callMachine 8 true)
    (s := (probe 8 true, ⟨false, false⟩)) ⟨rfl, rfl⟩ (openAndSend 7) (fun w => w.1.txInflight = 1) (by decide +kernel)
  exact ⟨w, hsent, stopsInTime (by decide) hw⟩

/-! ## With the last slot -/

/-- A call that has taken an index has not stopped the queue. -/
def CallInv (w : State × Call) : Prop :=
  match w.1.xmit with
  | .idle => True
  | .link _ _ | .echo _ _ | .lock2 _ _ | .add _ _ | .kick _ .ok => w.2.stopped = false
  | .kick _ .busy => w.2.tookLast = false
  | .stopNormal _ _ | .stopFail _ => False
  | _ => w.2 = ⟨false, false⟩

theorem CallInv.step {lost lost' : List Int} {w w' : State × Call} {a : Act} (hi : Inv lost w.1)
    (hi' : Inv lost' w'.1) (h : CallInv w) (hserved : Served w.1 a) (hs : Step w.1 a w'.1)
    (hnote : w'.2 = noteCall w.1 a w.2) : CallInv w' := by
  obtain ⟨s, c⟩ := w
  obtain ⟨s', c'⟩ := w'
  obtain rfl : c' = noteCall s a c := hnote
  dsimp only at hs hi hi' hserved
  cases hs with
  | full2 hx hl => exact absurd (hi.room (by rw [hx]; rfl)) (Nat.not_lt.mpr hl)
  | undo => cases hserved
  | call => rfl
  | drop hx | kzalloc hx | noMem hx =>
    simp only [CallInv, hx] at h
    simp [CallInv, noteCall, h]
  | full1 hx | room1 hx | room2 hx | stopBusy hx | lock1 hx | alloc hx | link hx | lock2 hx | add hx =>
    simp only [CallInv, hx] at h
    simp [CallInv, noteCall, hx, XmitPc.allocating, XmitPc.stopping, h]
  | stopNormal hx | stopFail hx =>
    simp only [CallInv, hx] at h
  | kick hx => trivial
  | allocBug | echoBug => cases hi'.bug
  | echo hx =>
    rename_i skb m _
    obtain ⟨e, g, he⟩ := canPutEchoSkb_frame s skb m.putidx
    simp only [CallInv, hx] at h
    rw [he]
    simp [CallInv, noteCall, hx, XmitPc.stopping, h]
  | rdEcho =>
    rename_i m _
    obtain ⟨e, g, he⟩ := takeEchoSkb_frame s m.putidx
    rw [he]
    exact h
  | busOff =>
    unfold VirtioCan.busOff
    split <;> exact h
  | freeze hf =>
    obtain ⟨-, -, -, -, q, rfl⟩ := freeze_cases hf
    exact h
  | restore hre =>
    rcases restore_cases hre with ⟨-, rfl⟩ | ⟨-, q, -, rfl⟩ <;> exact h
  | _ => exact h

theorem callInv_inductive (numFree : Nat) (indirect : Bool) : (callMachine numFree indirect).Inductive
    (fun w a => Served w.1 a) fun w => (∃ lost, Inv lost w.1) ∧ CallInv w :=
  ((lost_inductive.startAt ⟨[], probe_inv numFree indirect⟩).watched.mono fun _ _ _ => trivial).and
    (fun w hw => by
      obtain ⟨s, c⟩ := w
      obtain rfl : s = probe numFree indirect := hw.1
      trivial)
    fun w a w' hi hi' h ha hs => by
      obtain ⟨lost, hi⟩ := hi
      obtain ⟨lost', hi'⟩ := hi'
      obtain ⟨hstep, hnote⟩ := Machine.watched_step.mp hs
      exact h.step hi hi' ha (step_cases hstep).1 hnote

/-- A call that has taken the last slot returns without having stopped the
queue, whatever else goes on. -/
theorem lastSlot_keepsQueue {numFree : Nat} {indirect : Bool} {w : State × Call}
    (h : (callMachine numFree indirect).Reach (fun w a => Served w.1 a) w) {skb : Skb} {ret : TxRet}
    (hx : w.1.xmit = .kick skb ret) (htook : w.2.tookLast = true) : w.2.stopped = false := by
  have hcall := ((callInv_inductive numFree indirect).reach h).2
  simp only [CallInv, hx] at hcall
  cases ret with
  | ok => exact hcall
  | busy => cases hcall.symm.trans htook

/-- On a ring with one slot the second frame is refused. -/
theorem lastSlot_busy : ¬ ∀ (numFree : Nat) (indirect : Bool) (w : State × Call),
    1 ≤ (probe numFree indirect).txLimit → (callMachine numFree indirect).Reach (fun w a => Served w.1 a) w →
    InTime w := by
  intro h
  obtain ⟨w, hw, hret⟩ := Machine.exists_reach (fun w a => Served w.1 a) (M := callMachine 1 true)
    (s := (probe 1 true, ⟨false, false⟩)) ⟨rfl, rfl⟩
    (openAndSend 7 ++ [.xmitCall 8, .xmitKzalloc true] ++ List.replicate 3 .xmit)
    (fun w => (8, .busy) ∈ w.1.returned) (by decide +kernel)
  exact (h 1 true w (by decide) hw).busy 8 hret

end Agl.VirtioCan
