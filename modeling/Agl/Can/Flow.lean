/-
Flow control of the transmit queue: who wakes it once it is stopped.

`virtio_can_start_xmit` stops the queue without looking again at what is in
flight, so the last completion may have made its test just before. A queue
that is stopped while a message is in the virtqueue, or while
`virtio_can_read_tx_queue` is on its way from a message to its test, is
woken (`flow_noLostWakeup`); one stopped at any other moment is not
(`unbackedStop_strands`).
-/
import Agl.Can.TxFacts

namespace Agl.VirtioCan

/-- About to call `netif_stop_queue`. -/
def XmitPc.stopping : XmitPc → Bool
  | .stopBusy _ | .stopNormal _ _ | .stopFail _ => true
  | _ => false

/-- A message has been taken and the test that wakes the queue is ahead. -/
def ReadPc.willWake : ReadPc → Bool
  | .echo _ | .unlink _ | .freeIdx _ | .test | .wake => true
  | .idle | .get => false

/-- A completion is to come that finds the queue stopped. -/
def State.backed (s : State) : Prop := s.ring ≠ [] ∨ s.read.willWake = true

instance (s : State) : Decidable s.backed := inferInstanceAs (Decidable (_ ∨ _))

/-- The queue of an open interface is stopped only while a completion is to come. -/
def StopsBacked (s : State) (a : Act) : Prop :=
  a = .xmit → s.xmit.stopping = true → s.isOpen → s.backed

instance (s : State) (a : Act) : Decidable (StopsBacked s a) :=
  inferInstanceAs (Decidable (_ → _ → _ → _))

/-- A stopped queue has its completion to come. -/
def FlowInv (s : State) : Prop := s.isOpen → s.queueStopped = true → s.backed

theorem FlowInv.step {s s' : State} {a : Act} (h : FlowInv s) (hs : Step s a s')
    (hc : StopsBacked s a) : FlowInv s' := by
  obtain ⟨p, lock, av, us, xm, rd, ad, rs, sus, kz, gone, ret, bug⟩ := s
  cases hs with
  | call | drop | kzalloc | noMem | full1 | room1 | full2 | room2 | lock1 | allocBug | link | echoBug | lock2 | kick
  | undoBug | rdFreeBug => exact h
  | stopBusy hx | stopNormal hx | stopFail hx => exact fun ho _ => hc rfl (by rw [hx]; rfl) ho
  | alloc _ ha =>
    obtain ⟨n, f, rfl⟩ := allocTxIdx_frame ha
    exact h
  | undo _ ha =>
    obtain ⟨n, f, rfl⟩ := freeTxIdx_frame ha
    exact h
  | echo =>
    rename_i skb m _ _
    obtain ⟨e, g, he⟩ := canPutEchoSkb_frame ⟨p, lock, av, us, xm, rd, ad, rs, sus, kz, gone, ret, bug⟩ skb m.putidx
    rw [he]
    exact h
  | add => exact fun _ _ => .inl (by simp [State.ring])
  | rdLock hr _ | rdNone hr _ =>
    intro ho hq
    have := h ho hq
    dsimp only at hr
    subst hr
    exact this
  | rdGet | rdUnlink | rdFree => exact fun _ _ => .inr rfl
  | rdEcho =>
    rename_i m _
    obtain ⟨e, g, he⟩ := takeEchoSkb_frame ⟨p, lock, av, us, xm, rd, ad, rs, sus, kz, gone, ret, bug⟩ m.putidx
    rw [he]
    exact fun _ _ => .inr rfl
  | rdTest =>
    intro _ hq
    -- the reader sees the stopped queue
    have : p.queueStopped = true := hq
    exact .inr (by simp [this, ReadPc.willWake])
  | rdWake => exact fun _ hq => by cases hq
  | complete => exact fun _ _ => .inl (by simp [State.ring])
  | openStart | closeStop | closeCtrl | closeFlush => exact fun ho _ => by cases ho.1
  | openQueue | restartWake => exact fun _ hq => by cases hq
  | restart => exact h
  | busOff =>
    unfold VirtioCan.busOff
    split <;> exact h
  | freeze hf =>
    obtain ⟨-, -, -, -, q, rfl⟩ := freeze_cases hf
    exact fun ho _ => by cases ho.2
  | restore hr _ =>
    rcases restore_cases hr with ⟨-, rfl⟩ | ⟨-, q, hup, rfl⟩
    · exact h
    · exact fun ho hq => by cases (hup ho.1).symm.trans hq

theorem flowInv_inductive : machine.Inductive StopsBacked fun s => (∃ lost, Inv lost s) ∧ FlowInv s :=
  (lost_inductive.mono fun _ _ _ => trivial).and
    (fun s hs _ hq => by
      obtain ⟨n, i, rfl⟩ := hs
      cases hq)
    fun _ _ _ _ _ h ha hs => h.step (step_cases hs).1 ha

/-- Every stopped queue has a message in flight. -/
def NoLostWakeup (s : State) : Prop :=
  s.isOpen → s.xmit = .idle → s.read = .idle → s.queueStopped = true → ∃ m ∈ s.ring, m ∈ s.txList

/-- **No lost wake-up.** In every run in which the queue of an open interface
is only stopped while a completion is to come: with neither function in
progress and the queue stopped, a message is in flight. -/
theorem flow_noLostWakeup {s : State} (h : machine.Reach StopsBacked s) : NoLostWakeup s := by
  obtain ⟨⟨lost, hi⟩, hf⟩ := flowInv_inductive.reach h
  intro ho _ hr hq
  rcases hf ho hq with hring | hw
  · obtain ⟨m, hm⟩ := List.exists_mem_of_ne_nil _ hring
    exact ⟨m, hm, hi.ring.mem_iff.mpr (by simp [hm])⟩
  · rw [hr] at hw
    cases hw

/-- A second frame on a full ring stops the queue behind the first. -/
theorem flow_noLostWakeup_fullRing : ∃ s, s.isOpen ∧ s.queueStopped = true ∧ NoLostWakeup s := by
  obtain ⟨s, hs, ho, hq⟩ := Machine.exists_reach StopsBacked (probe_init 1 true)
    (openAndSend 7 ++ [.xmitCall 8, .xmitKzalloc true, .xmit, .xmit, .xmit])
    (fun s => s.isOpen ∧ s.queueStopped = true) (by decide +kernel)
  exact ⟨s, ho, hq, flow_noLostWakeup hs⟩

/-! ## A stop with nothing to come -/

/-- The second test of the limit repeats the first while only completions
can run, so the "normal stop" is never reached. -/
theorem normalStop_dead {s : State} (h : machine.Reachable s) : ∀ skb addr, s.xmit ≠ .stopNormal skb addr := by
  refine (lost_inductive.and (Q := fun s => ∀ skb addr, s.xmit ≠ .stopNormal skb addr) ?_ ?_).reach h |>.2
  · intro s hs skb addr hx
    obtain ⟨n, i, rfl⟩ := hs
    cases hx
  · intro s a s' hi _ h _ hs
    obtain ⟨lost, hi⟩ := hi
    obtain ⟨p, lock, av, us, xm, rd, ad, rs, sus, kz, gone, ret, bug⟩ := s
    cases (step_cases hs).1 with
    | full2 hx hl => exact absurd (hi.room (by rw [hx]; rfl)) (Nat.not_lt.mpr hl)
    | @rdEcho m hr =>
      obtain ⟨e, g, he⟩ := takeEchoSkb_frame ⟨p, lock, av, us, xm, rd, ad, rs, sus, kz, gone, ret, bug⟩ m.putidx
      rw [he]
      exact h
    | busOff =>
      unfold VirtioCan.busOff
      split <;> exact h
    | freeze hf =>
      obtain ⟨-, -, -, -, q, rfl⟩ := freeze_cases hf
      exact h
    | restore hr _ =>
      rcases restore_cases hr with ⟨-, rfl⟩ | ⟨-, q, -, rfl⟩ <;> exact h
    | rdLock | rdNone | rdGet | rdUnlink | rdFreeBug | rdFree | rdTest | rdWake | complete | openStart | openQueue
    | closeStop | closeCtrl | closeFlush | restart | restartWake | allocBug | echoBug | undoBug => exact h
    | _ => exact fun _ _ hx => by cases hx

/-- The reader finds the ring empty and returns. -/
theorem readsNothing {s : State} (hs : machine.Reachable s) (hb : s.bug = none) (hsus : s.suspended = false)
    (hring : s.ring = []) (hr : s.read = .idle ∨ s.read = .get) :
    ∃ l, machine.Reachable { s with txLock := l, read := .idle } := by
  rcases hr with hr | hr
  · exact ⟨s.txLock, by rw [← hr]; exact hs⟩
  · have hused : s.used = [] := (List.append_eq_nil_iff.mp hring).2
    exact ⟨none, .step hs trivial (a := .read) (by simp [machine, VirtioCan.step, hb, hsus, readStep, hr, hused])⟩

/-- A stop with nothing to come leaves the queue of the open interface
stopped: the call returns, the reader finds no message, and no completion
is left to wake it. -/
theorem unbackedStop_strands {s : State} (hs : machine.Reachable s) (ho : s.isOpen) (hx : s.xmit.stopping = true)
    (hn : ¬ s.backed) : ∃ t, machine.Reachable t ∧ ¬ NoLostWakeup t := by
  obtain ⟨lost, hi⟩ := reachable_inv hs
  obtain ⟨skb, hx⟩ : ∃ skb, s.xmit = .stopBusy skb ∨ s.xmit = .stopFail skb := by
    have := normalStop_dead hs
    cases hp : s.xmit <;> rw [hp] at hx this <;> simp_all [XmitPc.stopping]
  obtain ⟨hring, hr⟩ := not_or.mp hn
  have h1 : machine.Reachable { s with queueStopped := true, xmit := .kick skb .busy } :=
    .step hs trivial (a := .xmit)
      (by rcases hx with hx | hx <;> simp [machine, VirtioCan.step, hi.bug, ho.2, xmitStep, hx])
  have h2 : machine.Reachable { s with queueStopped := true, xmit := .idle, returned := (skb, .busy) :: s.returned } :=
    .step h1 trivial (a := .xmit) (by simp [machine, VirtioCan.step, hi.bug, ho.2, xmitStep])
  have hrd : s.read = .idle ∨ s.read = .get := by cases hp : s.read <;> simp_all [ReadPc.willWake]
  obtain ⟨l, h3⟩ := readsNothing h2 hi.bug ho.2 (not_not.mp hring) hrd
  refine ⟨_, h3, fun hw => ?_⟩
  obtain ⟨m, hm, -⟩ := hw ho rfl rfl rfl
  have : s.ring = [] := not_not.mp hring
  simp only [State.ring] at hm this
  simp [this] at hm

/-- One frame fills a ring of one; while the second call is between its test
and its stop, the frame completes and the reader finds the queue running. -/
def lateStop : List Act :=
  openAndSend 7 ++ [.xmitCall 8, .xmitKzalloc true, .xmit, .complete 0] ++ List.replicate 8 .read ++ [.xmit, .xmit]

theorem lateStop_lost : ∃ s, machine.Reachable s ∧ ¬ NoLostWakeup s := by
  obtain ⟨s, hs, ho, hx, hr, hq, hring⟩ := Machine.exists_reach (fun _ _ => True) (probe_init 1 true) lateStop
    (fun s => s.isOpen ∧ s.xmit = .idle ∧ s.read = .idle ∧ s.queueStopped = true ∧ s.ring = []) (by decide +kernel)
  refine ⟨s, hs, fun hw => ?_⟩
  obtain ⟨m, hm, -⟩ := hw ho hx hr hq
  simp [hring] at hm

end Agl.VirtioCan
