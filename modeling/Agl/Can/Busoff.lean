/-
What becomes of a bus-off indication between `virtio_can_evind_intr`, which
notes it in `busoff_pending` and schedules the RX NAPI instance, and
`virtio_can_handle_busoff`, which passes it on when the instance is polled.

The flag is kept when there is no memory for the error frame or the stack
does not take it. Whether another poll follows is then up to
`virtqueue_napi_complete`, which looks at the RX ring only. As long as every
delivery succeeds there is always one (`delivered_noStrands`).
-/
import Agl.Can.Napi

namespace Agl.VirtioCan

/-- The driver as `virtio_can_probe` leaves it: as in `napiMachine`, and no
bus-off is pending in the zeroed `struct virtio_can_priv`. -/
def busoffMachine : Machine NapiState NapiAct where
  init s := napiMachine.init s ∧ s.busoffPending = false
  step := napiStep

/-- Neither `virtio_can_rx_poll` nor `virtio_can_evind_intr` is executing. -/
def Quiet (s : NapiState) : Prop := s.rx.poll = .idle ∧ s.rx.tails = [] ∧ s.evind = .idle

/-- A pending bus-off has a poll coming. -/
def BusoffPolled (s : NapiState) : Prop := Quiet s → s.busoffPending = true → s.rx.sched = true

/-- The last remainder of an RX poll finds nothing new in the ring and ends,
with a bus-off pending and nobody who has scheduled or is about to schedule
the instance. -/
def Strands (s : NapiState) (a : NapiAct) : Prop :=
  (a = .rx (.tail (.check s.rx.used)) ∧ s.rx.tails = [.check s.rx.used]) ∧ s.busoffPending = true ∧
    s.rx.sched = false ∧ s.evind ≠ .schedule

instance (s : NapiState) (a : NapiAct) : Decidable (Strands s a) := by
  unfold Strands
  infer_instance

/-! ## Who keeps the instance from being forgotten -/

namespace Chan

/-- The instance is scheduled, or a poll function is still in `virtqueue_napi_complete`. -/
def Held (c : Chan) : Prop := c.sched = true ∨ c.tails ≠ []

variable {c c' : Chan}

theorem Held.napiSchedule (intr : Nat) : Held (napiSchedule { c with intr }) := by
  unfold Chan.napiSchedule
  split
  · next hs => exact .inl hs
  · exact .inl rfl

theorem Held.pollStep (h : c.Held) (hi : c.Inv) (hs : c.pollStep = some c') : c'.Held := by
  cases pollStep_cases hs with
  | take | empty | quotaUsed | prepare | disable => exact h
  -- given up, but the re-check is ahead
  | givenUp => exact .inr (List.cons_ne_nil _ _)
  | again hp => exact .inl (hi.sched_of_poll (by rw [hp]; rfl))

/-- Only the last re-check that finds nothing lets go of the instance. -/
theorem Inv.held_tailStep (hi : c.Inv) {t : Tail} (hs : c.tailStep t = some c') :
    c'.Held ∨ (t = .check c.used ∧ c.tails = [.check c.used] ∧ c.sched = false ∧
      c' = { c with tails := [] }) := by
  cases tailStep_cases hs with
  | found | disable => exact .inl (.inr (List.cons_ne_nil _ _))
  | done ht =>
    cases hsched : c.sched
    · by_cases hr : c.tails.erase (.check c.used) = []
      · have hp := List.perm_cons_erase ht
        rw [hr] at hp
        exact .inr ⟨rfl, hp.eq_singleton, rfl, by rw [hr]⟩
      · exact .inl (.inr hr)
    · exact .inl (.inl rfl)
  | prep => exact .inl (.inl rfl)
  | prepMissed _ hsched => exact .inl (.inl hsched)
  | schedule ht => exact .inl (.inl (hi.sched_of_tail ht rfl))

theorem Held.step (h : c.Held) (hi : c.Inv) {start : Nat → PollPc} {a : Act} (hs : c.step start a = some c') :
    c'.Held ∨ (a = .tail (.check c.used) ∧ c.tails = [.check c.used] ∧ c.sched = false ∧
      c' = { c with tails := [] }) := by
  cases a with
  | post | spurious =>
    cases hs
    exact .inl h
  | look | intr | begin =>
    simp only [Chan.step] at hs
    split at hs
    · cases hs
      exact .inl h
    · cases hs
  | schedule =>
    simp only [Chan.step] at hs
    split at hs
    · cases hs
      exact .inl (Held.napiSchedule _)
    · cases hs
  | poll => exact .inl (h.pollStep hi hs)
  | tail t =>
    rcases hi.held_tailStep hs with h | ⟨rfl, h⟩
    · exact .inl h
    · exact .inr ⟨rfl, h⟩

/-- No poll function runs on an instance that is not scheduled. -/
theorem Inv.poll_idle (h : c.Inv) (hs : c.sched = false) : c.poll = .idle := by
  obtain ⟨hl, hp, -⟩ := h.idle hs
  cases hpoll : c.poll with
  | idle => rfl
  | disable =>
    rw [h.again hpoll] at hl
    cases hl
  | busoff | indicate | loop | prepare | complete =>
    rw [hpoll] at hp
    cases hp

end Chan

/-! ## Reached states -/

/-- `virtio_can_evind_intr` does not forget the indication it has noted: what
`napi_schedule` brings about for the RX instance holds, or it has yet to call it. -/
theorem evindStep_keeps {P : Chan → Prop} (hP : ∀ c : Chan, P c.napiSchedule) {s : NapiState}
    (h : s.busoffPending = true → P s.rx ∨ s.evind = .schedule) (hb : (evindStep s).busoffPending = true) :
    P (evindStep s).rx ∨ (evindStep s).evind = .schedule := by
  revert hb
  unfold evindStep
  split
  · next he => exact fun hb => (h hb).imp_right fun he' => by rw [he] at he'; cases he'
  · next he =>
    have hrx : s.busoffPending = true → P s.rx := fun hb => (h hb).resolve_right (by simp [he])
    split
    · exact fun hb => .inl (hrx hb)
    · exact fun hb => .inl (hrx hb)
  · exact fun _ => .inr rfl
  · exact fun _ => .inl (hP s.rx)

/-- Somebody who is still running, or NAPI, has the pending bus-off in hand. -/
def BusoffHeld (s : NapiState) : Prop := s.busoffPending = true → s.rx.Held ∨ s.evind = .schedule

theorem BusoffHeld.polled {s : NapiState} (h : BusoffHeld s) : BusoffPolled s := by
  rintro ⟨-, ht, he⟩ hb
  rcases h hb with (hs | ht') | he'
  · exact hs
  · exact absurd ht ht'
  · rw [he] at he'
    cases he'

theorem BusoffHeld.handleBusoff {s s' : NapiState} {skb taken : Bool} (h : BusoffHeld s)
    (hs : handleBusoff s skb taken = some s') : BusoffHeld s' := by
  unfold VirtioCan.handleBusoff at hs
  split at hs
  · split at hs <;> cases hs <;> exact h
  · dsimp only at hs
    have key : ∀ b : Bool, (s.busoffPending && b) = true → s.rx.Held ∨ s.evind = .schedule := fun b hb =>
      h (Bool.and_eq_true_iff.mp hb).1
    split at hs <;> split at hs <;> cases hs
    · exact key _
    · exact key _
    · exact h
    · exact h
  · cases hs

/-- A step leaves the pending bus-off in somebody's hands, or strands it. -/
theorem BusoffHeld.step {s s' : NapiState} {a : NapiAct} (h : BusoffHeld s) (hi : NapiInv s)
    (hs : napiStep s a = some s') :
    BusoffHeld s' ∨ (Strands s a ∧ s' = { s with rx := { s.rx with tails := [] } }) := by
  cases a with
  | tx a =>
    obtain ⟨c, -, rfl⟩ := Option.map_eq_some_iff.mp hs
    exact .inl h
  | rx a =>
    obtain ⟨c, hc, rfl⟩ := Option.map_eq_some_iff.mp hs
    by_cases hb : s.busoffPending = true
    · rcases h hb with hh | he
      · rcases hh.step hi.2 hc with hh | ⟨rfl, ht, hsched, rfl⟩
        · exact .inl fun _ => .inl hh
        · by_cases he : s.evind = .schedule
          · exact .inl fun _ => .inr he
          · exact .inr ⟨⟨⟨rfl, ht⟩, hb, hsched, he⟩, rfl⟩
      · exact .inl fun _ => .inr he
    · exact .inl fun hb' => absurd hb' hb
  | busoff skb taken => exact .inl (h.handleBusoff hs)
  | evind =>
    cases hs
    exact .inl (evindStep_keeps (fun c => Chan.Held.napiSchedule c.intr) h)
  | start | stop =>
    cases hs
    exact .inl fun hb => by cases hb

theorem napiInv_busoffMachine : busoffMachine.Inductive (fun _ _ => True) NapiInv where
  init s hs := napiInv_inductive.init s hs.1
  step := napiInv_inductive.step

theorem busoffHeld_inductive :
    busoffMachine.Inductive (fun s a => ¬Strands s a) fun s => NapiInv s ∧ BusoffHeld s := by
  apply (napiInv_busoffMachine.mono fun _ _ _ => trivial).and
  · rintro s ⟨-, hb⟩ hb'
    rw [hb] at hb'
    cases hb'
  · intro s a s' hi _ h ha hs
    exact (h.step hi hs).resolve_right fun hst => ha hst.1

/-- A stranding step ends with the flag set and the instance at rest. -/
theorem Strands.not_polled {s : NapiState} {a : NapiAct} (hi : NapiInv s) (hst : Strands s a) (he : s.evind = .idle) :
    ¬BusoffPolled { s with rx := { s.rx with tails := [] } } := by
  obtain ⟨-, hb, hsched, -⟩ := hst
  intro h
  have hs : s.rx.sched = true := h ⟨hi.2.poll_idle hsched, rfl, he⟩ hb
  rw [hsched] at hs
  cases hs

/-- **A pending bus-off has a poll coming** as long as no RX poll ends with
it still pending, nothing new in the ring and the instance not scheduled
again; where `virtio_can_evind_intr` is not running, exactly as long. -/
theorem busoff_polled {s : NapiState} (h : busoffMachine.Reach (fun s a => ¬Strands s a) s) :
    BusoffPolled s ∧
      ∀ a s', busoffMachine.step s a = some s' → s.evind = .idle → (BusoffPolled s' ↔ ¬Strands s a) := by
  obtain ⟨hi, hh⟩ := busoffHeld_inductive.reach h
  refine ⟨hh.polled, fun a s' hs he => ⟨fun hp hst => ?_, fun hst => ?_⟩⟩
  · have hs' : s' = { s with rx := { s.rx with tails := [] } } := by
      obtain ⟨⟨rfl, ht⟩, -⟩ := hst
      simp [busoffMachine, napiStep, Chan.step, Chan.tailStep, ht] at hs
      exact hs.symm
    rw [hs'] at hp
    exact hst.not_polled hi he hp
  · exact (busoffHeld_inductive.step s a s' ⟨hi, hh⟩ hst hs).2.polled

/-! ## Deliveries that succeed -/

/-- An error frame that `virtio_can_handle_busoff` is about to send finds memory, and the stack takes it. -/
def Delivers (s : NapiState) (a : NapiAct) : Prop :=
  ∀ skb taken quota, a = .busoff skb taken → s.rx.poll = .indicate quota → skb = true ∧ taken = true

/-- The poll function has still to look at the bus-off. -/
def PollPc.looks : PollPc → Bool
  | .busoff _ | .indicate _ => true
  | .idle | .loop _ _ | .prepare | .complete _ | .disable => false

/-- This remainder schedules, or notes that an event was missed. -/
def Tail.asks : Tail → Bool
  | .check _ => false
  | .prep | .disable | .schedule => true

namespace Chan

/-- A poll function is going to look at the bus-off. -/
def Coming (c : Chan) : Prop :=
  c.missed = true ∨ c.listed = true ∨ c.poll.looks = true ∨ ∃ t ∈ c.tails, t.asks = true

variable {c c' : Chan}

theorem Coming.napiSchedule (intr : Nat) : Coming (napiSchedule { c with intr }) := by
  unfold Chan.napiSchedule
  split
  · exact .inl rfl
  · exact .inr (.inl rfl)

/-- Past the look at the bus-off the poll function is not what it rests on. -/
theorem Coming.past (h : c.Coming) (hl : c.poll.looks = false) (poll : PollPc) : Coming { c with poll } := by
  rcases h with h | h | h | h
  · exact .inl h
  · exact .inr (.inl h)
  · rw [hl] at h
    cases h
  · exact .inr (.inr (.inr h))

theorem Coming.pollStep (h : c.Coming) (hs : c.pollStep = some c') : c'.Coming := by
  cases pollStep_cases hs with
  | take hp | empty hp | prepare hp | disable hp => exact h.past (by rw [hp]; rfl) _
  | quotaUsed | again => exact .inr (.inl rfl)
  | givenUp hp hm =>
    rcases h with h | h | h | ⟨t, ht, ha⟩
    · rw [hm] at h
      cases h
    · exact .inr (.inl h)
    · rw [hp] at h
      cases h
    · exact .inr (.inr (.inr ⟨t, List.mem_cons_of_mem _ ht, ha⟩))

theorem Coming.tailStep (h : c.Coming) {t : Tail} (hs : c.tailStep t = some c') : c'.Coming := by
  cases tailStep_cases hs with
  | found | prep | disable => exact .inr (.inr (.inr ⟨_, List.mem_cons_self, rfl⟩))
  | done =>
    -- a re-check is not what it rests on either
    refine h.imp_right (Or.imp_right (Or.imp_right fun hu => ?_))
    obtain ⟨u, hu, ha⟩ := hu
    have hne : u ≠ .check c.used := by
      rintro rfl
      cases ha
    exact ⟨u, (List.mem_erase_of_ne hne).mpr hu, ha⟩
  | prepMissed => exact .inl rfl
  | schedule => exact .inr (.inl rfl)

theorem Coming.step (h : c.Coming) {a : Act} (hs : c.step .busoff a = some c') : c'.Coming := by
  cases a with
  | post | spurious =>
    cases hs
    exact h
  | look | intr =>
    simp only [Chan.step] at hs
    split at hs <;> cases hs
    exact h
  | schedule =>
    simp only [Chan.step] at hs
    split at hs <;> cases hs
    exact Coming.napiSchedule _
  | begin quota =>
    simp only [Chan.step] at hs
    split at hs <;> cases hs
    exact .inr (.inr (.inl rfl))
  | poll => exact h.pollStep hs
  | tail t => exact h.tailStep hs

/-- An instance with nothing left but a re-check has no such poll coming. -/
theorem Coming.not_last (h : c.Coming) (hi : c.Inv) (hsched : c.sched = false) {n : Nat} (ht : c.tails = [.check n]) :
    False := by
  obtain ⟨hl, -, -⟩ := hi.idle hsched
  rcases h with h | h | h | ⟨t, hmem, ha⟩
  · exact absurd (hi.missed h) (by simp [hsched])
  · rw [hl] at h
    cases h
  · rw [hi.poll_idle hsched] at h
    cases h
  · rw [ht, List.mem_singleton] at hmem
    rw [hmem] at ha
    cases ha

end Chan

def BusoffComing (s : NapiState) : Prop := s.busoffPending = true → s.rx.Coming ∨ s.evind = .schedule

theorem BusoffComing.handleBusoff {s s' : NapiState} {skb taken : Bool} (hd : Delivers s (.busoff skb taken))
    (hs : handleBusoff s skb taken = some s') : BusoffComing s' := by
  unfold VirtioCan.handleBusoff at hs
  split at hs
  · split at hs
    · cases hs
      exact fun _ => .inl (.inr (.inr (.inl rfl)))
    · next hb =>
      cases hs
      exact fun hb' => absurd hb' hb
  · next quota hp =>
    obtain ⟨rfl, rfl⟩ := hd skb taken quota rfl hp
    cases hs
    intro hb
    rw [Bool.not_true, Bool.and_false] at hb
    cases hb
  · cases hs

theorem BusoffComing.step {s s' : NapiState} {a : NapiAct} (h : BusoffComing s) (hd : Delivers s a)
    (hs : napiStep s a = some s') : BusoffComing s' := by
  cases a with
  | tx a =>
    obtain ⟨c, -, rfl⟩ := Option.map_eq_some_iff.mp hs
    exact h
  | rx a =>
    obtain ⟨c, hc, rfl⟩ := Option.map_eq_some_iff.mp hs
    exact fun hb => (h hb).imp_left fun hc' => hc'.step hc
  | busoff skb taken => exact BusoffComing.handleBusoff hd hs
  | evind =>
    cases hs
    exact evindStep_keeps (fun c => Chan.Coming.napiSchedule c.intr) h
  | start | stop =>
    cases hs
    exact fun hb => by cases hb

theorem coming_inductive : busoffMachine.Inductive Delivers fun s => NapiInv s ∧ BusoffComing s := by
  apply (napiInv_busoffMachine.mono fun _ _ _ => trivial).and
  · rintro s ⟨-, hb⟩ hb'
    rw [hb] at hb'
    cases hb'
  · intro s a s' _ _ h hd hs
    exact h.step hd hs

/-- A bus-off is stranded only where a delivery has failed. -/
theorem delivered_noStrands {s : NapiState} (h : busoffMachine.Reach Delivers s) :
    busoffMachine.Reach (fun s a => ¬Strands s a) s := by
  refine coming_inductive.reach_mono (fun s a hi _ hst => ?_) h
  obtain ⟨⟨-, ht⟩, hb, hsched, he⟩ := hst
  exact ((hi.2 hb).resolve_right he).not_last hi.1.2 hsched ht

/-- An indication arrives and the stack takes it at the poll it causes. -/
def indicationTaken : List NapiAct :=
  [.start, .evind, .evind, .evind, .evind, .rx (.begin 64), .busoff true true, .busoff true true, .rx .poll,
    .rx .poll, .rx .poll, .rx (.tail (.check 0))]

theorem busoff_polled_taken : ∃ s, Quiet s ∧ s.canState = .busOff ∧ BusoffPolled s := by
  obtain ⟨s, hs, hq, hc⟩ := Machine.exists_reach (fun s a => ¬Strands s a)
    (show busoffMachine.init ⟨.enabled, .enabled, false, .stopped, .idle⟩ from ⟨⟨rfl, rfl, rfl⟩, rfl⟩)
    indicationTaken (fun s => (s.rx.poll = .idle ∧ s.rx.tails = [] ∧ s.evind = .idle) ∧ s.canState = .busOff)
    (by decide +kernel)
  exact ⟨s, hq, hc, (busoff_polled hs).1⟩

/-- An indication arrives and there is no memory for the error frame. -/
def indicationStranded : List NapiAct :=
  [.start, .evind, .evind, .evind, .evind, .rx (.begin 64), .busoff false false, .busoff false false, .rx .poll,
    .rx .poll, .rx .poll, .rx (.tail (.check 0))]

theorem busoff_stranded : ∃ s, busoffMachine.Reachable s ∧ ¬BusoffPolled s := by
  obtain ⟨s, hs, hq, hb, hsched⟩ := Machine.exists_reach (fun _ _ => True)
    (show busoffMachine.init ⟨.enabled, .enabled, false, .stopped, .idle⟩ from ⟨⟨rfl, rfl, rfl⟩, rfl⟩)
    indicationStranded
    (fun s => (s.rx.poll = .idle ∧ s.rx.tails = [] ∧ s.evind = .idle) ∧ s.busoffPending = true ∧ s.rx.sched = false)
    (by decide +kernel)
  refine ⟨s, hs, fun h => ?_⟩
  rw [h hq hb] at hsched
  cases hsched

end Agl.VirtioCan
