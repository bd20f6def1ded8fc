/-
The removal of a virtio video device, and the failure of its probe, against
the event worker.

`virtio_video_remove` and the error path of `virtio_video_probe` release the
event buffers, the virtqueues and the device structure in this order. Nothing
on the way waits for the work item (there is no `cancel_work_sync`) or stops
the device (there is no reset), so whether the worker, the interrupt handler
or the device touches what has been released depends on where they are when
it is released.
-/
import Agl.Lib.Exposed
import Agl.Video.EventsFacts

namespace Agl.VirtioVideo.Events

/-! ## What is released and who touches it -/

/-- What the removal releases. -/
inductive Obj
  | evts | vq | vvd
  deriving DecidableEq, Repr

/-- It has not been released. -/
def Main.live (m : Main) : Obj → Bool
  | .evts => m.hasVqs && m ≠ .delVqs
  | .vq => m.hasVqs
  | .vvd => m ≠ .gone

/-- What the next step of the worker touches. -/
def Pc.touches : Pc → List Obj
  | .idle => []
  | .test => [.vvd]
  | .disableCb | .getBuf | .isBroken | .enableCb | .poll => [.vq]
  | .handle _ => [.evts, .vvd]
  | .queue _ => [.evts, .vvd, .vq]

/-- What an action of the worker, the workqueue, the interrupt handler or the
device touches. -/
def touches (s : State) : Act → List Obj
  | .post _ _ => [.evts, .vq]
  | .look => [.vq]
  | .eventCb => [.vq, .vvd]
  | .begin => [.vvd]
  | .work _ => s.pc.touches
  | .main _ | .spurious | .breakVq => []

/-- The action touches what has been released. -/
def Faults (s : State) (a : Act) : Prop := ∃ o ∈ touches s a, s.main.live o = false

/-- Not a step of the probe or the removal itself. -/
def Other : Act → Prop
  | .main _ => False
  | _ => True

/-- Somebody is going to touch, or may touch, what has been released. -/
abbrev State.Doomed (s : State) : Prop := machine.Exposed Other Faults s

/-! ## When releasing is safe -/

/-- The worker can still get an event buffer: one is used that the driver
has in the queue, and the worker is about to look, or `ready` lets it. -/
def State.Takes (s : State) : Prop :=
  s.broken = false ∧ (∃ evt ∈ s.used.head?, evt ∈ s.ring.bufs) ∧ (s.ready = true ∨ s.pc = .disableCb ∨ s.pc = .getBuf)

/-- The worker is not past the test of `ready`. -/
def Pc.outside (pc : Pc) : Prop := pc = .idle ∨ pc = .test

/-- Nobody has an event buffer or can get one. -/
structure State.NoEvts (s : State) : Prop where
  hand : s.pc.hand = []
  avail : s.driverOk = true → s.avail = []
  takes : ¬s.Takes

/-- The worker does not use the virtqueue and is not going to. -/
structure State.NoVq (s : State) : Prop where
  outside : s.pc.outside
  ready : s.ready = true → s.pc = .idle ∧ s.pending = false

/-- The work item neither runs nor is pending. -/
structure State.NoWork (s : State) : Prop where
  pc : s.pc = .idle
  pending : s.pending = false

/-- Each thing is released when nobody has it or is going to use it. -/
def Calm (s : State) : Act → Prop
  | .main _ => (s.main = .freeEvts → s.NoEvts) ∧ (s.main = .delVqs → s.NoVq) ∧ (s.main = .freeVvd → s.NoWork)
  | _ => True

instance (s : State) : Decidable s.Takes := inferInstanceAs (Decidable (_ ∧ _ ∧ _))

instance (s : State) : Decidable s.NoEvts :=
  decidable_of_iff (s.pc.hand = [] ∧ (s.driverOk = true → s.avail = []) ∧ ¬s.Takes)
    ⟨fun h => ⟨h.1, h.2.1, h.2.2⟩, fun h => ⟨h.hand, h.avail, h.takes⟩⟩

instance (s : State) : Decidable s.NoVq :=
  decidable_of_iff ((s.pc = .idle ∨ s.pc = .test) ∧ (s.ready = true → s.pc = .idle ∧ s.pending = false))
    ⟨fun h => ⟨h.1, h.2⟩, fun h => ⟨h.outside, h.ready⟩⟩

instance (s : State) : Decidable s.NoWork :=
  decidable_of_iff (s.pc = .idle ∧ s.pending = false) ⟨fun h => ⟨h.1, h.2⟩, fun h => ⟨h.pc, h.pending⟩⟩

instance (s : State) (a : Act) : Decidable (Calm s a) :=
  match a with
  | .main _ => inferInstanceAs (Decidable (_ ∧ _ ∧ _))
  | .post _ _ | .look | .spurious | .eventCb | .breakVq | .begin | .work _ => .isTrue trivial

/-- What is released is out of everybody's reach. -/
structure Clear (s : State) : Prop where
  evts : s.main.live .evts = false → s.NoEvts
  vq : s.main.live .vq = false → s.NoVq ∧ s.driverOk = false ∧ s.irq = false ∧ s.look = false
  vvd : s.main.live .vvd = false → s.NoWork

/-! ## What the others leave as it is -/

theorem Main.live_vq_of_evts {m : Main} (h : m.live .evts = true) : m.live .vq = true := by
  cases m <;> first | rfl | cases h

theorem Main.live_vvd_of_vq {m : Main} (h : m.live .vq = true) : m.live .vvd = true := by
  cases m <;> first | rfl | cases h

theorem Main.dead_vq_of_vvd {m : Main} (h : m.live .vvd = false) : m.live .vq = false := by
  cases m <;> first | rfl | cases h

/-- The worker moves on without reaching for a buffer. -/
theorem State.NoEvts.setPc {s : State} (h : s.NoEvts) {pc : Pc} (hh : pc.hand = [])
    (ht : s.ready = true ∨ pc = .disableCb ∨ pc = .getBuf → s.ready = true ∨ s.pc = .disableCb ∨ s.pc = .getBuf) :
    State.NoEvts { s with pc } :=
  ⟨hh, h.avail, fun hk => h.takes ⟨hk.1, hk.2.1, ht hk.2.2⟩⟩

theorem State.NoEvts.work {s s' : State} (h : s.NoEvts) {mapped : Bool} (hs : workStep s mapped = some s') :
    s'.NoEvts := by
  cases workStep_cases hs with
  | go _ hr => exact h.setPc rfl fun _ => .inl hr
  | stop | leave | done | stay | more => exact h.setPc rfl fun ht => .inl (by simpa using ht)
  | empty hp => exact h.setPc rfl fun _ => .inr (.inr hp)
  | disable hp => exact ⟨rfl, h.avail, fun hk => h.takes ⟨hk.1, hk.2.1, .inr (.inl hp)⟩⟩
  | enable => exact ⟨rfl, h.avail, fun hk => h.takes ⟨hk.1, hk.2.1, .inl (by simpa using hk.2.2)⟩⟩
  | badRing => exact ⟨rfl, h.avail, fun hk => by cases hk.1⟩
  | take hp hb hu hin => exact absurd ⟨hb, ⟨_, by rw [hu]; rfl, hin⟩, .inr (.inr hp)⟩ h.takes
  | handle hp | queue hp =>
    have hhand := h.hand
    rw [hp] at hhand
    cases hhand

theorem work_main {s s' : State} {mapped : Bool} (hs : workStep s mapped = some s') : s'.main = s.main := by
  cases workStep_cases hs with
  | @queue evt =>
    rcases queueEventBuffer_cases s evt mapped with ⟨_, -, heq⟩ | ⟨_, -, heq⟩ <;> simp only [heq]
  | go | stop | disable | empty | take | badRing | handle | leave | stay | enable | done | more => rfl

theorem work_irq {s s' : State} {mapped : Bool} (hs : workStep s mapped = some s') :
    s'.driverOk = s.driverOk ∧ s'.irq = s.irq ∧ s'.look = s.look ∧ s'.ready = s.ready ∧ s'.pending = s.pending := by
  cases workStep_cases hs with
  | @queue evt =>
    rcases queueEventBuffer_cases s evt mapped with ⟨_, -, heq⟩ | ⟨_, -, heq⟩ <;> simp only [heq, and_self]
  | go | stop | disable | empty | take | badRing | handle | leave | stay | enable | done | more =>
    exact ⟨rfl, rfl, rfl, rfl, rfl⟩

theorem State.NoVq.work {s s' : State} (h : s.NoVq) {mapped : Bool} (hs : workStep s mapped = some s') : s'.NoVq := by
  cases workStep_cases hs with
  | go hp hr => cases hp.symm.trans (h.ready hr).1
  | stop _ hr => exact ⟨.inl rfl, fun hr' => absurd (hr.symm.trans hr') (by decide)⟩
  | disable hp | empty hp | take hp | badRing hp | handle hp | queue hp | leave hp | stay hp | enable hp | done hp
  | more hp => rcases h.outside with ho | ho <;> cases hp.symm.trans ho

namespace Clear

variable {s s' : State}

/-- Where the virtqueue is live, only the event buffers may be released. -/
theorem of_vq (hvq : s.main.live .vq = true) (he : s.main.live .evts = false → s.NoEvts) : Clear s :=
  ⟨he, fun hd => absurd (hvq.symm.trans hd) (by decide),
    fun hd => absurd (hvq.symm.trans (Main.dead_vq_of_vvd hd)) (by decide)⟩

/-- The device and the interrupt have a live virtqueue. -/
theorem vq_of_driverOk (h : Clear s) (hd : s.driverOk = true ∨ s.irq = true ∨ s.look = true) :
    s.main.live .vq = true := by
  cases hvq : s.main.live .vq with
  | true => rfl
  | false =>
    obtain ⟨-, hok, hirq, hlook⟩ := h.vq hvq
    rcases hd with hd | hd | hd
    · exact absurd (hok.symm.trans hd) (by decide)
    · exact absurd (hirq.symm.trans hd) (by decide)
    · exact absurd (hlook.symm.trans hd) (by decide)

/-- A device with a buffer writes to live memory. -/
theorem evts_of_avail (h : Clear s) (hok : s.driverOk = true) {evt : Nat} (ha : evt ∈ s.avail) :
    s.main.live .evts = true := by
  cases he : s.main.live .evts with
  | true => rfl
  | false =>
    rw [(h.evts he).avail hok] at ha
    cases ha

theorem work (h : Clear s) {mapped : Bool} (hs : workStep s mapped = some s') : Clear s' := by
  have hm := work_main hs
  obtain ⟨hok, hirq, hlook, -, -⟩ := work_irq hs
  refine ⟨fun he => ?_, fun hv => ?_, fun hv => ?_⟩
  · rw [hm] at he
    exact (h.evts he).work hs
  · rw [hm] at hv
    obtain ⟨hno, h⟩ := h.vq hv
    rw [hok, hirq, hlook]
    exact ⟨hno.work hs, h⟩
  · rw [hm] at hv
    simp only [workStep, (h.vvd hv).pc] at hs
    cases hs

/-- Nobody but the probe and the removal gets at what is released. -/
theorem keep {a : Act} (h : Clear s) (ha : Other a) (hs : machine.step s a = some s') : Clear s' := by
  cases a with
  | main ok => exact ha.elim
  | work mapped => exact h.work hs
  | post evt bytes =>
    simp only [machine, step] at hs
    split at hs
    · next hc =>
      have he := h.evts_of_avail hc.1 hc.2.1
      cases hs
      exact of_vq (Main.live_vq_of_evts he) fun hd => absurd (he.symm.trans hd) (by decide)
    · cases hs
  | look =>
    simp only [machine, step] at hs
    split at hs <;> cases hs
    next hl =>
    exact of_vq (h.vq_of_driverOk (.inr (.inr hl))) fun hd => { h.evts hd with }
  | spurious =>
    simp only [machine, step] at hs
    split at hs <;> cases hs
    next hok =>
    exact of_vq (h.vq_of_driverOk (.inl hok)) fun hd => { h.evts hd with }
  | eventCb =>
    simp only [machine, step] at hs
    split at hs <;> cases hs
    next hi =>
    exact of_vq (h.vq_of_driverOk (.inr (.inl hi))) fun hd => { h.evts hd with }
  | breakVq =>
    simp only [machine, step] at hs
    split at hs <;> cases hs
    next hok =>
    refine of_vq (h.vq_of_driverOk (.inl hok)) fun hd => ?_
    exact ⟨(h.evts hd).hand, (h.evts hd).avail, fun hk => by cases hk.1⟩
  | begin =>
    simp only [machine, step] at hs
    split at hs
    · next hc =>
      cases hs
      refine ⟨fun he => ?_, fun hv => ?_, fun hv => ?_⟩
      · exact ⟨rfl, (h.evts he).avail, fun hk => (h.evts he).takes ⟨hk.1, hk.2.1, .inl (by simpa using hk.2.2)⟩⟩
      · obtain ⟨hno, h⟩ := h.vq hv
        exact ⟨⟨.inr rfl, fun hr => absurd ((hno.ready hr).2.symm.trans hc.1) (by decide)⟩, h⟩
      · exact absurd ((h.vvd hv).pending.symm.trans hc.1) (by decide)
    · cases hs

/-- And nobody touches it. -/
theorem safe {a : Act} (h : Clear s) (ha : Other a) (hs : machine.step s a = some s') : ¬Faults s a := by
  rintro ⟨o, ho, hd⟩
  have hlive : s.main.live o = true := by
    cases a with
    | main ok => exact ha.elim
    | spurious | breakVq => cases ho
    | post evt bytes =>
      simp only [machine, step] at hs
      split at hs
      · next hc =>
        have he := h.evts_of_avail hc.1 hc.2.1
        cases o
        · exact he
        · exact Main.live_vq_of_evts he
        · exact Main.live_vvd_of_vq (Main.live_vq_of_evts he)
      · cases hs
    | look =>
      simp only [machine, step] at hs
      split at hs
      · next hl =>
        rw [List.mem_singleton.mp ho]
        exact h.vq_of_driverOk (.inr (.inr hl))
      · cases hs
    | eventCb =>
      simp only [machine, step] at hs
      split at hs
      · next hi =>
        have hvq := h.vq_of_driverOk (.inr (.inl hi))
        cases o
        · simp [touches] at ho
        · exact hvq
        · exact Main.live_vvd_of_vq hvq
      · cases hs
    | begin =>
      simp only [machine, step] at hs
      split at hs
      · next hc =>
        rw [List.mem_singleton.mp ho]
        cases hvvd : s.main.live .vvd with
        | true => rfl
        | false => exact absurd ((h.vvd hvvd).pending.symm.trans hc.1) (by decide)
      · cases hs
    | work mapped =>
      cases hlive : s.main.live o with
      | true => rfl
      | false =>
        cases o with
        | evts =>
          have hhand := (h.evts hlive).hand
          cases hp : s.pc <;> simp [touches, hp, Pc.touches, Pc.hand] at ho hhand
        | vq =>
          rcases (h.vq hlive).1.outside with hp | hp <;> simp [touches, hp, Pc.touches] at ho
        | vvd =>
          have hp := (h.vvd hlive).pc
          simp [touches, hp, Pc.touches] at ho
  exact absurd (hlive.symm.trans hd) (by decide)

end Clear

/-! ## The steps of the removal -/

theorem queueEventBuffer_frame (s : State) (evt : Nat) (mapped : Bool) :
    let r := (queueEventBuffer s evt mapped).2
    r.main = s.main ∧ r.used = s.used ∧ r.driverOk = s.driverOk := by
  rcases queueEventBuffer_cases s evt mapped with ⟨_, -, heq⟩ | ⟨_, -, heq⟩ <;> simp only [heq, and_self]

/-- Nothing is released yet. -/
theorem Clear.of_live {s : State} (h : s.main.live .evts = true) : Clear s :=
  .of_vq (Main.live_vq_of_evts h) fun hd => absurd (h.symm.trans hd) (by decide)

/-- Released in a calm moment. -/
theorem Clear.main {s s' : State} (h : Clear s) {ok : Bool} (hc : Calm s (.main ok)) (hs : mainStep s ok = some s') :
    Clear s' := by
  obtain ⟨hevts, hvq, hvvd⟩ := hc
  unfold mainStep at hs
  split at hs
  · next hm =>
    split at hs
    · cases hs
      exact .of_live rfl
    · next evt rest _ =>
      have hmain := (queueEventBuffer_frame { s with out := rest } evt ok).1
      cases hs
      split
      · exact .of_live (by rw [hmain]; simp only [hm]; rfl)
      · exact .of_live rfl
  · cases hs
    exact .of_live rfl
  · cases hs
    exact .of_live rfl
  · cases hs
    cases ok <;> exact .of_live rfl
  · cases hs
    exact .of_live rfl
  · cases hs
    exact .of_live rfl
  · next hm =>
    split at hs
    · cases hs
      exact .of_live (by simp only [hm]; rfl)
    · cases hs
      exact .of_live rfl
  · next hm =>
    cases hs
    exact .of_vq rfl fun _ => { hevts hm with }
  · next hm =>
    have hno := h.evts (by rw [hm]; rfl)
    cases hs
    exact ⟨fun _ => ⟨hno.hand, (by rintro ⟨⟩), hno.takes⟩, fun _ => ⟨{ hvq hm with }, rfl, rfl, rfl⟩,
      fun hd => by cases hd⟩
  · next hm =>
    have hno := h.evts (by rw [hm]; rfl)
    have hvq := h.vq (by rw [hm]; rfl)
    cases hs
    exact ⟨fun _ => { hno with }, fun _ => ⟨{ hvq.1 with }, hvq.2⟩, fun _ => { hvvd hm with }⟩
  · cases hs

/-! ## What happens otherwise -/

theorem exists_workStep {s : State} (hp : s.pc ≠ .idle) (mapped : Bool) : ∃ s', workStep s mapped = some s' := by
  unfold workStep
  split
  · next hi => exact absurd hi hp
  all_goals first | exact ⟨_, rfl⟩ | skip
  split
  · exact ⟨_, rfl⟩
  · split
    · exact ⟨_, rfl⟩
    · split <;> exact ⟨_, rfl⟩

/-- The worker is about to touch it. -/
theorem doomed_of_touches {s : State} (hp : s.pc ≠ .idle) {o : Obj} (ho : o ∈ s.pc.touches)
    (hd : s.main.live o = false) : s.Doomed := by
  obtain ⟨s', hs⟩ := exists_workStep hp true
  exact .now (a := .work true) trivial hs ⟨o, ho, hd⟩

theorem doomed_work {s s' : State} (hs : workStep s true = some s') (h : s'.Doomed) : s.Doomed :=
  .later (a := .work true) trivial hs h

/-- An event buffer in hand is one about to be read or written. -/
theorem doomed_of_hand {s : State} (hh : s.pc.hand ≠ []) (hd : s.main.live .evts = false) : s.Doomed := by
  cases hp : s.pc with
  | handle evt | queue evt => exact doomed_of_touches (by rw [hp]; rintro ⟨⟩) (by rw [hp]; exact List.mem_cons_self) hd
  | idle | test | disableCb | getBuf | isBroken | enableCb | poll => exact absurd (by rw [hp]; rfl) hh

/-- A used buffer that the worker would get. -/
structure State.Offers (s : State) : Prop where
  broken : s.broken = false
  used : ∃ evt rest, s.used = evt :: rest ∧ evt ∈ s.ring.bufs

theorem State.Offers.ne_nil {s : State} (h : s.Offers) : s.used ≠ [] := by
  obtain ⟨evt, rest, hu, -⟩ := h.used
  rw [hu]
  exact List.cons_ne_nil _ _

section

variable {s : State}

theorem doomed_getBuf (hd : s.main.live .evts = false) (h : s.Offers) (hp : s.pc = .getBuf) : s.Doomed := by
  obtain ⟨evt, rest, hu, hin⟩ := h.used
  have hs : workStep s true = some { s with used := rest, ring := s.ring.get evt, pc := .handle evt } := by
    simp only [workStep, hp, h.broken, hu, hin, Bool.false_eq_true, ↓reduceIte]
  exact doomed_work hs (doomed_of_hand (by simp [Pc.hand]) hd)

theorem doomed_disableCb (hd : s.main.live .evts = false) (h : s.Offers) (hp : s.pc = .disableCb) : s.Doomed := by
  have hs : workStep s true = some { s with cbEnabled := false, pc := .getBuf } := by simp only [workStep, hp]
  exact doomed_work hs (doomed_getBuf hd { h with } rfl)

theorem doomed_test (hd : s.main.live .evts = false) (h : s.Offers) (hr : s.ready = true) (hp : s.pc = .test) :
    s.Doomed := by
  have hs : workStep s true = some { s with pc := .disableCb } := by simp only [workStep, hp, hr, ↓reduceIte]
  exact doomed_work hs (doomed_disableCb hd { h with } rfl)

theorem doomed_poll (hd : s.main.live .evts = false) (h : s.Offers) (hr : s.ready = true) (hp : s.pc = .poll) :
    s.Doomed := by
  have hs : workStep s true = some { s with pc := .test } := by
    simp only [workStep, hp, h.broken, h.ne_nil, Bool.false_eq_true, or_self, ↓reduceIte]
  exact doomed_work hs (doomed_test hd { h with } hr rfl)

theorem doomed_enableCb (hd : s.main.live .evts = false) (h : s.Offers) (hr : s.ready = true) (hp : s.pc = .enableCb) :
    s.Doomed := by
  have hs : workStep s true = some { s with cbEnabled := true, pc := .poll } := by simp only [workStep, hp]
  exact doomed_work hs (doomed_poll hd { h with } hr rfl)

theorem doomed_isBroken (hd : s.main.live .evts = false) (h : s.Offers) (hr : s.ready = true) (hp : s.pc = .isBroken) :
    s.Doomed := by
  have hs : workStep s true = some { s with pc := .enableCb } := by
    simp only [workStep, hp, h.broken, Bool.false_eq_true, ↓reduceIte]
  exact doomed_work hs (doomed_enableCb hd { h with } hr rfl)

/-- An interrupt on the line starts the worker. -/
theorem doomed_idle (hd : s.main.live .evts = false) (h : s.Offers) (hr : s.ready = true) (hok : s.driverOk = true)
    (hp : s.pc = .idle) : s.Doomed := by
  have hirq : machine.step s .spurious = some { s with irq := true } := by simp only [machine, step, hok, ↓reduceIte]
  have hcb : machine.step { s with irq := true } .eventCb = some { s with irq := false, pending := true } := by
    simp only [machine, step, ↓reduceIte]
  have hbegin : machine.step { s with irq := false, pending := true } .begin =
      some { s with irq := false, pending := false, pc := .test } := by
    simp only [machine, step, hp, and_self, ↓reduceIte]
  have htest : State.Doomed { s with irq := false, pending := false, pc := .test } := doomed_test hd { h with } hr rfl
  exact .later (a := .spurious) trivial hirq
    (.later (a := .eventCb) trivial hcb (.later (a := .begin) trivial hbegin htest))

/-- The event buffers are released too early. -/
theorem doomed_evts (hd : s.main.live .evts = false) (hok : s.used ≠ [] → s.driverOk = true) (h : ¬s.NoEvts) :
    s.Doomed := by
  by_cases hh : s.pc.hand = []
  · by_cases ha : s.driverOk = true → s.avail = []
    · have ht : s.Takes := by
        by_contra ht
        exact h ⟨hh, ha, ht⟩
      obtain ⟨hb, ⟨evt, hhead, hin⟩, hget⟩ := ht
      obtain ⟨rest, hu⟩ := List.head?_eq_some_iff.mp hhead
      have hoff : s.Offers := ⟨hb, evt, rest, hu, hin⟩
      cases hp : s.pc with
      | handle evt | queue evt =>
        rw [hp] at hh
        cases hh
      | getBuf => exact doomed_getBuf hd hoff hp
      | disableCb => exact doomed_disableCb hd hoff hp
      | test => exact doomed_test hd hoff (by simpa [hp] using hget) hp
      | poll => exact doomed_poll hd hoff (by simpa [hp] using hget) hp
      | enableCb => exact doomed_enableCb hd hoff (by simpa [hp] using hget) hp
      | isBroken => exact doomed_isBroken hd hoff (by simpa [hp] using hget) hp
      | idle => exact doomed_idle hd hoff (by simpa [hp] using hget) (hok hoff.ne_nil) hp
    · -- the device writes an event
      obtain ⟨hdrv, hav⟩ := Classical.not_imp.mp ha
      obtain ⟨evt, hevt⟩ := List.exists_mem_of_ne_nil _ hav
      have hs : ∃ s', machine.step s (.post evt []) = some s' :=
        ⟨_, by simp only [machine, step, hdrv, hevt, List.length_nil, Nat.zero_le, and_self, ↓reduceIte]; rfl⟩
      obtain ⟨s', hs⟩ := hs
      exact .now (a := .post evt []) trivial hs ⟨.evts, List.mem_cons_self, hd⟩
  · exact doomed_of_hand hh hd

/-- The virtqueue is released too early. -/
theorem doomed_vq (he : s.main.live .evts = false) (hd : s.main.live .vq = false) (h : ¬s.NoVq) : s.Doomed := by
  by_cases ho : s.pc.outside
  · have hr : ∃ _ : s.ready = true, ¬(s.pc = .idle ∧ s.pending = false) := by
      by_contra hr
      exact h ⟨ho, fun hready => by
        by_contra hp
        exact hr ⟨hready, hp⟩⟩
    obtain ⟨hready, hp⟩ := hr
    have htest : ∀ t : State, t.main = s.main → t.ready = true → t.pc = .test → t.Doomed := by
      intro t hm ht hp
      have hs : workStep t true = some { t with pc := .disableCb } := by simp only [workStep, hp, ht, ↓reduceIte]
      refine doomed_work hs (doomed_of_touches (o := .vq) (by simp) List.mem_cons_self ?_)
      rw [← hd, ← hm]
    rcases ho with ho | ho
    · have hpend : s.pending = true := by simpa [ho] using hp
      have hs : machine.step s .begin = some { s with pending := false, pc := .test } := by
        simp only [machine, step, ho, hpend, and_self, ↓reduceIte]
      exact .later (a := .begin) trivial hs (htest _ rfl hready rfl)
    · exact htest s rfl hready ho
  · cases hp : s.pc with
    | idle => exact absurd (.inl hp) ho
    | test => exact absurd (.inr hp) ho
    | disableCb | getBuf | isBroken | enableCb | poll =>
      exact doomed_of_touches (by rw [hp]; rintro ⟨⟩) (by rw [hp]; exact List.mem_cons_self) hd
    | handle evt | queue evt => exact doomed_of_hand (by rw [hp]; exact List.cons_ne_nil _ _) he

/-- The device structure is released too early. -/
theorem doomed_vvd (hvq : s.NoVq) (hd : s.main.live .vvd = false) (h : ¬s.NoWork) : s.Doomed := by
  rcases hvq.outside with hp | hp
  · have hpend : s.pending = true := by
      by_contra hpend
      exact h ⟨hp, by simpa using hpend⟩
    have hs : machine.step s .begin = some { s with pending := false, pc := .test } := by
      simp only [machine, step, hp, hpend, and_self, ↓reduceIte]
    exact .now (a := .begin) trivial hs ⟨.vvd, List.mem_cons_self, hd⟩
  · exact doomed_of_touches (by rw [hp]; rintro ⟨⟩) (by rw [hp]; exact List.mem_cons_self) hd

end

/-! ## Reached states -/

/-- Buffers are used only by a device that was told to start. -/
def State.Started (s : State) : Prop := s.used ≠ [] → s.main.hasVqs = true → s.driverOk = true

theorem State.Started.main {s s' : State} (h : s.Started) {ok : Bool} (hs : mainStep s ok = some s') : s'.Started := by
  unfold mainStep at hs
  split at hs
  · next hm =>
    split at hs
    · cases hs
      exact fun hu _ => h hu (by rw [hm]; rfl)
    · next evt rest _ =>
      obtain ⟨-, hused, hok⟩ := queueEventBuffer_frame { s with out := rest } evt ok
      have hq : (queueEventBuffer { s with out := rest } evt ok).2.used ≠ [] → s.driverOk = true := by
        rw [hused]
        exact fun hu => h hu (by rw [hm]; rfl)
      cases hs
      split
      · exact fun hu _ => hok.trans (hq hu)
      · exact fun hu _ => hok.trans (hq hu)
  · cases hs
    exact fun _ _ => rfl
  · next hm =>
    cases hs
    exact fun hu _ => h hu (by rw [hm]; rfl)
  · next hm =>
    cases hs
    exact fun hu _ => h hu (by rw [hm]; rfl)
  · next hm =>
    cases hs
    exact fun hu _ => h hu (by rw [hm]; rfl)
  · next hm =>
    cases hs
    exact fun hu _ => h hu (by rw [hm]; rfl)
  · next hm =>
    split at hs <;> cases hs <;> exact fun hu _ => h hu (by rw [hm]; rfl)
  · next hm =>
    cases hs
    exact fun hu _ => h hu (by rw [hm]; rfl)
  · cases hs
    exact fun _ hv => by cases hv
  · cases hs
    exact fun _ hv => by cases hv
  · cases hs

theorem State.Started.work {s s' : State} (h : s.Started) {mapped : Bool} (hs : workStep s mapped = some s') :
    s'.Started := by
  cases workStep_cases hs with
  | @queue evt =>
    obtain ⟨hmain, hused, hok⟩ := queueEventBuffer_frame s evt mapped
    intro hu hv
    exact hok.trans (h (hused ▸ hu) (hmain ▸ hv))
  | take hp hb hu hin => exact fun _ hv => h (by rw [hu]; exact List.cons_ne_nil _ _) hv
  | go | stop | disable | empty | badRing | handle | leave | stay | enable | done | more => exact h

theorem calm_inductive : machine.Inductive Calm fun s => Clear s ∧ s.Started where
  init := by
    rintro s ⟨num, rfl⟩
    exact ⟨.of_live rfl, fun hu => absurd rfl hu⟩
  step := by
    intro s a s' h hc hs
    obtain ⟨hclear, hstart⟩ := h
    have hkeep : Other a → Clear s' := fun ha => hclear.keep ha hs
    cases a with
    | main ok => exact ⟨hclear.main hc hs, hstart.main hs⟩
    | work mapped => exact ⟨hkeep trivial, hstart.work hs⟩
    | post evt bytes =>
      refine ⟨hkeep trivial, ?_⟩
      simp only [machine, step] at hs
      split at hs
      · next hp =>
        cases hs
        exact fun _ _ => hp.1
      · cases hs
    | look | spurious | eventCb | breakVq | begin =>
      refine ⟨hkeep trivial, ?_⟩
      simp only [machine, step] at hs
      split at hs <;> cases hs
      exact hstart

/-- **When it is safe to remove the device.** In every run that has released
the event buffers, the virtqueues and the device structure only in calm
moments, nothing the worker, the interrupt handler or the device may still do
touches them, and the next step of the removal (or of the failing probe)
keeps it so exactly when it is calm: when the event buffers go, the worker
has none and gets none, and the device holds none; when the virtqueues go,
the worker does not run, or is about to find the queue not ready; when the
structure goes, the work item is neither running nor pending. -/
theorem removal_safe_iff {s s' : State} {ok : Bool} (h : machine.Reach Calm s) (hs : mainStep s ok = some s') :
    ¬s'.Doomed ↔ Calm s (.main ok) := by
  obtain ⟨hclear, hstart⟩ := calm_inductive.reach h
  refine Machine.not_exposed_iff (P := Clear) (fun s a s' h => h.keep) (fun s a s' h => h.safe)
    (fun hc => hclear.main hc hs) fun hc => ?_
  by_cases he : s.main = .freeEvts → s.NoEvts
  · by_cases hv : s.main = .delVqs → s.NoVq
    · obtain ⟨hm, hno⟩ := Classical.not_imp.mp fun hf => hc ⟨he, hv, hf⟩
      have hvq := (hclear.vq (by rw [hm]; rfl)).1
      simp only [mainStep, hm, Option.some.injEq] at hs
      subst hs
      exact doomed_vvd { hvq with } rfl fun hn => hno { hn with }
    · obtain ⟨hm, hno⟩ := Classical.not_imp.mp hv
      simp only [mainStep, hm, Option.some.injEq] at hs
      subst hs
      exact doomed_vq rfl rfl fun hn => hno { hn with }
  · obtain ⟨hm, hno⟩ := Classical.not_imp.mp he
    simp only [mainStep, hm, Option.some.injEq] at hs
    subst hs
    exact doomed_evts rfl (fun hu => hstart hu (by rw [hm]; rfl)) fun hn => hno ⟨hn.hand, hn.avail, hn.takes⟩

/-- The device has written to its only buffer, and the worker is handling the
event, when the device is removed. -/
def removedInUse : List Act :=
  [.main true, .main true, .main true, .main true, .main true, .post 0 [0, 1], .look, .eventCb, .begin, .work true,
    .work true, .work true, .main true, .main true, .main true]

theorem removal_safe_iff_inUse : ∃ s s' : State, s.pc = .handle 0 ∧ mainStep s true = some s' ∧ ¬¬s'.Doomed := by
  obtain ⟨s, hs, hm, hp⟩ := Machine.exists_reach Calm (show machine.init (probe 1) from ⟨1, rfl⟩) removedInUse
    (fun s => s.main = .freeEvts ∧ s.pc = .handle 0) (by decide +kernel)
  have hstep : mainStep s true = some { s with main := .delVqs } := by simp only [mainStep, hm]
  refine ⟨s, _, hp, hstep, fun hd => ?_⟩
  have hhand := (((removal_safe_iff hs hstep).mp hd).1 hm).hand
  rw [hp] at hhand
  cases hhand

/-- A device that has written no event holds every event buffer when they are
released, since nothing takes them away from it. -/
theorem removal_exposed {s s' : State} {ok : Bool} (h : machine.Reach Calm s) (hm : s.main = .freeEvts)
    (hok : s.driverOk = true) (hout : s.out = []) (hposted : s.posted = []) (hnum : 0 < s.num)
    (hs : mainStep s ok = some s') : s'.Doomed := by
  have hinv := inv_inductive.reach h.reachable
  simp only [mainStep, hm, Option.some.injEq] at hs
  subst hs
  refine doomed_evts rfl (fun _ => hok) fun hn => ?_
  have hparts := hinv.parts.length_eq
  have hevents := congrArg List.length hinv.events
  have hused : s.used.length = 0 := by
    simp only [hposted, List.length_append, List.length_map, List.length_nil] at hevents
    omega
  have hhand : s.pc.hand = [] := hn.hand
  have havail : s.avail = [] := hn.avail hok
  simp only [List.nil_append, List.length_append, List.length_range, hhand, havail, hout, List.length_nil] at hparts
  omega

end Agl.VirtioVideo.Events
