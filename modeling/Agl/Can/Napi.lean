/-
Interrupts and NAPI of the TX and RX queues of the virtio CAN driver.

A `Chan` is a virtqueue as far as completions go (what the device has put
into the used ring, what the driver has taken, whether the callback is
enabled), the interrupt behind it and the NAPI instance it schedules. The
interrupt handlers, the poll functions and `virtqueue_napi_complete` are cut
at every access to them. After a successful `napi_complete_done` the poll
function still has its re-check ahead while another CPU may poll again:
these remainders are the `tails`.

`napi_schedule_prep`, `napi_complete_done`, `virtqueue_enable_cb_prepare`
and `virtqueue_poll` are the kernel's: the last compares the used index with
the number of entries the driver had taken at the second last.
-/
import Mathlib.Data.List.Count
import Agl.Can.Tx

namespace Agl.VirtioCan

/-- What is left of a poll function once `napi_complete_done` succeeded. -/
inductive Tail
  /-- about to call `virtqueue_poll` -/
  | check (prepared : Nat)
  /-- `virtqueue_napi_schedule`: about to call `napi_schedule_prep` -/
  | prep
  /-- about to disable the callback -/
  | disable
  /-- about to call `__napi_schedule` -/
  | schedule
  deriving DecidableEq, Repr

/-- Where the poll function is. -/
inductive PollPc
  | idle
  /-- `virtio_can_handle_busoff`: about to test `busoff_pending` -/
  | busoff (quota : Nat)
  /-- a bus-off is pending -/
  | indicate (quota : Nat)
  | loop (quota workDone : Nat)
  /-- `virtqueue_napi_complete` -/
  | prepare
  | complete (prepared : Nat)
  /-- `napi_complete_done` returned false -/
  | disable
  deriving DecidableEq, Repr

/-- A virtqueue, its interrupt and its NAPI instance. -/
structure Chan where
  /-- entries the device has put into the used ring -/
  used : Nat
  /-- entries the driver has taken -/
  lastUsed : Nat
  cbEnabled : Bool
  /-- entries put in since the device last looked whether the callback is enabled -/
  look : Bool
  /-- interrupt raised, handler not begun -/
  irq : Bool
  /-- handlers that have disabled the callback and not called `napi_schedule` yet -/
  intr : Nat
  sched : Bool
  missed : Bool
  /-- on a CPU's list of instances to poll -/
  listed : Bool
  poll : PollPc
  tails : List Tail
  deriving DecidableEq, Repr

namespace Chan

/-! ## NAPI -/

/-- `napi_schedule_prep` -/
def schedulePrep (c : Chan) : Bool × Chan :=
  if c.sched then (false, { c with missed := true }) else (true, { c with sched := true })

/-- `napi_schedule` -/
def napiSchedule (c : Chan) : Chan :=
  if c.sched then { c with missed := true } else { c with sched := true, listed := true }

/-- `napi_complete_done`: an event missed keeps the instance scheduled. -/
def completeDone (c : Chan) : Bool × Chan :=
  if c.missed then (false, { c with missed := false, listed := true }) else (true, { c with sched := false })

/-! ## The poll functions -/

/-- One step of `virtio_can_tx_poll` or `virtio_can_rx_poll`, from its loop
to the `napi_complete_done` in `virtqueue_napi_complete`. With the quota
used up the core puts the instance back on its list. -/
def pollStep (c : Chan) : Option Chan :=
  match c.poll with
  | .idle | .busoff _ | .indicate _ => none
  | .loop quota workDone =>
    if workDone < quota then
      if c.lastUsed < c.used then some { c with lastUsed := c.lastUsed + 1, poll := .loop quota (workDone + 1) }
      else some { c with poll := .prepare }
    else some { c with poll := .idle, listed := true }
  | .prepare => some { c with cbEnabled := true, poll := .complete c.lastUsed }
  | .complete prepared =>
    match c.completeDone with
    | (true, c) => some { c with poll := .idle, tails := .check prepared :: c.tails }
    | (false, c) => some { c with poll := .disable }
  | .disable => some { c with cbEnabled := false, poll := .idle }

/-- One step of the rest of `virtqueue_napi_complete`. -/
def tailStep (c : Chan) (t : Tail) : Option Chan :=
  if t ∈ c.tails then
    let rest := c.tails.erase t
    match t with
    | .check prepared => some { c with tails := if c.used ≠ prepared then .prep :: rest else rest }
    | .prep =>
      match c.schedulePrep with
      | (true, c) => some { c with tails := .disable :: rest }
      | (false, c) => some { c with tails := rest }
    | .disable => some { c with cbEnabled := false, tails := .schedule :: rest }
    | .schedule => some { c with listed := true, tails := rest }
  else none

inductive Act
  /-- the device puts an entry into the used ring -/
  | post
  /-- the device raises the interrupt if the callback is enabled -/
  | look
  /-- an interrupt nobody asked for -/
  | spurious
  /-- `virtio_can_tx_intr`, `virtio_can_rx_intr`: `virtqueue_disable_cb` -/
  | intr
  /-- their `napi_schedule` -/
  | schedule
  /-- the core calls the poll function -/
  | begin (quota : Nat)
  | poll
  | tail (t : Tail)
  deriving DecidableEq, Repr

/-- One step; `start quota` is where the poll function begins. -/
def step (start : Nat → PollPc) (c : Chan) : Act → Option Chan
  | .post => some { c with used := c.used + 1, look := true }
  | .look => if c.look then some { c with look := false, irq := c.irq || c.cbEnabled } else none
  | .spurious => some { c with irq := true }
  | .intr => if c.irq then some { c with irq := false, cbEnabled := false, intr := c.intr + 1 } else none
  | .schedule => if 0 < c.intr then some (napiSchedule { c with intr := c.intr - 1 }) else none
  | .begin quota =>
    if c.listed ∧ c.poll = .idle ∧ 0 < quota then some { c with listed := false, poll := start quota } else none
  | .poll => c.pollStep
  | .tail t => c.tailStep t

/-- NAPI just enabled: the callback is on and the ring is empty. -/
def enabled : Chan :=
  { used := 0, lastUsed := 0, cbEnabled := true, look := false, irq := false, intr := 0, sched := false, missed := false
    listed := false, poll := .idle, tails := [] }

end Chan

/-! ## The two queues and the event indication -/

/-- Where `virtio_can_evind_intr` is. -/
inductive EvindPc
  | idle
  /-- a bus-off indication is taken -/
  | test
  | mark
  | schedule
  deriving DecidableEq, Repr

structure NapiState where
  tx : Chan
  rx : Chan
  busoffPending : Bool
  canState : CanState
  evind : EvindPc
  deriving DecidableEq, Repr

/-- `virtio_can_handle_busoff`, called by `virtio_can_rx_poll`; `skb` says
whether there is memory for the error frame, `taken` whether the stack
takes it. -/
def handleBusoff (s : NapiState) (skb taken : Bool) : Option NapiState :=
  match s.rx.poll with
  | .busoff quota =>
    if s.busoffPending then some { s with rx := { s.rx with poll := .indicate quota } }
    else some { s with rx := { s.rx with poll := .loop quota 0 } }
  | .indicate quota =>
    let s := if s.canState.val < CanState.busOff.val then { s with canState := .busOff } else s
    if skb then
      some { s with busoffPending := s.busoffPending && !taken, rx := { s.rx with poll := .loop quota 1 } }
    else some { s with rx := { s.rx with poll := .loop quota 0 } }
  | _ => none

/-- `virtio_can_evind_intr`; only `VIRTIO_CAN_BUSOFF_IND` does anything. -/
def evindStep (s : NapiState) : NapiState :=
  match s.evind with
  | .idle => { s with evind := .test }
  | .test =>
    if s.busoffPending = false ∧ s.canState.val < CanState.busOff.val then { s with evind := .mark }
    else { s with evind := .idle }
  | .mark => { s with busoffPending := true, evind := .schedule }
  | .schedule => { s with rx := s.rx.napiSchedule, evind := .idle }

inductive NapiAct
  | tx (a : Chan.Act)
  | rx (a : Chan.Act)
  | busoff (skb taken : Bool)
  | evind
  /-- `virtio_can_start` -/
  | start
  /-- `virtio_can_stop` -/
  | stop
  deriving DecidableEq, Repr

def napiStep (s : NapiState) : NapiAct → Option NapiState
  | .tx a => (s.tx.step (.loop · 0) a).map fun c => { s with tx := c }
  | .rx a => (s.rx.step .busoff a).map fun c => { s with rx := c }
  | .busoff skb taken => handleBusoff s skb taken
  | .evind => some (evindStep s)
  | .start => some { s with busoffPending := false, canState := .errorActive }
  | .stop => some { s with busoffPending := false, canState := .stopped }

/-- NAPI and the callbacks are enabled, nothing has happened yet. -/
def napiMachine : Machine NapiState NapiAct where
  init s := s.tx = .enabled ∧ s.rx = .enabled ∧ s.evind = .idle
  step := napiStep

/-! ## What a poll function does in a step -/

namespace Chan

/-- A step up to `napi_complete_done`, which gives the instance up unless an event was missed. -/
inductive PollStep (c : Chan) : Chan → Prop
  | take {quota work} (hp : c.poll = .loop quota work) (hu : c.lastUsed < c.used) :
    PollStep c { c with lastUsed := c.lastUsed + 1, poll := .loop quota (work + 1) }
  | empty {quota work} (hp : c.poll = .loop quota work) : PollStep c { c with poll := .prepare }
  | quotaUsed {quota work} (hp : c.poll = .loop quota work) : PollStep c { c with poll := .idle, listed := true }
  | prepare (hp : c.poll = .prepare) : PollStep c { c with cbEnabled := true, poll := .complete c.lastUsed }
  | givenUp {n} (hp : c.poll = .complete n) (hm : c.missed = false) :
    PollStep c { c with sched := false, poll := .idle, tails := .check n :: c.tails }
  | again {n} (hp : c.poll = .complete n) (hm : c.missed = true) :
    PollStep c { c with missed := false, listed := true, poll := .disable }
  | disable (hp : c.poll = .disable) : PollStep c { c with cbEnabled := false, poll := .idle }

theorem pollStep_cases {c c' : Chan} (hs : c.pollStep = some c') : PollStep c c' := by
  unfold pollStep at hs
  split at hs
  · cases hs
  · cases hs
  · cases hs
  · next hp =>
    split at hs
    · split at hs
      · next hu =>
        cases hs
        exact .take hp hu
      · cases hs
        exact .empty hp
    · cases hs
      exact .quotaUsed hp
  · next hp =>
    cases hs
    exact .prepare hp
  · next hp =>
    unfold completeDone at hs
    cases hm : c.missed
    · simp only [hm, Bool.false_eq_true, ↓reduceIte, Option.some.injEq] at hs
      subst hs
      exact hm ▸ .givenUp hp hm
    · simp only [hm, ↓reduceIte, Option.some.injEq] at hs
      subst hs
      exact .again hp hm
  · next hp =>
    cases hs
    exact .disable hp

/-- A step of what is left after it. -/
inductive TailStep (c : Chan) : Tail → Chan → Prop
  | found {n} (ht : .check n ∈ c.tails) : TailStep c (.check n) { c with tails := .prep :: c.tails.erase (.check n) }
  | done (ht : .check c.used ∈ c.tails) :
    TailStep c (.check c.used) { c with tails := c.tails.erase (.check c.used) }
  | prep (ht : .prep ∈ c.tails) (hsched : c.sched = false) :
    TailStep c .prep { c with sched := true, tails := .disable :: c.tails.erase .prep }
  | prepMissed (ht : .prep ∈ c.tails) (hsched : c.sched = true) :
    TailStep c .prep { c with missed := true, tails := c.tails.erase .prep }
  | disable (ht : .disable ∈ c.tails) :
    TailStep c .disable { c with cbEnabled := false, tails := .schedule :: c.tails.erase .disable }
  | schedule (ht : .schedule ∈ c.tails) :
    TailStep c .schedule { c with listed := true, tails := c.tails.erase .schedule }

theorem tailStep_cases {c c' : Chan} {t : Tail} (hs : c.tailStep t = some c') : TailStep c t c' := by
  unfold tailStep at hs
  split at hs
  · next ht =>
    cases t with
    | check n =>
      cases hs
      split
      · exact .found ht
      · next hn =>
        obtain rfl := not_not.mp hn
        exact .done ht
    | prep =>
      dsimp only [schedulePrep] at hs
      cases hsched : c.sched
      · simp only [hsched, Bool.false_eq_true, ↓reduceIte, Option.some.injEq] at hs
        subst hs
        exact .prep ht hsched
      · simp only [hsched, ↓reduceIte, Option.some.injEq] at hs
        subst hs
        exact hsched ▸ .prepMissed ht hsched
    | disable =>
      cases hs
      exact .disable ht
    | schedule =>
      cases hs
      exact .schedule ht
  · cases hs

end Chan

/-- The TX poll function has no bus-off to handle. -/
def PollPc.plain : PollPc → Bool
  | .busoff _ | .indicate _ => false
  | _ => true

theorem Chan.step_plain {c c' : Chan} (h : c.poll.plain = true) {a : Act} (hs : c.step (.loop · 0) a = some c') :
    c'.poll.plain = true := by
  cases a with
  | post | spurious =>
    cases hs
    exact h
  | look | intr =>
    simp only [Chan.step] at hs
    split at hs <;> cases hs
    exact h
  | schedule =>
    simp only [Chan.step, Chan.napiSchedule] at hs
    split at hs
    · split at hs <;> cases hs <;> exact h
    · cases hs
  | begin quota =>
    simp only [Chan.step] at hs
    split at hs <;> cases hs
    rfl
  | poll =>
    cases Chan.pollStep_cases hs with
    | _ => rfl
  | tail t =>
    cases Chan.tailStep_cases hs with
    | _ => exact h

/-! ## The invariant of a queue -/

/-- This remainder holds `NAPI_STATE_SCHED`. -/
def Tail.owns : Tail → Bool
  | .disable | .schedule => true
  | .check _ | .prep => false

/-- The running poll function holds `NAPI_STATE_SCHED`. -/
def PollPc.owns : PollPc → Bool
  | .idle | .disable => false
  | .busoff _ | .indicate _ | .loop _ _ | .prepare | .complete _ => true

/-- This remainder is going to ask for another poll. -/
def Tail.willSchedule (used : Nat) : Tail → Bool
  | .check prepared => used ≠ prepared
  | .prep => true
  | .disable | .schedule => false

namespace Chan

/-- Who holds `NAPI_STATE_SCHED`: the list, the running poll function, a remainder. -/
def owners (c : Chan) : Nat := c.listed.toNat + c.poll.owns.toNat + c.tails.countP Tail.owns

structure Inv (c : Chan) : Prop where
  taken : c.lastUsed ≤ c.used
  owner : c.owners = c.sched.toNat
  missed : c.missed = true → c.sched = true
  again : c.poll = .disable → c.listed = true
  prepared : ∀ n, c.poll = .complete n → n = c.lastUsed
  past : ∀ n, .check n ∈ c.tails → n ≤ c.lastUsed
  /-- somebody is going to enable a disabled callback again -/
  off : c.cbEnabled = false → c.sched = true ∨ 0 < c.intr
  /-- disabled again before `napi_complete_done`: it will fail, or a handler will schedule -/
  rearmed : ∀ n, c.poll = .complete n → c.cbEnabled = true ∨ c.missed = true ∨ 0 < c.intr
  event : c.lastUsed < c.used → c.sched = true ∨ c.irq = true ∨ 0 < c.intr ∨ (c.look = true ∧ c.cbEnabled = true) ∨
    ∃ t ∈ c.tails, t.willSchedule c.used = true

theorem enabled_inv : Inv enabled where
  taken := Nat.le_refl _
  owner := by decide
  missed := fun h => by cases h
  again := fun h => by cases h
  prepared := fun _ h => by cases h
  past := fun _ h => by cases h
  off := fun h => by cases h
  rearmed := fun _ h => by cases h
  event := fun h => absurd h (Nat.lt_irrefl _)

namespace Inv

variable {c : Chan}

/-- Who holds it makes the instance scheduled. -/
theorem sched_of_owner (h : Inv c) (ho : 0 < c.owners) : c.sched = true := by
  cases hs : c.sched
  · rw [h.owner, hs] at ho
    cases ho
  · rfl

/-- While a poll function runs and has not completed, the instance is scheduled. -/
theorem sched_of_poll (h : Inv c) (hp : c.poll.owns = true) : c.sched = true :=
  h.sched_of_owner (by simp only [owners, hp, Bool.toNat_true]; omega)

theorem sched_of_listed (h : Inv c) (hl : c.listed = true) : c.sched = true :=
  h.sched_of_owner (by simp only [owners, hl, Bool.toNat_true]; omega)

/-- Taking a remainder out of the bag. -/
theorem owns_erase {l : List Tail} {t : Tail} (ht : t ∈ l) :
    l.countP Tail.owns = (l.erase t).countP Tail.owns + t.owns.toNat := by
  rw [(List.perm_cons_erase ht).countP_eq, List.countP_cons]
  cases t.owns <;> rfl

theorem sched_of_tail (h : Inv c) {t} (ht : t ∈ c.tails) (ho : t.owns = true) : c.sched = true :=
  h.sched_of_owner (by simp only [owners, owns_erase ht, ho, Bool.toNat_true]; omega)

/-- Nobody holds an instance that is not scheduled. -/
theorem idle (h : Inv c) (hs : c.sched = false) :
    c.listed = false ∧ c.poll.owns = false ∧ c.tails.countP Tail.owns = 0 := by
  have := h.owner
  simp only [owners, hs, Bool.toNat_false] at this
  exact ⟨Bool.toNat_eq_zero.mp (by omega), Bool.toNat_eq_zero.mp (by omega), by omega⟩

/-- The running poll function is the only holder. -/
theorem only_poll (h : Inv c) (hp : c.poll.owns = true) : c.listed = false ∧ c.tails.countP Tail.owns = 0 := by
  have := h.owner
  simp only [owners, hp, h.sched_of_poll hp, Bool.toNat_true] at this
  exact ⟨Bool.toNat_eq_zero.mp (by omega), by omega⟩

/-- After `napi_schedule` the instance is scheduled, whatever happens to the
handler that called it. -/
theorem napiSchedule (h : Inv c) (intr : Nat) : Inv (napiSchedule { c with intr }) := by
  unfold Chan.napiSchedule
  split
  · next hs => exact { h with
      missed := fun _ => hs
      off := fun _ => .inl hs
      rearmed := fun _ _ => .inr (.inl rfl)
      event := fun _ => .inl hs }
  · next hs =>
    obtain ⟨-, hp, ht⟩ := h.idle (by simpa using hs)
    exact { h with
      owner := by simp only [owners, hp, ht]; rfl
      missed := fun _ => rfl
      again := fun _ => rfl
      off := fun _ => .inl rfl
      rearmed := fun n hn => by
        have hn : c.poll = .complete n := hn
        rw [hn] at hp
        cases hp
      event := fun _ => .inl rfl }

theorem pollStep (h : Inv c) {c' : Chan} (hs : c.pollStep = some c') : Inv c' := by
  have hown := h.owner
  cases pollStep_cases hs with
  | take hp hu =>
    have hsched := h.sched_of_poll (by rw [hp]; rfl)
    simp only [owners, hp, PollPc.owns] at hown
    exact { h with
      taken := hu
      owner := hown
      again := fun hp => by cases hp
      prepared := fun _ hp => by cases hp
      past := fun n hn => Nat.le_succ_of_le (h.past n hn)
      rearmed := fun _ hp => by cases hp
      event := fun _ => .inl hsched }
  | empty hp =>
    simp only [owners, hp, PollPc.owns] at hown
    exact { h with
      owner := hown
      again := fun hp => by cases hp
      prepared := fun _ hp => by cases hp
      rearmed := fun _ hp => by cases hp }
  | quotaUsed hp =>
    have hp' : c.poll.owns = true := by rw [hp]; rfl
    obtain ⟨-, ht⟩ := h.only_poll hp'
    exact { h with
      owner := by simp only [owners, PollPc.owns, ht, h.sched_of_poll hp']; rfl
      again := fun hp => by cases hp
      prepared := fun _ hp => by cases hp
      rearmed := fun _ hp => by cases hp }
  | prepare hp =>
    have hsched := h.sched_of_poll (by rw [hp]; rfl)
    simp only [owners, hp, PollPc.owns] at hown
    exact { h with
      owner := hown
      again := fun hp => by cases hp
      prepared := fun _ hp => by cases hp; rfl
      off := fun hc => by cases hc
      rearmed := fun _ _ => .inl rfl
      event := fun _ => .inl hsched }
  | @givenUp n hp hm =>
    -- what was missed shows in the ring
    obtain ⟨hl, ht⟩ := h.only_poll (by rw [hp]; rfl)
    obtain rfl := h.prepared n hp
    have hcb : c.cbEnabled = true ∨ 0 < c.intr := by simpa [hm] using h.rearmed _ hp
    exact { h with
      owner := by simp only [owners, PollPc.owns, hl, List.countP_cons, ht]; rfl
      missed := fun (hm' : c.missed = true) => by
        rw [hm] at hm'
        cases hm'
      again := fun hp => by cases hp
      prepared := fun _ hp => by cases hp
      past := fun n hn => by
        rcases List.mem_cons.mp hn with he | hn
        · cases he
          exact Nat.le_refl _
        · exact h.past n hn
      off := fun (hc : c.cbEnabled = false) => .inr (hcb.resolve_left (by simp [hc]))
      rearmed := fun _ hp => by cases hp
      event := fun (hlt : c.lastUsed < c.used) =>
        .inr (.inr (.inr (.inr ⟨_, List.mem_cons_self, decide_eq_true (Nat.ne_of_gt hlt)⟩))) }
  | again hp hm =>
    have hp' : c.poll.owns = true := by rw [hp]; rfl
    obtain ⟨-, ht⟩ := h.only_poll hp'
    exact { h with
      owner := by simp only [owners, PollPc.owns, ht, h.sched_of_poll hp']; rfl
      missed := fun hm => by cases hm
      again := fun _ => rfl
      prepared := fun _ hp => by cases hp
      rearmed := fun _ hp => by cases hp }
  | disable hp =>
    have hsched := h.sched_of_listed (h.again hp)
    simp only [owners, hp, PollPc.owns] at hown
    exact { h with
      owner := hown
      again := fun hp => by cases hp
      prepared := fun _ hp => by cases hp
      off := fun _ => .inl hsched
      rearmed := fun _ hp => by cases hp
      event := fun _ => .inl hsched }

/-- A remainder that holds the instance excludes a running poll function. -/
theorem no_poll (h : Inv c) {t} (ht : t ∈ c.tails) (ho : t.owns = true) : c.listed = false ∧ c.poll.owns = false ∧
    (c.tails.erase t).countP Tail.owns = 0 := by
  have := h.owner
  simp only [owners, owns_erase ht, ho, h.sched_of_tail ht ho, Bool.toNat_true] at this
  exact ⟨Bool.toNat_eq_zero.mp (by omega), Bool.toNat_eq_zero.mp (by omega), by omega⟩

theorem tailStep (h : Inv c) {t : Tail} {c' : Chan} (hs : c.tailStep t = some c') : Inv c' := by
  have hown := h.owner
  have hsub : ∀ t', t' ∈ c.tails.erase t → t' ∈ c.tails := fun t' => List.mem_of_mem_erase
  cases tailStep_cases hs with
  | found ht =>
    -- entries have come since: `virtqueue_napi_schedule`
    simp only [owners, owns_erase ht] at hown
    exact { h with
      owner := by simpa [owners, Tail.owns] using hown
      past := fun m hm => h.past m (hsub _ (by simpa using hm))
      event := fun _ => .inr (.inr (.inr (.inr ⟨_, List.mem_cons_self, rfl⟩))) }
  | done ht =>
    have hle := h.past c.used ht
    simp only [owners, owns_erase ht] at hown
    exact { h with
      owner := hown
      past := fun m hm => h.past m (hsub _ hm)
      event := fun (hlt : c.lastUsed < c.used) => absurd hlt (Nat.not_lt.mpr hle) }
  | prep ht hsched =>
    obtain ⟨hl, hp, htails⟩ := h.idle hsched
    have hrest : (c.tails.erase .prep).countP Tail.owns = 0 :=
      Nat.eq_zero_of_add_eq_zero_right ((owns_erase ht).symm.trans htails)
    exact { h with
      owner := by simp only [owners, hl, hp, List.countP_cons, hrest]; rfl
      missed := fun _ => rfl
      past := fun m hm => h.past m (hsub _ (by simpa using hm))
      off := fun _ => .inl rfl
      event := fun _ => .inl rfl }
  | prepMissed ht hsched =>
    simp only [owners, owns_erase ht] at hown
    exact { h with
      owner := hown
      missed := fun _ => hsched
      past := fun m hm => h.past m (hsub _ hm)
      off := fun _ => .inl hsched
      rearmed := fun _ _ => .inr (.inl rfl)
      event := fun _ => .inl hsched }
  | disable ht =>
    have hsched := h.sched_of_tail ht rfl
    obtain ⟨hl, hp, hrest⟩ := h.no_poll ht rfl
    exact { h with
      owner := by simp only [owners, hl, hp, List.countP_cons, hrest, hsched]; rfl
      past := fun m hm => h.past m (hsub _ (by simpa using hm))
      off := fun _ => .inl hsched
      rearmed := fun m (hm : c.poll = .complete m) => by
        rw [hm] at hp
        cases hp
      event := fun _ => .inl hsched }
  | schedule ht =>
    have hsched := h.sched_of_tail ht rfl
    obtain ⟨-, hp, hrest⟩ := h.no_poll ht rfl
    exact { h with
      owner := by simp only [owners, hp, hrest, hsched]; rfl
      again := fun _ => rfl
      past := fun m hm => h.past m (hsub _ hm)
      event := fun _ => .inl hsched }

/-- No step of the device, the handler, the core or the poll function breaks
the invariant of its queue. -/
theorem step (h : Inv c) {start : Nat → PollPc}
    (hstart : ∀ quota, (start quota).owns = true ∧ ∀ n, start quota ≠ .complete n)
    {a : Act} {c' : Chan} (hs : c.step start a = some c') : Inv c' := by
  cases a with
  | post =>
    cases hs
    exact { h with
      taken := Nat.le_succ_of_le h.taken
      event := fun _ => by
        cases hc : c.cbEnabled
        · rcases h.off hc with hsched | hi
          · exact .inl hsched
          · exact .inr (.inr (.inl hi))
        · exact .inr (.inr (.inr (.inl ⟨rfl, rfl⟩))) }
  | look =>
    simp only [Chan.step] at hs
    split at hs
    · cases hs
      exact { h with
        event := fun hlt => by
          cases hc : c.cbEnabled
          · rcases h.off hc with hsched | hi
            · exact .inl hsched
            · exact .inr (.inr (.inl hi))
          · exact .inr (.inl (by simp)) }
    · cases hs
  | spurious =>
    cases hs
    exact { h with event := fun _ => .inr (.inl rfl) }
  | intr =>
    simp only [Chan.step] at hs
    split at hs
    · cases hs
      exact { h with
        off := fun _ => .inr (Nat.succ_pos _)
        rearmed := fun _ _ => .inr (.inr (Nat.succ_pos _))
        event := fun _ => .inr (.inr (.inl (Nat.succ_pos _))) }
    · cases hs
  | schedule =>
    simp only [Chan.step] at hs
    split at hs
    · cases hs
      exact h.napiSchedule _
    · cases hs
  | begin quota =>
    simp only [Chan.step] at hs
    split at hs
    · next hb =>
      cases hs
      have hsched := h.sched_of_listed hb.1
      have hown := h.owner
      simp only [owners, hb.1, hb.2.1, hsched, PollPc.owns, Bool.toNat_true] at hown
      exact { h with
        owner := by simp only [owners, (hstart quota).1, hsched, Bool.toNat_true, Bool.toNat_false]; omega
        again := fun (hp : start quota = .disable) => by
          have := (hstart quota).1
          rw [hp] at this
          cases this
        prepared := fun n hp => absurd hp ((hstart quota).2 n)
        rearmed := fun n hp => absurd hp ((hstart quota).2 n) }
    · cases hs
  | poll => exact h.pollStep hs
  | tail t => exact h.tailStep hs

/-- `virtio_can_handle_busoff` moves the running poll function on. -/
theorem setPoll (h : Inv c) (hp : c.poll.owns = true) {p : PollPc} (hpo : p.owns = true) (hpc : ∀ n, p ≠ .complete n) :
    Inv { c with poll := p } :=
  { h with
    owner := by
      have := h.owner
      simp only [owners, hp, hpo] at this ⊢
      exact this
    again := fun (hd : p = .disable) => by
      rw [hd] at hpo
      cases hpo
    prepared := fun n hn => absurd hn (hpc n)
    rearmed := fun n hn => absurd hn (hpc n) }

end Inv

/-- An unprocessed entry of this queue is going to be seen: its interrupt is
pending, or will be raised when the device looks at the callback, or NAPI is
scheduled, or the poll function that gave it up is about to ask for it again. -/
def Attended (c : Chan) : Prop :=
  (c.irq = true ∨ 0 < c.intr) ∨ (c.look = true ∧ c.cbEnabled = true) ∨ c.sched = true ∨
    ∃ t ∈ c.tails, t.willSchedule c.used = true

theorem Inv.attended {c : Chan} (h : Inv c) (hu : c.lastUsed < c.used) : c.Attended := by
  rcases h.event hu with hs | hi | hi | hl | ht
  · exact .inr (.inr (.inl hs))
  · exact .inl (.inl hi)
  · exact .inl (.inr hi)
  · exact .inr (.inl hl)
  · exact .inr (.inr (.inr ht))

end Chan

/-! ## Reached states -/

def NapiInv (s : NapiState) : Prop := s.tx.Inv ∧ s.rx.Inv

theorem NapiInv.handleBusoff {s s' : NapiState} {skb taken : Bool} (h : NapiInv s)
    (hs : handleBusoff s skb taken = some s') : NapiInv s' := by
  unfold VirtioCan.handleBusoff at hs
  split at hs
  · next hp =>
    have hpo : s.rx.poll.owns = true := by rw [hp]; rfl
    split at hs <;> cases hs <;> exact ⟨h.1, h.2.setPoll hpo rfl fun _ he => by cases he⟩
  · next hp =>
    have hpo : s.rx.poll.owns = true := by rw [hp]; rfl
    dsimp only at hs
    split at hs <;> split at hs <;> cases hs <;> exact ⟨h.1, h.2.setPoll hpo rfl fun _ he => by cases he⟩
  · cases hs

theorem napiInv_inductive : napiMachine.Inductive (fun _ _ => True) NapiInv where
  init := by
    intro s hs
    obtain ⟨htx, hrx, -⟩ := hs
    exact ⟨htx ▸ Chan.enabled_inv, hrx ▸ Chan.enabled_inv⟩
  step := by
    intro s a s' h _ hs
    cases a with
    | tx a =>
      obtain ⟨c, hc, rfl⟩ := Option.map_eq_some_iff.mp hs
      exact ⟨h.1.step (fun _ => ⟨rfl, fun _ he => by cases he⟩) hc, h.2⟩
    | rx a =>
      obtain ⟨c, hc, rfl⟩ := Option.map_eq_some_iff.mp hs
      exact ⟨h.1, h.2.step (fun _ => ⟨rfl, fun _ he => by cases he⟩) hc⟩
    | busoff skb taken => exact h.handleBusoff hs
    | evind =>
      simp only [napiMachine, napiStep, Option.some.injEq] at hs
      subst hs
      unfold evindStep
      split
      · exact h
      · split <;> exact h
      · exact h
      · exact ⟨h.1, h.2.napiSchedule s.rx.intr⟩
    | start | stop =>
      cases hs
      exact h

/-- **NAPI loses no event.** In every reachable state in which the used ring
of the TX or RX queue holds an entry the driver has not taken, somebody is
going to look: the interrupt is pending, or the enabled callback will raise
it, or NAPI is scheduled or about to be scheduled by its poll function. -/
theorem napi_noLostEvent {s : NapiState} (h : napiMachine.Reachable s) :
    (s.tx.lastUsed < s.tx.used → s.tx.Attended) ∧ (s.rx.lastUsed < s.rx.used → s.rx.Attended) := by
  obtain ⟨htx, hrx⟩ := napiInv_inductive.reach h
  exact ⟨htx.attended, hrx.attended⟩

/-- An entry that arrives while the poll function is on its way out: the
callback was off, the re-check finds it. -/
def lateEntry : List NapiAct :=
  [.tx .post, .tx .look, .tx .intr, .tx .schedule, .tx (.begin 64), .tx .poll, .tx .poll, .tx .post, .tx .look,
    .tx .poll, .tx .poll]

theorem napi_noLostEvent_lateEntry : ∃ s : NapiState, s.tx.lastUsed < s.tx.used ∧ s.tx.sched = false ∧
    s.tx.irq = false ∧
    s.tx.Attended := by
  obtain ⟨s, hs, hu, hsched, hirq⟩ := Machine.exists_reach (fun _ _ => True)
    (show napiMachine.init ⟨.enabled, .enabled, false, .errorActive, .idle⟩ from ⟨rfl, rfl, rfl⟩) lateEntry
    (fun s => s.tx.lastUsed < s.tx.used ∧ s.tx.sched = false ∧ s.tx.irq = false) (by decide +kernel)
  exact ⟨s, hu, hsched, hirq, (napi_noLostEvent hs).1 hu⟩

end Agl.VirtioCan
