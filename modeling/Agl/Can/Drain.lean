/-
The transmit path: the bookkeeping of the TX queue (`machine`) and its
interrupt and NAPI (a `Chan`) in one machine.

`machine` lets `virtio_can_read_tx_queue` run at any time and `napiMachine`
only counts what it takes; here it runs when `virtio_can_tx_poll` calls it,
and taking a message is a step of both (`TxPath`). The parts keep their
invariants, for a run of the path is a run of each (`tx_run`, `napi_run`), and
they agree on what is in the used ring (`Coupled`).

So the transmit queue empties: once the stack hands down no new frame,
nothing is in flight in the end whatever the order of the steps, and a queue
stopped with a completion to come has been woken (`tx_drains`).
-/
import Agl.Can.Flow
import Agl.Can.Settle

namespace Agl.VirtioCan

/-! ## The machine -/

structure TxPath where
  tx : State
  napi : Chan

inductive TxPathAct
  /-- a step of `machine` that is neither a poll, a completion nor a suspend -/
  | tx (a : Act)
  /-- the device completes the message at place `i` -/
  | complete (i : Nat)
  /-- a step of `virtio_can_read_tx_queue` -/
  | read
  /-- any other step of the handler, the core or the poll function -/
  | napi (a : Chan.Act)
  deriving DecidableEq, Repr

def Act.outside : Act → Bool
  | .read | .complete _ | .freeze | .restore _ => false
  | .xmitCall _ | .xmitDrop | .xmitKzalloc _ | .xmit | .xmitAdd _ | .admin | .restart | .busOff => true

/-- The poll function is about to call `virtio_can_read_tx_queue`. -/
def PollPc.reads : PollPc → Bool
  | .loop quota workDone => workDone < quota
  | .idle | .busoff _ | .indicate _ | .prepare | .complete _ | .disable => false

/-- The poll function is in `virtio_can_read_tx_queue`, or about to call it. -/
def TxPath.reading (s : TxPath) : Bool := s.tx.read ≠ .idle || s.napi.poll.reads

def txPathStep (s : TxPath) : TxPathAct → Option TxPath
  | .tx a => if a.outside then (step s.tx a).map fun tx => { s with tx } else none
  | .complete i => (step s.tx (.complete i)).bind fun tx => (s.napi.step (.loop · 0) .post).map fun napi => ⟨tx, napi⟩
  | .read =>
    if s.reading then
      (step s.tx .read).bind fun tx =>
        -- `virtqueue_get_buf` is a step of both
        if s.tx.read = .get then s.napi.pollStep.map fun napi => ⟨tx, napi⟩ else some { s with tx }
    else none
  | .napi a =>
    if a = .post ∨ a = .poll ∧ s.reading = true then none
    else (s.napi.step (.loop · 0) a).map fun napi => { s with napi }

def txPathMachine : Machine TxPath TxPathAct where
  init s := machine.init s.tx ∧ s.napi = .enabled
  step := txPathStep

/-- One step, by the parts that take it. -/
inductive TxPathStep (s : TxPath) : TxPathAct → TxPath → Prop
  | tx {a tx} (ho : a.outside = true) (hs : machine.step s.tx a = some tx) : TxPathStep s (.tx a) { s with tx }
  | complete {i tx} (hs : machine.step s.tx (.complete i) = some tx) :
    TxPathStep s (.complete i) ⟨tx, { s.napi with used := s.napi.used + 1, look := true }⟩
  | get {tx napi} (hr : s.tx.read = .get) (hs : machine.step s.tx .read = some tx) (hp : s.napi.pollStep = some napi) :
    TxPathStep s .read ⟨tx, napi⟩
  | read {tx} (hr : s.reading = true) (hn : s.tx.read ≠ .get) (hs : machine.step s.tx .read = some tx) :
    TxPathStep s .read { s with tx }
  | napi {a napi} (ha : a ≠ .post) (hr : a = .poll → s.reading = false) (hs : s.napi.step (.loop · 0) a = some napi) :
    TxPathStep s (.napi a) { s with napi }

theorem txPathStep_cases {s s' : TxPath} {a : TxPathAct} (hs : txPathStep s a = some s') : TxPathStep s a s' := by
  cases a with
  | tx a =>
    simp only [txPathStep] at hs
    split at hs
    · next ho =>
      obtain ⟨tx, htx, rfl⟩ := Option.map_eq_some_iff.mp hs
      exact .tx ho htx
    · cases hs
  | complete i =>
    obtain ⟨tx, htx, hs⟩ := Option.bind_eq_some_iff.mp hs
    cases hs
    exact .complete htx
  | read =>
    simp only [txPathStep] at hs
    split at hs
    · next hr =>
      obtain ⟨tx, htx, hs⟩ := Option.bind_eq_some_iff.mp hs
      split at hs
      · next hg =>
        obtain ⟨napi, hn, rfl⟩ := Option.map_eq_some_iff.mp hs
        exact .get hg htx hn
      · next hg =>
        cases hs
        exact .read hr hg htx
    · cases hs
  | napi a =>
    simp only [txPathStep] at hs
    split at hs
    · cases hs
    · next hn =>
      obtain ⟨hp, hr⟩ := not_or.mp hn
      obtain ⟨napi, hn, rfl⟩ := Option.map_eq_some_iff.mp hs
      exact .napi hp (fun ha => Bool.eq_false_iff.mpr fun hrd => hr ⟨ha, hrd⟩) hn

/-! ## Its parts -/

/-- On one side a run of the path is a run of the bookkeeping. -/
theorem tx_run {s : TxPath} (h : txPathMachine.Reachable s) : machine.Reach NoSuspend s.tx := by
  refine h.project (N := machine) TxPath.tx (fun _ hinit => hinit.1) fun s a s' _ hstep => ?_
  cases txPathStep_cases hstep with
  | @tx a _ ho hs =>
    refine .inr ⟨a, fun ha => ?_, hs⟩
    rw [ha] at ho
    cases ho
  | complete hs => exact .inr ⟨.complete _, by simp [NoSuspend], hs⟩
  | get _ hs | read _ _ hs => exact .inr ⟨.read, by simp [NoSuspend], hs⟩
  | napi => exact .inl rfl

/-- A TX queue beside an RX queue on which nothing happens. -/
def beside (c : Chan) : NapiState := ⟨c, .enabled, false, .errorActive, .idle⟩

theorem beside_step {c c' : Chan} {a : Chan.Act} (hs : c.step (.loop · 0) a = some c') :
    ∃ b, True ∧ napiMachine.step (beside c) b = some (beside c') :=
  ⟨.tx a, trivial, by simp only [napiMachine, napiStep, beside, hs, Option.map_some]⟩

/-- On the other a run of NAPI. -/
theorem napi_run {s : TxPath} (h : txPathMachine.Reachable s) : napiMachine.Reachable (beside s.napi) := by
  refine h.project (N := napiMachine) (fun s => beside s.napi) (fun _ hinit => ⟨hinit.2, rfl, rfl⟩)
    fun s a s' _ hstep => ?_
  cases txPathStep_cases hstep with
  | tx | read => exact .inl rfl
  | complete => exact .inr (beside_step (a := .post) rfl)
  | get _ _ hp => exact .inr (beside_step (a := .poll) hp)
  | napi _ _ hs => exact .inr (beside_step hs)

/-- The used ring is the same on both sides, and the poll function is where
`virtio_can_read_tx_queue` is. -/
structure Coupled (s : TxPath) : Prop where
  used : s.napi.used = s.napi.lastUsed + s.tx.used.length
  loop : s.tx.read ≠ .idle → ∃ quota work, s.napi.poll = .loop quota work
  get : s.tx.read = .get → s.napi.poll.reads = true

theorem Step.outside {s s' : State} {a : Act} (hs : Step s a s') (ho : a.outside = true) :
    s'.used = s.used ∧ s'.read = s.read := by
  cases hs with
  | rdLock | rdNone | rdGet | rdEcho | rdUnlink | rdFreeBug | rdFree | rdTest | rdWake | complete | freeze | restore =>
    cases ho
  | @echo skb m =>
    obtain ⟨e, g, he⟩ := canPutEchoSkb_frame s skb m.putidx
    rw [he]
    exact ⟨rfl, rfl⟩
  | busOff =>
    unfold VirtioCan.busOff
    split <;> exact ⟨rfl, rfl⟩
  | _ => exact ⟨rfl, rfl⟩

/-- Where `virtio_can_read_tx_queue` takes no message. -/
theorem Step.reading {s s' : State} (hs : Step s .read s') (hn : s.read ≠ .get) :
    s'.used = s.used ∧ (s'.read = .get → s.read = .idle) := by
  cases hs with
  | rdLock hr => exact ⟨rfl, fun _ => hr⟩
  | rdNone hr | rdGet hr => exact absurd hr hn
  | @rdEcho m =>
    obtain ⟨e, g, he⟩ := takeEchoSkb_frame s m.putidx
    rw [he]
    exact ⟨rfl, fun h => by cases h⟩
  | rdUnlink | rdFree | rdWake => exact ⟨rfl, fun h => by cases h⟩
  | rdFreeBug hr => exact ⟨rfl, fun h => by cases hr.symm.trans h⟩
  | rdTest => exact ⟨rfl, fun h => by dsimp only at h; split at h <;> cases h⟩

namespace Chan

variable {c c' : Chan} {start : Nat → PollPc}

/-- Only the poll function moves in its loop. -/
theorem step_loop {a : Act} (hs : c.step start a = some c') {quota work : Nat} (hp : c.poll = .loop quota work)
    (ha : a ≠ .poll) : c'.poll = c.poll := by
  cases a with
  | post | spurious =>
    cases hs
    rfl
  | look | intr =>
    simp only [Chan.step] at hs
    split at hs <;> cases hs
    rfl
  | schedule =>
    simp only [Chan.step, Chan.napiSchedule] at hs
    split at hs
    · split at hs <;> cases hs <;> rfl
    · cases hs
  | begin quota =>
    simp only [Chan.step] at hs
    split at hs <;> cases hs
    next hb =>
    cases hp.symm.trans hb.2.1
  | poll => exact absurd rfl ha
  | tail t =>
    cases Chan.tailStep_cases hs with
    | _ => rfl

/-- In its loop the poll function calls `virtio_can_read_tx_queue` as long as the quota lasts. -/
theorem pollStep_reads (hs : c.pollStep = some c') (hr : c.poll.reads = true) :
    ∃ quota work, c.poll = .loop quota work ∧
      (c.lastUsed < c.used ∧ c' = { c with lastUsed := c.lastUsed + 1, poll := .loop quota (work + 1) } ∨
        c.used ≤ c.lastUsed ∧ c' = { c with poll := .prepare }) := by
  unfold PollPc.reads at hr
  split at hr
  · next quota work hp =>
    simp only [pollStep, hp, if_pos (of_decide_eq_true hr)] at hs
    refine ⟨quota, work, hp, ?_⟩
    split at hs
    · next hlt =>
      cases hs
      exact .inl ⟨hlt, rfl⟩
    · next hle =>
      cases hs
      exact .inr ⟨Nat.le_of_not_lt hle, rfl⟩
  all_goals cases hr

theorem pollStep_goes (hr : c.poll.reads = true) : c.pollStep ≠ none := by
  unfold PollPc.reads at hr
  split at hr
  · next hp =>
    simp only [pollStep, hp, if_pos (of_decide_eq_true hr)]
    split <;> simp
  all_goals cases hr

theorem pollStep_ring (hs : c.pollStep = some c') (hr : c.poll.reads = false) :
    c'.used = c.used ∧ c'.lastUsed = c.lastUsed := by
  unfold pollStep at hs
  split at hs
  · cases hs
  · cases hs
  · cases hs
  · next hp =>
    rw [hp] at hr
    rw [if_neg (of_decide_eq_false hr)] at hs
    cases hs
    exact ⟨rfl, rfl⟩
  · cases hs
    exact ⟨rfl, rfl⟩
  · unfold completeDone at hs
    cases hm : c.missed <;> simp only [hm, Bool.false_eq_true, ↓reduceIte, Option.some.injEq] at hs <;> subst hs <;>
      exact ⟨rfl, rfl⟩
  · cases hs
    exact ⟨rfl, rfl⟩

/-- The ring is left alone by all that is not the device or the loop. -/
theorem step_ring {a : Act} (hs : c.step start a = some c') (ha : a ≠ .post)
    (hr : a = .poll → c.poll.reads = false) : c'.used = c.used ∧ c'.lastUsed = c.lastUsed := by
  cases a with
  | post => exact absurd rfl ha
  | spurious =>
    cases hs
    exact ⟨rfl, rfl⟩
  | look | intr =>
    simp only [Chan.step] at hs
    split at hs <;> cases hs
    exact ⟨rfl, rfl⟩
  | schedule =>
    simp only [Chan.step, Chan.napiSchedule] at hs
    split at hs
    · split at hs <;> cases hs <;> exact ⟨rfl, rfl⟩
    · cases hs
  | begin quota =>
    simp only [Chan.step] at hs
    split at hs <;> cases hs
    exact ⟨rfl, rfl⟩
  | poll => exact pollStep_ring hs (hr rfl)
  | tail t =>
    cases Chan.tailStep_cases hs with
    | _ => exact ⟨rfl, rfl⟩

end Chan

theorem TxPath.reading_eq_false {s : TxPath} : s.reading = false ↔ s.tx.read = .idle ∧ s.napi.poll.reads = false := by
  simp only [TxPath.reading, Bool.or_eq_false_iff, decide_eq_false_iff_not, not_not]

theorem coupled_inductive : txPathMachine.Inductive (fun _ _ => True) Coupled where
  init s hs := by
    obtain ⟨⟨n, i, htx⟩, hnapi⟩ := hs
    constructor
    · rw [htx, hnapi]
      rfl
    · intro h
      rw [htx] at h
      exact absurd rfl h
    · intro h
      rw [htx] at h
      cases h
  step s a s' h _ hstep := by
    cases txPathStep_cases hstep with
    | tx ho hs =>
      obtain ⟨hu, hr⟩ := (step_cases hs).1.outside ho
      exact ⟨by rw [hu]; exact h.used, by rw [hr]; exact h.loop, by rw [hr]; exact h.get⟩
    | complete hs =>
      have hused := h.used
      cases (step_cases hs).1 with
      | complete =>
        refine ⟨?_, h.loop, h.get⟩
        simp only [List.length_append, List.length_singleton]
        omega
    | get hr hs hp =>
      obtain ⟨quota, work, hpoll, hcase⟩ := Chan.pollStep_reads hp (h.get hr)
      have hused := h.used
      cases (step_cases hs).1 with
      | rdNone _ hu =>
        rw [hu] at hused
        rcases hcase with hlt | hle
        · have := hlt.1
          simp only [List.length_nil] at hused
          omega
        · obtain ⟨-, rfl⟩ := hle
          exact ⟨by simp only [hu]; exact hused, fun hn => absurd rfl hn, fun hg => by cases hg⟩
      | rdGet _ hu =>
        rw [hu, List.length_cons] at hused
        rcases hcase with hlt | hle
        · obtain ⟨-, rfl⟩ := hlt
          refine ⟨?_, fun _ => ⟨_, _, rfl⟩, fun hg => by cases hg⟩
          dsimp only
          omega
        · have := hle.1
          omega
      | rdLock h' | rdEcho h' | rdUnlink h' | rdFreeBug h' | rdFree h' | rdTest h' | rdWake h' => cases hr.symm.trans h'
    | @read tx hr hn hs =>
      obtain ⟨hu, hg⟩ := (step_cases hs).1.reading hn
      -- the poll function does not leave its loop meanwhile
      have hloop : ∃ quota work, s.napi.poll = .loop quota work := by
        by_cases hi : s.tx.read = .idle
        · have hrd : s.napi.poll.reads = true := by simpa [TxPath.reading, hi] using hr
          unfold PollPc.reads at hrd
          split at hrd
          · exact ⟨_, _, ‹_›⟩
          all_goals cases hrd
        · exact h.loop hi
      refine ⟨by rw [hu]; exact h.used, fun _ => hloop, fun hg' => ?_⟩
      simpa [TxPath.reading, hg hg'] using hr
    | @napi a napi ha hr hs =>
      obtain ⟨hu, hl⟩ := Chan.step_ring hs ha fun hp => (TxPath.reading_eq_false.mp (hr hp)).2
      refine ⟨by rw [hu, hl]; exact h.used, fun hn => ?_, fun hg => ?_⟩
      · obtain ⟨quota, work, hp⟩ := h.loop hn
        refine ⟨quota, work, (Chan.step_loop hs hp fun ha => ?_).trans hp⟩
        exact hn (TxPath.reading_eq_false.mp (hr ha)).1
      · obtain ⟨quota, work, hp⟩ := h.loop fun hi => by cases hg.symm.trans hi
        have hgr := h.get hg
        rw [Chan.step_loop hs hp fun ha => ?_]
        · exact hgr
        · cases hg.symm.trans (TxPath.reading_eq_false.mp (hr ha)).1

/-! ## The rank -/

/-- What is ahead of the call; from `add` on a message may go to the device. -/
def XmitPc.rank : XmitPc → Nat
  | .idle => 0
  | .kick _ _ => 1
  | .stopBusy _ | .stopFail _ => 2
  | .add _ _ => 20
  | .lock2 _ _ => 21
  | .echo _ _ => 22
  | .link _ _ => 23
  | .alloc _ _ => 24
  | .lock1 _ _ => 25
  | .stopNormal _ _ => 26
  | .test2 _ _ => 27
  | .test1 _ _ => 28
  | .entry _ => 29

/-- What is ahead of the reader before it looks at the ring again. -/
def ReadPc.rank : ReadPc → Nat
  | .get => 0
  | .idle => 1
  | .wake => 2
  | .test => 3
  | .freeIdx _ => 4
  | .unlink _ => 5
  | .echo _ => 6

/-- A completion puts entries into the used ring, of which NAPI has much to
do: what is left to complete comes first. -/
def TxPath.rank (s : TxPath) : Nat ×ₗ Nat :=
  toLex (s.tx.xmit.rank + 12 * s.tx.avail.length, 8 * s.napi.rank + s.tx.read.rank)

/-- A step of a call of `virtio_can_start_xmit` under way. -/
def Act.ofCall : Act → Bool
  | .xmitDrop | .xmitKzalloc _ | .xmit | .xmitAdd _ => true
  | .xmitCall _ | .read | .complete _ | .admin | .restart | .busOff | .freeze | .restore _ => false

/-- No new frame comes, the interface stays as it is and no interrupt comes unasked. -/
def Winding : TxPathAct → Prop
  | .tx a => a.ofCall = true
  | .complete _ | .read => True
  | .napi a => a.internal 0 = true

instance (a : TxPathAct) : Decidable (Winding a) :=
  match a with
  | .tx a => inferInstanceAs (Decidable (a.ofCall = true))
  | .complete _ | .read => .isTrue trivial
  | .napi a => inferInstanceAs (Decidable (a.internal 0 = true))

theorem length_eraseIdx_succ {α : Type} {l : List α} {i : Nat} {a : α} (h : l[i]? = some a) :
    (l.eraseIdx i).length + 1 = l.length := by
  obtain ⟨hi, -⟩ := List.getElem?_eq_some_iff.mp h
  rw [List.length_eraseIdx_of_lt hi]
  omega

theorem Step.call_rank {s s' : State} {a : Act} (hs : Step s a s') (ha : a.ofCall = true) (hb : s'.bug = none) :
    s'.xmit.rank + 12 * s'.avail.length < s.xmit.rank + 12 * s.avail.length := by
  cases hs with
  | allocBug | echoBug | undoBug => cases hb
  | call | openStart | openQueue | closeStop | closeCtrl | closeFlush | restart | restartWake | busOff | freeze
  | restore | rdLock | rdNone | rdGet | rdEcho | rdUnlink | rdFreeBug | rdFree | rdTest | rdWake | complete => cases ha
  | drop hx | kzalloc hx | noMem hx | full1 hx | room1 hx | stopBusy hx | full2 hx | room2 hx | stopNormal hx
  | lock1 hx | link hx | lock2 hx | stopFail hx | kick hx | alloc hx | undo hx =>
    simp only [hx, XmitPc.rank]
    omega
  | @echo skb m hx =>
    obtain ⟨e, g, he⟩ := canPutEchoSkb_frame s skb m.putidx
    simp only [he, hx, XmitPc.rank]
    omega
  | add hx =>
    simp only [hx, XmitPc.rank, List.length_append, List.length_singleton]
    omega

theorem Step.read_rank {s s' : State} (hs : Step s .read s') (hb : s'.bug = none) :
    s'.xmit = s.xmit ∧ s'.avail = s.avail ∧ s'.read.rank ≤ 6 ∧ (s.read ≠ .get → s'.read.rank < s.read.rank) := by
  cases hs with
  | rdFreeBug => cases hb
  | rdLock hr | rdNone hr | rdGet hr | rdUnlink hr | rdFree hr | rdWake hr => simp [hr, ReadPc.rank]
  | @rdEcho m hr =>
    obtain ⟨e, g, he⟩ := takeEchoSkb_frame s m.putidx
    simp [he, hr, ReadPc.rank]
  | rdTest hr => cases hq : s.queueStopped <;> simp [hr, ReadPc.rank]

theorem winding_rank {s s' : TxPath} {a : TxPathAct} (hr : txPathMachine.Reachable s) (ha : Winding a)
    (hstep : txPathMachine.step s a = some s') : s'.rank < s.rank := by
  have hbug : s'.tx.bug = none := (reach_inv (tx_run (.step hr trivial hstep))).bug
  have hinv : s.napi.Inv := (napiInv_inductive.reach (napi_run hr)).1
  have hstart : ∀ quota, 0 < quota → ∀ used lastUsed, (PollPc.loop quota 0).rank used lastUsed ≤ 9 := by
    intro quota hq used lastUsed
    rw [PollPc.rank, if_pos hq]
    omega
  refine Prod.Lex.toLex_lt_toLex.mpr ?_
  cases txPathStep_cases hstep with
  | tx _ hs => exact .inl ((step_cases hs).1.call_rank ha hbug)
  | complete hs =>
    cases (step_cases hs).1 with
    | complete hm =>
      have := length_eraseIdx_succ hm
      exact .inl (by dsimp only; omega)
  | @get tx napi _ hs hp =>
    obtain ⟨hx, hav, hle, -⟩ := (step_cases hs).1.read_rank hbug
    have hle : tx.read.rank ≤ 6 := hle
    have hlt := Chan.pollStep_rank hinv hp
    exact .inr ⟨by rw [hx, hav], by dsimp only; omega⟩
  | @read tx _ hn hs =>
    obtain ⟨hx, hav, -, hlt⟩ := (step_cases hs).1.read_rank hbug
    have hlt : tx.read.rank < s.tx.read.rank := hlt hn
    exact .inr ⟨by rw [hx, hav], by dsimp only; omega⟩
  | @napi _ napi _ _ hs =>
    have hlt : napi.rank < s.napi.rank := Chan.step_rank hinv hstart ha hs
    exact .inr ⟨rfl, by dsimp only; omega⟩

/-! ## Where it ends -/

/-- Nothing is in flight and nobody is on the way. -/
structure Drained (s : State) : Prop where
  xmit : s.xmit = .idle
  read : s.read = .idle
  ring : s.ring = []
  linked : s.txList = []
  inFlight : s.txInflight = 0
  free : s.txPutidxFree.Perm (allIdx s.echoSkbMax)

/-- The reader has not the lock, or goes on. -/
theorem read_goes {s : State} (hi : Inv [] s) (hlock : s.txLock ≠ some .xmit) : readStep s ≠ none := by
  have hR := hi.lockR
  intro h
  unfold readStep at h
  split at h
  · next hr =>
    rw [hr] at hR
    split at h
    · cases h
    · next hl =>
      cases hh : s.txLock with
      | none => exact hl hh
      | some o =>
        cases o with
        | xmit => exact hlock hh
        | read => cases hR.mp hh
  · split at h <;> cases h
  · split at h <;> cases h
  · cases h
  · split at h <;> cases h
  · cases h
  · cases h

/-- A lock that is taken is given back, so nobody waits for ever. -/
theorem ends {s : State} (hi : Inv [] s) (hx : xmitStep s = none) (hkz : xmitKzalloc s true = none)
    (hadd : xmitAdd s true = none) (hrd : s.read ≠ .idle → readStep s = none) : s.xmit = .idle ∧ s.read = .idle := by
  have hlock : s.read ≠ .idle → s.txLock = some .xmit := fun hr =>
    Classical.byContradiction fun hl => read_goes hi hl (hrd hr)
  have hlockR : s.txLock ≠ some .read := fun hl => by
    have hr : s.read ≠ .idle := fun hr => by
      have := hi.lockR.mp hl
      rw [hr] at this
      cases this
    cases (hlock hr).symm.trans hl
  have hX := hi.lockX
  -- a call that waits for the lock would get it, for the reader has it not
  have hfree : s.xmit.locked = false → s.txLock = none := fun hn => by
    cases hh : s.txLock with
    | none => rfl
    | some o =>
      cases o with
      | xmit => cases (hX.mp hh).symm.trans hn
      | read => exact absurd hh hlockR
  have hidle : s.xmit = .idle := by
    unfold xmitStep at hx
    split at hx
    · next hp => exact hp
    · next hp => simp [xmitKzalloc, hp] at hkz
    · next hp => simp [xmitAdd, hp] at hadd
    · split at hx <;> cases hx
    · cases hx
    · split at hx <;> cases hx
    · cases hx
    · next hp =>
      rw [if_pos (hfree (by rw [hp]; rfl))] at hx
      cases hx
    · split at hx <;> cases hx
    · cases hx
    · split at hx <;> cases hx
    · next hp =>
      rw [if_pos (hfree (by rw [hp]; rfl))] at hx
      cases hx
    · cases hx
    · cases hx
  refine ⟨hidle, Classical.byContradiction fun hr => ?_⟩
  have := hX.mp (hlock hr)
  rw [hidle] at this
  cases this

theorem Inv.drained {s : State} (hi : Inv [] s) (hx : s.xmit = .idle) (hr : s.read = .idle) (hring : s.ring = []) :
    Drained s := by
  have hlist : s.txList = [] := by
    have := hi.ring
    rw [hring, hx, hr] at this
    exact this.eq_nil
  have hheld : s.held = [] := by
    rw [State.held, hx, hr]
    rfl
  have hcount := hi.count
  have hperm := hi.perm
  simp only [State.inFlight, hlist, hheld, List.map_nil, List.append_nil, List.length_nil] at hcount hperm
  exact ⟨hx, hr, hring, hlist, hcount, hperm⟩

theorem Step.suspended_eq {s s' : State} {a : Act} (hs : Step s a s') (hf : a ≠ .freeze) (hsus : s.suspended = false) :
    s'.suspended = false := by
  cases hs with
  | @echo skb m =>
    obtain ⟨e, g, he⟩ := canPutEchoSkb_frame s skb m.putidx
    rw [he]
    exact hsus
  | @rdEcho m =>
    obtain ⟨e, g, he⟩ := takeEchoSkb_frame s m.putidx
    rw [he]
    exact hsus
  | busOff =>
    unfold VirtioCan.busOff
    split <;> exact hsus
  | freeze => exact absurd rfl hf
  | restore _ h => cases hsus.symm.trans h
  | _ => exact hsus

theorem running_inductive : machine.Inductive NoSuspend fun s => s.suspended = false where
  init s hs := by
    obtain ⟨n, i, rfl⟩ := hs
    rfl
  step _ _ _ h ha hs := (step_cases hs).1.suspended_eq ha h

theorem path_rests {s : TxPath} (h : txPathMachine.Reachable s)
    (hstop : ∀ a s', Winding a → txPathMachine.step s a ≠ some s') : Drained s.tx ∧ s.napi.Rests := by
  have hi := reach_inv (tx_run h)
  have hsus := running_inductive.reach (tx_run h)
  have hc := coupled_inductive.reach h
  have none_of : ∀ a, Winding a → txPathStep s a = none := fun a ha =>
    Option.eq_none_iff_forall_ne_some.mpr fun s' => hstop a s' ha
  have call : ∀ {a f}, step s.tx a = f → a.ofCall = true → a.outside = true → f = none := fun {a f} hf ha ho => by
    have h := none_of (.tx a) ha
    simpa [txPathStep, ho, hf] using h
  have havail : s.tx.avail = [] := by
    have h := none_of (.complete 0) trivial
    rcases hav : s.tx.avail with _ | ⟨m, rest⟩
    · rfl
    · simp [txPathStep, step, hi.bug, hsus, complete, hav, Chan.step] at h
  have hread : s.reading = true → readStep s.tx = none := fun hr => by
    have h := none_of .read trivial
    cases hs : readStep s.tx with
    | none => rfl
    | some tx =>
      by_cases hg : s.tx.read = .get
      · have hp : s.napi.pollStep = none := by simpa [txPathStep, step, hi.bug, hsus, hr, hs, hg] using h
        exact absurd hp (Chan.pollStep_goes (hc.get hg))
      · simp [txPathStep, step, hi.bug, hsus, hr, hs, hg] at h
  obtain ⟨hx, hr⟩ := ends hi (call (a := .xmit) (by simp [step, hi.bug, hsus]) rfl rfl)
    (call (a := .xmitKzalloc true) (by simp [step, hi.bug, hsus]) rfl rfl)
    (call (a := .xmitAdd true) (by simp [step, hi.bug, hsus]) rfl rfl)
    fun hr => hread (by simp [TxPath.reading, hr])
  have hlockX : s.tx.txLock ≠ some .xmit := fun hl => by
    have := hi.lockX.mp hl
    rw [hx] at this
    cases this
  have hnotReading : s.reading = false := Bool.eq_false_iff.mpr fun hr => read_goes hi hlockX (hread hr)
  have hrests : s.napi.Rests := by
    refine Chan.rests (napiInv_inductive.reach (napi_run h)).1 (.loop · 0) 0 (fun a ha => ?_) fun quota => ?_
    · have hn := none_of (.napi a) ha
      cases a with
      | post => cases ha
      | _ => simpa [txPathStep, hnotReading] using hn
    · have hplain : s.napi.poll.plain = true := plain_inductive.reach (napi_run h)
      refine ⟨fun hp => ?_, fun hp => ?_⟩
      · rw [hp] at hplain
        cases hplain
      · rw [hp] at hplain
        cases hplain
  refine ⟨hi.drained hx hr ?_, hrests⟩
  have := hc.used
  have := hrests.taken
  rw [State.ring, havail, List.eq_nil_of_length_eq_zero (l := s.tx.used) (by omega), List.append_nil]

/-! ## Every schedule -/

/-- No call is under way, and if the queue is stopped a completion is to come. -/
def State.willRun (s : State) : Prop := s.isOpen ∧ s.xmit = .idle ∧ FlowInv s

theorem State.willRun.step {s s' : State} {a : Act} (h : s.willRun) (hs : Step s a s')
    (ha : a.ofCall = true ∨ a = .read ∨ ∃ i, a = .complete i) : s'.willRun := by
  obtain ⟨ho, hx, hf⟩ := h
  have hback : StopsBacked s a := fun _ hst => by
    rw [hx] at hst
    cases hst
  suffices s'.isOpen ∧ s'.xmit = .idle from ⟨this.1, this.2, hf.step hs hback⟩
  cases hs with
  | call | openStart | openQueue | closeStop | closeCtrl | closeFlush | restart | restartWake | busOff | freeze
  | restore => simp [Act.ofCall] at ha
  | rdLock | rdNone | rdGet | rdUnlink | rdFreeBug | rdFree | rdTest | rdWake | complete => exact ⟨ho, hx⟩
  | @rdEcho m =>
    obtain ⟨e, g, he⟩ := takeEchoSkb_frame s m.putidx
    rw [he]
    exact ⟨ho, hx⟩
  | drop h | kzalloc h | noMem h | full1 h | room1 h | stopBusy h | full2 h | room2 h | stopNormal h | lock1 h
  | allocBug h | alloc h | link h | echoBug h | echo h | lock2 h | stopFail h | kick h | add h | undoBug h | undo h =>
    cases hx.symm.trans h

theorem willRun_winding {s s' : TxPath} {a : TxPathAct} (h : s.tx.willRun) (ha : Winding a)
    (hstep : txPathMachine.step s a = some s') : s'.tx.willRun := by
  cases txPathStep_cases hstep with
  | tx _ hs => exact h.step (step_cases hs).1 (.inl ha)
  | complete hs => exact h.step (step_cases hs).1 (.inr (.inr ⟨_, rfl⟩))
  | get _ hs | read _ _ hs => exact h.step (step_cases hs).1 (.inr (.inl rfl))
  | napi => exact h

/-- **The transmit queue drains.** From every state of every run without a
suspend, once no new frame is handed down, the call under way, the device,
the interrupt handler and the poll function end in whatever order they run:
nothing is in flight then, every index is free and NAPI is at rest. If no call
was under way and the queue of the open interface ran, or was stopped with a
completion to come, it runs. -/
theorem tx_drains {s : TxPath} (h : txPathMachine.Reachable s) : txPathMachine.Settles (fun _ a => Winding a)
    (fun t => Drained t.tx ∧ t.napi.Rests ∧ (s.tx.willRun → t.tx.queueStopped = false)) s := by
  refine Machine.settles_of_rank (P := fun t => txPathMachine.Reachable t ∧ (s.tx.willRun → t.tx.willRun)) TxPath.rank
    (fun t a t' hp ha hs => ?_) (fun t hp hstop => ?_) ⟨h, id⟩
  · exact ⟨⟨.step hp.1 trivial hs, fun hw => willRun_winding (hp.2 hw) ha hs⟩, winding_rank hp.1 ha hs⟩
  · obtain ⟨hd, hr⟩ := path_rests hp.1 hstop
    refine ⟨hd, hr, fun hw => ?_⟩
    obtain ⟨ho, -, hf⟩ := hp.2 hw
    -- a stopped queue would have a completion to come
    cases hq : t.tx.queueStopped
    · rfl
    · rcases hf ho hq with hring | hwake
      · exact absurd hd.ring hring
      · rw [hd.read] at hwake
        cases hwake

/-- A frame fills the ring of one, a second stops the queue behind it; the
first completes and its interrupt is raised. -/
def stoppedFull : List TxPathAct :=
  (openAndSend 7).map .tx ++
    [.tx (.xmitCall 8), .tx (.xmitKzalloc true), .tx .xmit, .tx .xmit, .tx .xmit, .complete 0, .napi .look]

theorem tx_drains_stoppedFull : ∃ s : TxPath, s.tx.queueStopped = true ∧ s.tx.txInflight = 1 ∧ s.tx.willRun ∧
    txPathMachine.Settles (fun _ a => Winding a)
      (fun t => Drained t.tx ∧ t.napi.Rests ∧ (s.tx.willRun → t.tx.queueStopped = false)) s := by
  obtain ⟨s, hs, ho, hx, hq, hn, hb⟩ := Machine.exists_reach (fun _ _ => True)
    (show txPathMachine.init ⟨probe 1 true, .enabled⟩ from ⟨probe_init 1 true, rfl⟩) stoppedFull
    (fun s => s.tx.isOpen ∧ s.tx.xmit = .idle ∧ s.tx.queueStopped = true ∧ s.tx.txInflight = 1 ∧ s.tx.backed)
    (by decide +kernel)
  exact ⟨s, hq, hn, ⟨ho, hx, fun _ _ => hb⟩, tx_drains hs⟩

end Agl.VirtioCan
