/-
Deleting the virtqueues (`virtio_can_del_vq`) with NAPI about.

`virtio_can_freeze` disables both NAPI instances first; `virtio_can_remove`
does not, and leaves them to `free_candev`. The device is silent once it is
reset and no handler runs once its interrupt is freed, but a poll function
already under way goes on. So what matters is where NAPI is when the
virtqueues go (`Harmless`): for the removal, nothing scheduled, running or on
its way out; for the suspend, no poll function that has still to call
`virtqueue_poll`, which `napi_disable` does not wait for (`delVq_safe_iff`).

Left out: the messages on `tx_list`, which `virtio_can_del_vq` frees without
`tx_lock`.
-/
import Agl.Lib.Exposed
import Agl.Can.Napi

namespace Agl.VirtioCan

/-! ## Who touches a virtqueue -/

/-- The next step of the poll function uses the virtqueue. -/
def PollPc.touchesVq : PollPc → Bool
  | .loop quota workDone => workDone < quota
  | .prepare | .disable => true
  | .idle | .busoff _ | .indicate _ | .complete _ => false

/-- The next step of the remainder does. -/
def Tail.touchesVq : Tail → Bool
  | .check _ | .disable => true
  | .prep | .schedule => false

namespace Chan

def Act.touchesVq (c : Chan) : Act → Bool
  | .poll => c.poll.touchesVq
  | .tail t => t.touchesVq
  | .intr => true
  | .post | .look | .spurious | .schedule | .begin _ => false

end Chan

def NapiAct.touchesVq (s : NapiState) : NapiAct → Bool
  | .tx a => a.touchesVq s.tx
  | .rx a => a.touchesVq s.rx
  | .evind => true
  | .busoff _ _ | .start | .stop => false

/-! ## The machine -/

/-- The driver while it is taken down. -/
structure Teardown where
  napi : NapiState
  /-- `napi_disable` has returned -/
  rxOff : Bool
  txOff : Bool
  /-- `vdev->config->reset` has returned -/
  reset : Bool
  /-- the virtqueues exist -/
  vqs : Bool
  /-- the net device exists, and the NAPI instances in it -/
  candev : Bool
  deriving DecidableEq, Repr

/-- Who takes a step. -/
inductive Party
  | device | handler | softirq | netdev
  deriving DecidableEq, Repr

def Chan.Act.party : Chan.Act → Party
  | .post | .look | .spurious => .device
  | .intr | .schedule => .handler
  | .begin _ | .poll | .tail _ => .softirq

def NapiAct.party : NapiAct → Party
  | .tx a | .rx a => a.party
  | .busoff _ _ => .softirq
  | .evind => .handler
  | .start | .stop => .netdev

/-- The reset silences the device and comes after the interface is down; the
handlers go with the virtqueues; nothing stops the softirqs. -/
def Teardown.lets (s : Teardown) : Party → Bool
  | .device | .netdev => !s.reset
  | .handler => s.vqs
  | .softirq => true

inductive TeardownAct
  | napi (a : NapiAct)
  /-- `napi_disable(&priv->napi)`, in `virtio_can_freeze` -/
  | disableRx
  /-- `napi_disable(&priv->napi_tx)`, in `virtio_can_freeze` -/
  | disableTx
  | reset
  /-- `vdev->config->del_vqs`; freeing an interrupt waits for its handler -/
  | delVqs
  /-- `virtio_can_free_candev`, in `virtio_can_remove` -/
  | freeCandev
  deriving DecidableEq, Repr

/-- `napi_disable` waits until the instance is not scheduled, and keeps it. -/
def Chan.napiDisable (c : Chan) : Option Chan := if c.sched then none else some { c with sched := true }

/-- One step, of the removal or of the suspend. -/
def teardownStep (remove : Bool) (s : Teardown) : TeardownAct → Option Teardown
  | .napi a => if s.lets a.party then (napiStep s.napi a).map fun n => { s with napi := n } else none
  | .disableRx =>
    if remove = false ∧ s.rxOff = false then
      s.napi.rx.napiDisable.map fun c => { s with napi := { s.napi with rx := c }, rxOff := true }
    else none
  | .disableTx =>
    if s.rxOff ∧ s.txOff = false then
      s.napi.tx.napiDisable.map fun c => { s with napi := { s.napi with tx := c }, txOff := true }
    else none
  | .reset => if s.reset = false ∧ (remove ∨ s.txOff) then some { s with reset := true } else none
  | .delVqs =>
    if s.reset ∧ s.vqs ∧ s.napi.tx.intr = 0 ∧ s.napi.rx.intr = 0 ∧ s.napi.evind = .idle then
      some { s with vqs := false }
    else none
  | .freeCandev => if remove ∧ s.vqs = false then some { s with candev := false } else none

/-- From the state `virtio_can_probe` leaves. -/
def teardownMachine (remove : Bool) : Machine Teardown TeardownAct where
  init s := napiMachine.init s.napi ∧ s.rxOff = false ∧ s.txOff = false ∧ s.reset = false ∧ s.vqs = true ∧
    s.candev = true
  step := teardownStep remove

/-- The step uses what is gone. -/
def Teardown.Faults (s : Teardown) : TeardownAct → Prop
  | .napi a => s.candev = false ∨ (s.vqs = false ∧ a.touchesVq s.napi = true)
  | _ => False

/-- Some continuation uses what is gone. -/
abbrev Teardown.Doomed (remove : Bool) (s : Teardown) : Prop :=
  (teardownMachine remove).Exposed (fun _ => True) Teardown.Faults s

/-- The queue's NAPI instance does not mind losing the virtqueue. -/
def Chan.Harmless (remove : Bool) (c : Chan) : Prop :=
  if remove then c.listed = false ∧ c.poll = .idle ∧ c.tails = [] else ∀ t ∈ c.tails, t.touchesVq = false

/-! ## Who holds an instance -/

/-- As in `Chan.Inv`, with `napi_disable` for a holder. -/
structure Held (off : Bool) (c : Chan) : Prop where
  owner : c.owners + off.toNat = c.sched.toNat
  again : c.poll = .disable → c.listed = true

namespace Held

variable {off : Bool} {c c' : Chan}

theorem sched_le (c : Chan) : c.sched.toNat ≤ 1 := Bool.toNat_le c.sched

theorem countP_owns_cons (t : Tail) (l : List Tail) :
    (t :: l).countP Tail.owns = l.countP Tail.owns + t.owns.toNat := by
  rw [List.countP_cons]
  cases t.owns <;> rfl

theorem napiSchedule (h : Held off c) (intr : Nat) : Held off (Chan.napiSchedule { c with intr }) := by
  have hown := h.owner
  unfold Chan.napiSchedule
  split
  · exact { h with }
  · next hs =>
    have hs : c.sched = false := by simpa using hs
    simp only [Chan.owners, hs, Bool.toNat_false] at hown
    exact {
      owner := by simp only [Chan.owners, Bool.toNat_true]; omega
      again := fun _ => rfl }

theorem pollStep (h : Held off c) (hs : c.pollStep = some c') : Held off c' := by
  have hown := h.owner
  have hle := sched_le c
  cases Chan.pollStep_cases hs with
  | take hp | empty hp | prepare hp =>
    simp only [Chan.owners, hp, PollPc.owns] at hown
    exact { owner := hown, again := fun hp => by cases hp }
  | quotaUsed hp | again hp =>
    simp only [Chan.owners, hp, PollPc.owns, Bool.toNat_true] at hown
    exact {
      owner := by simp only [Chan.owners, PollPc.owns, Bool.toNat_true, Bool.toNat_false]; omega
      again := fun _ => rfl }
  | givenUp hp =>
    simp only [Chan.owners, hp, PollPc.owns, Bool.toNat_true] at hown
    exact {
      owner := by
        simp only [Chan.owners, countP_owns_cons, PollPc.owns, Tail.owns, Bool.toNat_false]
        omega
      again := fun hp => by cases hp }
  | disable hp =>
    simp only [Chan.owners, hp, PollPc.owns] at hown
    exact { owner := hown, again := fun hp => by cases hp }

theorem tailStep (h : Held off c) {t : Tail} (hs : c.tailStep t = some c') : Held off c' := by
  have hown := h.owner
  have hle := sched_le c
  cases Chan.tailStep_cases hs with
  | found ht | done ht | prepMissed ht =>
    simp only [Chan.owners, Chan.Inv.owns_erase ht, Tail.owns, Bool.toNat_false] at hown
    exact { h with
      owner := by
        simp only [Chan.owners, countP_owns_cons, Tail.owns, Bool.toNat_false]
        omega }
  | prep ht hsched =>
    simp only [Chan.owners, Chan.Inv.owns_erase ht, hsched, Tail.owns, Bool.toNat_false] at hown
    exact { h with
      owner := by
        simp only [Chan.owners, countP_owns_cons, Tail.owns, Bool.toNat_true]
        omega }
  | disable ht =>
    simp only [Chan.owners, Chan.Inv.owns_erase ht, Tail.owns, Bool.toNat_true] at hown
    exact { h with
      owner := by
        simp only [Chan.owners, countP_owns_cons, Tail.owns, Bool.toNat_true]
        omega }
  | schedule ht =>
    simp only [Chan.owners, Chan.Inv.owns_erase ht, Tail.owns, Bool.toNat_true] at hown
    exact {
      owner := by
        simp only [Chan.owners, Bool.toNat_true]
        omega
      again := fun _ => rfl }

/-- No step changes who holds the instance behind its back. -/
theorem step (h : Held off c) {start : Nat → PollPc} (hstart : ∀ quota, (start quota).owns = true) {a : Chan.Act}
    (hs : c.step start a = some c') : Held off c' := by
  cases a with
  | post | spurious =>
    cases hs
    exact { h with }
  | look | intr =>
    simp only [Chan.step] at hs
    split at hs <;> cases hs
    exact { h with }
  | schedule =>
    simp only [Chan.step] at hs
    split at hs <;> cases hs
    exact h.napiSchedule _
  | begin quota =>
    simp only [Chan.step] at hs
    split at hs <;> cases hs
    next hb =>
    have hown := h.owner
    simp only [Chan.owners, hb.1, hb.2.1, PollPc.owns, Bool.toNat_true, Bool.toNat_false] at hown
    exact {
      owner := by simp only [Chan.owners, hstart, Bool.toNat_true, Bool.toNat_false]; omega
      again := fun (hp : start quota = .disable) => by
        have := hstart quota
        rw [hp] at this
        cases this }
  | poll => exact h.pollStep hs
  | tail t => exact h.tailStep hs

/-- `napi_disable` takes an instance nobody holds. -/
theorem napiDisable (h : Held false c) (hs : c.napiDisable = some c') : Held true c' := by
  unfold Chan.napiDisable at hs
  split at hs <;> cases hs
  next hsched =>
  have hown := h.owner
  have hsched : c.sched = false := by simpa using hsched
  exact { h with
    owner := by
      simp only [Chan.owners, hsched, Bool.toNat_true, Bool.toNat_false] at hown ⊢
      omega }

/-- `virtio_can_handle_busoff` moves the running poll function on. -/
theorem setPoll (h : Held off c) {p : PollPc} (hp : c.poll.owns = true) (hpo : p.owns = true) :
    Held off { c with poll := p } where
  owner := by
    have hown := h.owner
    simp only [Chan.owners, hp, hpo] at hown ⊢
    exact hown
  again := fun (hd : p = .disable) => by
    rw [hd] at hpo
    cases hpo

end Held

/-! ## Every run -/

structure TeardownInv (remove : Bool) (s : Teardown) : Prop where
  tx : Held s.txOff s.napi.tx
  rx : Held s.rxOff s.napi.rx
  plain : s.napi.tx.poll.plain = true
  /-- the removal disables nothing -/
  keeps : remove = true → s.rxOff = false ∧ s.txOff = false
  order : s.txOff = true → s.rxOff = true
  /-- the suspend disables both before the reset -/
  disabled : s.reset = true → remove = true ∨ s.txOff = true
  /-- and keeps the net device -/
  candev : remove = false → s.candev = true

theorem TeardownInv.napi {remove : Bool} {s : Teardown} (h : TeardownInv remove s) {a : NapiAct} {n : NapiState}
    (hs : napiStep s.napi a = some n) : TeardownInv remove { s with napi := n } := by
  cases a with
  | tx a =>
    obtain ⟨c, hc, rfl⟩ := Option.map_eq_some_iff.mp hs
    exact { h with tx := h.tx.step (fun _ => rfl) hc, plain := Chan.step_plain h.plain hc }
  | rx a =>
    obtain ⟨c, hc, rfl⟩ := Option.map_eq_some_iff.mp hs
    exact { h with rx := h.rx.step (fun _ => rfl) hc }
  | busoff skb taken =>
    simp only [napiStep, handleBusoff] at hs
    split at hs
    · next hp =>
      have hpo : s.napi.rx.poll.owns = true := by rw [hp]; rfl
      split at hs <;> cases hs <;> exact { h with rx := h.rx.setPoll hpo rfl }
    · next hp =>
      have hpo : s.napi.rx.poll.owns = true := by rw [hp]; rfl
      split at hs <;> split at hs <;> cases hs <;> exact { h with rx := h.rx.setPoll hpo rfl }
    · cases hs
  | evind =>
    simp only [napiStep, Option.some.injEq] at hs
    subst hs
    unfold evindStep
    split
    · exact { h with }
    · split <;> exact { h with }
    · exact { h with }
    · exact { h with rx := h.rx.napiSchedule s.napi.rx.intr }
  | start | stop =>
    cases hs
    exact { h with }

theorem teardownInv_inductive (remove : Bool) :
    (teardownMachine remove).Inductive (fun _ _ => True) (TeardownInv remove) where
  init s hs := by
    obtain ⟨n, ro, xo, re, v, cd⟩ := s
    obtain ⟨⟨htx, hrx, -⟩, hro, hxo, hre, -, hcd⟩ := hs
    dsimp only at htx hrx hro hxo hre hcd
    subst hro hxo hre hcd
    refine ⟨?_, ?_, ?_, fun _ => ⟨rfl, rfl⟩, fun h => h, fun h => (by cases h), fun _ => rfl⟩
    · rw [htx]
      exact ⟨rfl, fun hp => by cases hp⟩
    · rw [hrx]
      exact ⟨rfl, fun hp => by cases hp⟩
    · rw [htx]
      rfl
  step s a s' h _ hs := by
    cases a with
    | napi a =>
      simp only [teardownMachine, teardownStep] at hs
      split at hs
      · obtain ⟨n, hn, rfl⟩ := Option.map_eq_some_iff.mp hs
        exact h.napi hn
      · cases hs
    | disableRx =>
      simp only [teardownMachine, teardownStep] at hs
      split at hs
      · next hg =>
        obtain ⟨c, hc, rfl⟩ := Option.map_eq_some_iff.mp hs
        have hrx := h.rx
        rw [hg.2] at hrx
        exact { h with
          rx := hrx.napiDisable hc
          keeps := fun hr => by cases hg.1.symm.trans hr
          order := fun _ => rfl }
      · cases hs
    | disableTx =>
      simp only [teardownMachine, teardownStep] at hs
      split at hs
      · next hg =>
        obtain ⟨c, hc, rfl⟩ := Option.map_eq_some_iff.mp hs
        have htx := h.tx
        rw [hg.2] at htx
        have hp : c.poll = s.napi.tx.poll := by
          unfold Chan.napiDisable at hc
          split at hc <;> cases hc
          rfl
        exact { h with
          tx := htx.napiDisable hc
          plain := by
            show c.poll.plain = true
            rw [hp]
            exact h.plain
          keeps := fun hr => by cases hg.1.symm.trans (h.keeps hr).1
          order := fun _ => hg.1
          disabled := fun _ => .inr rfl }
      · cases hs
    | reset =>
      simp only [teardownMachine, teardownStep] at hs
      split at hs <;> cases hs
      next hg => exact { h with disabled := fun _ => hg.2 }
    | delVqs =>
      simp only [teardownMachine, teardownStep] at hs
      split at hs <;> cases hs
      exact { h with }
    | freeCandev =>
      simp only [teardownMachine, teardownStep] at hs
      split at hs <;> cases hs
      next hg => exact { h with candev := fun hr => by cases hg.1.symm.trans hr }

/-! ## Nothing left to touch -/

/-- The virtqueues are gone, and so is everybody who would use them. -/
structure Calm (remove : Bool) (s : Teardown) : Prop where
  vqs : s.vqs = false
  reset : s.reset = true
  candev : remove = false → s.candev = true
  listed : s.napi.tx.listed = false ∧ s.napi.rx.listed = false
  poll : s.napi.tx.poll = .idle ∧ s.napi.rx.poll = .idle
  /-- who is on the way out stops at `napi_schedule_prep` -/
  tails : ∀ c ∈ [s.napi.tx, s.napi.rx], ∀ t ∈ c.tails, t = .prep ∧ c.sched = true ∧ remove = false

/-- Of an idle queue only a remainder can take a step. -/
theorem Chan.idle_step {c c' : Chan} (hl : c.listed = false) (hp : c.poll = .idle) {start : Nat → PollPc} {a : Act}
    (ha : a.party = .softirq) (hs : c.step start a = some c') : ∃ t, a = .tail t ∧ t ∈ c.tails := by
  cases a with
  | post | look | spurious | intr | schedule => cases ha
  | begin quota =>
    simp only [Chan.step, hl] at hs
    split at hs
    · next hb => cases hb.1
    · cases hs
  | poll =>
    simp only [Chan.step, Chan.pollStep, hp] at hs
    cases hs
  | tail t =>
    refine ⟨t, rfl, ?_⟩
    simp only [Chan.step, Chan.tailStep] at hs
    split at hs
    · next ht => exact ht
    · cases hs

/-- A remainder that finds the instance taken leaves it at that. -/
theorem Chan.prep_step {c c' : Chan} (hsched : c.sched = true) {start : Nat → PollPc}
    (hs : c.step start (.tail .prep) = some c') : c' = { c with missed := true, tails := c.tails.erase .prep } := by
  cases Chan.tailStep_cases hs with
  | prep ht hfree => cases hsched.symm.trans hfree
  | prepMissed ht => rfl

namespace Calm

variable {remove : Bool} {s s' : Teardown}

theorem tx_tails (h : Calm remove s) : ∀ t ∈ s.napi.tx.tails, t = .prep ∧ s.napi.tx.sched = true ∧ remove = false :=
  h.tails _ (by simp)

theorem rx_tails (h : Calm remove s) : ∀ t ∈ s.napi.rx.tails, t = .prep ∧ s.napi.rx.sched = true ∧ remove = false :=
  h.tails _ (by simp)

/-- All that is left is a remainder of the suspend's poll functions. -/
theorem napi_act (h : Calm remove s) {a : NapiAct} {n : NapiState} (hl : s.lets a.party = true)
    (hs : napiStep s.napi a = some n) : (a = .tx (.tail .prep) ∨ a = .rx (.tail .prep)) ∧ remove = false := by
  have hparty : a.party = .softirq := by
    cases hp : a.party with
    | softirq => rfl
    | device | netdev | handler => simp [hp, Teardown.lets, h.reset, h.vqs] at hl
  cases a with
  | tx a =>
    obtain ⟨c, hc, -⟩ := Option.map_eq_some_iff.mp hs
    obtain ⟨t, rfl, ht⟩ := Chan.idle_step h.listed.1 h.poll.1 hparty hc
    obtain ⟨rfl, -, hr⟩ := h.tx_tails t ht
    exact ⟨.inl rfl, hr⟩
  | rx a =>
    obtain ⟨c, hc, -⟩ := Option.map_eq_some_iff.mp hs
    obtain ⟨t, rfl, ht⟩ := Chan.idle_step h.listed.2 h.poll.2 hparty hc
    obtain ⟨rfl, -, hr⟩ := h.rx_tails t ht
    exact ⟨.inr rfl, hr⟩
  | busoff skb taken =>
    simp only [napiStep, handleBusoff, h.poll.2] at hs
    cases hs
  | evind | start | stop => cases hparty

theorem safe (h : Calm remove s) {a : TeardownAct} (hs : (teardownMachine remove).step s a = some s') :
    ¬ s.Faults a := by
  intro hf
  cases a with
  | napi a =>
    simp only [teardownMachine, teardownStep] at hs
    split at hs
    · next hl =>
      obtain ⟨n, hn, -⟩ := Option.map_eq_some_iff.mp hs
      obtain ⟨ha, hr⟩ := h.napi_act hl hn
      rcases hf with hc | ⟨-, ht⟩
      · cases (h.candev hr).symm.trans hc
      · obtain rfl | rfl := ha <;> cases ht
    · cases hs
  | disableRx | disableTx | reset | delVqs | freeCandev => exact hf

theorem keep (h : Calm remove s) (hi : TeardownInv remove s) {a : TeardownAct}
    (hs : (teardownMachine remove).step s a = some s') : Calm remove s' := by
  cases a with
  | napi a =>
    simp only [teardownMachine, teardownStep] at hs
    split at hs
    · next hl =>
      obtain ⟨n, hn, rfl⟩ := Option.map_eq_some_iff.mp hs
      obtain ⟨ha, hr⟩ := h.napi_act hl hn
      obtain rfl | rfl := ha
      · obtain ⟨c, hc, rfl⟩ := Option.map_eq_some_iff.mp hn
        have ht : Tail.prep ∈ s.napi.tx.tails := by
          obtain ⟨t, he, ht⟩ := Chan.idle_step h.listed.1 h.poll.1 rfl hc
          cases he
          exact ht
        obtain rfl := Chan.prep_step (h.tx_tails _ ht).2.1 hc
        exact { h with
          tails := by
            simp only [List.forall_mem_cons, List.not_mem_nil, false_imp_iff, implies_true, and_true]
            exact ⟨fun t ht => h.tx_tails t (List.mem_of_mem_erase ht), h.rx_tails⟩ }
      · obtain ⟨c, hc, rfl⟩ := Option.map_eq_some_iff.mp hn
        have ht : Tail.prep ∈ s.napi.rx.tails := by
          obtain ⟨t, he, ht⟩ := Chan.idle_step h.listed.2 h.poll.2 rfl hc
          cases he
          exact ht
        obtain rfl := Chan.prep_step (h.rx_tails _ ht).2.1 hc
        exact { h with
          tails := by
            simp only [List.forall_mem_cons, List.not_mem_nil, false_imp_iff, implies_true, and_true]
            exact ⟨h.tx_tails, fun t ht => h.rx_tails t (List.mem_of_mem_erase ht)⟩ }
    · cases hs
  | disableRx =>
    simp only [teardownMachine, teardownStep] at hs
    split at hs
    · next hg =>
      rcases hi.disabled h.reset with hr | hx
      · cases hg.1.symm.trans hr
      · cases hg.2.symm.trans (hi.order hx)
    · cases hs
  | disableTx =>
    simp only [teardownMachine, teardownStep] at hs
    split at hs
    · next hg =>
      rcases hi.disabled h.reset with hr | hx
      · cases (hi.keeps hr).1.symm.trans hg.1
      · cases hg.2.symm.trans hx
    · cases hs
  | reset =>
    simp only [teardownMachine, teardownStep, h.reset] at hs
    split at hs
    · next hg => cases hg.1
    · cases hs
  | delVqs =>
    simp only [teardownMachine, teardownStep, h.vqs] at hs
    split at hs
    · next hg => cases hg.2.1
    · cases hs
  | freeCandev =>
    simp only [teardownMachine, teardownStep] at hs
    split at hs <;> cases hs
    next hg => exact { h with candev := fun hr => by cases hg.1.symm.trans hr }

end Calm

/-! ## Somebody left -/

/-- The two queues with NAPI. -/
inductive Side
  | tx | rx
  deriving DecidableEq, Repr

def Side.act : Side → Chan.Act → NapiAct
  | .tx => .tx
  | .rx => .rx

def Side.start : Side → Nat → PollPc
  | .tx => (.loop · 0)
  | .rx => .busoff

def NapiState.chan (s : NapiState) : Side → Chan
  | .tx => s.tx
  | .rx => s.rx

def NapiState.setChan (s : NapiState) (c : Chan) : Side → NapiState
  | .tx => { s with tx := c }
  | .rx => { s with rx := c }

theorem NapiState.chan_setChan (s : NapiState) (c : Chan) (q : Side) : (s.setChan c q).chan q = c := by
  cases q <;> rfl

theorem Side.napiStep {s : NapiState} {q : Side} {a : Chan.Act} {c : Chan} (hs : (s.chan q).step q.start a = some c) :
    VirtioCan.napiStep s (q.act a) = some (s.setChan c q) := by
  cases q <;> exact Option.map_eq_some_iff.mpr ⟨c, hs, rfl⟩

theorem Side.party_act (q : Side) (a : Chan.Act) : (q.act a).party = a.party := by cases q <;> rfl

theorem Side.touchesVq_act (q : Side) (a : Chan.Act) (s : NapiState) :
    (q.act a).touchesVq s = a.touchesVq (s.chan q) := by
  cases q <;> rfl

namespace Teardown

variable {remove : Bool} {s : Teardown} {q : Side}

/-- A softirq takes its step whatever has been taken down. -/
theorem softirq_step {a : NapiAct} {n : NapiState} (ha : a.party = .softirq) (hs : napiStep s.napi a = some n) :
    (teardownMachine remove).step s (.napi a) = some { s with napi := n } := by
  simp only [teardownMachine, teardownStep, ha, lets, if_true, hs, Option.map_some]

theorem doomed_later {a : Chan.Act} {c : Chan} (ha : a.party = .softirq)
    (hs : (s.napi.chan q).step q.start a = some c) (hd : Doomed remove { s with napi := s.napi.setChan c q }) :
    s.Doomed remove :=
  .later trivial (softirq_step ((q.party_act a).trans ha) (Side.napiStep hs)) hd

theorem doomed_now (hv : s.vqs = false) {a : Chan.Act} {c : Chan} (ha : a.party = .softirq)
    (hs : (s.napi.chan q).step q.start a = some c) (ht : a.touchesVq (s.napi.chan q) = true) : s.Doomed remove :=
  .now trivial (softirq_step ((q.party_act a).trans ha) (Side.napiStep hs))
    (.inr ⟨hv, (q.touchesVq_act a s.napi).trans ht⟩)

/-- A poll function about to use the virtqueue does. -/
theorem doomed_touch (hv : s.vqs = false) (ht : (s.napi.chan q).poll.touchesVq = true) : s.Doomed remove := by
  obtain ⟨c, hc⟩ : ∃ c, (s.napi.chan q).pollStep = some c := by
    unfold Chan.pollStep
    cases hp : (s.napi.chan q).poll with
    | idle | busoff _ | indicate _ | complete _ =>
      rw [hp] at ht
      cases ht
    | loop quota work =>
      rw [hp] at ht
      simp only [of_decide_eq_true ht, if_true]
      split <;> exact ⟨_, rfl⟩
    | prepare | disable => exact ⟨_, rfl⟩
  exact doomed_now (a := .poll) hv rfl hc ht

/-- So does one that has a bus-off to handle first. -/
theorem doomed_busoff (hv : s.vqs = false) {quota : Nat}
    (hloop : ∀ s' : Teardown, s'.vqs = false → s'.napi.rx.poll = .loop quota 0 → s'.Doomed remove)
    (hp : s.napi.rx.poll = .busoff quota ∨ s.napi.rx.poll = .indicate quota) : s.Doomed remove := by
  have hindicate : ∀ s' : Teardown, s'.vqs = false → s'.napi.rx.poll = .indicate quota → s'.Doomed remove := by
    intro s' hv' hp'
    obtain ⟨n, hn, hl⟩ : ∃ n, napiStep s'.napi (.busoff false false) = some n ∧ n.rx.poll = .loop quota 0 := by
      simp only [napiStep, handleBusoff, hp']
      exact ⟨_, rfl, rfl⟩
    exact .later trivial (softirq_step rfl hn) (hloop _ hv' hl)
  rcases hp with hp | hp
  · cases hb : s.napi.busoffPending with
    | true =>
      have hn : napiStep s.napi (.busoff false false) =
          some { s.napi with rx := { s.napi.rx with poll := .indicate quota } } := by
        simp only [napiStep, handleBusoff, hp, hb, if_true]
      exact .later trivial (softirq_step rfl hn) (hindicate _ hv rfl)
    | false =>
      have hn : napiStep s.napi (.busoff false false) =
          some { s.napi with rx := { s.napi.rx with poll := .loop quota 0 } } := by
        simp only [napiStep, handleBusoff, hp, hb, Bool.false_eq_true, if_false]
      exact .later trivial (softirq_step rfl hn) (hloop _ hv rfl)
  · exact hindicate s hv hp

/-- An instance on the list is polled. -/
theorem doomed_listed (hv : s.vqs = false) (hl : (s.napi.chan q).listed = true) (hp : (s.napi.chan q).poll = .idle) :
    s.Doomed remove := by
  have hb : (s.napi.chan q).step q.start (.begin 1) =
      some { s.napi.chan q with listed := false, poll := q.start 1 } := by
    simp only [Chan.step, hl, hp, Nat.one_pos, and_self, if_true]
  refine doomed_later rfl hb ?_
  cases q with
  | tx => exact doomed_touch (q := .tx) hv rfl
  | rx => exact doomed_busoff hv (fun s' hv' hp' => doomed_touch (q := .rx) hv' (by
      show s'.napi.rx.poll.touchesVq = true
      rw [hp']
      rfl)) (.inl rfl)

theorem doomed_loop (hv : s.vqs = false) {quota work : Nat} (hp : (s.napi.chan q).poll = .loop quota work) :
    s.Doomed remove := by
  by_cases hw : work < quota
  · exact doomed_touch (q := q) hv (by rw [hp]; exact decide_eq_true hw)
  · have hs : (s.napi.chan q).step q.start .poll = some { s.napi.chan q with poll := .idle, listed := true } := by
      simp only [Chan.step, Chan.pollStep, hp, hw, if_false]
    refine doomed_later rfl hs ?_
    exact doomed_listed (q := q) hv (by rw [NapiState.chan_setChan]) (by rw [NapiState.chan_setChan])

/-- A remainder about to use it does. -/
theorem doomed_tail (hv : s.vqs = false) {t : Tail} (ht : t ∈ (s.napi.chan q).tails) (htouch : t.touchesVq = true) :
    s.Doomed remove := by
  obtain ⟨c, hc⟩ : ∃ c, (s.napi.chan q).tailStep t = some c := by
    unfold Chan.tailStep
    rw [if_pos ht]
    cases t with
    | check _ | disable => exact ⟨_, rfl⟩
    | prep | schedule => cases htouch
  exact doomed_now (a := .tail t) hv rfl hc htouch

/-- A poll function under way goes on. -/
theorem doomed_poll (hv : s.vqs = false) (hplain : s.napi.tx.poll.plain = true) (hp : (s.napi.chan q).poll ≠ .idle) :
    s.Doomed remove := by
  have hbusoff : ∀ quota, (s.napi.chan q).poll = .busoff quota ∨ (s.napi.chan q).poll = .indicate quota →
      s.Doomed remove := by
    intro quota hb
    cases q with
    | tx =>
      obtain hb | hb := hb
      · cases (congrArg PollPc.plain hb).symm.trans hplain
      · cases (congrArg PollPc.plain hb).symm.trans hplain
    | rx => exact doomed_busoff hv (fun s' hv' hp' => doomed_loop (q := .rx) hv' hp') hb
  cases hpoll : (s.napi.chan q).poll with
  | idle => exact absurd hpoll hp
  | busoff quota => exact hbusoff quota (.inl hpoll)
  | indicate quota => exact hbusoff quota (.inr hpoll)
  | loop quota work => exact doomed_loop hv hpoll
  | prepare | disable => exact doomed_touch (q := q) hv (by rw [hpoll]; rfl)
  | complete n =>
    cases hm : (s.napi.chan q).missed with
    | true =>
      have hs : (s.napi.chan q).step q.start .poll =
          some { s.napi.chan q with missed := false, listed := true, poll := .disable } := by
        simp only [Chan.step, Chan.pollStep, hpoll, Chan.completeDone, hm, if_true]
      exact doomed_later rfl hs (doomed_touch (q := q) hv (by rw [NapiState.chan_setChan]; rfl))
    | false =>
      have hs : (s.napi.chan q).step q.start .poll = some
          { s.napi.chan q with sched := false, poll := .idle, tails := .check n :: (s.napi.chan q).tails } := by
        simp only [Chan.step, Chan.pollStep, hpoll, Chan.completeDone, hm, Bool.false_eq_true, if_false]
      refine doomed_later rfl hs (doomed_tail (q := q) (t := .check n) hv ?_ rfl)
      rw [NapiState.chan_setChan]
      exact List.mem_cons_self

/-- So does a remainder that holds the instance. -/
theorem doomed_owner (hv : s.vqs = false) (hplain : s.napi.tx.poll.plain = true) {t : Tail}
    (ht : t ∈ (s.napi.chan q).tails) (ho : t.owns = true) : s.Doomed remove := by
  by_cases hp : (s.napi.chan q).poll = .idle
  · cases t with
    | check _ | prep => cases ho
    | disable => exact doomed_tail hv ht rfl
    | schedule =>
      have hs : (s.napi.chan q).step q.start (.tail .schedule) =
          some { s.napi.chan q with listed := true, tails := (s.napi.chan q).tails.erase .schedule } := by
        simp only [Chan.step, Chan.tailStep, ht, if_true]
      refine doomed_later rfl hs ?_
      exact doomed_listed (q := q) hv (by rw [NapiState.chan_setChan]) (by rw [NapiState.chan_setChan]; exact hp)
  · exact doomed_poll hv hplain hp

/-- With NAPI enabled, every remainder leads to a use. -/
theorem doomed_left (hv : s.vqs = false) (hplain : s.napi.tx.poll.plain = true) (h : Held false (s.napi.chan q))
    {t : Tail} (ht : t ∈ (s.napi.chan q).tails) : s.Doomed remove := by
  cases t with
  | check n => exact doomed_tail hv ht rfl
  | disable | schedule => exact doomed_owner hv hplain ht rfl
  | prep =>
    cases hsched : (s.napi.chan q).sched with
    | false =>
      have hs : (s.napi.chan q).step q.start (.tail .prep) = some
          { s.napi.chan q with sched := true, tails := .disable :: (s.napi.chan q).tails.erase .prep } := by
        simp only [Chan.step, Chan.tailStep, ht, if_true, Chan.schedulePrep, hsched, Bool.false_eq_true, if_false]
      refine doomed_later rfl hs (doomed_tail (q := q) (t := .disable) hv ?_ rfl)
      rw [NapiState.chan_setChan]
      exact List.mem_cons_self
    | true =>
      -- somebody else holds the instance
      by_cases hp : (s.napi.chan q).poll = .idle
      · cases hl : (s.napi.chan q).listed with
        | true => exact doomed_listed hv hl hp
        | false =>
          have hown := h.owner
          simp only [Chan.owners, hl, hp, hsched, PollPc.owns, Bool.toNat_false, Bool.toNat_true] at hown
          obtain ⟨t, ht, ho⟩ := List.countP_pos_iff.mp (show 0 < (s.napi.chan q).tails.countP Tail.owns by omega)
          exact doomed_owner hv hplain ht ho
      · exact doomed_poll hv hplain hp

end Teardown

/-! ## The virtqueues go -/

theorem TeardownInv.held {remove : Bool} {s : Teardown} (h : TeardownInv remove s) (q : Side) :
    ∃ off, Held off (s.napi.chan q) ∧ (remove = true → off = false) ∧
      (remove = false → s.reset = true → off = true) := by
  cases q with
  | tx =>
    refine ⟨s.txOff, h.tx, fun hr => (h.keeps hr).2, fun hr hre => ?_⟩
    exact (h.disabled hre).resolve_left fun hr' => by cases hr.symm.trans hr'
  | rx =>
    refine ⟨s.rxOff, h.rx, fun hr => (h.keeps hr).1, fun hr hre => ?_⟩
    exact h.order ((h.disabled hre).resolve_left fun hr' => by cases hr.symm.trans hr')

/-- A disabled instance is nobody else's. -/
theorem Held.idle {c : Chan} (h : Held true c) :
    c.sched = true ∧ c.listed = false ∧ c.poll = .idle ∧ ∀ t ∈ c.tails, t.owns = false := by
  have hown := h.owner
  have hle := sched_le c
  simp only [Chan.owners, Bool.toNat_true] at hown
  have hl : c.listed = false := Bool.toNat_eq_zero.mp (by omega)
  have hp : c.poll.owns = false := Bool.toNat_eq_zero.mp (by omega)
  have ht : c.tails.countP Tail.owns = 0 := by omega
  refine ⟨Bool.toNat_eq_one.mp (by omega), hl, ?_, fun t hm => ?_⟩
  · cases hpoll : c.poll with
    | idle => rfl
    | disable => cases (h.again hpoll).symm.trans hl
    | busoff _ | indicate _ | loop _ _ | prepare | complete _ =>
      rw [hpoll] at hp
      cases hp
  · simpa using List.countP_eq_zero.mp ht t hm

/-- What is harmless before the suspend is a remainder that stops at `napi_schedule_prep`. -/
theorem Held.harmless {c : Chan} (h : Held true c) (hc : c.Harmless false) :
    ∀ t ∈ c.tails, t = .prep ∧ c.sched = true := by
  obtain ⟨hsched, -, -, howns⟩ := h.idle
  intro t ht
  have hvq : ∀ t ∈ c.tails, t.touchesVq = false := hc
  cases t with
  | prep => exact ⟨rfl, hsched⟩
  | check _ | disable => cases hvq _ ht
  | schedule => cases howns _ ht

theorem TeardownInv.calm {remove : Bool} {s : Teardown} (h : TeardownInv remove s) (hre : s.reset = true)
    (hv : s.vqs = false) (hc : ∀ q, (s.napi.chan q).Harmless remove) : Calm remove s := by
  have hchan : ∀ q, (s.napi.chan q).listed = false ∧ (s.napi.chan q).poll = .idle ∧
      ∀ t ∈ (s.napi.chan q).tails, t = .prep ∧ (s.napi.chan q).sched = true ∧ remove = false := by
    intro q
    have hq := hc q
    cases remove with
    | true =>
      have hq : (s.napi.chan q).listed = false ∧ (s.napi.chan q).poll = .idle ∧ (s.napi.chan q).tails = [] := hq
      refine ⟨hq.1, hq.2.1, fun t ht => ?_⟩
      rw [hq.2.2] at ht
      cases ht
    | false =>
      obtain ⟨off, hheld, -, hoff⟩ := h.held q
      obtain rfl := hoff rfl hre
      obtain ⟨-, hl, hp, -⟩ := hheld.idle
      refine ⟨hl, hp, fun t ht => ?_⟩
      obtain ⟨rfl, hsched⟩ := hheld.harmless hq t ht
      exact ⟨rfl, hsched, rfl⟩
  exact {
    vqs := hv
    reset := hre
    candev := h.candev
    listed := ⟨(hchan .tx).1, (hchan .rx).1⟩
    poll := ⟨(hchan .tx).2.1, (hchan .rx).2.1⟩
    tails := by
      simp only [List.forall_mem_cons, List.not_mem_nil, false_imp_iff, implies_true, and_true]
      exact ⟨(hchan .tx).2.2, (hchan .rx).2.2⟩ }

theorem TeardownInv.doomed {remove : Bool} {s : Teardown} (h : TeardownInv remove s) (hv : s.vqs = false) {q : Side}
    (hc : ¬(s.napi.chan q).Harmless remove) : s.Doomed remove := by
  cases remove with
  | false =>
    have hc : ¬∀ t ∈ (s.napi.chan q).tails, t.touchesVq = false := hc
    simp only [not_forall, Bool.not_eq_false] at hc
    obtain ⟨t, ht, htouch⟩ := hc
    exact Teardown.doomed_tail hv ht htouch
  | true =>
    have hc : ¬((s.napi.chan q).listed = false ∧ (s.napi.chan q).poll = .idle ∧ (s.napi.chan q).tails = []) := hc
    by_cases hp : (s.napi.chan q).poll = .idle
    · cases hl : (s.napi.chan q).listed with
      | true => exact Teardown.doomed_listed hv hl hp
      | false =>
        obtain ⟨off, hheld, hoff, -⟩ := h.held q
        obtain rfl := hoff rfl
        obtain ⟨t, ht⟩ := List.exists_mem_of_ne_nil _ fun ht => hc ⟨hl, hp, ht⟩
        exact Teardown.doomed_left hv h.plain hheld ht
    · exact Teardown.doomed_poll hv h.plain hp

/-- The device completes a message, and is reset before the poll its interrupt schedules. -/
def resetBeforePoll : List TeardownAct :=
  [.napi (.tx .post), .napi (.tx .look), .napi (.tx .intr), .napi (.tx .schedule), .reset]

end Agl.VirtioCan
