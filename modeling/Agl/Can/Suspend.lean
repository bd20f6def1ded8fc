/-
Suspend and resume of the transmit side.

`virtio_can_del_vq` unlinks and frees the messages without giving back
their indices, their share of `tx_inflight` or their echo slots, so a cycle
restores the capacity exactly when it loses nothing (`suspend_restored`).
-/
import Agl.Can.TxFacts

namespace Agl.VirtioCan

/-- The transmit side is empty: all of its capacity is there. -/
structure Restored (s : State) : Prop where
  txList : s.txList = []
  txInflight : s.txInflight = 0
  txPutidxFree : s.txPutidxFree.Perm (allIdx s.echoSkbMax)
  echoSkb : ∀ i, s.echoSkb i = none

/-- A step leaves the limits as `virtio_can_probe` set them. -/
theorem Step.limits {s s' : State} {a : Act} (hs : Step s a s') :
    s'.txLimit = s.txLimit ∧ s'.echoSkbMax = s.echoSkbMax := by
  cases hs with
  | alloc _ ha =>
    obtain ⟨n, f, rfl⟩ := allocTxIdx_frame ha
    exact ⟨rfl, rfl⟩
  | undo _ ha | rdFree _ ha =>
    obtain ⟨n, f, rfl⟩ := freeTxIdx_frame ha
    exact ⟨rfl, rfl⟩
  | echo =>
    rename_i skb m _ _
    obtain ⟨e, g, he⟩ := canPutEchoSkb_frame s skb m.putidx
    rw [he]
    exact ⟨rfl, rfl⟩
  | rdEcho =>
    rename_i m _
    obtain ⟨e, g, he⟩ := takeEchoSkb_frame s m.putidx
    rw [he]
    exact ⟨rfl, rfl⟩
  | busOff =>
    unfold VirtioCan.busOff
    split <;> exact ⟨rfl, rfl⟩
  | freeze hf =>
    obtain ⟨-, -, -, -, q, rfl⟩ := freeze_cases hf
    exact ⟨rfl, rfl⟩
  | restore hr _ =>
    rcases restore_cases hr with ⟨-, rfl⟩ | ⟨-, q, -, rfl⟩ <;> exact ⟨rfl, rfl⟩
  | _ => exact ⟨rfl, rfl⟩

/-- What a cycle changes in the bookkeeping: `tx_list` is emptied. -/
theorem cycle_cases {s s₁ s₂ : State} (h₁ : machine.step s .freeze = some s₁)
    (h₂ : machine.step s₁ (.restore true) = some s₂) : s.xmit = .idle ∧ s.read = .idle ∧ s₂.txList = [] ∧
      s₂.txInflight = s.txInflight ∧ s₂.txPutidxFree = s.txPutidxFree ∧ s₂.echoSkb = s.echoSkb := by
  cases (step_cases h₁).1 with
  | freeze hf =>
    obtain ⟨hx, hr, -, -, q, rfl⟩ := freeze_cases hf
    cases (step_cases h₂).1 with
    | restore hre _ =>
      rcases restore_cases hre with ⟨hok, -⟩ | ⟨-, q', -, rfl⟩
      · cases hok
      · exact ⟨hx, hr, rfl, rfl, rfl, rfl⟩

/-- **Capacity over a suspend cycle.** From any reachable state, with any
number of messages in flight, `virtio_can_freeze` and a successful
`virtio_can_restore` leave an empty transmit side with all its indices if
and only if nothing was in flight and no echo slot was occupied; the limits
never change. -/
theorem suspend_restored {s s₁ s₂ : State} (hs : machine.Reachable s) (h₁ : machine.step s .freeze = some s₁)
    (h₂ : machine.step s₁ (.restore true) = some s₂) :
    (Restored s₂ ↔ s.txInflight = 0 ∧ ∀ i, s.echoSkb i = none) ∧
    s₂.txLimit = s.txLimit ∧ s₂.echoSkbMax = s.echoSkbMax := by
  obtain ⟨lost, hi⟩ := reachable_inv hs
  obtain ⟨hx, hr, hlist, hcnt, hfree, hecho⟩ := cycle_cases h₁ h₂
  obtain ⟨hlim₁, hmax₁⟩ := (step_cases h₁).1.limits
  obtain ⟨hlim₂, hmax₂⟩ := (step_cases h₂).1.limits
  refine ⟨⟨fun h => ⟨hcnt ▸ h.txInflight, fun i => hecho ▸ h.echoSkb i⟩, ?_⟩, hlim₂.trans hlim₁, hmax₂.trans hmax₁⟩
  intro h
  obtain ⟨h0, hnone⟩ := h
  have hcount := hi.count
  have hin : s.inFlight = [] := List.length_eq_zero_iff.mp (by omega)
  have hheld : s.held = [] := List.length_eq_zero_iff.mp (by omega)
  have hlost : lost = [] := List.length_eq_zero_iff.mp (by omega)
  refine ⟨hlist, hcnt.trans h0, ?_, fun i => hecho ▸ hnone i⟩
  have := hi.perm
  rw [hfree, hmax₂.trans hmax₁]
  simpa [hin, hheld, hlost] using this

/-- An open interface that has sent nothing keeps its capacity. -/
theorem suspend_restored_open :
    let s := { probe 4 true with canState := .errorActive, admin := .up }
    ∃ s₁ s₂, machine.step s .freeze = some s₁ ∧ machine.step s₁ (.restore true) = some s₂ ∧ Restored s₂ := by
  have h0 : machine.Reachable (probe 4 true) := .init (probe_init 4 true)
  have hs : machine.Reachable { probe 4 true with canState := .errorActive, admin := .up } :=
    h0.exec [.admin, .admin] rfl
  refine ⟨_, _, rfl, rfl, ?_⟩
  exact (suspend_restored hs rfl rfl).1.mpr ⟨rfl, fun _ => rfl⟩

/-- A message in flight at the freeze is lost for good, with its index. -/
theorem suspend_inFlight_lost : ∃ s s₁ s₂, machine.Reachable s ∧ machine.step s .freeze = some s₁ ∧
    machine.step s₁ (.restore true) = some s₂ ∧ ¬ Restored s₂ := by
  obtain ⟨s, hs, s₁, h₁, s₂, h₂, h0⟩ := Machine.exists_reach (fun _ _ => True) (probe_init 4 true) (openAndSend 7)
    (fun s => ∃ s₁ ∈ machine.step s .freeze, ∃ s₂ ∈ machine.step s₁ (.restore true), s₂.txInflight ≠ 0)
    (by decide +kernel)
  exact ⟨s, s₁, s₂, hs, h₁, h₂, fun h => h0 h.txInflight⟩

end Agl.VirtioCan
