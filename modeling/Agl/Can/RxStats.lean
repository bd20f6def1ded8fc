/-
What becomes of the received messages, and the receive statistics.

The device's messages lie in the used ring in the order it used them, and
`virtio_can_read_rx_queue` takes them in that order: each is delivered to
the stack or dropped with one text printed, once. Only a resume loses some,
those nobody has taken when the new virtqueues are found. `rx_packets`,
`rx_bytes` and `rx_dropped` are those of the messages handled, but for the
bus-off frames, which `virtio_can_handle_busoff` counts whether or not the
stack takes them (`rx_accounted`).
-/
import Agl.Can.Inbuf

namespace Agl.VirtioCan

/-! ## What is taken down -/

/-- What has become of a message. -/
inductive Fate
  /-- `virtio_can_read_rx_queue` was called; `taken` is what `netif_receive_skb` said -/
  | handled (env : RxEnv) (taken : Bool)
  /-- its virtqueue is gone -/
  | lost

structure RxHistory where
  /-- by the device, in its order -/
  posted : List UsedBuf
  fates : List (UsedBuf × Fate)
  /-- calls of `virtio_can_handle_busoff` that returned 1 -/
  busoffs : Nat

def RxHistory.empty : RxHistory := ⟨[], [], 0⟩

def RxHistory.note (s : InbufState) (a : InbufAct) (g : RxHistory) : RxHistory :=
  match a with
  | .rxMessage u => { g with posted := g.posted ++ [u] }
  | .pollStart _ busoff => { g with busoffs := g.busoffs + busoff.toNat }
  | .poll env taken =>
    match s.poll with
    | .read _ _ u => { g with fates := g.fates ++ [(u, .handled env taken)] }
    | _ => g
  | .restore (some _) => { g with fates := g.fates ++ s.rx.used.map fun u => (u, .lost) }
  | _ => g

def rxHistoryMachine : Machine (InbufState × RxHistory) InbufAct := inbufMachine.watched .empty RxHistory.note

/-! ## Accounting -/

/-- The frame handed to `netif_receive_skb`. -/
def frameOf : UsedBuf × Fate → Option Frame
  | (u, .handled env _) => (rxFrame env u.mem u.len).toOption.join
  | (_, .lost) => none

/-- The frame the stack has taken. -/
def takenFrame : UsedBuf × Fate → Option Frame
  | (u, .handled env true) => frameOf (u, .handled env true)
  | _ => none

/-- Why the message was dropped. -/
def dropOf : UsedBuf × Fate → Option RxDrop
  | (u, .handled env _) =>
    match rxFrame env u.mem u.len with
    | .error d => some d
    | .ok _ => none
  | (_, .lost) => none

/-- The bytes counted of a frame: an RTR frame has none. -/
def Frame.counted (cf : Frame) : Nat := if cf.canId &&& canRtrFlag = 0 then cf.len.toNat else 0

/-- `can_dlc` of the bus-off frame, `CAN_ERR_DLC` -/
def errDlc : Nat := 8

/-- `dev->stats`: what `virtio_can_read_rx_queue` and `virtio_can_handle_busoff` have counted. -/
def devStats (s : InbufState) (g : RxHistory) : RxStats :=
  { s.stats with
    rxPackets := s.stats.rxPackets + g.busoffs
    rxBytes := s.stats.rxBytes + errDlc * g.busoffs }

/-- The message `virtio_can_read_rx_queue` has taken and not looked at. -/
def RxPc.taken : RxPc → List UsedBuf
  | .read _ _ u => [u]
  | .idle | .loop _ _ | .putback _ _ _ => []

/-- Each message has its fate, in the device's order, or is still to be
handled; a message handled is delivered or dropped, not both; the counters
and the texts printed are those of the messages. -/
structure RxAccounted (s : InbufState) (g : RxHistory) : Prop where
  order : g.posted = g.fates.map (·.1) ++ s.poll.taken ++ s.rx.used
  once : ∀ u env taken, (u, .handled env taken) ∈ g.fates →
    ((frameOf (u, .handled env taken)).isSome = true ↔ dropOf (u, .handled env taken) = none)
  packets : (devStats s g).rxPackets = (g.fates.filterMap takenFrame).length + g.busoffs
  bytes : (devStats s g).rxBytes = ((g.fates.filterMap takenFrame).map Frame.counted).sum + errDlc * g.busoffs
  dropped : (devStats s g).rxDropped = (g.fates.filterMap dropOf).countP RxDrop.counted
  log : s.rxLog = g.fates.filterMap dropOf

/-! ## One message -/

theorem filterMap_concat {α β : Type} (f : α → Option β) (l : List α) (a : α) :
    (l ++ [a]).filterMap f = l.filterMap f ++ (f a).toList := by
  rw [List.filterMap_append]
  cases h : f a <;> simp [h]

/-- The messages lost are in no book. -/
theorem filterMap_lost {β : Type} {f : UsedBuf × Fate → Option β} (l : List (UsedBuf × Fate)) (lost : List UsedBuf)
    (hf : ∀ u, f (u, .lost) = none) : (l ++ lost.map fun u => (u, Fate.lost)).filterMap f = l.filterMap f := by
  have hnil : (lost.map fun u => (u, Fate.lost)).filterMap f = [] := by
    refine List.filterMap_eq_nil_iff.mpr fun x hx => ?_
    obtain ⟨u, -, rfl⟩ := List.mem_map.mp hx
    exact hf u
  rw [List.filterMap_append, hnil, List.append_nil]

/-- What `virtio_can_read_rx_queue` adds to the books. -/
theorem handled_books {env : RxEnv} {taken : Bool} {stats : RxStats} {u : UsedBuf} {r : RxResult}
    (h : readRxQueue env taken stats (some (u.mem, u.len)) = some r) :
    r.stats.rxPackets = stats.rxPackets + (takenFrame (u, .handled env taken)).toList.length ∧
      r.stats.rxBytes = stats.rxBytes + ((takenFrame (u, .handled env taken)).toList.map Frame.counted).sum ∧
      r.stats.rxDropped = stats.rxDropped + (dropOf (u, .handled env taken)).toList.countP RxDrop.counted ∧
      r.log = dropOf (u, .handled env taken) ∧
      ((frameOf (u, .handled env taken)).isSome = true ↔ dropOf (u, .handled env taken) = none) := by
  unfold readRxQueue at h
  dsimp only at h
  split at h
  · next d hf =>
    cases h
    cases taken <;> cases hd : d.counted <;> simp [takenFrame, frameOf, dropOf, hf, hd, Except.toOption]
  · cases h
  · next cf hf =>
    cases h
    obtain ⟨cf', hf', hd⟩ := (accepts_of_ok hf).decoded
    cases hf.symm.trans hf'
    have hrtr := hd.rtr_iff
    cases taken
    · simp [takenFrame, frameOf, dropOf, hf, countRx, Except.toOption]
    · simp [takenFrame, frameOf, dropOf, hf, countRx, Except.toOption, Frame.counted, hrtr]

/-! ## Every run -/

namespace RxAccounted

variable {s s' : InbufState} {g : RxHistory}

/-- A step that takes no message. -/
theorem frame (h : RxAccounted s g) (ht : s'.poll.taken = s.poll.taken) (hu : s'.rx.used = s.rx.used)
    (hst : s'.stats = s.stats) (hl : s'.rxLog = s.rxLog) : RxAccounted s' g where
  order := by rw [ht, hu]; exact h.order
  once := h.once
  packets := by rw [devStats, hst]; exact h.packets
  bytes := by rw [devStats, hst]; exact h.bytes
  dropped := by rw [devStats, hst]; exact h.dropped
  log := by rw [hl]; exact h.log

theorem addInbuf_used (vq : InQueue) (buf : Nat) : (addInbuf vq buf).2.used = vq.used := by
  unfold addInbuf
  split <;> rfl

theorem pollStep {env : RxEnv} {taken : Bool} (h : RxAccounted s g) (hs : pollStep s env taken = some s') :
    RxAccounted s' (g.note s (.poll env taken)) := by
  unfold VirtioCan.pollStep at hs
  split at hs
  · cases hs
  · next work quota hpc =>
    have hnote : g.note s (.poll env taken) = g := by simp only [RxHistory.note, hpc]
    rw [hnote]
    split at hs
    · split at hs
      · cases hs
        exact h.frame (by rw [hpc]; rfl) rfl rfl rfl
      · next u rx hget =>
        cases hs
        unfold getBuf at hget
        split at hget
        · cases hget
        · next hused =>
          cases hget
          have horder := h.order
          rw [hpc, hused] at horder
          exact { h with order := by simpa [RxPc.taken] using horder }
    · cases hs
      exact h.frame (by rw [hpc]; rfl) rfl rfl rfl
  · next work quota u hpc =>
    have hnote : g.note s (.poll env taken) = { g with fates := g.fates ++ [(u, .handled env taken)] } := by
      simp only [RxHistory.note, hpc]
    rw [hnote]
    split at hs
    · cases hs
    · next r hr =>
      simp only [(readRx_putback hr).2, if_true] at hs
      cases hs
      obtain ⟨hpackets, hbytes, hdropped, hlog, honce⟩ := handled_books hr
      have horder := h.order
      have hpk := h.packets
      have hby := h.bytes
      have hdr := h.dropped
      rw [hpc] at horder
      simp only [devStats] at hpk hby hdr
      refine ⟨by simpa [RxPc.taken] using horder, ?_, ?_, ?_, ?_, ?_⟩
      · intro v env' taken' hv
        rcases List.mem_append.mp hv with hv | hv
        · exact h.once v env' taken' hv
        · cases List.mem_singleton.mp hv
          exact honce
      · simp only [devStats, filterMap_concat, List.length_append]
        omega
      · simp only [devStats, filterMap_concat, List.map_append, List.sum_append]
        omega
      · simp only [devStats, filterMap_concat, List.countP_append]
        omega
      · simp only [filterMap_concat, hlog, h.log]
  · next work quota buf hpc =>
    have hnote : g.note s (.poll env taken) = g := by simp only [RxHistory.note, hpc]
    rw [hnote]
    cases hs
    exact h.frame (by rw [hpc]; rfl) (addInbuf_used _ _) rfl rfl

theorem step {a : InbufAct} (h : RxAccounted s g) (hi : InbufInv s) (hs : inbufStep s a = some s') :
    RxAccounted s' (g.note s a) := by
  cases a with
  | populate =>
    simp only [inbufStep, populateStep] at hs
    split at hs
    · split at hs
      · split at hs <;> cases hs
        · exact h.frame rfl rfl rfl rfl
        · exact h.frame rfl (addInbuf_used _ _) rfl rfl
      · cases hs
        exact h.frame rfl rfl rfl rfl
    · split at hs
      · split at hs <;> cases hs <;> exact h.frame rfl rfl rfl rfl
      · cases hs
        exact h.frame rfl rfl rfl rfl
    · cases hs
  | napiEnable =>
    simp only [inbufStep] at hs
    split at hs <;> cases hs
    exact h.frame rfl rfl rfl rfl
  | pollStart quota busoff =>
    simp only [inbufStep] at hs
    split at hs
    · next hpc =>
      cases hs
      have hpk := h.packets
      have hby := h.bytes
      have horder := h.order
      rw [hpc] at horder
      simp only [devStats] at hpk hby
      refine ⟨horder, h.once, ?_, ?_, h.dropped, h.log⟩
      · simp only [devStats, RxHistory.note]
        omega
      · simp only [devStats, RxHistory.note, Nat.mul_add]
        omega
    · cases hs
  | poll env taken => exact h.pollStep hs
  | evind =>
    simp only [inbufStep] at hs
    split at hs
    · cases hs
      unfold VirtioCan.indStep
      split
      · split <;> exact h.frame rfl rfl rfl rfl
      · split <;> exact h.frame rfl rfl rfl rfl
      · exact h.frame rfl rfl rfl rfl
    · cases hs
  | rxMessage u =>
    simp only [inbufStep] at hs
    split at hs
    · obtain ⟨rx, hrx, rfl⟩ := Option.map_eq_some_iff.mp hs
      unfold deviceUses at hrx
      split at hrx
      · cases hrx
        have horder := h.order
        exact { h with order := by simp [RxHistory.note, horder] }
      · cases hrx
    · cases hs
  | indication u =>
    simp only [inbufStep] at hs
    split at hs
    · obtain ⟨ind, -, rfl⟩ := Option.map_eq_some_iff.mp hs
      exact h.frame rfl rfl rfl rfl
    · cases hs
  | freeze =>
    simp only [inbufStep, VirtioCan.freezeStep] at hs
    split at hs
    · cases hs
      exact h.frame rfl rfl rfl rfl
    · cases hs
      exact h.frame rfl rfl rfl rfl
    · split at hs <;> cases hs <;> exact h.frame rfl rfl rfl rfl
    · split at hs <;> cases hs <;> exact h.frame rfl rfl rfl rfl
    · cases hs
  | restore sizes =>
    simp only [inbufStep] at hs
    split at hs
    · cases hs
      exact h
    · next rx ind hlife =>
      cases hs
      -- nobody has taken what is left in the old used ring
      have hpoll : s.poll = .idle := (hi.dead (by rw [hlife]; rfl)).poll
      have horder := h.order
      rw [hpoll] at horder
      refine ⟨?_, ?_, ?_, ?_, ?_, ?_⟩
      · simpa [RxHistory.note, RxPc.taken, InQueue.fresh, Function.comp_def, hpoll] using horder
      · intro u env taken hu
        rcases List.mem_append.mp hu with hu | hu
        · exact h.once u env taken hu
        · obtain ⟨v, -, he⟩ := List.mem_map.mp hu
          cases he
      · rw [RxHistory.note, filterMap_lost _ _ fun _ => rfl]
        exact h.packets
      · rw [RxHistory.note, filterMap_lost _ _ fun _ => rfl]
        exact h.bytes
      · rw [RxHistory.note, filterMap_lost _ _ fun _ => rfl]
        exact h.dropped
      · rw [RxHistory.note, filterMap_lost _ _ fun _ => rfl]
        exact h.log
    · cases hs

end RxAccounted

theorem rxAccounted_inductive :
    rxHistoryMachine.Inductive (fun _ _ => True) fun w => InbufInv w.1 ∧ RxAccounted w.1 w.2 := by
  refine inbufInv_inductive.watched.and (fun w hw => ?_) fun w a w' hi _ h _ hs => ?_
  · obtain ⟨s, g⟩ := w
    obtain ⟨⟨rx, ind, hs⟩, hg⟩ := hw
    dsimp only at hs hg
    subst hs hg
    exact ⟨rfl, fun _ _ _ hm => (by cases hm), rfl, rfl, rfl, rfl⟩
  · obtain ⟨hs, hg⟩ := Machine.watched_step.mp hs
    rw [hg]
    exact h.step hi hs

/-- A bus-off frame and a message are delivered with a quota of 2, the second
message is in the used ring when the driver suspends. -/
def suspendedUnread : List InbufAct :=
  List.replicate 5 .populate ++
    [.napiEnable, .rxMessage ⟨0, fun i => if i < 2 then 1 else 0, 15⟩, .rxMessage ⟨1, fun _ => 0, 1⟩,
      .pollStart 2 true] ++
    List.replicate 4 (.poll ⟨fun _ => true, .errorActive, true⟩ true) ++ List.replicate 7 .freeze ++
    [.restore (some (2, 1))]

end Agl.VirtioCan
