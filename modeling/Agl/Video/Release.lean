/-
`virtio_video_queue_release_buffers`, once the device has answered
`QUEUE_CLEAR`: a loop over the ready queue of the m2m context, or over the
camera's list of pending buffers. Nothing else touches them meanwhile
(`Pending` is about the calls that do).
-/
import Agl.Lib.Loop
import Agl.Video.Cmd
import Agl.Video.Pending

namespace Agl.VirtioVideo

open Loop

/-- What the loops work on: the buffers by their addresses, and those given
back to vb2, in order. -/
structure ReleaseState where
  isM2mDev : Bool
  pendingBufList : List Pending.Addr
  srcReady : List Pending.Addr
  dstReady : List Pending.Addr
  returned : List (Pending.Addr × BufState)
  deriving DecidableEq, Repr

/-- `v4l2_m2m_buf_done` -/
def ReleaseState.bufDone (s : ReleaseState) (vb : Pending.Addr) (state : BufState) : ReleaseState :=
  { s with returned := s.returned ++ [(vb, state)] }

/-- `v4l2_m2m_src_buf_remove`, `v4l2_m2m_dst_buf_remove` -/
def ReleaseState.bufRemove (s : ReleaseState) : QueueType → Option (Pending.Addr × ReleaseState)
  | .input => match s.srcReady with
    | [] => none
    | vb :: rest => some (vb, { s with srcReady := rest })
  | .output => match s.dstReady with
    | [] => none
    | vb :: rest => some (vb, { s with dstReady := rest })

/-- The ready queue of the m2m context. -/
def ReleaseState.ready (s : ReleaseState) : QueueType → List Pending.Addr
  | .input => s.srcReady
  | .output => s.dstReady

/-- A round of the loop of a device without m2m. -/
def pendingRound (s : ReleaseState) : Option ReleaseState :=
  (Pending.pendingBufListPop s.pendingBufList).map fun vvb => s.bufDone vvb .error

/-- A round of the loop of an m2m device. -/
def readyRound (queueType : QueueType) (s : ReleaseState) : Option ReleaseState :=
  (s.bufRemove queueType).map fun r => r.2.bufDone r.1 .error

/-- `virtio_video_queue_release_buffers`: what it leaves and returns. A loop
that does not end leaves nothing. -/
inductive QueueReleaseBuffers (stream : Stream) (queueType : QueueType) (x : Exchange) (s : ReleaseState) :
    ReleaseState → Except Errno Unit → Prop
  /-- "failed to clear queue" -/
  | failed {o : Outcome} {e : Errno} (hclear : cmdQueueClear stream queueType x = some o) (he : o.result = .error e) :
    QueueReleaseBuffers stream queueType x s s (.error e)
  | pending {o : Outcome} {t : ReleaseState} (hclear : cmdQueueClear stream queueType x = some o)
      (hok : o.result = .ok ()) (hdev : s.isM2mDev = false) (hloop : Ends pendingRound s t) :
    QueueReleaseBuffers stream queueType x s t (.ok ())
  | ready {o : Outcome} {t : ReleaseState} (hclear : cmdQueueClear stream queueType x = some o)
      (hok : o.result = .ok ()) (hdev : s.isM2mDev = true) (hloop : Ends (readyRound queueType) s t) :
    QueueReleaseBuffers stream queueType x s t (.ok ())

/-- The buffers still pending on a queue. -/
def ReleaseState.pending (s : ReleaseState) (queueType : QueueType) : List Pending.Addr :=
  if s.isM2mDev then s.ready queueType else s.pendingBufList

/-- The release ends, has given back each of them once, in error, and leaves none. -/
def Released (stream : Stream) (queueType : QueueType) (x : Exchange) (s : ReleaseState) : Prop :=
  ∃ t, QueueReleaseBuffers stream queueType x s t (.ok ()) ∧
    t.returned = s.returned ++ (s.pending queueType).map (fun vb => (vb, .error)) ∧ t.pending queueType = []

/-! ## The ready queues -/

/-- What a round does: nothing when the queue is empty, else its first buffer
is taken off and given back. -/
theorem readyRound_cases (queueType : QueueType) (s : ReleaseState) :
    (readyRound queueType s = none ∧ s.ready queueType = []) ∨
      ∃ vb s', readyRound queueType s = some s' ∧ s.ready queueType = vb :: s'.ready queueType ∧
        s'.returned = s.returned ++ [(vb, .error)] ∧ s'.isM2mDev = s.isM2mDev := by
  unfold readyRound ReleaseState.bufRemove ReleaseState.ready
  cases queueType with
  | input =>
    cases s.srcReady with
    | nil => exact .inl ⟨rfl, rfl⟩
    | cons vb rest => exact .inr ⟨vb, _, rfl, rfl, rfl, rfl⟩
  | output =>
    cases s.dstReady with
    | nil => exact .inl ⟨rfl, rfl⟩
    | cons vb rest => exact .inr ⟨vb, _, rfl, rfl, rfl, rfl⟩

/-- What has been given back and what is still ready make up one list all along. -/
theorem readyLoop_ends (queueType : QueueType) (s : ReleaseState) :
    ∃ t, Ends (readyRound queueType) s t ∧ t.isM2mDev = s.isM2mDev ∧ t.ready queueType = [] ∧
      t.returned = s.returned ++ (s.ready queueType).map (fun vb => (vb, .error)) := by
  let all (u : ReleaseState) := u.returned ++ (u.ready queueType).map fun vb => (vb, BufState.error)
  have hround : ∀ u u', (u.isM2mDev = s.isM2mDev ∧ all u = all s) → readyRound queueType u = some u' →
      (u'.isM2mDev = s.isM2mDev ∧ all u' = all s) ∧ (u'.ready queueType).length < (u.ready queueType).length := by
    rintro u u' ⟨hdev, hall⟩ hu
    rcases readyRound_cases queueType u with ⟨hn, -⟩ | ⟨vb, v, hv, hready, hret, hdev'⟩
    · rw [hn] at hu
      cases hu
    · rw [hv] at hu
      cases hu
      refine ⟨⟨hdev'.trans hdev, ?_⟩, ?_⟩
      · rw [← hall]
        simp only [all, hready, hret, List.map_cons, List.append_assoc, List.singleton_append]
      · rw [hready]
        exact Nat.lt_succ_self _
  obtain ⟨t, ht, ⟨hdev, hall⟩, hover⟩ := exists_ends
    (fun u : ReleaseState => (u.ready queueType).length) hround (s := s) ⟨rfl, rfl⟩
  have hempty : t.ready queueType = [] := by
    rcases readyRound_cases queueType t with ⟨-, he⟩ | ⟨vb, v, hv, -⟩
    · exact he
    · rw [hover] at hv
      cases hv
  refine ⟨t, ht, hdev, hempty, ?_⟩
  simp only [all, hempty, List.map_nil, List.append_nil] at hall
  exact hall

/-! ## The list of pending buffers -/

theorem pendingRound_cons {s : ReleaseState} {vvb : Pending.Addr} {rest : List Pending.Addr}
    (h : s.pendingBufList = vvb :: rest) : pendingRound s = some (s.bufDone vvb .error) := by
  unfold pendingRound Pending.pendingBufListPop
  rw [h]
  rfl

theorem pendingRound_nil {s : ReleaseState} (h : s.pendingBufList = []) : pendingRound s = none := by
  unfold pendingRound Pending.pendingBufListPop
  rw [h]
  rfl

/-- The first buffer stays on the list and is given back in every round. -/
theorem pendingLoop_rounds {s : ReleaseState} {vvb : Pending.Addr} {rest : List Pending.Addr}
    (h : s.pendingBufList = vvb :: rest) (n : Nat) :
    rounds pendingRound n s = some { s with returned := s.returned ++ List.replicate n (vvb, .error) } := by
  induction n generalizing s with
  | zero => rw [List.replicate_zero, List.append_nil]; rfl
  | succ n ih =>
    have hnext : (s.bufDone vvb .error).pendingBufList = vvb :: rest := h
    rw [rounds, pendingRound_cons h, Option.bind_some, ih hnext]
    simp only [ReleaseState.bufDone, List.append_assoc, List.singleton_append, List.replicate_succ]

theorem pendingLoop_endless {s : ReleaseState} (h : s.pendingBufList ≠ []) (t : ReleaseState) :
    ¬Ends pendingRound s t := by
  refine not_ends (P := fun s => s.pendingBufList ≠ []) (fun u hu => ?_) h t
  obtain ⟨vvb, rest, hl⟩ := List.exists_cons_of_ne_nil hu
  exact ⟨_, pendingRound_cons hl, hu⟩

/-- **Once `QUEUE_CLEAR` has succeeded the release ends, with each pending
buffer given back once and none left, exactly on an m2m device or when there
is no pending buffer**: what `virtio_video_pending_buf_list_pop` gives it
leaves on the list. -/
theorem queueReleaseBuffers_released (stream : Stream) (queueType : QueueType) (reply : Mem) (s : ReleaseState) :
    Released stream queueType (.answered reply) s ↔ s.isM2mDev = true ∨ s.pendingBufList = [] := by
  have hclear : cmdQueueClear stream queueType (.answered reply) = some _ := rfl
  constructor
  · rintro ⟨t, ht, -⟩
    cases ht with
    | pending _ _ _ hloop =>
      refine .inr ?_
      by_cases h : s.pendingBufList = []
      · exact h
      · exact absurd hloop (pendingLoop_endless h t)
    | ready _ _ hdev => exact .inl hdev
  · intro h
    by_cases hdev : s.isM2mDev = true
    · obtain ⟨t, ht, htdev, hempty, hret⟩ := readyLoop_ends queueType s
      refine ⟨t, .ready hclear rfl hdev ht, ?_, ?_⟩
      · rw [ReleaseState.pending, if_pos hdev]
        exact hret
      · rw [ReleaseState.pending, if_pos (htdev.trans hdev)]
        exact hempty
    · have hl : s.pendingBufList = [] := h.resolve_left hdev
      refine ⟨s, .pending hclear rfl (Bool.eq_false_iff.2 hdev) (.ended (pendingRound_nil hl)), ?_, ?_⟩
      · rw [ReleaseState.pending, if_neg hdev, hl, List.map_nil, List.append_nil]
      · rw [ReleaseState.pending, if_neg hdev]
        exact hl

/-- One buffer is left on a camera's list when the queue has been cleared. -/
theorem queueReleaseBuffers_endless : ¬ ∀ (stream : Stream) (queueType : QueueType) (reply : Mem) (s : ReleaseState),
    Released stream queueType (.answered reply) s := by
  intro h
  let info : FormatInfo := ⟨0, 0, 0, 0, 0, 0, ⟨0, 0, 0, 0⟩, 0, Vector.replicate maxPlanes ⟨0, 0⟩⟩
  obtain ⟨t, ht, -⟩ := h ⟨1, .running, info, info, ⟨0, 0, 0⟩⟩ .output (fun _ => 0) ⟨false, [7], [], [], []⟩
  cases ht with
  | pending _ _ _ hloop => exact pendingLoop_endless (List.cons_ne_nil _ _) t hloop
  | ready _ _ hdev => cases hdev

end Agl.VirtioVideo
