/-
STREAMOFF on a decoder or encoder queue: `vb2_wait_for_all_buffers` returns
when the driver has no buffer of the queue left.

A buffer leaves the driver in the callback of its `RESOURCE_QUEUE`, and while
its queue waits in no other way. `virtio_video_buf_queue` has nobody to tell
that its command has failed: the buffer stays with the driver, without a
command, and the wait for it never ends (`streamOff_stuck_iff`). When every
command is taken, each buffer that the driver has is owed an answer, and the
wait can always end (`waits_end`).

No run may count on an answer that is taken for a refused vbuf
(`Act.isLate`). A camera is left out, whose loops over `pending_buf_list`
complete buffers as well.
-/
import Agl.Video.BuffersFacts

namespace Agl.VirtioVideo.Buffers

/-- `stop_streaming` of the queue is in `vb2_wait_for_all_buffers`. -/
def State.Waits (s : State) (k : QKey) : Prop := ∃ q free, s.queues.lookup k = some q ∧ q.pc = .wait free

/-- And is so in every run from here, late answers aside. -/
def Stuck (s : State) (k : QKey) : Prop := ∀ t, (machine.startAt s).Reach (fun _ a => a.isLate = false) t → t.Waits k

/-- A buffer of the queue is with the driver, and the device owes no answer
for it. -/
def State.Orphan (s : State) (k : QKey) (b : Nat) : Prop :=
  s.bufs.lookup b = some { queue := k, st := .active } ∧ .buf b ∉ s.listed

/-! ## What a step does to buffers and queues -/

/-- What becomes of the `RESOURCE_QUEUE` that a step sends. -/
def Act.submits : Act → Option Submit
  | .qbuf _ r => some r
  | .enqueue _ r => some r
  | _ => none

def QPc.waits : QPc → Bool
  | .wait _ => true
  | _ => false

/-- The effects of a step: vb2 leaves a queue that waits to itself until the
driver has none of its buffers. -/
inductive Change (s : State) (a : Act) : State → Prop
  | opened {q q' : VQueue} :
    Change s a { s with
      streams := s.streams.insert s.nextStream false
      queues := (s.queues.insert (s.nextStream, .input) q).insert (s.nextStream, .output) q'
      nextStream := s.nextStream + 1 }
  | alloc {k q} : s.queues.lookup k = some q →
    Change s a { s.setBuf s.nextBuf { queue := k, st := .dequeued } with nextBuf := s.nextBuf + 1 }
  | queue {k q q'} : s.queues.lookup k = some q → (q.pc.waits = true → ¬ s.has k .active) → Change s a (s.setQueue k q')
  | hand {b v q r} : s.bufs.lookup b = some v → s.queues.lookup v.queue = some q → q.pc.waits = false →
    a.submits = some r → Change s a (bufQueue s b v r)
  | move {b v q st} : s.bufs.lookup b = some v → s.queues.lookup v.queue = some q → q.pc.waits = false →
    (st = .active → v.st = .active) → Change s a (s.setBuf b { v with st })
  /-- in a loop over `pending_buf_list` -/
  | release {b} : b ∈ s.pendingBufList → Change s a (bufDone s b)
  | free {b v q} : s.bufs.lookup b = some v → s.queues.lookup v.queue = some q → q.pc.waits = false →
    Change s a { s with bufs := s.bufs.erase b }
  | answer {b} : .buf b ∈ s.listed → Change s a { callback s (.buf b) with listed := s.listed.erase (.buf b) }
  | late {b refused} : a.isLate = true → Change s a { callback s (.buf b) with refused }
  /-- streams, locks and synchronous calls -/
  | other {streams lock listed refused waiting workerLoop ran} : (∀ b, .buf b ∈ listed ↔ .buf b ∈ s.listed) →
    Change s a { s with streams, lock, listed, refused, waiting, workerLoop, ran }

section

variable {s s' : State} {a : Act}

theorem State.ready_waits {k : QKey} {q : VQueue} (h : s.ready k = some q) :
    s.queues.lookup k = some q ∧ q.pc.waits = false := by
  obtain ⟨hq, hpc⟩ := State.ready_some h
  exact ⟨hq, by rw [hpc]; rfl⟩

/-- A queue that does not wait is set. -/
theorem Change.of_not_waits {k : QKey} {q : VQueue} (q' : VQueue) (hq : s.queues.lookup k = some q)
    (hpc : q.pc.waits = false) : Change s a (s.setQueue k q') :=
  .queue hq fun hw => by cases hpc.symm.trans hw

theorem opened_change (hs : opened s = some s') : Change s a s' := by
  unfold opened at hs
  split at hs
  · cases hs
  · cases hs
    exact .opened

theorem alloc_change {k : QKey} (hs : alloc s k = some s') : Change s a s' := by
  simp only [alloc, Option.bind_eq_bind, Option.bind_eq_some_iff] at hs
  obtain ⟨q, hr, hs⟩ := hs
  cases hs
  exact .alloc (State.ready_some hr).1

theorem qbuf_change {b : Nat} {r : Submit} (hs : qbuf s b r = some s') : Change s (.qbuf b r) s' := by
  simp only [qbuf, Option.bind_eq_bind, Option.bind_eq_some_iff] at hs
  obtain ⟨v, hv, q, hr, hs⟩ := hs
  obtain ⟨hq, hpc⟩ := State.ready_waits hr
  split at hs
  · cases hs
  · split at hs
    · cases hs
      exact .hand hv hq hpc rfl
    · cases hs
      exact .move hv hq hpc (by simp)

theorem streamOn_change {k : QKey} (hs : streamOn s k = some s') : Change s a s' := by
  simp only [streamOn, Option.bind_eq_bind, Option.bind_eq_some_iff] at hs
  obtain ⟨q, hr, hs⟩ := hs
  cases hs
  exact .of_not_waits _ (State.ready_waits hr).1 (State.ready_waits hr).2

theorem vb2Start_change {k : QKey} (hs : vb2Start s k = some s') : Change s a s' := by
  simp only [vb2Start, Option.bind_eq_bind, Option.bind_eq_some_iff] at hs
  obtain ⟨q, hr, hs⟩ := hs
  split at hs
  · cases hs
    exact .of_not_waits _ (State.ready_waits hr).1 (State.ready_waits hr).2
  · cases hs

theorem enqueue_change {b : Nat} {r : Submit} (hs : enqueue s b r = some s') : Change s (.enqueue b r) s' := by
  simp only [enqueue, Option.bind_eq_bind, Option.bind_eq_some_iff] at hs
  obtain ⟨v, hv, q, hq, hs⟩ := hs
  split at hs
  · next hg =>
    cases hs
    exact .hand hv hq (by rw [hg.1]; rfl) rfl
  · cases hs

theorem startStreaming_change {k : QKey} {ok : Bool} (hs : startStreaming s k ok = some s') : Change s a s' := by
  simp only [startStreaming, Option.bind_eq_bind, Option.bind_eq_some_iff] at hs
  obtain ⟨q, hq, hs⟩ := hs
  split at hs
  · next hpc =>
    split at hs
    · cases hs
    · cases hs
      exact .of_not_waits _ hq (by rw [hpc]; rfl)
  · next hpc =>
    cases hs
    exact .of_not_waits _ hq (by rw [hpc]; rfl)
  · cases hs

theorem takeBack_change {b : Nat} (hs : takeBack s b = some s') : Change s a s' := by
  simp only [takeBack, Option.bind_eq_bind, Option.bind_eq_some_iff] at hs
  obtain ⟨v, hv, q, hq, hs⟩ := hs
  split at hs
  · next hpc _ =>
    cases hs
    exact .move hv hq (by rw [hpc]; rfl) (by simp)
  · next hpc _ =>
    cases hs
    exact .move hv hq (by rw [hpc]; rfl) (by simp)
  · next hpc _ =>
    cases hs
    exact .move hv hq (by rw [hpc]; rfl) (by simp)
  · cases hs

theorem takenBack_change {k : QKey} (hs : takenBack s k = some s') : Change s a s' := by
  simp only [takenBack, Option.bind_eq_bind, Option.bind_eq_some_iff] at hs
  obtain ⟨q, hq, hs⟩ := hs
  split at hs
  · cases hs
  · next hact =>
    split at hs
    · cases hs
      exact .queue hq fun _ => hact
    · split at hs
      · cases hs
      · cases hs
        exact .queue hq fun _ => hact
    · cases hs

theorem streamOff_change {k : QKey} (hs : streamOff s k = some s') : Change s a s' := by
  simp only [streamOff, Option.bind_eq_bind, Option.bind_eq_some_iff] at hs
  obtain ⟨q, hr, hs⟩ := hs
  cases hs
  exact .of_not_waits _ (State.ready_waits hr).1 (State.ready_waits hr).2

theorem reqbufs_change {k : QKey} (hs : reqbufs s k = some s') : Change s a s' := by
  simp only [reqbufs, Option.bind_eq_bind, Option.bind_eq_some_iff] at hs
  obtain ⟨q, hr, hs⟩ := hs
  split at hs
  · cases hs
  · cases hs
    exact .of_not_waits _ (State.ready_waits hr).1 (State.ready_waits hr).2

theorem releaseQueue_change {k : QKey} (hs : releaseQueue s k = some s') : Change s a s' := by
  simp only [releaseQueue, Option.bind_eq_bind, Option.bind_eq_some_iff] at hs
  obtain ⟨q, hq, hs⟩ := hs
  split at hs
  · next hg =>
    cases hs
    exact .of_not_waits _ hq (by rw [hg.2]; rfl)
  · cases hs

theorem stopStep_change {k : QKey} {ok : Bool} (hs : stopStep s k ok = some s') : Change s a s' := by
  simp only [stopStep, Option.bind_eq_bind, Option.bind_eq_some_iff] at hs
  obtain ⟨q, hq, hs⟩ := hs
  split at hs
  · next hpc =>
    cases hs
    exact .of_not_waits _ hq (by rw [hpc]; rfl)
  · next hpc =>
    cases hs
    cases hh : s.pendingBufList.head? with
    | none =>
      simp only [releaseFirst, hh, Option.map_none, Option.getD_none]
      exact .of_not_waits _ hq (by rw [hpc]; rfl)
    | some b =>
      simp only [releaseFirst, hh, Option.map_some, Option.getD_some]
      exact .release (List.mem_of_head? hh)
  · split at hs
    · cases hs
    · next hact =>
      cases hs
      exact .queue hq fun _ => hact
  · cases hs

theorem freeBuf_change {b : Nat} (hs : freeBuf s b = some s') : Change s a s' := by
  simp only [freeBuf, Option.bind_eq_bind, Option.bind_eq_some_iff] at hs
  obtain ⟨v, hv, q, hq, hs⟩ := hs
  split at hs
  · next hpc =>
    cases hs
    exact .free hv hq (by rw [hpc]; rfl)
  · cases hs

theorem freedBufs_change {k : QKey} (hs : freedBufs s k = some s') : Change s a s' := by
  simp only [freedBufs, Option.bind_eq_bind, Option.bind_eq_some_iff] at hs
  obtain ⟨q, hq, hs⟩ := hs
  split at hs
  · next hg =>
    cases hs
    exact .of_not_waits _ hq (by rw [hg.1]; rfl)
  · cases hs

theorem syncCmd_change {stream : Nat} {worker : Bool} {r : Submit} (hs : syncCmd s stream worker r = some s') :
    Change s a s' := by
  unfold syncCmd at hs
  split at hs
  · cases hs
    cases r with
    | queued => exact .other (by simp [State.submit])
    | refused => exact .other fun _ => Iff.rfl
    | failed => exact .other fun _ => Iff.rfl
  · cases hs

theorem syncDone_change {stream : Nat} {worker : Bool} (hs : syncDone s stream worker = some s') :
    Change s a s' := by
  unfold syncDone at hs
  split at hs
  · cases hs
    exact .other fun b => List.mem_erase_of_ne (by simp)
  · cases hs

theorem deviceRelease_change {stream : Nat} (hs : deviceRelease s stream = some s') : Change s a s' := by
  unfold deviceRelease at hs
  split at hs
  · cases hs
    exact .other fun _ => Iff.rfl
  · cases hs

theorem streamFreed_change {stream : Nat} (hs : streamFreed s stream = some s') : Change s a s' := by
  unfold streamFreed at hs
  split at hs
  · cases hs
    exact .other fun _ => Iff.rfl
  · cases hs

theorem handleEvent_change {stream : Nat} (hs : handleEvent s stream = some s') : Change s a s' := by
  unfold handleEvent at hs
  split at hs
  · cases hs
    exact .other fun _ => Iff.rfl
  · cases hs

theorem handleError_change {ok : Bool} (hs : handleError s ok = some s') : Change s a s' := by
  unfold handleError at hs
  split at hs
  · split at hs
    · cases hs
      cases hh : s.pendingBufList.head? with
      | none =>
        simp only [releaseFirst, hh, Option.map_none, Option.getD_none]
        exact .other fun _ => Iff.rfl
      | some b =>
        simp only [releaseFirst, hh, Option.map_some, Option.getD_some]
        exact .release (List.mem_of_head? hh)
    · cases hs
      exact .other fun _ => Iff.rfl
  · cases hs

theorem eventDone_change (hs : eventDone s = some s') : Change s a s' := by
  unfold eventDone at hs
  split at hs
  · split at hs
    · cases hs
    · cases hs
      exact .other fun _ => Iff.rfl
  · cases hs

theorem answer_change {p : Priv} (hs : answer s p = some s') : Change s a s' := by
  unfold answer at hs
  split at hs
  · next hp =>
    cases p with
    | buf b =>
      cases hs
      exact .answer hp
    | stream stream =>
      cases hs
      exact .other fun _ => Iff.rfl
  · cases hs

theorem answerLate_change {p : Priv} (hs : answerLate s p = some s') : Change s (.answerLate p) s' := by
  unfold answerLate at hs
  split at hs
  · cases p with
    | buf b =>
      cases hs
      exact .late rfl
    | stream stream =>
      cases hs
      exact .other fun _ => Iff.rfl
  · cases hs

theorem step_change (hs : step s a = some s') : Change s a s' := by
  cases a with
  | opened => exact opened_change hs
  | alloc => exact alloc_change hs
  | qbuf => exact qbuf_change hs
  | streamOn => exact streamOn_change hs
  | vb2Start => exact vb2Start_change hs
  | enqueue => exact enqueue_change hs
  | startStreaming => exact startStreaming_change hs
  | takeBack => exact takeBack_change hs
  | takenBack => exact takenBack_change hs
  | streamOff => exact streamOff_change hs
  | reqbufs => exact reqbufs_change hs
  | stopStep => exact stopStep_change hs
  | freeBuf => exact freeBuf_change hs
  | freedBufs => exact freedBufs_change hs
  | syncCmd => exact syncCmd_change hs
  | syncDone => exact syncDone_change hs
  | deviceRelease => exact deviceRelease_change hs
  | releaseQueue => exact releaseQueue_change hs
  | streamFreed => exact streamFreed_change hs
  | handleEvent => exact handleEvent_change hs
  | handleError => exact handleError_change hs
  | eventDone => exact eventDone_change hs
  | answer => exact answer_change hs
  | answerLate => exact answerLate_change hs

end

/-! ## Numbers -/

/-- Streams and buffers have been numbered, and only a camera has a
`pending_buf_list`. -/
structure Numbered (s : State) : Prop where
  queues : Table.All (fun k _ => k.1 < s.nextStream) s.queues
  bufs : Table.All (fun b _ => b < s.nextBuf) s.bufs
  pending : s.type ≠ .camera → s.pendingBufList = []

section

variable {s s' : State} {a : Act} {k : QKey} {b : Nat}

/-- Only an active buffer is done. -/
theorem bufDone_cases (s : State) (b : Nat) :
    bufDone s b = s ∧ (∀ v, s.bufs.lookup b = some v → v.st ≠ .active) ∨
      ∃ v, s.bufs.lookup b = some v ∧ bufDone s b = s.setBuf b { v with st := .dequeued } := by
  unfold bufDone
  split
  · next v hv =>
    split
    · exact .inr ⟨v, hv, rfl⟩
    · next hst =>
      refine .inl ⟨rfl, fun w hw => ?_⟩
      cases hv.symm.trans hw
      exact hst
  · next hnone => exact .inl ⟨rfl, fun w hw => by cases hnone.symm.trans hw⟩

/-- A callback does no more to buffers and queues. -/
theorem callback_eq (s : State) (b : Nat) : ∃ there, callback s (.buf b) =
    { s with
      bufs := (bufDone s b).bufs
      pendingBufList := (s.pendingDel b).pendingBufList
      ran := there :: s.ran } := by
  refine ⟨decide (∃ v ∈ s.bufs.lookup b, v.st = .active), ?_⟩
  have hlookup : (s.pendingDel b).bufs = s.bufs := rfl
  simp only [callback, bufDone, hlookup]
  cases s.bufs.lookup b with
  | none => rfl
  | some v =>
    by_cases hact : v.st = .active
    · simp only [hact, if_true]
      rfl
    · simp only [hact, if_false]
      rfl

theorem bufQueue_eq (s : State) (b : Nat) (v : VBuf) (r : Submit) : ∃ listed refused,
    (∀ p ≠ .buf b, p ∈ listed ↔ p ∈ s.listed) ∧ (r = .queued → .buf b ∈ listed) ∧
      bufQueue s b v r = { s with
        bufs := s.bufs.insert b { v with st := .active }
        pendingBufList := (s.pendingAdd b).pendingBufList, listed, refused } := by
  cases r with
  | queued =>
    refine ⟨.buf b :: s.listed, _, fun p hp => ?_, fun _ => List.mem_cons_self, rfl⟩
    exact ⟨fun h => (List.mem_cons.mp h).resolve_left hp, List.mem_cons_of_mem _⟩
  | refused => exact ⟨_, _, fun _ _ => Iff.rfl, by simp, rfl⟩
  | failed => exact ⟨_, _, fun _ _ => Iff.rfl, by simp, rfl⟩

theorem Numbered.bufDone (h : Numbered s) (b : Nat) :
    Table.All (fun b _ => b < s.nextBuf) (Buffers.bufDone s b).bufs := by
  obtain ⟨he, -⟩ | ⟨v, hv, he⟩ := bufDone_cases s b
  · rw [he]
    exact h.bufs
  · rw [he]
    exact h.bufs.insert (h.bufs b v hv)

theorem pendingDel_nil (h : s.type ≠ .camera → s.pendingBufList = []) (b : Nat) (ht : s.type ≠ .camera) :
    (s.pendingDel b).pendingBufList = [] := by
  simp [State.pendingDel, ht, h ht]

theorem pendingAdd_nil (h : s.type ≠ .camera → s.pendingBufList = []) (b : Nat) (ht : s.type ≠ .camera) :
    (s.pendingAdd b).pendingBufList = [] := by
  simp [State.pendingAdd, ht, h ht]

theorem Numbered.change (h : Numbered s) (hc : Change s a s') : Numbered s' := by
  have hdone := h.bufDone
  obtain ⟨queues, bufs, pending⟩ := h
  cases hc with
  | opened =>
    have hup : Table.All (fun k _ => k.1 < s.nextStream + 1) s.queues := fun k q hk => Nat.lt_succ_of_lt (queues k q hk)
    exact ⟨(hup.insert (Nat.lt_succ_self _)).insert (Nat.lt_succ_self _), bufs, pending⟩
  | alloc =>
    have hup : Table.All (fun b _ => b < s.nextBuf + 1) s.bufs := fun b v hb => Nat.lt_succ_of_lt (bufs b v hb)
    exact ⟨queues, hup.insert (Nat.lt_succ_self _), pending⟩
  | queue hq => exact ⟨queues.insert (queues _ _ hq), bufs, pending⟩
  | @hand b v q r hv =>
    obtain ⟨listed, refused, -, -, he⟩ := bufQueue_eq s b v r
    rw [he]
    exact ⟨queues, bufs.insert (bufs _ _ hv), pendingAdd_nil pending b⟩
  | move hv => exact ⟨queues, bufs.insert (bufs _ _ hv), pending⟩
  | @release b =>
    obtain ⟨he, -⟩ | ⟨v, hv, he⟩ := bufDone_cases s b
    · rw [he]
      exact ⟨queues, bufs, pending⟩
    · rw [he]
      exact ⟨queues, bufs.insert (bufs b v hv), pending⟩
  | free => exact ⟨queues, bufs.erase, pending⟩
  | @answer b =>
    obtain ⟨there, he⟩ := callback_eq s b
    rw [he]
    exact ⟨queues, hdone b, pendingDel_nil pending b⟩
  | @late b =>
    obtain ⟨there, he⟩ := callback_eq s b
    rw [he]
    exact ⟨queues, hdone b, pendingDel_nil pending b⟩
  | other => exact ⟨queues, bufs, pending⟩

theorem numbered_inductive : machine.Inductive (fun _ _ => True) Numbered where
  init s hs := by
    obtain ⟨type, rfl⟩ := hs
    refine ⟨?_, ?_, fun _ => rfl⟩
    · intro k q hk
      cases hk
    · intro b v hb
      cases hb
  step _ _ _ h _ hs := h.change (step_change hs)

/-! ## A buffer without a command -/

/-- `b` is stranded with the driver while its queue waits. -/
structure Stranded (k : QKey) (b : Nat) (s : State) : Prop where
  mem2mem : s.type ≠ .camera
  numbered : Numbered s
  queue : s.Waits k
  orphan : s.Orphan k b

theorem waits_insert {queues : Table QKey VQueue} (h : ∃ q free, queues.lookup k = some q ∧ q.pc = .wait free)
    {k' : QKey} (hne : k ≠ k') (q : VQueue) :
    ∃ q' free, (queues.insert k' q).lookup k = some q' ∧ q'.pc = .wait free := by
  obtain ⟨q', free, hq, hpc⟩ := h
  exact ⟨q', free, Table.lookup_insert_some.mpr (.inr ⟨hne, hq⟩), hpc⟩

theorem State.Waits.waits (h : s.Waits k) {q : VQueue} (hq : s.queues.lookup k = some q) : q.pc.waits = true := by
  obtain ⟨q', free, hq', hpc⟩ := h
  cases hq.symm.trans hq'
  rw [hpc]
  rfl

theorem State.Orphan.active (h : s.Orphan k b) : s.has k .active := ⟨⟨b, _⟩, AList.mem_lookup_iff.mp h.1, rfl, rfl⟩

namespace Stranded

variable (h : Stranded k b s)
include h

/-- A buffer that vb2 moves is another one. -/
theorem ne {c : Nat} {v : VBuf} {q : VQueue} (hv : s.bufs.lookup c = some v) (hq : s.queues.lookup v.queue = some q)
    (hpc : q.pc.waits = false) : b ≠ c := by
  rintro rfl
  cases h.orphan.1.symm.trans hv
  cases hpc.symm.trans (h.queue.waits hq)

theorem setBuf {c : Nat} (hne : b ≠ c) (v : VBuf) :
    (s.bufs.insert c v).lookup b = some { queue := k, st := .active } :=
  Table.lookup_insert_some.mpr (.inr ⟨hne, h.orphan.1⟩)

theorem change (hc : Change s a s') (ha : a.isLate = false) : Stranded k b s' := by
  have hnum := h.numbered.change hc
  obtain ⟨mem2mem, numbered, queue, buf, unowed⟩ := id h
  cases hc with
  | opened =>
    have hlt : k.1 < s.nextStream := by
      obtain ⟨q, -, hq, -⟩ := queue
      exact numbered.queues k q hq
    have hne (type : QueueType) : k ≠ (s.nextStream, type) := by
      rintro rfl
      exact Nat.lt_irrefl _ hlt
    exact ⟨mem2mem, hnum, waits_insert (waits_insert queue (hne .input) _) (hne .output) _, buf, unowed⟩
  | alloc =>
    have hlt : b < s.nextBuf := numbered.bufs b _ buf
    exact ⟨mem2mem, hnum, queue, h.setBuf (Nat.ne_of_lt hlt) _, unowed⟩
  | @queue k' q q' hq hpc =>
    have hne : k ≠ k' := by
      rintro rfl
      exact hpc (queue.waits hq) h.orphan.active
    exact ⟨mem2mem, hnum, waits_insert queue hne _, buf, unowed⟩
  | @hand c v q r hv hq hpc =>
    have hne := h.ne hv hq hpc
    obtain ⟨listed, refused, hlisted, -, he⟩ := bufQueue_eq s c v r
    rw [he] at hnum ⊢
    exact ⟨mem2mem, hnum, queue, h.setBuf hne _, fun hb => unowed ((hlisted _ (by simp [hne])).mp hb)⟩
  | move hv hq hpc => exact ⟨mem2mem, hnum, queue, h.setBuf (h.ne hv hq hpc) _, unowed⟩
  | release hb =>
    rw [numbered.pending mem2mem] at hb
    cases hb
  | free hv hq hpc =>
    exact ⟨mem2mem, hnum, queue, Table.lookup_erase_some.mpr ⟨h.ne hv hq hpc, buf⟩, unowed⟩
  | @answer c hc =>
    have hne : b ≠ c := by
      rintro rfl
      exact unowed hc
    obtain ⟨there, he⟩ := callback_eq s c
    rw [he] at hnum ⊢
    refine ⟨mem2mem, hnum, queue, ?_, fun hb => unowed (List.mem_of_mem_erase hb)⟩
    obtain ⟨he, -⟩ | ⟨v, -, he⟩ := bufDone_cases s c
    · rw [he]
      exact buf
    · rw [he]
      exact h.setBuf hne _
  | late hl => cases ha.symm.trans hl
  | other hl => exact ⟨mem2mem, hnum, queue, buf, fun hb => unowed ((hl b).mp hb)⟩

end Stranded

/-- Nobody brings it back. -/
theorem Stranded.stuck (h : Stranded k b s) : Stuck s k := by
  have hrun : ∀ t, (machine.startAt s).Reach (fun _ a => a.isLate = false) t → Stranded k b t := by
    intro t ht
    induction ht with
    | init he => exact he ▸ h
    | step _ ha hs ih => exact ih.change (step_change hs) ha
  exact fun t ht => (hrun t ht).queue

/-! ## A queue whose buffers are all owed -/

/-- Each buffer of the queue that the driver has is owed an answer. -/
def State.Owed (s : State) (k : QKey) : Prop :=
  ∀ b, s.bufs.lookup b = some { queue := k, st := .active } → .buf b ∈ s.listed

/-- The answer for one of them. -/
theorem answer_owed (ho : s.Owed k) (hb : s.bufs.lookup b = some { queue := k, st := .active }) :
    ∃ t, machine.step s (.answer (.buf b)) = some t ∧ t.queues = s.queues ∧ t.Owed k ∧
      t.listed.length + 1 = s.listed.length := by
  have hl := ho b hb
  obtain ⟨there, he⟩ := callback_eq s b
  have hdone : (bufDone s b).bufs = s.bufs.insert b { queue := k, st := .dequeued } := by
    simp [bufDone, hb, State.setBuf]
  refine ⟨_, if_pos hl, by rw [he], ?_, ?_⟩
  · intro c hc
    rw [he] at hc
    obtain ⟨-, hc⟩ | ⟨hne, hc⟩ := Table.lookup_insert_some.mp (hdone ▸ hc)
    · cases hc
    · exact (List.mem_erase_of_ne (by simpa using hne)).mpr (ho c hc)
  · rw [List.length_erase_of_mem hl]
    have := List.length_pos_of_mem hl
    omega

/-- When there is none the wait is over. -/
theorem wait_over {q : VQueue} {free : Bool} (hq : s.queues.lookup k = some q) (hpc : q.pc = .wait free)
    (hn : ¬ s.has k .active) : ∃ t, machine.step s (.stopStep k true) = some t ∧ ¬ t.Waits k := by
  refine ⟨s.setQueue k { q with pc := .cancel free }, ?_, ?_⟩
  · simp [machine, step, stopStep, hq, hpc, hn]
  · intro h
    obtain ⟨q', free', hq', hpc'⟩ := h
    cases (AList.lookup_insert _).symm.trans hq'
    cases hpc'

theorem State.has_active (h : s.has k .active) : ∃ b, s.bufs.lookup b = some { queue := k, st := .active } := by
  obtain ⟨⟨b, v⟩, hmem, rfl, hst⟩ := h
  refine ⟨b, ?_⟩
  rw [AList.mem_lookup_iff.mpr hmem, ← hst]

/-- By recursion on the answers to come. -/
theorem leaves_of_owed {s₀ s : State} {k : QKey} (hrun : (machine.startAt s₀).Reach (fun _ a => a.isLate = false) s)
    (hw : s.Waits k) (ho : s.Owed k) :
    ∃ t, (machine.startAt s₀).Reach (fun _ a => a.isLate = false) t ∧ ¬ t.Waits k := by
  by_cases hact : s.has k .active
  · obtain ⟨b, hb⟩ := State.has_active hact
    obtain ⟨t, hs, hqueues, ht, hlen⟩ := answer_owed ho hb
    have hwait : t.Waits k := by
      rw [State.Waits, hqueues]
      exact hw
    have hs : (machine.startAt s₀).step s (.answer (.buf b)) = some t := hs
    exact leaves_of_owed (.step hrun rfl hs) hwait ht
  · obtain ⟨q, free, hq, hpc⟩ := hw
    obtain ⟨t, hs, ht⟩ := wait_over hq hpc hact
    have hs : (machine.startAt s₀).step s (.stopStep k true) = some t := hs
    exact ⟨t, .step hrun rfl hs, ht⟩
termination_by s.listed.length

theorem not_stuck_of_owed (hw : s.Waits k) (ho : s.Owed k) : ¬ Stuck s k := by
  intro hstuck
  obtain ⟨t, ht, hn⟩ := leaves_of_owed (.init rfl) hw ho
  exact hn (hstuck t ht)

/-- **When STREAMOFF hangs.** On a decoder or encoder, in every run: a queue
that waits for its buffers waits for ever, whatever the device and the
applications do, late answers aside (`Act.isLate`), exactly if one of them is
with the driver and the device owes no answer for it. -/
theorem streamOff_stuck_iff (hs : machine.Reachable s) (ht : s.type ≠ .camera) (hw : s.Waits k) :
    Stuck s k ↔ ∃ b, s.Orphan k b := by
  constructor
  · intro hstuck
    by_contra hnone
    refine not_stuck_of_owed hw (fun b hb => ?_) hstuck
    by_contra hl
    exact hnone ⟨b, hb, hl⟩
  · intro h
    obtain ⟨b, hb⟩ := h
    exact Stranded.stuck ⟨ht, numbered_inductive.reach hs, hw, hb⟩

/-! ## Commands that are all taken -/

/-- The virtqueue takes the `RESOURCE_QUEUE` that the step sends. -/
def Act.Taken (a : Act) : Prop := ∀ r ∈ a.submits, r = .queued

/-- A buffer that is done is not with the driver. -/
theorem bufDone_active {c : Nat} (hb : (bufDone s c).bufs.lookup b = some { queue := k, st := .active }) :
    b ≠ c ∧ s.bufs.lookup b = some { queue := k, st := .active } := by
  obtain ⟨he, hst⟩ | ⟨v, -, he⟩ := bufDone_cases s c
  · rw [he] at hb
    refine ⟨?_, hb⟩
    rintro rfl
    exact hst _ hb rfl
  · rw [he] at hb
    obtain ⟨-, hb⟩ | h := Table.lookup_insert_some.mp hb
    · cases hb
    · exact h

/-- Then each buffer that the driver has is owed an answer. -/
theorem Owed.change (h : ∀ k, s.Owed k) (hc : Change s a s') (ha : a.Taken) (k : QKey) : s'.Owed k := by
  intro b hb
  cases hc with
  | opened => exact h k b hb
  | alloc =>
    obtain ⟨-, hb⟩ | ⟨-, hb⟩ := Table.lookup_insert_some.mp hb
    · cases hb
    · exact h k b hb
  | queue => exact h k b hb
  | @hand c v q r hv _ _ hr =>
    obtain ⟨listed, refused, hother, hself, he⟩ := bufQueue_eq s c v r
    rw [he] at hb ⊢
    obtain ⟨rfl, -⟩ | ⟨hne, hb⟩ := Table.lookup_insert_some.mp hb
    · exact hself (ha r hr)
    · exact (hother _ (by simpa using hne)).mpr (h k b hb)
  | @move c v q st hv _ _ hst =>
    obtain ⟨rfl, he⟩ | ⟨-, hb⟩ := Table.lookup_insert_some.mp hb
    · obtain ⟨rfl, rfl⟩ : v.queue = k ∧ st = .active := by simpa using he
      exact h v.queue b (by rw [hv, ← hst rfl])
    · exact h k b hb
  | @release c =>
    have hown : (bufDone s c).listed = s.listed := by
      obtain ⟨he, -⟩ | ⟨v, -, he⟩ := bufDone_cases s c
      · rw [he]
      · rw [he]
        rfl
    rw [hown]
    exact h k b (bufDone_active hb).2
  | free => exact h k b (Table.lookup_erase_some.mp hb).2
  | @answer c hc =>
    obtain ⟨there, he⟩ := callback_eq s c
    rw [he] at hb
    obtain ⟨hne, hb⟩ := bufDone_active hb
    exact (List.mem_erase_of_ne (by simpa using hne)).mpr (h k b hb)
  | @late c =>
    obtain ⟨there, he⟩ := callback_eq s c
    rw [he] at hb ⊢
    exact h k b (bufDone_active hb).2
  | other hl => exact (hl b).mpr (h k b hb)

theorem owed_inductive : machine.Inductive (fun _ a => a.Taken) fun s => ∀ k, s.Owed k where
  init s hs := by
    obtain ⟨type, rfl⟩ := hs
    intro k b hb
    cases hb
  step _ _ _ h ha hs := Owed.change h (step_change hs) ha

/-- When every command is taken no STREAMOFF hangs. -/
theorem waits_end (hs : machine.Reach (fun _ a => a.Taken) s) (hw : s.Waits k) : ¬ Stuck s k :=
  not_stuck_of_owed hw (owed_inductive.reach hs k)

end

/-- A buffer whose `RESOURCE_QUEUE` has failed, in the decoder's STREAMOFF. -/
theorem streamOff_stuck_failed : ∃ s : State, s.Waits (0, .input) ∧ Stuck s (0, .input) := by
  obtain ⟨s, hs, ht, hw, hb⟩ := Machine.exists_reach (fun _ _ => True) (probe_init .decoder)
    [.opened, .alloc (0, .input), .streamOn (0, .input), .vb2Start (0, .input), .startStreaming (0, .input) true,
      .startStreaming (0, .input) true, .qbuf 0 .failed, .streamOff (0, .input), .stopStep (0, .input) true]
    (fun s => s.type ≠ .camera ∧ s.queues.lookup (0, .input) = some ⟨true, true, .wait false⟩ ∧
      s.bufs.lookup 0 = some ⟨(0, .input), .active⟩ ∧ s.listed = []) (by decide +kernel)
  have hwait : s.Waits (0, .input) := ⟨_, false, hw, rfl⟩
  exact ⟨s, hwait, (streamOff_stuck_iff hs ht hwait).mpr ⟨0, hb.1, by rw [hb.2]; exact List.not_mem_nil⟩⟩

end Agl.VirtioVideo.Buffers
