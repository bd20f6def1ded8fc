/-
The payload a capture buffer is handed back with, over any history of format
changes.

`virtio_video_buf_done` takes the sizes from the response on an encoder, and
from the format of the moment on a decoder or a camera. The planes of a buffer
have the lengths vb2 gave them when it was allocated: at least the sizes of
`virtio_video_queue_setup`. A plane outside its array in another function has
no outcome here (`Planes` is about these); output buffers are left out.
-/
import Agl.Lib.Machine
import Agl.Video.Dequeue
import Agl.Video.Format

namespace Agl.VirtioVideo.Payload

/-! ## The machine -/

/-- A capture buffer and the lengths of its planes. -/
structure Buffer where
  vb : VideoBuffer
  lengths : Vector UInt32 maxPlanes

/-- A buffer handed back: how many planes `bytesused` was written of, and what
it came to, unless the loop left the array. -/
structure Completed where
  numPlanes : Nat
  lengths : Vector UInt32 maxPlanes
  written : Nat
  bytesused : Option (Vector UInt32 maxPlanes)

structure State where
  vvd : Device
  fmts : FormatLists
  stream : Stream
  bufs : List Buffer
  completed : List Completed

inductive Act
  | sFmt (type : BufType) (pix : PixMp) (q : Queueing) (xIn xOut : Exchange)
  /-- `virtio_video_cmd_get_params`, for whatever caller -/
  | getParams (queueType : QueueType) (x : Exchange)
  /-- `VIRTIO_VIDEO_EVENT_DECODER_RESOLUTION_CHANGED` -/
  | resChanged (x : Exchange)
  | stateUpdate (newState : StreamState)
  /-- one buffer of REQBUFS (no planes given) or of CREATE_BUFS -/
  | alloc (resourceId numPlanes : UInt32) (sizes lengths : Vector UInt32 maxPlanes)
  | free (i : Nat)
  /-- QBUF, with the flags vb2 leaves -/
  | queue (i : Nat) (flags : UInt32)
  /-- the response to RESOURCE_QUEUE for buffer `i` -/
  | respond (i : Nat) (m : Mem)

/-- How many planes `virtio_video_buf_done` writes `bytesused` of. -/
def writtenPlanes (vvd : Device) (stream : Stream) (vb : VideoBuffer) (flags : UInt32) : Nat :=
  if DequeueFlag.err.isIn flags ∨ DequeueFlag.eos.isIn flags then 1
  else if vb.isOutput then 0
  else capturePlanes vvd stream vb

/-- The device sends its response for `b`, the buffer at `i`. -/
def State.complete (s : State) (i : Nat) (b : Buffer) (m : Mem) : State :=
  let written := writtenPlanes s.vvd s.stream b.vb (m.le32 8)
  match resourceQueueCb s.vvd s.stream b.vb m with
  | none => { s with completed := ⟨b.vb.numPlanes, b.lengths, written, none⟩ :: s.completed }
  | some c => { s with
      vvd := c.vvd
      stream := c.stream
      bufs := s.bufs.set i { b with vb := c.buffer }
      completed := ⟨b.vb.numPlanes, b.lengths, written, some c.buffer.bytesused⟩ :: s.completed }

/-- `virtio_video_handle_event` on a resolution change. -/
def handleResChange (s : Stream) (x : Exchange) : Option Stream := do
  let o ← cmdGetParams s .output x
  return if o.stream.state = .init then o.stream.stateUpdate .dynamicResChange else o.stream

/-- The sizes are at most the lengths, in the planes below `n`. -/
def Fit (n : Nat) (sizes lengths : Vector UInt32 maxPlanes) : Prop :=
  ∀ i (hi : i < maxPlanes), i < n → sizes[i] ≤ lengths[i]

instance (n : Nat) (sizes lengths : Vector UInt32 maxPlanes) : Decidable (Fit n sizes lengths) :=
  inferInstanceAs (Decidable (∀ i (hi : i < maxPlanes), i < n → sizes[i] ≤ lengths[i]))

/-- What vb2 makes of `queue_setup`: a buffer with these planes, each as long
as asked for or longer. -/
def newBuffer (resourceId : UInt32) (lengths : Vector UInt32 maxPlanes) :
    Except Errno (UInt32 × Vector UInt32 maxPlanes) → Option Buffer
  | .error _ => none
  | .ok (numPlanes, sizes) =>
    if 0 < numPlanes.toNat ∧ numPlanes.toNat ≤ maxPlanes ∧ Fit numPlanes.toNat sizes lengths then
      some ⟨⟨resourceId, false, false, 0, 0, numPlanes.toNat, .replicate _ 0⟩, lengths⟩
    else none

/-- QBUF: the buffer is queued, on a device without m2m also on its list. -/
def State.queue (s : State) (i : Nat) (b : Buffer) (flags : UInt32) : State :=
  { s with
    vvd := if s.vvd.isM2mDev then s.vvd
      else { s.vvd with pendingBufList := s.vvd.pendingBufList ++ [b.vb.resourceId] }
    bufs := s.bufs.set i { b with vb := { b.vb with queued := true, flags } } }

/-- One step. -/
def step (s : State) : Act → Option State
  | .sFmt type pix q xIn xOut => (sFmt s.fmts s.vvd.isM2mDev s.stream type pix q xIn xOut).toOption.map
      fun o => { s with stream := o.stream }
  | .getParams queueType x => (cmdGetParams s.stream queueType x).map fun o => { s with stream := o.stream }
  | .resChanged x => (handleResChange s.stream x).map fun stream => { s with stream }
  | .stateUpdate newState => some { s with stream := s.stream.stateUpdate newState }
  | .alloc resourceId numPlanes sizes lengths => do
    let r ← (queueSetup s.stream false numPlanes sizes).toOption
    let b ← newBuffer resourceId lengths r
    return { s with bufs := s.bufs ++ [b] }
  | .free i => some { s with bufs := s.bufs.eraseIdx i }
  | .queue i flags => (s.bufs[i]?).map fun b => s.queue i b flags
  | .respond i m => do
    let b ← s.bufs[i]?
    if b.vb.queued then return s.complete i b m else none

/-- A stream without buffers. -/
def machine : Machine State Act where
  init s := s.bufs = [] ∧ s.completed = []
  step := step

/-! ## What is asked for -/

/-- `bytesused` was written of the buffer's planes only, and is within each. -/
def Completed.Within (d : Completed) : Prop :=
  d.written ≤ d.numPlanes ∧ ∃ w ∈ d.bytesused, Fit d.numPlanes w d.lengths

-- the planes that were written are looked at, not all there could be
instance (d : Completed) : Decidable d.Within := @instDecidableAnd _ _ inferInstance d.bytesused.decidableExistsMem

/-- All buffers handed back hold what they say. -/
def AllWithin (s : State) : Prop := ∀ d ∈ s.completed, d.Within

instance : DecidablePred AllWithin := fun _ => inferInstanceAs (Decidable (∀ _ ∈ _, _))

/-- The size `virtio_video_buf_done` writes for plane `i`. -/
def payloadSize (vvd : Device) (stream : Stream) (m : Mem) (i : Nat) : UInt32 :=
  match vvd.type with
  | .encoder => m.le32 (24 + 4 * i)
  | .camera | .decoder => (stream.outInfo.planeFormat[i]?.map (·.planeSize)).getD 0

/-- The planes with a payload are planes of the buffer that can hold it. -/
def PayloadFits (vvd : Device) (stream : Stream) (b : Buffer) (m : Mem) : Prop :=
  capturePlanes vvd stream b.vb ≤ b.vb.numPlanes ∧
    ∀ i (hi : i < maxPlanes), i < capturePlanes vvd stream b.vb → payloadSize vvd stream m i ≤ b.lengths[i]

/-- A response ends the stream (by the bit tested for it) or its payload fits. -/
def Fits (s : State) : Act → Prop
  | .respond i m => ∀ b ∈ s.bufs[i]?, DequeueFlag.eos.isIn (m.le32 8) = true ∨ PayloadFits s.vvd s.stream b m
  | _ => True

instance (vvd : Device) (stream : Stream) (b : Buffer) (m : Mem) : Decidable (PayloadFits vvd stream b m) :=
  inferInstanceAs (Decidable (_ ∧ _))

instance (s : State) : (a : Act) → Decidable (Fits s a)
  | .respond i m => inferInstanceAs
      (Decidable (∀ b ∈ s.bufs[i]?, DequeueFlag.eos.isIn (m.le32 8) = true ∨ PayloadFits s.vvd s.stream b m))
  | .sFmt .. | .getParams .. | .resChanged .. | .stateUpdate .. | .alloc .. | .free .. | .queue .. =>
    inferInstanceAs (Decidable True)

/-! ## One response -/

/-- A buffer as vb2 allocates it and sound responses leave it. -/
structure Buffer.Ok (b : Buffer) : Prop where
  capture : b.vb.isOutput = false
  nonempty : 0 < b.vb.numPlanes
  bounded : b.vb.numPlanes ≤ maxPlanes
  fit : Fit b.vb.numPlanes b.vb.bytesused b.lengths

theorem captureBytesused_eq (vvd : Device) (stream : Stream) (vb : VideoBuffer) (m : Mem) :
    captureBytesused vvd stream vb (fun i => m.le32 (24 + 4 * i)) =
      writePlanes (payloadSize vvd stream m) (capturePlanes vvd stream vb) vb.bytesused := by
  unfold captureBytesused capturePlanes payloadSize
  cases vvd.type <;> rfl

/-- Written below `k` and kept from there on, the sizes fit when the new ones do. -/
theorem fit_writePlanes {f : Nat → UInt32} {k n : Nat} {old w lengths : Vector UInt32 maxPlanes}
    (hw : writePlanes f k old = some w) (hk : k ≤ n) (hn : n ≤ maxPlanes) (hold : Fit n old lengths) :
    Fit n w lengths ↔ ∀ i (hi : i < maxPlanes), i < k → f i ≤ lengths[i] := by
  obtain ⟨w', hw', hat⟩ := writePlanes_some f old (Nat.le_trans hk hn)
  rw [hw] at hw'
  cases hw'
  constructor
  · intro h i hi hlt
    have := h i hi (Nat.lt_of_lt_of_le hlt hk)
    rwa [hat i hi, if_pos hlt] at this
  · intro h i hi hlt
    rw [hat i hi]
    split
    · next hlt' => exact h i hi hlt'
    · exact hold i hi hlt

/-- What a response makes of a sound buffer: the record is right exactly when
the response fits, and then the buffer stays sound. -/
theorem complete_spec (s : State) (i : Nat) {b : Buffer} (hb : b.Ok) (m : Mem) :
    ∃ d, (s.complete i b m).completed = d :: s.completed ∧
      (d.Within ↔ DequeueFlag.eos.isIn (m.le32 8) = true ∨ PayloadFits s.vvd s.stream b m) ∧
      (d.Within → ∀ b' ∈ (s.complete i b m).bufs, b' ∈ s.bufs ∨ b'.Ok) := by
  have hset : ∀ (b' : Buffer) (l : List Buffer), b'.Ok → ∀ x ∈ l.set i b', x ∈ l ∨ x.Ok := by
    intro b' l hok x hx
    rcases List.mem_or_eq_of_mem_set hx with h | rfl
    · exact .inl h
    · exact .inr hok
  unfold State.complete resourceQueueCb
  rw [bufDone_eq]
  by_cases heos : DequeueFlag.eos.isIn (m.le32 8) = true
  · have hwritten : writtenPlanes s.vvd s.stream b.vb (m.le32 8) = 1 := if_pos (.inr heos)
    rw [if_pos heos, hwritten]
    dsimp only
    have hfit : Fit b.vb.numPlanes (b.vb.bytesused.set 0 0) b.lengths := by
      intro j hj hlt
      rw [Vector.getElem_set]
      split
      · exact UInt32.zero_le
      · exact hb.fit j hj hlt
    exact ⟨_, rfl, iff_of_true ⟨hb.nonempty, _, rfl, hfit⟩ (.inl heos),
      fun _ => hset _ _ ⟨hb.capture, hb.nonempty, hb.bounded, hfit⟩⟩
  · have hwritten : writtenPlanes s.vvd s.stream b.vb (m.le32 8) = capturePlanes s.vvd s.stream b.vb := by
      unfold writtenPlanes
      rw [if_neg (by simp [err_isIn, heos]), hb.capture]
      rfl
    rw [if_neg heos, hb.capture, if_neg Bool.false_ne_true, captureBytesused_eq, hwritten]
    cases hw : writePlanes (payloadSize s.vvd s.stream m) (capturePlanes s.vvd s.stream b.vb) b.vb.bytesused with
    | none =>
      refine ⟨_, rfl, iff_of_false ?_ ?_, fun h => ?_⟩
      · rintro ⟨-, w, hw', -⟩
        cases hw'
      · rintro (h | h)
        · exact heos h
        · obtain ⟨w, hw', -⟩ := writePlanes_some (payloadSize s.vvd s.stream m) b.vb.bytesused
            (Nat.le_trans h.1 hb.bounded)
          rw [hw] at hw'
          cases hw'
      · obtain ⟨-, w, hw', -⟩ := h
        cases hw'
    | some w =>
      refine ⟨_, rfl, ?_, fun h => hset _ _ ?_⟩
      · constructor
        · rintro ⟨hle, _, ⟨⟩, hfit⟩
          exact .inr ⟨hle, (fit_writePlanes hw hle hb.bounded hb.fit).1 hfit⟩
        · rintro (h | h)
          · exact absurd h heos
          · exact ⟨h.1, _, rfl, (fit_writePlanes hw h.1 hb.bounded hb.fit).2 h.2⟩
      · obtain ⟨-, _, ⟨⟩, hfit⟩ := h
        exact ⟨rfl, hb.nonempty, hb.bounded, hfit⟩

/-! ## Runs -/

structure Inv (s : State) : Prop where
  bufs : ∀ b ∈ s.bufs, b.Ok
  within : AllWithin s

theorem newBuffer_ok {resourceId : UInt32} {lengths : Vector UInt32 maxPlanes}
    {r : Except Errno (UInt32 × Vector UInt32 maxPlanes)} {b : Buffer} (h : newBuffer resourceId lengths r = some b) :
    b.Ok := by
  unfold newBuffer at h
  split at h
  · cases h
  · split at h
    · next hn =>
      cases h
      refine ⟨rfl, hn.1, hn.2.1, fun i hi _ => ?_⟩
      rw [Vector.getElem_replicate]
      exact UInt32.zero_le
    · cases h

/-- What a step does to the buffers and to the record. -/
inductive StepCases (s s' : State) : Act → Prop
  | stream {a : Act} (hr : ∀ i m, a ≠ .respond i m) (hbufs : s'.bufs = s.bufs) (hc : s'.completed = s.completed) :
    StepCases s s' a
  | alloc {resourceId numPlanes : UInt32} {sizes lengths : Vector UInt32 maxPlanes}
      (r : Except Errno (UInt32 × Vector UInt32 maxPlanes)) (b : Buffer)
      (hr : queueSetup s.stream false numPlanes sizes = .ok r) (hb : newBuffer resourceId lengths r = some b)
      (hs : s' = { s with bufs := s.bufs ++ [b] }) :
    StepCases s s' (.alloc resourceId numPlanes sizes lengths)
  | free {i : Nat} (hs : s' = { s with bufs := s.bufs.eraseIdx i }) : StepCases s s' (.free i)
  | queue {i : Nat} {flags : UInt32} (b : Buffer) (hb : s.bufs[i]? = some b) (hs : s' = s.queue i b flags) :
    StepCases s s' (.queue i flags)
  | respond {i : Nat} {m : Mem} (b : Buffer) (hb : s.bufs[i]? = some b) (hs : s' = s.complete i b m) :
    StepCases s s' (.respond i m)

theorem step_cases {s s' : State} {a : Act} (h : step s a = some s') : StepCases s s' a := by
  cases a with
  | sFmt =>
    obtain ⟨o, -, rfl⟩ := Option.map_eq_some_iff.1 h
    exact .stream (fun _ _ => Act.noConfusion) rfl rfl
  | getParams =>
    obtain ⟨o, -, rfl⟩ := Option.map_eq_some_iff.1 h
    exact .stream (fun _ _ => Act.noConfusion) rfl rfl
  | resChanged =>
    obtain ⟨o, -, rfl⟩ := Option.map_eq_some_iff.1 h
    exact .stream (fun _ _ => Act.noConfusion) rfl rfl
  | stateUpdate =>
    cases h
    exact .stream (fun _ _ => Act.noConfusion) rfl rfl
  | alloc resourceId numPlanes sizes lengths =>
    obtain ⟨r, hr, h⟩ := Option.bind_eq_some_iff.1 h
    obtain ⟨b, hb, h⟩ := Option.bind_eq_some_iff.1 h
    cases h
    refine .alloc r b ?_ hb rfl
    cases hq : queueSetup s.stream false numPlanes sizes with
    | error e => rw [hq] at hr; cases hr
    | ok r' => rw [hq] at hr; cases hr; rfl
  | free =>
    cases h
    exact .free rfl
  | queue =>
    obtain ⟨b, hb, rfl⟩ := Option.map_eq_some_iff.1 h
    exact .queue b hb rfl
  | respond =>
    obtain ⟨b, hb, h⟩ := Option.bind_eq_some_iff.1 h
    split at h
    · cases h
      exact .respond b hb rfl
    · cases h

theorem Inv.step {s s' : State} {a : Act} (h : Inv s) (hf : Fits s a) (hs : Payload.step s a = some s') : Inv s' := by
  cases step_cases hs with
  | stream _ hbufs hc =>
    refine ⟨?_, ?_⟩
    · rw [hbufs]
      exact h.bufs
    · unfold AllWithin
      rw [hc]
      exact h.within
  | alloc r b _ hb he =>
    subst he
    refine ⟨fun b' hb' => ?_, h.within⟩
    rcases List.mem_append.1 hb' with hold | hnew
    · exact h.bufs b' hold
    · rw [List.mem_singleton.1 hnew]
      exact newBuffer_ok hb
  | free he =>
    subst he
    exact ⟨fun b' hb' => h.bufs b' (List.mem_of_mem_eraseIdx hb'), h.within⟩
  | queue b hb he =>
    subst he
    refine ⟨fun b' hb' => ?_, h.within⟩
    have hok := h.bufs b (List.mem_of_getElem? hb)
    rcases List.mem_or_eq_of_mem_set hb' with hold | rfl
    · exact h.bufs b' hold
    · exact ⟨hok.capture, hok.nonempty, hok.bounded, hok.fit⟩
  | respond b hb he =>
    subst he
    obtain ⟨d, hd, hiff, hbufs⟩ := complete_spec s _ (h.bufs b (List.mem_of_getElem? hb)) _
    have hwithin := hiff.2 (hf b hb)
    refine ⟨fun b' hb' => (hbufs hwithin b' hb').elim (h.bufs b') id, ?_⟩
    unfold AllWithin
    rw [hd, List.forall_mem_cons]
    exact ⟨hwithin, h.within⟩

theorem step_breaks {s s' : State} {a : Act} (h : Inv s) (hf : ¬Fits s a) (hs : Payload.step s a = some s') :
    ¬AllWithin s' := by
  cases step_cases hs with
  | stream hr =>
    cases a with
    | respond i m => exact absurd rfl (hr i m)
    | sFmt | getParams | resChanged | stateUpdate | alloc | free | queue => exact absurd trivial hf
  | alloc | free | queue => exact absurd trivial hf
  | respond b hb he =>
    subst he
    obtain ⟨d, hd, hiff, -⟩ := complete_spec s _ (h.bufs b (List.mem_of_getElem? hb)) _
    intro hw
    refine hf fun b' hb' => ?_
    rw [hb] at hb'
    cases hb'
    apply hiff.1
    apply hw
    rw [hd]
    exact List.mem_cons_self

theorem inv_inductive : machine.Inductive Fits Inv where
  init s hs := by
    refine ⟨?_, ?_⟩
    · rw [hs.1]
      exact fun _ hb => (by cases hb)
    · unfold AllWithin
      rw [hs.2]
      exact fun _ hd => (by cases hd)
  step _ _ _ h hf hs := h.step hf hs

/-- **Completed capture buffers hold what they say** as long as each response
ends the stream or has a payload that fits the buffer it is for; the first
that does neither completes one that does not. -/
theorem payload_within {s : State} (h : machine.Reach Fits s) :
    AllWithin s ∧ ∀ a s', machine.step s a = some s' → (AllWithin s' ↔ Fits s a) :=
  ⟨(inv_inductive.reach h).within, fun _ _ hs =>
    inv_inductive.keeps_iff (fun _ hi => hi.within) (fun _ _ _ hi hf hs => step_breaks hi hf hs) h hs⟩

/-! ## Formats that do not grow -/

/-- The planes of the format are planes of the buffer and find room in them. -/
def Suits (o : FormatInfo) (b : Buffer) : Prop :=
  o.numPlanes.toNat ≤ b.vb.numPlanes ∧
    ∀ i (hi : i < maxPlanes), i < o.numPlanes.toNat → o.planeFormat[i].planeSize ≤ b.lengths[i]

/-- The second format has no more planes than the first, and none is larger. -/
def Narrows (o o' : FormatInfo) : Prop :=
  o'.numPlanes.toNat ≤ o.numPlanes.toNat ∧
    ∀ i (hi : i < maxPlanes), i < o'.numPlanes.toNat → o'.planeFormat[i].planeSize ≤ o.planeFormat[i].planeSize

theorem Suits.narrows {o o' : FormatInfo} {b : Buffer} (h : Suits o b) (hn : Narrows o o') : Suits o' b :=
  ⟨Nat.le_trans hn.1 h.1, fun i hi hlt =>
    UInt32.le_trans (hn.2 i hi hlt) (h.2 i hi (Nat.lt_of_lt_of_le hlt hn.1))⟩

/-- What suits a buffer suits one with the same planes. -/
theorem Suits.samePlanes {o : FormatInfo} {b b' : Buffer} (h : Suits o b) (hn : b'.vb.numPlanes = b.vb.numPlanes)
    (hl : b'.lengths = b.lengths) : Suits o b' := by
  unfold Suits
  rw [hn, hl]
  exact h

/-- On a device that is no encoder: buffers are allocated by REQBUFS, and the
capture format does not grow while there are any. -/
structure Steady (s : State) (a : Act) : Prop where
  device : s.vvd.type ≠ .encoder
  reqbufs : ∀ resourceId numPlanes sizes lengths, a = .alloc resourceId numPlanes sizes lengths → numPlanes = 0
  narrows : ∀ s', step s a = some s' → s.bufs ≠ [] → Narrows s.stream.outInfo s'.stream.outInfo

theorem payloadFits_iff {vvd : Device} (hvvd : vvd.type ≠ .encoder) {stream : Stream} {b : Buffer} {m : Mem} :
    PayloadFits vvd stream b m ↔ Suits stream.outInfo b := by
  have hsize : ∀ i (hi : i < maxPlanes), (stream.outInfo.planeFormat[i]?.map (·.planeSize)).getD 0 =
      stream.outInfo.planeFormat[i].planeSize := fun i hi => by rw [Vector.getElem?_eq_getElem hi]; rfl
  unfold PayloadFits Suits capturePlanes payloadSize
  cases h : vvd.type with
  | encoder => exact absurd h hvvd
  | camera | decoder =>
    refine and_congr_right fun _ => forall_congr' fun i => forall_congr' fun hi => ?_
    dsimp only
    rw [hsize i hi]

/-- A buffer of REQBUFS is made for the format. -/
theorem newBuffer_suits {s : Stream} {sizes lengths : Vector UInt32 maxPlanes} {resourceId : UInt32}
    {r : Except Errno (UInt32 × Vector UInt32 maxPlanes)} (hr : queueSetup s false 0 sizes = .ok r) {b : Buffer}
    (hb : newBuffer resourceId lengths r = some b) : Suits s.outInfo b := by
  unfold queueSetup at hr
  split at hr
  · cases hr
    cases hb
  · rw [if_neg (not_not_intro rfl)] at hr
    cases hw : writePlanes (fun i => (planeAt ⟨0, 0⟩ s.outInfo.planeFormat i).planeSize) s.outInfo.numPlanes.toNat
        sizes with
    | none => simp [hw, checkPlanes, bind, Except.bind] at hr
    | some w =>
      simp only [Bool.false_eq_true, if_false, hw, checkPlanes, bind, Except.bind, pure, Except.pure,
        Except.ok.injEq] at hr
      subst hr
      unfold newBuffer at hb
      split at hb
      · next he => cases he
      · next he =>
        cases he
        split at hb
        · next hn =>
          cases hb
          obtain ⟨w', hw', hat⟩ := writePlanes_some
            (fun i => (planeAt ⟨0, 0⟩ s.outInfo.planeFormat i).planeSize) sizes hn.2.1
          rw [hw] at hw'
          cases hw'
          refine ⟨Nat.le_refl _, fun i hi hlt => ?_⟩
          have hfit := hn.2.2 i hi hlt
          rw [hat i hi, if_pos hlt, planeAt, Vector.getElem?_eq_getElem hi] at hfit
          exact hfit
        · cases hb

theorem bufDone_numPlanes {vvd : Device} {stream : Stream} {vb : VideoBuffer} {m : Mem} {c : Completion}
    (h : resourceQueueCb vvd stream vb m = some c) : c.buffer.numPlanes = vb.numPlanes := by
  unfold resourceQueueCb at h
  rw [bufDone_eq] at h
  dsimp only at h
  split at h
  · cases h
    rfl
  · split at h
    · cases h
      rfl
    · obtain ⟨w, -, rfl⟩ := Option.map_eq_some_iff.1 h
      rfl

/-- A response keeps the planes of every buffer. -/
theorem complete_bufs {s : State} {i : Nat} {b : Buffer} (hb : b ∈ s.bufs) {m : Mem} {b' : Buffer}
    (h : b' ∈ (s.complete i b m).bufs) :
    ∃ b0 ∈ s.bufs, b'.vb.numPlanes = b0.vb.numPlanes ∧ b'.lengths = b0.lengths := by
  unfold State.complete at h
  dsimp only at h
  split at h
  · exact ⟨b', h, rfl, rfl⟩
  · next c hc =>
    rcases List.mem_or_eq_of_mem_set h with hold | rfl
    · exact ⟨b', hold, rfl, rfl⟩
    · exact ⟨b, hb, bufDone_numPlanes hc, rfl⟩

/-- The capture format suits every buffer. -/
def AllSuit (s : State) : Prop := ∀ b ∈ s.bufs, Suits s.stream.outInfo b

theorem allSuit_inductive : machine.Inductive Steady AllSuit where
  init s hs b hb := by
    rw [hs.1] at hb
    cases hb
  step s a s' h hst hs := by
    have hnarrows : ∀ b ∈ s.bufs, Narrows s.stream.outInfo s'.stream.outInfo := fun b hb =>
      hst.narrows s' hs (List.ne_nil_of_mem hb)
    cases step_cases hs with
    | stream _ hbufs _ =>
      intro b hb
      rw [hbufs] at hb
      exact (h b hb).narrows (hnarrows b hb)
    | alloc r b hr hb he =>
      subst he
      intro b' hb'
      rcases List.mem_append.1 hb' with hold | hnew
      · exact h b' hold
      · rw [hst.reqbufs _ _ _ _ rfl] at hr
        rw [List.mem_singleton.1 hnew]
        exact newBuffer_suits hr hb
    | free he =>
      subst he
      exact fun b hb => h b (List.mem_of_mem_eraseIdx hb)
    | queue b hb he =>
      subst he
      intro b' hb'
      rcases List.mem_or_eq_of_mem_set hb' with hold | rfl
      · exact h b' hold
      · exact (h b (List.mem_of_getElem? hb)).samePlanes rfl rfl
    | respond b hb he =>
      subst he
      intro b' hb'
      obtain ⟨b0, hb0, hn, hl⟩ := complete_bufs (List.mem_of_getElem? hb) hb'
      exact ((h b0 hb0).samePlanes hn hl).narrows (hnarrows b0 hb0)

/-- While the format does not grow, no response of a decoder or a camera can
make a buffer say more than it holds. -/
theorem payload_within_of_steady {s : State} (h : machine.Reach Steady s) : AllWithin s := by
  refine (inv_inductive.reach (allSuit_inductive.reach_mono (fun s a hsuit hst => ?_) h)).within
  cases a with
  | respond i m =>
    intro b hb
    exact .inr ((payloadFits_iff hst.device).2 (hsuit b (List.mem_of_getElem? hb)))
  | sFmt | getParams | resChanged | stateUpdate | alloc | free | queue => trivial

/-! ## A resolution change -/

/-- A decoder's stream without buffers. -/
def decoding : State where
  vvd := ⟨.decoder, true, []⟩
  fmts := ⟨[], 0, [], 0⟩
  stream := openedStream
  bufs := []
  completed := []

theorem decoding_init : machine.init decoding := ⟨rfl, rfl⟩

/-- A reply with one plane for the output queue, of `kib * 1024` bytes. -/
def onePlane (kib : UInt8) : Mem := fun i => if i = 52 then 1 else if i = 57 then 4 * kib else 0

/-- One buffer, allocated for planes of 4 KiB and queued; then the resolution
changes, and the buffer comes back. -/
def resolutionChange (kib : UInt8) : List Act :=
  [.getParams .output (.answered (onePlane 4)), .alloc 1 0 (.replicate _ 0) (.replicate _ 4096), .queue 0 0,
    .resChanged (.answered (onePlane kib)), .respond 0 fun _ => 0]

theorem payload_within_smaller : ∃ s, AllWithin s ∧ s.completed.length = 1 := by
  obtain ⟨s, hs, hlen⟩ := Machine.exists_reach Fits decoding_init (resolutionChange 2) (fun s => s.completed.length = 1)
    (by decide +kernel)
  exact ⟨s, (payload_within hs).1, hlen⟩

/-- A larger plane than the buffer's is claimed after the change. -/
theorem payload_larger : ∃ s, machine.Reachable s ∧ ¬AllWithin s :=
  Machine.exists_reach (fun _ _ => True) decoding_init (resolutionChange 8) _ (by decide +kernel)

end Agl.VirtioVideo.Payload
