/-
What a reply decides, and what it does not.

No callback reads the header of a reply, so an error reply is taken for an
answer like any other (`errReply_taken`). The result of a command says
whether an answer came in time; an answer changes the one part of the stream
it goes to, and `GET_PARAMS` lets the answer name that part
(`replies_taken`).
-/
import Agl.Video.Cmd

namespace Agl.VirtioVideo

/-! ## Planes -/

/-- Within the arrays the loop ends, and has written the places below `n`. -/
theorem writePlanes_some {α : Type} (f : Nat → α) (planes : Vector α maxPlanes) {n : Nat} (hn : n ≤ maxPlanes) :
    ∃ w, writePlanes f n planes = some w ∧
      ∀ i (hi : i < maxPlanes), w[i] = if i < n then f i else planes[i] := by
  induction n with
  | zero => exact ⟨planes, rfl, fun i _ => by simp⟩
  | succ n ih =>
    obtain ⟨w, hw, hat⟩ := ih (Nat.le_of_succ_le hn)
    refine ⟨w.set n (f n) hn, by simp [writePlanes, hw, Nat.lt_of_succ_le hn], fun i hi => ?_⟩
    rw [Vector.getElem_set]
    split
    · subst i
      simp
    · rw [hat i hi]
      have : i < n ↔ i < n + 1 := by omega
      simp [this]

theorem writePlanes_none {α : Type} (f : Nat → α) (planes : Vector α maxPlanes) {n : Nat} (hn : maxPlanes < n) :
    writePlanes f n planes = none := by
  induction n with
  | zero => cases hn
  | succ n ih =>
    by_cases h : maxPlanes < n
    · simp only [writePlanes, ih h, bind, Option.bind]
    · have h : ¬n < maxPlanes := by omega
      cases hw : writePlanes f n planes <;> simp [writePlanes, hw, h]

/-! ## Reading a reply -/

theorem respBuf_le32 {size i : Nat} (m : Mem) (h : i + 4 ≤ size) : (respBuf size m).le32 i = m.le32 i := by
  simp only [Mem.le32, respBuf, show i < size by omega, show i + 1 < size by omega, show i + 2 < size by omega,
    show i + 3 < size by omega, if_true]

/-- The contents agree from the body on. -/
def SameBody (m m' : Mem) : Prop := ∀ i, cmdHdrSize ≤ i → m i = m' i

namespace SameBody

variable {m m' : Mem}

theorem le32 (h : SameBody m m') {i : Nat} (hi : cmdHdrSize ≤ i) : m.le32 i = m'.le32 i := by
  simp only [Mem.le32, h i hi, h (i + 1) (by omega), h (i + 2) (by omega), h (i + 3) (by omega)]

theorem le64 (h : SameBody m m') {i : Nat} (hi : cmdHdrSize ≤ i) : m.le64 i = m'.le64 i := by
  simp only [Mem.le64, h.le32 hi, h.le32 (i := i + 4) (by omega)]

theorem respBuf (h : SameBody m m') (size : Nat) : SameBody (respBuf size m) (respBuf size m') := fun i hi => by
  simp only [VirtioVideo.respBuf, h i hi]

theorem infoOfParams (h : SameBody m m') (planes : Vector PlaneFormat maxPlanes) :
    infoOfParams m planes = infoOfParams m' planes := by
  have hplane : (fun i => (⟨m.le32 (56 + 8 * i), m.le32 (60 + 8 * i)⟩ : PlaneFormat)) =
      fun i => ⟨m'.le32 (56 + 8 * i), m'.le32 (60 + 8 * i)⟩ := by
    funext i
    rw [h.le32 (i := 56 + 8 * i) (by simp only [cmdHdrSize]; omega),
      h.le32 (i := 60 + 8 * i) (by simp only [cmdHdrSize]; omega)]
  have hword : ∀ i ∈ [12, 16, 20, 24, 28, 32, 36, 40, 44, 48, 52], m.le32 i = m'.le32 i := fun i hi =>
    h.le32 ((by decide : ∀ i ∈ [12, 16, 20, 24, 28, 32, 36, 40, 44, 48, 52], cmdHdrSize ≤ i) i hi)
  simp only [List.forall_mem_cons] at hword
  obtain ⟨h12, h16, h20, h24, h28, h32, h36, h40, h44, h48, h52, -⟩ := hword
  simp only [VirtioVideo.infoOfParams, hplane, h12, h16, h20, h24, h28, h32, h36, h40, h44, h48, h52]

end SameBody

/-! ## The commands as one -/

/-- The reply the callback takes, if it takes one. -/
def Exchange.reply : Exchange → Option Mem
  | .answered m | .answeredLate m => some m
  | .noVbuf | .refused _ | .unanswered => none

def Exchange.result : Exchange → Except Errno Unit
  | .noVbuf => .error .enomem
  | .refused e => .error e
  | .answered _ => .ok ()
  | .answeredLate _ | .unanswered => .error .etimedout

theorem Exchange.result_ok {x : Exchange} : x.result = .ok () ↔ ∃ m, x = .answered m := by
  cases x <;> simp [result]

theorem queueCmdBufferSync_eq (respSize : Nat) (cb : RespCb) (s : Stream) (x : Exchange) :
    queueCmdBufferSync respSize cb s x =
      (x.reply.elim (some s) fun m => cb (respBuf respSize m) s).map fun s' => (s', x.result) := by
  cases x <;> rfl

/-- The callback of a command; none for a control there is not. -/
def SyncCmd.cb : SyncCmd → Option RespCb
  | .getParams _ => some getParamsCb
  | .getControl control => getCtrlCb control
  | _ => some noCb

def SyncCmd.respSize : SyncCmd → Nat
  | .queueDetachResources _ | .queueClear _ => cmdHdrSize
  | .queryCapability respSize _ | .queryControlLevel respSize _ | .queryControlProfile respSize _ => respSize
  | .getParams _ => getParamsRespSize
  | .getControl _ => getControlRespSize

/-- Every command function is `syncCmd` with its callback, but for a control
there is not. -/
theorem SyncCmd.run_cases (c : SyncCmd) (s : Stream) :
    (c.cb = none ∧ ∀ x, c.run s x = some ⟨none, s, .error .einval, none⟩) ∨
      ∃ request cb what, c.cb = some cb ∧ ∀ x, c.run s x = syncCmd request c.respSize cb what s x := by
  cases c with
  | getControl control =>
    cases h : getCtrlCb control with
    | none => exact .inl ⟨h, fun x => by simp only [run, cmdGetControl, h]⟩
    | some cb => exact .inr ⟨_, cb, _, h, fun x => by simp only [run, cmdGetControl, h]; rfl⟩
  | _ => exact .inr ⟨_, _, _, rfl, fun _ => rfl⟩

/-! ## Headers are not read -/

/-- The same content under another header. -/
def reheader (hdr : Mem) (m : Mem) : Mem := fun i => if i < cmdHdrSize then hdr i else m i

theorem reheader_sameBody (hdr m : Mem) : SameBody (reheader hdr m) m := fun i hi => by
  simp [reheader, Nat.not_lt.mpr hi]

def Exchange.reheader (hdr : Mem) : Exchange → Exchange
  | .answered m => .answered (VirtioVideo.reheader hdr m)
  | .answeredLate m => .answeredLate (VirtioVideo.reheader hdr m)
  | x => x

/-- A callback does not read the header. -/
def BodyOnly (cb : RespCb) : Prop := ∀ m m' s, SameBody m m' → cb m s = cb m' s

theorem getParamsCb_bodyOnly : BodyOnly getParamsCb := fun m m' s h => by
  simp only [getParamsCb, h.le32 (i := 8) (by decide), h.infoOfParams]

theorem getCtrlCb_bodyOnly {control : UInt32} {cb : RespCb} (h : getCtrlCb control = some cb) : BodyOnly cb := by
  intro m m' s hm
  have h8 := hm.le32 (i := 8) (by decide)
  simp only [getCtrlCb] at h
  split at h
  · cases h
    simp only [getCtrlProfileCb, h8]
  · split at h
    · cases h
      simp only [getCtrlLevelCb, h8]
    · split at h
      · cases h
        simp only [getCtrlBitrateCb, h8]
      · cases h

theorem SyncCmd.cb_bodyOnly {c : SyncCmd} {cb : RespCb} (h : c.cb = some cb) : BodyOnly cb := by
  cases c with
  | getParams _ =>
    cases h
    exact getParamsCb_bodyOnly
  | getControl control => exact getCtrlCb_bodyOnly h
  | _ =>
    cases h
    exact fun _ _ _ _ => rfl

theorem syncCmd_reheader {cb : RespCb} (h : BodyOnly cb) (request : List UInt32) (respSize : Nat) (what : String)
    (s : Stream) (x : Exchange) (hdr : Mem) :
    syncCmd request respSize cb what s (x.reheader hdr) = syncCmd request respSize cb what s x := by
  cases x with
  | answered m | answeredLate m =>
    simp only [syncCmd, queueCmdBufferSync, Exchange.reheader, Exchange.hasVbuf,
      h _ _ s ((reheader_sameBody hdr m).respBuf respSize)]
  | _ => rfl

theorem SyncCmd.run_reheader (c : SyncCmd) (s : Stream) (x : Exchange) (hdr : Mem) :
    c.run s (x.reheader hdr) = c.run s x := by
  obtain ⟨-, h⟩ | ⟨_, _, _, hcb, h⟩ := c.run_cases s
  · rw [h, h]
  · rw [h, h, syncCmd_reheader (cb_bodyOnly hcb)]

theorem resourceQueueCb_reheader (vvd : Device) (s : Stream) (vb : VideoBuffer) (hdr m : Mem) :
    resourceQueueCb vvd s vb (reheader hdr m) = resourceQueueCb vvd s vb m := by
  have h := reheader_sameBody hdr m
  have hsizes : (fun i => (reheader hdr m).le32 (24 + 4 * i)) = fun i => m.le32 (24 + 4 * i) := by
    funext i
    exact h.le32 (by simp only [cmdHdrSize]; omega)
  simp only [resourceQueueCb, h.le32 (i := 8) (by decide), h.le64 (i := 16) (by decide), hsizes]

/-! ## What a reply changes -/

/-- The parts of a stream that replies go to. -/
inductive Part
  | inInfo | outInfo | profile | level | bitrate
  deriving DecidableEq, Repr

/-- The streams are alike, but for this part. -/
structure AlikeBut (part : Option Part) (s s' : Stream) : Prop where
  streamId : s'.streamId = s.streamId
  state : s'.state = s.state
  inInfo : part ≠ some .inInfo → s'.inInfo = s.inInfo
  outInfo : part ≠ some .outInfo → s'.outInfo = s.outInfo
  profile : part ≠ some .profile → s'.control.profile = s.control.profile
  level : part ≠ some .level → s'.control.level = s.control.level
  bitrate : part ≠ some .bitrate → s'.control.bitrate = s.control.bitrate

theorem AlikeBut.refl (part : Option Part) (s : Stream) : AlikeBut part s s :=
  ⟨rfl, rfl, fun _ => rfl, fun _ => rfl, fun _ => rfl, fun _ => rfl, fun _ => rfl⟩

/-- The part a reply to the command goes to: with `GET_PARAMS`, the info of
the queue that the reply names. -/
def SyncCmd.target : SyncCmd → Mem → Option Part
  | .getParams _, m => some (if m.le32 8 = QueueType.input.code then .inInfo else .outInfo)
  | .getControl control, _ =>
    if control = controlProfile then some .profile
    else if control = controlLevel then some .level
    else some .bitrate
  | _, _ => none

/-- A `GET_PARAMS` reply announces no more planes than there can be. -/
def SyncCmd.PlanesFit : SyncCmd → Exchange → Prop
  | .getParams _, x => ∀ m ∈ x.reply, (m.le32 52).toNat ≤ maxPlanes
  | _, _ => True

theorem infoOfParams_some {m : Mem} (h : (m.le32 52).toNat ≤ maxPlanes) (planes : Vector PlaneFormat maxPlanes) :
    ∃ info, infoOfParams m planes = some info ∧ info.numPlanes.toNat ≤ maxPlanes := by
  obtain ⟨w, hw, -⟩ := writePlanes_some (fun i => (⟨m.le32 (56 + 8 * i), m.le32 (60 + 8 * i)⟩ : PlaneFormat)) planes h
  exact ⟨_, by simp [infoOfParams, hw]; rfl, h⟩

theorem getParamsCb_alike (m : Mem) (s : Stream) (queueType : QueueType) (h : (m.le32 52).toNat ≤ maxPlanes) :
    ∃ s', getParamsCb m s = some s' ∧ AlikeBut ((SyncCmd.getParams queueType).target m) s s' := by
  simp only [getParamsCb, SyncCmd.target]
  split
  · obtain ⟨info, hinfo, -⟩ := infoOfParams_some h s.inInfo.planeFormat
    exact ⟨{ s with inInfo := info }, by simp [hinfo],
      { AlikeBut.refl _ s with inInfo := fun h => absurd rfl h }⟩
  · obtain ⟨info, hinfo, -⟩ := infoOfParams_some h s.outInfo.planeFormat
    exact ⟨{ s with outInfo := info }, by simp [hinfo],
      { AlikeBut.refl _ s with outInfo := fun h => absurd rfl h }⟩

theorem getCtrlCb_alike {control : UInt32} {cb : RespCb} (h : getCtrlCb control = some cb) (m m' : Mem) (s : Stream) :
    ∃ s', cb m s = some s' ∧ AlikeBut ((SyncCmd.getControl control).target m') s s' := by
  simp only [getCtrlCb] at h
  simp only [SyncCmd.target]
  split at h
  · rename_i hc
    cases h
    rw [if_pos hc]
    exact ⟨_, rfl, { AlikeBut.refl _ s with profile := fun h => absurd rfl h }⟩
  · rename_i hp
    rw [if_neg hp]
    split at h
    · rename_i hc
      cases h
      rw [if_pos hc]
      exact ⟨_, rfl, { AlikeBut.refl _ s with level := fun h => absurd rfl h }⟩
    · rename_i hl
      rw [if_neg hl]
      split at h
      · cases h
        exact ⟨_, rfl, { AlikeBut.refl _ s with bitrate := fun h => absurd rfl h }⟩
      · cases h

/-- The callback of a command, on a reply it can take. -/
theorem SyncCmd.cb_alike {c : SyncCmd} {cb : RespCb} (hcb : c.cb = some cb) {x : Exchange} (hfit : c.PlanesFit x)
    {m : Mem} (hm : x.reply = some m) (s : Stream) :
    ∃ s', cb (respBuf c.respSize m) s = some s' ∧ AlikeBut (c.target m) s s' := by
  cases c with
  | getParams queueType =>
    cases hcb
    have h52 := respBuf_le32 m (show 52 + 4 ≤ getParamsRespSize by decide)
    have h8 := respBuf_le32 m (show 8 + 4 ≤ getParamsRespSize by decide)
    obtain ⟨s', hs, ha⟩ := getParamsCb_alike (respBuf getParamsRespSize m) s queueType (by rw [h52]; exact hfit m hm)
    refine ⟨s', hs, ?_⟩
    simpa only [target, h8] using ha
  | getControl control => exact getCtrlCb_alike hcb _ m s
  | _ =>
    cases hcb
    exact ⟨s, rfl, .refl _ s⟩

/-- The control is one of those there are. -/
def SyncCmd.Known : SyncCmd → Prop
  | .getControl control => control = controlProfile ∨ control = controlLevel ∨ control = controlBitrate
  | _ => True

theorem SyncCmd.known_iff (c : SyncCmd) : c.Known ↔ c.cb ≠ none := by
  cases c with
  | getControl control =>
    simp only [Known, cb, getCtrlCb]
    split
    · simp [*]
    · split
      · simp [*]
      · split <;> simp [*]
  | _ => simp [Known, cb]

/-- The run of a command on an exchange whose planes fit. -/
theorem SyncCmd.run_alike (c : SyncCmd) (s : Stream) {x : Exchange} (hfit : c.PlanesFit x) :
    ∃ o, c.run s x = some o ∧ (o.result = .ok () ↔ c.Known ∧ ∃ m, x = .answered m) ∧
      AlikeBut (x.reply.bind c.target) s o.stream := by
  obtain ⟨hcb, hrun⟩ | ⟨request, cb, what, hcb, hrun⟩ := c.run_cases s
  · exact ⟨_, hrun x, by simp [known_iff, hcb], .refl _ s⟩
  · have hknown : c.Known := c.known_iff.mpr (by simp [hcb])
    have hs : ∃ s', (x.reply.elim (some s) fun m => cb (respBuf c.respSize m) s) = some s' ∧
        AlikeBut (x.reply.bind c.target) s s' := by
      cases hm : x.reply with
      | none => exact ⟨s, rfl, .refl _ s⟩
      | some m => exact cb_alike hcb hfit hm s
    obtain ⟨s', hs', ha⟩ := hs
    rw [hrun, syncCmd, queueCmdBufferSync_eq, hs']
    exact ⟨_, rfl, by simp [hknown, Exchange.result_ok], ha⟩

/-- **Replies and commands.** For every synchronous command and whatever
becomes of it: the function returns 0 exactly when the callback takes a
reply in time (and the control asked for exists), and at most the part that
the reply goes to changes, nothing without a reply; only a reply to
`GET_PARAMS` must not announce more planes than there can be. Another header
changes nothing of what the command does, nor of how a reply to
`RESOURCE_QUEUE` completes its buffer. -/
theorem replies_taken (c : SyncCmd) (s : Stream) (x : Exchange) :
    (c.PlanesFit x → ∃ o, c.run s x = some o ∧ (o.result = .ok () ↔ c.Known ∧ ∃ m, x = .answered m) ∧
      AlikeBut (x.reply.bind c.target) s o.stream) ∧
    (∀ hdr, c.run s (x.reheader hdr) = c.run s x) ∧
    ∀ vvd vb hdr m, resourceQueueCb vvd s vb (reheader hdr m) = resourceQueueCb vvd s vb m :=
  ⟨c.run_alike s, c.run_reheader s x, fun vvd vb => resourceQueueCb_reheader vvd s vb⟩

/-- A device that refuses: the header says so, the rest is left zero. -/
def errReply : Mem := fun i => if i = 1 then 3 else 0

/-- An encoder's stream, its capture format set. -/
def openedStream : Stream :=
  let info : FormatInfo :=
    { fourccFormat := 0, frameRate := 0, frameWidth := 640, frameHeight := 480, minBuffers := 1, maxBuffers := 32
      crop := ⟨0, 0, 640, 480⟩, numPlanes := 1, planeFormat := .replicate _ ⟨0, 0⟩ }
  { streamId := 1, state := .init, inInfo := info, outInfo := info, control := ⟨0, 0, 0⟩ }

/-- An encoder, with one buffer queued for capture. -/
def encoder : Device := { type := .encoder, isM2mDev := true, pendingBufList := [] }

def captureBuffer : VideoBuffer :=
  { resourceId := 1, queued := true, isOutput := false, flags := 0, timestamp := 0, numPlanes := 1
    bytesused := .replicate _ 0 }

theorem replies_taken_getParams :
    ∃ o, SyncCmd.run openedStream (.getParams .input) (.answered errReply) = some o ∧
      AlikeBut (some .outInfo) openedStream o.stream := by
  have hfit : (SyncCmd.getParams .input).PlanesFit (.answered errReply) := by
    intro m hm
    cases hm
    decide
  obtain ⟨o, hrun, -, halike⟩ := (replies_taken (.getParams .input) openedStream (.answered errReply)).1 hfit
  exact ⟨o, hrun, halike⟩

/-- An error reply to `GET_PARAMS` for the input queue is taken: the
function returns 0 and the info of the output queue is overwritten. An error
reply to `RESOURCE_QUEUE` completes its buffer as done. -/
theorem errReply_taken :
    errReply.le32 0 = CmdType.errInvalidOperation.code ∧
    ((cmdGetParams openedStream .input (.answered errReply)).any fun o =>
      o.result.isOk ∧ o.stream.outInfo ≠ openedStream.outInfo) ∧
    ((resourceQueueCb encoder openedStream captureBuffer errReply).any fun done => done.state = .done) := by
  refine ⟨by decide +kernel, by decide +kernel, by decide +kernel⟩

end Agl.VirtioVideo
