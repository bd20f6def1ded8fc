/-
The number of planes of a stream, over any sequence of commands and ioctls.

`num_planes` comes from the device, with a `GET_PARAMS` reply; the loops of
six functions run up to it over arrays of `VIRTIO_VIDEO_MAX_PLANES` places.
S_FMT requests have at most as many planes, which the V4L2 core sees to.
-/
import Agl.Lib.Machine
import Agl.Video.Dequeue
import Agl.Video.Params

namespace Agl.VirtioVideo.Planes

/-! ## The machine -/

structure State where
  vvd : Device
  fmts : FormatLists
  stream : Stream
  /-- the plane counts of the buffers vb2 has allocated -/
  bufs : List Nat
  /-- a plane outside its array was used -/
  fault : Bool

inductive Act
  /-- `virtio_video_cmd_get_params`, for whatever caller -/
  | getParams (queueType : QueueType) (x : Exchange)
  /-- `virtio_video_cmd_set_params` for S_PARM and S_SELECTION -/
  | setParams (queueType : QueueType) (q : Queueing)
  | sFmt (type : BufType) (pix : PixMp) (q : Queueing) (xIn xOut : Exchange)
  | tryFmt (type : BufType) (pix : PixMp)
  /-- `virtio_video_g_fmt` -/
  | gFmt (type : BufType) (pix : PixMp)
  /-- REQBUFS -/
  | reqBufs (isOutput : Bool) (sizes : Vector UInt32 maxPlanes)
  /-- CREATE_BUFS, which brings its own plane count -/
  | createBufs (numPlanes : Nat)
  | bufDone (vb : VideoBuffer) (flags : UInt32) (timestamp : UInt64) (dataSizes : Nat → UInt32)
  | stateUpdate (newState : StreamState)
  /-- the crop rectangle set by S_SELECTION -/
  | crop (isOutput : Bool) (c : Crop)

/-- The state after a function that may leave an array of planes. -/
def State.after {α : Type} (s : State) (r : Checked α) (f : α → State) : Option State :=
  match r with
  | .ok a => some (f a)
  | .error .plane => some { s with fault := true }
  | .error .frame => none

/-- The buffers after `queue_setup`. -/
def State.allocated (s : State) : Except Errno (UInt32 × Vector UInt32 maxPlanes) → State
  | .ok (numPlanes, _) => { s with bufs := numPlanes.toNat :: s.bufs }
  | .error _ => s

def State.setCrop (s : State) (isOutput : Bool) (c : Crop) : Stream :=
  if isOutput then { s.stream with inInfo := { s.stream.inInfo with crop := c } }
  else { s.stream with outInfo := { s.stream.outInfo with crop := c } }

/-- One step; nothing is said about what follows a fault. -/
def step (s : State) (a : Act) : Option State :=
  if s.fault then none
  else
    match a with
    | .getParams queueType x =>
      s.after (checkPlanes (cmdGetParams s.stream queueType x)) fun o => { s with stream := o.stream }
    | .setParams queueType q =>
      s.after (cmdSetParams s.stream.streamId (s.stream.infoOf (if queueType = .input then .outputMplane
        else .captureMplane)) queueType q) fun _ => s
    | .sFmt type pix q xIn xOut =>
      if pix.numPlanes.toNat ≤ maxPlanes then
        s.after (sFmt s.fmts s.vvd.isM2mDev s.stream type pix q xIn xOut) fun o => { s with stream := o.stream }
      else none
    | .tryFmt type pix => s.after (tryFmt s.fmts s.stream type pix) fun _ => s
    | .gFmt type pix => s.after (formatFromInfo (s.stream.infoOf type) pix) fun _ => s
    | .reqBufs isOutput sizes => s.after (queueSetup s.stream isOutput 0 sizes) s.allocated
    | .createBufs numPlanes =>
      if numPlanes ≤ maxPlanes then some { s with bufs := numPlanes :: s.bufs } else none
    | .bufDone vb flags timestamp dataSizes =>
      if vb.numPlanes ∈ s.bufs then
        s.after (checkPlanes (bufDone s.vvd s.stream vb flags timestamp dataSizes)) fun c =>
          { s with vvd := c.vvd, stream := c.stream }
      else none
    | .stateUpdate newState => some { s with stream := s.stream.stateUpdate newState }
    | .crop isOutput c => some { s with stream := s.setCrop isOutput c }

/-- A stream just allocated: all zero. -/
def machine : Machine State Act where
  init s := s.stream.inInfo.numPlanes = 0 ∧ s.stream.outInfo.numPlanes = 0 ∧ s.bufs = [] ∧ s.fault = false
  step := step

/-! ## What is asked for -/

/-- Both counts are within the arrays. -/
structure Bounded (s : Stream) : Prop where
  inInfo : s.inInfo.numPlanes.toNat ≤ maxPlanes
  outInfo : s.outInfo.numPlanes.toNat ≤ maxPlanes

/-- No plane outside an array was used, and none will be. -/
def InBounds (s : State) : Prop := s.fault = false ∧ Bounded s.stream

/-- The reply taken, if one is, announces no more planes than there are places. -/
def ReplyFits (x : Exchange) : Prop := ∀ m, x.reply = some m → (m.le32 52).toNat ≤ maxPlanes

/-- The replies `virtio_video_stream_get_params` takes do. -/
def StreamFits (isM2mDev : Bool) (xIn xOut : Exchange) : Prop :=
  (isM2mDev = true → ReplyFits xIn) ∧ ((isM2mDev = true → xIn.result.isOk = true) → ReplyFits xOut)

/-- The replies S_FMT takes do, when it gets that far. -/
def SFmtFits (vvd : FormatLists) (isM2mDev : Bool) (s : Stream) (type : BufType) (pix : PixMp) (xIn xOut : Exchange) :
    Prop :=
  ∀ r, tryFmt vvd s type pix = .ok (.ok r) → StreamFits isM2mDev xIn xOut

/-- Every `GET_PARAMS` reply the step takes does. -/
def Fits (s : State) : Act → Prop
  | .getParams _ x => ReplyFits x
  | .sFmt type pix _ xIn xOut => SFmtFits s.fmts s.vvd.isM2mDev s.stream type pix xIn xOut
  | _ => True

instance (x : Exchange) : Decidable (ReplyFits x) :=
  decidable_of_iff (∀ m ∈ x.reply, (m.le32 52).toNat ≤ maxPlanes) Iff.rfl

instance (isM2mDev : Bool) (xIn xOut : Exchange) : Decidable (StreamFits isM2mDev xIn xOut) :=
  inferInstanceAs (Decidable (_ ∧ _))

instance (vvd : FormatLists) (isM2mDev : Bool) (s : Stream) (type : BufType) (pix : PixMp) (xIn xOut : Exchange) :
    Decidable (SFmtFits vvd isM2mDev s type pix xIn xOut) :=
  match h : tryFmt vvd s type pix with
  | .ok (.ok r) => decidable_of_iff (StreamFits isM2mDev xIn xOut) ⟨fun hf _ _ => hf, fun hf => hf r h⟩
  | .ok (.error _) => .isTrue fun r hr => by rw [h] at hr; cases hr
  | .error _ => .isTrue fun r hr => by rw [h] at hr; cases hr

instance (s : State) : (a : Act) → Decidable (Fits s a)
  | .getParams _ x => inferInstanceAs (Decidable (ReplyFits x))
  | .sFmt type pix _ xIn xOut => inferInstanceAs (Decidable (SFmtFits s.fmts s.vvd.isM2mDev s.stream type pix xIn xOut))
  | .setParams .. | .tryFmt .. | .gFmt .. | .reqBufs .. | .createBufs .. | .bufDone .. | .stateUpdate .. | .crop .. =>
    .isTrue trivial

instance (s : Stream) : Decidable (Bounded s) :=
  decidable_of_iff (s.inInfo.numPlanes.toNat ≤ maxPlanes ∧ s.outInfo.numPlanes.toNat ≤ maxPlanes)
    ⟨fun h => ⟨h.1, h.2⟩, fun h => ⟨h.1, h.2⟩⟩

instance : DecidablePred InBounds := fun _ => inferInstanceAs (Decidable (_ ∧ _))

/-! ## Loops over planes -/

/-- A loop within the arrays does not fault. -/
theorem checkPlanes_ok {α : Type} (f : Nat → α) (planes : Vector α maxPlanes) {n : Nat} (hn : n ≤ maxPlanes) :
    ∃ w, checkPlanes (writePlanes f n planes) = .ok w := by
  obtain ⟨w, hw, -⟩ := writePlanes_some f planes hn
  exact ⟨w, by rw [hw]; rfl⟩

theorem formatFromInfo_ok {info : FormatInfo} (h : info.numPlanes.toNat ≤ maxPlanes) (pix : PixMp) :
    ∃ pix', formatFromInfo info pix = .ok pix' ∧ pix'.numPlanes.toNat ≤ maxPlanes := by
  obtain ⟨w, hw⟩ := checkPlanes_ok
    (fun i => (⟨(planeAt ⟨0, 0⟩ info.planeFormat i).planeSize, (planeAt ⟨0, 0⟩ info.planeFormat i).stride⟩ : PlanePix))
    pix.planeFmt h
  refine ⟨_, by unfold formatFromInfo; simp only [hw, bind, Except.bind]; rfl, ?_⟩
  show info.numPlanes.toUInt8.toNat ≤ maxPlanes
  rw [UInt32.toNat_toUInt8]
  exact Nat.le_trans (Nat.mod_le _ _) h

theorem sFmtInfo_ok {pix : PixMp} (h : pix.numPlanes.toNat ≤ maxPlanes) (info : FormatInfo) :
    ∃ info', sFmtInfo info pix = .ok info' ∧ info'.numPlanes.toNat ≤ maxPlanes := by
  obtain ⟨w, hw⟩ := checkPlanes_ok
    (fun i => (⟨(planeAt ⟨0, 0⟩ pix.planeFmt i).sizeimage, (planeAt ⟨0, 0⟩ pix.planeFmt i).bytesperline⟩ : PlaneFormat))
    info.planeFormat h
  refine ⟨_, by unfold sFmtInfo; simp only [hw, bind, Except.bind]; rfl, ?_⟩
  show pix.numPlanes.toUInt32.toNat ≤ maxPlanes
  rw [UInt8.toNat_toUInt32]
  exact h

theorem queueSetup_ok {s : Stream} (h : Bounded s) (isOutput : Bool) (sizes : Vector UInt32 maxPlanes) :
    ∃ r, queueSetup s isOutput 0 sizes = .ok r ∧ ∀ n w, r = .ok (n, w) → n.toNat ≤ maxPlanes := by
  unfold queueSetup
  split
  · exact ⟨_, rfl, fun _ _ he => by cases he⟩
  · have hi : (if isOutput then s.inInfo else s.outInfo).numPlanes.toNat ≤ maxPlanes := by
      cases isOutput
      · exact h.outInfo
      · exact h.inInfo
    obtain ⟨w, hw⟩ := checkPlanes_ok
      (fun i => (planeAt ⟨0, 0⟩ (if isOutput then s.inInfo else s.outInfo).planeFormat i).planeSize) sizes hi
    refine ⟨_, by simp only [ne_eq, not_true, ↓reduceIte, hw, bind, Except.bind]; rfl, ?_⟩
    intro n w he
    cases he
    exact hi

/-! ## Replies -/

theorem infoOfParams_none {m : Mem} (h : maxPlanes < (m.le32 52).toNat) (planes : Vector PlaneFormat maxPlanes) :
    infoOfParams m planes = none := by
  simp only [infoOfParams, writePlanes_none _ _ h, bind, Option.bind]

theorem getParamsCb_ok {m : Mem} {s : Stream} (hs : Bounded s) (h : (m.le32 52).toNat ≤ maxPlanes) :
    ∃ s', getParamsCb m s = some s' ∧ Bounded s' := by
  unfold getParamsCb
  split
  · obtain ⟨info, hi, hn⟩ := infoOfParams_some h s.inInfo.planeFormat
    exact ⟨{ s with inInfo := info }, by simp only [hi, bind, Option.bind]; rfl, hn, hs.outInfo⟩
  · obtain ⟨info, hi, hn⟩ := infoOfParams_some h s.outInfo.planeFormat
    exact ⟨{ s with outInfo := info }, by simp only [hi, bind, Option.bind]; rfl, hs.inInfo, hn⟩

theorem getParamsCb_none {m : Mem} {s : Stream} (h : maxPlanes < (m.le32 52).toNat) : getParamsCb m s = none := by
  unfold getParamsCb
  split <;> simp only [infoOfParams_none h, bind, Option.bind]

theorem respBuf_numPlanes (m : Mem) : (respBuf getParamsRespSize m).le32 52 = m.le32 52 :=
  respBuf_le32 m (by decide)

/-- `GET_PARAMS` keeps the bound when the reply does, and faults otherwise. -/
theorem cmdGetParams_ok {s : Stream} (hs : Bounded s) {x : Exchange} (hx : ReplyFits x) (queueType : QueueType) :
    ∃ o, cmdGetParams s queueType x = some o ∧ Bounded o.stream ∧ o.result = x.result := by
  unfold cmdGetParams syncCmd
  rw [queueCmdBufferSync_eq]
  cases hr : x.reply with
  | none => exact ⟨_, rfl, hs, rfl⟩
  | some m =>
    obtain ⟨s', hs', hb⟩ := getParamsCb_ok hs (by rw [respBuf_numPlanes]; exact hx m hr)
    exact ⟨_, by simp only [Option.elim_some, hs', Option.map_some, bind, Option.bind]; rfl, hb, rfl⟩

theorem cmdGetParams_none {s : Stream} {x : Exchange} (hx : ¬ReplyFits x) (queueType : QueueType) :
    cmdGetParams s queueType x = none := by
  simp only [ReplyFits, Classical.not_forall] at hx
  obtain ⟨m, hr, hlt⟩ := hx
  have hcb : getParamsCb (respBuf getParamsRespSize m) s = none := by
    apply getParamsCb_none
    rw [respBuf_numPlanes]
    exact Nat.lt_of_not_le hlt
  unfold cmdGetParams syncCmd
  rw [queueCmdBufferSync_eq, hr]
  simp only [Option.elim_some, hcb, Option.map_none, bind, Option.bind]

theorem getParamsOr_ok {s : Stream} (hs : Bounded s) {x : Exchange} (hx : ReplyFits x) (queueType : QueueType)
    (message : String) : ∃ o, getParamsOr s queueType x message = .ok o ∧ Bounded o.stream ∧ o.result = x.result := by
  obtain ⟨o, ho, hb, hr⟩ := cmdGetParams_ok hs hx queueType
  exact ⟨_, by simp only [getParamsOr, ho, checkPlanes, bind, Except.bind]; rfl, hb, hr⟩

theorem getParamsOr_fault {s : Stream} {x : Exchange} (hx : ¬ReplyFits x) (queueType : QueueType) (message : String) :
    getParamsOr s queueType x message = .error .plane := by
  simp only [getParamsOr, cmdGetParams_none hx, checkPlanes, bind, Except.bind]

theorem streamGetParams_ok {s : Stream} (hs : Bounded s) {isM2mDev : Bool} {xIn xOut : Exchange}
    (hx : StreamFits isM2mDev xIn xOut) : ∃ o, streamGetParams isM2mDev s xIn xOut = .ok o ∧ Bounded o.stream := by
  unfold streamGetParams
  cases isM2mDev
  · obtain ⟨o, ho, hb, -⟩ := getParamsOr_ok hs (hx.2 fun h => by cases h) .output
      "failed to get stream out params\n"
    exact ⟨_, by simp only [Bool.false_eq_true, ↓reduceIte, bind, Except.bind, Except.isOk, Except.toBool, ho]; rfl, hb⟩
  · obtain ⟨i, hi, hbi, hri⟩ := getParamsOr_ok hs (hx.1 rfl) .input "failed to get stream in params\n"
    cases hok : i.result.isOk
    · exact ⟨i, by simp only [↓reduceIte, hi, bind, Except.bind, hok, Bool.false_eq_true]; rfl, hbi⟩
    · obtain ⟨o, ho, hb, -⟩ := getParamsOr_ok hbi (hx.2 fun _ => by rw [← hri]; exact hok) .output
        "failed to get stream out params\n"
      exact ⟨{ o with log := i.log ++ o.log }, by simp only [↓reduceIte, hi, bind, Except.bind, hok, ho]; rfl, hb⟩

theorem streamGetParams_fault {s : Stream} (hs : Bounded s) {isM2mDev : Bool} {xIn xOut : Exchange}
    (hx : ¬StreamFits isM2mDev xIn xOut) : streamGetParams isM2mDev s xIn xOut = .error .plane := by
  unfold streamGetParams
  cases isM2mDev
  · have hout : ¬ReplyFits xOut := fun h => hx ⟨fun h => (by cases h), fun _ => h⟩
    simp only [Bool.false_eq_true, ↓reduceIte, bind, Except.bind, Except.isOk, Except.toBool, getParamsOr_fault hout]
  · by_cases hin : ReplyFits xIn
    · obtain ⟨i, hi, -, hri⟩ := getParamsOr_ok hs hin .input "failed to get stream in params\n"
      have hout : xIn.result.isOk = true ∧ ¬ReplyFits xOut := by
        by_cases hok : xIn.result.isOk = true
        · exact ⟨hok, fun h => hx ⟨fun _ => hin, fun _ => h⟩⟩
        · exact absurd ⟨fun _ => hin, fun h => absurd (h rfl) hok⟩ hx
      have hok : i.result.isOk = true := by rw [hri]; exact hout.1
      simp only [↓reduceIte, hi, bind, Except.bind, hok, getParamsOr_fault hout.2]
    · simp only [↓reduceIte, bind, Except.bind, getParamsOr_fault hin]

/-! ## S_FMT and the completion of buffers -/

theorem Bounded.infoOf {s : Stream} (h : Bounded s) (type : BufType) : (s.infoOf type).numPlanes.toNat ≤ maxPlanes := by
  unfold Stream.infoOf
  split
  · exact h.inInfo
  · exact h.outInfo

/-- TRY_FMT does not leave the planes; the number it returns is a stream's,
or the one it was given. -/
theorem tryFmt_cases {s : Stream} (hs : Bounded s) (pix : PixMp) (vvd : FormatLists) (type : BufType) :
    tryFmt vvd s type pix = .error .frame ∨ (∃ e, tryFmt vvd s type pix = .ok (.error e)) ∨
      ∃ r, tryFmt vvd s type pix = .ok (.ok r) ∧
        (r.1.numPlanes.toNat ≤ maxPlanes ∨ r.1.numPlanes = pix.numPlanes) := by
  unfold tryFmt
  split
  · exact .inr (.inl ⟨_, rfl⟩)
  · split
    · split
      · obtain ⟨pix', he, hn⟩ := formatFromInfo_ok hs.outInfo pix
        exact .inr (.inr ⟨_, by simp only [he]; rfl, .inl hn⟩)
      · obtain ⟨pix', he, hn⟩ := formatFromInfo_ok hs.inInfo pix
        exact .inr (.inr ⟨_, by simp only [he]; rfl, .inl hn⟩)
      · exact .inr (.inl ⟨_, rfl⟩)
    · split
      · exact .inr (.inr ⟨_, rfl, .inr rfl⟩)
      · split
        · exact .inl rfl
        · exact .inr (.inr ⟨_, rfl, .inr rfl⟩)

/-- It does not return more planes than it may be given. -/
theorem tryFmt_planes {s : Stream} (hs : Bounded s) {pix : PixMp} (hp : pix.numPlanes.toNat ≤ maxPlanes)
    {vvd : FormatLists} {type : BufType} {r : PixMp × Option FormatFrame} (he : tryFmt vvd s type pix = .ok (.ok r)) :
    r.1.numPlanes.toNat ≤ maxPlanes := by
  rcases tryFmt_cases hs pix vvd type with he' | ⟨e, he'⟩ | ⟨r', he', hr⟩
  · rw [he'] at he
    cases he
  · rw [he'] at he
    cases he
  · rw [he'] at he
    cases he
    rcases hr with hr | hr
    · exact hr
    · rw [hr]
      exact hp

theorem sFmt_ok {s : Stream} (hs : Bounded s) {pix : PixMp} (hp : pix.numPlanes.toNat ≤ maxPlanes) {vvd : FormatLists}
    {isM2mDev : Bool} {type : BufType} {xIn xOut : Exchange} (hx : SFmtFits vvd isM2mDev s type pix xIn xOut)
    (q : Queueing) : sFmt vvd isM2mDev s type pix q xIn xOut = .error .frame ∨
      ∃ o, sFmt vvd isM2mDev s type pix q xIn xOut = .ok o ∧ Bounded o.stream := by
  unfold sFmt
  rcases tryFmt_cases hs pix vvd type with he | ⟨e, he⟩ | ⟨r, he, -⟩
  · exact .inl (by simp only [he, bind, Except.bind])
  · exact .inr ⟨_, by simp only [he, bind, Except.bind]; rfl, hs⟩
  · obtain ⟨info, hi, hn⟩ := sFmtInfo_ok (tryFmt_planes hs hp he) (s.infoOf type)
    obtain ⟨req, hreq⟩ := cmdSetParams_returns (q := q) (.inr hn) s.streamId (if type.isOutput then .input else .output)
    obtain ⟨o, ho, hb⟩ := streamGetParams_ok hs (hx r he)
    obtain ⟨pix', hp', -⟩ := formatFromInfo_ok (hb.infoOf type) r.1
    exact .inr ⟨_, by simp only [he, hi, hreq, ho, hp', bind, Except.bind]; rfl, hb⟩

theorem sFmt_fault {s : Stream} (hs : Bounded s) {pix : PixMp} (hp : pix.numPlanes.toNat ≤ maxPlanes)
    {vvd : FormatLists} {isM2mDev : Bool} {type : BufType} {xIn xOut : Exchange}
    (hx : ¬SFmtFits vvd isM2mDev s type pix xIn xOut) (q : Queueing) :
    sFmt vvd isM2mDev s type pix q xIn xOut = .error .plane := by
  simp only [SFmtFits, Classical.not_forall] at hx
  obtain ⟨r, he, hx⟩ := hx
  obtain ⟨info, hi, hn⟩ := sFmtInfo_ok (tryFmt_planes hs hp he) (s.infoOf type)
  obtain ⟨req, hreq⟩ := cmdSetParams_returns (q := q) (.inr hn) s.streamId (if type.isOutput then .input else .output)
  simp only [sFmt, he, hi, hreq, streamGetParams_fault hs hx, bind, Except.bind]

theorem Bounded.stateUpdate {s : Stream} (h : Bounded s) (newState : StreamState) :
    Bounded (s.stateUpdate newState) := by
  unfold Stream.stateUpdate
  split
  · exact h
  · exact ⟨h.inInfo, h.outInfo⟩

theorem captureBytesused_ok {s : Stream} (hs : Bounded s) {vb : VideoBuffer} (hv : vb.numPlanes ≤ maxPlanes)
    (vvd : Device) (dataSizes : Nat → UInt32) : ∃ w, captureBytesused vvd s vb dataSizes = some w := by
  obtain ⟨w, hw, -⟩ := writePlanes_some dataSizes vb.bytesused hv
  obtain ⟨w', hw', -⟩ := writePlanes_some (fun i => (s.outInfo.planeFormat[i]?.map (·.planeSize)).getD 0) vb.bytesused
    hs.outInfo
  unfold captureBytesused
  cases vvd.type with
  | encoder => exact ⟨w, hw⟩
  | decoder | camera => exact ⟨w', hw'⟩

theorem bufDone_ok {s : Stream} (hs : Bounded s) {vb : VideoBuffer} (hv : vb.numPlanes ≤ maxPlanes)
    (vvd : Device) (flags : UInt32) (timestamp : UInt64) (dataSizes : Nat → UInt32) :
    ∃ c, bufDone vvd s vb flags timestamp dataSizes = some c ∧ Bounded c.stream := by
  rw [bufDone_eq]
  dsimp only
  split
  · exact ⟨_, rfl, hs.stateUpdate _⟩
  · split
    · exact ⟨_, rfl, hs⟩
    · obtain ⟨w, hw⟩ := captureBytesused_ok hs hv vvd dataSizes
      rw [hw]
      exact ⟨_, rfl, hs⟩

/-! ## Steps -/

/-- What every state reached has. -/
structure Inv (s : State) : Prop where
  inBounds : InBounds s
  bufs : ∀ n ∈ s.bufs, n ≤ maxPlanes

/-- A function that stays within the planes. -/
theorem after_inv {α : Type} {s s' : State} {r : Checked α} {f : α → State}
    (hr : r = .error .frame ∨ ∃ a, r = .ok a ∧ Inv (f a)) (hs : s.after r f = some s') : Inv s' := by
  rcases hr with rfl | ⟨a, rfl, hi⟩
  · cases hs
  · cases hs
    exact hi

theorem Inv.withStream {s : State} (h : Inv s) {stream : Stream} (hb : Bounded stream) : Inv { s with stream } :=
  ⟨⟨h.inBounds.1, hb⟩, h.bufs⟩

theorem Inv.withBuf {s : State} (h : Inv s) {n : Nat} (hn : n ≤ maxPlanes) : Inv { s with bufs := n :: s.bufs } :=
  ⟨h.inBounds, fun m hm => by
    rcases List.mem_cons.mp hm with rfl | hm
    · exact hn
    · exact h.bufs m hm⟩

theorem Inv.step {s s' : State} {a : Act} (h : Inv s) (hf : Fits s a) (hs : Planes.step s a = some s') : Inv s' := by
  have hb := h.inBounds.2
  unfold Planes.step at hs
  rw [if_neg (by rw [h.inBounds.1]; exact Bool.false_ne_true)] at hs
  cases a with
  | getParams queueType x =>
    obtain ⟨o, ho, hbo, -⟩ := cmdGetParams_ok hb hf queueType
    exact after_inv (.inr ⟨o, by rw [ho]; rfl, h.withStream hbo⟩) hs
  | setParams queueType q =>
    have hn := hb.infoOf (if queueType = .input then .outputMplane else .captureMplane)
    obtain ⟨r, hr⟩ := cmdSetParams_returns (q := q) (.inr hn) s.stream.streamId queueType
    exact after_inv (.inr ⟨_, hr, h⟩) hs
  | sFmt type pix q xIn xOut =>
    dsimp only at hs
    split at hs
    · next hp =>
      rcases sFmt_ok hb hp hf q with he | ⟨o, ho, hbo⟩
      · exact after_inv (.inl he) hs
      · exact after_inv (.inr ⟨o, ho, h.withStream hbo⟩) hs
    · cases hs
  | tryFmt type pix =>
    rcases tryFmt_cases hb pix s.fmts type with he | ⟨e, he⟩ | ⟨r, he, -⟩
    · exact after_inv (.inl he) hs
    · exact after_inv (.inr ⟨_, he, h⟩) hs
    · exact after_inv (.inr ⟨_, he, h⟩) hs
  | gFmt type pix =>
    obtain ⟨r, hr, -⟩ := formatFromInfo_ok (hb.infoOf type) pix
    exact after_inv (.inr ⟨r, hr, h⟩) hs
  | reqBufs isOutput sizes =>
    obtain ⟨r, hr, hn⟩ := queueSetup_ok hb isOutput sizes
    refine after_inv (.inr ⟨r, hr, ?_⟩) hs
    cases r with
    | ok r => exact h.withBuf (hn r.1 r.2 rfl)
    | error e => exact h
  | createBufs numPlanes =>
    dsimp only at hs
    split at hs
    · next hn =>
      cases hs
      exact h.withBuf hn
    · cases hs
  | bufDone vb flags timestamp dataSizes =>
    dsimp only at hs
    split at hs
    · next hv =>
      obtain ⟨c, hc, hbc⟩ := bufDone_ok hb (h.bufs _ hv) s.vvd flags timestamp dataSizes
      exact after_inv (.inr ⟨c, by rw [hc]; rfl, ⟨⟨h.inBounds.1, hbc⟩, h.bufs⟩⟩) hs
    · cases hs
  | stateUpdate newState =>
    cases hs
    exact h.withStream (hb.stateUpdate newState)
  | crop isOutput c =>
    cases hs
    apply h.withStream
    unfold State.setCrop
    split
    · exact ⟨hb.inInfo, hb.outInfo⟩
    · exact ⟨hb.inInfo, hb.outInfo⟩

/-- A reply that does not fit is a fault. -/
theorem step_fault {s s' : State} {a : Act} (h : Inv s) (hf : ¬Fits s a) (hs : Planes.step s a = some s') :
    s'.fault = true := by
  have hb := h.inBounds.2
  unfold Planes.step at hs
  rw [if_neg (by rw [h.inBounds.1]; exact Bool.false_ne_true)] at hs
  cases a with
  | getParams queueType x =>
    dsimp only at hs
    rw [cmdGetParams_none hf] at hs
    cases hs
    rfl
  | sFmt type pix q xIn xOut =>
    dsimp only at hs
    split at hs
    · next hp =>
      rw [sFmt_fault hb hp hf] at hs
      cases hs
      rfl
    · cases hs
  | setParams | tryFmt | gFmt | reqBufs | createBufs | bufDone | stateUpdate | crop => exact absurd trivial hf

theorem inv_inductive : machine.Inductive Fits Inv where
  init s hs := by
    obtain ⟨hi, ho, hbufs, hfault⟩ := hs
    refine ⟨⟨hfault, ?_, ?_⟩, ?_⟩
    · rw [hi]
      decide
    · rw [ho]
      decide
    · rw [hbufs]
      exact fun _ hn => by cases hn
  step _ _ _ h hf hs := h.step hf hs

/-- **Plane counts stay within the plane arrays** as long as every
`GET_PARAMS` reply taken announces at most `VIRTIO_VIDEO_MAX_PLANES` planes;
the first that announces more leads out of them. -/
theorem planes_inBounds {s : State} (h : machine.Reach Fits s) :
    InBounds s ∧ ∀ a s', machine.step s a = some s' → (InBounds s' ↔ Fits s a) := by
  refine ⟨(inv_inductive.reach h).inBounds, fun a s' hs => ?_⟩
  refine inv_inductive.keeps_iff (fun s hi => hi.inBounds) (fun s a s' hi hf hs hb => ?_) h hs
  have hfault := step_fault hi hf hs
  rw [hb.1] at hfault
  cases hfault

/-! ## Two replies -/

/-- A decoder's stream after `virtio_video_device_open`, with one format. -/
def opened : State :=
  let info : FormatInfo := ⟨0, 0, 0, 0, 0, 0, ⟨0, 0, 0, 0⟩, 0, Vector.replicate maxPlanes ⟨0, 0⟩⟩
  { vvd := ⟨.decoder, true, []⟩
    fmts := ⟨[⟨formatToV4l2 0x1002, 1, 0, [⟨⟨16, 1920, 16⟩, ⟨16, 1080, 1⟩, []⟩]⟩], 1, [], 0⟩
    stream := ⟨1, .idle, info, info, ⟨0, 0, 0⟩⟩
    bufs := []
    fault := false }

theorem opened_init : machine.init opened := ⟨rfl, rfl, rfl, rfl⟩

/-- A reply of zeros, but for the number of planes. -/
def announces (numPlanes : UInt8) : Mem := fun i => if i = 52 then numPlanes else 0

/-- S_FMT on the coded side, answered with as many planes as there are places. -/
def setCoded : List Act :=
  [.sFmt .outputMplane ⟨64, 64, formatToV4l2 0x1002, 0, 0, 0, 0, 0, 1, Vector.replicate maxPlanes ⟨4096, 64⟩⟩ .queued
      (.answered (announces 8)) (.answered (announces 8)),
    .reqBufs false (Vector.replicate maxPlanes 0)]

theorem planes_inBounds_setCoded : ∃ s, InBounds s ∧ s.bufs = [8] := by
  obtain ⟨s, hs, hb⟩ := Machine.exists_reach Fits opened_init setCoded (fun s => s.bufs = [8]) (by decide +kernel)
  exact ⟨s, (planes_inBounds hs).1, hb⟩

/-- Nine planes, in the reply to the first `GET_PARAMS`. -/
theorem planes_ninth : ∃ s, machine.Reachable s ∧ ¬InBounds s :=
  Machine.exists_reach (fun _ _ => True) opened_init [.getParams .input (.answered (announces 9))] _ (by decide +kernel)

end Agl.VirtioVideo.Planes
