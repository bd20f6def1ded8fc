/-
Selection rectangles (`virtio_video_dec_s_selection`,
`virtio_video_enc_s_selection`, `virtio_video_cam_s_selection`,
`virtio_video_g_selection`).

S_SELECTION writes the rectangle into the info of its queue before it asks
the device for it, and does not take it back when a command fails
(`sSelection_keeps`).
-/
import Agl.Video.Params

namespace Agl.VirtioVideo

/-- `V4L2_SEL_TGT_*`, as far as the driver tells them apart -/
inductive SelTarget
  | crop | cropDefault | cropBounds | compose | composeDefault | composeBounds | composePadded | other
  deriving DecidableEq, Repr

/-- What S_SELECTION leaves. -/
structure SelOutcome where
  stream : Stream
  request : Option (List UInt32)
  result : Except Errno Unit
  /-- the message of `v4l2_err` -/
  log : Option String

/-- The info of a queue with another crop rectangle. -/
def Stream.setCrop (s : Stream) (r : Crop) : QueueType → Stream
  | .input => { s with inInfo := { s.inInfo with crop := r } }
  | .output => { s with outInfo := { s.outInfo with crop := r } }

/-- The queue a buffer type stands for. -/
def BufType.queueType (type : BufType) : QueueType := if type.isOutput then .input else .output

/-- S_SELECTION for the target `accepted` on one queue; the signed position of
the rectangle is stored as it is. -/
def sSelection (queueType : QueueType) (accepted : SelTarget) (s : Stream) (type : BufType) (target : SelTarget)
    (r : Crop) (q : Queueing) (x : Exchange) : Checked SelOutcome :=
  if type.queueType ≠ queueType ∨ target ≠ accepted then
    return { stream := s, request := none, result := .error .einval, log := none }
  else do
    let s := s.setCrop r queueType
    let (request, ret) ← cmdSetParams s.streamId (s.queueInfo queueType) queueType q
    match ret with
    | .error _ => return { stream := s, request, result := .error .einval, log := none }
    | .ok () =>
      let o ← checkPlanes (cmdGetParams s queueType x)
      return { stream := o.stream, request, result := o.result, log := o.log }

/-- `virtio_video_dec_s_selection` -/
def decSSelection : Stream → BufType → SelTarget → Crop → Queueing → Exchange → Checked SelOutcome :=
  sSelection .output .compose

/-- `virtio_video_enc_s_selection` -/
def encSSelection : Stream → BufType → SelTarget → Crop → Queueing → Exchange → Checked SelOutcome :=
  sSelection .input .crop

/-- `virtio_video_cam_s_selection` -/
def camSSelection : Stream → BufType → SelTarget → Crop → Queueing → Exchange → Checked SelOutcome :=
  sSelection .output .crop

/-- `vidioc_s_selection` -/
def DeviceType.sSelection : DeviceType → Stream → BufType → SelTarget → Crop → Queueing → Exchange →
    Checked SelOutcome
  | .decoder => decSSelection
  | .encoder => encSSelection
  | .camera => camSSelection

/-- The queue whose rectangle can be set. -/
def DeviceType.selQueue : DeviceType → QueueType
  | .encoder => .input
  | .decoder | .camera => .output

/-- The target it is set by. -/
def DeviceType.selTarget : DeviceType → SelTarget
  | .decoder => .compose
  | .encoder | .camera => .crop

/-- `virtio_video_g_selection`, on the rectangle of the request. -/
def gSelection (device : DeviceType) (s : Stream) (type : BufType) (target : SelTarget) (r : Crop) :
    Except Errno Crop :=
  if type.queueType ≠ device.selQueue then .error .einval
  else
    let info := s.queueInfo device.selQueue
    match target with
    | .compose | .composeBounds | .composePadded | .composeDefault =>
      .ok { r with width := info.frameWidth, height := info.frameHeight }
    | .cropBounds | .cropDefault | .crop =>
      .ok ⟨info.crop.left, info.crop.top, info.frameWidth, info.frameHeight⟩
    | .other => .error .einval

/-! ## The commands -/

theorem cmdGetParams_eq (s : Stream) (queueType : QueueType) (x : Exchange) :
    (cmdGetParams s queueType x).map (fun o => (o.stream, o.result)) =
      (x.reply.elim (some s) fun m => getParamsCb (respBuf getParamsRespSize m) s).map fun t => (t, x.result) := by
  unfold cmdGetParams syncCmd
  rw [queueCmdBufferSync_eq]
  cases x.reply.elim (some s) fun m => getParamsCb (respBuf getParamsRespSize m) s with
  | none => rfl
  | some t => rfl

/-! ## The infos -/

/-- Both queues have the infos they had. -/
def SameInfos (t s : Stream) : Prop := t.inInfo = s.inInfo ∧ t.outInfo = s.outInfo

theorem SameInfos.queueInfo {t s : Stream} (h : SameInfos t s) (queueType : QueueType) :
    t.queueInfo queueType = s.queueInfo queueType := by
  cases queueType with
  | input => exact h.1
  | output => exact h.2

/-- The infos decide what G_SELECTION reports. -/
theorem SameInfos.gSelection {t s : Stream} (h : SameInfos t s) (device : DeviceType) (type : BufType)
    (target : SelTarget) (r : Crop) : gSelection device t type target r = gSelection device s type target r := by
  simp only [VirtioVideo.gSelection, h.queueInfo]

theorem setCrop_same {s : Stream} {r : Crop} {queueType : QueueType} :
    SameInfos (s.setCrop r queueType) s ↔ r = (s.queueInfo queueType).crop := by
  cases queueType with
  | input => exact ⟨fun h => congrArg FormatInfo.crop h.1, fun h => ⟨by rw [h]; rfl, rfl⟩⟩
  | output => exact ⟨fun h => congrArg FormatInfo.crop h.2, fun h => ⟨rfl, by rw [h]; rfl⟩⟩

/-- The queue a reply is for. -/
def namedQueue (m : Mem) : QueueType := if m.le32 8 = QueueType.input.code then .input else .output

/-- A queue with another info. -/
def Stream.setInfo (s : Stream) (info : FormatInfo) : QueueType → Stream
  | .input => { s with inInfo := info }
  | .output => { s with outInfo := info }

theorem getParamsCb_eq (m : Mem) (s : Stream) :
    getParamsCb m s = (infoOfParams m (s.queueInfo (namedQueue m)).planeFormat).map (s.setInfo · (namedQueue m)) := by
  unfold getParamsCb namedQueue
  split
  · show _ = (infoOfParams m s.inInfo.planeFormat).map _
    cases infoOfParams m s.inInfo.planeFormat <;> rfl
  · show _ = (infoOfParams m s.outInfo.planeFormat).map _
    cases infoOfParams m s.outInfo.planeFormat <;> rfl

theorem setInfo_setCrop_same {s : Stream} {r : Crop} {info : FormatInfo} {queueType named : QueueType} :
    SameInfos ((s.setCrop r queueType).setInfo info named) s ↔
      info = s.queueInfo named ∧ (named = queueType ∨ r = (s.queueInfo queueType).crop) := by
  have hcrop : SameInfos (s.setCrop r queueType) s ↔ _ := setCrop_same
  cases queueType <;> cases named <;>
    simp only [SameInfos, Stream.setCrop, Stream.setInfo, Stream.queueInfo, and_true, true_and, true_or, reduceCtorEq,
      false_or] at hcrop ⊢
  · rw [hcrop, and_comm]
  · rw [hcrop]

/-- A reply that is taken puts the infos back: it carries the info there was,
and a changed rectangle is not that of the other queue. -/
def Restores (queueType : QueueType) (s : Stream) (r : Crop) (m : Mem) : Prop :=
  ∀ info, infoOfParams m (s.queueInfo (namedQueue m)).planeFormat = some info →
    info = s.queueInfo (namedQueue m) ∧ (namedQueue m = queueType ∨ r = (s.queueInfo queueType).crop)

theorem getParamsCb_restores {queueType : QueueType} {s : Stream} {r : Crop} {m : Mem} :
    (∀ t, getParamsCb m (s.setCrop r queueType) = some t → SameInfos t s) ↔ Restores queueType s r m := by
  have hplanes : ∀ named, ((s.setCrop r queueType).queueInfo named).planeFormat = (s.queueInfo named).planeFormat := by
    intro named
    cases queueType <;> cases named <;> rfl
  rw [getParamsCb_eq, hplanes]
  simp only [Option.map_eq_some_iff, forall_exists_index, and_imp, forall_apply_eq_imp_iff₂, setInfo_setCrop_same]
  rfl

/-! ## When an error changes nothing -/

/-- If the call fails, the infos are as they were. -/
def FailsClean (s : Stream) (left : Checked SelOutcome) : Prop :=
  ∀ o e, left = .ok o → o.result = .error e → SameInfos o.stream s

/-- What becomes of the commands leaves the infos as they were, or is no
error: both succeed, or there is no change, or a late reply undoes it. With
too many planes nothing is returned. -/
def Undone (queueType : QueueType) (s : Stream) (r : Crop) (q : Queueing) (x : Exchange) : Prop :=
  let info := s.queueInfo queueType
  match q, x with
  | .noVbuf, _ => r = info.crop
  | .queued, .answered _ => True
  | .queued, .answeredLate reply =>
    info.numPlanes.toNat ≤ maxPlanes → Restores queueType s r (respBuf getParamsRespSize reply)
  | _, _ => info.numPlanes.toNat ≤ maxPlanes → r = info.crop

theorem failsClean_fault {s : Stream} {f : Fault} : FailsClean s (.error f) := fun _ _ ho => by cases ho

theorem failsClean_error {s : Stream} {o : SelOutcome} {e : Errno} (he : o.result = .error e) :
    FailsClean s (.ok o) ↔ SameInfos o.stream s := by
  constructor
  · exact fun h => h o e rfl he
  · intro h _ _ ho _
    cases ho
    exact h

theorem failsClean_ok {s : Stream} {o : SelOutcome} (hok : o.result = .ok ()) : FailsClean s (.ok o) := by
  intro _ _ ho he
  cases ho
  rw [hok] at he
  cases he

/-- The end of the call, once SET_PARAMS has been sent. -/
theorem getParams_failsClean (queueType : QueueType) (s : Stream) (r : Crop) (request : Option (List UInt32))
    (x : Exchange) :
    FailsClean s ((checkPlanes (cmdGetParams (s.setCrop r queueType) queueType x)).bind fun o =>
        .ok ⟨o.stream, request, o.result, o.log⟩) ↔
      match x with
      | .answered _ => True
      | .answeredLate reply => Restores queueType s r (respBuf getParamsRespSize reply)
      | _ => r = (s.queueInfo queueType).crop := by
  have hget := cmdGetParams_eq (s.setCrop r queueType) queueType x
  cases x with
  | noVbuf | refused e | unanswered =>
    exact (failsClean_error rfl).trans setCrop_same
  | answered reply =>
    refine iff_true_intro ?_
    cases ho : cmdGetParams (s.setCrop r queueType) queueType (.answered reply) with
    | none => exact failsClean_fault
    | some o =>
      rw [ho] at hget
      obtain ⟨t, -, ht⟩ := Option.map_eq_some_iff.mp hget.symm
      exact failsClean_ok (congrArg Prod.snd ht).symm
  | answeredLate reply =>
    refine Iff.trans ?_ getParamsCb_restores
    cases ho : cmdGetParams (s.setCrop r queueType) queueType (.answeredLate reply) with
    | none =>
      rw [ho] at hget
      have hnone := Option.map_eq_none_iff.mp hget.symm
      refine iff_of_true failsClean_fault fun t ht => ?_
      exact absurd (hnone.symm.trans ht) (by simp)
    | some o =>
      rw [ho] at hget
      obtain ⟨t, hcb, ht⟩ := Option.map_eq_some_iff.mp hget.symm
      have hstream : t = o.stream := congrArg Prod.fst ht
      subst hstream
      refine (failsClean_error (congrArg Prod.snd ht).symm).trans ⟨fun h t' ht' => ?_, fun h => h _ hcb⟩
      obtain rfl := Option.some.inj (hcb.symm.trans ht')
      exact h

theorem sSelection_failsClean (queueType : QueueType) (accepted : SelTarget) (s : Stream) (type : BufType)
    (target : SelTarget) (r : Crop) (q : Queueing) (x : Exchange) :
    FailsClean s (sSelection queueType accepted s type target r q x) ↔
      (type.queueType ≠ queueType ∨ target ≠ accepted) ∨ Undone queueType s r q x := by
  by_cases hrej : type.queueType ≠ queueType ∨ target ≠ accepted
  · simp only [sSelection, if_pos hrej]
    refine iff_of_true ?_ (.inl hrej)
    intro o e ho _
    cases ho
    exact ⟨rfl, rfl⟩
  have hnum : ((s.setCrop r queueType).queueInfo queueType).numPlanes = (s.queueInfo queueType).numPlanes := by
    cases queueType <;> rfl
  unfold sSelection
  rw [if_neg hrej]
  simp only [hrej, false_or]
  by_cases hp : q = .noVbuf ∨ ((s.setCrop r queueType).queueInfo queueType).numPlanes.toNat ≤ maxPlanes
  · obtain ⟨request, hset⟩ := cmdSetParams_returns hp (s.setCrop r queueType).streamId queueType
    rw [hset]
    rw [hnum] at hp
    cases q with
    | noVbuf => exact (failsClean_error rfl).trans setCrop_same
    | refused e =>
      have hp := hp.resolve_left fun h => by cases h
      exact (failsClean_error rfl).trans (setCrop_same.trans (by simp only [Undone, hp, true_implies]))
    | queued =>
      have hp := hp.resolve_left fun h => by cases h
      refine (getParams_failsClean queueType s r request x).trans ?_
      cases x <;> simp only [Undone, hp, true_implies]
  · rw [cmdSetParams_faults hp]
    rw [hnum] at hp
    obtain ⟨hq, hn⟩ := not_or.mp hp
    refine iff_of_true failsClean_fault ?_
    cases q with
    | noVbuf => exact (hq rfl).elim
    | refused e => exact fun h => (hn h).elim
    | queued =>
      cases x with
      | answered reply => trivial
      | _ => exact fun h => (hn h).elim

/-- **A failed S_SELECTION.** It leaves the infos as they were exactly when
it is refused for its buffer type or its target, or the outcome of its
commands undoes the change. -/
theorem sSelection_keeps (device : DeviceType) (s : Stream) (type : BufType) (target : SelTarget) (r : Crop)
    (q : Queueing) (x : Exchange) :
    FailsClean s (device.sSelection s type target r q x) ↔
      (type.queueType ≠ device.selQueue ∨ target ≠ device.selTarget) ∨ Undone device.selQueue s r q x := by
  cases device <;> exact sSelection_failsClean _ _ s type target r q x

/-- A decoder that is refused the command keeps the rectangle, and reports it. -/
theorem decSSelection_kept :
    ¬FailsClean openedStream (decSSelection openedStream .captureMplane .compose ⟨8, 8, 16, 16⟩ (.refused .enodev)
      .unanswered) ∧
    ∃ o, decSSelection openedStream .captureMplane .compose ⟨8, 8, 16, 16⟩ (.refused .enodev) .unanswered = .ok o ∧
      (gSelection .decoder o.stream .captureMplane .crop ⟨0, 0, 0, 0⟩).toOption.map (·.left) = some 8 ∧
      (gSelection .decoder openedStream .captureMplane .crop ⟨0, 0, 0, 0⟩).toOption.map (·.left) = some 0 := by
  refine ⟨fun h => ?_, _, rfl, by decide, by decide⟩
  have hsame := h _ _ rfl rfl
  exact absurd (congrArg FormatInfo.crop hsame.2) (by decide)

end Agl.VirtioVideo
