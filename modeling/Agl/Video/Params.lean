/-
The parameters of a queue on the wire: what `virtio_video_cmd_set_params`
sends, `virtio_video_cmd_get_params_cb` reads back, all but the crop
rectangle, which only the reader knows of.
-/
import Agl.Lib.Words
import Agl.Video.CmdFacts
import Agl.Video.Format

namespace Agl.VirtioVideo

/-- The info of a queue. -/
def Stream.queueInfo (s : Stream) : QueueType → FormatInfo
  | .input => s.inInfo
  | .output => s.outInfo

/-- The infos agree in every field, and in the planes there are. -/
structure SameInfo (a b : FormatInfo) : Prop where
  fourccFormat : a.fourccFormat = b.fourccFormat
  frameRate : a.frameRate = b.frameRate
  frameWidth : a.frameWidth = b.frameWidth
  frameHeight : a.frameHeight = b.frameHeight
  minBuffers : a.minBuffers = b.minBuffers
  maxBuffers : a.maxBuffers = b.maxBuffers
  crop : a.crop = b.crop
  numPlanes : a.numPlanes = b.numPlanes
  planeFormat : ∀ i (hi : i < maxPlanes), i < b.numPlanes.toNat → a.planeFormat[i] = b.planeFormat[i]

/-! ## The request -/

/-- The planes as words, two for each. -/
theorem planeWords_get {ps : List PlaneFormat} {i : Nat} {p : PlaneFormat} (hp : ps[i]? = some p) :
    (ps.flatMap fun p => [p.planeSize, p.stride])[2 * i]? = some p.planeSize ∧
      (ps.flatMap fun p => [p.planeSize, p.stride])[2 * i + 1]? = some p.stride := by
  induction ps generalizing i with
  | nil => cases hp
  | cons q ps ih =>
    cases i with
    | zero =>
      cases hp
      exact ⟨rfl, rfl⟩
    | succ i =>
      obtain ⟨hsize, hstride⟩ := ih hp
      have hshift : ∀ j, (q.planeSize :: q.stride :: ps.flatMap fun p => [p.planeSize, p.stride])[j + 2]? =
          (ps.flatMap fun p => [p.planeSize, p.stride])[j]? := fun j => rfl
      rw [List.flatMap_cons, show 2 * (i + 1) = 2 * i + 2 from rfl]
      exact ⟨(hshift _).trans hsize, (hshift _).trans hstride⟩

theorem length_planeWords (ps : List PlaneFormat) :
    (ps.flatMap fun p => [p.planeSize, p.stride]).length = 2 * ps.length := by
  induction ps with
  | nil => rfl
  | cons p ps ih =>
    rw [List.flatMap_cons, List.length_append, ih, List.length_cons, List.length_cons]
    simp only [List.length_cons, List.length_nil]
    omega

/-- What SET_PARAMS returns. -/
def Queueing.result : Queueing → Except Errno Unit
  | .noVbuf => .error .enomem
  | .refused e => .error e
  | .queued => .ok ()

theorem cmdSetParams_returns {info : FormatInfo} {q : Queueing} (h : q = .noVbuf ∨ info.numPlanes.toNat ≤ maxPlanes)
    (streamId : UInt32) (queueType : QueueType) :
    ∃ request, cmdSetParams streamId info queueType q = .ok (request, q.result) := by
  cases q with
  | noVbuf => exact ⟨none, rfl⟩
  | refused e | queued =>
    have hn := h.resolve_left fun h => by cases h
    obtain ⟨planes, hw, -⟩ := writePlanes_some (planeAt ⟨0, 0⟩ info.planeFormat)
      (Vector.replicate maxPlanes ⟨0, 0⟩) hn
    simp only [cmdSetParams, hw, checkPlanes]
    exact ⟨_, rfl⟩

theorem cmdSetParams_faults {info : FormatInfo} {q : Queueing}
    (h : ¬(q = .noVbuf ∨ info.numPlanes.toNat ≤ maxPlanes)) (streamId : UInt32) (queueType : QueueType) :
    cmdSetParams streamId info queueType q = .error .plane := by
  obtain ⟨hq, hn⟩ := not_or.mp h
  have hw := writePlanes_none (planeAt ⟨0, 0⟩ info.planeFormat) (Vector.replicate maxPlanes ⟨0, 0⟩) (Nat.not_le.mp hn)
  cases q with
  | noVbuf => exact (hq rfl).elim
  | refused e | queued =>
    simp only [cmdSetParams, hw, checkPlanes]
    rfl

/-- The request as it is queued, with the planes below `num_planes` filled in. -/
theorem cmdSetParams_queued {info : FormatInfo} (h : info.numPlanes.toNat ≤ maxPlanes) (streamId : UInt32)
    (queueType : QueueType) : ∃ planes : Vector PlaneFormat maxPlanes,
      cmdSetParams streamId info queueType .queued =
        .ok (some ([cmdSetParamsCode, streamId, queueType.code, v4l2FormatToVirtio info.fourccFormat, info.frameWidth,
          info.frameHeight, info.minBuffers, info.maxBuffers, 0, 0, 0, 0, info.frameRate, info.numPlanes] ++
          planes.toList.flatMap fun p => [p.planeSize, p.stride]), .ok ()) ∧
      ∀ i (hi : i < maxPlanes), i < info.numPlanes.toNat → planes[i] = info.planeFormat[i] := by
  obtain ⟨planes, hw, hat⟩ := writePlanes_some (planeAt ⟨0, 0⟩ info.planeFormat)
    (Vector.replicate maxPlanes ⟨0, 0⟩) h
  refine ⟨planes, by simp only [cmdSetParams, hw, checkPlanes]; rfl, fun i hi hlt => ?_⟩
  rw [hat i hi, if_pos hlt, planeAt, Vector.getElem?_eq_getElem hi]
  rfl

/-! ## The state of the stream -/

theorem getParamsCb_state {m : Mem} {s t : Stream} (h : getParamsCb m s = some t) : t.state = s.state := by
  unfold getParamsCb at h
  split at h <;>
  · obtain ⟨info, -, hinfo⟩ := Option.bind_eq_some_iff.1 h
    cases hinfo
    rfl

theorem cmdGetParams_state {s : Stream} {queueType : QueueType} {x : Exchange} {o : Outcome}
    (h : cmdGetParams s queueType x = some o) : o.stream.state = s.state := by
  unfold cmdGetParams syncCmd at h
  rw [queueCmdBufferSync_eq] at h
  obtain ⟨⟨t, r⟩, ht, ho⟩ := Option.bind_eq_some_iff.1 h
  cases ho
  obtain ⟨t, hcb, he⟩ := Option.map_eq_some_iff.1 ht
  cases he
  cases hreply : x.reply with
  | none =>
    rw [hreply] at hcb
    cases hcb
    rfl
  | some m =>
    rw [hreply] at hcb
    exact getParamsCb_state hcb

theorem getParamsOr_state {s : Stream} {queueType : QueueType} {x : Exchange} {message : String} {o : ParamsOutcome}
    (h : getParamsOr s queueType x message = .ok o) : o.stream.state = s.state := by
  obtain ⟨p, hp, ho⟩ := bind_eq_ok.1 h
  cases ho
  cases hget : cmdGetParams s queueType x with
  | none =>
    rw [hget] at hp
    cases hp
  | some p =>
    rw [hget] at hp
    cases hp
    exact cmdGetParams_state hget

/-- Asking for the parameters leaves the state of the stream. -/
theorem streamGetParams_state {isM2mDev : Bool} {s : Stream} {xIn xOut : Exchange} {o : ParamsOutcome}
    (h : streamGetParams isM2mDev s xIn xOut = .ok o) : o.stream.state = s.state := by
  unfold streamGetParams at h
  cases isM2mDev with
  | false =>
    obtain ⟨i, hi, ho⟩ := bind_eq_ok.1 h
    cases hi
    obtain ⟨p, hp, hlast⟩ := bind_eq_ok.1 ho
    cases hlast
    exact getParamsOr_state hp
  | true =>
    obtain ⟨i, hi, ho⟩ := bind_eq_ok.1 h
    dsimp only at ho
    split at ho
    · obtain ⟨p, hp, hlast⟩ := bind_eq_ok.1 ho
      cases hlast
      exact (getParamsOr_state hp).trans (getParamsOr_state hi)
    · cases ho
      exact getParamsOr_state hi

/-! ## The reply -/

theorem respBuf_holds {size off : Nat} {m : Mem} {l : List UInt8} (h : m.Holds off l) (hsize : off + l.length ≤ size) :
    (respBuf size m).Holds off l := by
  rw [Mem.holds_iff]
  intro i hi
  rw [respBuf, if_pos (by omega), h.get hi]

/-- The formats of the table come back. -/
theorem formatToV4l2_toVirtio : ∀ e ∈ formatTable, formatToV4l2 (v4l2FormatToVirtio e.v4l2Value) = e.v4l2Value := by
  decide

/-- The block that is sent, read back. -/
theorem infoOfParams_sent {info : FormatInfo} (hplanes : info.numPlanes.toNat ≤ maxPlanes)
    (hformat : info.fourccFormat ∈ formatTable.map (·.v4l2Value)) {queueType : QueueType}
    {planes : Vector PlaneFormat maxPlanes}
    (hat : ∀ i (hi : i < maxPlanes), i < info.numPlanes.toNat → planes[i] = info.planeFormat[i]) {m : Mem}
    (hm : m.Holds 8 (([queueType.code, v4l2FormatToVirtio info.fourccFormat, info.frameWidth,
      info.frameHeight, info.minBuffers, info.maxBuffers, 0, 0, 0, 0, info.frameRate, info.numPlanes] ++
      planes.toList.flatMap fun p => [p.planeSize, p.stride]).flatMap le32Bytes)) (old : Vector PlaneFormat maxPlanes) :
    m.le32 8 = queueType.code ∧
      ∃ info', infoOfParams m old = some info' ∧ SameInfo info' { info with crop := ⟨0, 0, 0, 0⟩ } := by
  obtain ⟨e, he, hv⟩ := List.mem_map.1 hformat
  have hfourcc := formatToV4l2_toVirtio e he
  rw [hv] at hfourcc
  have hword {i : Nat} {v : UInt32} := hm.words (i := i) (v := v)
  have hnum : m.le32 52 = info.numPlanes := hword (i := 11) rfl
  have hformat : m.le32 12 = v4l2FormatToVirtio info.fourccFormat := hword (i := 1) rfl
  obtain ⟨w, hw, hwat⟩ := writePlanes_some
    (fun i => (⟨m.le32 (56 + 8 * i), m.le32 (60 + 8 * i)⟩ : PlaneFormat)) old hplanes
  refine ⟨hword (i := 0) rfl, _, by simp only [infoOfParams, hnum, hw]; rfl, ?_⟩
  constructor
  · change formatToV4l2 (m.le32 12) = info.fourccFormat
    rw [hformat, hfourcc]
  · exact hword (i := 10) rfl
  · exact hword (i := 2) rfl
  · exact hword (i := 3) rfl
  · exact hword (i := 4) rfl
  · exact hword (i := 5) rfl
  · have hleft : m.le32 32 = 0 := hword (i := 6) rfl
    have htop : m.le32 36 = 0 := hword (i := 7) rfl
    have hwidth : m.le32 40 = 0 := hword (i := 8) rfl
    have hheight : m.le32 44 = 0 := hword (i := 9) rfl
    dsimp only
    rw [hleft, htop, hwidth, hheight]
  · rfl
  · intro i hi hlt
    have hget : planes.toList[i]? = some planes[i] := by simp [hi]
    obtain ⟨hsize, hstride⟩ := planeWords_get hget
    have hrest : m.Holds 56 ((planes.toList.flatMap fun p => [p.planeSize, p.stride]).flatMap le32Bytes) := by
      rw [List.flatMap_append] at hm
      exact hm.right
    have hs := hrest.words hsize
    have ht := hrest.words hstride
    rw [show 56 + 4 * (2 * i) = 56 + 8 * i by omega] at hs
    rw [show 56 + 4 * (2 * i + 1) = 60 + 8 * i by omega] at ht
    dsimp only
    rw [hwat i hi, if_pos hlt, hs, ht, hat i hi hlt]

section

variable {info : FormatInfo} (hplanes : info.numPlanes.toNat ≤ maxPlanes)
  (hformat : info.fourccFormat ∈ formatTable.map (·.v4l2Value)) {streamId : UInt32} {queueType : QueueType}
  {request : List UInt32}
  (hset : cmdSetParams streamId info queueType .queued = .ok (some request, .ok ())) {reply : Mem}
  (hreply : reply.Holds cmdHdrSize ((request.drop 2).flatMap le32Bytes))
include hplanes hformat hset hreply

/-- All but the crop rectangle comes back, and to the queue it was sent for. -/
theorem getParamsCb_sent (s : Stream) :
    ∃ s', getParamsCb (respBuf getParamsRespSize reply) s = some s' ∧
      SameInfo (s'.queueInfo queueType) { info with crop := ⟨0, 0, 0, 0⟩ } ∧
      ∀ other, other ≠ queueType → s'.queueInfo other = s.queueInfo other := by
  obtain ⟨planes, hq, hat⟩ := cmdSetParams_queued hplanes streamId queueType
  rw [hset] at hq
  cases hq
  have hm : (respBuf getParamsRespSize reply).Holds cmdHdrSize _ := respBuf_holds hreply (by
    rw [length_flatMap_le32Bytes, List.length_drop, List.length_append, length_planeWords, Vector.length_toList]
    exact Nat.le_refl _)
  cases queueType with
  | input =>
    obtain ⟨hqueue, info', hinfo, hsame⟩ := infoOfParams_sent hplanes hformat hat hm s.inInfo.planeFormat
    refine ⟨{ s with inInfo := info' }, ?_, hsame, ?_⟩
    · unfold getParamsCb
      rw [if_pos hqueue, hinfo]
      rfl
    · intro other hother
      cases other
      · exact absurd rfl hother
      · rfl
  | output =>
    obtain ⟨hqueue, info', hinfo, hsame⟩ := infoOfParams_sent hplanes hformat hat hm s.outInfo.planeFormat
    refine ⟨{ s with outInfo := info' }, ?_, hsame, ?_⟩
    · unfold getParamsCb
      rw [if_neg (by rw [hqueue]; decide), hinfo]
      rfl
    · intro other hother
      cases other
      · rfl
      · exact absurd rfl hother

/-- **GET_PARAMS reconstructs what SET_PARAMS was given exactly when the crop
rectangle is all zero.** -/
theorem getParams_of_setParams (s : Stream) :
    (∃ s', getParamsCb (respBuf getParamsRespSize reply) s = some s' ∧ SameInfo (s'.queueInfo queueType) info) ↔
      info.crop = ⟨0, 0, 0, 0⟩ := by
  obtain ⟨s', hs', hsame, -⟩ := getParamsCb_sent hplanes hformat hset hreply s
  constructor
  · rintro ⟨t, ht, hinfo⟩
    rw [hs'] at ht
    cases ht
    exact hinfo.crop.symm.trans hsame.crop
  · intro hcrop
    refine ⟨s', hs', ?_⟩
    rw [← hcrop] at hsame
    exact hsame

end

/-- A picture in NV12, as the info of a queue. -/
def nv12Info (crop : Crop) : FormatInfo :=
  ⟨v4l2Fourcc 'N' 'V' '1' '2', 30, 640, 480, 1, 32, crop, 1, .replicate _ ⟨460800, 640⟩⟩

/-- A reply whose params block is the request's. -/
def echo (info : FormatInfo) (queueType : QueueType) : Mem :=
  match cmdSetParams 1 info queueType .queued with
  | .ok (some request, _) => .ofList (request.flatMap le32Bytes) fun _ => 0
  | _ => fun _ => 0

theorem echo_holds {info : FormatInfo} (h : info.numPlanes.toNat ≤ maxPlanes) (queueType : QueueType) :
    ∃ request, cmdSetParams 1 info queueType .queued = .ok (some request, .ok ()) ∧
      (echo info queueType).Holds cmdHdrSize ((request.drop 2).flatMap le32Bytes) := by
  obtain ⟨planes, hset, -⟩ := cmdSetParams_queued h 1 queueType
  refine ⟨_, hset, ?_⟩
  unfold echo
  rw [hset]
  dsimp only
  rw [List.cons_append, List.cons_append, List.flatMap_cons, List.flatMap_cons]
  exact (Mem.holds_ofList _ _).right.right

theorem getParams_of_setParams_uncropped :
    ∃ s', getParamsCb (respBuf getParamsRespSize (echo (nv12Info ⟨0, 0, 0, 0⟩) .input)) openedStream = some s' ∧
      SameInfo s'.inInfo (nv12Info ⟨0, 0, 0, 0⟩) := by
  obtain ⟨request, hset, hreply⟩ := echo_holds (by decide : (nv12Info ⟨0, 0, 0, 0⟩).numPlanes.toNat ≤ maxPlanes) .input
  exact (getParams_of_setParams (by decide) (by decide) hset hreply openedStream).2 rfl

/-- The crop rectangle of a picture comes back as zeros. -/
theorem getParams_crop_lost : ¬ ∀ (info : FormatInfo) (queueType : QueueType) (s : Stream) (request : List UInt32)
    (reply : Mem), info.numPlanes.toNat ≤ maxPlanes → info.fourccFormat ∈ formatTable.map (·.v4l2Value) →
    cmdSetParams 1 info queueType .queued = .ok (some request, .ok ()) →
    reply.Holds cmdHdrSize ((request.drop 2).flatMap le32Bytes) →
    ∃ s', getParamsCb (respBuf getParamsRespSize reply) s = some s' ∧ SameInfo (s'.queueInfo queueType) info := by
  intro h
  have hplanes : (nv12Info ⟨0, 0, 640, 480⟩).numPlanes.toNat ≤ maxPlanes := by decide
  obtain ⟨request, hset, hreply⟩ := echo_holds hplanes .output
  obtain ⟨s', hs', hinfo⟩ := h _ .output openedStream request _ hplanes (by decide) hset hreply
  obtain ⟨t, ht, hsame, -⟩ := getParamsCb_sent hplanes (by decide) hset hreply openedStream
  rw [hs'] at ht
  cases ht
  exact absurd (hinfo.crop.symm.trans hsame.crop) (by decide)

end Agl.VirtioVideo
