/-
Formats between V4L2 and a stream: TRY_FMT, S_FMT and G_FMT, the parameters
sent to the device, and the sizes given to vb2 (`virtio_video_device.c`,
`virtio_video_helpers.c`, `virtio_video_cmd_set_params`).

A loop over planes that leaves its array, and the use of `frames[0]` of a
format that has none, have no defined outcome: they are faults. Of `struct
v4l2_pix_format_mplane` the reserved words and `flags` are left out.
-/
import Agl.Video.Caps
import Agl.Video.Cmd

namespace Agl.VirtioVideo

/-- Memory used that is not there. -/
inductive Fault
  /-- a plane outside an array of planes -/
  | plane
  /-- the first of no frames -/
  | frame
  deriving DecidableEq, Repr

/-- What a function comes to, unless it faults. -/
abbrev Checked := Except Fault

/-- A loop over planes. -/
def checkPlanes {α : Type} : Option α → Checked α
  | some a => .ok a
  | none => .error .plane

/-- A step returned exactly when its first part did, and then the rest. -/
theorem bind_eq_ok {α β : Type} {x : Checked α} {f : α → Checked β} {b : β} :
    x >>= f = .ok b ↔ ∃ a, x = .ok a ∧ f a = .ok b := by
  constructor
  · intro h
    cases x with
    | error e => cases h
    | ok a => exact ⟨a, rfl, h⟩
  · intro h
    obtain ⟨a, ha, hb⟩ := h
    rw [ha]
    exact hb

/-- `struct v4l2_plane_pix_format` -/
structure PlanePix where
  sizeimage : UInt32
  bytesperline : UInt32
  deriving DecidableEq, Repr

/-- `struct v4l2_pix_format_mplane` -/
structure PixMp where
  width : UInt32
  height : UInt32
  pixelformat : UInt32
  field : UInt32
  colorspace : UInt32
  xferFunc : UInt8
  ycbcrEnc : UInt8
  quantization : UInt8
  numPlanes : UInt8
  planeFmt : Vector PlanePix maxPlanes
  deriving DecidableEq, Repr

/-- `V4L2_FIELD_NONE` -/
def fieldNone : UInt32 := 1
/-- `V4L2_COLORSPACE_REC709` -/
def colorspaceRec709 : UInt32 := 3

/-- Plane `i` of an array of planes; only used below `maxPlanes`. -/
def planeAt {α : Type} (zero : α) (planes : Vector α maxPlanes) (i : Nat) : α := planes[i]?.getD zero

/-- `virtio_video_format_from_info` -/
def formatFromInfo (info : FormatInfo) (pix : PixMp) : Checked PixMp := do
  let planeFmt ← checkPlanes (writePlanes
    (fun i => let p := planeAt ⟨0, 0⟩ info.planeFormat i; ⟨p.planeSize, p.stride⟩) info.numPlanes.toNat pix.planeFmt)
  return {
    width := info.frameWidth
    height := info.frameHeight
    pixelformat := info.fourccFormat
    field := fieldNone
    colorspace := colorspaceRec709
    xferFunc := 0
    ycbcrEnc := 0
    quantization := 0
    numPlanes := info.numPlanes.toUInt8
    planeFmt }

/-! ## TRY_FMT -/

/-- `virtio_video_find_video_format` -/
def findVideoFormat (fmtsList : List VideoFormat) (format : UInt32) : Option VideoFormat :=
  fmtsList.find? fun fmt => fmt.format = format

/-- `within_range` -/
def withinRange (min val max : UInt32) : Bool := min ≤ val && val ≤ max

/-- `needs_alignment`; `IS_ALIGNED` tests the bits below a power of two. -/
def needsAlignment (val a : UInt32) : Bool := !(a = 0 || val &&& (a - 1) = 0)

/-- `ALIGN` -/
def align (x a : UInt32) : UInt32 := (x + (a - 1)) &&& ~~~(a - 1)

/-- `clamp` -/
def clamp (val lo hi : UInt32) : UInt32 :=
  let val := if val > lo then val else lo
  if val < hi then val else hi

/-- The loop of `virtio_video_try_fmt` over the frames from `i` on: the frame
found, and `idx`. -/
def tryFrames (width height : UInt32) : Nat → Nat → List FormatFrame → Option FormatFrame × Nat
  | _, idx, [] => (none, idx)
  | i, idx, frame :: rest =>
    if !withinRange frame.width.min width frame.width.max || !withinRange frame.height.min height frame.height.max then
      tryFrames width height (i + 1) idx rest
    else if needsAlignment width frame.width.step || needsAlignment height frame.height.step then
      tryFrames width height (i + 1) i rest
    else (some frame, i)

/-- A size brought into a range, then to a multiple of its step. -/
def fitSize (val : UInt32) (range : FormatRange) : UInt32 :=
  let val := clamp val range.min range.max
  if range.step ≠ 0 then align val range.step else val

/-- `virtio_video_try_fmt`: the format, and `current_frame` if it is set. -/
def tryFmt (vvd : FormatLists) (s : Stream) (type : BufType) (pix : PixMp) :
    Checked (Except Errno (PixMp × Option FormatFrame)) :=
  if s.state = .error then .ok (.error .eio)
  else
    match findVideoFormat (if type.isOutput then vvd.inputFmtList else vvd.outputFmtList) pix.pixelformat with
    | none =>
      match type with
      | .captureMplane => (formatFromInfo s.outInfo pix).map fun pix => .ok (pix, none)
      | .outputMplane => (formatFromInfo s.inInfo pix).map fun pix => .ok (pix, none)
      | .other => .ok (.error .einval)
    | some fmt =>
      match tryFrames pix.width pix.height 0 0 fmt.frames with
      | (some frame, _) => .ok (.ok (pix, some frame))
      | (none, idx) =>
        match fmt.frames[idx]? with
        | none => .error .frame
        | some frame =>
          .ok (.ok ({ pix with width := fitSize pix.width frame.width, height := fitSize pix.height frame.height },
            some frame))

/-! ## Parameters -/

/-- `VIRTIO_VIDEO_CMD_SET_PARAMS` -/
def cmdSetParamsCode : UInt32 := 0x109

/-- What becomes of an asynchronous command. -/
inductive Queueing
  /-- `virtio_video_get_vbuf` finds no memory -/
  | noVbuf
  /-- `virtio_video_queue_cmd_buffer` fails -/
  | refused (e : Errno)
  | queued
  deriving DecidableEq, Repr

/-- `virtio_video_cmd_set_params`: the request in 32-bit words, and the result.
The crop rectangle of the request is not filled in, the vbuf was cleared. -/
def cmdSetParams (streamId : UInt32) (info : FormatInfo) (queueType : QueueType) (q : Queueing) :
    Checked (Option (List UInt32) × Except Errno Unit) :=
  match q with
  | .noVbuf => .ok (none, .error .enomem)
  | .refused _ | .queued => do
    let planes ← checkPlanes
      (writePlanes (planeAt ⟨0, 0⟩ info.planeFormat) info.numPlanes.toNat (Vector.replicate maxPlanes ⟨0, 0⟩))
    let request := [cmdSetParamsCode, streamId, queueType.code, v4l2FormatToVirtio info.fourccFormat,
      info.frameWidth, info.frameHeight, info.minBuffers, info.maxBuffers, 0, 0, 0, 0, info.frameRate,
      info.numPlanes] ++
      planes.toList.flatMap fun p => [p.planeSize, p.stride]
    return (some request, match q with | .refused e => .error e | _ => .ok ())

/-- What is left of a call that asks the device for the parameters. -/
structure ParamsOutcome where
  stream : Stream
  result : Except Errno Unit
  /-- the messages of `v4l2_err` -/
  log : List String

/-- A `GET_PARAMS` command and the caller's message when it fails. -/
def getParamsOr (s : Stream) (queueType : QueueType) (x : Exchange) (message : String) : Checked ParamsOutcome := do
  let o ← checkPlanes (cmdGetParams s queueType x)
  return { stream := o.stream, result := o.result, log := o.log.toList ++ if o.result.isOk then [] else [message] }

/-- `virtio_video_stream_get_params` -/
def streamGetParams (isM2mDev : Bool) (s : Stream) (xIn xOut : Exchange) : Checked ParamsOutcome := do
  let i ← if isM2mDev then getParamsOr s .input xIn "failed to get stream in params\n" else .ok ⟨s, .ok (), []⟩
  if i.result.isOk then
    let o ← getParamsOr i.stream .output xOut "failed to get stream out params\n"
    return { o with log := i.log ++ o.log }
  else return i

/-- What S_FMT leaves. -/
structure SFmtOutcome where
  stream : Stream
  pix : PixMp
  currentFrame : Option FormatFrame
  request : Option (List UInt32)
  result : Except Errno Unit
  log : List String

/-- The `info` of the queue `virtio_video_s_fmt` is for. -/
def Stream.infoOf (s : Stream) (type : BufType) : FormatInfo := if type.isOutput then s.inInfo else s.outInfo

/-- The parameters `virtio_video_s_fmt` asks for. -/
def sFmtInfo (info : FormatInfo) (pix : PixMp) : Checked FormatInfo := do
  let planeFormat ← checkPlanes (writePlanes
    (fun i => let p := planeAt ⟨0, 0⟩ pix.planeFmt i; ⟨p.sizeimage, p.bytesperline⟩)
    pix.numPlanes.toNat info.planeFormat)
  return { info with
    frameWidth := pix.width
    frameHeight := pix.height
    numPlanes := pix.numPlanes.toUInt32
    fourccFormat := pix.pixelformat
    planeFormat }

/-- `virtio_video_s_fmt`; the results of its commands are not looked at. -/
def sFmt (vvd : FormatLists) (isM2mDev : Bool) (s : Stream) (type : BufType) (pix : PixMp) (q : Queueing)
    (xIn xOut : Exchange) : Checked SFmtOutcome := do
  match ← tryFmt vvd s type pix with
  | .error e => return { stream := s, pix, currentFrame := none, request := none, result := .error e, log := [] }
  | .ok (pix, currentFrame) =>
    let info ← sFmtInfo (s.infoOf type) pix
    let (request, _) ← cmdSetParams s.streamId info (if type.isOutput then .input else .output) q
    let o ← streamGetParams isM2mDev s xIn xOut
    let pix ← formatFromInfo (o.stream.infoOf type) pix
    return { stream := o.stream, pix, currentFrame, request, result := .ok (), log := o.log }

/-! ## Buffers -/

/-- `virtio_video_queue_setup`, as called with `*num_planes` and `sizes`. -/
def queueSetup (s : Stream) (isOutput : Bool) (numPlanes : UInt32) (sizes : Vector UInt32 maxPlanes) :
    Checked (Except Errno (UInt32 × Vector UInt32 maxPlanes)) :=
  if s.state = .error then .ok (.error .eio)
  else if numPlanes ≠ 0 then .ok (.ok (numPlanes, sizes))
  else do
    let info := if isOutput then s.inInfo else s.outInfo
    let sizes ← checkPlanes
      (writePlanes (fun i => (planeAt ⟨0, 0⟩ info.planeFormat i).planeSize) info.numPlanes.toNat sizes)
    return .ok (info.numPlanes, sizes)

end Agl.VirtioVideo
