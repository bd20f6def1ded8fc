/-
The synchronous commands of the virtio video driver, and the callbacks that
take a device's reply into a stream or a buffer (`virtio_video_vq.c`,
`virtio_video_buf_done`).

A reply is the content of its buffer: the device may have written any
bytes. What it did not write is zero, as the vbuf was cleared. The offsets
are those of the structs on a 64-bit machine. Writing past an array of
planes has no defined outcome (`none`).

Left out: the caller's buffer that the replies to `QUERY_CAPABILITY` and
`QUERY_CONTROL` go to (see `Caps`), and what `vb2` does with a buffer it
gets back.
-/
import Mathlib.Logic.Basic
import Agl.Lib.Access
import Agl.Video.Helpers

namespace Agl.VirtioVideo

/-- `enum virtio_video_cmd_type`: the requests sent here, and the replies. -/
inductive CmdType
  | queryCapability | resourceQueue | queueDetachResources | queueClear | getParams | queryControl | getControl
  | okNodata | okQueryCapability | okResourceQueue | okGetParams | okQueryControl | okGetControl
  | errInvalidOperation | errOutOfMemory | errInvalidStreamId | errInvalidResourceId | errInvalidParameter
  | errUnsupportedControl
  deriving DecidableEq, Repr

def CmdType.code : CmdType → UInt32
  | .queryCapability => 0x100
  | .resourceQueue => 0x105
  | .queueDetachResources => 0x106
  | .queueClear => 0x107
  | .getParams => 0x108
  | .queryControl => 0x10a
  | .getControl => 0x10b
  | .okNodata => 0x200
  | .okQueryCapability => 0x201
  | .okResourceQueue => 0x202
  | .okGetParams => 0x203
  | .okQueryControl => 0x204
  | .okGetControl => 0x205
  | .errInvalidOperation => 0x300
  | .errOutOfMemory => 0x301
  | .errInvalidStreamId => 0x302
  | .errInvalidResourceId => 0x303
  | .errInvalidParameter => 0x304
  | .errUnsupportedControl => 0x305

/-- `enum virtio_video_queue_type` -/
inductive QueueType
  | input | output
  deriving DecidableEq, Repr

def QueueType.code : QueueType → UInt32
  | .input => 0x100
  | .output => 0x101

/-- The queue as the messages of the driver call it. -/
def QueueType.v4l2Name : QueueType → String
  | .input => "OUTPUT"
  | .output => "CAPTURE"

/-- `VIRTIO_VIDEO_CONTROL_BITRATE` -/
def controlBitrate : UInt32 := 1
/-- `VIRTIO_VIDEO_CONTROL_PROFILE` -/
def controlProfile : UInt32 := 2
/-- `VIRTIO_VIDEO_CONTROL_LEVEL` -/
def controlLevel : UInt32 := 3

/-- `VIRTIO_VIDEO_MAX_PLANES`, and the kernel's `VB2_MAX_PLANES` -/
abbrev maxPlanes : Nat := 8

/-! ## Streams -/

/-- `struct video_plane_format` -/
structure PlaneFormat where
  planeSize : UInt32
  stride : UInt32
  deriving DecidableEq, Repr

/-- `struct virtio_video_crop` -/
structure Crop where
  left : UInt32
  top : UInt32
  width : UInt32
  height : UInt32
  deriving DecidableEq, Repr

/-- `struct video_format_info` -/
structure FormatInfo where
  fourccFormat : UInt32
  frameRate : UInt32
  frameWidth : UInt32
  frameHeight : UInt32
  minBuffers : UInt32
  maxBuffers : UInt32
  crop : Crop
  numPlanes : UInt32
  planeFormat : Vector PlaneFormat maxPlanes
  deriving DecidableEq, Repr

/-- `struct video_control_info` -/
structure ControlInfo where
  profile : UInt32
  level : UInt32
  bitrate : UInt32
  deriving DecidableEq, Repr

/-- `enum video_stream_state` -/
inductive StreamState
  | idle | init | dynamicResChange | running | drain | stopped | reset | error
  deriving DecidableEq, Repr

/-- `struct virtio_video_stream` -/
structure Stream where
  streamId : UInt32
  state : StreamState
  inInfo : FormatInfo
  outInfo : FormatInfo
  control : ControlInfo
  deriving DecidableEq, Repr

/-- `virtio_video_state_update` -/
def Stream.stateUpdate (s : Stream) (newState : StreamState) : Stream :=
  if s.state = .error then s else { s with state := newState }

/-- A loop over the planes below `n` that writes `f i` to place `i`. -/
def writePlanes {α : Type} (f : Nat → α) : Nat → Vector α maxPlanes → Option (Vector α maxPlanes)
  | 0, planes => some planes
  | n + 1, planes => do
    let planes ← writePlanes f n planes
    if h : n < maxPlanes then return planes.set n (f n) else none

/-! ## What the callbacks do with a reply -/

/-- `vbuf->resp_cb`, on the reply and the stream in `vbuf->priv`. -/
abbrev RespCb := Mem → Stream → Option Stream

/-- `resp_cb` is not set. -/
def noCb : RespCb := fun _ s => some s

/-- `resp->params` as a `video_format_info`, over the planes there were. -/
def infoOfParams (m : Mem) (planeFormat : Vector PlaneFormat maxPlanes) : Option FormatInfo := do
  let numPlanes := m.le32 52
  let planeFormat ← writePlanes (fun i => ⟨m.le32 (56 + 8 * i), m.le32 (60 + 8 * i)⟩) numPlanes.toNat planeFormat
  return {
    fourccFormat := formatToV4l2 (m.le32 12)
    frameRate := m.le32 48
    frameWidth := m.le32 16
    frameHeight := m.le32 20
    minBuffers := m.le32 24
    maxBuffers := m.le32 28
    crop := { left := m.le32 32, top := m.le32 36, width := m.le32 40, height := m.le32 44 }
    numPlanes
    planeFormat }

/-- `virtio_video_cmd_get_params_cb` -/
def getParamsCb : RespCb := fun m s => do
  -- the queue is the reply's, not the request's
  if m.le32 8 = QueueType.input.code then return { s with inInfo := ← infoOfParams m s.inInfo.planeFormat }
  else return { s with outInfo := ← infoOfParams m s.outInfo.planeFormat }

/-- `virtio_video_cmd_get_ctrl_profile_cb` -/
def getCtrlProfileCb : RespCb := fun m s => some { s with control := { s.control with profile := m.le32 8 } }

/-- `virtio_video_cmd_get_ctrl_level_cb` -/
def getCtrlLevelCb : RespCb := fun m s => some { s with control := { s.control with level := m.le32 8 } }

/-- `virtio_video_cmd_get_ctrl_bitrate_cb` -/
def getCtrlBitrateCb : RespCb := fun m s => some { s with control := { s.control with bitrate := m.le32 8 } }

/-! ## Synchronous commands -/

/-- What becomes of a synchronous command. -/
inductive Exchange
  /-- `virtio_video_get_vbuf` finds no memory -/
  | noVbuf
  /-- `virtio_video_queue_cmd_buffer` fails -/
  | refused (e : Errno)
  /-- the callback takes the reply in time -/
  | answered (reply : Mem)
  /-- the callback takes it after the time-out, before the waiter has `qlock` -/
  | answeredLate (reply : Mem)
  /-- the waiter frees the vbuf first -/
  | unanswered

def Exchange.hasVbuf : Exchange → Bool
  | .noVbuf => false
  | _ => true

/-- The response buffer of `size` bytes after the device's writes. -/
def respBuf (size : Nat) (reply : Mem) : Mem := fun i => if i < size then reply i else 0

/-- What a command function leaves behind. -/
structure Outcome where
  /-- the request, in 32-bit words, if one was made -/
  request : Option (List UInt32)
  stream : Stream
  result : Except Errno Unit
  /-- the message of `v4l2_err` -/
  log : Option String

/-- `virtio_video_queue_cmd_buffer_sync`: the stream after, and the result. -/
def queueCmdBufferSync (respSize : Nat) (cb : RespCb) (s : Stream) : Exchange → Option (Stream × Except Errno Unit)
  | .noVbuf => some (s, .error .enomem)
  | .refused e => some (s, .error e)
  | .answered reply => (cb (respBuf respSize reply) s).map fun s => (s, .ok ())
  | .answeredLate reply => (cb (respBuf respSize reply) s).map fun s => (s, .error .etimedout)
  | .unanswered => some (s, .error .etimedout)

/-- The common part of the command functions: a request, the room for its
reply, the callback, and the message after a time-out. -/
def syncCmd (request : List UInt32) (respSize : Nat) (cb : RespCb) (what : String) (s : Stream) (x : Exchange) :
    Option Outcome := do
  let (stream, result) ← queueCmdBufferSync respSize cb s x
  return {
    request := if x.hasVbuf then some request else none
    stream, result
    log := match result with | .error .etimedout => some ("timed out waiting for " ++ what) | _ => none }

/-- `sizeof(struct virtio_video_cmd_hdr)` -/
def cmdHdrSize : Nat := 8
/-- `sizeof(struct virtio_video_get_params_resp)` -/
def getParamsRespSize : Nat := 120
/-- `sizeof(struct virtio_video_get_control_resp)` and its value -/
def getControlRespSize : Nat := 16

/-- `virtio_video_cmd_queue_detach_resources` -/
def cmdQueueDetachResources (s : Stream) (queueType : QueueType) : Exchange → Option Outcome :=
  syncCmd [CmdType.queueDetachResources.code, s.streamId, queueType.code, 0] cmdHdrSize noCb
    ("resource destruction for " ++ queueType.v4l2Name) s

/-- `virtio_video_cmd_queue_clear` -/
def cmdQueueClear (s : Stream) (queueType : QueueType) : Exchange → Option Outcome :=
  syncCmd [CmdType.queueClear.code, s.streamId, queueType.code, 0] cmdHdrSize noCb
    (queueType.v4l2Name ++ " queue clear") s

/-- `virtio_video_cmd_query_capability`; `s` is any stream. -/
def cmdQueryCapability (respSize : Nat) (queueType : QueueType) (s : Stream) : Exchange → Option Outcome :=
  syncCmd [CmdType.queryCapability.code, 0, queueType.code, 0] respSize noCb
    ("capabilities for " ++ queueType.v4l2Name) s

/-- `virtio_video_query_control_level`; `s` is any stream. -/
def queryControlLevel (respSize : Nat) (format : UInt32) (s : Stream) : Exchange → Option Outcome :=
  syncCmd [CmdType.queryControl.code, 0, controlLevel, 0, format, 0] respSize noCb "level query" s

/-- `virtio_video_query_control_profile`; `s` is any stream. -/
def queryControlProfile (respSize : Nat) (format : UInt32) (s : Stream) : Exchange → Option Outcome :=
  syncCmd [CmdType.queryControl.code, 0, controlProfile, 0, format, 0] respSize noCb "profile query" s

/-- `virtio_video_cmd_get_params` -/
def cmdGetParams (s : Stream) (queueType : QueueType) : Exchange → Option Outcome :=
  syncCmd [CmdType.getParams.code, s.streamId, queueType.code, 0] getParamsRespSize getParamsCb "get_params" s

/-- The `switch` of `virtio_video_cmd_get_control`. -/
def getCtrlCb (control : UInt32) : Option RespCb :=
  if control = controlProfile then some getCtrlProfileCb
  else if control = controlLevel then some getCtrlLevelCb
  else if control = controlBitrate then some getCtrlBitrateCb
  else none

/-- `virtio_video_cmd_get_control` -/
def cmdGetControl (s : Stream) (control : UInt32) (x : Exchange) : Option Outcome :=
  match getCtrlCb control with
  | none => some { request := none, stream := s, result := .error .einval, log := none }
  | some cb => syncCmd [CmdType.getControl.code, s.streamId, control, 0] getControlRespSize cb "get_control" s x

/-- The synchronous commands. -/
inductive SyncCmd
  | queueDetachResources (queueType : QueueType)
  | queueClear (queueType : QueueType)
  | queryCapability (respSize : Nat) (queueType : QueueType)
  | queryControlLevel (respSize : Nat) (format : UInt32)
  | queryControlProfile (respSize : Nat) (format : UInt32)
  | getParams (queueType : QueueType)
  | getControl (control : UInt32)
  deriving DecidableEq, Repr

/-- The function that issues it. -/
def SyncCmd.run (s : Stream) : SyncCmd → Exchange → Option Outcome
  | .queueDetachResources queueType => cmdQueueDetachResources s queueType
  | .queueClear queueType => cmdQueueClear s queueType
  | .queryCapability respSize queueType => cmdQueryCapability respSize queueType s
  | .queryControlLevel respSize format => VirtioVideo.queryControlLevel respSize format s
  | .queryControlProfile respSize format => VirtioVideo.queryControlProfile respSize format s
  | .getParams queueType => cmdGetParams s queueType
  | .getControl control => cmdGetControl s control

/-! ## The reply to RESOURCE_QUEUE -/

/-- `vvd->type` -/
inductive DeviceType
  | encoder | decoder | camera
  deriving DecidableEq, Repr

/-- `enum vb2_buffer_state`, where a buffer is handed back -/
inductive BufState
  | done | error
  deriving DecidableEq, Repr

/-- `enum virtio_video_dequeue_flag` -/
inductive DequeueFlag
  | err | eos | keyFrame | pframe | bframe
  deriving DecidableEq, Repr

/-- The enumeration counts from 0; its values are used as masks. -/
def DequeueFlag.code : DequeueFlag → UInt32
  | .err => 0
  | .eos => 1
  | .keyFrame => 2
  | .pframe => 3
  | .bframe => 4

/-- `flags & VIRTIO_VIDEO_DEQUEUE_FLAG_..` -/
def DequeueFlag.isIn (f : DequeueFlag) (flags : UInt32) : Bool := flags &&& f.code ≠ 0

/-- `struct virtio_video_buffer`, with what is used of its `vb2_buffer`. -/
structure VideoBuffer where
  resourceId : UInt32
  queued : Bool
  /-- `V4L2_TYPE_IS_OUTPUT(vb2_queue->type)` -/
  isOutput : Bool
  flags : UInt32
  timestamp : UInt64
  numPlanes : Nat
  bytesused : Vector UInt32 maxPlanes
  deriving DecidableEq, Repr

/-- `struct virtio_video_device` -/
structure Device where
  type : DeviceType
  isM2mDev : Bool
  /-- the resource ids of the buffers on it -/
  pendingBufList : List UInt32
  deriving DecidableEq, Repr

/-- `virtio_video_pending_buf_list_del`, as called for a non-m2m device. -/
def Device.pendingBufListDel (vvd : Device) (vb : VideoBuffer) : Device :=
  { vvd with pendingBufList := vvd.pendingBufList.erase vb.resourceId }

/-- A buffer handed back. -/
structure Completion where
  vvd : Device
  stream : Stream
  buffer : VideoBuffer
  eosEvent : Bool
  /-- what `v4l2_m2m_buf_done` is called with -/
  state : BufState
  deriving DecidableEq, Repr

/-- `V4L2_BUF_FLAG_KEYFRAME` -/
def bufFlagKeyframe : UInt32 := 0x8
/-- `V4L2_BUF_FLAG_PFRAME` -/
def bufFlagPframe : UInt32 := 0x10
/-- `V4L2_BUF_FLAG_BFRAME` -/
def bufFlagBframe : UInt32 := 0x20
/-- `V4L2_BUF_FLAG_LAST` -/
def bufFlagLast : UInt32 := 0x100000

/-- The sizes `virtio_video_buf_done` gives the planes of a capture buffer. -/
def captureBytesused (vvd : Device) (stream : Stream) (vb : VideoBuffer) (dataSizes : Nat → UInt32) :
    Option (Vector UInt32 maxPlanes) :=
  match vvd.type with
  | .encoder => writePlanes dataSizes vb.numPlanes vb.bytesused
  | .camera | .decoder =>
    let pInfo := stream.outInfo
    writePlanes (fun i => (pInfo.planeFormat[i]?.map (·.planeSize)).getD 0) pInfo.numPlanes.toNat vb.bytesused

/-- `virtio_video_buf_done` -/
def bufDone (vvd : Device) (stream : Stream) (vb : VideoBuffer) (flags : UInt32) (timestamp : UInt64)
    (dataSizes : Nat → UInt32) : Option Completion := do
  let vb := { vb with queued := false }
  let state := if DequeueFlag.err.isIn flags then BufState.error else .done
  let set (vb : VideoBuffer) (f : DequeueFlag) (mask : UInt32) : VideoBuffer :=
    if f.isIn flags then { vb with flags := vb.flags ||| mask } else vb
  let vb := set vb .keyFrame bufFlagKeyframe
  let vb := set vb .bframe bufFlagBframe
  let vb := set vb .pframe bufFlagPframe
  let vb := set vb .eos bufFlagLast
  let eosEvent := DequeueFlag.eos.isIn flags
  let stream := if eosEvent then stream.stateUpdate .stopped else stream
  let vvd' := if vvd.isM2mDev then vvd else vvd.pendingBufListDel vb
  if DequeueFlag.err.isIn flags ∨ DequeueFlag.eos.isIn flags then
    return { vvd := vvd', stream, eosEvent, state, buffer := { vb with bytesused := vb.bytesused.set 0 0 } }
  else if vb.isOutput then return { vvd := vvd', stream, eosEvent, state, buffer := vb }
  else
    let bytesused ← captureBytesused vvd stream vb dataSizes
    return { vvd := vvd', stream, eosEvent, state, buffer := { vb with bytesused, timestamp } }

/-- `virtio_video_cmd_resource_queue_cb` on the buffer in `vbuf->priv`. -/
def resourceQueueCb (vvd : Device) (stream : Stream) (vb : VideoBuffer) (m : Mem) : Option Completion :=
  bufDone vvd stream vb (m.le32 8) (m.le64 16) fun i => m.le32 (24 + 4 * i)

end Agl.VirtioVideo
