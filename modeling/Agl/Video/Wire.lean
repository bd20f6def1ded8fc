/-
The requests of the virtio video driver as they lie in a vbuf: what each
`virtio_video_cmd_*` function of `virtio_video_vq.c` stores behind the
`struct virtio_video_vbuffer`, up to its call of
`virtio_video_queue_cmd_buffer`, and the messages of
`uapi/linux/virtio_video.h` that a device reads there.

The offsets are those of the structs on a little-endian 64-bit machine.
`get_vbuf` has cleared the vbuf. Storing past an array of a struct has no
defined outcome.
-/
import Agl.Lib.Stores
import Agl.Video.Params

namespace Agl.VirtioVideo.Wire

/-! ## The vbuf -/

/-- `MAX_INLINE_CMD_SIZE` -/
def maxInlineCmdSize : Nat := 298
/-- `MAX_INLINE_RESP_SIZE` -/
def maxInlineRespSize : Nat := 298

/-- What lies behind the `struct virtio_video_vbuffer` in an object of the cache. -/
def inlineSize : Nat := maxInlineCmdSize + maxInlineRespSize

/-- `struct virtio_video_vbuffer`, as it is handed to the queue. -/
structure Vbuf where
  size : Nat
  respSize : UInt32
  /-- `resp_buf` is `buf + size`, and not the caller's -/
  respInline : Bool
  /-- the stores through `buf` -/
  stores : List Store
  /-- `data_buf`, of `data_size` bytes -/
  data : List UInt8
  /-- the messages of `v4l2_err` -/
  log : List String
  deriving DecidableEq, Repr

/-- Why a command function does not get to the queue. -/
inductive Stop
  | errno (e : Errno)
  /-- a `BUG_ON` -/
  | bug
  /-- a store past an array -/
  | pastArray
  deriving DecidableEq, Repr

/-- `resp_size <= MAX_INLINE_RESP_SIZE`; `resp_size` is an `int`. -/
def fitsInline (respSize : UInt32) : Bool := respSize.toInt32.toInt ≤ maxInlineRespSize

/-- `virtio_video_get_vbuf`; `respBuf` says that the caller has a buffer. -/
def getVbuf (granted : Bool) (size : Nat) (respSize : UInt32) (respBuf : Bool) : Except Stop Vbuf :=
  if granted then
    if size > maxInlineCmdSize then .error .bug
    else
      let respInline := fitsInline respSize && !respBuf
      if !respInline && !respBuf then .error .bug
      else .ok { size, respSize, respInline, stores := [], data := [], log := [] }
  else .error (.errno .enomem)

/-- `virtio_video_alloc_req` -/
def allocReq (granted : Bool) (size : Nat) : Except Stop Vbuf := getVbuf granted size (UInt32.ofNat cmdHdrSize) false

/-- `virtio_video_alloc_req_resp` -/
def allocReqResp (granted : Bool) (reqSize : Nat) (respSize : UInt32) (respBuf : Bool) : Except Stop Vbuf :=
  getVbuf granted reqSize respSize respBuf

def Vbuf.put (v : Vbuf) (stores : List Store) : Vbuf := { v with stores := v.stores ++ stores }

/-- `req_p->field = cpu_to_le32(v)` -/
def put32 (off : Nat) (v : UInt32) : Store := ⟨off, le32Bytes v⟩

/-- `req_p->field = cpu_to_le64(v)` -/
def put64 (off : Nat) (v : UInt64) : Store := ⟨off, le64Bytes v⟩

/-- A loop over the elements of an array of `bound`, which stores `f i` for element `i`. -/
def putEach (bound n : Nat) (f : Nat → List Store) : Except Stop (List Store) :=
  if n ≤ bound then .ok ((List.range n).flatMap f) else .error .pastArray

/-! ## The command functions -/

/-- `strscpy`: what it stores, and whether all of the string fitted. -/
def strscpy (src : List UInt8) (count : Nat) : List UInt8 × Bool :=
  let s := src.takeWhile (· ≠ 0)
  if s.length < count then (s ++ [0], true) else (s.take (count - 1) ++ [0], false)

def cmdStreamCreateCode : UInt32 := 0x101
def cmdStreamDestroyCode : UInt32 := 0x102
def cmdStreamDrainCode : UInt32 := 0x103
def cmdResourceAttachCode : UInt32 := 0x104
def cmdSetControlCode : UInt32 := 0x10c

/-- `VIRTIO_VIDEO_MEM_TYPE_GUEST_PAGES` -/
def memTypeGuestPages : UInt32 := 0

/-- `sizeof(req_p->tag)` -/
abbrev tagSize : Nat := 64

section

variable (granted : Bool) (streamId : UInt32)

/-- `virtio_video_cmd_stream_create` -/
def cmdStreamCreate (format : UInt32) (tag : List UInt8) : Except Stop Vbuf := do
  let v ← allocReq granted 88
  let (copied, fits) := strscpy tag (tagSize - 1)
  let v := v.put [put32 0 cmdStreamCreateCode, put32 4 streamId, put32 8 memTypeGuestPages,
    put32 12 memTypeGuestPages, put32 16 format, ⟨24, copied⟩, ⟨24 + (tagSize - 1), [0]⟩]
  return { v with log := if fits then [] else ["failed to copy stream tag\n"] }

/-- `virtio_video_cmd_stream_destroy` -/
def cmdStreamDestroy : Except Stop Vbuf := do
  let v ← allocReq granted 8
  return v.put [put32 0 cmdStreamDestroyCode, put32 4 streamId]

/-- `virtio_video_cmd_stream_drain` -/
def cmdStreamDrain : Except Stop Vbuf := do
  let v ← allocReq granted 8
  return v.put [put32 0 cmdStreamDrainCode, put32 4 streamId]

/-- `virtio_video_cmd_resource_attach` -/
def cmdResourceAttach (resourceId : UInt32) (queueType : QueueType) (buf : List UInt8) : Except Stop Vbuf := do
  let v ← allocReq granted 16
  let v := v.put [put32 0 cmdResourceAttachCode, put32 4 streamId, put32 8 queueType.code, put32 12 resourceId]
  return { v with data := buf }

/-- `virtio_video_cmd_queue_detach_resources` -/
def cmdQueueDetachResources (queueType : QueueType) : Except Stop Vbuf := do
  let v ← allocReq granted 16
  return v.put [put32 0 CmdType.queueDetachResources.code, put32 4 streamId, put32 8 queueType.code]

/-- `sizeof(struct virtio_video_resource_queue_resp)` -/
def resourceQueueRespSize : UInt32 := 56

/-- `virtio_video_cmd_resource_queue`; the clearing of the reply's bytes adds nothing. -/
def cmdResourceQueue (resourceId : UInt32) (timestamp : UInt64) (dataSize : List UInt32) (queueType : QueueType) :
    Except Stop Vbuf := do
  let v ← allocReqResp granted 64 resourceQueueRespSize false
  let sizes ← putEach maxPlanes dataSize.length fun i => [put32 (32 + 4 * i) (dataSize.getD i 0)]
  return v.put ([put32 0 CmdType.resourceQueue.code, put32 4 streamId, put32 8 queueType.code, put32 12 resourceId,
    put32 16 0, put64 24 timestamp] ++ sizes)

/-- `virtio_video_cmd_queue_clear` -/
def cmdQueueClear (queueType : QueueType) : Except Stop Vbuf := do
  let v ← allocReq granted 16
  return v.put [put32 0 CmdType.queueClear.code, put32 4 streamId, put32 8 queueType.code]

/-- `virtio_video_cmd_query_capability` -/
def cmdQueryCapability (respSize : UInt32) (respBuf : Bool) (queueType : QueueType) : Except Stop Vbuf := do
  let v ← allocReqResp granted 16 respSize respBuf
  return v.put [put32 0 CmdType.queryCapability.code, put32 8 queueType.code]

/-- `virtio_video_query_control_level` -/
def queryControlLevel (respSize : UInt32) (respBuf : Bool) (format : UInt32) : Except Stop Vbuf := do
  let reqSize := 16 + 8
  let v ← allocReqResp granted reqSize respSize respBuf
  return v.put [put32 0 CmdType.queryControl.code, put32 8 controlLevel, put32 16 format]

/-- `virtio_video_query_control_profile` -/
def queryControlProfile (respSize : UInt32) (respBuf : Bool) (format : UInt32) : Except Stop Vbuf := do
  let reqSize := 16 + 8
  let v ← allocReqResp granted reqSize respSize respBuf
  return v.put [put32 0 CmdType.queryControl.code, put32 8 controlProfile, put32 16 format]

/-- `virtio_video_cmd_get_params` -/
def cmdGetParams (queueType : QueueType) : Except Stop Vbuf := do
  let v ← allocReqResp granted 16 (UInt32.ofNat getParamsRespSize) false
  return v.put [put32 0 CmdType.getParams.code, put32 4 streamId, put32 8 queueType.code]

/-- `virtio_video_cmd_set_params`; the crop rectangle is not stored. -/
def cmdSetParams (info : FormatInfo) (queueType : QueueType) : Except Stop Vbuf := do
  let v ← allocReq granted 120
  let planes ← putEach maxPlanes info.numPlanes.toNat fun i =>
    let plane := planeAt ⟨0, 0⟩ info.planeFormat i
    [put32 (56 + 8 * i) plane.planeSize, put32 (56 + 8 * i + 4) plane.stride]
  return v.put ([put32 0 cmdSetParamsCode, put32 4 streamId, put32 8 queueType.code, put32 48 info.frameRate,
    put32 16 info.frameWidth, put32 20 info.frameHeight, put32 12 (v4l2FormatToVirtio info.fourccFormat),
    put32 24 info.minBuffers, put32 28 info.maxBuffers, put32 52 info.numPlanes] ++ planes)

/-- The `switch` of both functions that follow. -/
def isControl (control : UInt32) : Bool :=
  control = controlProfile ∨ control = controlLevel ∨ control = controlBitrate

/-- `virtio_video_cmd_get_control` -/
def cmdGetControl (control : UInt32) : Except Stop Vbuf :=
  if isControl control then do
    let v ← allocReqResp granted 16 (UInt32.ofNat getControlRespSize) false
    return v.put [put32 0 CmdType.getControl.code, put32 4 streamId, put32 8 control]
  else .error (.errno .einval)

/-- `virtio_video_cmd_set_control`; the three values have one layout. -/
def cmdSetControl (control value : UInt32) : Except Stop Vbuf :=
  if value = 0 then .error (.errno .einval)
  else if isControl control then do
    let size := 8
    let v ← allocReq granted (size + 16)
    return v.put [put32 0 cmdSetControlCode, put32 4 streamId, put32 8 control, put32 16 value]
  else .error (.errno .einval)

end

/-- A call of a command function. -/
inductive Request
  | streamCreate (streamId format : UInt32) (tag : List UInt8)
  | streamDestroy (streamId : UInt32)
  | streamDrain (streamId : UInt32)
  | resourceAttach (streamId resourceId : UInt32) (queueType : QueueType) (buf : List UInt8)
  | resourceQueue (streamId resourceId : UInt32) (timestamp : UInt64) (dataSize : List UInt32) (queueType : QueueType)
  | queueDetachResources (streamId : UInt32) (queueType : QueueType)
  | queueClear (streamId : UInt32) (queueType : QueueType)
  | queryCapability (respSize : UInt32) (respBuf : Bool) (queueType : QueueType)
  | queryControlLevel (respSize : UInt32) (respBuf : Bool) (format : UInt32)
  | queryControlProfile (respSize : UInt32) (respBuf : Bool) (format : UInt32)
  | getParams (streamId : UInt32) (queueType : QueueType)
  | setParams (streamId : UInt32) (info : FormatInfo) (queueType : QueueType)
  | getControl (streamId control : UInt32)
  | setControl (streamId control value : UInt32)
  deriving DecidableEq, Repr

def Request.build (granted : Bool) : Request → Except Stop Vbuf
  | .streamCreate streamId format tag => cmdStreamCreate granted streamId format tag
  | .streamDestroy streamId => cmdStreamDestroy granted streamId
  | .streamDrain streamId => cmdStreamDrain granted streamId
  | .resourceAttach streamId resourceId queueType buf => cmdResourceAttach granted streamId resourceId queueType buf
  | .resourceQueue streamId resourceId timestamp dataSize queueType =>
    cmdResourceQueue granted streamId resourceId timestamp dataSize queueType
  | .queueDetachResources streamId queueType => cmdQueueDetachResources granted streamId queueType
  | .queueClear streamId queueType => cmdQueueClear granted streamId queueType
  | .queryCapability respSize respBuf queueType => cmdQueryCapability granted respSize respBuf queueType
  | .queryControlLevel respSize respBuf format => Wire.queryControlLevel granted respSize respBuf format
  | .queryControlProfile respSize respBuf format => Wire.queryControlProfile granted respSize respBuf format
  | .getParams streamId queueType => cmdGetParams granted streamId queueType
  | .setParams streamId info queueType => cmdSetParams granted streamId info queueType
  | .getControl streamId control => cmdGetControl granted streamId control
  | .setControl streamId control value => cmdSetControl granted streamId control value

/-- The vbuf's bytes from `buf` on. -/
def Vbuf.mem (v : Vbuf) : Mem := Mem.stores (fun _ => 0) v.stores

/-- What the device is given to read: `vreq`, and behind it `vout`. -/
def Vbuf.bytes (v : Vbuf) : List UInt8 := (List.range v.size).map v.mem

/-! ## The messages -/

/-- `enum virtio_video_control_type` -/
inductive ControlType
  | bitrate | profile | level
  deriving DecidableEq, Repr

def ControlType.code : ControlType → UInt32
  | .bitrate => controlBitrate
  | .profile => controlProfile
  | .level => controlLevel

/-- `struct virtio_video_params` -/
structure VideoParams where
  queueType : QueueType
  format : UInt32
  frameWidth : UInt32
  frameHeight : UInt32
  minBuffers : UInt32
  maxBuffers : UInt32
  crop : Crop
  frameRate : UInt32
  numPlanes : UInt32
  planeFormats : Vector PlaneFormat maxPlanes
  deriving DecidableEq, Repr

/-- The requests of the header, field by field. -/
inductive Message
  | streamCreate (streamId inMemType outMemType codedFormat : UInt32) (tag : Vector UInt8 tagSize)
  | streamDestroy (streamId : UInt32)
  | streamDrain (streamId : UInt32)
  | resourceAttach (streamId : UInt32) (queueType : QueueType) (resourceId : UInt32)
  | resourceQueue (streamId : UInt32) (queueType : QueueType) (resourceId flags : UInt32) (timestamp : UInt64)
      (dataSizes : Vector UInt32 maxPlanes)
  | queueDetachResources (streamId : UInt32) (queueType : QueueType)
  | queueClear (streamId : UInt32) (queueType : QueueType)
  | queryCapability (streamId : UInt32) (queueType : QueueType)
  | queryLevel (streamId format : UInt32)
  | queryProfile (streamId format : UInt32)
  | getParams (streamId : UInt32) (queueType : QueueType)
  | setParams (streamId : UInt32) (params : VideoParams)
  | getControl (streamId : UInt32) (control : ControlType)
  | setControl (streamId : UInt32) (control : ControlType) (value : UInt32)
  deriving DecidableEq, Repr

def words (ws : List UInt32) : List UInt8 := ws.flatMap le32Bytes

/-- The planes as words, two for each. -/
def planeWords (planes : Vector PlaneFormat maxPlanes) : List UInt32 :=
  planes.toList.flatMap fun p => [p.planeSize, p.stride]

/-- The struct, with its padding. -/
def Message.encode : Message → List UInt8
  | .streamCreate streamId inMemType outMemType codedFormat tag =>
    words [cmdStreamCreateCode, streamId, inMemType, outMemType, codedFormat, 0] ++ tag.toList
  | .streamDestroy streamId => words [cmdStreamDestroyCode, streamId]
  | .streamDrain streamId => words [cmdStreamDrainCode, streamId]
  | .resourceAttach streamId queueType resourceId =>
    words [cmdResourceAttachCode, streamId, queueType.code, resourceId]
  | .resourceQueue streamId queueType resourceId flags timestamp dataSizes =>
    words [CmdType.resourceQueue.code, streamId, queueType.code, resourceId, flags, 0] ++
      (le64Bytes timestamp ++ words dataSizes.toList)
  | .queueDetachResources streamId queueType => words [CmdType.queueDetachResources.code, streamId, queueType.code, 0]
  | .queueClear streamId queueType => words [CmdType.queueClear.code, streamId, queueType.code, 0]
  | .queryCapability streamId queueType => words [CmdType.queryCapability.code, streamId, queueType.code, 0]
  | .queryLevel streamId format => words [CmdType.queryControl.code, streamId, controlLevel, 0, format, 0]
  | .queryProfile streamId format => words [CmdType.queryControl.code, streamId, controlProfile, 0, format, 0]
  | .getParams streamId queueType => words [CmdType.getParams.code, streamId, queueType.code, 0]
  | .setParams streamId p =>
    words ([cmdSetParamsCode, streamId, p.queueType.code, p.format, p.frameWidth, p.frameHeight, p.minBuffers,
      p.maxBuffers, p.crop.left, p.crop.top, p.crop.width, p.crop.height, p.frameRate, p.numPlanes] ++
      planeWords p.planeFormats)
  | .getControl streamId control => words [CmdType.getControl.code, streamId, control.code, 0]
  | .setControl streamId control value => words [cmdSetControlCode, streamId, control.code, 0, value, 0]

/-- `sizeof` of the struct -/
def Message.size : Message → Nat
  | .streamCreate .. => 88
  | .streamDestroy _ | .streamDrain _ => 8
  | .resourceQueue .. => 64
  | .setParams .. => 120
  | .queryLevel .. | .queryProfile .. | .setControl .. => 24
  | _ => 16

/-! ## The device -/

def QueueType.ofCode (c : UInt32) : Option QueueType :=
  if c = QueueType.input.code then some .input else if c = QueueType.output.code then some .output else none

def ControlType.ofCode (c : UInt32) : Option ControlType :=
  if c = controlBitrate then some .bitrate
  else if c = controlProfile then some .profile
  else if c = controlLevel then some .level
  else none

/-- The array of planes at `off`. -/
def planesAt (m : Mem) (off : Nat) : Vector PlaneFormat maxPlanes :=
  .ofFn fun i => ⟨m.le32 (off + 8 * i), m.le32 (off + 8 * i + 4)⟩

def paramsAt (m : Mem) : Option VideoParams := do
  let queueType ← QueueType.ofCode (m.le32 8)
  return {
    queueType
    format := m.le32 12
    frameWidth := m.le32 16
    frameHeight := m.le32 20
    minBuffers := m.le32 24
    maxBuffers := m.le32 28
    crop := { left := m.le32 32, top := m.le32 36, width := m.le32 40, height := m.le32 44 }
    frameRate := m.le32 48
    numPlanes := m.le32 52
    planeFormats := planesAt m 56 }

/-- The query a `struct virtio_video_query_control` asks. -/
def queryAt (m : Mem) : Option Message := do
  match ← ControlType.ofCode (m.le32 8) with
  | .level => return .queryLevel (m.le32 4) (m.le32 16)
  | .profile => return .queryProfile (m.le32 4) (m.le32 16)
  | .bitrate => none

/-- The struct of a type, from `size` bytes; both say which. -/
def readAs (m : Mem) (size : Nat) (type : UInt32) : Option Message :=
  if type = cmdStreamCreateCode ∧ size = 88 then
    some (.streamCreate (m.le32 4) (m.le32 8) (m.le32 12) (m.le32 16) (.ofFn fun i => m (24 + i)))
  else if type = cmdStreamDestroyCode ∧ size = 8 then some (.streamDestroy (m.le32 4))
  else if type = cmdStreamDrainCode ∧ size = 8 then some (.streamDrain (m.le32 4))
  else if type = cmdResourceAttachCode ∧ size = 16 then
    (QueueType.ofCode (m.le32 8)).map fun q => .resourceAttach (m.le32 4) q (m.le32 12)
  else if type = CmdType.resourceQueue.code ∧ size = 64 then
    (QueueType.ofCode (m.le32 8)).map fun q =>
      .resourceQueue (m.le32 4) q (m.le32 12) (m.le32 16) (m.le64 24) (.ofFn fun i => m.le32 (32 + 4 * i))
  else if type = CmdType.queueDetachResources.code ∧ size = 16 then
    (QueueType.ofCode (m.le32 8)).map fun q => .queueDetachResources (m.le32 4) q
  else if type = CmdType.queueClear.code ∧ size = 16 then
    (QueueType.ofCode (m.le32 8)).map fun q => .queueClear (m.le32 4) q
  else if type = CmdType.queryCapability.code ∧ size = 16 then
    (QueueType.ofCode (m.le32 8)).map fun q => .queryCapability (m.le32 4) q
  else if type = CmdType.queryControl.code ∧ size = 24 then queryAt m
  else if type = CmdType.getParams.code ∧ size = 16 then
    (QueueType.ofCode (m.le32 8)).map fun q => .getParams (m.le32 4) q
  else if type = cmdSetParamsCode ∧ size = 120 then (paramsAt m).map fun p => .setParams (m.le32 4) p
  else if type = CmdType.getControl.code ∧ size = 16 then
    (ControlType.ofCode (m.le32 8)).map fun c => .getControl (m.le32 4) c
  else if type = cmdSetControlCode ∧ size = 24 then
    (ControlType.ofCode (m.le32 8)).map fun c => .setControl (m.le32 4) c (m.le32 16)
  else none

def decode (bytes : List UInt8) : Option Message :=
  let m := Mem.ofList bytes fun _ => 0
  readAs m bytes.length (m.le32 0)

/-! ## What is asked for -/

/-- The tag as it is sent: 62 characters of the string at most, and zeros. -/
def sentTag (tag : List UInt8) : Vector UInt8 tagSize :=
  .ofFn fun i => ((tag.takeWhile (· ≠ 0)).take (tagSize - 2)).getD i 0

/-- The planes below `num_planes`, and zeros. -/
def sentPlanes (info : FormatInfo) : Vector PlaneFormat maxPlanes :=
  .ofFn fun i => if i < info.numPlanes.toNat then info.planeFormat[i] else ⟨0, 0⟩

/-- The message that a call is about, if it is about one. -/
def Request.message : Request → Option Message
  | .streamCreate streamId format tag =>
    some (.streamCreate streamId memTypeGuestPages memTypeGuestPages format (sentTag tag))
  | .streamDestroy streamId => some (.streamDestroy streamId)
  | .streamDrain streamId => some (.streamDrain streamId)
  | .resourceAttach streamId resourceId queueType _ => some (.resourceAttach streamId queueType resourceId)
  | .resourceQueue streamId resourceId timestamp dataSize queueType =>
    some (.resourceQueue streamId queueType resourceId 0 timestamp (.ofFn fun i => dataSize.getD i 0))
  | .queueDetachResources streamId queueType => some (.queueDetachResources streamId queueType)
  | .queueClear streamId queueType => some (.queueClear streamId queueType)
  | .queryCapability _ _ queueType => some (.queryCapability 0 queueType)
  | .queryControlLevel _ _ format => some (.queryLevel 0 format)
  | .queryControlProfile _ _ format => some (.queryProfile 0 format)
  | .getParams streamId queueType => some (.getParams streamId queueType)
  | .setParams streamId info queueType => some (.setParams streamId {
      queueType
      format := v4l2FormatToVirtio info.fourccFormat
      frameWidth := info.frameWidth
      frameHeight := info.frameHeight
      minBuffers := info.minBuffers
      maxBuffers := info.maxBuffers
      crop := ⟨0, 0, 0, 0⟩
      frameRate := info.frameRate
      numPlanes := info.numPlanes
      planeFormats := sentPlanes info })
  | .getControl streamId control => (ControlType.ofCode control).map fun c => .getControl streamId c
  | .setControl streamId control value =>
    if value = 0 then none else (ControlType.ofCode control).map fun c => .setControl streamId c value

/-- The buffer for the reply that the caller of a query brings, and its length. -/
def Request.replyBuf : Request → Option (UInt32 × Bool)
  | .queryCapability respSize respBuf _ | .queryControlLevel respSize respBuf _
  | .queryControlProfile respSize respBuf _ => some (respSize, respBuf)
  | _ => none

/-- A query without a buffer, whose reply is too long for the vbuf. -/
def Request.NoRoom (c : Request) : Prop :=
  ∃ n, c.replyBuf = some (n, false) ∧ maxInlineRespSize < n.toNat ∧ n.toNat < 0x80000000

/-- A query without a buffer, whose reply's length is negative as an `int`. -/
def Request.Negative (c : Request) : Prop := ∃ n, c.replyBuf = some (n, false) ∧ 0x80000000 ≤ n.toNat

/-- More planes than the struct has. -/
def Request.TooManyPlanes : Request → Prop
  | .resourceQueue _ _ _ dataSize _ => maxPlanes < dataSize.length
  | .setParams _ info _ => maxPlanes < info.numPlanes.toNat
  | _ => False

/-- The stores stay in the request, and the rest of the vbuf stays clear. -/
structure Vbuf.Contained (v : Vbuf) : Prop where
  size : v.size ≤ maxInlineCmdSize
  stores : ∀ st ∈ v.stores, st.stop ≤ v.size
  clear : ∀ i, v.size ≤ i → v.mem i = 0

/-- The reply has its place, in the vbuf or in the buffer of the caller. -/
def Vbuf.ReplyFits (v : Vbuf) : Prop := v.respInline = true → v.size + v.respSize.toNat ≤ inlineSize

/-- What becomes of a call. -/
structure OnWire (c : Request) (granted : Bool) : Prop where
  sent : ∀ v, c.build granted = .ok v → ∃ msg, c.message = some msg ∧ v.bytes = msg.encode ∧
    decode v.bytes = some msg ∧ v.Contained ∧ (v.ReplyFits ↔ ¬c.Negative)
  errno : ∀ e, c.build granted = .error (.errno e) ↔
    c.message = none ∧ e = .einval ∨ c.message ≠ none ∧ granted = false ∧ e = .enomem
  bug : c.build granted = .error .bug ↔ granted = true ∧ c.NoRoom
  pastArray : c.build granted = .error .pastArray ↔ granted = true ∧ c.TooManyPlanes

end Agl.VirtioVideo.Wire
