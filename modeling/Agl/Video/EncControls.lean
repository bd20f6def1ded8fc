/-
The controls of an encoder stream (`virtio_video_enc.c`): the menus that
`virtio_video_enc_init_ctrls` makes of the device's replies, and the
`SET_CONTROL` commands that `virtio_video_enc_s_ctrl` sends for what V4L2
lets through.

Of V4L2: a handler keeps its first error and takes no control after it;
`v4l2_ctrl_handler_setup` sends the value of every control that is not
read-only, in the order of their creation, up to the first failure, which
nobody looks at; `VIDIOC_S_CTRL` goes to the first control with the id, calls
`s_ctrl` for a value that is in range and new, and keeps it when that
succeeds. All integer controls of the driver have a step of 1.

A command counts as sent when the queue has taken it. The device's reply to
it is not looked at.
-/
import Agl.Lib.Machine
import Agl.Video.Controls
import Agl.Video.Wire

namespace Agl.VirtioVideo.EncControls

open Controls (Control)

/-! ## V4L2 -/

/-- `V4L2_CID_MIN_BUFFERS_FOR_OUTPUT` -/
def cidMinBuffers : UInt32 := 0x00980928
/-- `V4L2_CID_MPEG_VIDEO_BITRATE` -/
def cidBitrate : UInt32 := 0x009909cf
/-- `V4L2_CID_MPEG_VIDEO_H264_LEVEL` -/
def cidLevel : UInt32 := 0x00990a67
/-- `V4L2_CID_MPEG_VIDEO_H264_PROFILE` -/
def cidProfile : UInt32 := 0x00990a6b

/-- `V4L2_PIX_FMT_H264` -/
def pixFmtH264 : UInt32 := v4l2Fourcc 'H' '2' '6' '4'

inductive CtrlErr
  | einval | erange | eacces
  /-- from the driver -/
  | driver (e : Wire.Stop)
  deriving DecidableEq, Repr

/-- The values of a control; those of a menu start at 0. -/
inductive Range
  | integer (min max : Int)
  | menu (max skipMask : UInt32)
  deriving DecidableEq, Repr

/-- `struct v4l2_ctrl` -/
structure Ctrl where
  id : UInt32
  range : Range
  readOnly : Bool
  cur : Int
  deriving DecidableEq, Repr

/-- `struct v4l2_ctrl_handler` -/
structure Handler where
  ctrls : List Ctrl
  error : Option CtrlErr
  deriving DecidableEq, Repr

/-- `check_range`, for the default. -/
def checkRange : Range → Int → Except CtrlErr Unit
  | .integer min max, d => if min > max ∨ d < min ∨ d > max then .error .erange else .ok ()
  | .menu max skipMask, d =>
    if d < 0 ∨ d > max.toNat then .error .erange
    else if bit skipMask d.toNat then .error .einval
    else .ok ()

/-- `std_validate` -/
def Range.validate : Range → Int → Except CtrlErr Int
  | .integer min max, val => .ok (if val < min then min else if val > max then max else val)
  | .menu max skipMask, val =>
    if val < 0 ∨ val > max.toNat then .error .erange
    else if bit skipMask val.toNat then .error .einval
    else .ok val

/-- `v4l2_ctrl_new` -/
def v4l2CtrlNew (hdl : Handler) (id : UInt32) (range : Range) (readOnly : Bool) (d : Int) : Handler :=
  if hdl.error.isSome then hdl
  else
    match checkRange range d with
    | .error e => { hdl with error := some e }
    | .ok () => { hdl with ctrls := hdl.ctrls ++ [⟨id, range, readOnly, d⟩] }

/-- `v4l2_ctrl_new_std`; V4L2 makes the numbers of buffers read-only. -/
def v4l2CtrlNewStd (hdl : Handler) (id : UInt32) (min max d : Int) : Handler :=
  v4l2CtrlNew hdl id (.integer min max) (id = cidMinBuffers) d

/-- `v4l2_ctrl_new_std_menu`, whose maximum and default are of type `u8`. -/
def v4l2CtrlNewStdMenu (hdl : Handler) (id max skipMask d : UInt32) : Handler :=
  v4l2CtrlNew hdl id (.menu (max % 256) skipMask) false (d % 256).toNat

/-! ## The driver -/

/-- `control_table` -/
def controlTable : List ConvertEntry :=
  [⟨controlBitrate, cidBitrate⟩, ⟨controlProfile, cidProfile⟩, ⟨controlLevel, cidLevel⟩, ⟨0, 0⟩]

/-- `virtio_video_v4l2_control_to_virtio` -/
def v4l2ControlToVirtio : UInt32 → UInt32 := toVirtio controlTable

/-- `struct video_control_format` -/
structure ControlFormat where
  format : UInt32
  profile : Option ControlFmtData
  level : Option ControlFmtData
  deriving DecidableEq, Repr

/-- `MIN_BUFS_MIN`, `MIN_BUFS_MAX`, `MIN_BUFS_DEF` -/
def minBufsMin : Int := 0
def minBufsMax : Int := 32
def minBufsDef : Int := 1

/-- A menu, where the format has a record for it. -/
def newMenu (hdl : Handler) (id : UInt32) : Option ControlFmtData → Handler
  | some d => v4l2CtrlNewStdMenu hdl id d.max d.skipMask d.min
  | none => hdl

/-- A round of the loop over `controls_fmt_list`. -/
def addMenus (hdl : Handler) (cFmt : ControlFormat) : Handler :=
  if cFmt.format = pixFmtH264 then newMenu (newMenu hdl cidProfile cFmt.profile) cidLevel cFmt.level else hdl

/-- `virtio_video_enc_init_ctrls`, up to `v4l2_ctrl_handler_setup`. -/
def encInitCtrls (controlsFmtList : List ControlFormat) (bitrate : UInt32) : Handler :=
  let hdl := v4l2CtrlNewStd ⟨[], none⟩ cidMinBuffers minBufsMin minBufsMax minBufsDef
  let hdl := controlsFmtList.foldl addMenus hdl
  if bitrate ≠ 0 then v4l2CtrlNewStd hdl cidBitrate 1 0x7fffffff bitrate.toNat else hdl

/-- What a call of `s_ctrl` depends on. -/
structure Env where
  /-- `virtio_video_state(stream)` -/
  state : StreamState
  /-- there is memory for a vbuf -/
  granted : Bool
  /-- the result of `virtio_video_queue_cmd_buffer` -/
  queued : Except Errno Unit

/-- The commands that have been sent: the control and its value, the last one first. -/
abbrev Sent := List (UInt32 × UInt32)

/-- `virtio_video_cmd_set_control` -/
def setControl (env : Env) (streamId control value : UInt32) (sent : Sent) : Except Wire.Stop Unit × Sent :=
  match Wire.cmdSetControl env.granted streamId control value with
  | .error e => (.error e, sent)
  | .ok _ =>
    match env.queued with
    | .error e => (.error (.errno e), sent)
    | .ok () => (.ok (), (control, value) :: sent)

/-- `virtio_video_enc_s_ctrl` -/
def encSCtrl (env : Env) (streamId id : UInt32) (val : Int) (sent : Sent) : Except Wire.Stop Unit × Sent :=
  if env.state = .error then (.error (.errno .eio), sent)
  else
    let control := v4l2ControlToVirtio id
    let val := UInt32.ofInt val
    if id = cidBitrate then setControl env streamId control val sent
    else if id = cidLevel then setControl env streamId control (v4l2LevelToVirtio val) sent
    else if id = cidProfile then setControl env streamId control (v4l2ProfileToVirtio val) sent
    else (.error (.errno .einval), sent)

/-! ## A stream -/

/-- Whether `v4l2_ctrl_handler_setup` is still at the controls in `rest`. -/
inductive Pc
  | setup (rest : List Ctrl)
  | ready
  deriving DecidableEq, Repr

structure State where
  streamId : UInt32
  ctrls : List Ctrl
  pc : Pc
  sent : Sent
  deriving DecidableEq, Repr

/-- The next control of `v4l2_ctrl_handler_setup`. -/
def setupStep (s : State) (env : Env) : Option State :=
  match s.pc with
  | .ready => none
  | .setup [] => some { s with pc := .ready }
  | .setup (c :: rest) =>
    if c.readOnly then some { s with pc := .setup rest }
    else
      match encSCtrl env s.streamId c.id c.cur s.sent with
      | (.ok (), sent) => some { s with pc := .setup rest, sent }
      | (.error _, sent) => some { s with pc := .ready, sent }

/-- The first control with the id takes the value. -/
def setCur (id : UInt32) (val : Int) : List Ctrl → List Ctrl
  | [] => []
  | c :: cs => if c.id = id then { c with cur := val } :: cs else c :: setCur id val cs

/-- `VIDIOC_S_CTRL` -/
def sCtrl (s : State) (id : UInt32) (val : Int) (env : Env) : Except CtrlErr Unit × State :=
  match s.ctrls.find? (·.id = id) with
  | none => (.error .einval, s)
  | some c =>
    if c.readOnly then (.error .eacces, s)
    else
      match c.range.validate val with
      | .error e => (.error e, s)
      | .ok val =>
        if val = c.cur then (.ok (), s)
        else
          match encSCtrl env s.streamId id val s.sent with
          | (.error e, sent) => (.error (.driver e), { s with sent })
          | (.ok (), sent) => (.ok (), { s with ctrls := setCur id val s.ctrls, sent })

inductive Act
  | setup (env : Env)
  | sCtrl (id : UInt32) (val : Int) (env : Env)

def step (s : State) : Act → Option State
  | .setup env => setupStep s env
  | .sCtrl id val env => if s.pc = .ready then some (sCtrl s id val env).2 else none

/-! ## The device -/

/-- A coded format of the output queue, with the device's replies to its
`QUERY_CONTROL` commands. -/
structure CodedFormat where
  format : UInt32
  profileReply : Mem
  levelReply : Mem

def CodedFormat.reply (f : CodedFormat) : Control → Mem
  | .profile => f.profileReply
  | .level => f.levelReply

/-- The record that the parse of a reply leaves. -/
def recordOf (c : Control) (m : Mem) : Option ControlFmtData :=
  match (VirtioVideo.parseControl c.toV4l2 m (fun _ => true) 0).val with
  | some (.ok (), .data d) => some d
  | _ => none

/-- What `virtio_video_parse_virtio_control` makes of it. -/
def CodedFormat.parsed (f : CodedFormat) : ControlFormat :=
  ⟨f.format, recordOf .profile f.profileReply, recordOf .level f.levelReply⟩

def controlCode : Control → UInt32
  | .profile => controlProfile
  | .level => controlLevel

/-- The device reports the value for one of its H264 formats. -/
def Reports (device : List CodedFormat) (c : Control) (v : UInt32) : Prop :=
  ∃ f ∈ device, f.format = pixFmtH264 ∧ v ∈ reported (f.reply c)

/-- The streams of a device whose coded formats are these, in the order of
`controls_fmt_list`. -/
def machine (device : List CodedFormat) : Machine State Act where
  init s := ∃ streamId bitrate, (encInitCtrls (device.map CodedFormat.parsed) bitrate).error = none ∧
    s = ⟨streamId, (encInitCtrls (device.map CodedFormat.parsed) bitrate).ctrls,
      .setup (encInitCtrls (device.map CodedFormat.parsed) bitrate).ctrls, []⟩
  step := step

end Agl.VirtioVideo.EncControls
