/-
The parsers of the capability and control replies (`virtio_video_caps.c`).

A reply is a buffer the device has written. Reading a header, a format
descriptor, a frame, a rate or a level is recorded as one access to the
whole entry. Allocations may fail: the arrays of frames and rates are not
checked, so writing their first entry then faults. A failed allocation of
the response buffer of a control query is not modelled (its test,
`IS_ERR`, does not see it; there is no buffer then).
-/
import Agl.Lib.Access
import Agl.Video.Helpers

namespace Agl.VirtioVideo

/-- `struct virtio_video_format_range`, in the byte order of the CPU -/
structure FormatRange where
  min : UInt32
  max : UInt32
  step : UInt32
  deriving DecidableEq, Repr

/-- `struct video_format_frame` -/
structure FormatFrame where
  width : FormatRange
  height : FormatRange
  frameRates : List FormatRange
  deriving DecidableEq, Repr

/-- `struct video_format` -/
structure VideoFormat where
  format : UInt32
  mask : UInt64
  planesLayout : UInt32
  frames : List FormatFrame
  deriving DecidableEq, Repr

/-- `sizeof(struct virtio_video_query_capability_resp)` -/
def capabilityRespSize : Nat := 16
/-- `sizeof(struct virtio_video_format_desc)` -/
def formatDescSize : Nat := 24
/-- `sizeof(struct virtio_video_format_frame)` -/
def formatFrameSize : Nat := 40
/-- `sizeof(struct virtio_video_format_range)` -/
def formatRangeSize : Nat := 16

open Access

/-- `virtio_video_copy_fmt_range` -/
def copyFmtRange (m : Mem) (buf : Nat) : FormatRange := ⟨m.le32 buf, m.le32 (buf + 4), m.le32 (buf + 8)⟩

/-- `virtio_video_parse_virtio_frame_rate`; `ptr` says whether the array
of rates was allocated. -/
def parseVirtioFrameRate (m : Mem) (ptr : Bool) (buf : Nat) : Access (Nat × FormatRange) := do
  read buf formatRangeSize
  deref ptr
  return (formatRangeSize, copyFmtRange m buf)

/-- The loop of `virtio_video_parse_virtio_frame` and of
`virtio_video_parse_virtio_fmt` over `n` entries, each parsed at its offset
from `buf`; an entry of size 0 ends it with nothing. -/
def parseEntries {α : Type} (parse : Nat → Access (Nat × α)) (buf : Nat) : Nat → Nat → Access (Option (Nat × List α))
  | 0, offset => return some (offset, [])
  | n + 1, offset => do
    let (extraSize, entry) ← parse (buf + offset)
    if extraSize = 0 then return none
    else
      let rest ← parseEntries parse buf n (offset + extraSize)
      return rest.map fun r => (r.1, entry :: r.2)

/-- `virtio_video_parse_virtio_frame`: the size, 0 on failure. -/
def parseVirtioFrame (m : Mem) (ptr : Bool) (buf : Nat) : Access (Nat × FormatFrame) := do
  read buf formatFrameSize
  deref ptr
  let frame : FormatFrame := ⟨copyFmtRange m buf, copyFmtRange m (buf + 16), []⟩
  let frameRates ← alloc
  match ← parseEntries (parseVirtioFrameRate m frameRates) buf (m.le32 (buf + 32)).toNat formatFrameSize with
  | none => return (0, frame)
  | some (offset, rates) => return (offset, { frame with frameRates := rates })

/-- `virtio_video_parse_virtio_fmt`: the size, 0 on failure. -/
def parseVirtioFmt (m : Mem) (buf : Nat) : Access (Nat × VideoFormat) := do
  read buf formatDescSize
  let fmt : VideoFormat := ⟨formatToV4l2 (m.le32 (buf + 8)), m.le64 buf, m.le32 (buf + 12), []⟩
  let frames ← alloc
  match ← parseEntries (parseVirtioFrame m frames) buf (m.le32 (buf + 20)).toNat formatDescSize with
  | none => return (0, fmt)
  | some (offset, frames) => return (offset, { fmt with frames })

/-- The loop of `virtio_video_parse_virtio_capability`; each format is put
in front of the list. -/
def parseVirtioFmts (m : Mem) : Nat → Nat → List VideoFormat → Access (Except Errno (List VideoFormat))
  | 0, _, fmtList => return .ok fmtList
  | n + 1, offset, fmtList => do
    if ← alloc then
      let (fmtSize, fmt) ← parseVirtioFmt m offset
      if fmtSize = 0 then return .error .enoent
      else parseVirtioFmts m n (offset + fmtSize) (fmt :: fmtList)
    else return .error .enomem

/-- `virtio_video_parse_virtio_capability` on a reply: the list of formats
and their number. -/
def parseVirtioCapability (m : Mem) : Access (Except Errno (List VideoFormat × UInt32)) := do
  read 0 capabilityRespSize
  let fmtCount := m.le32 8
  if fmtCount = 0 then return .error .einval
  else
    let fmts ← parseVirtioFmts m fmtCount.toNat capabilityRespSize []
    return fmts.map fun l => (l, fmtCount)

/-- The formats in `struct virtio_video_device`. -/
structure FormatLists where
  inputFmtList : List VideoFormat
  numInputFmts : UInt32
  outputFmtList : List VideoFormat
  numOutputFmts : UInt32
  deriving DecidableEq, Repr

/-- `virtio_video_parse_virtio_capabilities`; a camera has no input. -/
def parseVirtioCapabilities (vvd : FormatLists) (inputBuf outputBuf : Option Mem) :
    Access (Except Errno FormatLists) := do
  let inputs ← match inputBuf with
    | none => pure (.ok (vvd.inputFmtList, vvd.numInputFmts))
    | some m => parseVirtioCapability m
  match inputs with
  | .error e => return .error e
  | .ok (inputFmtList, numInputFmts) =>
    let vvd := { vvd with inputFmtList, numInputFmts }
    let outputs ← match outputBuf with
      | none => pure (.ok (vvd.outputFmtList, vvd.numOutputFmts))
      | some m => parseVirtioCapability m
    return outputs.map fun r => { vvd with outputFmtList := r.1, numOutputFmts := r.2 }

/-- As `virtio_video_device_init` leaves the lists. -/
def FormatLists.empty : FormatLists := ⟨[], 0, [], 0⟩

/-! ## Controls -/

/-- `struct video_control_fmt_data` -/
structure ControlFmtData where
  min : UInt32
  max : UInt32
  num : UInt32
  skipMask : UInt32
  entries : List UInt32
  deriving DecidableEq, Repr

/-- `fmt->level` or `fmt->profile` after the parse. -/
inductive ControlPtr
  | null
  /-- freed and not cleared -/
  | dangling
  | data (d : ControlFmtData)
  deriving DecidableEq, Repr

/-- `sizeof(struct virtio_video_query_control_resp)` -/
def controlRespSize : Nat := 8
/-- `sizeof(struct virtio_video_query_control_resp_level)`, `_profile` alike -/
def controlRespNumSize : Nat := 8

/-- The values read so far, their bits, the largest and the smallest. -/
structure ControlAcc where
  entries : List UInt32
  mask : UInt32
  max : UInt32
  min : UInt32
  deriving DecidableEq, Repr

/-- The loop over the values. `min` starts as `UINT_MAX`: the comparisons
are unsigned. -/
def parseControlEntries (toV4l2 : UInt32 → UInt32) (m : Mem) : Nat → Nat → ControlAcc → Access ControlAcc
  | 0, _, acc => return acc
  | n + 1, pos, acc => do
    read pos 4
    let entry := toV4l2 (m.le32 pos)
    parseControlEntries toV4l2 m n (pos + 4)
      { entries := acc.entries ++ [entry]
        mask := acc.mask ||| (1 <<< entry)
        max := if entry > acc.max then entry else acc.max
        min := if entry < acc.min then entry else acc.min }

/-- `virtio_video_parse_control_levels` and `virtio_video_parse_control_profiles`
on a reply: what they return and leave in the format. -/
def parseControl (toV4l2 : UInt32 → UInt32) (m : Mem) : Access (Except Errno Unit × ControlPtr) := do
  read controlRespSize controlRespNumSize
  let num := m.le32 controlRespSize
  if num = 0 then return (.ok (), .null)
  else if ← alloc then
    if ← alloc then
      let acc ← parseControlEntries toV4l2 m num.toNat (controlRespSize + controlRespNumSize)
        { entries := [], mask := 0, max := 0, min := 0xffffffff }
      return (.ok (), .data { min := acc.min, max := acc.max, num, skipMask := ~~~acc.mask, entries := acc.entries })
    else return (.error .enomem, .dangling)
  else return (.error .enomem, .null)

/-- `virtio_video_parse_control_levels` -/
def parseControlLevels : Mem → Access (Except Errno Unit × ControlPtr) := parseControl levelToV4l2

/-- `virtio_video_parse_control_profiles` -/
def parseControlProfiles : Mem → Access (Except Errno Unit × ControlPtr) := parseControl profileToV4l2

end Agl.VirtioVideo
