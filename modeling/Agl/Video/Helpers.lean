/-
The conversion tables between the values of the virtio video protocol and
those of V4L2 (`virtio_video_helpers.c`). Each table ends with an all-zero
entry, which the lookups take part in.
-/
import Mathlib.Logic.Basic

namespace Agl.VirtioVideo

/-- The error numbers the driver returns. -/
inductive Errno
  | einval | enomem | enoent | enodev | eio | etimedout
  deriving DecidableEq, Repr

/-- `enum v4l2_buf_type`, as far as the driver tells the types apart; the
others that reach it are capture types. -/
inductive BufType
  | captureMplane | outputMplane | other
  deriving DecidableEq, Repr

/-- `V4L2_TYPE_IS_OUTPUT` -/
def BufType.isOutput : BufType → Bool
  | .outputMplane => true
  | .captureMplane | .other => false

/-- `struct virtio_video_convert_table` -/
structure ConvertEntry where
  virtioValue : UInt32
  v4l2Value : UInt32
  deriving DecidableEq, Repr

/-- The first entry with this virtio value decides; 0 if there is none. -/
def toV4l2 (table : List ConvertEntry) (value : UInt32) : UInt32 :=
  match table.find? fun e => e.virtioValue = value with
  | some e => e.v4l2Value
  | none => 0

/-- The first entry with this V4L2 value decides; 0 if there is none. -/
def toVirtio (table : List ConvertEntry) (value : UInt32) : UInt32 :=
  match table.find? fun e => e.v4l2Value = value with
  | some e => e.virtioValue
  | none => 0

/-- `v4l2_fourcc` -/
def v4l2Fourcc (a b c d : Char) : UInt32 := a.val ||| (b.val <<< 8) ||| (c.val <<< 16) ||| (d.val <<< 24)

/-- `level_table`: `VIRTIO_VIDEO_LEVEL_H264_1_0` to `_5_1`; V4L2 has a level
1b between 1.0 and 1.1. -/
def levelTable : List ConvertEntry :=
  [⟨0x100, 0⟩, ⟨0x101, 2⟩, ⟨0x102, 3⟩, ⟨0x103, 4⟩, ⟨0x104, 5⟩, ⟨0x105, 6⟩, ⟨0x106, 7⟩, ⟨0x107, 8⟩, ⟨0x108, 9⟩,
    ⟨0x109, 10⟩, ⟨0x10a, 11⟩, ⟨0x10b, 12⟩, ⟨0x10c, 13⟩, ⟨0x10d, 14⟩, ⟨0x10e, 15⟩, ⟨0, 0⟩]

/-- `profile_table`: `VIRTIO_VIDEO_PROFILE_H264_BASELINE` to `_MULTIVIEWHIGH`. -/
def profileTable : List ConvertEntry :=
  [⟨0x100, 0⟩, ⟨0x101, 2⟩, ⟨0x102, 3⟩, ⟨0x103, 4⟩, ⟨0x104, 5⟩, ⟨0x105, 6⟩, ⟨0x106, 7⟩, ⟨0x107, 12⟩, ⟨0x108, 13⟩,
    ⟨0x109, 15⟩, ⟨0x10a, 16⟩, ⟨0, 0⟩]

/-- `format_table`: `VIRTIO_VIDEO_FORMAT_ARGB8888` to `_YUV422`, then
`VIRTIO_VIDEO_FORMAT_MPEG2` to `_VP9`. -/
def formatTable : List ConvertEntry :=
  [⟨1, v4l2Fourcc 'B' 'A' '2' '4'⟩, ⟨2, v4l2Fourcc 'A' 'R' '2' '4'⟩, ⟨3, v4l2Fourcc 'R' 'G' 'B' '4'⟩,
    ⟨4, v4l2Fourcc 'N' 'V' '1' '2'⟩, ⟨5, v4l2Fourcc 'Y' 'U' '1' '2'⟩, ⟨6, v4l2Fourcc 'Y' 'V' '1' '2'⟩,
    ⟨7, v4l2Fourcc 'Y' 'U' 'Y' 'V'⟩, ⟨0x1000, v4l2Fourcc 'M' 'P' 'G' '2'⟩, ⟨0x1001, v4l2Fourcc 'M' 'P' 'G' '4'⟩,
    ⟨0x1002, v4l2Fourcc 'H' '2' '6' '4'⟩, ⟨0x1003, v4l2Fourcc 'H' 'E' 'V' 'C'⟩, ⟨0x1004, v4l2Fourcc 'V' 'P' '8' '0'⟩,
    ⟨0x1005, v4l2Fourcc 'V' 'P' '9' '0'⟩, ⟨0, 0⟩]

/-- `virtio_video_level_to_v4l2` -/
def levelToV4l2 : UInt32 → UInt32 := toV4l2 levelTable

/-- `virtio_video_profile_to_v4l2` -/
def profileToV4l2 : UInt32 → UInt32 := toV4l2 profileTable

/-- `virtio_video_format_to_v4l2` -/
def formatToV4l2 : UInt32 → UInt32 := toV4l2 formatTable

/-- `virtio_video_v4l2_level_to_virtio` -/
def v4l2LevelToVirtio : UInt32 → UInt32 := toVirtio levelTable

/-- `virtio_video_v4l2_profile_to_virtio` -/
def v4l2ProfileToVirtio : UInt32 → UInt32 := toVirtio profileTable

/-- `virtio_video_v4l2_format_to_virtio` -/
def v4l2FormatToVirtio : UInt32 → UInt32 := toVirtio formatTable

end Agl.VirtioVideo
