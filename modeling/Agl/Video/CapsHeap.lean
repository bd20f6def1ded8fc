/-
The formats of a virtio video device (`virtio_video_parse_virtio_capabilities`
and `virtio_video_clean_capability`), from their allocation until they are
freed.

The parse of a reply is that of `Caps` with its arrays on a heap. A format
has an array of frames, and each frame an array of rates; the parser does not
look whether it got them. `kcalloc` of no entries allocates nothing.
-/
import Agl.Lib.Heap
import Agl.Video.Caps

namespace Agl.VirtioVideo.CapsHeap

open Heap HeapM

/-! ## Objects -/

/-- `struct video_format_frame`, its rates elsewhere -/
structure Frame where
  width : FormatRange
  height : FormatRange
  numRates : UInt32
  frameRates : Ptr
  deriving DecidableEq, Repr

/-- `struct video_format`, its frames elsewhere -/
structure Format where
  format : UInt32
  mask : UInt64
  planesLayout : UInt32
  numFrames : UInt32
  frames : Ptr
  deriving DecidableEq, Repr

/-- What is allocated. -/
inductive Object
  | format (f : Format)
  | frames (l : List Frame)
  | rates (l : List FormatRange)
  deriving DecidableEq, Repr

def Object.asFormat : Object → Option Format
  | .format f => some f
  | _ => none

def Object.asFrames : Object → Option (List Frame)
  | .frames l => some l
  | _ => none

def Object.asRates : Object → Option (List FormatRange)
  | .rates l => some l
  | _ => none

/-- What the parse of a format meets: its allocations, those of the rates by
the index of the frame. -/
structure FormatEnv where
  alloc : Bool
  frames : Bool
  rates : Nat → Bool

/-- A range, a frame and a format of zeros. -/
def noRange : FormatRange := ⟨0, 0, 0⟩
def noFrame : Frame := ⟨noRange, noRange, 0, none⟩
def noFormat : Format := ⟨0, 0, 0, 0, none⟩

/-- `kcalloc`: for no entries a pointer that can only be freed, to no effect. -/
def kcalloc (granted : Bool) (n : Nat) (v : Object) : HeapM Object Ptr :=
  if n = 0 then pure none else tryAlloc granted v

/-! ## Parsing -/

section

variable (m : Mem)

/-- `virtio_video_parse_virtio_frame_rate`, into the entry `idx` of an array -/
def parseVirtioFrameRate (frameRates : Ptr) (idx buf : Nat) : HeapM Object Nat := do
  let a ← deref frameRates
  let l ← lift (← load a).asRates
  store a (.rates (l.set idx (copyFmtRange m buf)))
  return formatRangeSize

/-- The loop of `virtio_video_parse_virtio_frame`, with `n` rates to go -/
def parseFrameRates (frameRates : Ptr) (buf : Nat) : Nat → Nat → Nat → HeapM Object Nat
  | 0, _, offset => return offset
  | n + 1, idx, offset => do
    let extraSize ← parseVirtioFrameRate m frameRates idx (buf + offset)
    if extraSize = 0 then
      freePtr frameRates
      return 0
    else parseFrameRates frameRates buf n (idx + 1) (offset + extraSize)

/-- `virtio_video_parse_virtio_frame`, into the entry `idx` of an array: the
size, 0 on failure. -/
def parseVirtioFrame (granted : Bool) (frames : Ptr) (idx buf : Nat) : HeapM Object Nat := do
  let a ← deref frames
  let numRates := m.le32 (buf + 32)
  let frameRates ← kcalloc granted numRates.toNat (.rates (List.replicate numRates.toNat noRange))
  let l ← lift (← load a).asFrames
  store a (.frames (l.set idx ⟨copyFmtRange m buf, copyFmtRange m (buf + 16), numRates, frameRates⟩))
  parseFrameRates m frameRates buf numRates.toNat 0 formatFrameSize

/-- The loop of `virtio_video_parse_virtio_fmt`, with `n` frames to go -/
def parseFrames (rates : Nat → Bool) (frames : Ptr) (buf : Nat) : Nat → Nat → Nat → HeapM Object Nat
  | 0, _, offset => return offset
  | n + 1, idx, offset => do
    let extraSize ← parseVirtioFrame m (rates idx) frames idx (buf + offset)
    if extraSize = 0 then
      freePtr frames
      return 0
    else parseFrames rates frames buf n (idx + 1) (offset + extraSize)

/-- `virtio_video_parse_virtio_fmt`: the size, 0 on failure. -/
def parseVirtioFmt (env : FormatEnv) (fmt : Addr) (buf : Nat) : HeapM Object Nat := do
  let numFrames := m.le32 (buf + 20)
  let frames ← kcalloc env.frames numFrames.toNat (.frames (List.replicate numFrames.toNat noFrame))
  store fmt (.format ⟨formatToV4l2 (m.le32 (buf + 8)), m.le64 buf, m.le32 (buf + 12), numFrames, frames⟩)
  parseFrames m env.rates frames buf numFrames.toNat 0 formatDescSize

end

/-! ## Freeing -/

/-- The loop of `virtio_video_free_frames`, with `n` frames to go -/
def freeFrameRates (frames : Ptr) : Nat → Nat → HeapM Object Unit
  | 0, _ => return ()
  | n + 1, idx => do
    let l ← lift (← load (← deref frames)).asFrames
    let frame ← lift l[idx]?
    -- `virtio_video_free_frame_rates`
    freePtr frame.frameRates
    freeFrameRates frames n (idx + 1)

/-- `virtio_video_free_frames` -/
def freeFrames (fmt : Format) : HeapM Object Unit := do
  freeFrameRates fmt.frames fmt.numFrames.toNat 0
  freePtr fmt.frames

/-- `virtio_video_free_fmt` -/
def freeFmt : List Addr → HeapM Object Unit
  | [] => return ()
  | fmt :: rest => do
    let f ← lift (← load fmt).asFormat
    freeFrames f
    free fmt
    freeFmt rest

/-- The lists in `struct virtio_video_device`. -/
structure Lists where
  inputFmtList : List Addr
  outputFmtList : List Addr
  deriving DecidableEq, Repr

inductive Queue
  | input | output
  deriving DecidableEq, Repr

def Lists.add (vvd : Lists) (fmt : Addr) : Queue → Lists
  | .input => { vvd with inputFmtList := fmt :: vvd.inputFmtList }
  | .output => { vvd with outputFmtList := fmt :: vvd.outputFmtList }

def Lists.empty : Lists := ⟨[], []⟩

/-- `virtio_video_free_fmts`, and the lists then -/
def freeFmts (vvd : Lists) : HeapM Object Lists := do
  freeFmt vvd.inputFmtList
  freeFmt vvd.outputFmtList
  return .empty

/-- `virtio_video_clean_capability` -/
def cleanCapability (vvd : Lists) : HeapM Object Lists := freeFmts vvd

/-! ## Both replies -/

/-- The loop of `virtio_video_parse_virtio_capability`, with `n` formats to
go; on failure both lists are freed. -/
def parseVirtioFmts (m : Mem) (env : Nat → FormatEnv) (q : Queue) :
    Nat → Nat → Nat → Lists → HeapM Object (Except Errno Unit × Lists)
  | 0, _, _, vvd => return (.ok (), vvd)
  | n + 1, idx, offset, vvd => do
    match ← tryAlloc (env idx).alloc (.format noFormat) with
    | none =>
      let vvd ← freeFmts vvd
      return (.error .enomem, vvd)
    | some fmt =>
      let fmtSize ← parseVirtioFmt m (env idx) fmt offset
      if fmtSize = 0 then
        free fmt
        let vvd ← freeFmts vvd
        return (.error .enoent, vvd)
      else parseVirtioFmts m env q n (idx + 1) (offset + fmtSize) (vvd.add fmt q)

/-- `virtio_video_parse_virtio_capability` -/
def parseVirtioCapability (m : Mem) (env : Nat → FormatEnv) (q : Queue) (vvd : Lists) :
    HeapM Object (Except Errno Unit × Lists) :=
  if m.le32 8 = 0 then return (.error .einval, vvd)
  else parseVirtioFmts m env q (m.le32 8).toNat 0 capabilityRespSize vvd

/-- A reply and the allocations its parse meets. -/
structure Reply where
  mem : Mem
  env : Nat → FormatEnv

/-- `virtio_video_parse_virtio_capabilities`; a camera has no input. -/
def parseVirtioCapabilities (input : Option Reply) (output : Reply) : HeapM Object (Except Errno Unit × Lists) := do
  let r ← match input with
    | none => pure (.ok (), Lists.empty)
    | some reply => parseVirtioCapability reply.mem reply.env .input .empty
  match r.1 with
  | .error e => return (.error e, r.2)
  | .ok () => parseVirtioCapability output.mem output.env .output r.2

/-- A device's formats from its initialisation to its end: after an error
`virtio_video_device_init` goes to `parse_cap_err`, which does not clean them. -/
def parseThenClean (input : Option Reply) (output : Reply) : HeapM Object (Except Errno Unit) := do
  let r ← parseVirtioCapabilities input output
  match r.1 with
  | .error e => return .error e
  | .ok () =>
    let _ ← cleanCapability r.2
    return .ok ()

end Agl.VirtioVideo.CapsHeap
