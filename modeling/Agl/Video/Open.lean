/-
`virtio_video_device_open` and `virtio_video_device_release` step by step,
and the events of the device (`virtio_video_handle_event`).

Any number of opens and releases are in progress at once. An open holds
`vd->lock` only where it tests or clears `device_busy` and around
`v4l2_m2m_ctx_release`; a release holds it from its first step to its last,
and so does the event worker. Streams are known by their address; the id is
what `idr_alloc` gave, or its error number as a 32-bit id. The device is
known by the commands sent.

`STREAM_DESTROY` is taken to be accepted by the command queue. Left out:
`virtio_video_state_reset`, and the buffers that a release frees.
-/
import Agl.Lib.Fresh
import Agl.Lib.Machine
import Agl.Lib.Table
import Agl.Video.Resource

namespace Agl.VirtioVideo.Open

open Resource (Cmd)

/-- The address of a `struct virtio_video_stream`. -/
abbrev Addr := Nat

/-- What the open or the release of a stream is about to do. -/
inductive Pc
  /-- `virtio_video_stream_id_get` -/
  | idGet
  /-- `virtio_video_cmd_stream_create` -/
  | create
  | setVideoDev | setStreamId
  /-- `virtio_video_stream_get_params` -/
  | getParams
  /-- `virtio_video_stream_get_controls` -/
  | getControls
  /-- `v4l2_fh_init` -/
  | fhInit
  /-- `v4l2_m2m_ctx_init` and `init_queues` -/
  | ctxInit
  /-- `v4l2_fh_add` -/
  | fhAdd
  | initCtrls
  /-- the open has returned -/
  | opened
  /-- label `err_init_ctrls` -/
  | fhDel
  /-- `v4l2_m2m_ctx_release` under `vd->lock` -/
  | ctxRelease
  /-- label `err_init_ctx` -/
  | fhExit
  /-- label `err_stream_create` -/
  | idPut
  | free
  /-- in `virtio_video_device_release` -/
  | relFhDel | relCtx | relFhExit | relDestroy | relIdPut | relFree
  deriving DecidableEq, Repr

structure VStream where
  pc : Pc
  /-- the local `stream_id` -/
  streamId : Nat
  /-- `stream->video_dev` is set -/
  videoDev : Bool
  /-- `stream->stream_id` is set -/
  idSet : Bool
  /-- `stream->fh` is initialised -/
  fh : Bool
  m2mCtx : Bool
  deriving DecidableEq, Repr

/-- Who holds `vd->lock` for more than a step. -/
inductive Holder
  | worker
  | release (stream : Addr)
  deriving DecidableEq, Repr

structure State where
  isM2mDev : Bool
  deviceBusy : Bool
  /-- `vd->lock` -/
  lock : Option Holder
  streams : Table Addr VStream
  streamIdr : Table Nat Addr
  /-- opens past `virtio_video_set_device_busy`, with no stream yet -/
  entered : Nat
  /-- failed opens at label `err` -/
  clearing : Nat
  /-- the stream that `virtio_video_handle_event` is using -/
  worker : Option Addr
  /-- the commands in the queue so far, the last one first -/
  sent : List Cmd

def State.set (s : State) (stream : Addr) (st : VStream) : State :=
  { s with streams := s.streams.insert stream st }

/-- `INT_MAX` -/
def intMax : Nat := 2147483647

/-- `MAX_ERRNO` -/
def maxErrno : Nat := 4095

/-- A negative error number, stored in a `uint32_t`. -/
def errId (errno : Nat) : Nat := 4294967296 - errno

/-! ## Open -/

/-- `virtio_video_set_device_busy`; a device in use is left as it is. -/
def deviceOpen (s : State) : Option State :=
  if s.isM2mDev then some { s with entered := s.entered + 1 }
  else if s.lock ≠ none then none
  else if s.deviceBusy then some s
  else some { s with deviceBusy := true, entered := s.entered + 1 }

/-- No format, or no memory. -/
def openFails (s : State) : Option State :=
  if s.entered = 0 then none else some { s with entered := s.entered - 1, clearing := s.clearing + 1 }

/-- `kzalloc` gives an address that is not in use. -/
def kzalloc (s : State) (stream : Addr) : Option State :=
  if s.entered = 0 ∨ s.streams.lookup stream ≠ none then none
  else
    let st : VStream :=
      { pc := .idGet, streamId := 0, videoDev := false, idSet := false, fh := false, m2mCtx := false }
    some { s.set stream st with entered := s.entered - 1 }

/-- `virtio_video_stream_id_get`: `idr_alloc` gives the smallest free id, or
fails, and its result is taken for the id. -/
def streamIdGet (s : State) (stream : Addr) (err : Option Nat) : Option State := do
  let st ← s.streams.lookup stream
  if st.pc = .idGet then
    match err with
    | none =>
      let handle := smallestFree s.streamIdr.keys.toFinset 1
      if handle ≤ intMax then
        some { s.set stream { st with pc := .create, streamId := handle } with
          streamIdr := s.streamIdr.insert handle stream }
      else none
    | some errno =>
      if 0 < errno ∧ errno ≤ maxErrno then some (s.set stream { st with pc := .create, streamId := errId errno })
      else none
  else none

/-- The steps of the open that change the stream only; where `ok` is not
read the step cannot fail. -/
def VStream.openStep (st : VStream) (isM2mDev ok : Bool) : Option VStream :=
  match st.pc with
  | .setVideoDev => some { st with pc := .setStreamId, videoDev := true }
  | .setStreamId => some { st with pc := .getParams, idSet := true }
  | .getParams => some { st with pc := if ok then .getControls else .idPut }
  | .getControls => some { st with pc := if ok then .fhInit else .idPut }
  | .fhInit => some { st with pc := .ctxInit, fh := true }
  | .ctxInit =>
    if isM2mDev then some (if ok then { st with pc := .fhAdd, m2mCtx := true } else { st with pc := .fhExit })
    else some { st with pc := .fhAdd }
  | .fhAdd => some { st with pc := .initCtrls }
  | .initCtrls => some { st with pc := if ok then .opened else .fhDel }
  | .fhDel => some { st with pc := .ctxRelease }
  | .ctxRelease => some { st with pc := .fhExit, m2mCtx := false }
  | .fhExit => some { st with pc := .idPut, fh := false }
  | _ => none

/-- The next step of an open. -/
def openStep (s : State) (stream : Addr) (ok : Bool) : Option State := do
  let st ← s.streams.lookup stream
  match st.pc with
  | .create =>
    if ok then
      some { s.set stream { st with pc := .setVideoDev } with sent := .streamCreate st.streamId :: s.sent }
    else some (s.set stream { st with pc := .idPut })
  | .idPut => some { s.set stream { st with pc := .free } with streamIdr := s.streamIdr.erase st.streamId }
  | .free => some { s with streams := s.streams.erase stream, clearing := s.clearing + 1 }
  | .ctxRelease => if s.lock = none then (st.openStep s.isM2mDev ok).map (s.set stream) else none
  | _ => (st.openStep s.isM2mDev ok).map (s.set stream)

/-- Label `err`: `virtio_video_clear_device_busy`. -/
def clearBusy (s : State) : Option State :=
  if s.clearing = 0 ∨ (¬ s.isM2mDev ∧ s.lock ≠ none) then none
  else some { s with clearing := s.clearing - 1, deviceBusy := if s.isM2mDev then s.deviceBusy else false }

/-! ## Release -/

/-- `virtio_video_device_release` takes the lock. -/
def deviceRelease (s : State) (stream : Addr) : Option State := do
  let st ← s.streams.lookup stream
  if st.pc = .opened ∧ s.lock = none then
    some { s.set stream { st with pc := .relFhDel } with lock := some (.release stream) }
  else none

/-- The steps of the release that change the stream only. -/
def VStream.relStep (st : VStream) : Option VStream :=
  match st.pc with
  | .relFhDel => some { st with pc := .relCtx }
  | .relCtx => some { st with pc := .relFhExit, m2mCtx := false }
  | .relFhExit => some { st with pc := .relDestroy, fh := false }
  | _ => none

/-- The next step of a release. -/
def releaseStep (s : State) (stream : Addr) : Option State := do
  let st ← s.streams.lookup stream
  match st.pc with
  | .relDestroy => some { s.set stream { st with pc := .relIdPut } with sent := .streamDestroy st.streamId :: s.sent }
  | .relIdPut => some { s.set stream { st with pc := .relFree } with streamIdr := s.streamIdr.erase st.streamId }
  | .relFree => some { s with
      streams := s.streams.erase stream
      deviceBusy := if s.isM2mDev then s.deviceBusy else false
      lock := none }
  | _ => st.relStep.map (s.set stream)

/-! ## Events -/

inductive Event
  | decoderResolutionChanged | error | other
  deriving DecidableEq, Repr

/-- `virtio_video_handle_event`: an unknown stream, or an event of another
type, is only reported. -/
def handleEvent (s : State) (streamId : Nat) (event : Event) : Option State :=
  if s.lock ≠ none then none
  else
    match s.streamIdr.lookup streamId with
    | none => some s
    | some stream => if event = .other then some s else some { s with lock := some .worker, worker := some stream }

/-- The event is handled. -/
def eventDone (s : State) : Option State :=
  if s.worker = none then none else some { s with lock := none, worker := none }

/-! ## The machine -/

inductive Act
  | deviceOpen
  | openFails
  | kzalloc (stream : Addr)
  | streamIdGet (stream : Addr) (err : Option Nat)
  | openStep (stream : Addr) (ok : Bool)
  | clearBusy
  | deviceRelease (stream : Addr)
  | releaseStep (stream : Addr)
  | handleEvent (streamId : Nat) (event : Event)
  | eventDone
  deriving DecidableEq, Repr

def step (s : State) : Act → Option State
  | .deviceOpen => deviceOpen s
  | .openFails => openFails s
  | .kzalloc stream => kzalloc s stream
  | .streamIdGet stream err => streamIdGet s stream err
  | .openStep stream ok => openStep s stream ok
  | .clearBusy => clearBusy s
  | .deviceRelease stream => deviceRelease s stream
  | .releaseStep stream => releaseStep s stream
  | .handleEvent streamId event => handleEvent s streamId event
  | .eventDone => eventDone s

/-- After `virtio_video_probe`. -/
def probe (isM2mDev : Bool) : State :=
  { isM2mDev, deviceBusy := false, lock := none, streams := ∅, streamIdr := ∅, entered := 0, clearing := 0
    worker := none, sent := [] }

def machine : Machine State Act where
  init s := ∃ isM2mDev, s = probe isM2mDev
  step := step

/-! ## What should hold -/

/-- The streams the device holds: created, and not destroyed since. -/
def held : List Cmd → List Nat
  | [] => []
  | .streamCreate streamId :: sent => streamId :: held sent
  | .streamDestroy streamId :: sent => (held sent).filter fun k => k ≠ streamId
  | .resourceAttach _ :: sent | .queueDetachResources _ _ :: sent => held sent

/-- `STREAM_CREATE` has never been sent with an id the device held. -/
def CreatesFresh : List Cmd → Prop
  | [] => True
  | .streamCreate streamId :: sent => streamId ∉ held sent ∧ CreatesFresh sent
  | _ :: sent => CreatesFresh sent

/-- No open or release is in progress. -/
def State.Quiet (s : State) : Prop :=
  s.entered = 0 ∧ s.clearing = 0 ∧ ∀ stream st, s.streams.lookup stream = some st → st.pc = .opened

/-- Driver and device agree on the streams. -/
structure StreamsAgree (s : State) : Prop where
  held : s.Quiet → ∀ streamId, streamId ∈ held s.sent ↔
    ∃ stream st, s.streams.lookup stream = some st ∧ st.streamId = streamId
  fresh : CreatesFresh s.sent

/-- The stream that an event is handled for is live and initialised. The
`m2m_ctx` is not asked for: it comes after the file handle, and an error event
on an m2m device reads it. -/
def EventSafe (s : State) : Prop :=
  ∀ stream ∈ s.worker, ∃ st ∈ s.streams.lookup stream, st.videoDev = true ∧ st.idSet = true ∧ st.fh = true

instance (s : State) : Decidable (EventSafe s) := inferInstanceAs (Decidable (∀ stream ∈ s.worker, _))

end Agl.VirtioVideo.Open
