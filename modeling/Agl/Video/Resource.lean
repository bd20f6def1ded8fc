/-
Resource ids and attached resources (`virtio_video_buf_init`, `_buf_cleanup`,
`virtio_video_reqbufs`, device open and release) as a machine over any
number of streams.

The ioctls on the queues of one stream exclude one another (`vq_mutex`), and
release comes last; calls on different streams interleave. A call is cut
where it takes or gives back an id and where it sends a command. What the
device holds attached is read off the commands sent (`attached`).

Of vb2: `VIDIOC_REQBUFS` frees the buffers the queue has before it allocates
new ones; an allocation ends at the first `buf_init` that fails, and vb2
either keeps the buffers it has got or frees those of this call; it may
refuse a request. Buffers are of the MMAP kind: those of the DMABUF kind
are not initialised by these calls. `idr_alloc` gives the smallest free id.
-/
import Mathlib.Data.List.AList
import Agl.Lib.Fresh
import Agl.Lib.Machine
import Agl.Video.Cmd

namespace Agl.VirtioVideo.Resource

/-! ## What the device holds -/

/-- A resource the device holds attached. -/
structure Att where
  resourceId : Nat
  streamId : Nat
  queue : QueueType
  deriving DecidableEq, Repr

/-- The commands the device is sent. -/
inductive Cmd
  | streamCreate (streamId : Nat)
  | streamDestroy (streamId : Nat)
  | resourceAttach (a : Att)
  | queueDetachResources (streamId : Nat) (queue : QueueType)
  deriving DecidableEq, Repr

/-- The resources attached by the commands sent, the last one first. -/
def attached : List Cmd → List Att
  | [] => []
  | .resourceAttach a :: sent => a :: (attached sent).filter fun b => b.resourceId ≠ a.resourceId
  | .queueDetachResources streamId queue :: sent =>
    (attached sent).filter fun b => ¬ (b.streamId = streamId ∧ b.queue = queue)
  | .streamDestroy streamId :: sent => (attached sent).filter fun b => b.streamId ≠ streamId
  | .streamCreate _ :: sent => attached sent

/-! ## The driver -/

/-- An initialised buffer. -/
structure Buf where
  resourceId : Nat
  queue : QueueType
  deriving DecidableEq, Repr

/-- Where the call on a stream is. -/
inductive Pc
  /-- `virtio_video_device_open`, the stream id taken -/
  | opening
  /-- `STREAM_CREATE` queued -/
  | created
  | idle
  /-- `virtio_video_reqbufs` with count 0, before `virtio_video_queue_free` -/
  | detach (queue : QueueType)
  /-- about to call vb2's `reqbufs` -/
  | vb2Reqbufs (queue : QueueType) (count : Nat)
  /-- vb2 frees the buffers of the queue -/
  | free (queue : QueueType) (count : Nat)
  /-- vb2 allocates; `n` buffers so far -/
  | alloc (queue : QueueType) (n : Nat)
  /-- in `virtio_video_buf_init`, the id taken -/
  | attach (queue : QueueType) (n : Nat) (resourceId : Nat)
  /-- `virtio_video_buf_init` has failed after `n` buffers -/
  | failed (n : Nat)
  /-- vb2 gives up the last `n` buffers -/
  | giveUp (n : Nat)
  /-- `virtio_video_device_release` -/
  | release
  deriving DecidableEq, Repr

/-- A stream and its buffers, the youngest first. -/
structure VStream where
  pc : Pc
  bufs : List Buf
  deriving DecidableEq, Repr

structure State where
  resourceIdr : Finset Nat
  /-- `stream_idr` -/
  streams : AList fun _ : Nat => VStream
  /-- the commands in the queue so far, the last one first -/
  sent : List Cmd
  /-- the ids `virtio_video_buf_init` has got, and whether the device held them -/
  handedOut : List (Nat × Bool)

def State.set (s : State) (streamId : Nat) (st : VStream) : State :=
  { s with streams := s.streams.insert streamId st }

/-! ### Open -/

/-- `virtio_video_device_open` up to `virtio_video_stream_id_get`. -/
def deviceOpen (s : State) : State := s.set (smallestFree s.streams.keys.toFinset 1) { pc := .opening, bufs := [] }

/-- `virtio_video_cmd_stream_create`; if it fails the id is put back. -/
def streamCreate (s : State) (streamId : Nat) (accepted : Bool) : Option State := do
  let st ← s.streams.lookup streamId
  if st.pc = .opening then
    if accepted then some { s.set streamId { st with pc := .created } with sent := .streamCreate streamId :: s.sent }
    else some { s with streams := s.streams.erase streamId }
  else none

/-- The rest of the open, which may fail. -/
def deviceOpened (s : State) (streamId : Nat) (ok : Bool) : Option State := do
  let st ← s.streams.lookup streamId
  if st.pc = .created then
    if ok then some (s.set streamId { st with pc := .idle })
    else some { s with streams := s.streams.erase streamId }
  else none

/-! ### REQBUFS and CREATE_BUFS -/

/-- `virtio_video_reqbufs` -/
def reqbufs (s : State) (streamId : Nat) (queue : QueueType) (count : Nat) : Option State := do
  let st ← s.streams.lookup streamId
  if st.pc = .idle then
    some (s.set streamId { st with pc := if count = 0 then .detach queue else .vb2Reqbufs queue count })
  else none

/-- `virtio_video_queue_free`: the command is queued or not, and completed
in time or not. -/
def queueFree (s : State) (streamId : Nat) (accepted completed : Bool) : Option State := do
  let st ← s.streams.lookup streamId
  match st.pc with
  | .detach queue =>
    if accepted then
      some { s.set streamId { st with pc := if completed then .vb2Reqbufs queue 0 else .idle } with
        sent := .queueDetachResources streamId queue :: s.sent }
    else some (s.set streamId { st with pc := .idle })
  | _ => none

/-- vb2's `reqbufs` refuses, or begins to free. -/
def vb2Reqbufs (s : State) (streamId : Nat) (granted : Bool) : Option State := do
  let st ← s.streams.lookup streamId
  match st.pc with
  | .vb2Reqbufs queue count => some (s.set streamId { st with pc := if granted then .free queue count else .idle })
  | _ => none

/-- `VIDIOC_CREATE_BUFS`: vb2 begins to allocate. -/
def createBufs (s : State) (streamId : Nat) (queue : QueueType) : Option State := do
  let st ← s.streams.lookup streamId
  if st.pc = .idle then some (s.set streamId { st with pc := .alloc queue 0 }) else none

/-- `virtio_video_buf_init` up to `virtio_video_resource_id_get`. -/
def bufInitGet (s : State) (streamId : Nat) : Option State := do
  let st ← s.streams.lookup streamId
  match st.pc with
  | .alloc queue n =>
    let resourceId := smallestFree s.resourceIdr 1
    some { s.set streamId { st with pc := .attach queue n resourceId } with
      resourceIdr := insert resourceId s.resourceIdr
      handedOut := (resourceId, decide (∃ a ∈ attached s.sent, a.resourceId = resourceId)) :: s.handedOut }
  | _ => none

/-- `virtio_video_buf_init` from `virtio_video_cmd_resource_attach` on; if
that fails the id is put back. -/
def bufInitAttach (s : State) (streamId : Nat) (accepted : Bool) : Option State := do
  let st ← s.streams.lookup streamId
  match st.pc with
  | .attach queue n resourceId =>
    if accepted then
      some { s.set streamId { pc := .alloc queue (n + 1), bufs := ⟨resourceId, queue⟩ :: st.bufs } with
        sent := .resourceAttach ⟨resourceId, streamId, queue⟩ :: s.sent }
    else some { s.set streamId { st with pc := .failed n } with resourceIdr := s.resourceIdr.erase resourceId }
  | _ => none

/-- The allocation ends; vb2 keeps the buffers or gives them up. -/
def allocated (s : State) (streamId : Nat) (keep : Bool) : Option State := do
  let st ← s.streams.lookup streamId
  match st.pc with
  | .alloc _ n | .failed n => some (s.set streamId { st with pc := if keep then .idle else .giveUp n })
  | _ => none

/-- The buffer vb2 frees next, and where the call is then. -/
def VStream.nextFree (st : VStream) : Option (Buf × Pc) :=
  match st.pc with
  | .free queue count => (st.bufs.find? fun b => b.queue = queue).map fun b => (b, .free queue count)
  | .giveUp (n + 1) => st.bufs.head?.map fun b => (b, .giveUp n)
  | .release => st.bufs.head?.map fun b => (b, .release)
  | _ => none

/-- `virtio_video_buf_cleanup` on the next buffer that vb2 frees. -/
def bufCleanup (s : State) (streamId : Nat) : Option State := do
  let st ← s.streams.lookup streamId
  let (b, pc) ← st.nextFree
  some { s.set streamId { pc, bufs := st.bufs.erase b } with resourceIdr := s.resourceIdr.erase b.resourceId }

/-- vb2 has freed what it had to. -/
def freed (s : State) (streamId : Nat) : Option State := do
  let st ← s.streams.lookup streamId
  match st.pc with
  | .free queue count =>
    if st.nextFree = none then some (s.set streamId { st with pc := if count = 0 then .idle else .alloc queue 0 })
    else none
  | .giveUp 0 => some (s.set streamId { st with pc := .idle })
  | _ => none

/-! ### Release -/

/-- `virtio_video_device_release`: vb2 begins to free the queues. -/
def deviceRelease (s : State) (streamId : Nat) : Option State := do
  let st ← s.streams.lookup streamId
  if st.pc = .idle then some (s.set streamId { st with pc := .release }) else none

/-- `virtio_video_cmd_stream_destroy`, whose result is not looked at, and
`virtio_video_stream_id_put`. -/
def streamDestroy (s : State) (streamId : Nat) (accepted : Bool) : Option State := do
  let st ← s.streams.lookup streamId
  if st.pc = .release ∧ st.bufs = [] then
    some { s with
      streams := s.streams.erase streamId
      sent := if accepted then .streamDestroy streamId :: s.sent else s.sent }
  else none

/-! ## The machine -/

inductive Act
  | deviceOpen
  | streamCreate (streamId : Nat) (accepted : Bool)
  | deviceOpened (streamId : Nat) (ok : Bool)
  | reqbufs (streamId : Nat) (queue : QueueType) (count : Nat)
  | queueFree (streamId : Nat) (accepted completed : Bool)
  | vb2Reqbufs (streamId : Nat) (granted : Bool)
  | createBufs (streamId : Nat) (queue : QueueType)
  | bufInitGet (streamId : Nat)
  | bufInitAttach (streamId : Nat) (accepted : Bool)
  | allocated (streamId : Nat) (keep : Bool)
  | bufCleanup (streamId : Nat)
  | freed (streamId : Nat)
  | deviceRelease (streamId : Nat)
  | streamDestroy (streamId : Nat) (accepted : Bool)
  deriving DecidableEq, Repr

def step (s : State) : Act → Option State
  | .deviceOpen => some (deviceOpen s)
  | .streamCreate streamId accepted => streamCreate s streamId accepted
  | .deviceOpened streamId ok => deviceOpened s streamId ok
  | .reqbufs streamId queue count => reqbufs s streamId queue count
  | .queueFree streamId accepted completed => queueFree s streamId accepted completed
  | .vb2Reqbufs streamId granted => vb2Reqbufs s streamId granted
  | .createBufs streamId queue => createBufs s streamId queue
  | .bufInitGet streamId => bufInitGet s streamId
  | .bufInitAttach streamId accepted => bufInitAttach s streamId accepted
  | .allocated streamId keep => allocated s streamId keep
  | .bufCleanup streamId => bufCleanup s streamId
  | .freed streamId => freed s streamId
  | .deviceRelease streamId => deviceRelease s streamId
  | .streamDestroy streamId accepted => streamDestroy s streamId accepted

/-- After `virtio_video_probe`. -/
def probe : State := { resourceIdr := ∅, streams := ∅, sent := [], handedOut := [] }

def machine : Machine State Act where
  init s := s = probe
  step := step

end Agl.VirtioVideo.Resource
