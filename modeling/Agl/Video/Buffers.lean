/-
The objects that the response callbacks use: the buffers of vb2, and the
streams.

A `RESOURCE_QUEUE` command is answered at any time, or never, and its
callback completes its buffer; vb2 hands buffers to the driver, and takes
them back in STREAMOFF, REQBUFS and release, where the three `stop_streaming`
callbacks treat a failed `QUEUE_CLEAR` differently. The callbacks of
`GET_PARAMS` and `GET_CONTROL` write to the stream; their callers wait, 5
seconds at most, and take the vbuf off `pending_vbuf_list` themselves.

The ioctls on one queue exclude one another, a release comes after the
ioctls, and it holds `vd->lock`, as does the event worker. A callback runs
for a listed vbuf; a vbuf that `virtqueue_add_sgs` has refused stays listed,
and its callback runs when a late completion is taken for it (`answerLate`).
Buffers and streams are numbered, and no number is used again.

Of vb2: a queue that is cancelled calls `stop_streaming` if it has been
started, and then takes back the buffers that the driver still has; so it
does when `start_streaming` fails; it frees buffers after a cancel only.
`v4l2_m2m_src_buf_remove` and its twin find nothing: no buffer is put on the
ready queues of `m2m_ctx`. Left out: the contents of replies, DQBUF, and the
open of a stream.
-/
import Agl.Lib.Machine
import Agl.Lib.Table
import Agl.Video.Cmd

namespace Agl.VirtioVideo.Buffers

/-- `enum vb2_buffer_state`, as far as it matters. -/
inductive BufState
  /-- vb2 or the application has it -/
  | dequeued
  | queued
  /-- the driver has it -/
  | active
  deriving DecidableEq, Repr

/-- A queue of a stream. -/
abbrev QKey := Nat × QueueType

structure VBuf where
  queue : QKey
  st : BufState
  deriving DecidableEq, Repr

/-- What vb2 or the driver is about to do on a queue; `free` says that its
buffers are freed afterwards. -/
inductive QPc
  | idle
  /-- hand over the queued buffers -/
  | enqueue
  /-- call `start_streaming` -/
  | start
  /-- take back the buffers after it has failed -/
  | takeBack
  /-- `stop_streaming`: send `QUEUE_CLEAR` -/
  | stop (free : Bool)
  /-- the loop over `pending_buf_list` -/
  | loop (free : Bool)
  /-- `vb2_wait_for_all_buffers` -/
  | wait (free : Bool)
  /-- take back what is left -/
  | cancel (free : Bool)
  | free
  deriving DecidableEq, Repr

structure VQueue where
  streaming : Bool
  /-- `start_streaming_called` -/
  started : Bool
  pc : QPc
  deriving DecidableEq, Repr

/-- `vbuf->priv` of a command with a callback. -/
inductive Priv
  /-- of `RESOURCE_QUEUE` -/
  | buf (b : Nat)
  /-- of `GET_PARAMS` and `GET_CONTROL` -/
  | stream (stream : Nat)
  deriving DecidableEq, Repr

/-- What becomes of a submission: nothing, if there is no vbuf or the queue
is not ready. -/
inductive Submit
  | queued
  /-- by `virtqueue_add_sgs`, with the vbuf on the list -/
  | refused
  | failed
  deriving DecidableEq, Repr

/-- Who holds `vd->lock`. -/
inductive Holder
  | worker (stream : Nat)
  | release (stream : Nat)
  deriving DecidableEq, Repr

structure State where
  type : DeviceType
  lock : Option Holder
  /-- the streams, and whether they are being released -/
  streams : Table Nat Bool
  queues : Table QKey VQueue
  bufs : Table Nat VBuf
  nextStream : Nat
  nextBuf : Nat
  /-- the commands with a callback that the device owes an answer -/
  listed : List Priv
  /-- those that the virtqueue has refused -/
  refused : List Priv
  /-- the synchronous calls in progress, and whether the worker makes them -/
  waiting : List (Nat × Bool)
  pendingBufList : List Nat
  /-- the worker is in the loop over `pending_buf_list` -/
  workerLoop : Bool
  /-- for each callback that has run: its object was there, a buffer with the driver -/
  ran : List Bool

def State.setQueue (s : State) (k : QKey) (q : VQueue) : State := { s with queues := s.queues.insert k q }

def State.setBuf (s : State) (b : Nat) (v : VBuf) : State := { s with bufs := s.bufs.insert b v }

/-- Some buffer of the queue is in this state. -/
def State.has (s : State) (k : QKey) (st : BufState) : Prop := ∃ p ∈ s.bufs.entries, p.2.queue = k ∧ p.2.st = st

instance (s : State) (k : QKey) (st : BufState) : Decidable (s.has k st) :=
  inferInstanceAs (Decidable (∃ p ∈ s.bufs.entries, _))

/-- `virtio_video_pending_buf_list_add`, on a camera. -/
def State.pendingAdd (s : State) (b : Nat) : State :=
  { s with pendingBufList := if s.type = .camera then s.pendingBufList ++ [b] else s.pendingBufList }

/-- `virtio_video_pending_buf_list_del`, on a camera. -/
def State.pendingDel (s : State) (b : Nat) : State :=
  { s with pendingBufList := if s.type = .camera then s.pendingBufList.erase b else s.pendingBufList }

def State.submit (s : State) (p : Priv) : Submit → State
  | .queued => { s with listed := p :: s.listed }
  | .refused => { s with refused := p :: s.refused }
  | .failed => s

/-! ## The driver -/

/-- `virtio_video_buf_queue` on a buffer that vb2 has made active. -/
def bufQueue (s : State) (b : Nat) (v : VBuf) (r : Submit) : State :=
  ((s.setBuf b { v with st := .active }).pendingAdd b).submit (.buf b) r

/-- `v4l2_m2m_buf_done`: a buffer that the driver does not have is left alone. -/
def bufDone (s : State) (b : Nat) : State :=
  match s.bufs.lookup b with
  | some v => if v.st = .active then s.setBuf b { v with st := .dequeued } else s
  | none => s

/-- The callback of a command: `virtio_video_buf_done`, or a write to the
stream. -/
def callback (s : State) : Priv → State
  | .buf b =>
    let there := decide (∃ v ∈ s.bufs.lookup b, v.st = .active)
    { bufDone (s.pendingDel b) b with ran := there :: s.ran }
  | .stream stream => { s with ran := (s.streams.lookup stream).isSome :: s.ran }

/-- What `stop_streaming` does after `QUEUE_CLEAR`: on a camera
`virtio_video_queue_release_buffers` goes on to its loop; the encoder returns
when the command has failed; else it waits. -/
def stopStreaming (type : DeviceType) (ok free : Bool) : QPc :=
  match type with
  | .decoder => .wait free
  | .encoder => if ok then .wait free else .cancel free
  | .camera => if ok then .loop free else .wait free

/-- One round of the loop over `pending_buf_list`, which takes nothing off
the list; `none` when it is empty. -/
def releaseFirst (s : State) : Option State := s.pendingBufList.head?.map (bufDone s)

/-! ## vb2 -/

/-- A queue on which no ioctl is in progress, of a stream that is not being
released. -/
def State.ready (s : State) (k : QKey) : Option VQueue := do
  let releasing ← s.streams.lookup k.1
  let q ← s.queues.lookup k
  if releasing ∨ q.pc ≠ .idle then none else some q

/-- A new buffer, by REQBUFS or CREATE_BUFS. -/
def alloc (s : State) (k : QKey) : Option State := do
  let _ ← s.ready k
  some { s.setBuf s.nextBuf { queue := k, st := .dequeued } with nextBuf := s.nextBuf + 1 }

/-- QBUF -/
def qbuf (s : State) (b : Nat) (r : Submit) : Option State := do
  let v ← s.bufs.lookup b
  let q ← s.ready v.queue
  if v.st ≠ .dequeued then none
  else if q.started then some (bufQueue s b v r)
  else some (s.setBuf b { v with st := .queued })

/-- STREAMON -/
def streamOn (s : State) (k : QKey) : Option State := do
  let q ← s.ready k
  some (s.setQueue k { q with streaming := true })

/-- vb2 has enough buffers and begins to start. -/
def vb2Start (s : State) (k : QKey) : Option State := do
  let q ← s.ready k
  if q.streaming ∧ ¬ q.started then some (s.setQueue k { q with pc := .enqueue }) else none

/-- The next queued buffer is handed over. -/
def enqueue (s : State) (b : Nat) (r : Submit) : Option State := do
  let v ← s.bufs.lookup b
  let q ← s.queues.lookup v.queue
  if q.pc = .enqueue ∧ v.st = .queued then some (bufQueue s b v r) else none

/-- All are; then `start_streaming`, which fails in `STREAM_STATE_ERROR`. -/
def startStreaming (s : State) (k : QKey) (ok : Bool) : Option State := do
  let q ← s.queues.lookup k
  match q.pc with
  | .enqueue => if s.has k .queued then none else some (s.setQueue k { q with pc := .start })
  | .start => some (s.setQueue k (if ok then { q with started := true, pc := .idle } else { q with pc := .takeBack }))
  | _ => none

/-- vb2 takes a buffer back. -/
def takeBack (s : State) (b : Nat) : Option State := do
  let v ← s.bufs.lookup b
  let q ← s.queues.lookup v.queue
  match q.pc, v.st with
  | .takeBack, .active => some (s.setBuf b { v with st := .queued })
  | .cancel _, .active | .cancel _, .queued => some (s.setBuf b { v with st := .dequeued })
  | _, _ => none

/-- It has taken back all. -/
def takenBack (s : State) (k : QKey) : Option State := do
  let q ← s.queues.lookup k
  if s.has k .active then none
  else
    match q.pc with
    | .takeBack => some (s.setQueue k { q with pc := .idle })
    | .cancel free =>
      if s.has k .queued then none
      else some (s.setQueue k { streaming := false, started := false, pc := if free then .free else .idle })
    | _ => none

/-- `__vb2_queue_cancel` begins. -/
def VQueue.cancelled (q : VQueue) (free : Bool) : VQueue :=
  { q with pc := if q.started then .stop free else .cancel free }

/-- STREAMOFF, on a queue that is not streaming too -/
def streamOff (s : State) (k : QKey) : Option State := do
  let q ← s.ready k
  some (s.setQueue k (q.cancelled false))

/-- REQBUFS, past `virtio_video_queue_free`. -/
def reqbufs (s : State) (k : QKey) : Option State := do
  let q ← s.ready k
  if q.streaming then none else some (s.setQueue k (q.cancelled true))

/-- The steps of `stop_streaming`; `ok` is the result of `QUEUE_CLEAR`. -/
def stopStep (s : State) (k : QKey) (ok : Bool) : Option State := do
  let q ← s.queues.lookup k
  match q.pc with
  | .stop free => some (s.setQueue k { q with pc := stopStreaming s.type ok free })
  | .loop free => some ((releaseFirst s).getD (s.setQueue k { q with pc := .wait free }))
  | .wait free => if s.has k .active then none else some (s.setQueue k { q with pc := .cancel free })
  | _ => none

/-- vb2 frees a buffer. -/
def freeBuf (s : State) (b : Nat) : Option State := do
  let v ← s.bufs.lookup b
  let q ← s.queues.lookup v.queue
  if q.pc = .free then some { s with bufs := s.bufs.erase b } else none

/-- It has freed all. -/
def freedBufs (s : State) (k : QKey) : Option State := do
  let q ← s.queues.lookup k
  if q.pc = .free ∧ ∀ p ∈ s.bufs.entries, p.2.queue ≠ k then some (s.setQueue k { q with pc := .idle }) else none

/-! ## Streams -/

/-- A stream has been opened, the only one of a camera (`device_busy`). -/
def opened (s : State) : Option State :=
  let q : VQueue := { streaming := false, started := false, pc := .idle }
  if s.type = .camera ∧ s.streams.keys ≠ [] then none
  else
    some { s with
      streams := s.streams.insert s.nextStream false
      queues := (s.queues.insert (s.nextStream, .input) q).insert (s.nextStream, .output) q
      nextStream := s.nextStream + 1 }

/-- The worker is at the stream, or an ioctl can be. -/
def State.mayCall (s : State) (stream : Nat) (worker : Bool) : Prop :=
  if worker then s.lock = some (.worker stream) else s.streams.lookup stream = some false

instance (s : State) (stream : Nat) (worker : Bool) : Decidable (s.mayCall stream worker) :=
  inferInstanceAs (Decidable (if worker then _ else _))

/-- `virtio_video_cmd_get_params` or `_get_control`, up to its wait. -/
def syncCmd (s : State) (stream : Nat) (worker : Bool) (r : Submit) : Option State :=
  if s.mayCall stream worker then
    let s := s.submit (.stream stream) r
    some (if r = .queued then { s with waiting := (stream, worker) :: s.waiting } else s)
  else none

/-- The wait is over, and the vbuf is off the list. -/
def syncDone (s : State) (stream : Nat) (worker : Bool) : Option State :=
  if (stream, worker) ∈ s.waiting then
    some { s with waiting := s.waiting.erase (stream, worker), listed := s.listed.erase (.stream stream) }
  else none

/-- `virtio_video_device_release`: no ioctl is in progress. -/
def deviceRelease (s : State) (stream : Nat) : Option State :=
  if s.lock = none ∧ s.streams.lookup stream = some false ∧ (stream, false) ∉ s.waiting ∧
      ∀ p ∈ s.queues.entries, p.1.1 = stream → p.2.pc = .idle then
    some { s with lock := some (.release stream), streams := s.streams.insert stream true }
  else none

/-- Its next queue is cancelled and freed. -/
def releaseQueue (s : State) (k : QKey) : Option State := do
  let q ← s.queues.lookup k
  if s.streams.lookup k.1 = some true ∧ q.pc = .idle then some (s.setQueue k (q.cancelled true)) else none

/-- The stream is freed. -/
def streamFreed (s : State) (stream : Nat) : Option State :=
  if s.streams.lookup stream = some true ∧ (∀ p ∈ s.queues.entries, p.1.1 = stream → p.2.pc = .idle) ∧
      ∀ p ∈ s.bufs.entries, p.2.queue.1 ≠ stream then
    some { s with lock := none, streams := s.streams.erase stream }
  else none

/-- `virtio_video_handle_event` has found a stream. -/
def handleEvent (s : State) (stream : Nat) : Option State :=
  if s.lock = none ∧ s.streams.lookup stream = some false then some { s with lock := some (.worker stream) } else none

/-- `virtio_video_handle_error`: `QUEUE_CLEAR`, and on a camera the loop. -/
def handleError (s : State) (ok : Bool) : Option State :=
  match s.lock with
  | some (.worker _) =>
    if s.workerLoop then some ((releaseFirst s).getD { s with workerLoop := false })
    else some { s with workerLoop := ok && s.type = .camera }
  | _ => none

/-- The event is handled. -/
def eventDone (s : State) : Option State :=
  match s.lock with
  | some (.worker stream) =>
    if s.workerLoop ∨ (stream, true) ∈ s.waiting then none else some { s with lock := none }
  | _ => none

/-! ## Answers -/

/-- `virtio_video_cmd_cb` on a listed vbuf; an asynchronous one is freed. -/
def answer (s : State) (p : Priv) : Option State :=
  if p ∈ s.listed then
    match p with
    | .buf _ => some { callback s p with listed := s.listed.erase p }
    | .stream _ => some (callback s p)
  else none

/-- The same on one that the virtqueue has refused, for a completion of an
older request at its address. -/
def answerLate (s : State) (p : Priv) : Option State :=
  if p ∈ s.refused then
    match p with
    | .buf _ => some { callback s p with refused := s.refused.erase p }
    | .stream _ => some (callback s p)
  else none

/-! ## The machine -/

inductive Act
  | opened
  | alloc (k : QKey)
  | qbuf (b : Nat) (r : Submit)
  | streamOn (k : QKey)
  | vb2Start (k : QKey)
  | enqueue (b : Nat) (r : Submit)
  | startStreaming (k : QKey) (ok : Bool)
  | takeBack (b : Nat)
  | takenBack (k : QKey)
  | streamOff (k : QKey)
  | reqbufs (k : QKey)
  | stopStep (k : QKey) (ok : Bool)
  | freeBuf (b : Nat)
  | freedBufs (k : QKey)
  | syncCmd (stream : Nat) (worker : Bool) (r : Submit)
  | syncDone (stream : Nat) (worker : Bool)
  | deviceRelease (stream : Nat)
  | releaseQueue (k : QKey)
  | streamFreed (stream : Nat)
  | handleEvent (stream : Nat)
  | handleError (ok : Bool)
  | eventDone
  | answer (p : Priv)
  | answerLate (p : Priv)
  deriving DecidableEq, Repr

def step (s : State) : Act → Option State
  | .opened => opened s
  | .alloc k => alloc s k
  | .qbuf b r => qbuf s b r
  | .streamOn k => streamOn s k
  | .vb2Start k => vb2Start s k
  | .enqueue b r => enqueue s b r
  | .startStreaming k ok => startStreaming s k ok
  | .takeBack b => takeBack s b
  | .takenBack k => takenBack s k
  | .streamOff k => streamOff s k
  | .reqbufs k => reqbufs s k
  | .stopStep k ok => stopStep s k ok
  | .freeBuf b => freeBuf s b
  | .freedBufs k => freedBufs s k
  | .syncCmd stream worker r => syncCmd s stream worker r
  | .syncDone stream worker => syncDone s stream worker
  | .deviceRelease stream => deviceRelease s stream
  | .releaseQueue k => releaseQueue s k
  | .streamFreed stream => streamFreed s stream
  | .handleEvent stream => handleEvent s stream
  | .handleError ok => handleError s ok
  | .eventDone => eventDone s
  | .answer p => answer s p
  | .answerLate p => answerLate s p

/-- After `virtio_video_probe`. -/
def probe (type : DeviceType) : State :=
  { type, lock := none, streams := ∅, queues := ∅, bufs := ∅, nextStream := 0, nextBuf := 0, listed := [], refused := []
    waiting := [], pendingBufList := [], workerLoop := false, ran := [] }

def machine : Machine State Act where
  init s := ∃ type, s = probe type
  step := step

/-- Every callback has run on a buffer that the driver had, or on a stream
that was not freed. -/
def CallbacksSafe (s : State) : Prop := ∀ there ∈ s.ran, there = true

instance (s : State) : Decidable (CallbacksSafe s) := inferInstanceAs (Decidable (∀ there ∈ s.ran, _))

end Agl.VirtioVideo.Buffers
