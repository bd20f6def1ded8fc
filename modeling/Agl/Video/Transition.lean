/-
The state of a stream (`enum video_stream_state`) and everything that
changes it: the `start_streaming` and `stop_streaming` callbacks, the
`s_fmt` and `g_fmt` wrappers, the decoder and encoder commands, the replies
that carry EOS, the event worker, and `virtio_video_device_open`.

Each of them reads the state some times, one test a read, and then calls
`virtio_video_state_update`, a loop of `atomic_read` and `atomic_cmpxchg`
that gives up on `STREAM_STATE_ERROR`. Any number of calls are in progress
at once and interleave at every read and every exchange; what the kernel's
locks exclude is not excluded here. Ioctls, callbacks and replies begin when
the open has set the state; events find the stream before that.

Of the device: the drains it has been sent and not answered with EOS yet,
and its replies to `RESOURCE_QUEUE` that are not processed yet.
-/
import Agl.Lib.Machine
import Agl.Lib.CasLoop
import Agl.Video.Cmd

namespace Agl.VirtioVideo

/-- The value of the enumerator. -/
def StreamState.val : StreamState → Nat
  | .idle => 0
  | .init => 1
  | .dynamicResChange => 2
  | .running => 3
  | .drain => 4
  | .stopped => 5
  | .reset => 6
  | .error => 7

namespace Transition

/-! ## Sites -/

/-- What a read of the state is compared with. -/
inductive Test
  | is (st : StreamState)
  | atLeast (st : StreamState)
  deriving DecidableEq, Repr

def Test.holds : Test → StreamState → Bool
  | .is st, cur => cur = st
  | .atLeast st, cur => cur.val ≥ st.val

/-- What a test that holds leads to: the function returns, or it goes on to
its update. -/
inductive Branch
  | leave | update
  deriving DecidableEq, Repr

/-- A function as far as the state goes: its tests in order, what it does
when none holds, whether it queues `STREAM_DRAIN` before its update, and the
state it sets. -/
structure Site where
  tests : List (Test × Branch)
  otherwise : Branch
  drains : Bool
  newState : StreamState
  deriving DecidableEq, Repr

/-- `virtio_video_dec_start_streaming`; `output` says that `vq` is the
OUTPUT queue. -/
def decStartStreaming (output : Bool) : Site where
  tests := (.is .error, .leave) :: if output then [] else [(.atLeast .init, .update)]
  otherwise := .leave
  drains := false
  newState := .running

/-- `virtio_video_enc_start_streaming` -/
def encStartStreaming (output : Bool) : Site where
  tests := [(.is .error, .leave), (.is .init, .update), (.is (if output then .stopped else .reset), .update)]
  otherwise := .leave
  drains := false
  newState := .running

/-- `virtio_video_cam_start_streaming` -/
def camStartStreaming : Site where
  tests := [(.is .error, .leave), (.atLeast .init, .update)]
  otherwise := .leave
  drains := false
  newState := .running

/-- `virtio_video_enc_stop_streaming`, after the queue is cleared. -/
def encStopStreaming (output : Bool) : Site where
  tests := []
  otherwise := .update
  drains := false
  newState := if output then .stopped else .reset

/-- The tests of `virtio_video_try_decoder_cmd` and
`virtio_video_try_encoder_cmd`. -/
def tryCmd : List (Test × Branch) := [(.is .error, .leave), (.is .drain, .leave)]

/-- `virtio_video_decoder_cmd` with `V4L2_DEC_CMD_START`: no update. -/
def decoderCmdStart : Site := { tests := tryCmd, otherwise := .leave, drains := false, newState := .running }

/-- `virtio_video_encoder_cmd` with `V4L2_ENC_CMD_START` -/
def encoderCmdStart : Site := { tests := tryCmd, otherwise := .update, drains := false, newState := .running }

/-- `virtio_video_decoder_cmd` with `V4L2_DEC_CMD_STOP` -/
def decoderCmdStop : Site := { tests := tryCmd, otherwise := .update, drains := true, newState := .drain }

/-- `virtio_video_encoder_cmd` with `V4L2_ENC_CMD_STOP` -/
def encoderCmdStop : Site := { tests := tryCmd, otherwise := .update, drains := true, newState := .drain }

/-- The common part of the `s_fmt` wrappers: `virtio_video_s_fmt` refuses
with `STREAM_STATE_ERROR`; the wrapper of the coded queue goes on. -/
def sFmt (coded : Bool) : Site where
  tests := (.is .error, .leave) :: if coded then [(.is .idle, .update)] else []
  otherwise := .leave
  drains := false
  newState := .init

/-- `virtio_video_dec_s_fmt`; `output` says that the type is an OUTPUT one. -/
def decSFmt (output : Bool) : Site := sFmt output

/-- `virtio_video_enc_s_fmt` -/
def encSFmt (output : Bool) : Site := sFmt (!output)

/-- `virtio_video_cam_s_fmt` -/
def camSFmt : Site := sFmt true

/-- `virtio_video_cam_g_fmt` -/
def camGFmt : Site := { tests := [(.is .idle, .update)], otherwise := .leave, drains := false, newState := .init }

/-- `virtio_video_buf_done` on a reply that carries EOS. -/
def bufDoneEos : Site := { tests := [], otherwise := .update, drains := false, newState := .stopped }

/-- `virtio_video_handle_event`, `VIRTIO_VIDEO_EVENT_DECODER_RESOLUTION_CHANGED` -/
def handleResolutionChanged : Site where
  tests := [(.is .init, .update)]
  otherwise := .leave
  drains := false
  newState := .dynamicResChange

/-- `virtio_video_handle_event`, `VIRTIO_VIDEO_EVENT_ERROR` -/
def handleError : Site := { tests := [], otherwise := .update, drains := false, newState := .error }

/-- Who is called. -/
inductive Caller
  | startStreaming (type : DeviceType) (output : Bool)
  | encStopStreaming (output : Bool)
  | decoderCmdStart | encoderCmdStart | decoderCmdStop | encoderCmdStop
  | sFmt (type : DeviceType) (output : Bool)
  | camGFmt
  | bufDoneEos
  | handleResolutionChanged
  | handleError
  deriving DecidableEq, Repr

def Caller.site : Caller → Site
  | .startStreaming .decoder output => decStartStreaming output
  | .startStreaming .encoder output => Transition.encStartStreaming output
  | .startStreaming .camera _ => camStartStreaming
  | .encStopStreaming output => Transition.encStopStreaming output
  | .decoderCmdStart => Transition.decoderCmdStart
  | .encoderCmdStart => Transition.encoderCmdStart
  | .decoderCmdStop => Transition.decoderCmdStop
  | .encoderCmdStop => Transition.encoderCmdStop
  | .sFmt .decoder output => decSFmt output
  | .sFmt .encoder output => encSFmt output
  | .sFmt .camera _ => camSFmt
  | .camGFmt => Transition.camGFmt
  | .bufDoneEos => Transition.bufDoneEos
  | .handleResolutionChanged => Transition.handleResolutionChanged
  | .handleError => Transition.handleError

/-- It acts on an event, which may come as soon as the stream has its id. -/
def Caller.isEvent : Caller → Bool
  | .handleResolutionChanged | .handleError => true
  | _ => false

/-! ## Calls in progress -/

/-- Where a call is. -/
inductive Pc
  /-- the tests still ahead -/
  | test (rest : List (Test × Branch))
  /-- about to queue `STREAM_DRAIN` -/
  | drain
  /-- in `virtio_video_state_update` -/
  | update (pc : CasPc StreamState)
  deriving DecidableEq, Repr

structure Call where
  caller : Caller
  pc : Pc
  deriving DecidableEq, Repr

/-- How far the stream is. -/
inductive Life
  /-- in `stream_idr`, before `virtio_video_state_reset` -/
  | published
  | ready
  | freed
  deriving DecidableEq, Repr

structure State where
  /-- `stream->state` -/
  state : StreamState
  life : Life
  calls : List Call
  /-- drains the device has been sent and has not answered with EOS -/
  drainsOwed : Nat
  /-- replies to `RESOURCE_QUEUE` to be processed: whether they carry EOS -/
  replies : List Bool
  /-- who has set the state, and the state it replaced -/
  writes : List (Caller × StreamState)
  deriving DecidableEq, Repr

/-- What the call does after its tests. -/
def Site.go (site : Site) : Branch → Option Pc
  | .leave => none
  | .update => some (if site.drains then .drain else .update .read)

/-- `virtio_video_state_update` gives up. -/
def isError (st : StreamState) : Bool := st = .error

/-- The call moves on, or it returns. -/
def State.moved (s : State) (c : Call) (pc : Option Pc) : State :=
  { s with calls := (pc.map fun pc => { c with pc }).toList ++ s.calls.erase c }

/-- The call sets the state or reads it again. -/
def State.swapped (s : State) (c : Call) (pc : CasPc StreamState) : State :=
  let r := casStep isError c.caller.site.newState s.state pc
  { s.moved c (r.2.map .update) with
    state := r.1
    writes := if pc = .swap s.state then (c.caller, s.state) :: s.writes else s.writes }

/-- The steps of a call whose outcome the state decides. -/
def callStep (s : State) (c : Call) : Option State :=
  if c ∈ s.calls then
    match c.pc with
    | .test [] => some (s.moved c (c.caller.site.go c.caller.site.otherwise))
    | .test ((t, b) :: rest) =>
      some (s.moved c (if t.holds s.state then c.caller.site.go b else some (.test rest)))
    | .drain => none
    | .update pc => some (s.swapped c pc)
  else none

/-- A call begins. -/
def enter (s : State) (caller : Caller) : Option State :=
  if caller ≠ .bufDoneEos ∧ (s.life = .ready ∨ caller.isEvent) then
    some { s with calls := ⟨caller, .test caller.site.tests⟩ :: s.calls }
  else none

/-- `virtio_video_cmd_stream_drain`; when a queue is not streaming or the
command is not accepted, the function returns. -/
def drain (s : State) (c : Call) (accepted : Bool) : Option State :=
  if c ∈ s.calls ∧ c.pc = .drain then
    if accepted then some { s.moved c (some (.update .read)) with drainsOwed := s.drainsOwed + 1 }
    else some (s.moved c none)
  else none

/-- The device replies to `RESOURCE_QUEUE`; with EOS it has answered a drain. -/
def reply (s : State) (eos : Bool) : State :=
  { s with replies := s.replies ++ [eos], drainsOwed := if eos then s.drainsOwed - 1 else s.drainsOwed }

/-- `virtio_video_buf_done` on the next reply. -/
def bufDone (s : State) : Option State :=
  match s.replies with
  | [] => none
  | false :: rest => some { s with replies := rest }
  | true :: rest =>
    some { s with replies := rest, calls := ⟨.bufDoneEos, .test Transition.bufDoneEos.tests⟩ :: s.calls }

/-! ## The machine -/

inductive Act
  /-- `virtio_video_state_reset` -/
  | stateReset
  | enter (caller : Caller)
  | call (c : Call)
  | drain (c : Call) (accepted : Bool)
  | reply (eos : Bool)
  | bufDone
  | free
  deriving DecidableEq, Repr

def step (s : State) (a : Act) : Option State :=
  if s.life = .freed then none
  else
    match a with
    | .stateReset => if s.life = .published then some { s with state := .idle, life := .ready } else none
    | .enter caller => enter s caller
    | .call c => callStep s c
    | .drain c accepted => drain s c accepted
    | .reply eos => some (reply s eos)
    | .bufDone => if s.life = .ready then bufDone s else none
    | .free => some { s with life := .freed }

/-- The stream when `virtio_video_stream_id_get` has published it. -/
def published : State :=
  { state := .idle, life := .published, calls := [], drainsOwed := 0, replies := [], writes := [] }

def machine : Machine State Act where
  init s := s = published
  step := step

end Transition

end Agl.VirtioVideo
