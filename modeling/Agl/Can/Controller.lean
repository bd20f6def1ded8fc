/-
The controller of the virtio CAN driver: `virtio_can_start` and
`virtio_can_stop` under open, close, restart, freeze and restore, the bus-off
indications of the device (`virtio_can_evind_intr`) and
`virtio_can_handle_busoff`.

The five operations follow one another. The interrupt and the poll function
run beside them, each test and each assignment a step of its own. A control
call returns with any result, or with none on a broken queue; its result is
only printed. Indications may come at any time.

Of the kernel: `netif_running` is set before `ndo_open` and cleared before
`ndo_stop`, `register_candev` leaves the carrier off, `can_bus_off` turns it
off, and a restart is made of a running interface only. Left out: the
transmit queue's state, the statistics, and a `virtio_can_restore` that fails
to find its queues, which changes nothing.
-/
import Agl.Lib.Machine
import Agl.Can.Tx

namespace Agl.VirtioCan.Controller

/-- `VIRTIO_CAN_SET_CTRL_MODE_START`, `VIRTIO_CAN_SET_CTRL_MODE_STOP` -/
inductive Msg
  | start | stop
  deriving DecidableEq, Repr

/-- The functions that call `virtio_can_start` or `virtio_can_stop`, the
first two and the fourth under the kernel's names for them. -/
inductive Caller
  | ndoOpen | doSetMode | restore | ndoStop | freeze
  deriving DecidableEq, Repr

def Caller.msg : Caller → Msg
  | .ndoOpen | .doSetMode | .restore => .start
  | .ndoStop | .freeze => .stop

/-- Where `virtio_can_start` or `virtio_can_stop` is. -/
inductive CtrlPc
  /-- in `virtio_can_send_ctrl_msg` -/
  | send
  /-- about to clear `busoff_pending` -/
  | clear
  /-- about to set `can.state` -/
  | setState
  /-- about to switch the carrier -/
  | carrier
  deriving DecidableEq, Repr

/-- The operation under way. -/
inductive Op
  | ctrl (caller : Caller) (pc : CtrlPc)
  /-- `virtio_can_freeze`, about to set `can.state` -/
  | sleep
  deriving DecidableEq, Repr

/-- Where `virtio_can_evind_intr` is with a `VIRTIO_CAN_BUSOFF_IND`. -/
inductive EvindPc
  | testPending | testState | setPending
  deriving DecidableEq, Repr

/-- Where `virtio_can_handle_busoff` is, past its test of `busoff_pending`. -/
inductive BusoffPc
  | testState | setState
  /-- about to call `can_bus_off` -/
  | canBusOff
  /-- about to allocate the error message and pass it on -/
  | receive
  deriving DecidableEq, Repr

structure State where
  /-- `can.state` -/
  canState : CanState
  busoffPending : Bool
  /-- `netif_carrier_ok` -/
  carrier : Bool
  /-- `netif_running` -/
  running : Bool
  /-- between `virtio_can_freeze` and `virtio_can_restore`: no polling -/
  suspended : Bool
  op : Option Op
  /-- the indication that `virtio_can_evind_intr` is at, by the number of STARTs acknowledged before it -/
  evind : Option (EvindPc × Nat)
  handler : Option BusoffPc
  /-- the indications in the queue; `none` is too small or of another type -/
  inds : List (Option Nat)
  /-- the last request answered with `VIRTIO_CAN_RESULT_OK` -/
  lastOk : Option Msg
  /-- STARTs acknowledged so far -/
  starts : Nat
  /-- the latest operation is a START, and is acknowledged -/
  started : Bool
  /-- an indication sent after the latest acknowledged START is processed -/
  processed : Bool
  deriving DecidableEq, Repr

/-- `priv->can.state < CAN_STATE_BUS_OFF` -/
def State.belowBusOff (s : State) : Prop := s.canState.val < CanState.busOff.val

instance (s : State) : Decidable s.belowBusOff := inferInstanceAs (Decidable (_ < _))

/-! ## The operations -/

/-- An operation begins. -/
def enter (s : State) (caller : Caller) : Option State :=
  if s.op = none then
    let s := { s with started := false }
    match caller with
    | .ndoOpen =>
      if s.suspended ∨ s.running then none else some { s with running := true, op := some (.ctrl .ndoOpen .send) }
    | .doSetMode =>
      if s.suspended ∨ ¬ s.running then none else some { s with op := some (.ctrl .doSetMode .send) }
    | .ndoStop =>
      if s.suspended ∨ ¬ s.running then none
      else some { s with running := false, op := some (.ctrl .ndoStop .send) }
    | .freeze =>
      -- `napi_disable` waits for the poll function
      if s.suspended ∨ s.handler ≠ none then none
      else some { s with suspended := true, op := some (if s.running then .ctrl .freeze .send else .sleep) }
    | .restore =>
      if ¬ s.suspended then none
      else if s.running then some { s with canState := .errorActive, op := some (.ctrl .restore .send) }
      else some { s with canState := .errorActive, suspended := false }
  else none

/-- The control call returns; `ok` when the device has answered OK. -/
def reply (s : State) (ok : Bool) : Option State :=
  match s.op with
  | some (.ctrl caller .send) =>
    let s := { s with op := some (.ctrl caller .clear) }
    if ok then
      match caller.msg with
      | .start =>
        some { s with lastOk := some .start, starts := s.starts + 1, started := true, processed := false }
      | .stop => some { s with lastOk := some .stop }
    else some s
  | _ => none

/-- What follows `virtio_can_start` or `virtio_can_stop`. -/
def Caller.next : Caller → Option Op
  | .freeze => some .sleep
  | _ => none

/-- The next step of the operation. -/
def opStep (s : State) : Option State :=
  match s.op with
  | some (.ctrl caller .clear) => some { s with busoffPending := false, op := some (.ctrl caller .setState) }
  | some (.ctrl caller .setState) => some { s with
      canState := if caller.msg = .start then .errorActive else .stopped
      op := some (.ctrl caller .carrier) }
  | some (.ctrl caller .carrier) => some { s with
      carrier := caller.msg = .start
      op := caller.next
      suspended := if caller = .restore then false else s.suspended }
  | some .sleep => some { s with canState := .sleeping, inds := [], op := none }
  | _ => none

/-! ## The indications -/

/-- `virtio_can_evind_intr` takes an indication. -/
def getBuf (s : State) : Option State :=
  match s.evind, s.inds with
  | none, ind :: rest => some { s with evind := ind.map (.testPending, ·), inds := rest }
  | _, _ => none

/-- The interrupt is done with an indication. -/
def State.putback (s : State) (n : Nat) : State :=
  { s with evind := none, processed := s.processed || decide (n = s.starts) }

def evindStep (s : State) : Option State :=
  match s.evind with
  | none => none
  | some (.testPending, n) =>
    if s.busoffPending then some (s.putback n) else some { s with evind := some (.testState, n) }
  | some (.testState, n) =>
    if s.belowBusOff then some { s with evind := some (.setPending, n) } else some (s.putback n)
  | some (.setPending, n) => some { s.putback n with busoffPending := true }

/-- `virtio_can_handle_busoff` up to `netif_receive_skb`. -/
def busoffStep (s : State) : Option State :=
  match s.handler with
  | none => if s.busoffPending ∧ ¬ s.suspended then some { s with handler := some .testState } else none
  | some .testState => some { s with handler := some (if s.belowBusOff then .setState else .receive) }
  | some .setState => some { s with canState := .busOff, handler := some .canBusOff }
  | some .canBusOff => some { s with carrier := false, handler := some .receive }
  | some .receive => none

/-- Its end; `ok` when the message was allocated and received. -/
def receive (s : State) (ok : Bool) : Option State :=
  if s.handler = some .receive then
    some { s with handler := none, busoffPending := if ok then false else s.busoffPending }
  else none

/-! ## The machine -/

inductive Act
  | enter (caller : Caller)
  | reply (ok : Bool)
  | op
  /-- the device sends a `VIRTIO_CAN_BUSOFF_IND`, or something else -/
  | indicate (busoff : Bool)
  | getBuf
  | evind
  | busoff
  | receive (ok : Bool)
  deriving DecidableEq, Repr

def step (s : State) : Act → Option State
  | .enter caller => enter s caller
  | .reply ok => reply s ok
  | .op => opStep s
  | .indicate busoff => some { s with inds := s.inds ++ [if busoff then some s.starts else none] }
  | .getBuf => getBuf s
  | .evind => evindStep s
  | .busoff => busoffStep s
  | .receive ok => receive s ok

/-- After `virtio_can_probe`. -/
def probe : State :=
  { canState := .stopped, busoffPending := false, carrier := false, running := false, suspended := false
    op := none, evind := none, handler := none, inds := []
    lastOk := none, starts := 0, started := false, processed := false }

def machine : Machine State Act where
  init s := s = probe
  step := step

/-! ## What should hold -/

/-- With no operation under way and no bus-off being handled, the driver's
state is that of the controller and of the carrier. -/
def Matches (s : State) : Prop :=
  s.op = none → s.handler = none →
    (s.belowBusOff → s.running = true ∧ s.lastOk = some .start) ∧ (s.carrier = true ↔ s.belowBusOff)

instance (s : State) : Decidable (Matches s) := inferInstanceAs (Decidable (_ → _ → _))

/-- With no operation under way, an indication sent since the latest START
was acknowledged and processed is known to the driver. -/
def BusoffKnown (s : State) : Prop :=
  s.op = none → s.started = true → s.processed = true → s.busoffPending = true ∨ s.canState = .busOff

instance (s : State) : Decidable (BusoffKnown s) := inferInstanceAs (Decidable (_ → _ → _ → _))

end Agl.VirtioCan.Controller
