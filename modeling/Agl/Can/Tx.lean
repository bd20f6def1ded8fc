/-
The transmit side of the virtio CAN driver (`virtio_can.c`) as a machine:
the TX bookkeeping of `struct virtio_can_priv`, the TX virtqueue, and the
threads that touch them.

`virtio_can_start_xmit` (one call at a time, under the netdev TX lock) and
`virtio_can_read_tx_queue` (one at a time, under NAPI) are cut at every
access another thread can see: each test of `tx_inflight`, each stop, test
and wake of the netdev queue, each taking and dropping of `tx_lock`. What
runs under `tx_lock` is cut into the functions it calls. The outcomes of
`kzalloc` and `virtqueue_add_sgs` and the order in which the device
completes are choices of the actions.

Left out: the frame's contents (`tx_out`), the statistics, the messages
printed, the result code of a completion (it only selects a warning) and
the kick.
-/
import Mathlib.Logic.Function.Basic
import Mathlib.Data.List.Perm.Basic
import Agl.Lib.Machine

namespace Agl.VirtioCan

/-- A `struct sk_buff *` handed down by the stack. -/
abbrev Skb := Nat

/-- `enum can_state`, in its order. -/
inductive CanState
  | errorActive | errorWarning | errorPassive | busOff | stopped | sleeping
  deriving DecidableEq, Repr

/-- The value of the enumerator. -/
def CanState.val : CanState → Nat
  | .errorActive => 0 | .errorWarning => 1 | .errorPassive => 2
  | .busOff => 3 | .stopped => 4 | .sleeping => 5

/-- `struct virtio_can_tx`; `addr` stands for the address `kzalloc` gave. -/
structure TxMsg where
  addr : Nat
  prio : Nat
  putidx : Int
  deriving DecidableEq, Repr

/-- The `BUG_ON`s on the transmit path. -/
inductive BugOn
  | allocPrio | allocInflight | freePrio | freeIdx | freeInflight | xmitPutidx
  deriving DecidableEq, Repr

/-- `VIRTIO_CAN_PRIO_COUNT`. -/
def prioCount : Nat := 1

/-- `VIRTIO_CAN_ECHO_SKB_MAX`. -/
def maxEchoSkb : Nat := 128

/-- The fields of `struct virtio_can_priv`, `struct can_priv` and
`struct net_device` the transmit path uses. `tx_inflight` and `tx_limit`
have one entry, for the one priority there is. -/
structure Priv where
  canState : CanState
  echoSkbMax : Nat
  echoSkb : Int → Option Skb
  txList : List TxMsg
  txPutidxFree : List Int
  txInflight : Nat
  txLimit : Nat
  /-- `netif_queue_stopped(dev)` -/
  queueStopped : Bool

/-! ## The functions on the bookkeeping -/

/-- `virtio_can_alloc_tx_idx` -/
def allocTxIdx (p : Priv) (prio : Nat) : Except BugOn (Int × Priv) :=
  if prio ≠ 0 then .error .allocPrio
  else if p.txInflight ≥ p.echoSkbMax then .error .allocInflight
  else
    let p := { p with txInflight := p.txInflight + 1 }
    match p.txPutidxFree with
    | [] => .ok (-1, p)
    | entry :: rest => .ok (entry, { p with txPutidxFree := rest })

/-- `virtio_can_free_tx_idx`. The range test compares with an unsigned
number, so a negative index fails it too. -/
def freeTxIdx (p : Priv) (prio : Nat) (idx : Int) : Except BugOn Priv :=
  if prio ≥ prioCount then .error .freePrio
  else if idx < 0 ∨ idx ≥ p.echoSkbMax then .error .freeIdx
  else if p.txInflight = 0 then .error .freeInflight
  else .ok { p with txPutidxFree := idx :: p.txPutidxFree, txInflight := p.txInflight - 1 }

/-- The indices `0 .. n-1`. -/
def allIdx (n : Nat) : List Int := (List.range n).map Int.ofNat

/-- The skbs in the echo slots. -/
def Priv.echoed (p : Priv) : List Skb := (allIdx p.echoSkbMax).filterMap p.echoSkb

/-! ## The threads -/

inductive Holder
  | xmit | read
  deriving DecidableEq, Repr

inductive TxRet
  | ok | busy
  deriving DecidableEq, Repr

/-- Where `virtio_can_start_xmit` is. -/
inductive XmitPc
  | idle
  /-- entered; the skb is not checked yet -/
  | entry (skb : Skb)
  /-- message built; first test against `tx_limit` -/
  | test1 (skb : Skb) (addr : Nat)
  /-- "all prios full": about to stop the queue -/
  | stopBusy (skb : Skb)
  /-- second test against `tx_limit` -/
  | test2 (skb : Skb) (addr : Nat)
  /-- "normal stop": about to stop the queue -/
  | stopNormal (skb : Skb) (addr : Nat)
  | lock1 (skb : Skb) (addr : Nat)
  /-- `tx_lock` held -/
  | alloc (skb : Skb) (addr : Nat)
  /-- `tx_lock` held, index taken -/
  | link (skb : Skb) (m : TxMsg)
  /-- unlocked; `BUG_ON(putidx < 0)` and `can_put_echo_skb` -/
  | echo (skb : Skb) (m : TxMsg)
  | lock2 (skb : Skb) (m : TxMsg)
  /-- `tx_lock` held -/
  | add (skb : Skb) (m : TxMsg)
  /-- the ring did not take the message: about to stop the queue -/
  | stopFail (skb : Skb)
  /-- label `kick` -/
  | kick (skb : Skb) (ret : TxRet)
  deriving DecidableEq, Repr

/-- Where `virtio_can_read_tx_queue` is. -/
inductive ReadPc
  | idle
  /-- `tx_lock` held -/
  | get
  /-- `tx_lock` held, message taken from the ring -/
  | echo (m : TxMsg)
  /-- `tx_lock` held, echo slot emptied -/
  | unlink (m : TxMsg)
  /-- `tx_lock` held, message off `tx_list` -/
  | freeIdx (m : TxMsg)
  /-- unlocked; about to test whether the queue is stopped -/
  | test
  /-- about to wake the queue -/
  | wake
  deriving DecidableEq, Repr

/-- `virtio_can_open` and `virtio_can_close`, which rtnl serialises. -/
inductive AdminPc
  | down
  /-- controller started, queue not yet -/
  | opening
  | up
  /-- queue stopped, controller not yet -/
  | closing
  /-- controller stopped; about to `close_candev` -/
  | flushing
  deriving DecidableEq, Repr

/-- The driver, the TX virtqueue, the threads. -/
structure State extends Priv where
  txLock : Option Holder
  /-- with the device -/
  avail : List TxMsg
  /-- completed, not yet taken by the driver -/
  used : List TxMsg
  xmit : XmitPc
  read : ReadPc
  admin : AdminPc
  /-- in `virtio_can_set_mode`, before its wake -/
  restarting : Bool
  suspended : Bool
  /-- messages allocated so far -/
  kzallocs : Nat
  /-- skbs freed or looped back to the stack -/
  gone : List Skb
  /-- what the finished calls of `virtio_can_start_xmit` returned -/
  returned : List (Skb × TxRet)
  /-- a `BUG_ON` has fired; nothing runs after it -/
  bug : Option BugOn

/-- The interface is open: `ndo_open` has returned, `ndo_stop` has not begun
and the device is not detached for suspend. -/
def State.isOpen (s : State) : Prop := s.admin = .up ∧ s.suspended = false

instance (s : State) : Decidable s.isOpen := inferInstanceAs (Decidable (_ ∧ _))

/-- The messages in the TX virtqueue. -/
def State.ring (s : State) : List TxMsg := s.avail ++ s.used

/-! ## can-dev -/

/-- `can_put_echo_skb`: takes the skb over; an occupied slot keeps its own
skb and the new one is freed. -/
def canPutEchoSkb (s : State) (skb : Skb) (idx : Int) : State :=
  match s.echoSkb idx with
  | none => { s with echoSkb := Function.update s.echoSkb idx (some skb) }
  | some _ => { s with gone := skb :: s.gone }

/-- Empty an echo slot: `can_get_echo_skb` loops its skb back,
`can_free_echo_skb` frees it. -/
def takeEchoSkb (s : State) (idx : Int) : State :=
  match s.echoSkb idx with
  | none => s
  | some skb => { s with echoSkb := Function.update s.echoSkb idx none, gone := skb :: s.gone }

/-- `can_get_echo_skb` -/
def canGetEchoSkb (s : State) (idx : Int) : State := takeEchoSkb s idx

/-- `can_free_echo_skb` -/
def canFreeEchoSkb (s : State) (idx : Int) : State := takeEchoSkb s idx

/-- `close_candev`: `can_flush_echo_skb` empties every slot. -/
def closeCandev (s : State) : State :=
  { s with gone := s.echoed ++ s.gone, echoSkb := fun _ => none }

/-! ## virtio_can_start_xmit -/

/-- The steps of `virtio_can_start_xmit` whose outcome the state decides. -/
def xmitStep (s : State) : Option State :=
  match s.xmit with
  | .idle | .entry _ | .add _ _ => none
  | .test1 skb addr =>
    if s.txInflight ≥ s.txLimit then some { s with xmit := .stopBusy skb }
    else some { s with xmit := .test2 skb addr }
  | .stopBusy skb => some { s with queueStopped := true, xmit := .kick skb .busy }
  | .test2 skb addr =>
    if s.txInflight ≥ s.txLimit then some { s with xmit := .stopNormal skb addr }
    else some { s with xmit := .lock1 skb addr }
  | .stopNormal skb addr => some { s with queueStopped := true, xmit := .lock1 skb addr }
  | .lock1 skb addr =>
    if s.txLock = none then some { s with txLock := some .xmit, xmit := .alloc skb addr } else none
  | .alloc skb addr =>
    match allocTxIdx s.toPriv 0 with
    | .error b => some { s with bug := some b }
    | .ok (idx, p) => some { s with toPriv := p, xmit := .link skb ⟨addr, 0, idx⟩ }
  | .link skb m => some { s with txList := s.txList ++ [m], txLock := none, xmit := .echo skb m }
  | .echo skb m =>
    if m.putidx < 0 then some { s with bug := some .xmitPutidx }
    else some { canPutEchoSkb s skb m.putidx with xmit := .lock2 skb m }
  | .lock2 skb m =>
    if s.txLock = none then some { s with txLock := some .xmit, xmit := .add skb m } else none
  | .stopFail skb => some { s with queueStopped := true, xmit := .kick skb .busy }
  | .kick skb ret => some { s with xmit := .idle, returned := (skb, ret) :: s.returned }

/-- The stack calls `virtio_can_start_xmit` with an skb that is still its
own: a new one, or one it got back with `NETDEV_TX_BUSY`. -/
def xmitCall (s : State) (skb : Skb) : Option State :=
  if s.xmit = .idle ∧ (skb, .ok) ∉ s.returned then some { s with xmit := .entry skb } else none

/-- `can_dropped_invalid_skb`, or the driver on `CAN_ERR_FLAG`, frees the skb. -/
def xmitDrop (s : State) : Option State :=
  match s.xmit with
  | .entry skb => some { s with gone := skb :: s.gone, xmit := .kick skb .ok }
  | _ => none

/-- `kzalloc` gives a message, or none: then the call goes to `kick` with
`NETDEV_TX_OK`. -/
def xmitKzalloc (s : State) (ok : Bool) : Option State :=
  match s.xmit with
  | .entry skb =>
    if ok then some { s with kzallocs := s.kzallocs + 1, xmit := .test1 skb s.kzallocs }
    else some { s with xmit := .kick skb .ok }
  | _ => none

/-- `virtqueue_add_sgs` under `tx_lock`, and the undoing when it fails. -/
def xmitAdd (s : State) (ok : Bool) : Option State :=
  match s.xmit with
  | .add skb m =>
    if ok then some { s with avail := s.avail ++ [m], txLock := none, xmit := .kick skb .ok }
    else
      match freeTxIdx { s.toPriv with txList := s.txList.erase m } m.prio m.putidx with
      | .error b => some { s with bug := some b }
      | .ok p => some { s with toPriv := p, txLock := none, xmit := .stopFail skb }
  | _ => none

/-! ## virtio_can_read_tx_queue -/

/-- The steps of `virtio_can_read_tx_queue`. -/
def readStep (s : State) : Option State :=
  match s.read with
  | .idle => if s.txLock = none then some { s with txLock := some .read, read := .get } else none
  | .get =>
    match s.used with
    | [] => some { s with txLock := none, read := .idle }
    | m :: rest => some { s with used := rest, read := .echo m }
  | .echo m =>
    if s.canState.val < CanState.busOff.val then
      some { canGetEchoSkb s m.putidx with read := .unlink m }
    else some { canFreeEchoSkb s m.putidx with read := .unlink m }
  | .unlink m => some { s with txList := s.txList.erase m, read := .freeIdx m }
  | .freeIdx m =>
    match freeTxIdx s.toPriv m.prio m.putidx with
    | .error b => some { s with bug := some b }
    | .ok p => some { s with toPriv := p, txLock := none, read := .test }
  | .test => some { s with read := if s.queueStopped then .wake else .idle }
  | .wake => some { s with queueStopped := false, read := .idle }

/-- The device completes the message at place `i`. -/
def complete (s : State) (i : Nat) : Option State :=
  match s.avail[i]? with
  | some m => some { s with avail := s.avail.eraseIdx i, used := s.used ++ [m] }
  | none => none

/-! ## Opening, closing, restarting, bus-off -/

/-- The steps of `virtio_can_open` (`virtio_can_start`, `netif_start_queue`)
and of `virtio_can_close` (`netif_stop_queue`, `virtio_can_stop`,
`close_candev`, which waits for a pending restart). -/
def adminStep (s : State) : Option State :=
  match s.admin with
  | .down => some { s with canState := .errorActive, admin := .opening }
  | .opening => some { s with queueStopped := false, admin := .up }
  | .up => some { s with queueStopped := true, admin := .closing }
  | .closing => some { s with canState := .stopped, admin := .flushing }
  | .flushing => if s.restarting then none else some { closeCandev s with admin := .down }

/-- `virtio_can_set_mode(CAN_MODE_START)`: `virtio_can_start`, then
`netif_wake_queue`. That `can_restart` flushes the echo slots before, in
can-dev, is left out. -/
def restartStep (s : State) : Option State :=
  if s.restarting then some { s with queueStopped := false, restarting := false }
  else if s.admin = .up then some { s with canState := .errorActive, restarting := true }
  else none

/-- `virtio_can_handle_busoff` -/
def busOff (s : State) : State :=
  if s.canState.val < CanState.busOff.val then { s with canState := .busOff } else s

/-! ## Suspend and resume -/

/-- `virtio_can_del_vq`: the device is reset, the tokens are detached, the
messages are unlinked and freed. -/
def delVq (s : State) : State := { s with avail := [], used := [], txList := [] }

/-- `virtio_can_freeze`, with no transmission and no poll in progress. -/
def freeze (s : State) : Option State :=
  if s.xmit = .idle ∧ s.read = .idle ∧ (s.admin = .up ∨ s.admin = .down) ∧ s.restarting = false then
    let s := if s.admin = .up then { s with queueStopped := true, canState := .stopped } else s
    some { delVq { s with canState := .sleeping } with suspended := true }
  else none

/-- `virtio_can_restore`; `ok` says whether the virtqueues were found. -/
def restore (s : State) (ok : Bool) : Option State :=
  if ok then
    let s := { s with canState := .errorActive, suspended := false }
    some (if s.admin = .up then { s with queueStopped := false } else s)
  else some s

/-! ## The machine -/

inductive Act
  | xmitCall (skb : Skb)
  | xmitDrop
  | xmitKzalloc (ok : Bool)
  | xmit
  | xmitAdd (ok : Bool)
  | read
  | complete (i : Nat)
  | admin
  | restart
  | busOff
  | freeze
  | restore (ok : Bool)
  deriving DecidableEq, Repr

/-- One step. A suspended device can only be restored; after a `BUG_ON`
nothing runs. -/
def step (s : State) (a : Act) : Option State :=
  if s.bug.isSome then none
  else if s.suspended then
    match a with
    | .restore ok => restore s ok
    | _ => none
  else
    match a with
    | .xmitCall skb => xmitCall s skb
    | .xmitDrop => xmitDrop s
    | .xmitKzalloc ok => xmitKzalloc s ok
    | .xmit => xmitStep s
    | .xmitAdd ok => xmitAdd s ok
    | .read => readStep s
    | .complete i => complete s i
    | .admin => adminStep s
    | .restart => restartStep s
    | .busOff => some (busOff s)
    | .freeze => freeze s
    | .restore _ => none

/-- What `virtio_can_probe` leaves behind: `numFree` is the ring's
`num_free`, `indirect` the feature `VIRTIO_RING_F_INDIRECT_DESC`. -/
def probe (numFree : Nat) (indirect : Bool) : State :=
  let txSlots := if indirect then numFree else numFree >>> 1
  { canState := .stopped, echoSkbMax := maxEchoSkb, echoSkb := fun _ => none
    txList := [], txPutidxFree := allIdx maxEchoSkb, txInflight := 0
    txLimit := if maxEchoSkb > txSlots then txSlots else maxEchoSkb
    queueStopped := false, txLock := none, avail := [], used := [], xmit := .idle, read := .idle
    admin := .down, restarting := false, suspended := false, kzallocs := 0, gone := []
    returned := [], bug := none }

def machine : Machine State Act where
  init s := ∃ numFree indirect, s = probe numFree indirect
  step := step

theorem probe_init (numFree : Nat) (indirect : Bool) : machine.init (probe numFree indirect) := ⟨numFree, indirect, rfl⟩

end Agl.VirtioCan
