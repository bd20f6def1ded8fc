/-
CAN frames between the stack and the device: the message
`virtio_can_start_xmit` makes of a frame (`struct virtio_can_tx_out`), and
what `virtio_can_read_rx_queue` makes of a message (`struct virtio_can_rx`,
which is laid out the same way).

A buffer of the RX queue is memory; the device says how many bytes it has
written. The messages printed are data. Left out on the transmit side is
what happens once the message is built (`Agl.Can.Tx` has it).
-/
import Agl.Can.Tx
import Agl.Lib.Words

namespace Agl.VirtioCan

/-! ## Constants -/

def canEffFlag : UInt32 := 0x80000000
def canRtrFlag : UInt32 := 0x40000000
def canErrFlag : UInt32 := 0x20000000
def canSffMask : UInt32 := 0x000007FF
def canEffMask : UInt32 := 0x1FFFFFFF

/-- `VIRTIO_CAN_FLAGS_EXTENDED` -/
def flagsExtended : UInt32 := 0x8000
/-- `VIRTIO_CAN_FLAGS_FD` -/
def flagsFd : UInt32 := 0x4000
/-- `VIRTIO_CAN_FLAGS_RTR` -/
def flagsRtr : UInt32 := 0x2000

def canKnownFlags : UInt32 := flagsExtended ||| flagsFd ||| flagsRtr

/-- `VIRTIO_CAN_F_CAN_CLASSIC` -/
def fCanClassic : Nat := 0
/-- `VIRTIO_CAN_F_CAN_FD` -/
def fCanFd : Nat := 1
/-- `VIRTIO_CAN_F_RTR_FRAMES` -/
def fRtrFrames : Nat := 3

/-- `VIRTIO_CAN_TX` -/
def virtioCanTx : UInt16 := 0x0001
/-- `VIRTIO_CAN_RX` -/
def virtioCanRx : UInt16 := 0x0101

/-- The offset of `sdu` in both messages. -/
def headerSize : Nat := 12

/-- `CANFD_MAX_DLEN`, `CAN_MAX_DLEN` -/
def maxDlen (fd : Bool) : Nat := if fd then 64 else 8

/-! ## Frames -/

/-- The `struct can_frame` or `struct canfd_frame` in an skb, which of the
two `can_is_canfd_skb` tells. -/
structure Frame where
  fd : Bool
  canId : UInt32
  len : UInt8
  data : List UInt8
  size : data.length = maxDlen fd
  deriving DecidableEq, Repr

/-- `alloc_can_skb`, `alloc_canfd_skb`: a zeroed frame. -/
def Frame.alloc (fd : Bool) : Frame where
  fd
  canId := 0
  len := 0
  data := List.replicate (maxDlen fd) 0
  size := List.length_replicate

/-- `memcpy(dst, src, n)`; none when it leaves one of the arrays. -/
def memcpy (dst src : List UInt8) (n : Nat) : Option (List UInt8) :=
  if n ≤ src.length ∧ n ≤ dst.length then some (src.take n ++ dst.drop n) else none

theorem memcpy_eq {dst src : List UInt8} {n : Nat} (hs : n ≤ src.length) (hd : n ≤ dst.length) :
    memcpy dst src n = some (src.take n ++ dst.drop n) := if_pos ⟨hs, hd⟩

theorem memcpy_length {dst src l : List UInt8} {n : Nat} (h : memcpy dst src n = some l) :
    l.length = dst.length := by
  unfold memcpy at h
  split at h
  · next hn =>
    cases h
    simp only [List.length_append, List.length_take, List.length_drop]
    omega
  · cases h

/-- `memcpy(cf->data, src, n)` -/
def Frame.copyIn (cf : Frame) (src : List UInt8) (n : Nat) : Option Frame :=
  match h : memcpy cf.data src n with
  | none => none
  | some data => some { cf with data, size := (memcpy_length h).trans cf.size }

/-! ## Transmission -/

/-- `struct virtio_can_tx_out` -/
structure TxOut where
  msgType : UInt16
  reserved : UInt16
  flags : UInt32
  canId : UInt32
  sdu : List UInt8
  deriving DecidableEq, Repr

/-- As it lies in memory. -/
def TxOut.bytes (t : TxOut) : List UInt8 :=
  le16Bytes t.msgType ++ le16Bytes t.reserved ++ le32Bytes t.flags ++ le32Bytes t.canId ++ t.sdu

/-- What becomes of a frame on its way to the message. -/
inductive Built
  /-- `can_dropped_invalid_skb` -/
  | invalid
  /-- an error frame; counted in `tx_dropped` -/
  | errorFrame
  | noMem
  /-- `memcpy` leaves an array -/
  | overrun
  /-- the message, and how many bytes of `sdu` are sent -/
  | message (out : TxOut) (len : Nat)
  deriving DecidableEq, Repr

/-- The flags of the message. -/
def txFlags (cf : Frame) : UInt32 :=
  (if cf.canId &&& canEffFlag ≠ 0 then flagsExtended else 0) |||
    (if cf.canId &&& canRtrFlag ≠ 0 then flagsRtr else 0) ||| (if cf.fd then flagsFd else 0)

/-- `virtio_can_start_xmit` up to the message; `dropped` is
`can_dropped_invalid_skb` of the kernel, `mem` says whether there is memory. -/
def buildTx (dropped : Frame → Bool) (mem : Bool) (cf : Frame) : Built :=
  if dropped cf then .invalid
  else if cf.canId &&& canErrFlag ≠ 0 then .errorFrame
  else if mem = false then .noMem
  else
    let sdu : List UInt8 := List.replicate 64 0
    let len := min cf.len.toNat 64
    let out := TxOut.mk virtioCanTx 0 (txFlags cf) (cf.canId &&& canEffMask) sdu
    if txFlags cf &&& flagsRtr = 0 then
      match memcpy sdu cf.data len with
      | none => .overrun
      | some sdu => .message { out with sdu } len
    else .message out len

/-- The bytes the device can read: `sg_init_one(.., hdr_size + len)`. -/
def TxOut.sent (t : TxOut) (len : Nat) : List UInt8 := t.bytes.take (headerSize + len)

/-! ## Reception -/

/-- What decides about a message besides its bytes. -/
structure RxEnv where
  /-- `virtio_has_feature` -/
  features : Nat → Bool
  canState : CanState
  /-- `alloc_can_skb` or `alloc_canfd_skb` has memory -/
  skb : Bool

/-- Why a message is dropped, with what the printed text shows. -/
inductive RxDrop
  | tooSmall
  | notActive
  | unknownMsgType (msgType : UInt16)
  | invalidFlags (canId flags : UInt32)
  | rtrNotNegotiated (canId : UInt32)
  | rtrWithFd (canId : UInt32)
  | rtrLen (canId : UInt32)
  | fdNotNegotiated (canId : UInt32)
  | classicNotNegotiated (canId : UInt32)
  | noSkb
  deriving DecidableEq, Repr

/-- The format of the message printed. -/
def RxDrop.text : RxDrop → String
  | .tooSmall => "RX: Message too small\n"
  | .notActive => "%s(): Controller not active\n"
  | .unknownMsgType _ => "RX: Got unknown msg_type %04x\n"
  | .invalidFlags _ _ => "RX: CAN Id 0x%08x: Invalid flags 0x%x\n"
  | .rtrNotNegotiated _ => "RX: CAN Id 0x%08x: RTR not negotiated\n"
  | .rtrWithFd _ => "RX: CAN Id 0x%08x: RTR with FD not possible\n"
  | .rtrLen _ => "RX: CAN Id 0x%08x: RTR with len != 0\n"
  | .fdNotNegotiated _ => "RX: CAN Id 0x%08x: FD not negotiated\n"
  | .classicNotNegotiated _ => "RX: CAN Id 0x%08x: classic not negotiated\n"
  | .noSkb => "RX: No skb available\n"

/-- Is it counted in `rx_dropped`? -/
def RxDrop.counted : RxDrop → Bool
  | .tooSmall | .notActive | .unknownMsgType _ => false
  | _ => true

/-- The identifier, extended or not. -/
def rxId (flags canId : UInt32) : UInt32 :=
  if flags &&& flagsExtended ≠ 0 then canId &&& canEffMask ||| canEffFlag else canId &&& canSffMask

/-- The RTR branch, which changes identifier and length. -/
def rxRtr (env : RxEnv) (flags canId len : UInt32) : Except RxDrop (UInt32 × UInt32) :=
  if flags &&& flagsRtr ≠ 0 then
    if env.features fRtrFrames = false then .error (.rtrNotNegotiated canId)
    else if flags &&& flagsFd ≠ 0 then .error (.rtrWithFd canId)
    else if len > 0xF then .error (.rtrLen canId)
    else .ok (canId ||| canRtrFlag, if len > 0x8 then 0x8 else len)
  else .ok (canId, len)

/-- The FD and the classic branch: the length and the skb. -/
def rxAlloc (env : RxEnv) (flags canId len : UInt32) : Except RxDrop (UInt32 × Frame) :=
  if flags &&& flagsFd ≠ 0 then
    if env.features fCanFd = false then .error (.fdNotNegotiated canId)
    else if env.skb = false then .error .noSkb
    else .ok (if len > 64 then 64 else len, .alloc true)
  else
    if env.features fCanClassic = false then .error (.classicNotNegotiated canId)
    else if env.skb = false then .error .noSkb
    else .ok (if len > 8 then 8 else len, .alloc false)

/-- `can_rx->sdu` -/
def rxSdu (m : Mem) : List UInt8 := (List.range 64).map fun i => m (headerSize + i)

/-- The frame filled in; none when `memcpy` leaves an array. -/
def rxFill (m : Mem) (flags canId len : UInt32) (cf : Frame) : Option Frame :=
  let cf := { cf with canId, len := len.toUInt8 }
  if flags &&& flagsRtr = 0 then cf.copyIn (rxSdu m) len.toNat else some cf

/-- The checks of `virtio_can_read_rx_queue` on a message of `len` bytes. -/
def rxFrame (env : RxEnv) (m : Mem) (len : UInt32) : Except RxDrop (Option Frame) :=
  let flags := m.le32 4
  if len.toNat < headerSize then .error .tooSmall
  else if env.canState.val ≥ CanState.errorPassive.val then .error .notActive
  else if m.le16 0 ≠ virtioCanRx then .error (.unknownMsgType (m.le16 0))
  else if flags &&& ~~~canKnownFlags ≠ 0 then .error (.invalidFlags (m.le32 8) flags)
  else do
    let (canId, len) ← rxRtr env flags (rxId flags (m.le32 8)) (len - 12)
    let (len, cf) ← rxAlloc env flags canId len
    .ok (rxFill m flags canId len cf)

/-- The counters of `struct net_device_stats` for received frames. -/
structure RxStats where
  rxPackets : Nat
  rxBytes : Nat
  rxDropped : Nat
  deriving DecidableEq, Repr

/-- What a call of `virtio_can_read_rx_queue` does. -/
structure RxResult where
  ret : Nat
  stats : RxStats
  /-- handed to `netif_receive_skb` -/
  delivered : Option Frame
  log : Option RxDrop
  /-- the buffer is added to the virtqueue again -/
  putback : Bool
  deriving DecidableEq, Repr

/-- The counters after `netif_receive_skb`. -/
def countRx (flags : UInt32) (cf : Frame) (taken : Bool) (stats : RxStats) : RxStats :=
  { stats with
    rxPackets := stats.rxPackets + if taken then 1 else 0
    rxBytes := stats.rxBytes + if taken ∧ flags &&& flagsRtr = 0 then cf.len.toNat else 0 }

/-- `virtio_can_read_rx_queue`; `buf` is what `virtqueue_get_buf` gives,
`taken` whether `netif_receive_skb` returns `NET_RX_SUCCESS`. None when
memory outside the frame or the message is used. -/
def readRxQueue (env : RxEnv) (taken : Bool) (stats : RxStats) (buf : Option (Mem × UInt32)) : Option RxResult :=
  match buf with
  | none => some ⟨0, stats, none, none, false⟩
  | some (m, len) =>
    match rxFrame env m len with
    | .error d =>
      some ⟨1, { stats with rxDropped := stats.rxDropped + if d.counted then 1 else 0 }, none, some d, true⟩
    | .ok none => none
    | .ok (some cf) => some ⟨1, countRx (m.le32 4) cf taken stats, some cf, none, true⟩

end Agl.VirtioCan
