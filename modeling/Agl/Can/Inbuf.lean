/-
The input buffers of the virtio CAN driver: `rpkt` on the RX queue, `ipkt`
on the indication queue, from `virtio_can_populate_vqs` through the two
handlers to `virtio_can_del_vq`, over any number of suspend cycles.

The handlers put a buffer back with `virtio_can_add_inbuf` whatever they
find in it, and do not look at the result. What they make of the contents
is `readRxQueue` and `evindCheck`.

A virtqueue refuses a buffer only for want of a descriptor. Left out: NAPI
scheduling (a poll may start at any time NAPI is enabled, with any quota),
`busoff_pending` and the controller state (a choice of each call), and the
return codes nobody reads.
-/
import Agl.Can.FrameFacts
import Agl.Lib.Descriptors

namespace Agl.VirtioCan

/-- `ARRAY_SIZE(priv->rpkt)` -/
def rpktCount : Nat := 128

/-- `ARRAY_SIZE(priv->ipkt)` -/
def ipktCount : Nat := 1

/-! ## A queue of input buffers -/

/-- A used buffer: its index in `rpkt` or `ipkt`, its memory, the length the
device reports. -/
structure UsedBuf where
  buf : Nat
  mem : Mem
  len : UInt32

/-- A virtqueue whose buffers the device fills. -/
structure InQueue where
  size : Nat
  /-- the buffers added and not yet returned -/
  ring : Ring Nat
  /-- completed, not yet taken by the driver -/
  used : List UsedBuf

/-- A new virtqueue. -/
def InQueue.fresh (size : Nat) : InQueue := ⟨size, .fresh size, []⟩

/-- `virtio_can_add_inbuf`: the free descriptors left, or `-ENOSPC`. -/
def addInbuf (vq : InQueue) (buf : Nat) : Int × InQueue :=
  match vq.ring.add buf 1 with
  | none => (-28, vq)
  | some ring => (ring.numFree, { vq with ring })

/-- `virtqueue_get_buf` -/
def getBuf (vq : InQueue) : Option (UsedBuf × InQueue) :=
  match vq.used with
  | [] => none
  | u :: rest => some (u, { vq with used := rest, ring := vq.ring.get u.buf })

/-- The device fills a buffer that lies in the queue. -/
def deviceUses (vq : InQueue) (u : UsedBuf) : Option InQueue :=
  if u.buf ∈ vq.ring.bufs ∧ u.buf ∉ vq.used.map (·.buf) then some { vq with used := vq.used ++ [u] } else none

/-! ## Event indications -/

/-- `VIRTIO_CAN_BUSOFF_IND` -/
def busoffInd : UInt16 := 0x0301

/-- Why an indication is not looked at. -/
inductive EvindDrop
  | tooSmall
  | unknownMsgType (msgType : UInt16)
  deriving DecidableEq, Repr

/-- The format of the message printed. -/
def EvindDrop.text : EvindDrop → String
  | .tooSmall => "Evind: Message too small\n"
  | .unknownMsgType _ => "Evind: Got unknown msg_type %04x\n"

/-- The checks of `virtio_can_evind_intr`; `sizeof(struct virtio_can_event_ind)` is 2. -/
def evindCheck (m : Mem) (len : UInt32) : Except EvindDrop Unit :=
  if len < 2 then .error .tooSmall
  else if m.le16 0 ≠ busoffInd then .error (.unknownMsgType (m.le16 0))
  else .ok ()

/-! ## The threads -/

/-- Where `virtio_can_rx_poll` is. -/
inductive RxPc
  | idle
  /-- the test of the loop -/
  | loop (work quota : Nat)
  /-- in `virtio_can_read_rx_queue`, with a buffer -/
  | read (work quota : Nat) (u : UsedBuf)
  /-- label `putback` -/
  | putback (work quota buf : Nat)

/-- Where `virtio_can_evind_intr` is. -/
inductive IndPc
  | idle
  | read (u : UsedBuf)
  /-- label `putback` -/
  | putback (buf : Nat)

/-- Where the driver is between probe, suspend and resume. -/
inductive Life
  /-- `virtio_can_populate_vqs`, in the first loop -/
  | fillRx (idx : Nat)
  /-- `virtio_can_populate_vqs`, in the second loop -/
  | fillInd (idx : Nat)
  /-- populated; NAPI is not enabled yet -/
  | populated
  | up
  /-- `virtio_can_freeze` has disabled NAPI -/
  | freezing
  /-- `virtio_can_del_vq`, detaching from the indication queue -/
  | detachInd
  /-- `virtio_can_del_vq`, detaching from the RX queue -/
  | detachRx
  /-- suspended, without virtqueues -/
  | down
  deriving DecidableEq, Repr

structure InbufState where
  rx : InQueue
  ind : InQueue
  poll : RxPc
  evind : IndPc
  life : Life
  stats : RxStats
  /-- the messages printed -/
  rxLog : List RxDrop
  indLog : List EvindDrop

/-- The device may use buffers, and interrupts are delivered. -/
def Life.live : Life → Bool
  | .fillRx _ | .fillInd _ | .populated | .up | .freezing => true
  | .detachInd | .detachRx | .down => false

/-- The buffer `virtio_can_read_rx_queue` is processing. -/
def InbufState.rxHeld (s : InbufState) : List Nat :=
  match s.poll with
  | .read _ _ u => [u.buf]
  | .putback _ _ buf => [buf]
  | _ => []

/-- The buffer `virtio_can_evind_intr` is processing. -/
def InbufState.indHeld (s : InbufState) : List Nat :=
  match s.evind with
  | .read u => [u.buf]
  | .putback buf => [buf]
  | .idle => []

/-! ## The steps -/

/-- `virtio_can_rx_poll` and `virtio_can_read_rx_queue`. -/
def pollStep (s : InbufState) (env : RxEnv) (taken : Bool) : Option InbufState :=
  match s.poll with
  | .idle => none
  | .loop work quota =>
    if work < quota then
      match getBuf s.rx with
      | none => some { s with poll := .idle }
      | some (u, rx) => some { s with rx, poll := .read work quota u }
    else some { s with poll := .idle }
  | .read work quota u =>
    match readRxQueue env taken s.stats (some (u.mem, u.len)) with
    | none => none
    | some r =>
      let s := { s with stats := r.stats, rxLog := s.rxLog ++ r.log.toList }
      if r.putback then some { s with poll := .putback work quota u.buf }
      else some { s with poll := .loop (work + 1) quota }
  | .putback work quota buf => some { s with rx := (addInbuf s.rx buf).2, poll := .loop (work + 1) quota }

/-- `virtio_can_evind_intr` -/
def indStep (s : InbufState) : InbufState :=
  match s.evind with
  | .idle =>
    match getBuf s.ind with
    | none => s
    | some (u, ind) => { s with ind, evind := .read u }
  | .read u =>
    match evindCheck u.mem u.len with
    | .error d => { s with indLog := s.indLog ++ [d], evind := .putback u.buf }
    | .ok () => { s with evind := .putback u.buf }
  | .putback buf => { s with ind := (addInbuf s.ind buf).2, evind := .idle }

/-- `virtio_can_populate_vqs` -/
def populateStep (s : InbufState) : Option InbufState :=
  match s.life with
  | .fillRx idx =>
    if idx < rpktCount then
      if (addInbuf s.rx idx).1 < 0 then some { s with life := .fillInd 0 }
      else some { s with rx := (addInbuf s.rx idx).2, life := .fillRx (idx + 1) }
    else some { s with life := .fillInd 0 }
  | .fillInd idx =>
    if idx < ipktCount then
      if (addInbuf s.ind idx).1 < 0 then some { s with life := .populated }
      else some { s with ind := (addInbuf s.ind idx).2, life := .fillInd (idx + 1) }
    else some { s with life := .populated }
  | _ => none

/-- `virtio_can_freeze`: `napi_disable` waits for the poll to end, the reset
of the device for its interrupt handler. -/
def freezeStep (s : InbufState) : Option InbufState :=
  match s.life, s.poll, s.evind with
  | .up, .idle, _ => some { s with life := .freezing }
  | .freezing, _, .idle => some { s with life := .detachInd }
  | .detachInd, _, _ =>
    match s.ind.ring.detach with
    | none => some { s with life := .detachRx }
    | some (_, ring) => some { s with ind := { s.ind with ring } }
  | .detachRx, _, _ =>
    match s.rx.ring.detach with
    | none => some { s with life := .down }
    | some (_, ring) => some { s with rx := { s.rx with ring } }
  | _, _, _ => none

inductive InbufAct
  | populate
  /-- `napi_enable` -/
  | napiEnable
  /-- `virtio_can_rx_poll` is called; `busoff` is what `virtio_can_handle_busoff` returns -/
  | pollStart (quota : Nat) (busoff : Bool)
  | poll (env : RxEnv) (taken : Bool)
  | evind
  | rxMessage (u : UsedBuf)
  | indication (u : UsedBuf)
  | freeze
  /-- `virtio_can_restore`: the sizes of the virtqueues found, if any -/
  | restore (sizes : Option (Nat × Nat))

def inbufStep (s : InbufState) : InbufAct → Option InbufState
  | .populate => populateStep s
  | .napiEnable => if s.life = .populated then some { s with life := .up } else none
  | .pollStart quota busoff =>
    match s.life, s.poll with
    | .up, .idle => some { s with poll := .loop busoff.toNat quota }
    | _, _ => none
  | .poll env taken => pollStep s env taken
  | .evind => if s.life.live then some (indStep s) else none
  | .rxMessage u => if s.life.live then (deviceUses s.rx u).map fun rx => { s with rx } else none
  | .indication u => if s.life.live then (deviceUses s.ind u).map fun ind => { s with ind } else none
  | .freeze => freezeStep s
  | .restore sizes =>
    match s.life, sizes with
    | .down, none => some s
    | .down, some (rx, ind) => some { s with rx := .fresh rx, ind := .fresh ind, life := .fillRx 0 }
    | _, _ => none

/-- `virtio_can_probe` has found the virtqueues. -/
def inbufProbe (rx ind : Nat) : InbufState where
  rx := .fresh rx
  ind := .fresh ind
  poll := .idle
  evind := .idle
  life := .fillRx 0
  stats := ⟨0, 0, 0⟩
  rxLog := []
  indLog := []

def inbufMachine : Machine InbufState InbufAct where
  init s := ∃ rx ind, s = inbufProbe rx ind
  step := inbufStep

/-! ## What is conserved -/

/-- How many `rpkt` buffers `virtio_can_populate_vqs` has added for the
current virtqueues; none while they are being detached. -/
def Life.rxAdded (size : Nat) : Life → Option Nat
  | .fillRx idx => some idx
  | .fillInd _ | .populated | .up | .freezing | .detachInd => some (min rpktCount size)
  | .detachRx => none
  | .down => some 0

/-- The same of the `ipkt` buffers. -/
def Life.indAdded (size : Nat) : Life → Option Nat
  | .fillRx _ => some 0
  | .fillInd idx => some idx
  | .populated | .up | .freezing => some (min ipktCount size)
  | .detachInd => none
  | .detachRx | .down => some 0

/-- Each buffer added is in its virtqueue exactly once or held by its
handler; none is lost, none is there twice. -/
structure Conserved (s : InbufState) : Prop where
  rxOnce : (s.rx.ring.bufs ++ s.rxHeld).Nodup
  indOnce : (s.ind.ring.bufs ++ s.indHeld).Nodup
  rxAll : ∀ n, s.life.rxAdded s.rx.size = some n → (s.rx.ring.bufs ++ s.rxHeld).Perm (List.range n)
  indAll : ∀ n, s.life.indAdded s.ind.size = some n → (s.ind.ring.bufs ++ s.indHeld).Perm (List.range n)

/-! ## One queue -/

/-- The buffers `0 .. n-1` are in the queue or held; those used are in it. -/
structure QueueInv (vq : InQueue) (held : List Nat) (n : Nat) : Prop where
  sized : vq.ring.Sized vq.size
  one : ∀ e ∈ vq.ring.held, e.2 = 1
  all : (vq.ring.bufs ++ held).Perm (List.range n)
  fits : n ≤ vq.size
  used : (vq.used.map (·.buf)).Nodup
  inside : ∀ u ∈ vq.used, u.buf ∈ vq.ring.bufs

namespace QueueInv

variable {vq vq' : InQueue} {held : List Nat} {n buf : Nat} {u : UsedBuf}

theorem fresh (size : Nat) : QueueInv (.fresh size) [] 0 where
  sized := Ring.sized_fresh
  one _ he := by cases he
  all := .refl _
  fits := Nat.zero_le _
  used := List.nodup_nil
  inside _ hu := by cases hu

theorem nodup (h : QueueInv vq held n) : (vq.ring.bufs ++ held).Nodup := h.all.nodup_iff.mpr List.nodup_range

theorem deviceUses (h : QueueInv vq held n) (hu : deviceUses vq u = some vq') :
    QueueInv vq' held n ∧ vq'.size = vq.size := by
  unfold VirtioCan.deviceUses at hu
  split at hu
  · next hc =>
    cases hu
    refine ⟨{ h with used := ?_, inside := ?_ }, rfl⟩
    · rw [List.map_append, List.map_cons, List.map_nil]
      exact List.nodup_append.mpr ⟨h.used, by simp, fun a ha b hb hab =>
        hc.2 (List.mem_singleton.mp hb ▸ hab ▸ ha)⟩
    · intro v hv
      rcases List.mem_append.mp hv with hv | hv
      · exact h.inside v hv
      · rw [List.mem_singleton.mp hv]
        exact hc.1
  · cases hu

/-- A buffer goes from the queue into the hand. -/
theorem getBuf (h : QueueInv vq [] n) (hg : getBuf vq = some (u, vq')) :
    QueueInv vq' [u.buf] n ∧ vq'.size = vq.size := by
  unfold VirtioCan.getBuf at hg
  split at hg
  · cases hg
  · next u' rest hused =>
    cases hg
    have hin := h.inside u (by rw [hused]; exact List.mem_cons_self)
    have hperm := Ring.bufs_get hin
    have hnodup := h.used
    rw [hused] at hnodup
    obtain ⟨hnot, hrest⟩ := List.nodup_cons.mp hnodup
    refine ⟨⟨h.sized.get _, fun e he => h.one e (Ring.mem_held_get he), ?_, h.fits, hrest, ?_⟩, rfl⟩
    · have hall := h.all
      rw [List.append_nil] at hall
      exact (List.perm_append_singleton _ _).trans (hperm.symm.trans hall)
    · intro v hv
      have hv' := h.inside v (by rw [hused]; exact List.mem_cons_of_mem _ hv)
      rcases List.mem_cons.mp (hperm.mem_iff.mp hv') with heq | hmem
      · exact absurd (List.mem_map.mpr ⟨v, hv, heq⟩) hnot
      · exact hmem

/-- How many descriptors are free. -/
theorem numFree (h : QueueInv vq held n) : vq.ring.numFree + n = vq.size + held.length := by
  have hfree := h.sized.numFree_of_one h.one
  have hlen := h.all.length_eq
  rw [List.length_append, List.length_range] at hlen
  omega

/-- With nothing added nothing is held. -/
theorem held_nil (h : QueueInv vq held 0) : held = [] := by
  have hlen := h.all.length_eq
  rw [List.length_append, List.length_range] at hlen
  exact List.length_eq_zero_iff.mp (by omega)

/-- What a successful `virtio_can_add_inbuf` leaves. -/
theorem add {ring : Ring Nat} {m : Nat} {held' : List Nat} (h : QueueInv vq held n)
    (ha : vq.ring.add buf 1 = some ring) (hall : (vq.ring.bufs ++ [buf] ++ held').Perm (List.range m))
    (hm : m ≤ vq.size) : QueueInv { vq with ring } held' m := by
  have hbufs := Ring.bufs_add ha
  refine ⟨h.sized.add ha, ?_, ?_, hm, h.used, fun u hu => ?_⟩
  · obtain ⟨-, rfl⟩ := Ring.add_cases ha
    intro e he
    rcases List.mem_append.mp he with he | he
    · exact h.one e he
    · rw [List.mem_singleton.mp he]
  · rw [hbufs]
    exact hall
  · rw [hbufs]
    exact List.mem_append_left _ (h.inside u hu)

/-- A buffer put back is not refused: its own descriptor is free. -/
theorem putBack (h : QueueInv vq [buf] n) :
    0 ≤ (addInbuf vq buf).1 ∧ QueueInv (addInbuf vq buf).2 [] n ∧ (addInbuf vq buf).2.size = vq.size := by
  have hfree := h.numFree
  have hfits := h.fits
  unfold addInbuf
  split
  · next hnone =>
    have := Ring.add_eq_none_iff.mp hnone
    simp only [List.length_cons, List.length_nil] at hfree
    omega
  · next ring ha =>
    refine ⟨Int.natCast_nonneg _, h.add ha ?_ h.fits, rfl⟩
    rw [List.append_nil]
    exact h.all

/-- The next buffer of `virtio_can_populate_vqs`: refused when the queue is
full, else added. -/
theorem fill (h : QueueInv vq [] n) :
    ((addInbuf vq n).1 < 0 ∧ n = vq.size) ∨
      (¬ (addInbuf vq n).1 < 0 ∧ QueueInv (addInbuf vq n).2 [] (n + 1) ∧ (addInbuf vq n).2.size = vq.size) := by
  have hfree := h.numFree
  have hfits := h.fits
  simp only [List.length_nil] at hfree
  unfold addInbuf
  split
  · next hnone =>
    have := Ring.add_eq_none_iff.mp hnone
    exact .inl ⟨by simp, by omega⟩
  · next ring ha =>
    obtain ⟨hle, -⟩ := Ring.add_cases ha
    refine .inr ⟨by simp, h.add ha ?_ (by omega), rfl⟩
    have hall := h.all
    rw [List.append_nil] at hall ⊢
    rw [List.range_succ]
    exact hall.append_right _

end QueueInv

/-! ## The two queues while the driver runs -/

/-- The queues hold what has been added, and only an enabled NAPI polls. -/
structure LiveInv (s : InbufState) : Prop where
  rx : ∀ n, s.life.rxAdded s.rx.size = some n → QueueInv s.rx s.rxHeld n
  ind : ∀ n, s.life.indAdded s.ind.size = some n → QueueInv s.ind s.indHeld n
  poll : s.life ≠ .up → s.poll = .idle
  rxIdx : ∀ idx, s.life = .fillRx idx → idx ≤ rpktCount
  indIdx : ∀ idx, s.life = .fillInd idx → idx ≤ ipktCount

/-- No handler runs; what is detached is in no queue. -/
structure DeadInv (s : InbufState) : Prop where
  poll : s.poll = .idle
  evind : s.evind = .idle
  rxOnce : s.rx.ring.bufs.Nodup
  indOnce : s.ind.ring.bufs.Nodup
  rxKept : s.life = .detachInd → s.rx.ring.bufs.Perm (List.range (min rpktCount s.rx.size))
  rxGone : s.life = .down → s.rx.ring.bufs = []
  indGone : s.life ≠ .detachInd → s.ind.ring.bufs = []

structure InbufInv (s : InbufState) : Prop where
  live : s.life.live = true → LiveInv s
  dead : s.life.live = false → DeadInv s

theorem rxHeld_idle {s : InbufState} (h : s.poll = .idle) : s.rxHeld = [] := by simp only [InbufState.rxHeld, h]

theorem indHeld_idle {s : InbufState} (h : s.evind = .idle) : s.indHeld = [] := by simp only [InbufState.indHeld, h]

theorem Life.rxAdded_live {l : Life} (size : Nat) (h : l.live = true) : ∃ n, l.rxAdded size = some n := by
  cases l <;> first | exact ⟨_, rfl⟩ | cases h

theorem Life.indAdded_live {l : Life} (size : Nat) (h : l.live = true) : ∃ n, l.indAdded size = some n := by
  cases l <;> first | exact ⟨_, rfl⟩ | cases h

namespace LiveInv

variable {s s' : InbufState}

/-- A step on the RX queue and its poll alone. -/
theorem setRx {held : List Nat} (h : LiveInv s) (hlive : s.life.live = true) (hlife : s'.life = s.life)
    (hind : s'.ind = s.ind) (hevind : s'.evind = s.evind) (hpoll : s.life ≠ .up → s'.poll = .idle)
    (hheld : s.rxHeld = held)
    (hrx : ∀ n, QueueInv s.rx held n → QueueInv s'.rx s'.rxHeld n ∧ s'.rx.size = s.rx.size) : LiveInv s' where
  rx n hn := by
    obtain ⟨k, hk⟩ := Life.rxAdded_live s.rx.size hlive
    obtain ⟨hq, hsize⟩ := hrx k (hheld ▸ h.rx k hk)
    rw [hlife, hsize, hk] at hn
    cases hn
    exact hq
  ind n hn := by
    have hheld : s'.indHeld = s.indHeld := by simp only [InbufState.indHeld, hevind]
    rw [hlife, hind] at hn
    rw [hind, hheld]
    exact h.ind n hn
  poll hl := hpoll (hlife ▸ hl)
  rxIdx idx hl := h.rxIdx idx (hlife ▸ hl)
  indIdx idx hl := h.indIdx idx (hlife ▸ hl)

/-- A step on the indication queue and its handler alone. -/
theorem setInd {held : List Nat} (h : LiveInv s) (hlive : s.life.live = true) (hlife : s'.life = s.life)
    (hrx : s'.rx = s.rx) (hpoll : s'.poll = s.poll) (hheld : s.indHeld = held)
    (hind : ∀ n, QueueInv s.ind held n → QueueInv s'.ind s'.indHeld n ∧ s'.ind.size = s.ind.size) : LiveInv s' where
  rx n hn := by
    have hheld : s'.rxHeld = s.rxHeld := by simp only [InbufState.rxHeld, hpoll]
    rw [hlife, hrx] at hn
    rw [hrx, hheld]
    exact h.rx n hn
  ind n hn := by
    obtain ⟨k, hk⟩ := Life.indAdded_live s.ind.size hlive
    obtain ⟨hq, hsize⟩ := hind k (hheld ▸ h.ind k hk)
    rw [hlife, hsize, hk] at hn
    cases hn
    exact hq
  poll hl := hpoll ▸ h.poll (hlife ▸ hl)
  rxIdx idx hl := h.rxIdx idx (hlife ▸ hl)
  indIdx idx hl := h.indIdx idx (hlife ▸ hl)

end LiveInv

/-! ## The handlers -/

/-- Every message, well formed or not, ends at `putback`. -/
theorem readRx_putback {env : RxEnv} {taken : Bool} {stats : RxStats} {x : Mem × UInt32} {r : RxResult}
    (h : readRxQueue env taken stats (some x) = some r) : r.ret = 1 ∧ r.putback = true := by
  unfold readRxQueue at h
  dsimp only at h
  split at h
  · cases h
    exact ⟨rfl, rfl⟩
  · cases h
  · cases h
    exact ⟨rfl, rfl⟩

namespace LiveInv

variable {s s' : InbufState}

theorem pollStep {env : RxEnv} {taken : Bool} (h : LiveInv s) (hlive : s.life.live = true)
    (hs : pollStep s env taken = some s') : LiveInv s' := by
  unfold VirtioCan.pollStep at hs
  have hup (hpoll : s.poll ≠ .idle) : s.life ≠ .up → s'.poll = .idle := fun hl => absurd (h.poll hl) hpoll
  split at hs
  · cases hs
  · next work quota hpc =>
    have hheld : s.rxHeld = [] := by simp only [InbufState.rxHeld, hpc]
    have hup := hup (by rw [hpc]; exact RxPc.noConfusion)
    split at hs
    · split at hs
      · cases hs
        exact h.setRx hlive rfl rfl rfl hup hheld fun n hq => ⟨hq, rfl⟩
      · next hget =>
        cases hs
        exact h.setRx hlive rfl rfl rfl hup hheld fun n hq => hq.getBuf hget
    · cases hs
      exact h.setRx hlive rfl rfl rfl hup hheld fun n hq => ⟨hq, rfl⟩
  · next work quota u hpc =>
    have hheld : s.rxHeld = [u.buf] := by simp only [InbufState.rxHeld, hpc]
    have hup := hup (by rw [hpc]; exact RxPc.noConfusion)
    split at hs
    · cases hs
    · next r hr =>
      simp only [(readRx_putback hr).2, if_true] at hs
      cases hs
      exact h.setRx hlive rfl rfl rfl hup hheld fun n hq => ⟨hq, rfl⟩
  · next work quota buf hpc =>
    have hheld : s.rxHeld = [buf] := by simp only [InbufState.rxHeld, hpc]
    have hup := hup (by rw [hpc]; exact RxPc.noConfusion)
    cases hs
    exact h.setRx hlive rfl rfl rfl hup hheld fun n hq => hq.putBack.2

theorem indStep (h : LiveInv s) (hlive : s.life.live = true) : LiveInv (indStep s) := by
  unfold VirtioCan.indStep
  split
  · next hpc =>
    split
    · exact h
    · next hget => exact h.setInd hlive rfl rfl rfl (indHeld_idle hpc) fun n hq => hq.getBuf hget
  · next u hpc =>
    have hheld : s.indHeld = [u.buf] := by simp only [InbufState.indHeld, hpc]
    split <;> exact h.setInd hlive rfl rfl rfl hheld fun n hq => ⟨hq, rfl⟩
  · next buf hpc =>
    have hheld : s.indHeld = [buf] := by simp only [InbufState.indHeld, hpc]
    exact h.setInd hlive rfl rfl rfl hheld fun n hq => hq.putBack.2

/-! ## Populating -/

/-- A step of `virtio_can_populate_vqs` in its first loop. -/
theorem fillRx {idx : Nat} (h : LiveInv s) (hlife : s.life = .fillRx idx) (hs : populateStep s = some s') :
    LiveInv s' := by
  obtain ⟨rx, ind, poll, evind, life, stats, rxLog, indLog⟩ := s
  dsimp only at hlife
  subst hlife
  obtain rfl : poll = .idle := h.poll Life.noConfusion
  have hrx : QueueInv rx [] idx := h.rx idx rfl
  have hidx := h.rxIdx idx rfl
  have hfits := hrx.fits
  -- the loop ends with as many buffers as there are, or as the queue takes
  have hdone (hend : idx = min rpktCount rx.size) :
      LiveInv ⟨rx, ind, .idle, evind, .fillInd 0, stats, rxLog, indLog⟩ := by
    refine ⟨fun n hn => ?_, h.ind, fun _ => rfl, fun _ hl => (by cases hl), fun _ hl => ?_⟩
    · cases hn
      exact hend ▸ hrx
    · cases hl
      exact Nat.zero_le _
  simp only [VirtioCan.populateStep] at hs
  split at hs
  · next hlt =>
    rcases hrx.fill with ⟨hret, hfull⟩ | ⟨hret, hnext, hsize⟩
    · rw [if_pos hret] at hs
      cases hs
      exact hdone (by omega)
    · rw [if_neg hret] at hs
      cases hs
      refine ⟨fun n hn => ?_, h.ind, fun _ => rfl, fun _ hl => ?_, fun _ hl => (by cases hl)⟩
      · cases hn
        exact hnext
      · cases hl
        exact hlt
  · cases hs
    exact hdone (by omega)

/-- A step of it in its second loop. -/
theorem fillInd {idx : Nat} (h : LiveInv s) (hlife : s.life = .fillInd idx) (hs : populateStep s = some s') :
    LiveInv s' := by
  obtain ⟨rx, ind, poll, evind, life, stats, rxLog, indLog⟩ := s
  dsimp only at hlife
  subst hlife
  obtain rfl : poll = .idle := h.poll Life.noConfusion
  have hind : QueueInv ind (InbufState.indHeld ⟨rx, ind, .idle, evind, .fillInd idx, stats, rxLog, indLog⟩) idx :=
    h.ind idx rfl
  have hidx := h.indIdx idx rfl
  have hfits := hind.fits
  have hdone (hend : idx = min ipktCount ind.size) :
      LiveInv ⟨rx, ind, .idle, evind, .populated, stats, rxLog, indLog⟩ := by
    refine ⟨h.rx, fun n hn => ?_, fun _ => rfl, fun _ hl => (by cases hl), fun _ hl => (by cases hl)⟩
    cases hn
    exact hend ▸ hind
  simp only [VirtioCan.populateStep] at hs
  split at hs
  · next hlt =>
    -- there is one buffer, so nothing is in the handler's hand yet
    obtain rfl : idx = 0 := by simpa [ipktCount] using hlt
    have hheld := hind.held_nil
    rw [hheld] at hind
    rcases hind.fill with ⟨hret, hfull⟩ | ⟨hret, hnext, hsize⟩
    · rw [if_pos hret] at hs
      cases hs
      exact hdone (by omega)
    · rw [if_neg hret] at hs
      cases hs
      refine ⟨h.rx, fun n hn => ?_, fun _ => rfl, fun _ hl => (by cases hl), fun _ hl => ?_⟩
      · cases hn
        exact hheld ▸ hnext
      · cases hl
        exact hlt
  · cases hs
    exact hdone (by omega)

end LiveInv

/-! ## Suspend and resume -/

/-- With fresh virtqueues. -/
theorem LiveInv.fresh {s : InbufState} {rx ind : Nat} (hrx : s.rx = .fresh rx) (hind : s.ind = .fresh ind)
    (hpoll : s.poll = .idle) (hevind : s.evind = .idle) (hlife : s.life = .fillRx 0) : LiveInv s where
  rx n hn := by
    rw [hlife] at hn
    cases hn
    rw [hrx, rxHeld_idle hpoll]
    exact .fresh rx
  ind n hn := by
    rw [hlife] at hn
    cases hn
    rw [hind, indHeld_idle hevind]
    exact .fresh ind
  poll _ := hpoll
  rxIdx idx hl := by
    rw [hlife] at hl
    cases hl
    exact Nat.zero_le _
  indIdx idx hl := by
    rw [hlife] at hl
    cases hl

theorem InbufInv.freezeStep {s s' : InbufState} (h : InbufInv s) (hs : freezeStep s = some s') : InbufInv s' := by
  obtain ⟨rx, ind, poll, evind, life, stats, rxLog, indLog⟩ := s
  unfold VirtioCan.freezeStep at hs
  dsimp only at hs
  split at hs
  · cases hs
    have hl := h.live rfl
    exact ⟨fun _ => ⟨hl.rx, hl.ind, fun _ => rfl, fun _ hl => (by cases hl), fun _ hl => (by cases hl)⟩,
      fun hd => (by cases hd)⟩
  · cases hs
    have hl := h.live rfl
    have hpoll : poll = .idle := hl.poll Life.noConfusion
    have hrx := hl.rx _ rfl
    rw [rxHeld_idle hpoll] at hrx
    have hind := hl.ind _ rfl
    have hall := hrx.all
    rw [List.append_nil] at hall
    exact ⟨fun hl => (by cases hl), fun _ => {
      poll := hpoll
      evind := rfl
      rxOnce := (List.nodup_append.mp hrx.nodup).1
      indOnce := (List.nodup_append.mp hind.nodup).1
      rxKept := fun _ => hall
      rxGone := fun hl => by cases hl
      indGone := fun hne => absurd rfl hne }⟩
  · have hd := h.dead rfl
    split at hs
    · next hnone =>
      cases hs
      exact ⟨fun hl => (by cases hl), fun _ => { hd with
        rxKept := fun hl => by cases hl
        rxGone := fun hl => by cases hl
        indGone := fun _ => Ring.detach_eq_none_iff.mp hnone }⟩
    · next b ring hsome =>
      cases hs
      have honce := hd.indOnce
      rw [Ring.bufs_detach hsome] at honce
      exact ⟨fun hl => (by cases hl), fun _ => { hd with
        indOnce := (List.nodup_cons.mp honce).2
        indGone := fun hne => absurd rfl hne }⟩
  · have hd := h.dead rfl
    split at hs
    · next hnone =>
      cases hs
      exact ⟨fun hl => (by cases hl), fun _ => { hd with
        rxKept := fun hl => by cases hl
        rxGone := fun _ => Ring.detach_eq_none_iff.mp hnone
        indGone := fun _ => hd.indGone Life.noConfusion }⟩
    · next b ring hsome =>
      cases hs
      have honce := hd.rxOnce
      rw [Ring.bufs_detach hsome] at honce
      exact ⟨fun hl => (by cases hl), fun _ => { hd with
        rxOnce := (List.nodup_cons.mp honce).2
        rxKept := fun hl => by cases hl
        rxGone := fun hl => by cases hl }⟩
  · cases hs

theorem LiveInv.inv {s : InbufState} (h : LiveInv s) (hlive : s.life.live = true) : InbufInv s where
  live _ := h
  dead hd := by cases hlive.symm.trans hd

/-- Populating stays among the live states. -/
theorem populateStep_live {s s' : InbufState} (hs : populateStep s = some s') :
    s'.life.live = true ∧ ((∃ idx, s.life = .fillRx idx) ∨ ∃ idx, s.life = .fillInd idx) := by
  unfold populateStep at hs
  split at hs
  · next idx hlife =>
    refine ⟨?_, .inl ⟨idx, hlife⟩⟩
    split at hs
    · split at hs <;> cases hs <;> rfl
    · cases hs
      rfl
  · next idx hlife =>
    refine ⟨?_, .inr ⟨idx, hlife⟩⟩
    split at hs
    · split at hs <;> cases hs <;> rfl
    · cases hs
      rfl
  · cases hs

theorem pollStep_life {s s' : InbufState} {env : RxEnv} {taken : Bool} (hs : pollStep s env taken = some s') :
    s'.life = s.life ∧ s.poll ≠ .idle := by
  unfold pollStep at hs
  split at hs
  · cases hs
  · next hpc =>
    rw [hpc]
    refine ⟨?_, RxPc.noConfusion⟩
    split at hs
    · split at hs <;> cases hs <;> rfl
    · cases hs
      rfl
  · next hpc =>
    rw [hpc]
    refine ⟨?_, RxPc.noConfusion⟩
    split at hs
    · cases hs
    · dsimp only at hs
      split at hs <;> cases hs <;> rfl
  · next hpc =>
    rw [hpc]
    cases hs
    exact ⟨rfl, RxPc.noConfusion⟩

theorem indStep_life (s : InbufState) : (indStep s).life = s.life := by
  unfold indStep
  split
  · split <;> rfl
  · split <;> rfl
  · rfl

theorem InbufInv.step {s s' : InbufState} {a : InbufAct} (h : InbufInv s) (hs : inbufStep s a = some s') :
    InbufInv s' := by
  cases a with
  | populate =>
    obtain ⟨hlive', ⟨idx, hlife⟩ | ⟨idx, hlife⟩⟩ := populateStep_live hs
    · exact ((h.live (by rw [hlife]; rfl)).fillRx hlife hs).inv hlive'
    · exact ((h.live (by rw [hlife]; rfl)).fillInd hlife hs).inv hlive'
  | napiEnable =>
    simp only [inbufStep] at hs
    split at hs
    · next hlife =>
      cases hs
      have hl := h.live (by rw [hlife]; rfl)
      obtain ⟨rx, ind, poll, evind, life, stats, rxLog, indLog⟩ := s
      dsimp only at hlife
      subst hlife
      exact LiveInv.inv { hl with
        poll := fun hne => absurd rfl hne
        rxIdx := fun _ hl => (by cases hl)
        indIdx := fun _ hl => (by cases hl) } rfl
    · cases hs
  | pollStart quota busoff =>
    simp only [inbufStep] at hs
    split at hs
    · next hlife hpoll =>
      cases hs
      have hlive : s.life.live = true := by rw [hlife]; rfl
      exact LiveInv.inv ((h.live hlive).setRx hlive rfl rfl rfl (fun hne => absurd hlife hne) (rxHeld_idle hpoll)
        fun n hq => ⟨hq, rfl⟩) hlive
    · cases hs
  | poll env taken =>
    obtain ⟨hlife, hpoll⟩ := pollStep_life hs
    cases hlive : s.life.live with
    | true => exact ((h.live hlive).pollStep hlive hs).inv (by rw [hlife, hlive])
    | false => exact absurd (h.dead hlive).poll hpoll
  | evind =>
    simp only [inbufStep] at hs
    split at hs
    · next hlive =>
      cases hs
      exact ((h.live hlive).indStep hlive).inv (by rw [indStep_life, hlive])
    · cases hs
  | rxMessage u =>
    simp only [inbufStep] at hs
    split at hs
    · next hlive =>
      obtain ⟨rx, hrx, rfl⟩ := Option.map_eq_some_iff.mp hs
      have hl := h.live hlive
      have hl' : LiveInv { s with rx } := hl.setRx hlive rfl rfl rfl hl.poll rfl fun n hq => hq.deviceUses hrx
      exact hl'.inv hlive
    · cases hs
  | indication u =>
    simp only [inbufStep] at hs
    split at hs
    · next hlive =>
      obtain ⟨ind, hind, rfl⟩ := Option.map_eq_some_iff.mp hs
      have hl' : LiveInv { s with ind } :=
        (h.live hlive).setInd hlive rfl rfl rfl rfl fun n hq => hq.deviceUses hind
      exact hl'.inv hlive
    · cases hs
  | freeze => exact h.freezeStep hs
  | restore sizes =>
    simp only [inbufStep] at hs
    split at hs
    · cases hs
      exact h
    · next rx ind hlife =>
      cases hs
      have hd := h.dead (by rw [hlife]; rfl)
      have hl : LiveInv { s with rx := .fresh rx, ind := .fresh ind, life := .fillRx 0 } :=
        .fresh rfl rfl hd.poll hd.evind rfl
      exact hl.inv rfl
    · cases hs

theorem inbufInv_inductive : inbufMachine.Inductive (fun _ _ => True) InbufInv where
  init s hs := by
    obtain ⟨rx, ind, rfl⟩ := hs
    exact (LiveInv.fresh rfl rfl rfl rfl rfl).inv rfl
  step _ _ _ h _ hs := h.step hs

theorem LiveInv.conserved {s : InbufState} (h : LiveInv s) (hlive : s.life.live = true) : Conserved s := by
  obtain ⟨n, hn⟩ := Life.rxAdded_live s.rx.size hlive
  obtain ⟨k, hk⟩ := Life.indAdded_live s.ind.size hlive
  exact ⟨(h.rx n hn).nodup, (h.ind k hk).nodup, fun n hn => (h.rx n hn).all, fun k hk => (h.ind k hk).all⟩

theorem DeadInv.conserved {s : InbufState} (h : DeadInv s) (hlive : s.life.live = false) : Conserved s := by
  have hrx := rxHeld_idle h.poll
  have hind := indHeld_idle h.evind
  refine ⟨?_, ?_, fun n hn => ?_, fun n hn => ?_⟩ <;> simp only [hrx, hind, List.append_nil]
  · exact h.rxOnce
  · exact h.indOnce
  · cases hlife : s.life with
    | detachInd =>
      rw [hlife] at hn
      cases hn
      exact h.rxKept hlife
    | down =>
      rw [hlife] at hn
      cases hn
      rw [h.rxGone hlife]
      exact .refl _
    | detachRx =>
      rw [hlife] at hn
      cases hn
    | fillRx | fillInd | populated | up | freezing =>
      rw [hlife] at hlive
      cases hlive
  · cases hlife : s.life with
    | detachInd =>
      rw [hlife] at hn
      cases hn
    | detachRx | down =>
      rw [hlife] at hn
      cases hn
      rw [h.indGone (by rw [hlife]; exact Life.noConfusion)]
      exact .refl _
    | fillRx | fillInd | populated | up | freezing =>
      rw [hlife] at hlive
      cases hlive

/-- **Receive buffers are conserved.** For every size of the two virtqueues,
now and after each resume, every sequence of messages and indications,
polls with any quota and suspend cycles: each buffer
`virtio_can_populate_vqs` has added is in its virtqueue exactly once or held
by the handler processing it. -/
theorem inbuf_conserved {s : InbufState} (h : inbufMachine.Reachable s) : Conserved s := by
  have hi := inbufInv_inductive.reach h
  cases hlive : s.life.live with
  | true => exact (hi.live hlive).conserved hlive
  | false => exact (hi.dead hlive).conserved hlive

/-- Two buffers fit, and a poll has taken the first with a message too small. -/
theorem inbuf_conserved_held : ∃ s, s.life = .up ∧ s.rxHeld = [0] ∧ Conserved s := by
  obtain ⟨s, hs, hlife, hheld⟩ := Machine.exists_reach (fun _ _ => True) (M := inbufMachine) ⟨2, 1, rfl⟩
    (List.replicate 5 .populate ++ [.napiEnable, .rxMessage ⟨0, fun _ => 0, 1⟩, .pollStart 1 false,
      .poll ⟨fun _ => true, .errorActive, true⟩ true])
    (fun s => s.life = .up ∧ s.rxHeld = [0]) (by decide +kernel)
  exact ⟨s, hlife, hheld, inbuf_conserved hs⟩

end Agl.VirtioCan
