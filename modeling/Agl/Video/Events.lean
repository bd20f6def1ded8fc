/-
The event queue of the virtio video driver: `virtio_video_alloc_events`,
`virtio_video_event_cb` and the work item `virtio_video_process_events`, with
the probe around the first and the removal of the device.

Four parties take turns: the probe and later the removal (`Main`), the device
and its interrupt, the workqueue, and the worker (`Pc`), which is cut where
it tests `ready` and where it uses the virtqueue or an event buffer. The
kernel runs a work item once at a time, and clears its pending bit before it
runs.

Left out: `kzalloc` of the buffers failing, what `virtio_video_handle_event`
does with an event (in `Agl.Video.Open`), and the command queue.
-/
import Mathlib.Data.List.Nodup
import Mathlib.Logic.Function.Basic
import Agl.Lib.Descriptors
import Agl.Lib.Machine
import Agl.Lib.Words

namespace Agl.VirtioVideo.Events

/-- `struct virtio_video_event` -/
structure Event where
  eventType : UInt32
  streamId : UInt32
  deriving DecidableEq, Repr

/-- The fields of an event buffer. -/
def Event.read (m : Mem) : Event := ⟨m.le32 0, m.le32 4⟩

/-- `sizeof(struct virtio_video_event)` -/
def eventSize : Nat := 8

/-- A buffer of zeros. -/
def zeros : Mem := fun _ => 0

/-- The event in these bytes, with zeros behind them. -/
def Event.ofBytes (bytes : List UInt8) : Event := .read (Mem.ofList bytes zeros)

/-- Where `virtio_video_probe`, and later `virtio_video_remove`, is. -/
inductive Main
  /-- the loop of `virtio_video_alloc_events` -/
  | alloc
  /-- `virtio_device_ready` -/
  | deviceReady
  /-- `vvd->eventq.ready = true` -/
  | setReady
  /-- `virtio_video_device_init` -/
  | deviceInit
  /-- the probe has returned 0 -/
  | running
  /-- `virtio_video_device_deinit`: `vvd->eventq.ready = false` -/
  | unready
  /-- `virtio_video_free_vbufs`: taking event buffers out of the queue -/
  | detach
  /-- `kfree(vvd->evts)` -/
  | freeEvts
  | delVqs
  /-- `devm_kfree` of the device structure -/
  | freeVvd
  | gone
  deriving DecidableEq, Repr

/-- Where `virtio_video_process_events` is. -/
inductive Pc
  | idle
  /-- about to test `ready` -/
  | test
  | disableCb
  | getBuf
  /-- `virtio_video_handle_event` -/
  | handle (evt : Nat)
  /-- `virtio_video_queue_event_buffer` -/
  | queue (evt : Nat)
  | isBroken
  /-- `virtqueue_enable_cb` -/
  | enableCb
  /-- its test for buffers used meanwhile -/
  | poll
  deriving DecidableEq, Repr

/-- The buffer the worker has in hand. -/
def Pc.hand : Pc → List Nat
  | .handle evt | .queue evt => [evt]
  | .idle | .test | .disableCb | .getBuf | .isBroken | .enableCb | .poll => []

/-- Its event is still to be handled. -/
def Pc.unhandled : Pc → List Nat
  | .handle evt => [evt]
  | .idle | .test | .disableCb | .getBuf | .queue _ | .isBroken | .enableCb | .poll => []

structure State where
  /-- `eventq.vq->num_free` in the probe: the number of event buffers -/
  num : Nat
  main : Main
  /-- `eventq.ready` -/
  ready : Bool
  driverOk : Bool
  /-- what the driver has in the virtqueue -/
  ring : Ring Nat
  /-- buffers the device may write an event to -/
  avail : List Nat
  /-- written, not yet taken by the driver -/
  used : List Nat
  /-- buffers outside the queue: not queued yet, or not taken back by it -/
  out : List Nat
  /-- what the buffers hold -/
  mem : Nat → Mem
  broken : Bool
  cbEnabled : Bool
  /-- the device has yet to look whether the callback is enabled -/
  look : Bool
  irq : Bool
  /-- the work item is pending -/
  pending : Bool
  pc : Pc
  /-- what the device has written, in order -/
  posted : List (List UInt8)
  /-- the events handled, in order -/
  handled : List Event
  /-- a buffer could not be mapped for the device -/
  mapFailed : Bool

/-! ## The functions -/

/-- `virtio_video_queue_event_buffer`: the buffer is cleared, and the queue
takes it unless it is broken or full or the buffer cannot be mapped. -/
def queueEventBuffer (s : State) (evt : Nat) (mapped : Bool) : Bool × State :=
  let s := { s with mem := Function.update s.mem evt zeros }
  let failed := { s with out := s.out ++ [evt] }
  if s.broken then (false, failed)
  else
    match s.ring.add evt 1 with
    | none => (false, failed)
    | some ring =>
      if mapped then (true, { s with ring, avail := s.avail ++ [evt] }) else (false, { failed with mapFailed := true })

/-- The next step of the probe or the removal; `ok` says whether a buffer
can be mapped, or `virtio_video_device_init` succeeds. -/
def mainStep (s : State) (ok : Bool) : Option State :=
  match s.main with
  | .alloc =>
    match s.out with
    | [] => some { s with main := .deviceReady }
    | evt :: rest =>
      let r := queueEventBuffer { s with out := rest } evt ok
      some (if r.1 then r.2 else { r.2 with main := .detach })
  | .deviceReady => some { s with driverOk := true, main := .setReady }
  | .setReady => some { s with ready := true, main := .deviceInit }
  | .deviceInit => some { s with main := if ok then .running else .detach }
  | .running => some { s with main := .unready }
  | .unready => some { s with ready := false, main := .detach }
  | .detach =>
    match s.ring.detach with
    | some r => some { s with ring := r.2 }
    | none => some { s with main := .freeEvts }
  | .freeEvts => some { s with main := .delVqs }
  | .delVqs => some { s with driverOk := false, look := false, irq := false, main := .freeVvd }
  | .freeVvd => some { s with main := .gone }
  | .gone => none

/-- The next step of `virtio_video_process_events`. A used buffer that the
driver has taken out of the queue is a bad ring to `virtqueue_get_buf`. -/
def workStep (s : State) (mapped : Bool) : Option State :=
  match s.pc with
  | .idle => none
  | .test => some { s with pc := if s.ready then .disableCb else .idle }
  | .disableCb => some { s with cbEnabled := false, pc := .getBuf }
  | .getBuf =>
    if s.broken then some { s with pc := .isBroken }
    else
      match s.used with
      | [] => some { s with pc := .isBroken }
      | evt :: rest =>
        if evt ∈ s.ring.bufs then some { s with used := rest, ring := s.ring.get evt, pc := .handle evt }
        else some { s with broken := true, pc := .isBroken }
  | .handle evt => some { s with handled := s.handled ++ [.read (s.mem evt)], pc := .queue evt }
  | .queue evt => some { (queueEventBuffer s evt mapped).2 with pc := .getBuf }
  | .isBroken => some { s with pc := if s.broken then .idle else .enableCb }
  | .enableCb => some { s with cbEnabled := true, pc := .poll }
  | .poll => some { s with pc := if s.used = [] ∨ s.broken = true then .idle else .test }

inductive Act
  | main (ok : Bool)
  /-- the device writes an event to a buffer -/
  | post (evt : Nat) (bytes : List UInt8)
  /-- the device raises the interrupt if the callback is enabled -/
  | look
  /-- the interrupt of another virtqueue, on the same line -/
  | spurious
  /-- `virtio_video_event_cb`: `schedule_work` -/
  | eventCb
  /-- the device does something that breaks the virtqueue -/
  | breakVq
  /-- the workqueue starts the work item -/
  | begin
  | work (mapped : Bool)
  deriving DecidableEq, Repr

def step (s : State) : Act → Option State
  | .main ok => mainStep s ok
  | .post evt bytes =>
    if s.driverOk = true ∧ evt ∈ s.avail ∧ bytes.length ≤ eventSize then
      some { s with
        avail := s.avail.erase evt
        used := s.used ++ [evt]
        mem := Function.update s.mem evt (Mem.ofList bytes (s.mem evt))
        look := true
        posted := s.posted ++ [bytes] }
    else none
  | .look => if s.look then some { s with look := false, irq := s.irq || s.cbEnabled } else none
  | .spurious => if s.driverOk then some { s with irq := true } else none
  | .eventCb => if s.irq then some { s with irq := false, pending := true } else none
  | .breakVq => if s.driverOk then some { s with broken := true } else none
  | .begin => if s.pending = true ∧ s.pc = .idle then some { s with pending := false, pc := .test } else none
  | .work mapped => workStep s mapped

/-- The event buffers are allocated, none is queued. -/
def probe (num : Nat) : State :=
  { num, main := .alloc, ready := false, driverOk := false, ring := .fresh num, avail := [], used := []
    out := List.range num, mem := fun _ => zeros, broken := false, cbEnabled := true, look := false, irq := false
    pending := false, pc := .idle, posted := [], handled := [], mapFailed := false }

def machine : Machine State Act where
  init s := ∃ num, s = probe num
  step := step

/-! ## What the steps do -/

/-- A step of the worker. -/
inductive WorkStep (s : State) : Bool → State → Prop
  | go {m} (hp : s.pc = .test) (hr : s.ready = true) : WorkStep s m { s with pc := .disableCb }
  | stop {m} (hp : s.pc = .test) (hr : s.ready = false) : WorkStep s m { s with pc := .idle }
  | disable {m} (hp : s.pc = .disableCb) : WorkStep s m { s with cbEnabled := false, pc := .getBuf }
  | empty {m} (hp : s.pc = .getBuf) (hu : s.broken = true ∨ s.used = []) : WorkStep s m { s with pc := .isBroken }
  | take {m evt rest} (hp : s.pc = .getBuf) (hb : s.broken = false) (hu : s.used = evt :: rest)
      (hin : evt ∈ s.ring.bufs) :
    WorkStep s m { s with used := rest, ring := s.ring.get evt, pc := .handle evt }
  | badRing {m evt rest} (hp : s.pc = .getBuf) (hu : s.used = evt :: rest) (hin : evt ∉ s.ring.bufs) :
    WorkStep s m { s with broken := true, pc := .isBroken }
  | handle {m evt} (hp : s.pc = .handle evt) :
    WorkStep s m { s with handled := s.handled ++ [.read (s.mem evt)], pc := .queue evt }
  | queue {m evt} (hp : s.pc = .queue evt) : WorkStep s m { (queueEventBuffer s evt m).2 with pc := .getBuf }
  | leave {m} (hp : s.pc = .isBroken) (hb : s.broken = true) : WorkStep s m { s with pc := .idle }
  | stay {m} (hp : s.pc = .isBroken) (hb : s.broken = false) : WorkStep s m { s with pc := .enableCb }
  | enable {m} (hp : s.pc = .enableCb) : WorkStep s m { s with cbEnabled := true, pc := .poll }
  | done {m} (hp : s.pc = .poll) (hu : s.used = [] ∨ s.broken = true) : WorkStep s m { s with pc := .idle }
  | more {m} (hp : s.pc = .poll) (hu : s.used ≠ []) : WorkStep s m { s with pc := .test }

theorem workStep_cases {s s' : State} {m : Bool} (hs : workStep s m = some s') : WorkStep s m s' := by
  unfold workStep at hs
  split at hs
  · cases hs
  · next hp =>
    cases hs
    split
    · next hr => exact .go hp hr
    · next hr => exact .stop hp (by simpa using hr)
  · next hp =>
    cases hs
    exact .disable hp
  · next hp =>
    split at hs
    · next hb =>
      cases hs
      exact .empty hp (.inl hb)
    · next hb =>
      split at hs
      · next hu =>
        cases hs
        exact .empty hp (.inr hu)
      · next hu =>
        split at hs <;> cases hs
        · next hin => exact .take hp (by simpa using hb) hu hin
        · next hin => exact .badRing hp hu hin
  · next hp =>
    cases hs
    exact .handle hp
  · next hp =>
    cases hs
    exact .queue hp
  · next hp =>
    cases hs
    split
    · next hb => exact .leave hp hb
    · next hb => exact .stay hp (by simpa using hb)
  · next hp =>
    cases hs
    exact .enable hp
  · next hp =>
    cases hs
    split
    · next hu => exact .done hp hu
    · next hu => exact .more hp fun h => hu (.inl h)

/-- `virtio_video_queue_event_buffer` clears the buffer, and leaves it in
the queue or outside. -/
theorem queueEventBuffer_cases (s : State) (evt : Nat) (mapped : Bool) :
    let s₀ := { s with mem := Function.update s.mem evt zeros }
    (∃ ring, s.ring.add evt 1 = some ring ∧
      queueEventBuffer s evt mapped = (true, { s₀ with ring, avail := s.avail ++ [evt] })) ∨
    ∃ failed, (s.broken = true ∨ s.ring.numFree = 0 ∨ failed = true) ∧
      queueEventBuffer s evt mapped =
        (false, { s₀ with out := s.out ++ [evt], mapFailed := s.mapFailed || failed }) := by
  intro s₀
  unfold queueEventBuffer
  by_cases hb : s.broken = true
  · exact .inr ⟨false, .inl hb, by simp only [hb, ↓reduceIte, Bool.or_false, s₀]⟩
  · cases hadd : s.ring.add evt 1 with
    | none =>
      have hfull := Ring.add_eq_none_iff.mp hadd
      exact .inr ⟨false, .inr (.inl (by omega)), by simp only [hb, hadd, Bool.or_false, s₀]; rfl⟩
    | some ring =>
      cases mapped
      · exact .inr ⟨true, .inr (.inr rfl), by simp only [hb, hadd, Bool.or_true, s₀]; rfl⟩
      · exact .inl ⟨ring, rfl, by simp only [hb, hadd, ↓reduceIte, s₀]; rfl⟩

end Agl.VirtioVideo.Events
