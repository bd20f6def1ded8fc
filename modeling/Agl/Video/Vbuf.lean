/-
The command queue of the virtio video driver (`virtio_video_vq.c`) as a
machine: the vbufs, `pending_vbuf_list`, the virtqueue, and the three
parties that free vbufs: the callback, the waiter of a synchronous command,
the teardown.

Any number of calls of `virtio_video_queue_cmd_buffer` and its `_sync` form
run at once; each is cut where it takes or drops `qlock`, tests `ready` or
waits. The device completes requests in any order. The allocator may hand
out any address that is not in use, so the token the device returns can be
the address of a vbuf younger than the request: a request carries, next to
its token, the number of the submission it was made for (`serial`), which
the driver does not see.

Left out: the contents of commands and replies, and `num_free`.
-/
import Mathlib.Logic.Function.Basic
import Mathlib.Data.List.Perm.Basic
import Mathlib.Data.List.Nodup
import Agl.Lib.Machine

namespace Agl.VirtioVideo

/-- The address of a `struct virtio_video_vbuffer`. -/
abbrev Addr := Nat

/-- `struct virtio_video_vbuffer` -/
structure Vbuf where
  id : UInt32
  /-- `resp_cb` is set -/
  respCb : Bool
  isSync : Bool
  /-- `complete(&vbuf->reclaimed)` has been called -/
  reclaimed : Bool
  /-- the submission the vbuf stands for: `vbufs_sent` before it wraps -/
  serial : Nat
  deriving DecidableEq, Repr

/-- A request in the virtqueue. -/
structure Req where
  token : Addr
  serial : Nat
  deriving DecidableEq, Repr

/-- What `virtqueue_add_sgs` returns. -/
inductive AddRet
  | ok | enospc | err
  deriving DecidableEq, Repr

/-- What a submission returns. -/
inductive Ret
  | ok | enodev | addErr | etimedout
  deriving DecidableEq, Repr

/-- A call of `virtio_video_queue_cmd_buffer` (`sync = false`) or
`virtio_video_queue_cmd_buffer_sync`, by where it is. -/
inductive Call
  /-- the vbuf is filled in; `ready` not tested yet -/
  | test (vbuf : Addr) (sync : Bool)
  | lock (vbuf : Addr) (sync : Bool)
  /-- `qlock` held -/
  | number (vbuf : Addr) (sync : Bool)
  /-- `qlock` held, vbuf listed: label `retry` -/
  | add (vbuf : Addr) (serial : Nat) (sync : Bool)
  /-- the ring was full; waiting for space -/
  | full (vbuf : Addr) (serial : Nat) (sync : Bool)
  /-- waiting for `reclaimed` -/
  | wait (vbuf : Addr)
  | relock (vbuf : Addr) (ret : Ret)
  /-- `qlock` held -/
  | reap (vbuf : Addr) (ret : Ret)
  deriving DecidableEq, Repr

/-- Where `virtio_video_cmd_cb` is. -/
inductive CbPc
  | idle
  /-- `qlock` held: about to test `ready` -/
  | loop
  /-- `qlock` held: about to call `virtqueue_get_buf` -/
  | pop
  deriving DecidableEq, Repr

inductive Teardown
  | no
  /-- in `virtio_video_free_vbufs` -/
  | freeing
  | done
  deriving DecidableEq, Repr

structure State where
  /-- the vbufs that are allocated -/
  heap : Addr → Option Vbuf
  pendingVbufList : List Addr
  vbufsSent : Nat
  qlock : Bool
  ready : Bool
  /-- with the device -/
  avail : List Req
  /-- completed, not yet taken by the driver -/
  used : List Req
  calls : List Call
  cb : CbPc
  teardown : Teardown
  /-- the submissions whose vbuf was freed; `none` for a free of dead memory -/
  freed : List (Option Nat)
  /-- tokens dereferenced by the callback or the teardown, and whether the
  vbuf was listed and alive -/
  derefs : List (Addr × Bool)
  /-- for each `resp_cb` run and each `reclaimed` completed: the vbuf, and
  the submission the device had completed -/
  attributed : List (Vbuf × Nat)
  returned : List (Addr × Ret)

/-- The requests in the virtqueue. -/
def State.ring (s : State) : List Req := s.avail ++ s.used

/-! ## The functions on the list -/

/-- `vbuf_is_pending`: the answer, and what it dereferences through `vbuf`. -/
def vbufIsPending (heap : Addr → Option Vbuf) (vbuf : Addr) : List Addr → Bool × List Addr
  | [] => (false, [])
  | entry :: rest =>
    if entry = vbuf then
      if (heap entry).map (·.id) = (heap vbuf).map (·.id) then (true, [vbuf])
      else ((vbufIsPending heap vbuf rest).1, vbuf :: (vbufIsPending heap vbuf rest).2)
    else vbufIsPending heap vbuf rest

/-- `free_vbuf` -/
def freeVbuf (s : State) (vbuf : Addr) : State :=
  { s with
    pendingVbufList := s.pendingVbufList.erase vbuf
    heap := Function.update s.heap vbuf none
    freed := (s.heap vbuf).map (·.serial) :: s.freed }

/-- Record what is dereferenced. -/
def touch (s : State) (ptrs : List Addr) : State :=
  { s with derefs := ptrs.map (fun a => (a, decide (a ∈ s.pendingVbufList ∧ (s.heap a).isSome))) ++ s.derefs }

/-! ## virtio_video_cmd_cb -/

/-- The callback with one token the device returned. -/
def cmdCbToken (s : State) (r : Req) : State :=
  let (pending, ptrs) := vbufIsPending s.heap r.token s.pendingVbufList
  let s := touch s ptrs
  if pending then
    let s := touch s [r.token]
    match s.heap r.token with
    | none => s
    | some vbuf =>
      let s := if vbuf.respCb ∨ vbuf.isSync then { s with attributed := (vbuf, r.serial) :: s.attributed } else s
      if vbuf.isSync then { s with heap := Function.update s.heap r.token (some { vbuf with reclaimed := true }) }
      else freeVbuf s r.token
  else s

/-- One step of the callback; with nothing to take it goes round again if
`virtqueue_enable_cb` says so, and leaves otherwise. -/
def cmdCbStep (s : State) (again : Bool) : Option State :=
  match s.cb with
  | .idle => if s.qlock then none else some { s with qlock := true, cb := .loop }
  | .loop => if s.ready then some { s with cb := .pop } else some { s with qlock := false, cb := .idle }
  | .pop =>
    match s.used with
    | [] => if again then some { s with cb := .loop } else some { s with qlock := false, cb := .idle }
    | r :: rest => some (cmdCbToken { s with used := rest } r)

/-! ## Submission -/

/-- `virtio_video_get_vbuf`; `vbuf` is the address the allocator gives. -/
def getVbuf (s : State) (vbuf : Addr) (respCb sync : Bool) : Option State :=
  if s.heap vbuf = none ∧ s.teardown = .no then
    some { s with
      heap := Function.update s.heap vbuf (some { id := 0, respCb, isSync := false, reclaimed := false, serial := 0 })
      calls := .test vbuf sync :: s.calls }
  else none

/-- The steps of a submission whose outcome the state decides. -/
def callStep (s : State) (c : Call) : Option State :=
  if c ∈ s.calls then
    let rest := s.calls.erase c
    match c with
    | .test vbuf sync =>
      let heap := Function.update s.heap vbuf ((s.heap vbuf).map fun v => { v with isSync := sync })
      if s.ready then some { s with heap, calls := .lock vbuf sync :: rest }
      else some { s with heap, calls := rest, returned := (vbuf, .enodev) :: s.returned }
    | .lock vbuf sync => if s.qlock then none else some { s with qlock := true, calls := .number vbuf sync :: rest }
    | .number vbuf sync =>
      some { s with
        heap := Function.update s.heap vbuf
          ((s.heap vbuf).map fun v => { v with id := UInt32.ofNat s.vbufsSent, serial := s.vbufsSent })
        vbufsSent := s.vbufsSent + 1
        pendingVbufList := s.pendingVbufList ++ [vbuf]
        calls := .add vbuf s.vbufsSent sync :: rest }
    | .full vbuf serial sync =>
      if s.qlock then none else some { s with qlock := true, calls := .add vbuf serial sync :: rest }
    | .relock vbuf ret => if s.qlock then none else some { s with qlock := true, calls := .reap vbuf ret :: rest }
    | .reap vbuf ret =>
      let s := { s with qlock := false, calls := rest, returned := (vbuf, ret) :: s.returned }
      some (if (vbufIsPending s.heap vbuf s.pendingVbufList).1 then freeVbuf s vbuf else s)
    | .add _ _ _ | .wait _ => none
  else none

/-- `virtqueue_add_sgs`, and what follows each of its results. -/
def addSgs (s : State) (vbuf : Addr) (serial : Nat) (sync : Bool) (ret : AddRet) : Option State :=
  if .add vbuf serial sync ∈ s.calls then
    let rest := s.calls.erase (.add vbuf serial sync)
    match ret with
    | .enospc => some { s with qlock := false, calls := .full vbuf serial sync :: rest }
    | .err => some { s with qlock := false, calls := rest, returned := (vbuf, .addErr) :: s.returned }
    | .ok =>
      let s := { s with qlock := false, avail := s.avail ++ [Req.mk vbuf serial] }
      if sync then some { s with calls := .wait vbuf :: rest }
      else some { s with calls := rest, returned := (vbuf, .ok) :: s.returned }
  else none

/-- `wait_for_completion_timeout` returns. -/
def waitDone (s : State) (vbuf : Addr) (timedOut : Bool) : Option State :=
  if .wait vbuf ∈ s.calls then
    let rest := s.calls.erase (.wait vbuf)
    if timedOut then some { s with calls := .relock vbuf .etimedout :: rest }
    else if (s.heap vbuf).any (·.reclaimed) then some { s with calls := .relock vbuf .ok :: rest }
    else none
  else none

/-! ## The device and the teardown -/

/-- The device completes the request at place `i`. -/
def complete (s : State) (i : Nat) : Option State :=
  match s.avail[i]? with
  | some r => some { s with avail := s.avail.eraseIdx i, used := s.used ++ [r] }
  | none => none

/-- `virtio_video_free_vbufs` begins: no submission and no wait is in
progress, the queue is not ready. -/
def freeVbufs (s : State) : Option State :=
  if s.teardown = .no ∧ s.ready = false ∧ s.calls = [] ∧ s.qlock = false then some { s with teardown := .freeing }
  else none

/-- `virtqueue_detach_unused_buf` returns a token, or none. -/
def detach (s : State) (r : Option Req) : Option State :=
  if s.teardown = .freeing then
    match r with
    | none => if s.ring = [] then some { s with teardown := .done } else none
    | some r =>
      if r ∈ s.ring then
        let s := if r ∈ s.avail then { s with avail := s.avail.erase r } else { s with used := s.used.erase r }
        let (pending, ptrs) := vbufIsPending s.heap r.token s.pendingVbufList
        let s := touch s ptrs
        some (if pending then freeVbuf s r.token else s)
      else none
  else none

/-! ## The machine -/

inductive Act
  | getVbuf (vbuf : Addr) (respCb sync : Bool)
  | call (c : Call)
  | addSgs (vbuf : Addr) (serial : Nat) (sync : Bool) (ret : AddRet)
  | waitDone (vbuf : Addr) (timedOut : Bool)
  | cmdCb (again : Bool)
  | complete (i : Nat)
  /-- `virtio_video_device_deinit` -/
  | deinit
  | freeVbufs
  | detach (r : Option Req)
  deriving DecidableEq, Repr

def step (s : State) : Act → Option State
  | .getVbuf vbuf respCb sync => getVbuf s vbuf respCb sync
  | .call c => callStep s c
  | .addSgs vbuf serial sync ret => addSgs s vbuf serial sync ret
  | .waitDone vbuf timedOut => waitDone s vbuf timedOut
  | .cmdCb again => cmdCbStep s again
  | .complete i => complete s i
  | .deinit => some { s with ready := false }
  | .freeVbufs => freeVbufs s
  | .detach r => detach s r

/-- After `virtio_video_probe`. -/
def probe : State :=
  { heap := fun _ => none, pendingVbufList := [], vbufsSent := 0, qlock := false, ready := true, avail := [], used := []
    calls := [], cb := .idle, teardown := .no, freed := [], derefs := [], attributed := [], returned := [] }

def machine : Machine State Act where
  init s := s = probe
  step := step

end Agl.VirtioVideo
