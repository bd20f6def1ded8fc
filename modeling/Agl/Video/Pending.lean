/-
The list of pending buffers of a camera (`pending_buf_list`), over any order
of `virtio_video_buf_queue`, `virtio_video_buf_done` and
`virtio_video_queue_release_buffers`.

The calls of vb2 on the one queue exclude one another, as do the callbacks;
a release by STREAMOFF, a release by the event worker, the callbacks and
these calls interleave. A call is cut where it changes the list, sends a
command or gives a buffer back. The helpers refuse an m2m device, for which
they are not called; `virtio_video_pending_buf_list_empty` has no caller.

`list_add_tail` of an entry that is on the list breaks it; nothing is said
about what follows, nor about a call that goes on with a freed buffer. A
callback that runs for a command the virtqueue has refused is left out (see
`Submit`).
-/
import Agl.Lib.Machine
import Agl.Lib.Table

namespace Agl.VirtioVideo.Pending

/-- The address of a `struct virtio_video_buffer`. -/
abbrev Addr := Nat

/-- An initialised buffer. -/
structure VBuf where
  resourceId : Nat
  /-- vb2 has handed it to the driver -/
  active : Bool
  deriving DecidableEq, Repr

/-- Where `virtio_video_buf_done` is. -/
inductive DonePc
  /-- before `virtio_video_pending_buf_list_del` -/
  | del
  /-- before `v4l2_m2m_buf_done` -/
  | done
  deriving DecidableEq, Repr

/-- Where `virtio_video_queue_release_buffers` is. -/
inductive LoopPc
  | idle
  /-- at the condition of the loop -/
  | pop
  /-- before `v4l2_m2m_buf_done` on the buffer popped -/
  | done (vvb : Addr)
  deriving DecidableEq, Repr

/-- Who releases. -/
inductive Caller
  | streamOff | worker
  deriving DecidableEq, Repr

structure State where
  bufs : Table Addr VBuf
  pendingBufList : List Addr
  /-- the list is broken -/
  broken : Bool
  /-- the buffers whose `RESOURCE_QUEUE` the device owes an answer for -/
  outstanding : List Addr
  /-- `virtio_video_buf_queue` is between the list and the command -/
  queueing : Option Addr
  completing : Option (Addr × DonePc)
  streamOff : LoopPc
  worker : LoopPc

/-! ## The list -/

/-- `virtio_video_pending_buf_list_pop`; `none` is `-EAGAIN`. -/
def pendingBufListPop (pendingBufList : List Addr) : Option Addr := pendingBufList.head?

/-- `virtio_video_pending_buf_list_add` -/
def pendingBufListAdd (pendingBufList : List Addr) (virtioVb : Addr) : List Addr := pendingBufList ++ [virtioVb]

/-- `virtio_video_pending_buf_list_del`, which goes by the resource id. -/
def pendingBufListDel (resourceId : Addr → Option Nat) (pendingBufList : List Addr) (virtioVb : Addr) : List Addr :=
  pendingBufList.eraseP fun vb => resourceId vb = resourceId virtioVb

/-! ## The driver -/

def State.resourceId (s : State) (vb : Addr) : Option Nat := (s.bufs.lookup vb).map (·.resourceId)

def State.setActive (s : State) (vb : Addr) (v : VBuf) (active : Bool) : State :=
  { s with bufs := s.bufs.insert vb { v with active } }

def State.loop (s : State) : Caller → LoopPc
  | .streamOff => s.streamOff
  | .worker => s.worker

def State.setLoop (s : State) (pc : LoopPc) : Caller → State
  | .streamOff => { s with streamOff := pc }
  | .worker => { s with worker := pc }

/-- `virtio_video_buf_init` has succeeded. -/
def bufInit (s : State) (vb : Addr) (resourceId : Nat) : Option State :=
  if s.bufs.lookup vb = none then some { s with bufs := s.bufs.insert vb { resourceId, active := false } } else none

/-- `virtio_video_buf_cleanup`, and the buffer is freed. -/
def bufCleanup (s : State) (vb : Addr) : Option State := do
  let v ← s.bufs.lookup vb
  if v.active then none else some { s with bufs := s.bufs.erase vb }

/-- `virtio_video_buf_queue` up to its command. -/
def bufQueue (s : State) (vb : Addr) : Option State := do
  let v ← s.bufs.lookup vb
  if v.active ∨ s.queueing ≠ none then none
  else if vb ∈ s.pendingBufList then some { s with broken := true }
  else some { s.setActive vb v true with
    pendingBufList := pendingBufListAdd s.pendingBufList vb
    queueing := some vb }

/-- `virtio_video_cmd_resource_queue`; its failure is only reported. -/
def cmdResourceQueue (s : State) (ok : Bool) : Option State := do
  let vb ← s.queueing
  some { s with queueing := none, outstanding := if ok then vb :: s.outstanding else s.outstanding }

/-- vb2 takes a buffer back, after a failed `start_streaming` or when it
cancels the queue. -/
def takeBack (s : State) (vb : Addr) : Option State := do
  let v ← s.bufs.lookup vb
  some (s.setActive vb v false)

/-- The device answers; `virtio_video_buf_done` begins. -/
def answer (s : State) (vb : Addr) : Option State :=
  if vb ∈ s.outstanding ∧ s.completing = none then
    some { s with outstanding := s.outstanding.erase vb, completing := some (vb, .del) }
  else none

/-- The rest of `virtio_video_buf_done`. -/
def doneStep (s : State) : Option State := do
  let (vb, pc) ← s.completing
  let v ← s.bufs.lookup vb
  match pc with
  | .del => some { s with
      pendingBufList := pendingBufListDel s.resourceId s.pendingBufList vb
      completing := some (vb, .done) }
  | .done => some { s.setActive vb v false with completing := none }

/-- `virtio_video_queue_release_buffers`, whose `QUEUE_CLEAR` has been
answered. -/
def queueCleared (s : State) (c : Caller) : Option State :=
  if s.loop c = .idle then some (s.setLoop .pop c) else none

/-- Its loop. -/
def loopStep (s : State) (c : Caller) : Option State :=
  match s.loop c with
  | .idle => none
  | .pop =>
    match pendingBufListPop s.pendingBufList with
    | some vvb => some (s.setLoop (.done vvb) c)
    | none => some (s.setLoop .idle c)
  | .done vvb => (s.bufs.lookup vvb).map fun v => (s.setActive vvb v false).setLoop .pop c

inductive Act
  | bufInit (vb : Addr) (resourceId : Nat)
  | bufCleanup (vb : Addr)
  | bufQueue (vb : Addr)
  | cmdResourceQueue (ok : Bool)
  | takeBack (vb : Addr)
  | answer (vb : Addr)
  | doneStep
  | queueCleared (c : Caller)
  | loopStep (c : Caller)
  deriving DecidableEq, Repr

def step (s : State) (a : Act) : Option State :=
  if s.broken then none
  else
    match a with
    | .bufInit vb resourceId => bufInit s vb resourceId
    | .bufCleanup vb => bufCleanup s vb
    | .bufQueue vb => bufQueue s vb
    | .cmdResourceQueue ok => cmdResourceQueue s ok
    | .takeBack vb => takeBack s vb
    | .answer vb => answer s vb
    | .doneStep => doneStep s
    | .queueCleared c => queueCleared s c
    | .loopStep c => loopStep s c

/-- After `virtio_video_device_init`. -/
def deviceInit : State :=
  { bufs := ∅, pendingBufList := [], broken := false, outstanding := [], queueing := none, completing := none
    streamOff := .idle, worker := .idle }

def machine : Machine State Act where
  init s := s = deviceInit
  step := step

/-! ## What is asked for -/

/-- The command of the buffer is outstanding, or a call that has to do with
it has still to send it or to delete the entry. -/
def State.InHand (s : State) (vb : Addr) : Prop :=
  vb ∈ s.outstanding ∨ s.queueing = some vb ∨ s.completing = some (vb, .del)

/-- The list is what it is for. -/
structure Exact (s : State) : Prop where
  intact : s.broken = false
  once : ∀ vb ∈ s.outstanding, s.pendingBufList.count vb = 1
  only : ∀ vb ∈ s.pendingBufList, s.InHand vb ∧ (s.bufs.lookup vb).isSome = true
  handedBack : ∀ vb v, s.bufs.lookup vb = some v → v.active = true → s.InHand vb ∨ s.completing = some (vb, .done)

/-- Every command is queued; vb2 hands over, and frees, no buffer that is on
the list; and the first entry with the resource id of an answered buffer is
that buffer's. -/
def Orderly (s : State) : Act → Prop
  | .bufCleanup vb | .bufQueue vb => vb ∉ s.pendingBufList
  | .cmdResourceQueue ok => ok = true
  | .doneStep => ∀ vb, s.completing = some (vb, .del) →
    s.pendingBufList.find? (fun b => s.resourceId b = s.resourceId vb) = some vb
  | .bufInit .. | .takeBack _ | .answer _ | .queueCleared _ | .loopStep _ => True

/-! ## Entries -/

/-- Every entry is on the list once, and for one reason. -/
structure Listed (l outstanding : List Addr) (queueing deleting : Option Addr) : Prop where
  nodup : l.Nodup
  perm : l.Perm (outstanding ++ (queueing.toList ++ deleting.toList))

/-- The entry found is taken off. -/
theorem perm_eraseP {l : List Addr} {p : Addr → Bool} {vb : Addr} (h : l.find? p = some vb) :
    l.Perm (vb :: l.eraseP p) := by
  obtain ⟨hp, as, bs, rfl, has⟩ := List.find?_eq_some_iff_append.mp h
  have hno : ∀ a ∈ as, ¬p a = true := fun a ha => by simpa using has a ha
  rw [List.eraseP_append_right _ hno, List.eraseP_cons_of_pos hp]
  exact List.perm_middle

namespace Listed

variable {l outstanding : List Addr} {queueing deleting : Option Addr} {vb : Addr} {p : Addr → Bool}

theorem mem_iff (h : Listed l outstanding queueing deleting) :
    vb ∈ l ↔ vb ∈ outstanding ∨ queueing = some vb ∨ deleting = some vb := by
  rw [h.perm.mem_iff]
  simp

/-- An entry about to be sent is there for nothing else. -/
theorem not_queueing (h : Listed l outstanding (some vb) deleting) : vb ∉ outstanding ∧ deleting ≠ some vb := by
  have hn := List.nodup_append.mp (h.perm.nodup h.nodup)
  constructor
  · intro hvb
    exact hn.2.2 vb hvb vb (by simp) rfl
  · rintro rfl
    exact absurd hn.2.1 (by simp)

/-- Nor is one about to be deleted. -/
theorem not_deleting (h : Listed l outstanding queueing (some vb)) : vb ∉ outstanding ∧ queueing ≠ some vb := by
  have hn := List.nodup_append.mp (h.perm.nodup h.nodup)
  constructor
  · intro hvb
    exact hn.2.2 vb hvb vb (by simp) rfl
  · rintro rfl
    exact absurd hn.2.1 (by simp)

theorem add (h : Listed l outstanding none deleting) (hvb : vb ∉ l) :
    Listed (pendingBufListAdd l vb) outstanding (some vb) deleting where
  nodup := by
    rw [pendingBufListAdd, List.nodup_append_comm]
    exact List.nodup_cons.mpr ⟨hvb, h.nodup⟩
  perm := by
    have hp : (l ++ [vb]).Perm (vb :: (outstanding ++ deleting.toList)) :=
      (List.perm_append_singleton vb l).trans (h.perm.cons vb)
    exact hp.trans List.perm_middle.symm

theorem send (h : Listed l outstanding (some vb) deleting) : Listed l (vb :: outstanding) none deleting :=
  ⟨h.nodup, h.perm.trans List.perm_middle⟩

theorem answer (h : Listed l outstanding queueing none) (hvb : vb ∈ outstanding) :
    Listed l (outstanding.erase vb) queueing (some vb) where
  nodup := h.nodup
  perm := by
    have hp : (outstanding ++ queueing.toList).Perm (vb :: (outstanding.erase vb ++ queueing.toList)) :=
      (List.perm_cons_erase hvb).append_right queueing.toList
    have hl := h.perm
    rw [Option.toList_none, List.append_nil] at hl
    refine (hl.trans hp).trans ?_
    rw [← List.append_assoc]
    exact (List.perm_append_singleton vb _).symm

theorem del (h : Listed l outstanding queueing (some vb)) (hf : l.find? p = some vb) :
    Listed (l.eraseP p) outstanding queueing none where
  nodup := h.nodup.eraseP p
  perm := by
    have hl := (perm_eraseP hf).symm.trans h.perm
    rw [← List.append_assoc] at hl
    have hc := (hl.trans (List.perm_append_singleton vb (outstanding ++ queueing.toList))).cons_inv
    rw [Option.toList_none, List.append_nil]
    exact hc

end Listed

/-- What the list says of the buffers. -/
structure Owned (bufs : Table Addr VBuf) (l : List Addr) (completing : Option (Addr × DonePc)) : Prop where
  live : ∀ vb ∈ l, ∃ v, bufs.lookup vb = some v
  active : bufs.All fun vb v => v.active = true → vb ∈ l ∨ completing = some (vb, .done)

namespace Owned

variable {bufs : Table Addr VBuf} {l l' : List Addr} {completing : Option (Addr × DonePc)} {vb : Addr} {v : VBuf}

/-- A buffer written to is there, and so are those that were. -/
theorem live_insert (h : Owned bufs l completing) {b : Addr} (hb : b ∈ l ∨ b = vb) :
    ∃ w, (bufs.insert vb v).lookup b = some w := by
  by_cases hne : b = vb
  · exact ⟨v, Table.lookup_insert_some.mpr (.inl ⟨hne, rfl⟩)⟩
  · obtain ⟨w, hw⟩ := h.live b (hb.resolve_right hne)
    exact ⟨w, Table.lookup_insert_some.mpr (.inr ⟨hne, hw⟩)⟩

theorem set (h : Owned bufs l completing) (hv : v.active = false) : Owned (bufs.insert vb v) l completing where
  live b hb := h.live_insert (.inl hb)
  active := h.active.insert fun ha => by
    rw [hv] at ha
    cases ha

theorem erase (h : Owned bufs l completing) (hvb : vb ∉ l) : Owned (bufs.erase vb) l completing where
  live b hb := by
    obtain ⟨w, hw⟩ := h.live b hb
    have hne : b ≠ vb := by
      rintro rfl
      exact hvb hb
    exact ⟨w, Table.lookup_erase_some.mpr ⟨hne, hw⟩⟩
  active := h.active.erase

theorem hand (h : Owned bufs l completing) : Owned (bufs.insert vb v) (pendingBufListAdd l vb) completing where
  live b hb := h.live_insert ((List.mem_append.mp hb).imp_right List.mem_singleton.mp)
  active := by
    refine Table.All.insert (fun b w hw ha => ?_) fun _ => .inl (List.mem_append_right l (List.mem_singleton_self vb))
    exact (h.active b w hw ha).imp_left (List.mem_append_left [vb])

theorem answer (h : Owned bufs l none) : Owned bufs l (some (vb, .del)) where
  live := h.live
  active b w hw ha := .inl ((h.active b w hw ha).resolve_right fun he => by cases he)

theorem del (h : Owned bufs l (some (vb, .del))) (hp : l.Perm (vb :: l')) : Owned bufs l' (some (vb, .done)) where
  live b hb := h.live b (hp.mem_iff.mpr (List.mem_cons_of_mem vb hb))
  active b w hw ha := by
    have hb := (h.active b w hw ha).resolve_right fun he => by cases he
    obtain rfl | hb := List.mem_cons.mp (hp.mem_iff.mp hb)
    · exact .inr rfl
    · exact .inl hb

theorem done (h : Owned bufs l (some (vb, .done))) (hv : v.active = false) : Owned (bufs.insert vb v) l none where
  live := (h.set hv).live
  active b w hw ha := by
    obtain ⟨rfl, rfl⟩ | ⟨hne, hw⟩ := Table.lookup_insert_some.mp hw
    · rw [hv] at ha
      cases ha
    · refine .inl ((h.active b w hw ha).resolve_right fun he => hne ?_)
      cases he
      rfl

end Owned

/-! ## Steps -/

/-- The answered buffer whose entry is still to be deleted. -/
def State.deleting (s : State) : Option Addr :=
  match s.completing with
  | some (vb, .del) => some vb
  | some (_, .done) | none => none

structure Inv (s : State) : Prop where
  intact : s.broken = false
  listed : Listed s.pendingBufList s.outstanding s.queueing s.deleting
  owned : Owned s.bufs s.pendingBufList s.completing

theorem State.deleting_iff {s : State} {vb : Addr} : s.deleting = some vb ↔ s.completing = some (vb, .del) := by
  unfold deleting
  split
  · next b hc => simp [hc]
  · next b hc => simp [hc]
  · next hc => simp [hc]

theorem Inv.mem_iff {s : State} (h : Inv s) {vb : Addr} : vb ∈ s.pendingBufList ↔ s.InHand vb := by
  rw [h.listed.mem_iff, State.deleting_iff]
  rfl

theorem Inv.exact {s : State} (h : Inv s) : Exact s where
  intact := h.intact
  once vb hvb := List.count_eq_one_of_mem h.listed.nodup (h.mem_iff.mpr (.inl hvb))
  only vb hvb := by
    obtain ⟨v, hv⟩ := h.owned.live vb hvb
    exact ⟨h.mem_iff.mp hvb, by rw [hv]; rfl⟩
  handedBack vb v hv ha := (h.owned.active vb v hv ha).imp_left h.mem_iff.mp

variable {s s' : State} {vb : Addr}

theorem bufInit_inv {resourceId : Nat} (h : Inv s) (hs : bufInit s vb resourceId = some s') : Inv s' := by
  unfold bufInit at hs
  split at hs <;> cases hs
  exact ⟨h.intact, h.listed, h.owned.set rfl⟩

theorem bufCleanup_inv (h : Inv s) (hvb : vb ∉ s.pendingBufList) (hs : bufCleanup s vb = some s') : Inv s' := by
  obtain ⟨v, hv, hs⟩ := Option.bind_eq_some_iff.mp hs
  split at hs <;> cases hs
  exact ⟨h.intact, h.listed, h.owned.erase hvb⟩

theorem bufQueue_inv (h : Inv s) (hvb : vb ∉ s.pendingBufList) (hs : bufQueue s vb = some s') : Inv s' := by
  obtain ⟨v, hv, hs⟩ := Option.bind_eq_some_iff.mp hs
  rw [if_neg hvb] at hs
  split at hs
  · cases hs
  · next hc =>
    cases hs
    have hq : s.queueing = none := not_not.mp fun hne => hc (.inr hne)
    have hl := h.listed
    rw [hq] at hl
    exact ⟨h.intact, hl.add hvb, h.owned.hand⟩

theorem cmdResourceQueue_inv (h : Inv s) (hs : cmdResourceQueue s true = some s') : Inv s' := by
  obtain ⟨vb, hq, hs⟩ := Option.bind_eq_some_iff.mp hs
  cases hs
  have hl := h.listed
  rw [hq] at hl
  exact ⟨h.intact, hl.send, h.owned⟩

/-- A buffer that vb2 has again. -/
theorem Inv.takenBack (h : Inv s) (vb : Addr) (v : VBuf) : Inv (s.setActive vb v false) :=
  ⟨h.intact, h.listed, h.owned.set rfl⟩

theorem takeBack_inv (h : Inv s) (hs : takeBack s vb = some s') : Inv s' := by
  obtain ⟨v, hv, hs⟩ := Option.bind_eq_some_iff.mp hs
  cases hs
  exact h.takenBack vb v

theorem answer_inv (h : Inv s) (hs : answer s vb = some s') : Inv s' := by
  unfold answer at hs
  split at hs
  · next hc =>
    cases hs
    have hl := h.listed
    rw [State.deleting, hc.2] at hl
    refine ⟨h.intact, hl.answer hc.1, ?_⟩
    have ho := h.owned
    rw [hc.2] at ho
    exact ho.answer
  · cases hs

theorem doneStep_inv (h : Inv s) (ho : Orderly s .doneStep) (hs : doneStep s = some s') : Inv s' := by
  obtain ⟨⟨vb, pc⟩, hc, hs⟩ := Option.bind_eq_some_iff.mp hs
  obtain ⟨v, hv, hs⟩ := Option.bind_eq_some_iff.mp hs
  have hl := h.listed
  have hown := h.owned
  rw [hc] at hown
  cases pc with
  | del =>
    cases hs
    have hf := ho vb hc
    rw [State.deleting_iff.mpr hc] at hl
    exact ⟨h.intact, hl.del hf, hown.del (perm_eraseP hf)⟩
  | done =>
    cases hs
    rw [State.deleting, hc] at hl
    exact ⟨h.intact, hl, hown.done rfl⟩

theorem setLoop_inv (h : Inv s) (pc : LoopPc) (c : Caller) : Inv (s.setLoop pc c) := by
  cases c <;> exact ⟨h.intact, h.listed, h.owned⟩

theorem loopStep_inv {c : Caller} (h : Inv s) (hs : loopStep s c = some s') : Inv s' := by
  unfold loopStep at hs
  split at hs
  · cases hs
  · split at hs
    · cases hs
      exact setLoop_inv h _ c
    · cases hs
      exact setLoop_inv h _ c
  · obtain ⟨v, hv, rfl⟩ := Option.map_eq_some_iff.mp hs
    exact setLoop_inv (h.takenBack _ v) .pop c

theorem Inv.step {a : Act} (h : Inv s) (ho : Orderly s a) (hs : machine.step s a = some s') : Inv s' := by
  simp only [machine, Pending.step] at hs
  rw [if_neg (by rw [h.intact]; exact Bool.false_ne_true)] at hs
  cases a with
  | bufInit vb resourceId => exact bufInit_inv h hs
  | bufCleanup vb => exact bufCleanup_inv h ho hs
  | bufQueue vb => exact bufQueue_inv h ho hs
  | cmdResourceQueue ok =>
    cases ho
    exact cmdResourceQueue_inv h hs
  | takeBack vb => exact takeBack_inv h hs
  | answer vb => exact answer_inv h hs
  | doneStep => exact doneStep_inv h ho hs
  | queueCleared c =>
    dsimp only [queueCleared] at hs
    split at hs <;> cases hs
    exact setLoop_inv h .pop c
  | loopStep c => exact loopStep_inv h hs

theorem inv_inductive : machine.Inductive Orderly Inv where
  init s hs := by
    subst hs
    refine ⟨rfl, ⟨List.nodup_nil, List.Perm.nil⟩, fun vb hvb => ?_, fun vb v hv => ?_⟩
    · cases hvb
    · cases hv
  step _ _ _ h ho hs := h.step ho hs

/-! ## Steps that break the list -/

theorem not_exact_of_entry (hvb : vb ∈ s.pendingBufList) (hn : ¬s.InHand vb) : ¬Exact s := fun h =>
  hn (h.only vb hvb).1

/-- A buffer is freed with its entry on the list. -/
theorem bufCleanup_notExact (hvb : vb ∈ s.pendingBufList) (hs : bufCleanup s vb = some s') : ¬Exact s' := by
  obtain ⟨v, hv, hs⟩ := Option.bind_eq_some_iff.mp hs
  split at hs <;> cases hs
  intro h
  have hlive := (h.only vb hvb).2
  simp at hlive

/-- A buffer is added twice. -/
theorem bufQueue_notExact (hvb : vb ∈ s.pendingBufList) (hs : bufQueue s vb = some s') : ¬Exact s' := by
  obtain ⟨v, hv, hs⟩ := Option.bind_eq_some_iff.mp hs
  rw [if_pos hvb] at hs
  split at hs <;> cases hs
  exact fun h => by cases h.intact

/-- A command is not queued: its buffer stays on the list. -/
theorem cmdResourceQueue_notExact (h : Inv s) (hs : cmdResourceQueue s false = some s') : ¬Exact s' := by
  obtain ⟨vb, hq, hs⟩ := Option.bind_eq_some_iff.mp hs
  cases hs
  have hl := h.listed
  rw [hq] at hl
  obtain ⟨hout, hdel⟩ := hl.not_queueing
  refine not_exact_of_entry (h.mem_iff.mpr (.inr (.inl hq))) ?_
  rintro (ho | hq' | hc)
  · exact hout ho
  · cases hq'
  · exact hdel (State.deleting_iff.mpr hc)

/-- The entry deleted is another buffer's. -/
theorem doneStep_notExact (h : Inv s) (ho : ¬Orderly s .doneStep) (hs : doneStep s = some s') : ¬Exact s' := by
  simp only [Orderly, Classical.not_forall] at ho
  obtain ⟨vb, hc, hf⟩ := ho
  simp only [doneStep, hc, Option.bind_eq_bind, Option.bind_some, Option.bind_eq_some_iff] at hs
  obtain ⟨v, hv, hs⟩ := hs
  cases hs
  have hl := h.listed
  rw [State.deleting_iff.mpr hc] at hl
  obtain ⟨hout, hq⟩ := hl.not_deleting
  have hvb : vb ∈ s.pendingBufList := h.mem_iff.mpr (.inr (.inr hc))
  have hstays : vb ∈ pendingBufListDel s.resourceId s.pendingBufList vb := by
    cases hfind : s.pendingBufList.find? fun b => decide (s.resourceId b = s.resourceId vb) with
    | none => exact absurd (List.find?_eq_none.mp hfind vb hvb) (by simp)
    | some other =>
      have hne : vb ≠ other := by
        rintro rfl
        exact hf hfind
      exact (List.mem_cons.mp ((perm_eraseP hfind).mem_iff.mp hvb)).resolve_left hne
  refine not_exact_of_entry hstays ?_
  rintro (ho | hq' | hc')
  · exact hout ho
  · exact hq hq'
  · cases hc'

theorem step_notExact {a : Act} (h : Inv s) (ho : ¬Orderly s a) (hs : machine.step s a = some s') : ¬Exact s' := by
  simp only [machine, Pending.step] at hs
  rw [if_neg (by rw [h.intact]; exact Bool.false_ne_true)] at hs
  cases a with
  | bufCleanup vb => exact bufCleanup_notExact (not_not.mp ho) hs
  | bufQueue vb => exact bufQueue_notExact (not_not.mp ho) hs
  | cmdResourceQueue ok =>
    cases ok with
    | false => exact cmdResourceQueue_notExact h hs
    | true => exact absurd rfl ho
  | doneStep => exact doneStep_notExact h ho hs
  | bufInit | takeBack | answer | queueCleared | loopStep => exact absurd trivial ho

/-- **The list of pending buffers is exact** in every run in which every
command is queued, vb2 hands over and frees no buffer that is on the list,
and no two buffers on it are confused for their resource id; the first step
that does otherwise breaks it. -/
theorem pendingBufList_exact {s : State} (h : machine.Reach Orderly s) :
    Exact s ∧ ∀ a s', machine.step s a = some s' → (Exact s' ↔ Orderly s a) := by
  refine ⟨(inv_inductive.reach h).exact, fun a s' hs => ?_⟩
  exact inv_inductive.keeps_iff (fun s hi => hi.exact) (fun s a s' hi ho hs => step_notExact hi ho hs) h hs

instance (s : State) : (a : Act) → Decidable (Orderly s a)
  | .bufCleanup vb | .bufQueue vb => inferInstanceAs (Decidable (vb ∉ s.pendingBufList))
  | .cmdResourceQueue ok => inferInstanceAs (Decidable (ok = true))
  | .doneStep => match hc : s.completing with
    | some (vb, .del) => decidable_of_iff
      (s.pendingBufList.find? (fun b => s.resourceId b = s.resourceId vb) = some vb)
      ⟨fun hf b hb => by rw [hc] at hb; cases hb; exact hf, fun ho => ho vb hc⟩
    | some (_, .done) | none => .isTrue fun b hb => by rw [hc] at hb; cases hb
  | .bufInit .. | .takeBack _ | .answer _ | .queueCleared _ | .loopStep _ => .isTrue trivial

/-- A buffer is answered while STREAMOFF goes round its loop. -/
theorem pendingBufList_exact_released : ∃ s, Exact s ∧ s.pendingBufList = [] ∧ s.streamOff = .idle := by
  obtain ⟨s, hs, hl⟩ := Machine.exists_reach Orderly (show machine.init deviceInit from rfl)
    [.bufInit 0 1, .bufInit 1 2, .bufQueue 0, .cmdResourceQueue true, .bufQueue 1, .cmdResourceQueue true, .answer 1,
      .queueCleared .streamOff, .doneStep, .loopStep .streamOff, .doneStep, .loopStep .streamOff, .loopStep .streamOff,
      .answer 0, .doneStep, .loopStep .streamOff, .doneStep, .loopStep .streamOff]
    (fun s => s.pendingBufList = [] ∧ s.streamOff = .idle) (by decide +kernel)
  exact ⟨s, (pendingBufList_exact hs).1, hl⟩

/-- A command that is not queued leaves its buffer on the list and with the
driver. -/
theorem notQueued_stays : ∃ s, machine.Reachable s ∧ (s.pendingBufList = [0] ∧ s.outstanding = [] ∧
    s.queueing = none ∧ s.completing = none ∧ s.bufs.lookup 0 = some ⟨1, true⟩) ∧ ¬Exact s := by
  obtain ⟨s, hs, hp⟩ := Machine.exists_reach (fun _ _ => True) (show machine.init deviceInit from rfl)
    [.bufInit 0 1, .bufQueue 0, .cmdResourceQueue false]
    (fun s => s.pendingBufList = [0] ∧ s.outstanding = [] ∧ s.queueing = none ∧ s.completing = none ∧
      s.bufs.lookup 0 = some ⟨1, true⟩) (by decide +kernel)
  obtain ⟨hl, ho, hq, hc, -⟩ := id hp
  refine ⟨s, hs, hp, fun h => ?_⟩
  have hin := (h.only 0 (by rw [hl]; decide)).1
  simp [State.InHand, ho, hq, hc] at hin

end Agl.VirtioVideo.Pending
