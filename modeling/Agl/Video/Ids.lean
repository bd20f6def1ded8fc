/-
Stream and resource ids over any order of opens, releases,
`virtio_video_buf_init` and `virtio_video_buf_cleanup`, where `idr_alloc` may
fail at any call.

`virtio_video_stream_id_get` and `virtio_video_resource_id_get` have no
result: an error number is stored as the id. `idr_remove` of an id that is
not in the table does nothing. Streams are those of `Open`. A buffer is known
by its address; vb2 cleans it up once for every `buf_init` that succeeded,
and before the release of its stream goes on.
-/
import Agl.Video.OpenFacts

namespace Agl.VirtioVideo.Ids

open Open (Addr errId intMax maxErrno)

/-! ## The machine -/

/-- Where a buffer is. -/
inductive BufPc
  /-- `virtio_video_resource_id_get` -/
  | idGet
  /-- `virtio_video_cmd_resource_attach` -/
  | attach
  /-- `virtio_video_buf_init` has returned 0 -/
  | ready
  deriving DecidableEq, Repr

/-- It has taken its id. -/
def BufPc.hasId : BufPc → Bool
  | .idGet => false
  | .attach | .ready => true

structure VBuf where
  stream : Addr
  pc : BufPc
  /-- the local `resource_id`, then the buffer's -/
  resourceId : Nat
  deriving DecidableEq, Repr

structure State where
  dev : Open.State
  resourceIdr : Finset Nat
  bufs : Table Addr VBuf

/-- A buffer of the stream that `p` holds of. -/
def State.hasBuf (s : State) (stream : Addr) (p : VBuf → Bool) : Bool :=
  s.bufs.entries.any fun e => e.2.stream = stream && p e.2

/-- What the buffers of a stream allow: a release begins when no `buf_init`
is running, and frees the buffers with the m2m context. -/
def State.allows (s : State) : Open.Act → Bool
  | .deviceRelease stream => !s.hasBuf stream fun b => b.pc ≠ .ready
  | .releaseStep stream =>
    !((s.dev.streams.lookup stream).any fun st => st.pc = .relCtx) || !s.hasBuf stream fun _ => true
  | _ => true

/-- vb2 calls `virtio_video_buf_init`. -/
def bufInit (s : State) (buf stream : Addr) : Option State := do
  let st ← s.dev.streams.lookup stream
  if st.pc = .opened ∧ s.bufs.lookup buf = none then
    some { s with bufs := s.bufs.insert buf { stream, pc := .idGet, resourceId := 0 } }
  else none

/-- `virtio_video_resource_id_get` -/
def resourceIdGet (s : State) (buf : Addr) (err : Option Nat) : Option State := do
  let b ← s.bufs.lookup buf
  if b.pc = .idGet then
    match err with
    | none =>
      let handle := smallestFree s.resourceIdr 1
      if handle ≤ intMax then
        some { s with
          bufs := s.bufs.insert buf { b with pc := .attach, resourceId := handle }
          resourceIdr := insert handle s.resourceIdr }
      else none
    | some errno =>
      if 0 < errno ∧ errno ≤ maxErrno then
        some { s with bufs := s.bufs.insert buf { b with pc := .attach, resourceId := errId errno } }
      else none
  else none

/-- `virtio_video_resource_id_put`, where the buffer goes. -/
def resourceIdPut (s : State) (buf : Addr) (b : VBuf) : State :=
  { s with bufs := s.bufs.erase buf, resourceIdr := s.resourceIdr.erase b.resourceId }

/-- `virtio_video_cmd_resource_attach`, and the rest of `virtio_video_buf_init`. -/
def resourceAttach (s : State) (buf : Addr) (ok : Bool) : Option State := do
  let b ← s.bufs.lookup buf
  if b.pc = .attach then
    some (if ok then { s with bufs := s.bufs.insert buf { b with pc := .ready } } else resourceIdPut s buf b)
  else none

/-- `virtio_video_buf_cleanup` -/
def bufCleanup (s : State) (buf : Addr) : Option State := do
  let b ← s.bufs.lookup buf
  let st ← s.dev.streams.lookup b.stream
  if b.pc = .ready ∧ (st.pc = .opened ∨ st.pc = .relCtx) then some (resourceIdPut s buf b) else none

inductive Act
  /-- of `virtio_video_device_open`, `_release` or the event worker -/
  | dev (a : Open.Act)
  | bufInit (buf stream : Addr)
  | resourceIdGet (buf : Addr) (err : Option Nat)
  | resourceAttach (buf : Addr) (ok : Bool)
  | bufCleanup (buf : Addr)
  deriving DecidableEq, Repr

def step (s : State) : Act → Option State
  | .dev a => if s.allows a then (Open.machine.step s.dev a).map fun dev => { s with dev } else none
  | .bufInit buf stream => bufInit s buf stream
  | .resourceIdGet buf err => resourceIdGet s buf err
  | .resourceAttach buf ok => resourceAttach s buf ok
  | .bufCleanup buf => bufCleanup s buf

def machine : Machine State Act where
  init s := Open.machine.init s.dev ∧ s.resourceIdr = ∅ ∧ s.bufs = ∅
  step := step

/-! ## What is asked for -/

/-- The stream has the id: it has got it, and not put it back. -/
def LiveStream (s : State) (stream : Addr) (id : Nat) : Prop :=
  ∃ st ∈ s.dev.streams.lookup stream, st.pc.hasId = true ∧ st.streamId = id

/-- The buffer has the id. -/
def LiveBuf (s : State) (buf : Addr) (id : Nat) : Prop :=
  ∃ b ∈ s.bufs.lookup buf, b.pc.hasId = true ∧ b.resourceId = id

structure UniqueIds (s : State) : Prop where
  streams : ∀ a b id, LiveStream s a id → LiveStream s b id → a = b
  mapped : ∀ a id, LiveStream s a id → s.dev.streamIdr.lookup id = some a
  bufs : ∀ a b id, LiveBuf s a id → LiveBuf s b id → a = b

/-- What stays live stays in its table. -/
structure KeepsIds (s s' : State) : Prop where
  streams : ∀ a id, LiveStream s a id → LiveStream s' a id →
    s.dev.streamIdr.lookup id = some a → s'.dev.streamIdr.lookup id = some a
  bufs : ∀ b id, LiveBuf s b id → LiveBuf s' b id → id ∈ s.resourceIdr → id ∈ s'.resourceIdr

/-- `idr_alloc` does not fail for a stream, nor for a buffer with an error
number that a live buffer has for an id. -/
def Numbered (s : State) : Act → Prop
  | .dev (.streamIdGet _ err) => err = none
  | .resourceIdGet _ err => ∀ errno ∈ err, ∀ b, ¬LiveBuf s b (errId errno)
  | _ => True

theorem noLiveBuf_iff {s : State} {id : Nat} :
    (∀ e ∈ s.bufs.entries, ¬(e.2.pc.hasId = true ∧ e.2.resourceId = id)) ↔ ∀ b, ¬LiveBuf s b id := by
  constructor
  · rintro h buf ⟨b, hb, hhas⟩
    exact h ⟨buf, b⟩ (AList.mem_lookup_iff.mp hb) hhas
  · exact fun h e he hhas => h e.1 ⟨e.2, AList.mem_lookup_iff.mpr he, hhas⟩

instance (s : State) (id : Nat) : Decidable (∀ b, ¬LiveBuf s b id) := decidable_of_iff _ noLiveBuf_iff

instance (s : State) : (a : Act) → Decidable (Numbered s a)
  | .dev (.streamIdGet _ err) => inferInstanceAs (Decidable (err = none))
  | .resourceIdGet _ err => inferInstanceAs (Decidable (∀ errno ∈ err, ∀ b, ¬LiveBuf s b (errId errno)))
  | .dev .deviceOpen | .dev .openFails | .dev (.kzalloc _) | .dev (.openStep ..) | .dev .clearBusy
  | .dev (.deviceRelease _) | .dev (.releaseStep _) | .dev (.handleEvent ..) | .dev .eventDone
  | .bufInit .. | .resourceAttach .. | .bufCleanup _ => .isTrue trivial

/-! ## What a step can do -/

/-- One step, by the branch taken. -/
inductive Step (s : State) : Act → State → Prop
  | dev {a dev} : Open.machine.step s.dev a = some dev → Step s (.dev a) { s with dev }
  | bufInit {buf stream} : s.bufs.lookup buf = none → Step s (.bufInit buf stream)
      { s with bufs := s.bufs.insert buf { stream, pc := .idGet, resourceId := 0 } }
  | idGot {buf b} : s.bufs.lookup buf = some b → b.pc = .idGet → smallestFree s.resourceIdr 1 ≤ intMax →
      Step s (.resourceIdGet buf none) { s with
        bufs := s.bufs.insert buf { b with pc := .attach, resourceId := smallestFree s.resourceIdr 1 }
        resourceIdr := insert (smallestFree s.resourceIdr 1) s.resourceIdr }
  | idErr {buf b errno} : s.bufs.lookup buf = some b → b.pc = .idGet → errno ≤ maxErrno →
      Step s (.resourceIdGet buf (some errno))
        { s with bufs := s.bufs.insert buf { b with pc := .attach, resourceId := errId errno } }
  | attached {buf b} : s.bufs.lookup buf = some b → b.pc = .attach →
      Step s (.resourceAttach buf true) { s with bufs := s.bufs.insert buf { b with pc := .ready } }
  | notAttached {buf b} : s.bufs.lookup buf = some b → b.pc = .attach →
      Step s (.resourceAttach buf false) (resourceIdPut s buf b)
  | cleaned {buf b} : s.bufs.lookup buf = some b → b.pc = .ready → Step s (.bufCleanup buf) (resourceIdPut s buf b)

theorem resourceIdGet_cases {s s' : State} {buf : Addr} {err : Option Nat} (h : resourceIdGet s buf err = some s') :
    Step s (.resourceIdGet buf err) s' := by
  obtain ⟨b, hb, h⟩ := Option.bind_eq_some_iff.mp h
  split at h
  · next hpc =>
    cases err with
    | none =>
      dsimp only at h
      split at h <;> cases h
      exact .idGot hb hpc ‹_›
    | some errno =>
      dsimp only at h
      split at h <;> cases h
      next he => exact .idErr hb hpc he.2
  · cases h

theorem step_cases {s s' : State} {a : Act} (h : machine.step s a = some s') : Step s a s' := by
  cases a with
  | dev a =>
    simp only [machine, step] at h
    split at h
    · obtain ⟨dev, hd, rfl⟩ := Option.map_eq_some_iff.mp h
      exact .dev hd
    · cases h
  | bufInit buf stream =>
    obtain ⟨st, -, h⟩ := Option.bind_eq_some_iff.mp h
    split at h <;> cases h
    next hc => exact .bufInit hc.2
  | resourceIdGet buf err => exact resourceIdGet_cases h
  | resourceAttach buf ok =>
    obtain ⟨b, hb, h⟩ := Option.bind_eq_some_iff.mp h
    split at h
    · cases ok with
      | false =>
        cases h
        exact .notAttached hb ‹_›
      | true =>
        cases h
        exact .attached hb ‹_›
    · cases h
  | bufCleanup buf =>
    obtain ⟨b, hb, h⟩ := Option.bind_eq_some_iff.mp h
    obtain ⟨st, -, h⟩ := Option.bind_eq_some_iff.mp h
    split at h
    · next hc =>
      cases h
      exact .cleaned hb hc.1
    · cases h

/-! ## resource_idr -/

/-- The ids of the buffers differ, and are in `resource_idr` but for those
that stand for an error. -/
structure Owned (bufs : Table Addr VBuf) (idr : Finset Nat) : Prop where
  kept : bufs.All fun _ b => b.pc.hasId = true → b.resourceId ≤ intMax → b.resourceId ∈ idr
  apart : ∀ a ba, bufs.lookup a = some ba → ba.pc.hasId = true →
    ∀ c bc, bufs.lookup c = some bc → bc.pc.hasId = true → ba.resourceId = bc.resourceId → a = c

namespace Owned

variable {bufs : Table Addr VBuf} {idr idr' : Finset Nat} {buf : Addr} {b b' : VBuf}

/-- A buffer without an id, or with one that no other has. -/
theorem withBuf (h : Owned bufs idr) (hsub : idr ⊆ idr')
    (hk : b'.pc.hasId = true → b'.resourceId ≤ intMax → b'.resourceId ∈ idr')
    (hne : b'.pc.hasId = true → ∀ c bc, bufs.lookup c = some bc → bc.pc.hasId = true →
      b'.resourceId = bc.resourceId → buf = c) : Owned (bufs.insert buf b') idr' where
  kept := Table.All.insert (fun c bc hc hh hle => hsub (h.kept c bc hc hh hle)) hk
  apart a ba ha hha c bc hc hhc he := by
    obtain ⟨rfl, rfl⟩ | ⟨-, ha'⟩ := Table.lookup_insert_some.mp ha
    · obtain ⟨rfl, rfl⟩ | ⟨-, hc'⟩ := Table.lookup_insert_some.mp hc
      · rfl
      · exact hne hha c bc hc' hhc he
    · obtain ⟨rfl, rfl⟩ | ⟨-, hc'⟩ := Table.lookup_insert_some.mp hc
      · exact (hne hhc a ba ha' hha he.symm).symm
      · exact h.apart a ba ha' hha c bc hc' hhc he

/-- The buffer goes on with its id. -/
theorem keep (h : Owned bufs idr) (hb : bufs.lookup buf = some b) (hid : b'.resourceId = b.resourceId)
    (hhas : b'.pc.hasId = b.pc.hasId) : Owned (bufs.insert buf b') idr := by
  refine h.withBuf (Finset.Subset.refl idr) (fun hh hle => ?_) fun hh c bc hc hhc he => ?_
  · rw [hid] at hle ⊢
    exact h.kept buf b hb (hhas ▸ hh) hle
  · exact h.apart buf b hb (hhas ▸ hh) c bc hc hhc (hid ▸ he)

/-- The buffer takes a free id. -/
theorem get (h : Owned bufs idr) {id : Nat} (hid : b'.resourceId = id) (hle : id ≤ intMax) (hfree : id ∉ idr) :
    Owned (bufs.insert buf b') (insert id idr) := by
  refine h.withBuf (Finset.subset_insert id idr) (fun _ _ => ?_) fun _ c bc hc hhc he => ?_
  · rw [hid]
    exact Finset.mem_insert_self id idr
  · rw [hid] at he
    exact absurd (h.kept c bc hc hhc (he ▸ hle)) (he ▸ hfree)

/-- The buffer puts its id back, and goes. -/
theorem put (h : Owned bufs idr) (hb : bufs.lookup buf = some b) (hhas : b.pc.hasId = true) :
    Owned (bufs.erase buf) (idr.erase b.resourceId) where
  kept c bc hc hhc hle := by
    obtain ⟨hne, hc⟩ := Table.lookup_erase_some.mp hc
    refine Finset.mem_erase.mpr ⟨fun he => hne ?_, h.kept c bc hc hhc hle⟩
    exact h.apart c bc hc hhc buf b hb hhas he
  apart a ba ha hha c bc hc hhc := by
    obtain ⟨-, ha⟩ := Table.lookup_erase_some.mp ha
    obtain ⟨-, hc⟩ := Table.lookup_erase_some.mp hc
    exact h.apart a ba ha hha c bc hc hhc

end Owned

/-- An error number is no id of `idr_alloc`. -/
theorem intMax_lt_errId {errno : Nat} (h : errno ≤ maxErrno) : intMax < errId errno := by
  simp only [intMax, errId, maxErrno] at h ⊢
  omega

theorem Owned.step {s s' : State} {a : Act} (h : Owned s.bufs s.resourceIdr) (hn : Numbered s a) (hs : Step s a s') :
    Owned s'.bufs s'.resourceIdr := by
  cases hs with
  | dev => exact h
  | bufInit => exact h.withBuf (Finset.Subset.refl _) (fun hh => by cases hh) fun hh => by cases hh
  | idGot hb hpc hle => exact h.get rfl hle (smallestFree_not_mem _ _)
  | idErr hb hpc he =>
    refine h.withBuf (Finset.Subset.refl _) (fun _ hle => ?_) fun _ c bc hc hhc hid => ?_
    · exact absurd hle (Nat.not_le.mpr (intMax_lt_errId he))
    · exact absurd ⟨bc, hc, hhc, hid.symm⟩ (hn _ rfl c)
  | attached hb hpc => exact h.keep hb rfl (by rw [hpc]; rfl)
  | notAttached hb hpc | cleaned hb hpc => exact h.put hb (by rw [hpc]; rfl)

/-! ## stream_idr -/

/-- No stream has an error number for its id. -/
def Small (streams : Table Addr Open.VStream) : Prop :=
  streams.All fun _ st => st.pc.hasId = true → st.streamId ≤ intMax

/-- The stream goes on with its id, or without one. -/
theorem Small.keep {streams : Table Addr Open.VStream} {stream : Addr} {st st' : Open.VStream} (h : Small streams)
    (hst : streams.lookup stream = some st) (hid : st'.streamId = st.streamId)
    (hhas : st'.pc.hasId = true → st.pc.hasId = true) : Small (streams.insert stream st') :=
  Table.All.insert h fun hh => by
    rw [hid]
    exact h stream st hst (hhas hh)

theorem Small.step {s s' : Open.State} {a : Open.Act} (h : Small s.streams)
    (hn : ∀ stream err, a = .streamIdGet stream err → err = none) (hs : Open.Step s a s') : Small s'.streams := by
  cases hs with
  | refused | entered | failed | cleared | event | eventDone => exact h
  | alloc => exact Table.All.insert h fun hh => by cases hh
  | idGot hst hpc hle => exact Table.All.insert h fun _ => hle
  | idErr => cases hn _ _ rfl
  | created hst hpc | notCreated hst hpc | release hst hpc | destroyed hst hpc =>
    exact h.keep hst rfl fun _ => by rw [hpc]; rfl
  | opens hst ho => exact h.keep hst ho.frame.1 fun _ => ho.frame.2.1
  | releases hst hr =>
    obtain ⟨hid, hhas, -⟩ := Open.VStream.relStep_frame hr
    exact h.keep hst hid fun _ => hhas
  | idPut hst hpc | relIdPut hst hpc => exact h.keep hst rfl fun hh => by cases hh
  | freed | released => exact Table.All.erase h

/-- A failed `idr_alloc` leaves a stream that is not in `stream_idr`. -/
theorem idErr_unmapped {s s' : Open.State} {stream : Addr} {errno : Nat} (h : Open.Registered s.streams s.streamIdr)
    (hs : Open.machine.step s (.streamIdGet stream (some errno)) = some s') :
    (∃ st ∈ s'.streams.lookup stream, st.pc.hasId = true ∧ st.streamId = errId errno) ∧
      s'.streamIdr.lookup (errId errno) ≠ some stream := by
  obtain ⟨st, hst, hs⟩ := Option.bind_eq_some_iff.mp hs
  split at hs
  · next hpc =>
    dsimp only at hs
    split at hs <;> cases hs
    refine ⟨⟨_, AList.lookup_insert _, rfl, rfl⟩, fun hmap => ?_⟩
    obtain ⟨st', hst', hhas, -⟩ := h.sound _ _ hmap
    cases hst.symm.trans hst'
    rw [hpc] at hhas
    cases hhas
  · cases hs

/-! ## Runs -/

structure Inv (s : State) : Prop where
  registered : Open.Registered s.dev.streams s.dev.streamIdr
  small : Small s.dev.streams
  owned : Owned s.bufs s.resourceIdr

theorem Inv.step {s s' : State} {a : Act} (h : Inv s) (hn : Numbered s a) (hs : machine.step s a = some s') :
    Inv s' := by
  have hstep := step_cases hs
  refine ⟨?_, ?_, h.owned.step hn hstep⟩
  · cases hstep with
    | dev hd => exact h.registered.step (Open.step_cases hd)
    | bufInit | idGot | idErr | attached | notAttached | cleaned => exact h.registered
  · cases hstep with
    | dev hd => exact h.small.step (fun stream err he => by subst he; exact hn) (Open.step_cases hd)
    | bufInit | idGot | idErr | attached | notAttached | cleaned => exact h.small

theorem inv_inductive : machine.Inductive Numbered Inv where
  init s hs := by
    obtain ⟨hdev, -, hbufs⟩ := hs
    refine ⟨Open.registered_inductive.init _ hdev, ?_, ?_⟩
    · obtain ⟨isM2mDev, hdev⟩ := hdev
      rw [hdev]
      exact fun a st hst => by cases hst
    · rw [hbufs]
      exact ⟨fun a b hb => (by cases hb), fun a ba ha => by cases ha⟩
  step _ _ _ h hn hs := h.step hn hs

theorem Inv.unique {s : State} (h : Inv s) : UniqueIds s := by
  have mapped : ∀ a id, LiveStream s a id → s.dev.streamIdr.lookup id = some a := by
    rintro a id ⟨st, hst, hhas, rfl⟩
    exact h.registered.complete a st hst hhas (h.small a st hst hhas)
  refine ⟨fun a b id ha hb => ?_, mapped, ?_⟩
  · have hab := (mapped a id ha).symm.trans (mapped b id hb)
    exact Option.some.inj hab
  · rintro a b id ⟨ba, ha, hha, rfl⟩ ⟨bb, hb, hhb, he⟩
    exact h.owned.apart a ba ha hha b bb hb hhb he.symm

/-- A put takes no id of a stream that goes on. -/
theorem keeps_streams {s s' : State} {a : Act} (h : Inv s) (hs : Step s a s') {stream : Addr} {id : Nat}
    (hl : LiveStream s stream id) (hl' : LiveStream s' stream id) : s'.dev.streamIdr.lookup id = some stream := by
  obtain ⟨st, hst, hhas, rfl⟩ := hl
  have hle := h.small stream st hst hhas
  obtain ⟨st', hst', hhas', hid⟩ := hl'
  rw [← hid] at hle ⊢
  cases hs with
  | dev hd => exact (h.registered.step (Open.step_cases hd)).complete stream st' hst' hhas' hle
  | bufInit | idGot | idErr | attached | notAttached | cleaned => exact h.registered.complete stream st' hst' hhas' hle

/-- Nor one of a buffer. -/
theorem keeps_bufs {s s' : State} {a : Act} (h : Owned s.bufs s.resourceIdr) (hs : Step s a s') {buf : Addr} {id : Nat}
    (hl : LiveBuf s buf id) (hl' : LiveBuf s' buf id) (hid : id ∈ s.resourceIdr) : id ∈ s'.resourceIdr := by
  obtain ⟨b, hb, hhas, rfl⟩ := hl
  have put : ∀ {buf' : Addr} {b' : VBuf}, s.bufs.lookup buf' = some b' → b'.pc.hasId = true →
      LiveBuf (resourceIdPut s buf' b') buf b.resourceId → b.resourceId ∈ (resourceIdPut s buf' b').resourceIdr := by
    intro buf' b' hb' hhas' hl'
    obtain ⟨c, hc, -⟩ := hl'
    have hne := (Table.lookup_erase_some.mp hc).1
    exact Finset.mem_erase.mpr ⟨fun he => hne (h.apart buf b hb hhas buf' b' hb' hhas' he), hid⟩
  cases hs with
  | dev | bufInit | idErr | attached => exact hid
  | idGot => exact Finset.mem_insert_of_mem hid
  | notAttached hb' hpc | cleaned hb' hpc => exact put hb' (by rw [hpc]; rfl) hl'

/-- An error number given as an id breaks what is asked for. -/
theorem step_notUnique {s s' : State} {a : Act} (h : Inv s) (hn : ¬Numbered s a) (hs : Step s a s') :
    ¬UniqueIds s' := by
  intro hu
  cases hs with
  | @dev a dev hd =>
    cases a with
    | streamIdGet stream err =>
      cases err with
      | none => exact hn rfl
      | some errno =>
        obtain ⟨hl, hne⟩ := idErr_unmapped h.registered hd
        exact hne (hu.mapped stream _ hl)
    | deviceOpen | openFails | kzalloc | openStep | clearBusy | deviceRelease | releaseStep | handleEvent | eventDone =>
      exact hn trivial
  | @idErr buf b errno hb hpc he =>
    apply hn
    intro errno' herr
    cases herr
    rintro c ⟨bc, hc, hhc, hid⟩
    have hne : c ≠ buf := by
      intro heq
      subst heq
      cases hb.symm.trans hc
      rw [hpc] at hhc
      cases hhc
    exact hne (hu.bufs c buf (errId errno)
      ⟨bc, Table.lookup_insert_some.mpr (.inr ⟨hne, hc⟩), hhc, hid⟩ ⟨_, AList.lookup_insert _, rfl, rfl⟩)
  | idGot => exact hn fun errno herr => by cases herr
  | bufInit | attached | notAttached | cleaned => exact hn trivial

/-- **Ids are unique** in every run in which `idr_alloc` does not fail for a
stream, nor for a buffer with an error number that a live buffer has for an
id; the first step that does so breaks it. A put takes no other's id. -/
theorem ids_unique {s : State} (h : machine.Reach Numbered s) :
    UniqueIds s ∧ ∀ a s', machine.step s a = some s' → KeepsIds s s' ∧ (UniqueIds s' ↔ Numbered s a) := by
  have hi := inv_inductive.reach h
  refine ⟨hi.unique, fun a s' hs => ⟨⟨?_, ?_⟩, ?_⟩⟩
  · exact fun stream id hl hl' _ => keeps_streams hi (step_cases hs) hl hl'
  · exact fun buf id hl hl' hid => keeps_bufs hi.owned (step_cases hs) hl hl' hid
  · exact inv_inductive.keeps_iff (fun s hi => hi.unique)
      (fun s a s' hi hn hs => step_notUnique hi hn (step_cases hs)) h hs

def probe : State := { dev := Open.probe true, resourceIdr := ∅, bufs := ∅ }

theorem probe_init : machine.init probe := ⟨⟨true, rfl⟩, rfl, rfl⟩

/-- A whole open. -/
def deviceOpen (stream : Addr) (err : Option Nat) : List Act :=
  (Open.createStream stream err ++ Open.goOn stream 8).map .dev

/-- The `buf_init` of a buffer. -/
def initBuf (buf stream : Addr) (err : Option Nat) : List Act :=
  [.bufInit buf stream, .resourceIdGet buf err, .resourceAttach buf true]

/-- A buffer with an error number for its id, and others beside it. -/
theorem ids_unique_errId : ∃ s, UniqueIds s ∧ s.resourceIdr = {1, 2} ∧
    s.bufs.lookup 1 = some ⟨0, .ready, errId 12⟩ := by
  obtain ⟨s, hs, hidr, hbuf⟩ := Machine.exists_reach Numbered probe_init
    (deviceOpen 0 none ++ initBuf 0 0 none ++ initBuf 1 0 (some 12) ++ initBuf 2 0 none)
    (fun s => s.resourceIdr = {1, 2} ∧ s.bufs.lookup 1 = some ⟨0, .ready, errId 12⟩) (by decide +kernel)
  exact ⟨s, (ids_unique hs).1, hidr, hbuf⟩

/-- Two streams opened while `idr_alloc` fails with `-ENOMEM`. -/
theorem enomem_shared : ∃ s, machine.Reachable s ∧ LiveStream s 0 (errId 12) ∧ LiveStream s 1 (errId 12) ∧
    ¬UniqueIds s := by
  obtain ⟨s, hs, h0, h1⟩ := Machine.exists_reach (fun _ _ => True) probe_init
    (deviceOpen 0 (some 12) ++ deviceOpen 1 (some 12))
    (fun s => s.dev.streams.lookup 0 = some ⟨.opened, errId 12, true, true, true, true⟩ ∧
      s.dev.streams.lookup 1 = some ⟨.opened, errId 12, true, true, true, true⟩) (by decide +kernel)
  have hl0 : LiveStream s 0 (errId 12) := ⟨_, h0, rfl, rfl⟩
  have hl1 : LiveStream s 1 (errId 12) := ⟨_, h1, rfl, rfl⟩
  refine ⟨s, hs, hl0, hl1, fun h => ?_⟩
  cases h.streams 0 1 _ hl0 hl1

end Agl.VirtioVideo.Ids
