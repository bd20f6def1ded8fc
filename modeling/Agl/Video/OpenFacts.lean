/-
Which streams the device holds, and which streams events are handled for.

An open that fails after `STREAM_CREATE` puts the id back and sends no
`STREAM_DESTROY`, and an id that stands for a failed `idr_alloc` is used by
the next failed one too: without the two, driver and device agree
(`streams_agree`). The stream is in `stream_idr` before it is initialised,
and a failed open takes it apart beside the event worker: without these,
events act on live, initialised streams only (`events_safe`).
-/
import Agl.Video.Open

namespace Agl.VirtioVideo.Open

open Resource (Cmd)

/-! ## Where a stream is -/

/-- It has taken its id and not put it back. -/
def Pc.hasId : Pc → Bool
  | .idGet | .free | .relFree => false
  | _ => true

/-- Its `STREAM_CREATE` is sent, and it is neither taken apart by a failed
open nor destroyed. -/
def Pc.created : Pc → Bool
  | .setVideoDev | .setStreamId | .getParams | .getControls | .fhInit | .ctxInit | .fhAdd | .initCtrls | .opened
  | .relFhDel | .relCtx | .relFhExit | .relDestroy => true
  | _ => false

/-- Created, or about to be. -/
def Pc.claims (pc : Pc) : Bool := pc = .create || pc.created

/-- A failed open takes it apart. -/
def Pc.failing : Pc → Bool
  | .fhDel | .ctxRelease | .fhExit => true
  | _ => false

/-- Its file handle is initialised, outside of a release. -/
def Pc.inited : Pc → Bool
  | .ctxInit | .fhAdd | .initCtrls | .opened | .fhDel | .ctxRelease | .fhExit => true
  | _ => false

def Pc.releasing : Pc → Bool
  | .relFhDel | .relCtx | .relFhExit | .relDestroy | .relIdPut | .relFree => true
  | _ => false

/-- The step can fail. -/
def Pc.mayFail (isM2mDev : Bool) : Pc → Bool
  | .getParams | .getControls | .initCtrls => true
  | .ctxInit => isM2mDev
  | _ => false

/-- What has been set on the way. -/
structure VStream.Initialised (st : VStream) : Prop where
  videoDev : st.pc = .setStreamId ∨ st.pc = .getParams ∨ st.pc = .getControls ∨ st.pc = .fhInit ∨ st.pc.inited = true →
    st.videoDev = true
  idSet : st.pc = .getParams ∨ st.pc = .getControls ∨ st.pc = .fhInit ∨ st.pc.inited = true → st.idSet = true
  fh : st.pc.inited = true → st.fh = true

/-- A step of the open that changes the stream only, by the branch taken. -/
inductive VStream.Opens (st : VStream) (isM2mDev : Bool) : Bool → VStream → Prop
  | setVideoDev {ok} : st.pc = .setVideoDev → st.Opens isM2mDev ok { st with pc := .setStreamId, videoDev := true }
  | setStreamId {ok} : st.pc = .setStreamId → st.Opens isM2mDev ok { st with pc := .getParams, idSet := true }
  | getParams : st.pc = .getParams → st.Opens isM2mDev true { st with pc := .getControls }
  | getControls : st.pc = .getControls → st.Opens isM2mDev true { st with pc := .fhInit }
  | noParams : st.pc = .getParams ∨ st.pc = .getControls → st.Opens isM2mDev false { st with pc := .idPut }
  | fhInit {ok} : st.pc = .fhInit → st.Opens isM2mDev ok { st with pc := .ctxInit, fh := true }
  | ctxInit {ok} : st.pc = .ctxInit → ∀ m2mCtx, st.Opens isM2mDev ok { st with pc := .fhAdd, m2mCtx }
  | noCtx : st.pc = .ctxInit → isM2mDev = true → st.Opens isM2mDev false { st with pc := .fhExit }
  | fhAdd {ok} : st.pc = .fhAdd → st.Opens isM2mDev ok { st with pc := .initCtrls }
  | initCtrls : st.pc = .initCtrls → st.Opens isM2mDev true { st with pc := .opened }
  | noCtrls : st.pc = .initCtrls → st.Opens isM2mDev false { st with pc := .fhDel }
  | fhDel {ok} : st.pc = .fhDel → st.Opens isM2mDev ok { st with pc := .ctxRelease }
  | ctxRelease {ok} : st.pc = .ctxRelease → st.Opens isM2mDev ok { st with pc := .fhExit, m2mCtx := false }
  | fhExit {ok} : st.pc = .fhExit → st.Opens isM2mDev ok { st with pc := .idPut, fh := false }

theorem VStream.openStep_opens {st st' : VStream} {isM2mDev ok : Bool} (h : st.openStep isM2mDev ok = some st') :
    st.Opens isM2mDev ok st' := by
  unfold openStep at h
  split at h
  · cases h
    exact .setVideoDev ‹_›
  · cases h
    exact .setStreamId ‹_›
  · next hpc =>
    cases ok <;> cases h
    · exact .noParams (.inl hpc)
    · exact .getParams hpc
  · next hpc =>
    cases ok <;> cases h
    · exact .noParams (.inr hpc)
    · exact .getControls hpc
  · cases h
    exact .fhInit ‹_›
  · next hpc =>
    cases isM2mDev with
    | false =>
      cases h
      exact .ctxInit hpc st.m2mCtx
    | true =>
      cases ok <;> cases h
      · exact .noCtx hpc rfl
      · exact .ctxInit hpc true
  · cases h
    exact .fhAdd ‹_›
  · next hpc =>
    cases ok <;> cases h
    · exact .noCtrls hpc
    · exact .initCtrls hpc
  · cases h
    exact .fhDel ‹_›
  · cases h
    exact .ctxRelease ‹_›
  · cases h
    exact .fhExit ‹_›
  · cases h

namespace VStream.Opens

variable {st st' : VStream} {isM2mDev ok : Bool}

theorem frame (h : st.Opens isM2mDev ok st') :
    st'.streamId = st.streamId ∧ st.pc.hasId = true ∧ st'.pc.hasId = true ∧ st'.pc.releasing = false := by
  cases h with
  | noParams hpc => rcases hpc with hpc | hpc <;> simp [hpc, Pc.hasId, Pc.releasing]
  | _ hpc => simp [hpc, Pc.hasId, Pc.releasing]

theorem created (h : st.Opens isM2mDev ok st') (hf : st.pc.failing = false)
    (hok : st.pc.mayFail isM2mDev = true → ok = true) :
    st.pc.created = true ∧ st'.pc.created = true ∧ st'.pc.failing = false := by
  cases h with
  | noParams hpc => rcases hpc with hpc | hpc <;> exact absurd (hok (by simp [hpc, Pc.mayFail])) (by simp)
  | noCtx hpc hm => exact absurd (hok (by simp [hpc, hm, Pc.mayFail])) (by simp)
  | noCtrls hpc => exact absurd (hok (by simp [hpc, Pc.mayFail])) (by simp)
  | fhDel hpc | ctxRelease hpc | fhExit hpc => simp [hpc, Pc.failing] at hf
  | _ hpc => simp [hpc, Pc.created, Pc.failing]

theorem inited (h : st.Opens isM2mDev ok st') (hi : st.pc.inited = true) (hne : st.pc ≠ .fhExit) :
    st'.pc.inited = true := by
  cases h with
  | noParams hpc => rcases hpc with hpc | hpc <;> simp [hpc, Pc.inited] at hi
  | fhExit hpc => exact absurd hpc hne
  | setVideoDev hpc | setStreamId hpc | getParams hpc | getControls hpc | fhInit hpc => simp [hpc, Pc.inited] at hi
  | _ => rfl

theorem initialised (h : st.Opens isM2mDev ok st') (hi : st.Initialised) : st'.Initialised := by
  obtain ⟨hvideo, hid, hfh⟩ := hi
  cases h with
  | noParams | fhExit => constructor <;> simp [Pc.inited]
  | _ hpc => constructor <;> simp_all [Pc.inited]

end VStream.Opens

theorem VStream.relStep_frame {st st' : VStream} (h : st.relStep = some st') :
    st'.streamId = st.streamId ∧ st.pc.hasId = true ∧ st'.pc.hasId = true ∧ st.pc.created = true ∧
      st'.pc.created = true ∧ st.pc.releasing = true ∧ st'.pc.releasing = true ∧ st'.pc.failing = false := by
  unfold relStep at h
  split at h
  case h_4 => cases h
  all_goals
    next hpc =>
    cases h
    simp [hpc, Pc.hasId, Pc.created, Pc.releasing, Pc.failing]

/-! ## What a step can do -/

/-- One step, by the branch taken. -/
inductive Step (s : State) : Act → State → Prop
  | refused {a} : Step s a s
  | entered {deviceBusy} : Step s .deviceOpen { s with deviceBusy, entered := s.entered + 1 }
  | failed : Step s .openFails { s with entered := s.entered - 1, clearing := s.clearing + 1 }
  | alloc {stream} : s.streams.lookup stream = none → Step s (.kzalloc stream)
      { s.set stream
          { pc := .idGet, streamId := 0, videoDev := false, idSet := false, fh := false, m2mCtx := false } with
        entered := s.entered - 1 }
  | idGot {stream st} : s.streams.lookup stream = some st → st.pc = .idGet →
      smallestFree s.streamIdr.keys.toFinset 1 ≤ intMax → Step s (.streamIdGet stream none)
      { s.set stream { st with pc := .create, streamId := smallestFree s.streamIdr.keys.toFinset 1 } with
        streamIdr := s.streamIdr.insert (smallestFree s.streamIdr.keys.toFinset 1) stream }
  | idErr {stream st errno} : s.streams.lookup stream = some st → st.pc = .idGet → errno ≤ maxErrno →
      Step s (.streamIdGet stream (some errno)) (s.set stream { st with pc := .create, streamId := errId errno })
  | created {stream st} : s.streams.lookup stream = some st → st.pc = .create → Step s (.openStep stream true)
      { s.set stream { st with pc := .setVideoDev } with sent := .streamCreate st.streamId :: s.sent }
  | notCreated {stream st} : s.streams.lookup stream = some st → st.pc = .create →
      Step s (.openStep stream false) (s.set stream { st with pc := .idPut })
  | opens {stream ok st st'} : s.streams.lookup stream = some st → st.Opens s.isM2mDev ok st' →
      Step s (.openStep stream ok) (s.set stream st')
  | idPut {stream ok st} : s.streams.lookup stream = some st → st.pc = .idPut → Step s (.openStep stream ok)
      { s.set stream { st with pc := .free } with streamIdr := s.streamIdr.erase st.streamId }
  | freed {stream ok st} : s.streams.lookup stream = some st → st.pc = .free → Step s (.openStep stream ok)
      { s with streams := s.streams.erase stream, clearing := s.clearing + 1 }
  | cleared {deviceBusy} : Step s .clearBusy { s with clearing := s.clearing - 1, deviceBusy }
  | release {stream st} : s.streams.lookup stream = some st → st.pc = .opened → s.lock = none →
      Step s (.deviceRelease stream)
      { s.set stream { st with pc := .relFhDel } with lock := some (.release stream) }
  | releases {stream st st'} : s.streams.lookup stream = some st → st.relStep = some st' →
      Step s (.releaseStep stream) (s.set stream st')
  | destroyed {stream st} : s.streams.lookup stream = some st → st.pc = .relDestroy → Step s (.releaseStep stream)
      { s.set stream { st with pc := .relIdPut } with sent := .streamDestroy st.streamId :: s.sent }
  | relIdPut {stream st} : s.streams.lookup stream = some st → st.pc = .relIdPut → Step s (.releaseStep stream)
      { s.set stream { st with pc := .relFree } with streamIdr := s.streamIdr.erase st.streamId }
  | released {stream st deviceBusy} : s.streams.lookup stream = some st → st.pc = .relFree →
      Step s (.releaseStep stream) { s with streams := s.streams.erase stream, deviceBusy, lock := none }
  | event {streamId event stream} : s.lock = none → s.streamIdr.lookup streamId = some stream → event ≠ .other →
      Step s (.handleEvent streamId event) { s with lock := some .worker, worker := some stream }
  | eventDone {stream} : s.worker = some stream → Step s .eventDone { s with lock := none, worker := none }

theorem openStep_cases {s s' : State} {stream : Addr} {ok : Bool} (h : openStep s stream ok = some s') :
    Step s (.openStep stream ok) s' := by
  obtain ⟨st, hst, h⟩ := Option.bind_eq_some_iff.mp h
  split at h
  · next hpc =>
    cases ok with
    | false =>
      cases h
      exact .notCreated hst hpc
    | true =>
      cases h
      exact .created hst hpc
  · cases h
    exact .idPut hst ‹_›
  · cases h
    exact .freed hst ‹_›
  · split at h
    · obtain ⟨st', hst', rfl⟩ := Option.map_eq_some_iff.mp h
      exact .opens hst (VStream.openStep_opens hst')
    · cases h
  · obtain ⟨st', hst', rfl⟩ := Option.map_eq_some_iff.mp h
    exact .opens hst (VStream.openStep_opens hst')

theorem releaseStep_cases {s s' : State} {stream : Addr} (h : releaseStep s stream = some s') :
    Step s (.releaseStep stream) s' := by
  obtain ⟨st, hst, h⟩ := Option.bind_eq_some_iff.mp h
  split at h
  · cases h
    exact .destroyed hst ‹_›
  · cases h
    exact .relIdPut hst ‹_›
  · cases h
    exact .released hst ‹_›
  · obtain ⟨st', hst', rfl⟩ := Option.map_eq_some_iff.mp h
    exact .releases hst hst'

theorem streamIdGet_cases {s s' : State} {stream : Addr} {err : Option Nat} (h : streamIdGet s stream err = some s') :
    Step s (.streamIdGet stream err) s' := by
  obtain ⟨st, hst, h⟩ := Option.bind_eq_some_iff.mp h
  split at h
  · next hpc =>
    cases err with
    | none =>
      dsimp only at h
      split at h <;> cases h
      exact .idGot hst hpc ‹_›
    | some errno =>
      dsimp only at h
      split at h <;> cases h
      next he => exact .idErr hst hpc he.2
  · cases h

theorem step_cases {s s' : State} {a : Act} (h : machine.step s a = some s') : Step s a s' := by
  simp only [machine, step] at h
  cases a with
  | deviceOpen =>
    simp only [VirtioVideo.Open.deviceOpen] at h
    split at h
    · cases h
      exact .entered
    · split at h
      · cases h
      · split at h <;> cases h
        · exact .refused
        · exact .entered
  | openFails =>
    simp only [VirtioVideo.Open.openFails] at h
    split at h <;> cases h
    exact .failed
  | kzalloc stream =>
    simp only [VirtioVideo.Open.kzalloc] at h
    split at h <;> cases h
    next hc => exact .alloc (by simpa using (not_or.mp hc).2)
  | streamIdGet stream err => exact streamIdGet_cases h
  | openStep stream ok => exact openStep_cases h
  | clearBusy =>
    simp only [VirtioVideo.Open.clearBusy] at h
    split at h <;> cases h
    exact .cleared
  | deviceRelease stream =>
    obtain ⟨st, hst, h⟩ := Option.bind_eq_some_iff.mp h
    split at h <;> cases h
    next hc => exact .release hst hc.1 hc.2
  | releaseStep stream => exact releaseStep_cases h
  | handleEvent streamId event =>
    simp only [VirtioVideo.Open.handleEvent] at h
    split at h
    · cases h
    · next hl =>
      split at h
      · cases h
        exact .refused
      · next hs =>
        split at h <;> cases h
        · exact .refused
        · exact .event (by simpa using hl) hs ‹_›
  | eventDone =>
    simp only [VirtioVideo.Open.eventDone] at h
    split at h
    · cases h
    · next hw =>
      cases h
      obtain ⟨stream, hs⟩ := Option.ne_none_iff_exists'.mp hw
      exact .eventDone hs

/-! ## stream_idr -/

/-- The ids in `stream_idr` are those of the streams; ids that stand for an
error are not in it. -/
structure Registered (streams : Table Addr VStream) (idr : Table Nat Addr) : Prop where
  sound : idr.All fun streamId stream =>
    ∃ st, streams.lookup stream = some st ∧ st.pc.hasId = true ∧ st.streamId = streamId
  complete : streams.All fun stream st =>
    st.pc.hasId = true → st.streamId ≤ intMax → idr.lookup st.streamId = some stream

namespace Registered

variable {streams : Table Addr VStream} {idr : Table Nat Addr} {stream : Addr} {st st' : VStream}

/-- The stream goes on with its id, or without one. -/
theorem keep (h : Registered streams idr) (hst : streams.lookup stream = some st) (hid : st'.streamId = st.streamId)
    (hhas : st'.pc.hasId = st.pc.hasId) : Registered (streams.insert stream st') idr where
  sound k a hk := by
    obtain ⟨sa, ha, hahas, hak⟩ := h.sound k a hk
    by_cases hne : a = stream
    · subst hne
      cases hst.symm.trans ha
      exact ⟨st', by simp, by rw [hhas, hahas], by rw [hid, hak]⟩
    · exact ⟨sa, Table.lookup_insert_some.mpr (.inr ⟨hne, ha⟩), hahas, hak⟩
  complete := h.complete.insert fun hh hle => by
    rw [hid] at hle ⊢
    exact h.complete stream st hst (hhas ▸ hh) hle

/-- A stream without an id, in place of one without, or of none. -/
theorem noId (h : Registered streams idr) (hold : ∀ st, streams.lookup stream = some st → st.pc.hasId = false)
    (hnew : st'.pc.hasId = true → intMax < st'.streamId) : Registered (streams.insert stream st') idr where
  sound k a hk := by
    obtain ⟨sa, ha, hahas, hak⟩ := h.sound k a hk
    refine ⟨sa, Table.lookup_insert_some.mpr (.inr ⟨fun he => ?_, ha⟩), hahas, hak⟩
    subst he
    exact absurd hahas (by simp [hold sa ha])
  complete := h.complete.insert fun hh hle => absurd (hnew hh) (by omega)

/-- The stream takes a free id. -/
theorem get (h : Registered streams idr) (hst : streams.lookup stream = some st) (hold : st.pc.hasId = false)
    (hnew : st'.pc.hasId = true) (hfree : st'.streamId ∉ idr.keys) :
    Registered (streams.insert stream st') (idr.insert st'.streamId stream) where
  sound k a hk := by
    obtain ⟨rfl, rfl⟩ | ⟨-, hk⟩ := Table.lookup_insert_some.mp hk
    · exact ⟨st', by simp, hnew, rfl⟩
    · obtain ⟨sa, ha, hahas, hak⟩ := h.sound k a hk
      refine ⟨sa, Table.lookup_insert_some.mpr (.inr ⟨fun he => ?_, ha⟩), hahas, hak⟩
      subst he
      cases hst.symm.trans ha
      exact absurd hahas (by simp [hold])
  complete a sa ha hh hle := by
    obtain ⟨rfl, rfl⟩ | ⟨hne, ha⟩ := Table.lookup_insert_some.mp ha
    · simp
    · have hk := h.complete a sa ha hh hle
      refine Table.lookup_insert_some.mpr (.inr ⟨fun he => hfree ?_, hk⟩)
      rw [← he]
      exact AList.lookup_isSome.mp (by simp [hk])

/-- The stream puts its id back. -/
theorem put (h : Registered streams idr) (hst : streams.lookup stream = some st) (hold : st.pc.hasId = true)
    (hnew : st'.pc.hasId = false) : Registered (streams.insert stream st') (idr.erase st.streamId) where
  sound k a hk := by
    obtain ⟨hne, hk⟩ := Table.lookup_erase_some.mp hk
    obtain ⟨sa, ha, hahas, hak⟩ := h.sound k a hk
    refine ⟨sa, Table.lookup_insert_some.mpr (.inr ⟨fun he => hne ?_, ha⟩), hahas, hak⟩
    subst he
    cases hst.symm.trans ha
    exact hak.symm
  complete a sa ha hh hle := by
    obtain ⟨rfl, rfl⟩ | ⟨hne, ha⟩ := Table.lookup_insert_some.mp ha
    · exact absurd hh (by simp [hnew])
    · have hk := h.complete a sa ha hh hle
      refine Table.lookup_erase_some.mpr ⟨fun he => hne ?_, hk⟩
      have hk' := h.complete stream st hst hold (by rw [← he]; exact hle)
      rw [← he, hk] at hk'
      exact Option.some.inj hk'

/-- A stream without an id is freed. -/
theorem free (h : Registered streams idr) (hst : streams.lookup stream = some st) (hold : st.pc.hasId = false) :
    Registered (streams.erase stream) idr where
  sound k a hk := by
    obtain ⟨sa, ha, hahas, hak⟩ := h.sound k a hk
    refine ⟨sa, Table.lookup_erase_some.mpr ⟨fun he => ?_, ha⟩, hahas, hak⟩
    subst he
    cases hst.symm.trans ha
    exact absurd hahas (by simp [hold])
  complete := h.complete.erase

theorem step {s s' : State} {a : Act} (h : Registered s.streams s.streamIdr) (hs : Step s a s') :
    Registered s'.streams s'.streamIdr := by
  cases hs with
  | refused | entered | failed | cleared | event | eventDone => exact h
  | alloc hfree => exact h.noId (fun st hst => by cases hfree.symm.trans hst) fun hh => by cases hh
  | idGot hst hpc hle =>
    have hfree : smallestFree s.streamIdr.keys.toFinset 1 ∉ s.streamIdr.keys :=
      fun hmem => smallestFree_not_mem _ _ (List.mem_toFinset.mpr hmem)
    exact h.get hst (by simp [hpc, Pc.hasId]) rfl hfree
  | idErr hst hpc he =>
    refine h.noId (fun st hst' => ?_) fun _ => ?_
    · cases hst.symm.trans hst'
      simp [hpc, Pc.hasId]
    · simp only [intMax, errId, maxErrno] at he ⊢
      omega
  | created hst hpc | notCreated hst hpc | release hst hpc | destroyed hst hpc =>
    exact h.keep hst rfl (by simp [hpc, Pc.hasId])
  | opens hst ho => exact h.keep hst ho.frame.1 (by rw [ho.frame.2.1, ho.frame.2.2.1])
  | releases hst hr =>
    obtain ⟨hid, hhas, hhas', -⟩ := VStream.relStep_frame hr
    exact h.keep hst hid (by rw [hhas, hhas'])
  | idPut hst hpc | relIdPut hst hpc => exact h.put hst (by simp [hpc, Pc.hasId]) rfl
  | freed hst hpc | released hst hpc => exact h.free hst (by simp [hpc, Pc.hasId])

end Registered

theorem registered_inductive :
    machine.Inductive (fun _ _ => True) fun s => Registered s.streams s.streamIdr where
  init s hs := by
    obtain ⟨isM2mDev, rfl⟩ := hs
    exact ⟨fun k a h => by simp [probe] at h, fun a st h => by simp [probe] at h⟩
  step _ _ _ h _ hs := h.step (step_cases hs)

/-! ## The streams of the device -/

/-- No open fails after its `STREAM_CREATE`, and no failed `idr_alloc` gives
the id of a stream that is created or about to be. -/
def Completes (s : State) : Act → Prop
  | .openStep stream ok => ∀ st ∈ s.streams.lookup stream, st.pc.mayFail s.isM2mDev = true → ok = true
  | .streamIdGet _ (some errno) => ∀ p ∈ s.streams.entries, p.2.pc.claims = true → p.2.streamId ≠ errId errno
  | _ => True

instance (s : State) (a : Act) : Decidable (Completes s a) := by
  unfold Completes
  split <;> infer_instance

/-- Streams that are created or about to be have different ids. -/
def Apart (streams : Table Addr VStream) : Prop :=
  streams.All fun a sa => streams.All fun b sb =>
    sa.pc.claims = true → sb.pc.claims = true → sa.streamId = sb.streamId → a = b

/-- The device holds the created streams. -/
def Holds (streams : Table Addr VStream) (sent : List Cmd) : Prop :=
  ∀ streamId, streamId ∈ held sent ↔ ∃ stream st, streams.lookup stream = some st ∧ st.pc.created = true ∧
    st.streamId = streamId

section

variable {streams : Table Addr VStream} {sent : List Cmd} {stream : Addr} {st st' : VStream}

/-- A stream with an id that no other claims, or that claims none. -/
theorem Apart.insert (h : Apart streams) (hid : st'.pc.claims = true →
    ∀ b sb, b ≠ stream → streams.lookup b = some sb → sb.pc.claims = true → sb.streamId ≠ st'.streamId) :
    Apart (AList.insert stream st' streams) := by
  intro a sa ha b sb hb hca hcb he
  obtain ⟨rfl, rfl⟩ | ⟨hna, hla⟩ := Table.lookup_insert_some.mp ha
  · obtain ⟨rfl, -⟩ | ⟨hnb, hlb⟩ := Table.lookup_insert_some.mp hb
    · rfl
    · exact absurd he.symm (hid hca b sb hnb hlb hcb)
  · obtain ⟨rfl, rfl⟩ | ⟨-, hlb⟩ := Table.lookup_insert_some.mp hb
    · exact absurd he (hid hcb a sa hna hla hca)
    · exact h a sa hla b sb hlb hca hcb he

theorem Apart.keep (h : Apart streams) (hst : streams.lookup stream = some st) (hid : st'.streamId = st.streamId)
    (hc : st'.pc.claims = true → st.pc.claims = true) : Apart (AList.insert stream st' streams) :=
  h.insert fun hc' b sb hb hl hcb he => hb (h b sb hl stream st hst hcb (hc hc') (by rw [he, hid]))

theorem Apart.erase (h : Apart streams) : Apart (AList.erase stream streams) := fun a sa ha b sb hb =>
  h a sa (Table.lookup_erase_some.mp ha).2 b sb (Table.lookup_erase_some.mp hb).2

theorem claims_of_created {pc : Pc} (h : pc.created = true) : pc.claims = true := by simp [Pc.claims, h]

/-- A stream that is created before and after, or neither. -/
theorem Holds.keep (h : Holds streams sent) (hst : ∀ st, streams.lookup stream = some st →
      st.pc.created = st'.pc.created ∧ (st.pc.created = true → st.streamId = st'.streamId))
    (hnew : streams.lookup stream = none → st'.pc.created = false) : Holds (AList.insert stream st' streams) sent := by
  intro k
  rw [h k]
  constructor
  · rintro ⟨a, sa, ha, hc, hk⟩
    by_cases hne : a = stream
    · subst hne
      obtain ⟨hpc, hid⟩ := hst sa ha
      exact ⟨a, st', by simp, by rw [← hpc, hc], by rw [← hid hc, hk]⟩
    · exact ⟨a, sa, Table.lookup_insert_some.mpr (.inr ⟨hne, ha⟩), hc, hk⟩
  · rintro ⟨a, sa, ha, hc, hk⟩
    obtain ⟨rfl, rfl⟩ | ⟨-, ha⟩ := Table.lookup_insert_some.mp ha
    · cases hl : streams.lookup a with
      | none => exact absurd hc (by simp [hnew hl])
      | some st =>
        obtain ⟨hpc, hid⟩ := hst st hl
        have hc : st.pc.created = true := by rw [hpc, hc]
        exact ⟨a, st, hl, hc, by rw [hid hc, hk]⟩
    · exact ⟨a, sa, ha, hc, hk⟩

theorem Holds.erase (h : Holds streams sent) (hst : streams.lookup stream = some st) (hc : st.pc.created = false) :
    Holds (AList.erase stream streams) sent := by
  intro k
  rw [h k]
  constructor
  · rintro ⟨a, sa, ha, hca, hk⟩
    refine ⟨a, sa, Table.lookup_erase_some.mpr ⟨fun he => ?_, ha⟩, hca, hk⟩
    subst he
    cases hst.symm.trans ha
    exact absurd hca (by simp [hc])
  · rintro ⟨a, sa, ha, hca, hk⟩
    exact ⟨a, sa, (Table.lookup_erase_some.mp ha).2, hca, hk⟩

/-- `STREAM_CREATE` is sent. -/
theorem Holds.create (h : Holds streams sent) (hst : streams.lookup stream = some st) (hold : st.pc.created = false)
    (hnew : st'.pc.created = true) (hid : st'.streamId = st.streamId) :
    Holds (AList.insert stream st' streams) (.streamCreate st.streamId :: sent) := by
  intro k
  rw [held, List.mem_cons, h k]
  constructor
  · rintro (rfl | ⟨a, sa, ha, hc, hk⟩)
    · exact ⟨stream, st', by simp, hnew, hid⟩
    · refine ⟨a, sa, Table.lookup_insert_some.mpr (.inr ⟨fun he => ?_, ha⟩), hc, hk⟩
      subst he
      cases hst.symm.trans ha
      exact absurd hc (by simp [hold])
  · rintro ⟨a, sa, ha, hc, hk⟩
    obtain ⟨rfl, rfl⟩ | ⟨-, ha⟩ := Table.lookup_insert_some.mp ha
    · exact .inl (by rw [← hk, hid])
    · exact .inr ⟨a, sa, ha, hc, hk⟩

/-- `STREAM_DESTROY` is sent. -/
theorem Holds.destroy (h : Holds streams sent) (hap : Apart streams) (hst : streams.lookup stream = some st)
    (hold : st.pc.created = true) (hnew : st'.pc.created = false) :
    Holds (AList.insert stream st' streams) (.streamDestroy st.streamId :: sent) := by
  intro k
  rw [held, List.mem_filter, h k]
  constructor
  · rintro ⟨⟨a, sa, ha, hc, hk⟩, hne⟩
    refine ⟨a, sa, Table.lookup_insert_some.mpr (.inr ⟨fun he => ?_, ha⟩), hc, hk⟩
    subst he
    cases hst.symm.trans ha
    exact of_decide_eq_true hne hk.symm
  · rintro ⟨a, sa, ha, hc, hk⟩
    obtain ⟨rfl, rfl⟩ | ⟨hne, ha⟩ := Table.lookup_insert_some.mp ha
    · exact absurd hc (by simp [hnew])
    · refine ⟨⟨a, sa, ha, hc, hk⟩, ?_⟩
      have : k ≠ st.streamId := fun he =>
        hne (hap a sa ha stream st hst (claims_of_created hc) (claims_of_created hold) (by rw [hk, he]))
      simpa using this

end

/-- The streams with their ids, and what the device holds. -/
structure Tracked (streams : Table Addr VStream) (sent : List Cmd) : Prop where
  ok : streams.All fun _ st => st.pc.failing = false
  apart : Apart streams
  holds : Holds streams sent
  fresh : CreatesFresh sent

namespace Tracked

variable {streams : Table Addr VStream} {sent : List Cmd} {stream : Addr} {st st' : VStream}

/-- A stream that goes on with its id, created or not as before. -/
theorem keep (h : Tracked streams sent) (hst : streams.lookup stream = some st) (hid : st'.streamId = st.streamId)
    (hc : st.pc.created = st'.pc.created) (hcl : st'.pc.claims = true → st.pc.claims = true)
    (hf : st'.pc.failing = false) : Tracked (streams.insert stream st') sent where
  ok := h.ok.insert hf
  apart := h.apart.keep hst hid hcl
  holds := h.holds.keep (fun sa ha => by cases hst.symm.trans ha; exact ⟨hc, fun _ => hid.symm⟩)
    fun hn => by cases hst.symm.trans hn
  fresh := h.fresh

/-- A stream with an id that no other claims, not created yet. -/
theorem claim (h : Tracked streams sent) (hst : ∀ st, streams.lookup stream = some st → st.pc.created = false)
    (hc : st'.pc.created = false) (hf : st'.pc.failing = false) (hid : st'.pc.claims = true →
      ∀ b sb, b ≠ stream → streams.lookup b = some sb → sb.pc.claims = true → sb.streamId ≠ st'.streamId) :
    Tracked (streams.insert stream st') sent where
  ok := h.ok.insert hf
  apart := h.apart.insert hid
  holds := h.holds.keep (fun sa ha => ⟨by rw [hst sa ha, hc], fun hca => absurd hca (by simp [hst sa ha])⟩) fun _ => hc
  fresh := h.fresh

theorem erase (h : Tracked streams sent) (hst : streams.lookup stream = some st) (hc : st.pc.created = false) :
    Tracked (streams.erase stream) sent :=
  ⟨h.ok.erase, h.apart.erase, h.holds.erase hst hc, h.fresh⟩

end Tracked

theorem hasId_of_claims {pc : Pc} (h : pc.claims = true) : pc.hasId = true := by
  revert h
  cases pc <;> simp [Pc.claims, Pc.created, Pc.hasId]

theorem Tracked.step {s s' : State} {a : Act} (h : Tracked s.streams s.sent) (hr : Registered s.streams s.streamIdr)
    (hs : Step s a s') (ha : Completes s a) : Tracked s'.streams s'.sent := by
  cases hs with
  | refused | entered | failed | cleared | event | eventDone => exact h
  | alloc hfree =>
    exact h.claim (fun st hst => by cases hfree.symm.trans hst) rfl rfl (by simp [Pc.claims, Pc.created])
  | @idGot stream st hst hpc hle =>
    refine h.claim (fun sa ha => ?_) rfl rfl fun _ b sb _ hb hcb he => ?_
    · cases hst.symm.trans ha
      simp [hpc, Pc.created]
    · -- the free id is in no entry of `stream_idr`, so no stream has it
      have hk := hr.complete b sb hb (hasId_of_claims hcb) (by rw [he]; exact hle)
      rw [he] at hk
      refine smallestFree_not_mem s.streamIdr.keys.toFinset 1 (List.mem_toFinset.mpr ?_)
      exact AList.lookup_isSome.mp (by simp [hk])
  | @idErr stream st errno hst hpc =>
    refine h.claim (fun sa ha => ?_) rfl rfl fun _ b sb _ hb hcb => ?_
    · cases hst.symm.trans ha
      simp [hpc, Pc.created]
    · exact ha ⟨b, sb⟩ (AList.mem_lookup_iff.mp hb) hcb
  | @created stream st hst hpc =>
    refine ⟨h.ok.insert rfl, h.apart.keep hst rfl fun _ => by simp [hpc, Pc.claims],
      h.holds.create hst (by simp [hpc, Pc.created]) rfl rfl, fun hmem => ?_, h.fresh⟩
    obtain ⟨b, sb, hb, hcb, hid⟩ := (h.holds _).mp hmem
    obtain rfl := h.apart b sb hb stream st hst (claims_of_created hcb) (by simp [hpc, Pc.claims]) hid
    cases hst.symm.trans hb
    simp [hpc, Pc.created] at hcb
  | notCreated hst hpc =>
    exact h.keep hst rfl (by simp [hpc, Pc.created]) (by simp [Pc.claims, Pc.created]) rfl
  | opens hst ho =>
    obtain ⟨hc, hc', hf⟩ := ho.created (h.ok _ _ hst) (ha _ hst)
    exact h.keep hst ho.frame.1 (by rw [hc, hc']) (fun _ => claims_of_created hc) hf
  | idPut hst hpc | relIdPut hst hpc =>
    exact h.keep hst rfl (by simp [hpc, Pc.created]) (by simp [Pc.claims, Pc.created]) rfl
  | freed hst hpc | released hst hpc => exact h.erase hst (by simp [hpc, Pc.created])
  | release hst hpc =>
    exact h.keep hst rfl (by simp [hpc, Pc.created]) (by simp [hpc, Pc.claims, Pc.created]) rfl
  | releases hst hr =>
    obtain ⟨hid, -, -, hc, hc', -, -, hf⟩ := VStream.relStep_frame hr
    exact h.keep hst hid (by rw [hc, hc']) (fun _ => claims_of_created hc) hf
  | @destroyed stream st hst hpc =>
    exact ⟨h.ok.insert rfl, h.apart.keep hst rfl (by simp [Pc.claims, Pc.created]),
      h.holds.destroy h.apart hst (by simp [hpc, Pc.created]) rfl, h.fresh⟩

theorem tracked_inductive : machine.Inductive Completes fun s =>
    Registered s.streams s.streamIdr ∧ Tracked s.streams s.sent := by
  refine (registered_inductive.mono fun _ _ _ => trivial).and (fun s hs => ?_) fun s a s' hr _ h ha hs =>
    h.step hr (step_cases hs) ha
  obtain ⟨isM2mDev, rfl⟩ := hs
  refine ⟨fun a st h => by simp [probe] at h, fun a st h => by simp [probe] at h, fun k => ?_, trivial⟩
  simp [probe, held]

/-- **Driver and device agree on the streams.** In every run in which no open
fails after its `STREAM_CREATE` and no failed `idr_alloc` stands for the id
of another stream: with no open or release in progress the device holds
exactly the open streams, and `STREAM_CREATE` is never sent with an id that
it holds. -/
theorem streams_agree {s : State} (hs : machine.Reach Completes s) : StreamsAgree s := by
  have h := (tracked_inductive.reach hs).2
  refine ⟨fun hq k => ?_, h.fresh⟩
  rw [h.holds k]
  constructor
  · rintro ⟨a, st, hst, -, hk⟩
    exact ⟨a, st, hst, hk⟩
  · rintro ⟨a, st, hst, hk⟩
    exact ⟨a, st, hst, by rw [hq.2.2 a st hst]; rfl, hk⟩

/-- An open up to its `STREAM_CREATE`; `err` is what `idr_alloc` fails with. -/
def createStream (stream : Addr) (err : Option Nat) : List Act :=
  [.deviceOpen, .kzalloc stream, .streamIdGet stream err, .openStep stream true]

/-- So many more steps of the open that succeed. -/
def goOn (stream : Addr) (n : Nat) : List Act := List.replicate n (.openStep stream true)

/-- A whole release. -/
def releaseStream (stream : Addr) : List Act := .deviceRelease stream :: List.replicate 6 (.releaseStep stream)

theorem probe_init (isM2mDev : Bool) : machine.init (probe isM2mDev) := ⟨isM2mDev, rfl⟩

/-- One stream is closed and another gets its id. -/
theorem streams_agree_reopened : ∃ s, machine.Reach Completes s ∧ s.streams.keys = [1] ∧ held s.sent = [1] ∧
    StreamsAgree s := by
  obtain ⟨s, hs, hk, hh⟩ := Machine.exists_reach Completes (probe_init true)
    (createStream 0 none ++ goOn 0 8 ++ releaseStream 0 ++ createStream 1 none ++ goOn 1 8)
    (fun s => s.streams.keys = [1] ∧ held s.sent = [1]) (by decide +kernel)
  exact ⟨s, hs, hk, hh, streams_agree hs⟩

/-- An open fails at its `GET_PARAMS`; the next one creates a stream with the
id that the device holds. -/
theorem failedOpen_recreated : ∃ s, machine.Reachable s ∧ s.sent = [.streamCreate 1, .streamCreate 1] ∧
    ¬ StreamsAgree s := by
  obtain ⟨s, hs, hsent⟩ := Machine.exists_reach (fun _ _ => True) (probe_init true)
    (createStream 0 none ++ goOn 0 2 ++ [.openStep 0 false, .openStep 0 true, .openStep 0 true, .clearBusy] ++
      createStream 1 none)
    (fun s => s.sent = [.streamCreate 1, .streamCreate 1]) (by decide +kernel)
  refine ⟨s, hs, hsent, fun h => ?_⟩
  have hfresh := h.fresh
  rw [hsent] at hfresh
  exact hfresh.1 (by simp [held])

/-- So do two opens whose `idr_alloc` fails with `-ENOMEM`. -/
theorem errId_recreated : ∃ s, machine.Reachable s ∧ s.sent = [.streamCreate (errId 12), .streamCreate (errId 12)] ∧
    ¬ CreatesFresh s.sent := by
  obtain ⟨s, hs, hsent⟩ := Machine.exists_reach (fun _ _ => True) (probe_init true)
    (createStream 0 (some 12) ++ goOn 0 8 ++ createStream 1 (some 12))
    (fun s => s.sent = [.streamCreate (errId 12), .streamCreate (errId 12)]) (by decide +kernel)
  refine ⟨s, hs, hsent, fun h => ?_⟩
  rw [hsent] at h
  exact h.1 (by simp [held])

/-! ## Events -/

/-- An event finds only a stream whose file handle its open has initialised,
and no failed open takes a stream apart that the event worker is using. -/
def SeesOpened (s : State) : Act → Prop
  | .handleEvent streamId event => event ≠ .other →
      ∀ stream ∈ s.streamIdr.lookup streamId, ∀ st ∈ s.streams.lookup stream, st.pc.inited = true
  | .openStep stream _ => s.worker = some stream → ∀ st ∈ s.streams.lookup stream, st.pc ≠ .fhExit
  | _ => True

instance (s : State) (a : Act) : Decidable (SeesOpened s a) := by
  unfold SeesOpened
  split <;> infer_instance

/-- The worker holds the lock and uses a stream that is being opened or is
open; a release holds the lock too. -/
structure Using (streams : Table Addr VStream) (lock : Option Holder) (worker : Option Addr) : Prop where
  init : streams.All fun _ st => st.Initialised
  rel : streams.All fun stream st => st.pc.releasing = true → lock = some (.release stream)
  lock : worker ≠ none → lock = some .worker
  live : ∀ stream ∈ worker, ∃ st ∈ streams.lookup stream, st.pc.inited = true

namespace Using

variable {streams : Table Addr VStream} {lock : Option Holder} {worker : Option Addr} {stream : Addr} {st st' : VStream}

theorem inited (h : Using streams lock worker) (hst : streams.lookup stream = some st) (hw : worker = some stream) :
    st.pc.inited = true := by
  obtain ⟨sa, ha, hi⟩ := h.live stream hw
  cases hst.symm.trans ha
  exact hi

theorem insert (h : Using streams lock worker) (hi : st'.Initialised)
    (hr : st'.pc.releasing = true → lock = some (.release stream)) (hl : worker = some stream → st'.pc.inited = true) :
    Using (streams.insert stream st') lock worker where
  init := h.init.insert hi
  rel := h.rel.insert hr
  lock := h.lock
  live a ha := by
    by_cases hne : a = stream
    · subst hne
      exact ⟨st', by simp, hl ha⟩
    · obtain ⟨sa, hsa, hia⟩ := h.live a ha
      exact ⟨sa, Table.lookup_insert_some.mpr (.inr ⟨hne, hsa⟩), hia⟩

/-- Who holds the lock is no release and not the worker. -/
theorem unlocked (h : Using streams none worker) : worker = none ∧ streams.All fun _ st => st.pc.releasing = false := by
  constructor
  · by_contra hw
    cases h.lock hw
  · intro a sa ha
    cases hr : sa.pc.releasing with
    | false => rfl
    | true => cases h.rel a sa ha hr

/-- During a release there is no worker. -/
theorem released (h : Using streams lock worker) (hst : streams.lookup stream = some st)
    (hr : st.pc.releasing = true) : lock = some (.release stream) ∧ worker = none := by
  have hl := h.rel stream st hst hr
  refine ⟨hl, ?_⟩
  by_contra hw
  cases hl.symm.trans (h.lock hw)

end Using

theorem VStream.relStep_initialised {st st' : VStream} (h : st.relStep = some st') : st'.Initialised := by
  unfold relStep at h
  split at h
  · cases h
    constructor <;> simp [Pc.inited]
  · cases h
    constructor <;> simp [Pc.inited]
  · cases h
    constructor <;> simp [Pc.inited]
  · cases h

theorem Using.step {s s' : State} {a : Act} (h : Using s.streams s.lock s.worker)
    (hr : Registered s.streams s.streamIdr) (hs : Step s a s') (ha : SeesOpened s a) :
    Using s'.streams s'.lock s'.worker := by
  cases hs with
  | refused | entered | failed | cleared => exact h
  | alloc hfree =>
    refine h.insert (by constructor <;> simp [Pc.inited]) (by simp [Pc.releasing]) fun hw => ?_
    obtain ⟨st, hst, -⟩ := h.live _ hw
    cases hfree.symm.trans hst
  | idGot hst hpc | idErr hst hpc | created hst hpc =>
    refine h.insert (by constructor <;> simp [Pc.inited]) (by simp [Pc.releasing]) fun hw => ?_
    have := h.inited hst hw
    simp [hpc, Pc.inited] at this
  | notCreated hst hpc | idPut hst hpc =>
    refine h.insert (by constructor <;> simp [Pc.inited]) (by simp [Pc.releasing]) fun hw => ?_
    have := h.inited hst hw
    simp [hpc, Pc.inited] at this
  | opens hst ho =>
    refine h.insert (ho.initialised (h.init _ _ hst)) (by simp [ho.frame.2.2.2]) fun hw => ?_
    exact ho.inited (h.inited hst hw) (ha hw _ hst)
  | freed hst hpc =>
    refine ⟨h.init.erase, h.rel.erase, h.lock, fun a hw => ?_⟩
    obtain ⟨sa, hsa, hia⟩ := h.live a hw
    refine ⟨sa, Table.lookup_erase_some.mpr ⟨fun he => ?_, hsa⟩, hia⟩
    subst he
    cases hst.symm.trans hsa
    simp [hpc, Pc.inited] at hia
  | release hst hpc hl =>
    rw [hl] at h
    obtain ⟨hw, hrel⟩ := h.unlocked
    refine ⟨h.init.insert (by constructor <;> simp [Pc.inited]), ?_, ?_, ?_⟩
    · intro a sa hsa hra
      obtain ⟨rfl, -⟩ | ⟨-, hsa⟩ := Table.lookup_insert_some.mp hsa
      · rfl
      · exact absurd hra (by simp [hrel a sa hsa])
    · simp [State.set, hw]
    · simp [State.set, hw]
  | releases hst hre =>
    obtain ⟨-, -, -, -, -, hrel, -⟩ := VStream.relStep_frame hre
    obtain ⟨hl, hw⟩ := h.released hst hrel
    exact h.insert (VStream.relStep_initialised hre) (fun _ => hl) (by simp [hw])
  | destroyed hst hpc | relIdPut hst hpc =>
    obtain ⟨hl, hw⟩ := h.released hst (by simp [hpc, Pc.releasing])
    exact h.insert (by constructor <;> simp [Pc.inited]) (fun _ => hl) (by simp [hw])
  | released hst hpc =>
    obtain ⟨hl, hw⟩ := h.released hst (by simp [hpc, Pc.releasing])
    refine ⟨h.init.erase, ?_, by simp [hw], by simp [hw]⟩
    intro a sa hsa hra
    obtain ⟨hne, hsa⟩ := Table.lookup_erase_some.mp hsa
    have := hl.symm.trans (h.rel a sa hsa hra)
    simp [Ne.symm hne] at this
  | @event streamId event stream hl hs hev =>
    rw [hl] at h
    obtain ⟨hw, hrel⟩ := h.unlocked
    refine ⟨h.init, fun a sa hsa hra => absurd hra (by simp [hrel a sa hsa]), fun _ => rfl, fun a hw => ?_⟩
    cases hw
    obtain ⟨st, hst, -⟩ := hr.sound streamId stream hs
    exact ⟨st, hst, ha hev stream hs st hst⟩
  | eventDone hw =>
    have hl := h.lock (by simp [hw])
    refine ⟨h.init, fun a sa hsa hra => ?_, by simp, by simp⟩
    cases hl.symm.trans (h.rel a sa hsa hra)

theorem using_inductive : machine.Inductive SeesOpened fun s =>
    Registered s.streams s.streamIdr ∧ Using s.streams s.lock s.worker := by
  refine (registered_inductive.mono fun _ _ _ => trivial).and (fun s hs => ?_) fun s a s' hr _ h ha hs =>
    h.step hr (step_cases hs) ha
  obtain ⟨isM2mDev, rfl⟩ := hs
  exact ⟨fun a st h => by simp [probe] at h, fun a st h => by simp [probe] at h, by simp [probe], by simp [probe]⟩

/-- **Events act on live, initialised streams.** In every run in which events
find only streams with their file handle initialised, and no failed open
takes apart a stream that an event is being handled for: the stream that
`virtio_video_handle_event` uses is allocated, and its `video_dev`, id and
file handle are set. -/
theorem events_safe {s : State} (hs : machine.Reach SeesOpened s) : EventSafe s := by
  have h := (using_inductive.reach hs).2
  intro stream hw
  obtain ⟨st, hst, hi⟩ := h.live stream hw
  have hinit := h.init stream st hst
  exact ⟨st, hst, hinit.videoDev (by simp [hi]), hinit.idSet (by simp [hi]), hinit.fh hi⟩

/-- An event for a stream whose open is not through with its controls. -/
theorem events_safe_opening : ∃ s, machine.Reach SeesOpened s ∧ s.worker = some 0 ∧
    (s.streams.lookup 0).map (·.pc) = some .initCtrls ∧ EventSafe s := by
  obtain ⟨s, hs, hw, hpc⟩ := Machine.exists_reach SeesOpened (probe_init true)
    (createStream 0 none ++ goOn 0 5 ++ [.handleEvent 1 .error] ++ goOn 0 2)
    (fun s => s.worker = some 0 ∧ (s.streams.lookup 0).map (·.pc) = some .initCtrls) (by decide +kernel)
  exact ⟨s, hs, hw, hpc, events_safe hs⟩

/-- The file handle is initialised and `m2m_ctx` is not. -/
example : ∃ s, machine.Reach SeesOpened s ∧ s.isM2mDev = true ∧ s.worker = some 0 ∧
    (s.streams.lookup 0).map (·.m2mCtx) = some false := by
  obtain ⟨s, hs, hrest⟩ := Machine.exists_reach SeesOpened (probe_init true)
    (createStream 0 none ++ goOn 0 5 ++ [.handleEvent 1 .error])
    (fun s => s.isM2mDev = true ∧ s.worker = some 0 ∧ (s.streams.lookup 0).map (·.m2mCtx) = some false)
    (by decide +kernel)
  exact ⟨s, hs, hrest⟩

/-- The event comes right after `virtio_video_stream_id_get`: the stream has
no `video_dev` yet. -/
theorem earlyEvent_unsafe : ∃ s, machine.Reachable s ∧ ¬ EventSafe s :=
  Machine.exists_reach (fun _ _ => True) (probe_init true)
    [.deviceOpen, .kzalloc 0, .streamIdGet 0 none, .handleEvent 1 .error] (fun s => ¬ EventSafe s) (by decide +kernel)

/-- The open fails in `v4l2_m2m_ctx_init` while the worker uses the stream,
which is freed under it. -/
theorem failedOpen_freed : ∃ s, machine.Reachable s ∧ s.worker = some 0 ∧ s.streams.lookup 0 = none ∧ ¬ EventSafe s :=
  Machine.exists_reach (fun _ _ => True) (probe_init true)
    (createStream 0 none ++ goOn 0 5 ++ [.handleEvent 1 .error, .openStep 0 false] ++ goOn 0 3)
    (fun s => s.worker = some 0 ∧ s.streams.lookup 0 = none ∧ ¬ EventSafe s) (by decide +kernel)

end Agl.VirtioVideo.Open
