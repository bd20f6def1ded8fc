/-
When the ids handed out and the resources attached agree.

`virtio_video_buf_cleanup` puts an id back without detaching its resource:
`QUEUE_DETACH_RESOURCES` is sent for a REQBUFS of count 0 only, and release
sends `STREAM_DESTROY` after the ids are back. A REQBUFS of another count on
a queue with buffers hands an attached id out again (`reqbufsTwice_reused`).
In the runs without such a step (`Detached`) no id is handed out while the
device holds it (`resourceIds_agree`).
-/
import Agl.Lib.Table
import Agl.Video.Resource

namespace Agl.VirtioVideo.Resource

/-! ## What one step does -/

/-- The id a call has taken for a buffer that is not there yet. -/
def Pc.pending : Pc → List Nat
  | .attach _ _ resourceId => [resourceId]
  | _ => []

/-- The stream is being opened. -/
def Pc.Opening (pc : Pc) : Prop := pc = .opening ∨ pc = .created

/-- The call goes on, without an id between `pc` and `pc'` and not from release. -/
def Pc.Moves (pc pc' : Pc) : Prop :=
  pc.pending = [] ∧ pc'.pending = [] ∧ pc ≠ .release ∧ (pc'.Opening → pc.Opening)

/-- The ids that a stream has from `resource_idr`. -/
def VStream.owns (st : VStream) : List Nat := st.pc.pending ++ st.bufs.map (·.resourceId)

/-- What a step can do to the stream `streamId`, to the ids and to what the
device holds. -/
inductive Change (s : State) (streamId : Nat) : State → Prop
  | opened : streamId ∉ s.streams → Change s streamId (s.set streamId { pc := .opening, bufs := [] })
  /-- the call goes on -/
  | moved {st : VStream} {pc : Pc} {sent : List Cmd} : s.streams.lookup streamId = some st →
      st.pc.Moves pc → (∀ a ∈ attached sent, a ∈ attached s.sent) →
      Change s streamId { s.set streamId { st with pc } with sent }
  /-- the stream goes -/
  | closed {st : VStream} {sent : List Cmd} : s.streams.lookup streamId = some st →
      (∀ a ∈ attached sent, a ∈ attached s.sent) →
      (st.pc.Opening ∨ ∀ a ∈ attached sent, a.streamId ≠ streamId) →
      Change s streamId { s with streams := s.streams.erase streamId, sent }
  | got {st : VStream} {queue : QueueType} {n : Nat} : s.streams.lookup streamId = some st → st.pc = .alloc queue n →
      (∀ a ∈ attached s.sent, ∀ st', s.streams.lookup a.streamId = some st' → st'.pc = .release →
        a.resourceId ∈ s.resourceIdr) →
      Change s streamId { s.set streamId { st with pc := .attach queue n (smallestFree s.resourceIdr 1) } with
        resourceIdr := insert (smallestFree s.resourceIdr 1) s.resourceIdr
        handedOut := (smallestFree s.resourceIdr 1,
          decide (∃ a ∈ attached s.sent, a.resourceId = smallestFree s.resourceIdr 1)) :: s.handedOut }
  | initialised {st : VStream} {queue : QueueType} {n resourceId : Nat} : s.streams.lookup streamId = some st →
      st.pc = .attach queue n resourceId →
      Change s streamId { s.set streamId { pc := .alloc queue (n + 1), bufs := ⟨resourceId, queue⟩ :: st.bufs } with
        sent := .resourceAttach ⟨resourceId, streamId, queue⟩ :: s.sent }
  | putBack {st : VStream} {queue : QueueType} {n resourceId : Nat} : s.streams.lookup streamId = some st →
      st.pc = .attach queue n resourceId →
      Change s streamId { s.set streamId { st with pc := .failed n } with
        resourceIdr := s.resourceIdr.erase resourceId }
  | cleaned {st : VStream} {b : Buf} {pc : Pc} : s.streams.lookup streamId = some st → b ∈ st.bufs →
      st.pc.pending = [] → pc.pending = [] → ¬ pc.Opening → (st.pc = .release → pc = .release) →
      (st.pc = .release ∨ ∀ a ∈ attached s.sent, a.resourceId ≠ b.resourceId) →
      Change s streamId { s.set streamId { pc, bufs := st.bufs.erase b } with
        resourceIdr := s.resourceIdr.erase b.resourceId }

/-- No step of the run leaves an id free that the device holds for good or
takes one that a release in progress has put back: outside of release vb2
frees only buffers whose resource is detached; the `STREAM_DESTROY` of a
stream with attached resources is queued; no `virtio_video_buf_init` takes
an id while a release has put one back and has yet to send its
`STREAM_DESTROY`. -/
def Detached (s : State) : Act → Prop
  | .bufCleanup streamId => ∀ st ∈ s.streams.lookup streamId, st.pc ≠ .release →
      ∀ b ∈ st.nextFree, ∀ a ∈ attached s.sent, a.resourceId ≠ b.1.resourceId
  | .streamDestroy streamId accepted => accepted ∨ ∀ a ∈ attached s.sent, a.streamId ≠ streamId
  | .bufInitGet _ => ∀ a ∈ attached s.sent, ∀ st ∈ s.streams.lookup a.streamId, st.pc = .release →
      a.resourceId ∈ s.resourceIdr
  | _ => True

instance (s : State) (a : Act) : Decidable (Detached s a) := by
  unfold Detached
  split <;> infer_instance

theorem VStream.nextFree_spec {st : VStream} {b : Buf} {pc : Pc} (h : st.nextFree = some (b, pc)) :
    b ∈ st.bufs ∧ st.pc.pending = [] ∧ pc.pending = [] ∧ ¬ pc.Opening ∧ (st.pc = .release → pc = .release) := by
  simp only [nextFree] at h
  split at h
  · next hpc =>
    obtain ⟨b', hb, he⟩ := Option.map_eq_some_iff.mp h
    cases he
    exact ⟨List.mem_of_find?_eq_some hb, by simp [hpc, Pc.pending], rfl, by simp [Pc.Opening], by simp [hpc]⟩
  · next hpc =>
    obtain ⟨b', hb, he⟩ := Option.map_eq_some_iff.mp h
    cases he
    exact ⟨List.mem_of_head? hb, by simp [hpc, Pc.pending], rfl, by simp [Pc.Opening], by simp [hpc]⟩
  · next hpc =>
    obtain ⟨b', hb, he⟩ := Option.map_eq_some_iff.mp h
    cases he
    exact ⟨List.mem_of_head? hb, by simp [hpc, Pc.pending], rfl, by simp [Pc.Opening], fun _ => rfl⟩
  · cases h

variable {s s' : State} {streamId : Nat}

/-- The call goes on, and no command is sent. -/
theorem change_pc {st : VStream} {pc : Pc} (hst : s.streams.lookup streamId = some st) (hpc : st.pc.Moves pc) :
    Change s streamId (s.set streamId { st with pc }) := .moved hst hpc fun _ ha => ha

theorem deviceOpen_change (s : State) : ∃ streamId, Change s streamId (deviceOpen s) := by
  refine ⟨_, .opened fun hmem => smallestFree_not_mem s.streams.keys.toFinset 1 ?_⟩
  exact List.mem_toFinset.mpr hmem

theorem streamCreate_change {accepted : Bool} (h : streamCreate s streamId accepted = some s') :
    Change s streamId s' := by
  obtain ⟨st, hst, h⟩ := Option.bind_eq_some_iff.mp h
  split at h
  · next hpc =>
    split at h
    · cases h
      exact .moved hst (by simp [hpc, Pc.Moves, Pc.pending, Pc.Opening]) fun _ ha => ha
    · cases h
      exact .closed hst (fun _ ha => ha) (.inl (.inl hpc))
  · cases h

theorem deviceOpened_change {ok : Bool} (h : deviceOpened s streamId ok = some s') : Change s streamId s' := by
  obtain ⟨st, hst, h⟩ := Option.bind_eq_some_iff.mp h
  split at h
  · next hpc =>
    split at h
    · cases h
      exact change_pc hst (by simp [hpc, Pc.Moves, Pc.pending, Pc.Opening])
    · cases h
      exact .closed hst (fun _ ha => ha) (.inl (.inr hpc))
  · cases h

theorem reqbufs_change {queue : QueueType} {count : Nat} (h : reqbufs s streamId queue count = some s') :
    Change s streamId s' := by
  obtain ⟨st, hst, h⟩ := Option.bind_eq_some_iff.mp h
  split at h
  · next hpc =>
    cases h
    refine change_pc hst ?_
    split <;> simp [hpc, Pc.Moves, Pc.pending, Pc.Opening]
  · cases h

theorem queueFree_change {accepted completed : Bool} (h : queueFree s streamId accepted completed = some s') :
    Change s streamId s' := by
  obtain ⟨st, hst, h⟩ := Option.bind_eq_some_iff.mp h
  split at h
  · next queue hpc =>
    split at h
    · cases h
      refine .moved hst ?_ fun a ha => List.mem_of_mem_filter ha
      split <;> simp [hpc, Pc.Moves, Pc.pending, Pc.Opening]
    · cases h
      exact change_pc hst (by simp [hpc, Pc.Moves, Pc.pending, Pc.Opening])
  · cases h

theorem vb2Reqbufs_change {granted : Bool} (h : vb2Reqbufs s streamId granted = some s') : Change s streamId s' := by
  obtain ⟨st, hst, h⟩ := Option.bind_eq_some_iff.mp h
  split at h
  · next hpc =>
    cases h
    refine change_pc hst ?_
    split <;> simp [hpc, Pc.Moves, Pc.pending, Pc.Opening]
  · cases h

theorem createBufs_change {queue : QueueType} (h : createBufs s streamId queue = some s') : Change s streamId s' := by
  obtain ⟨st, hst, h⟩ := Option.bind_eq_some_iff.mp h
  split at h
  · next hpc =>
    cases h
    exact change_pc hst (by simp [hpc, Pc.Moves, Pc.pending, Pc.Opening])
  · cases h

theorem bufInitGet_change (hok : Detached s (.bufInitGet streamId)) (h : bufInitGet s streamId = some s') :
    Change s streamId s' := by
  obtain ⟨st, hst, h⟩ := Option.bind_eq_some_iff.mp h
  split at h
  · next hpc =>
    cases h
    exact .got hst hpc hok
  · cases h

theorem bufInitAttach_change {accepted : Bool} (h : bufInitAttach s streamId accepted = some s') :
    Change s streamId s' := by
  obtain ⟨st, hst, h⟩ := Option.bind_eq_some_iff.mp h
  split at h
  · next hpc =>
    split at h
    · cases h
      exact .initialised hst hpc
    · cases h
      exact .putBack hst hpc
  · cases h

theorem allocated_change {keep : Bool} (h : allocated s streamId keep = some s') : Change s streamId s' := by
  obtain ⟨st, hst, h⟩ := Option.bind_eq_some_iff.mp h
  split at h
  · next hpc =>
    cases h
    refine change_pc hst ?_
    split <;> simp [hpc, Pc.Moves, Pc.pending, Pc.Opening]
  · next hpc =>
    cases h
    refine change_pc hst ?_
    split <;> simp [hpc, Pc.Moves, Pc.pending, Pc.Opening]
  · cases h

theorem bufCleanup_change (hok : Detached s (.bufCleanup streamId)) (h : bufCleanup s streamId = some s') :
    Change s streamId s' := by
  obtain ⟨st, hst, h⟩ := Option.bind_eq_some_iff.mp h
  obtain ⟨⟨b, pc⟩, hb, h⟩ := Option.bind_eq_some_iff.mp h
  cases h
  obtain ⟨hmem, hpend, hpend', hop, hrel⟩ := VStream.nextFree_spec hb
  refine .cleaned hst hmem hpend hpend' hop hrel ?_
  by_cases hpc : st.pc = .release
  · exact .inl hpc
  · exact .inr (hok st hst hpc _ hb)

theorem freed_change (h : freed s streamId = some s') : Change s streamId s' := by
  obtain ⟨st, hst, h⟩ := Option.bind_eq_some_iff.mp h
  split at h
  · next hpc =>
    split at h
    · cases h
      refine change_pc hst ?_
      split <;> simp [hpc, Pc.Moves, Pc.pending, Pc.Opening]
    · cases h
  · next hpc =>
    cases h
    exact change_pc hst (by simp [hpc, Pc.Moves, Pc.pending, Pc.Opening])
  · cases h

theorem deviceRelease_change (h : deviceRelease s streamId = some s') : Change s streamId s' := by
  obtain ⟨st, hst, h⟩ := Option.bind_eq_some_iff.mp h
  split at h
  · next hpc =>
    cases h
    exact change_pc hst (by simp [hpc, Pc.Moves, Pc.pending, Pc.Opening])
  · cases h

theorem streamDestroy_change {accepted : Bool} (hok : Detached s (.streamDestroy streamId accepted))
    (h : streamDestroy s streamId accepted = some s') : Change s streamId s' := by
  obtain ⟨st, hst, h⟩ := Option.bind_eq_some_iff.mp h
  split at h
  · cases h
    refine .closed hst ?_ (.inr ?_)
    · intro a ha
      split at ha
      · exact List.mem_of_mem_filter ha
      · exact ha
    · intro a ha
      split at ha
      · exact of_decide_eq_true (List.mem_filter.mp ha).2
      · next hacc => exact (hok.resolve_left hacc) a ha
  · cases h

theorem step_change {a : Act} (hok : Detached s a) (h : step s a = some s') : ∃ streamId, Change s streamId s' := by
  cases a with
  | deviceOpen =>
    cases h
    exact deviceOpen_change s
  | streamCreate => exact ⟨_, streamCreate_change h⟩
  | deviceOpened => exact ⟨_, deviceOpened_change h⟩
  | reqbufs => exact ⟨_, reqbufs_change h⟩
  | queueFree => exact ⟨_, queueFree_change h⟩
  | vb2Reqbufs => exact ⟨_, vb2Reqbufs_change h⟩
  | createBufs => exact ⟨_, createBufs_change h⟩
  | bufInitGet => exact ⟨_, bufInitGet_change hok h⟩
  | bufInitAttach => exact ⟨_, bufInitAttach_change h⟩
  | allocated => exact ⟨_, allocated_change h⟩
  | bufCleanup => exact ⟨_, bufCleanup_change hok h⟩
  | freed => exact ⟨_, freed_change h⟩
  | deviceRelease => exact ⟨_, deviceRelease_change h⟩
  | streamDestroy => exact ⟨_, streamDestroy_change hok h⟩

/-! ## The streams by id -/

abbrev Streams := AList fun _ : Nat => VStream

/-! ## Who has which id -/

/-- The ids the streams have are in use, and each has one owner. -/
structure Owned (streams : Streams) (ids : Finset Nat) : Prop where
  nodup : ∀ {k st}, streams.lookup k = some st → st.owns.Nodup
  mem : ∀ {k st}, streams.lookup k = some st → ∀ r ∈ st.owns, r ∈ ids
  apart : ∀ {k k' st st'}, k ≠ k' → streams.lookup k = some st → streams.lookup k' = some st' →
    ∀ r ∈ st.owns, r ∉ st'.owns
  opening : ∀ {k st}, streams.lookup k = some st → st.pc.Opening → st.bufs = []

namespace Owned

variable {streams : Streams} {ids ids' : Finset Nat} {k r : Nat} {st st' : VStream}

/-- A stream with ids of its own, where the others keep theirs. -/
theorem insert (h : Owned streams ids) (hnodup : st'.owns.Nodup) (hmem : ∀ r ∈ st'.owns, r ∈ ids')
    (hrest : ∀ {k' st''}, k' ≠ k → streams.lookup k' = some st'' → ∀ r ∈ st''.owns, r ∈ ids' ∧ r ∉ st'.owns)
    (hopen : st'.pc.Opening → st'.bufs = []) : Owned (streams.insert k st') ids' where
  nodup hl := by
    obtain ⟨rfl, rfl⟩ | ⟨-, hl⟩ := Table.lookup_insert_some.mp hl
    · exact hnodup
    · exact h.nodup hl
  mem hl := by
    obtain ⟨rfl, rfl⟩ | ⟨hk, hl⟩ := Table.lookup_insert_some.mp hl
    · exact hmem
    · exact fun r hr => (hrest hk hl r hr).1
  apart hne hl hl' r hr hr' := by
    obtain ⟨hk, rfl⟩ | ⟨hk, hl₁⟩ := Table.lookup_insert_some.mp hl
    · obtain ⟨hk', -⟩ | ⟨hk', hl₁'⟩ := Table.lookup_insert_some.mp hl'
      · exact hne (hk.trans hk'.symm)
      · exact (hrest hk' hl₁' r hr').2 hr
    · obtain ⟨-, rfl⟩ | ⟨-, hl₁'⟩ := Table.lookup_insert_some.mp hl'
      · exact (hrest hk hl₁ r hr).2 hr'
      · exact h.apart hne hl₁ hl₁' r hr hr'
  opening hl := by
    obtain ⟨rfl, rfl⟩ | ⟨-, hl⟩ := Table.lookup_insert_some.mp hl
    · exact hopen
    · exact h.opening hl

theorem erase (h : Owned streams ids) : Owned (streams.erase k) ids where
  nodup hl := h.nodup (Table.lookup_erase_some.mp hl).2
  mem hl := h.mem (Table.lookup_erase_some.mp hl).2
  apart hne hl hl' := h.apart hne (Table.lookup_erase_some.mp hl).2 (Table.lookup_erase_some.mp hl').2
  opening hl := h.opening (Table.lookup_erase_some.mp hl).2

/-- The stream goes on with the ids it has. -/
theorem keep (h : Owned streams ids) (hst : streams.lookup k = some st) (howns : st'.owns = st.owns)
    (hopen : st'.pc.Opening → st'.bufs = []) : Owned (streams.insert k st') ids :=
  h.insert (howns ▸ h.nodup hst) (howns ▸ h.mem hst)
    (fun hk hl r hr => ⟨h.mem hl r hr, howns ▸ h.apart hk hl hst r hr⟩) hopen

/-- It takes one that was free. -/
theorem get (h : Owned streams ids) (hst : streams.lookup k = some st) (hr : r ∉ ids) (howns : st'.owns = r :: st.owns)
    (hopen : st'.pc.Opening → st'.bufs = []) : Owned (streams.insert k st') (Insert.insert r ids) := by
  refine h.insert ?_ ?_ (fun hk hl q hq => ⟨Finset.mem_insert_of_mem (h.mem hl q hq), ?_⟩) hopen
  · rw [howns]
    exact List.nodup_cons.mpr ⟨fun hmem => hr (h.mem hst r hmem), h.nodup hst⟩
  · intro q hq
    rw [howns] at hq
    obtain rfl | hq := List.mem_cons.mp hq
    · exact Finset.mem_insert_self _ _
    · exact Finset.mem_insert_of_mem (h.mem hst q hq)
  · rw [howns]
    intro hmem
    obtain rfl | hmem := List.mem_cons.mp hmem
    · exact hr (h.mem hl q hq)
    · exact h.apart hk hl hst q hq hmem

/-- It puts one back. -/
theorem put (h : Owned streams ids) (hst : streams.lookup k = some st) (hperm : st.owns.Perm (r :: st'.owns))
    (hopen : st'.pc.Opening → st'.bufs = []) : Owned (streams.insert k st') (ids.erase r) := by
  obtain ⟨hr, hnodup⟩ := List.nodup_cons.mp (hperm.nodup_iff.mp (h.nodup hst))
  have hsub : ∀ q ∈ st'.owns, q ∈ st.owns := fun q hq => hperm.symm.subset (List.mem_cons_of_mem _ hq)
  have hrst : r ∈ st.owns := hperm.symm.subset List.mem_cons_self
  refine h.insert hnodup (fun q hq => ?_) (fun hk hl q hq => ⟨?_, fun hq' => h.apart hk hl hst q hq (hsub q hq')⟩)
    hopen
  · exact Finset.mem_erase.mpr ⟨fun he => hr (he ▸ hq), h.mem hst q (hsub q hq)⟩
  · exact Finset.mem_erase.mpr ⟨fun he => h.apart hk hl hst q hq (he ▸ hrst), h.mem hl q hq⟩

end Owned

/-! ## What the device holds is there -/

/-- The resource belongs to a buffer that has its id, or to a stream in
release. -/
def Backed (streams : Streams) (ids : Finset Nat) (a : Att) : Prop :=
  ∃ st, streams.lookup a.streamId = some st ∧
    (st.pc = .release ∨ a.resourceId ∈ ids ∧ ⟨a.resourceId, a.queue⟩ ∈ st.bufs)

theorem mem_owns_of_buf {st : VStream} {b : Buf} (h : b ∈ st.bufs) : b.resourceId ∈ st.owns :=
  List.mem_append_right _ (List.mem_map_of_mem h)

namespace Backed

variable {streams : Streams} {ids ids' : Finset Nat} {k r : Nat} {st st' : VStream} {a : Att}

/-- Resources of other streams need their ids only, those of the stream at
hand are given. -/
theorem insert (h : Backed streams ids a)
    (hrest : ∀ {st''}, a.streamId ≠ k → streams.lookup a.streamId = some st'' → a.resourceId ∈ st''.owns →
      a.resourceId ∈ ids → a.resourceId ∈ ids')
    (hself : a.streamId = k → st'.pc = .release ∨ a.resourceId ∈ ids' ∧ ⟨a.resourceId, a.queue⟩ ∈ st'.bufs) :
    Backed (streams.insert k st') ids' a := by
  by_cases hk : a.streamId = k
  · exact ⟨st', Table.lookup_insert_some.mpr (.inl ⟨hk, rfl⟩), hself hk⟩
  · obtain ⟨st, hl, hb⟩ := h
    refine ⟨st, Table.lookup_insert_some.mpr (.inr ⟨hk, hl⟩), hb.imp_right fun ⟨hid, hbuf⟩ => ⟨?_, hbuf⟩⟩
    exact hrest hk hl (mem_owns_of_buf hbuf) hid

/-- Of a stream not in release it is the buffer. -/
theorem self (h : Backed streams ids a) (hst : streams.lookup k = some st) (hpc : st.pc ≠ .release)
    (hk : a.streamId = k) : a.resourceId ∈ ids ∧ ⟨a.resourceId, a.queue⟩ ∈ st.bufs := by
  obtain ⟨st'', hl, hb⟩ := h
  rw [hk, hst] at hl
  cases hl
  exact hb.resolve_left hpc

/-- The stream goes on, with at least the buffers it has. -/
theorem keep (h : Backed streams ids a) (hst : streams.lookup k = some st) (hpc : st.pc ≠ .release)
    (hids : ids ⊆ ids') (hbufs : ∀ b ∈ st.bufs, b ∈ st'.bufs) : Backed (streams.insert k st') ids' a :=
  h.insert (fun _ _ _ hid => hids hid) fun hk =>
    .inr ⟨hids (h.self hst hpc hk).1, hbufs _ (h.self hst hpc hk).2⟩

end Backed

/-! ## The invariant -/

structure Inv (s : State) : Prop where
  owned : Owned s.streams s.resourceIdr
  backed : ∀ a ∈ attached s.sent, Backed s.streams s.resourceIdr a
  handedOut : ∀ p ∈ s.handedOut, p.2 = false

theorem Change.inv {s s' : State} {streamId : Nat} (hi : Inv s) (h : Change s streamId s') : Inv s' := by
  cases h with
  | opened hfresh =>
    refine ⟨hi.owned.insert (by simp [VStream.owns, Pc.pending]) (by simp [VStream.owns, Pc.pending])
      (fun _ hl r hr => ⟨hi.owned.mem hl r hr, by simp [VStream.owns, Pc.pending]⟩) (fun _ => rfl), ?_, hi.handedOut⟩
    refine fun a ha => (hi.backed a ha).insert (fun _ _ _ hid => hid) fun hk => ?_
    obtain ⟨st, hl, -⟩ := hi.backed a ha
    exact absurd (AList.lookup_isSome.mp (by rw [← hk, hl]; rfl)) hfresh
  | @moved st pc sent hst hmoves hsent =>
    obtain ⟨hpend, hpend', hrel, hop⟩ := hmoves
    have hopen : pc.Opening → st.bufs = [] := fun ho => hi.owned.opening hst (hop ho)
    refine ⟨hi.owned.keep hst (by simp [VStream.owns, hpend, hpend']) hopen, ?_, hi.handedOut⟩
    exact fun a ha => (hi.backed a (hsent a ha)).keep hst hrel (Finset.Subset.refl _) fun _ hb => hb
  | @closed st sent hst hsent hnone =>
    refine ⟨hi.owned.erase, fun a ha => ?_, hi.handedOut⟩
    obtain ⟨st', hl, hb⟩ := hi.backed a (hsent a ha)
    refine ⟨st', Table.lookup_erase_some.mpr ⟨fun hk => ?_, hl⟩, hb⟩
    obtain hop | hnone := hnone
    · rw [hk, hst] at hl
      cases hl
      obtain hrel | ⟨-, hbuf⟩ := hb
      · simp [Pc.Opening, hrel] at hop
      · simp [hi.owned.opening hst hop] at hbuf
    · exact hnone a ha hk
  | @got st queue n hst hpc hrel =>
    have hfree := smallestFree_not_mem s.resourceIdr 1
    refine ⟨hi.owned.get hst hfree (by simp [VStream.owns, Pc.pending, hpc]) (by simp [Pc.Opening]), ?_, ?_⟩
    · exact fun a ha => (hi.backed a ha).keep hst (by simp [hpc]) (Finset.subset_insert _ _) fun _ hb => hb
    · intro p hp
      obtain rfl | hp := List.mem_cons.mp hp
      · refine decide_eq_false fun ⟨a, ha, he⟩ => hfree (he ▸ ?_)
        obtain ⟨st', hl, hb⟩ := hi.backed a ha
        exact hb.elim (hrel a ha st' hl) And.left
      · exact hi.handedOut p hp
  | @initialised st queue n r hst hpc =>
    have howns : st.owns = r :: st.bufs.map (·.resourceId) := by simp [VStream.owns, Pc.pending, hpc]
    refine ⟨hi.owned.keep hst (by simp [VStream.owns, Pc.pending, hpc]) (by simp [Pc.Opening]), fun a ha => ?_,
      hi.handedOut⟩
    obtain rfl | ha := List.mem_cons.mp ha
    · refine ⟨_, AList.lookup_insert _, .inr ⟨hi.owned.mem hst r ?_, List.mem_cons_self⟩⟩
      exact howns ▸ List.mem_cons_self
    · exact (hi.backed a (List.mem_of_mem_filter ha)).keep hst (by simp [hpc]) (Finset.Subset.refl _)
        fun _ hb => List.mem_cons_of_mem _ hb
  | @putBack st queue n r hst hpc =>
    have howns : st.owns = r :: st.bufs.map (·.resourceId) := by simp [VStream.owns, Pc.pending, hpc]
    have hr : r ∈ st.owns := howns ▸ List.mem_cons_self
    refine ⟨hi.owned.put hst (howns ▸ .refl _) (by simp [Pc.Opening]), fun a ha => ?_, hi.handedOut⟩
    refine (hi.backed a ha).insert (fun hk hl hmem hid => Finset.mem_erase.mpr ⟨?_, hid⟩) fun hk => .inr ?_
    · exact fun he => hi.owned.apart hk hl hst _ hmem (he ▸ hr)
    · obtain ⟨hid, hbuf⟩ := (hi.backed a ha).self hst (by simp [hpc]) hk
      refine ⟨Finset.mem_erase.mpr ⟨fun he => ?_, hid⟩, hbuf⟩
      have hnodup := hi.owned.nodup hst
      rw [howns] at hnodup
      exact (List.nodup_cons.mp hnodup).1 (he ▸ List.mem_map_of_mem (f := (·.resourceId)) hbuf)
  | @cleaned st b pc hst hb hpend hpend' hop hrel hdet =>
    refine ⟨hi.owned.put hst ?_ (fun ho => absurd ho hop), fun a ha => ?_, hi.handedOut⟩
    · simp only [VStream.owns, hpend, hpend', List.nil_append]
      exact (List.perm_cons_erase hb).map _
    · refine (hi.backed a ha).insert (fun hk hl hmem hid => Finset.mem_erase.mpr ⟨?_, hid⟩) fun hk => ?_
      · exact fun he => hi.owned.apart hk hl hst _ hmem (he ▸ mem_owns_of_buf hb)
      · by_cases hpc : st.pc = .release
        · exact .inl (hrel hpc)
        · have hne := hdet.resolve_left hpc a ha
          obtain ⟨hid, hbuf⟩ := (hi.backed a ha).self hst hpc hk
          exact .inr ⟨Finset.mem_erase.mpr ⟨hne, hid⟩,
            (List.mem_erase_of_ne fun he => hne (congrArg Buf.resourceId he)).mpr hbuf⟩

theorem inv_inductive : machine.Inductive Detached Inv where
  init s hs := by
    subst hs
    exact ⟨⟨by simp [probe], by simp [probe], by simp [probe], by simp [probe]⟩, by simp [probe, attached],
      by simp [probe]⟩
  step _ _ _ hi hok hs := by
    obtain ⟨_, hc⟩ := step_change hok hs
    exact hc.inv hi

/-- **Attached resources and resource ids.** In every run in which vb2 frees
the buffers of an open stream only when their resources are detached, the
`STREAM_DESTROY` of a stream with attached resources is queued, and no id
is taken that a release has put back before its `STREAM_DESTROY`:
`virtio_video_buf_init` has got no id that the device held attached. -/
theorem resourceIds_agree {s : State} (h : machine.Reach Detached s) : ∀ p ∈ s.handedOut, p.2 = false :=
  (inv_inductive.reach h).handedOut

/-- A stream is opened. -/
def openStream (streamId : Nat) : List Act :=
  [.deviceOpen, .streamCreate streamId true, .deviceOpened streamId true]

/-- A REQBUFS that gives one buffer to a queue without buffers. -/
def reqbufsOne (streamId : Nat) : List Act :=
  [.reqbufs streamId .output 1, .vb2Reqbufs streamId true, .freed streamId, .bufInitGet streamId,
    .bufInitAttach streamId true, .allocated streamId true]

/-- A REQBUFS of count 0 on a queue with one buffer. -/
def reqbufsZero (streamId : Nat) : List Act :=
  [.reqbufs streamId .output 0, .queueFree streamId true true, .vb2Reqbufs streamId true, .bufCleanup streamId,
    .freed streamId]

theorem resourceIds_agree_again : ∃ s : State, s.handedOut.length = 2 ∧ ∀ p ∈ s.handedOut, p.2 = false := by
  obtain ⟨s, hs, hlen⟩ := Machine.exists_reach (M := machine) Detached (s := probe) rfl
    (openStream 1 ++ reqbufsOne 1 ++ reqbufsZero 1 ++ reqbufsOne 1) (fun s => s.handedOut.length = 2)
    (by decide +kernel)
  exact ⟨s, hlen, resourceIds_agree hs⟩

/-- A second REQBUFS of count 1 on the only stream hands the first buffer's
id out again while the device holds it. -/
theorem reqbufsTwice_reused : ∃ s, machine.Reachable s ∧ s.handedOut = [(1, true), (1, false)] ∧
    attached s.sent = [⟨1, 1, .output⟩] :=
  Machine.exists_reach (M := machine) (fun _ _ => True) (s := probe) rfl
    (openStream 1 ++ reqbufsOne 1 ++ [.reqbufs 1 .output 1, .vb2Reqbufs 1 true, .bufCleanup 1, .freed 1, .bufInitGet 1])
    (fun s => s.handedOut = [(1, true), (1, false)] ∧ attached s.sent = [⟨1, 1, .output⟩]) (by decide +kernel)

end Agl.VirtioVideo.Resource
