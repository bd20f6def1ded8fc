/-
The exclusive open of a camera (`virtio_video_set_device_busy`,
`virtio_video_clear_device_busy`).

`device_busy` counts: an open that has set it, a stream, and a failed open
on its way to clear it are one user of the device each, and a device that is
not a memory-to-memory one has as many users as its flag says, none or one
(`open_exclusive`). So the one that clears the flag is the one that set it.
-/
import Agl.Video.OpenFacts

namespace Agl.VirtioVideo.Open

/-- The opens past `virtio_video_set_device_busy`, the streams, and the
failed opens that have yet to clear the flag. -/
def State.users (s : State) : Nat := s.entered + s.clearing + s.streams.keys.length

/-! ## Streams -/

theorem length_set {s : State} {stream : Addr} {st st' : VStream} (h : s.streams.lookup stream = some st) :
    (s.set stream st').streams.keys.length = s.streams.keys.length := by
  have hmem : stream ∈ s.streams.keys := AList.lookup_isSome.mp (by rw [h]; rfl)
  rw [State.set, AList.keys_insert, List.length_cons, List.length_erase_of_mem hmem]
  exact Nat.succ_pred_eq_of_pos (List.length_pos_of_mem hmem)

theorem length_erase {s : State} {stream : Addr} {st : VStream} (h : s.streams.lookup stream = some st) :
    (s.streams.erase stream).keys.length + 1 = s.streams.keys.length := by
  have hmem : stream ∈ s.streams.keys := AList.lookup_isSome.mp (by rw [h]; rfl)
  rw [AList.keys_erase, List.length_erase_of_mem hmem]
  exact Nat.succ_pred_eq_of_pos (List.length_pos_of_mem hmem)

theorem length_new {s : State} {stream : Addr} {st : VStream} (h : s.streams.lookup stream = none) :
    (s.set stream st).streams.keys.length = s.streams.keys.length + 1 := by
  have hmem : stream ∉ s.streams.keys := AList.lookup_eq_none.mp h
  rw [State.set, AList.keys_insert, List.length_cons, List.erase_of_not_mem hmem]

/-! ## The flag -/

/-- What a step does with the flag: an open takes it, the end of a failed
open or of a release drops it, and no other step touches it. -/
inductive FlagStep (s s' : State) : Prop
  | kept : s'.deviceBusy = s.deviceBusy → s'.users = s.users → FlagStep s s'
  | taken : s.deviceBusy = false → s'.deviceBusy = true → s'.users = s.users + 1 → FlagStep s s'
  | dropped : s'.deviceBusy = false → s'.users + 1 = s.users → FlagStep s s'

/-- A step on one stream that stays. -/
theorem FlagStep.set {s : State} {stream : Addr} {st st' : VStream} {idr : Table Nat Addr} {lock : Option Holder}
    {sent : List Resource.Cmd} (h : s.streams.lookup stream = some st) :
    FlagStep s { s.set stream st' with streamIdr := idr, lock, sent } :=
  .kept rfl (congrArg (s.entered + s.clearing + ·) (length_set h))

theorem deviceOpen_flag {s s' : State} (hm : s.isM2mDev = false) (h : deviceOpen s = some s') : FlagStep s s' := by
  unfold deviceOpen at h
  rw [hm, if_neg (by decide)] at h
  split at h
  · cases h
  split at h
  · cases h
    exact .kept rfl rfl
  · next hbusy =>
    cases h
    refine .taken (by simpa using hbusy) rfl ?_
    simp only [State.users]
    omega

theorem clearBusy_flag {s s' : State} (hm : s.isM2mDev = false) (h : clearBusy s = some s') : FlagStep s s' := by
  unfold clearBusy at h
  rw [hm] at h
  split at h
  · cases h
  · next hg =>
    have hpos : s.clearing ≠ 0 := fun h0 => hg (.inl h0)
    cases h
    refine .dropped rfl ?_
    simp only [State.users]
    omega

theorem releaseStep_flag {s s' : State} {stream : Addr} (hm : s.isM2mDev = false)
    (h : releaseStep s stream = some s') : FlagStep s s' := by
  obtain ⟨st, hst, h⟩ := Option.bind_eq_some_iff.mp h
  split at h
  · cases h
    exact .set hst
  · cases h
    exact .set hst
  · cases h
    have hlen := length_erase hst
    refine .dropped (by simp [hm]) ?_
    simp only [State.users]
    omega
  · obtain ⟨st', -, rfl⟩ := Option.map_eq_some_iff.mp h
    exact .set hst

theorem step_flag {s s' : State} {a : Act} (hm : s.isM2mDev = false) (h : machine.step s a = some s') :
    FlagStep s s' := by
  have hstep := step_cases h
  cases a with
  | deviceOpen => exact deviceOpen_flag hm h
  | clearBusy => exact clearBusy_flag hm h
  | releaseStep stream => exact releaseStep_flag hm h
  | openFails =>
    simp only [machine, step, VirtioVideo.Open.openFails] at h
    split at h <;> cases h
    next hpos =>
    refine .kept rfl ?_
    simp only [State.users]
    omega
  | kzalloc stream =>
    simp only [machine, step, VirtioVideo.Open.kzalloc] at h
    split at h <;> cases h
    next hg =>
    obtain ⟨hpos, hnew⟩ := not_or.mp hg
    have hlen : (s.set stream ⟨.idGet, 0, false, false, false, false⟩).streams.keys.length =
        s.streams.keys.length + 1 := length_new (not_not.mp hnew)
    refine .kept rfl ?_
    simp only [State.users, State.set] at hlen ⊢
    omega
  | streamIdGet stream err =>
    cases hstep with
    | refused => exact .kept rfl rfl
    | idGot hst | idErr hst => exact .set hst
  | openStep stream ok =>
    cases hstep with
    | refused => exact .kept rfl rfl
    | created hst | notCreated hst | opens hst | idPut hst => exact .set hst
    | freed hst =>
      have hlen := length_erase hst
      refine .kept rfl ?_
      simp only [State.users]
      omega
  | deviceRelease stream =>
    cases hstep with
    | refused => exact .kept rfl rfl
    | release hst => exact .set hst
  | handleEvent | eventDone => cases hstep <;> exact .kept rfl rfl

/-! ## Every run -/

/-- A device that admits one user has as many as its flag says. -/
def Exclusive (s : State) : Prop := s.isM2mDev = false → s.users = if s.deviceBusy then 1 else 0

theorem step_isM2mDev {s s' : State} {a : Act} (h : machine.step s a = some s') : s'.isM2mDev = s.isM2mDev := by
  cases step_cases h <;> rfl

theorem exclusive_inductive : machine.Inductive (fun _ _ => True) Exclusive where
  init s hs _ := by
    obtain ⟨isM2mDev, rfl⟩ := hs
    rfl
  step s a s' h _ hs hm := by
    have hm : s.isM2mDev = false := (step_isM2mDev hs).symm.trans hm
    have hcount := h hm
    cases step_flag hm hs with
    | kept hbusy husers => rw [husers, hbusy, hcount]
    | taken hfree hbusy husers =>
      rw [hfree] at hcount
      rw [husers, hbusy, hcount]
      rfl
    | dropped hfree husers =>
      rw [hfree]
      have hle : s.users ≤ 1 := by
        rw [hcount]
        split <;> decide
      simp only [Bool.false_eq_true, ↓reduceIte]
      omega

/-- **At most one open camera.** In every run on a device that is not a
memory-to-memory one, at most one stream exists or is being opened (an open
that is failing included), and with no stream and no open or release in
progress `device_busy` is false. -/
theorem open_exclusive {s : State} (h : machine.Reachable s) (hm : s.isM2mDev = false) :
    s.entered + s.clearing + s.streams.keys.length ≤ 1 ∧
      (s.entered = 0 → s.clearing = 0 → s.streams.keys = [] → s.deviceBusy = false) := by
  have hcount : s.users = if s.deviceBusy then 1 else 0 := exclusive_inductive.reach h hm
  constructor
  · change s.users ≤ 1
    rw [hcount]
    split <;> decide
  · intro hentered hclearing hstreams
    rw [State.users, hentered, hclearing, hstreams] at hcount
    split at hcount
    · cases hcount
    · simpa using ‹¬s.deviceBusy = true›

/-- A second open is refused while the first is in progress; when that has
failed the device can be opened. -/
theorem open_exclusive_failed :
    ∃ s : State, s.entered + s.clearing + s.streams.keys.length ≤ 1 ∧ s.deviceBusy = false := by
  obtain ⟨s, hs, hm, h0⟩ := Machine.exists_reach (fun _ _ => True) (probe_init false)
    [.deviceOpen, .deviceOpen, .kzalloc 7, .streamIdGet 7 none, .openStep 7 false, .openStep 7 true, .openStep 7 true,
      .clearBusy]
    (fun s => s.isM2mDev = false ∧ s.entered = 0 ∧ s.clearing = 0 ∧ s.streams.keys = []) (by decide +kernel)
  have hopen := open_exclusive hs hm
  exact ⟨s, hopen.1, hopen.2 h0.1 h0.2.1 h0.2.2⟩

end Agl.VirtioVideo.Open
