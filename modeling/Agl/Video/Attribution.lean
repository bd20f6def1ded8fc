/-
Which submission a completion is taken for.

`vbuf_is_pending` compares `entry->id` with `vbuf->id` after it has found
`entry == vbuf`, that is, an id with itself. A request whose vbuf was freed
on a timeout and whose address was given to a later vbuf is therefore taken
for the later one. Where no vbuf is listed at an address an outstanding
request still names (`NoStale`), a completion is taken for its own
submission (`vbufAttribution`).
-/
import Agl.Video.VbufFacts

namespace Agl.VirtioVideo

/-- No vbuf is listed at an address a request in the virtqueue still names. -/
def NoStale (s : State) : Act → Prop
  | .call (.number vbuf _) => ∀ r ∈ s.ring, r.token ≠ vbuf
  | _ => True

instance (s : State) (a : Act) : Decidable (NoStale s a) := by
  unfold NoStale
  split <;> infer_instance

/-- The call between the listing of its vbuf and its insertion into the ring. -/
def Call.adding : Call → Option (Addr × Nat)
  | .add vbuf serial _ | .full vbuf serial _ => some (vbuf, serial)
  | _ => none

/-- The listed vbuf of a call in progress. -/
def Call.active : Call → Option Addr
  | .add vbuf _ _ | .full vbuf _ _ | .wait vbuf | .relock vbuf _ | .reap vbuf _ => some vbuf
  | _ => none

/-- The id and the submission of the vbuf at this address. -/
def State.numberAt (s : State) (a : Addr) : Option (UInt32 × Nat) := (s.heap a).map fun v => (v.id, v.serial)

/-- What `virtio_video_queue_cmd_buffer` writes for submission `k`. -/
def numbered (k : Nat) : UInt32 × Nat := (UInt32.ofNat k, k)

structure Track (s : State) : Prop where
  /-- a token that is listed stands for the request's own submission -/
  ring : ∀ r ∈ s.ring, r.token ∈ s.pendingVbufList → s.numberAt r.token = some (numbered r.serial)
  adding : ∀ p ∈ s.calls.filterMap Call.adding, p.1 ∈ s.pendingVbufList ∧ s.numberAt p.1 = some (numbered p.2) ∧
    ∀ r ∈ s.ring, r.token ≠ p.1
  active : (s.calls.filterMap Call.active).Nodup
  attributed : ∀ p ∈ s.attributed, (p.1.id, p.1.serial) = numbered p.2

namespace Track

variable {s : State}

theorem probe_track : Track probe where
  ring := by simp [probe, State.ring]
  adding := by simp [probe]
  active := by simp [probe]
  attributed := by simp [probe]

/-- A state with no more on the list, in the ring and in the calls. -/
theorem shrink (h : Track s) {s' : State}
    (hpend : ∀ a ∈ s'.pendingVbufList, a ∈ s.pendingVbufList ∧ s'.numberAt a = s.numberAt a)
    (hring : ∀ r ∈ s'.ring, r ∈ s.ring)
    (hadd : ∀ p ∈ s'.calls.filterMap Call.adding, p ∈ s.calls.filterMap Call.adding ∧ p.1 ∈ s'.pendingVbufList)
    (hact : (s'.calls.filterMap Call.active).Nodup) (hattr : s'.attributed = s.attributed) : Track s' where
  ring r hr hp := by
    obtain ⟨hp, he⟩ := hpend _ hp
    exact he.trans (h.ring r (hring r hr) hp)
  adding p hp := by
    obtain ⟨hm, hl⟩ := hadd p hp
    obtain ⟨-, hn, hr⟩ := h.adding p hm
    exact ⟨hl, (hpend _ hl).2.trans hn, fun r h' => hr r (hring r h')⟩
  active := hact
  attributed := hattr ▸ h.attributed

/-- A call that is replaced by one with the same vbuf. -/
theorem filterMap_move {β : Type} {f : Call → Option β} {l : List Call} {c c' : Call} (hc : c ∈ l) (hf : f c' = f c) :
    ((c' :: l.erase c).filterMap f).Perm (l.filterMap f) := by
  refine .trans ?_ ((List.perm_cons_erase hc).filterMap f).symm
  rw [List.filterMap_cons, List.filterMap_cons, hf]

theorem move (h : Track s) {c : Call} (hc : c ∈ s.calls) (c' : Call) (hadd : c'.adding = c.adding)
    (hact : c'.active = c.active) : Track { s with calls := c' :: s.calls.erase c } :=
  h.shrink (fun _ ha => ⟨ha, rfl⟩) (fun _ hr => hr)
    (fun p hp => by
      have hp := (filterMap_move hc hadd).subset hp
      exact ⟨hp, (h.adding p hp).1⟩)
    ((filterMap_move hc hact).nodup_iff.mpr h.active) rfl

theorem drop (h : Track s) (c : Call) : Track { s with calls := s.calls.erase c } :=
  have hsub := List.erase_sublist (a := c) (l := s.calls)
  h.shrink (fun _ ha => ⟨ha, rfl⟩) (fun _ hr => hr)
    (fun p hp => by
      have hp := (hsub.filterMap Call.adding).subset hp
      exact ⟨hp, (h.adding p hp).1⟩)
    (h.active.sublist (hsub.filterMap _)) rfl

/-- `free_vbuf` on a vbuf that is not on its way into the ring. -/
theorem free (h : Track s) (hnodup : s.pendingVbufList.Nodup) {a : Addr}
    (ha : ∀ k, (a, k) ∉ s.calls.filterMap Call.adding) :
    Track (freeVbuf s a) := by
  refine h.shrink (fun b hb => ?_) (fun _ hr => hr) (fun p hp => ⟨hp, ?_⟩) h.active rfl
  · obtain ⟨hne, hm⟩ := hnodup.mem_erase_iff.mp hb
    exact ⟨hm, by simp [State.numberAt, freeVbuf, hne]⟩
  · have hne : p.1 ≠ a := fun he => ha p.2 (by rw [← he]; exact hp)
    exact (List.mem_erase_of_ne hne).mpr (h.adding p hp).1

theorem adding_active {a k} {l : List Call} (h : (a, k) ∈ l.filterMap Call.adding) : a ∈ l.filterMap Call.active := by
  obtain ⟨c, hc, ha⟩ := List.mem_filterMap.mp h
  refine List.mem_filterMap.mpr ⟨c, hc, ?_⟩
  cases c <;> cases ha <;> rfl

/-- The vbuf of a call in progress is listed: a synchronous call waits for
it, or it has not been in the ring yet. -/
theorem active_listed (h : Track s) (hi : Inv s) : ∀ a ∈ s.calls.filterMap Call.active, a ∈ s.pendingVbufList := by
  intro a ha
  obtain ⟨c, hc, ha⟩ := List.mem_filterMap.mp ha
  cases c with
  | test | lock | number => cases ha
  | add vbuf serial sync | full vbuf serial sync =>
    cases ha
    exact (h.adding (a, serial) (List.mem_filterMap.mpr ⟨_, hc, rfl⟩)).1
  | wait | relock | reap =>
    cases ha
    exact (hi.owned_mem hc rfl).1

theorem reclaim (h : Track s) {a v} (hv : s.heap a = some v) :
    Track { s with heap := Function.update s.heap a (some { v with reclaimed := true }) } := by
  refine h.shrink (fun b hb => ⟨hb, ?_⟩) (fun _ hr => hr) (fun p hp => ⟨hp, (h.adding p hp).1⟩) h.active rfl
  by_cases hba : b = a
  · subst hba
    simp [State.numberAt, hv]
  · simp [State.numberAt, hba]

/-- The callback with a token that stands for the request's own submission. -/
theorem token (h : Track s) (hi : Inv s) {r : Req}
    (hr : r.token ∈ s.pendingVbufList → s.numberAt r.token = some (numbered r.serial))
    (hno : ∀ k, (r.token, k) ∉ s.calls.filterMap Call.adding) : Track (cmdCbToken s r) := by
  unfold cmdCbToken
  dsimp only
  split
  · next hp =>
    have hmem : r.token ∈ s.pendingVbufList := (vbufIsPending_fst ..).mp hp
    split
    · exact { h with }
    · next vbuf hv =>
      have hv : s.heap r.token = some vbuf := hv
      have hnum : (vbuf.id, vbuf.serial) = numbered r.serial := by simpa [State.numberAt, hv] using hr hmem
      have hquiet : Track (touch (touch s (vbufIsPending s.heap r.token s.pendingVbufList).2) [r.token]) := { h with }
      have hlog : ∀ d, Track { s with derefs := d, attributed := (vbuf, r.serial) :: s.attributed } := fun d => { h with
        attributed := fun p hp => by
          rcases List.mem_cons.mp hp with rfl | hp
          · exact hnum
          · exact h.attributed p hp }
      split
      · split <;> [exact (hlog _).reclaim hv; exact hquiet.reclaim hv]
      · split <;> [exact (hlog _).free hi.nodup hno; exact hquiet.free hi.nodup hno]
  · exact { h with }

/-- `virtio_video_queue_cmd_buffer` lists a vbuf no request names. -/
theorem list (h : Track s) (hi : Inv s) {a sync} (hc : .number a sync ∈ s.calls) (hstale : ∀ r ∈ s.ring, r.token ≠ a)
    (v : Vbuf) : Track { s with
      heap := Function.update s.heap a (some { v with id := UInt32.ofNat s.vbufsSent, serial := s.vbufsSent })
      vbufsSent := s.vbufsSent + 1
      pendingVbufList := s.pendingVbufList ++ [a]
      calls := .add a s.vbufsSent sync :: s.calls.erase (.number a sync) } := by
  have hn : a ∉ s.pendingVbufList := (hi.priv_mem hc rfl).2
  have hsub := List.erase_sublist (a := Call.number a sync) (l := s.calls)
  have hkeep : ∀ b, b ≠ a → (Function.update s.heap a
      (some { v with id := UInt32.ofNat s.vbufsSent, serial := s.vbufsSent }) b).map (fun v => (v.id, v.serial)) =
      s.numberAt b := fun b hb => by simp [State.numberAt, hb]
  exact {
    ring := fun r hr hp => by
      have hp : r.token ∈ s.pendingVbufList := by simpa [hstale r hr] using hp
      exact (hkeep _ (hstale r hr)).trans (h.ring r hr hp)
    adding := fun p hp => by
      rcases List.mem_cons.mp hp with rfl | hp
      · exact ⟨by simp, by simp [State.numberAt, numbered], hstale⟩
      · obtain ⟨hl, hnum, hring⟩ := h.adding p ((hsub.filterMap _).subset hp)
        exact ⟨List.mem_append_left _ hl, (hkeep _ fun he => hn (he ▸ hl)).trans hnum, hring⟩
    active := by
      refine List.nodup_cons.mpr ⟨fun hm => hn ?_, h.active.sublist (hsub.filterMap _)⟩
      exact h.active_listed hi a ((hsub.filterMap _).subset hm)
    attributed := h.attributed }

/-- The ring takes the request of a call. -/
theorem add (h : Track s) {a k sync} (hc : .add a k sync ∈ s.calls) (calls : List Call)
    (hadd : ∀ p ∈ calls.filterMap Call.adding, p ∈ (s.calls.erase (.add a k sync)).filterMap Call.adding)
    (hact : (calls.filterMap Call.active).Nodup) :
    Track { s with avail := s.avail ++ [Req.mk a k], calls := calls } := by
  obtain ⟨hl, hnum, -⟩ := h.adding (a, k) (List.mem_filterMap.mpr ⟨_, hc, rfl⟩)
  have hring : ∀ r ∈ s.avail ++ [Req.mk a k] ++ s.used, r = ⟨a, k⟩ ∨ r ∈ s.ring := fun r hr => by
    rcases List.mem_append.mp hr with hr | hr
    · rcases List.mem_append.mp hr with hr | hr
      · exact .inr (List.mem_append_left _ hr)
      · exact .inl (List.mem_singleton.mp hr)
    · exact .inr (List.mem_append_right _ hr)
  exact {
    ring := fun r hr hp => by
      rcases hring r hr with rfl | hr
      · exact hnum
      · exact h.ring r hr hp
    adding := fun p hp => by
      obtain ⟨b, m⟩ := p
      have hp := hadd _ hp
      have hne : a ≠ b := fun he => by
        subst he
        exact not_mem_filterMap_erase h.active hc rfl (adding_active hp)
      obtain ⟨hl, hnum, hno⟩ := h.adding _ ((List.erase_sublist.filterMap _).subset hp)
      refine ⟨hl, hnum, fun r hr => ?_⟩
      rcases hring r hr with rfl | hr
      · exact hne
      · exact hno r hr
    active := hact
    attributed := h.attributed }

end Track

/-- No step that lists a vbuf at a free address breaks the invariant. -/
theorem Track.step {s s' : State} {a : Act} (h : Track s) (hi : Inv s) (hs : Step s a s')
    (hc : NoStale s a) : Track s' := by
  have hsub : ∀ c, ∀ p ∈ (s.calls.erase c).filterMap Call.adding,
      p ∈ s.calls.filterMap Call.adding ∧ p.1 ∈ s.pendingVbufList :=
    fun c p hp => by
      have hp := (List.erase_sublist.filterMap Call.adding).subset hp
      exact ⟨hp, (h.adding p hp).1⟩
  have hact : ∀ c, ((s.calls.erase c).filterMap Call.active).Nodup := fun c =>
    h.active.sublist (List.erase_sublist.filterMap _)
  cases hs with
  | getVbuf hfree ht =>
    rename_i vbuf respCb sync
    have hne : ∀ b ∈ s.pendingVbufList, b ≠ vbuf := fun b hb he => by
      obtain ⟨v, hv⟩ := hi.alive hb
      rw [he, hfree] at hv
      cases hv
    exact h.shrink (fun b hb => ⟨hb, by simp [State.numberAt, hne b hb]⟩) (fun _ hr => hr)
      (fun p hp => ⟨hp, (h.adding p hp).1⟩) h.active rfl
  | test hm hr | notReady hm hr =>
    rename_i vbuf sync
    have hne : ∀ b ∈ s.pendingVbufList, b ≠ vbuf := fun b hb he => (hi.priv_mem hm rfl).2 (he ▸ hb)
    exact h.shrink (fun b hb => ⟨hb, by simp [State.numberAt, hne b hb]⟩) (fun _ hr => hr) (hsub _) (hact _) rfl
  | number hm =>
    obtain ⟨v, hv⟩ := Option.ne_none_iff_exists'.mp (hi.priv_mem hm rfl).1
    rw [hv]
    exact h.list hi hm hc v
  | lock hm _ => exact { h.move hm (.number _ _) rfl rfl with }
  | retry hm _ => exact { h.move hm (.add _ _ _) rfl rfl with }
  | noSpace hm => exact { h.move hm (.full _ _ _) rfl rfl with }
  | relock hm _ => exact { h.move hm (.reap _ _) rfl rfl with }
  | waitDone hm => exact { h.move hm (.relock _ _) rfl rfl with }
  | reap hm hl =>
    rename_i vbuf ret
    have hd : Track { s with
      qlock := false, calls := s.calls.erase (.reap vbuf ret), returned := (vbuf, ret) :: s.returned } :=
      { h.drop _ with }
    exact hd.free hi.nodup fun k hk => not_mem_filterMap_erase h.active hm rfl (adding_active hk)
  | reapGone | addErr => exact { h.drop _ with }
  | addSync hm =>
    exact { h.add hm (.wait _ :: s.calls.erase _) (fun p hp => hp)
      ((filterMap_move hm rfl).nodup_iff.mpr h.active) with }
  | addAsync hm => exact { h.add hm (s.calls.erase _) (fun p hp => hp) (hact _) with }
  | cbLock | cbMove | deinit | freeVbufs | detachDone => exact { h with }
  | cbToken hcb hu =>
    rename_i again r rest
    have hr : r ∈ s.ring := by simp [State.ring, hu]
    have hring : ∀ r' ∈ s.avail ++ rest, r' ∈ s.ring := fun r' hr' => by
      rw [State.ring, hu]
      exact (List.Sublist.append_left (List.sublist_cons_self r rest) s.avail).subset hr'
    have hd : Track { s with used := rest } :=
      h.shrink (fun _ ha => ⟨ha, rfl⟩) hring (fun p hp => ⟨hp, (h.adding p hp).1⟩) h.active rfl
    have hdi : Inv { s with used := rest } := { hi with }
    exact hd.token hdi (h.ring r hr) fun k hk => (h.adding _ hk).2.2 r hr rfl
  | complete he =>
    rename_i i r
    obtain ⟨hlt, rfl⟩ := List.getElem?_eq_some_iff.mp he
    refine h.shrink (fun _ ha => ⟨ha, rfl⟩) (fun r' hr' => ?_) (fun p hp => ⟨hp, (h.adding p hp).1⟩) h.active rfl
    have hmove := (List.getElem_cons_eraseIdx_perm hlt).append_right s.used
    refine hmove.subset (List.Perm.subset ?_ hr')
    refine List.perm_iff_count.mpr fun k => ?_
    simp only [State.ring, List.count_append, List.count_cons, List.count_nil]
    omega
  | detach ht ha hu =>
    rename_i r avail used
    have hnil : s.calls = [] := hi.teardown (by rw [ht]; exact fun he => by cases he)
    have hd : Track (touch { s with avail, used } (vbufIsPending s.heap r.token s.pendingVbufList).2) :=
      h.shrink (fun _ hm => ⟨hm, rfl⟩) (fun r' hr' => by
        rcases List.mem_append.mp hr' with hr' | hr'
        · exact List.mem_append_left _ (ha hr')
        · exact List.mem_append_right _ (hu hr')) (fun p hp => ⟨hp, (h.adding p hp).1⟩) h.active rfl
    dsimp only
    split
    · exact hd.free hi.nodup (by simp [VirtioVideo.touch, hnil])
    · exact hd

theorem track_inductive : machine.Inductive NoStale fun s => Inv s ∧ Track s :=
  (inv_inductive.mono fun _ _ _ => trivial).and (fun _ hs => hs ▸ Track.probe_track)
    fun _ _ _ hi _ h hc hs => h.step hi (step_cases hs) hc

/-- **Attribution of completions.** In every run in which no vbuf is listed
at an address that an outstanding request still names: whenever the callback
runs the `resp_cb` of a vbuf or completes its `reclaimed`, the device has
completed the submission that vbuf stands for, the one numbered `vbuf->id`. -/
theorem vbufAttribution {s : State} (h : machine.Reach NoStale s) :
    ∀ p ∈ s.attributed, p.1.serial = p.2 ∧ p.1.id = UInt32.ofNat p.2 := by
  intro p hp
  have := (track_inductive.reach h).2.attributed p hp
  simp only [numbered, Prod.mk.injEq] at this
  exact this.symm

theorem vbufAttribution_completed : ∃ s : State, s.attributed.map (·.2) = [0] ∧
    ∀ p ∈ s.attributed, p.1.serial = p.2 ∧ p.1.id = UInt32.ofNat p.2 := by
  obtain ⟨s, hs, ha⟩ := Machine.exists_reach NoStale probe_init (submitSync 0 0 ++ completeFirst)
    (fun s => s.attributed.map (·.2) = [0]) (by decide +kernel)
  exact ⟨s, ha, vbufAttribution hs⟩

/-- The first command times out; the second gets its address; the device
completes the first. -/
theorem lateCompletion_misattributed : ∃ s, machine.Reachable s ∧ ∃ p ∈ s.attributed, p.1.serial ≠ p.2 := by
  obtain ⟨s, hs, hp⟩ := Machine.exists_reach (fun _ _ => True) probe_init
    (submitSync 0 0 ++ giveUp 0 ++ submitSync 0 1 ++ completeFirst)
    (fun s => ∃ p ∈ s.attributed, p.1.serial ≠ p.2) (by decide +kernel)
  exact ⟨s, hs, hp⟩

end Agl.VirtioVideo
