/-
What one step of the command queue can do (`Step`), and the lifecycle of
the vbufs: each submission's vbuf is on `pending_vbuf_list` or freed, once
(`vbufLifecycle`). The private vbufs of the calls in progress, the vbufs a
synchronous call waits for and the rest of the list keep apart (`Inv`).
-/
import Agl.Video.Vbuf

namespace Agl.VirtioVideo

/-! ## What a step can do -/

/-- One step, by the branch taken. -/
inductive Step (s : State) : Act → State → Prop
  | getVbuf {vbuf respCb sync} : s.heap vbuf = none → s.teardown = .no → Step s (.getVbuf vbuf respCb sync) { s with
      heap := Function.update s.heap vbuf (some { id := 0, respCb, isSync := false, reclaimed := false, serial := 0 })
      calls := .test vbuf sync :: s.calls }
  | test {vbuf sync} : .test vbuf sync ∈ s.calls → s.ready = true → Step s (.call (.test vbuf sync)) { s with
      heap := Function.update s.heap vbuf ((s.heap vbuf).map fun v => { v with isSync := sync })
      calls := .lock vbuf sync :: s.calls.erase (.test vbuf sync) }
  | notReady {vbuf sync} : .test vbuf sync ∈ s.calls → s.ready = false → Step s (.call (.test vbuf sync)) { s with
      heap := Function.update s.heap vbuf ((s.heap vbuf).map fun v => { v with isSync := sync })
      calls := s.calls.erase (.test vbuf sync)
      returned := (vbuf, .enodev) :: s.returned }
  | lock {vbuf sync} : .lock vbuf sync ∈ s.calls → s.qlock = false →
      Step s (.call (.lock vbuf sync)) { s with
        qlock := true, calls := .number vbuf sync :: s.calls.erase (.lock vbuf sync) }
  | number {vbuf sync} : .number vbuf sync ∈ s.calls → Step s (.call (.number vbuf sync)) { s with
      heap := Function.update s.heap vbuf
        ((s.heap vbuf).map fun v => { v with id := UInt32.ofNat s.vbufsSent, serial := s.vbufsSent })
      vbufsSent := s.vbufsSent + 1
      pendingVbufList := s.pendingVbufList ++ [vbuf]
      calls := .add vbuf s.vbufsSent sync :: s.calls.erase (.number vbuf sync) }
  | retry {vbuf serial sync} : .full vbuf serial sync ∈ s.calls → s.qlock = false →
      Step s (.call (.full vbuf serial sync)) { s with
      qlock := true, calls := .add vbuf serial sync :: s.calls.erase (.full vbuf serial sync) }
  | relock {vbuf ret} : .relock vbuf ret ∈ s.calls → s.qlock = false → Step s (.call (.relock vbuf ret)) { s with
      qlock := true, calls := .reap vbuf ret :: s.calls.erase (.relock vbuf ret) }
  | reap {vbuf ret} : .reap vbuf ret ∈ s.calls → vbuf ∈ s.pendingVbufList → Step s (.call (.reap vbuf ret))
      (freeVbuf { s with
        qlock := false, calls := s.calls.erase (.reap vbuf ret), returned := (vbuf, ret) :: s.returned } vbuf)
  | reapGone {vbuf ret} : .reap vbuf ret ∈ s.calls → vbuf ∉ s.pendingVbufList → Step s (.call (.reap vbuf ret)) { s with
      qlock := false, calls := s.calls.erase (.reap vbuf ret), returned := (vbuf, ret) :: s.returned }
  | noSpace {vbuf serial sync} : .add vbuf serial sync ∈ s.calls → Step s (.addSgs vbuf serial sync .enospc) { s with
      qlock := false, calls := .full vbuf serial sync :: s.calls.erase (.add vbuf serial sync) }
  | addErr {vbuf serial sync} : .add vbuf serial sync ∈ s.calls → Step s (.addSgs vbuf serial sync .err) { s with
      qlock := false, calls := s.calls.erase (.add vbuf serial sync), returned := (vbuf, .addErr) :: s.returned }
  | addSync {vbuf serial} : .add vbuf serial true ∈ s.calls → Step s (.addSgs vbuf serial true .ok) { s with
      qlock := false, avail := s.avail ++ [Req.mk vbuf serial]
      calls := .wait vbuf :: s.calls.erase (.add vbuf serial true) }
  | addAsync {vbuf serial} : .add vbuf serial false ∈ s.calls → Step s (.addSgs vbuf serial false .ok) { s with
      qlock := false, avail := s.avail ++ [Req.mk vbuf serial]
      calls := s.calls.erase (.add vbuf serial false), returned := (vbuf, .ok) :: s.returned }
  | waitDone {vbuf timedOut ret} : .wait vbuf ∈ s.calls →
      Step s (.waitDone vbuf timedOut) { s with calls := .relock vbuf ret :: s.calls.erase (.wait vbuf) }
  | cbLock {again} : s.cb = .idle → s.qlock = false → Step s (.cmdCb again) { s with qlock := true, cb := .loop }
  | cbMove {again q cb} : Step s (.cmdCb again) { s with qlock := q, cb := cb }
  | cbToken {again r rest} : s.cb = .pop → s.used = r :: rest →
      Step s (.cmdCb again) (cmdCbToken { s with used := rest } r)
  | complete {i r} : s.avail[i]? = some r →
      Step s (.complete i) { s with avail := s.avail.eraseIdx i, used := s.used ++ [r] }
  | deinit : Step s .deinit { s with ready := false }
  | freeVbufs : s.calls = [] → Step s .freeVbufs { s with teardown := .freeing }
  | detachDone : s.teardown = .freeing → Step s (.detach none) { s with teardown := .done }
  | detach {r avail used} : s.teardown = .freeing → avail ⊆ s.avail → used ⊆ s.used → Step s (.detach (some r))
      (let s₁ := touch { s with avail, used } (vbufIsPending s.heap r.token s.pendingVbufList).2
       if r.token ∈ s.pendingVbufList then freeVbuf s₁ r.token else s₁)

/-- The id is compared through one and the same pointer: `vbuf_is_pending`
says whether the address is on the list. -/
theorem vbufIsPending_fst (heap : Addr → Option Vbuf) (vbuf : Addr) (l : List Addr) :
    (vbufIsPending heap vbuf l).1 = true ↔ vbuf ∈ l := by
  induction l with
  | nil => simp [vbufIsPending]
  | cons entry rest ih =>
    unfold vbufIsPending
    by_cases he : entry = vbuf
    · subst he
      simp
    · simp [he, ih, Ne.symm he]

/-- It dereferences the token only if the token is on the list. -/
theorem vbufIsPending_snd (heap : Addr → Option Vbuf) (vbuf : Addr) (l : List Addr) :
    ∀ a ∈ (vbufIsPending heap vbuf l).2, a ∈ l := by
  induction l with
  | nil => simp [vbufIsPending]
  | cons entry rest ih =>
    unfold vbufIsPending
    by_cases he : entry = vbuf
    · subst he
      simp
    · intro a ha
      exact List.mem_cons_of_mem _ (ih a (by simpa [he] using ha))

theorem callStep_cases {s s' : State} {c} (h : callStep s c = some s') : Step s (.call c) s' := by
  unfold callStep at h
  split at h
  · next hc =>
    dsimp only at h
    split at h
    · split at h <;> cases h <;> [exact .test hc ‹_›; exact .notReady hc (by simpa using ‹¬ s.ready = true›)]
    · split at h <;> cases h
      exact .lock hc (by simpa using ‹¬ s.qlock = true›)
    · cases h
      exact .number hc
    · split at h <;> cases h
      exact .retry hc (by simpa using ‹¬ s.qlock = true›)
    · split at h <;> cases h
      exact .relock hc (by simpa using ‹¬ s.qlock = true›)
    · split at h <;> cases h
      · next hp => exact .reap hc ((vbufIsPending_fst ..).mp hp)
      · next hp => exact .reapGone hc (fun hm => hp ((vbufIsPending_fst ..).mpr hm))
    · cases h
    · cases h
  · cases h

theorem addSgs_cases {s s' : State} {vbuf serial sync ret} (h : addSgs s vbuf serial sync ret = some s') :
    Step s (.addSgs vbuf serial sync ret) s' := by
  unfold addSgs at h
  split at h
  · next hc =>
    dsimp only at h
    split at h
    · cases h
      exact .noSpace hc
    · cases h
      exact .addErr hc
    · cases sync <;> cases h <;> [exact .addAsync hc; exact .addSync hc]
  · cases h

theorem cmdCbStep_cases {s s' : State} {again} (h : cmdCbStep s again = some s') : Step s (.cmdCb again) s' := by
  unfold cmdCbStep at h
  split at h
  · next hcb =>
    split at h <;> cases h
    exact .cbLock hcb (by simpa using ‹¬ s.qlock = true›)
  · split at h <;> cases h <;> exact .cbMove
  · next hcb =>
    split at h
    · split at h <;> cases h <;> exact .cbMove
    · next hu =>
      cases h
      exact .cbToken hcb hu

theorem detach_cases {s s' : State} {r} (h : detach s r = some s') : Step s (.detach r) s' := by
  unfold VirtioVideo.detach at h
  split at h
  · next ht =>
    split at h
    · split at h <;> cases h
      exact .detachDone ht
    · next r =>
      split at h
      · dsimp only at h
        cases h
        simp only [vbufIsPending_fst]
        split
        · exact .detach ht (List.erase_subset ..) (List.Subset.refl _)
        · exact .detach ht (List.Subset.refl _) (List.erase_subset ..)
      · cases h
  · cases h

/-- Every step is one of the branches. -/
theorem step_cases {s s' : State} {a} (h : machine.step s a = some s') : Step s a s' := by
  cases a with
  | getVbuf vbuf respCb sync =>
    simp only [machine, step, VirtioVideo.getVbuf] at h
    split at h <;> cases h
    next hg => exact .getVbuf hg.1 hg.2
  | call c => exact callStep_cases h
  | addSgs vbuf serial sync ret => exact addSgs_cases h
  | waitDone vbuf timedOut =>
    simp only [machine, step, VirtioVideo.waitDone] at h
    split at h
    · next hc =>
      split at h
      · cases h
        exact .waitDone hc
      · split at h <;> cases h
        exact .waitDone hc
    · cases h
  | cmdCb again => exact cmdCbStep_cases h
  | complete i =>
    simp only [machine, step, VirtioVideo.complete] at h
    split at h <;> cases h
    exact .complete ‹_›
  | deinit =>
    cases h
    exact .deinit
  | freeVbufs =>
    simp only [machine, step, VirtioVideo.freeVbufs] at h
    split at h <;> cases h
    next hg => exact .freeVbufs hg.2.2.1
  | detach r => exact detach_cases h

/-! ## The invariant -/

/-- The vbuf no one else knows yet. -/
def Call.priv : Call → Option Addr
  | .test vbuf _ | .lock vbuf _ | .number vbuf _ => some vbuf
  | _ => none

/-- The listed vbuf that only this synchronous call frees. -/
def Call.owned : Call → Option Addr
  | .add vbuf _ true | .full vbuf _ true | .wait vbuf | .relock vbuf _ | .reap vbuf _ => some vbuf
  | _ => none

/-- The vbuf `is_sync` has been set for. -/
def Call.marked : Call → Option Addr
  | .lock vbuf true | .number vbuf true => some vbuf
  | _ => none

/-- The submission the vbuf at this address stands for. -/
def State.serialAt (s : State) (a : Addr) : Option Nat := (s.heap a).map (·.serial)

/-- The vbuf at this address is alive and its `is_sync` is set. -/
def State.syncAt (s : State) (a : Addr) : Prop := ∃ v, s.heap a = some v ∧ v.isSync = true

structure Inv (s : State) : Prop where
  nodup : s.pendingVbufList.Nodup
  /-- each submission's vbuf is listed or freed, once -/
  perm : (s.pendingVbufList.map s.serialAt ++ s.freed).Perm ((List.range s.vbufsSent).map some)
  priv : ∀ a ∈ s.calls.filterMap Call.priv, s.heap a ≠ none ∧ a ∉ s.pendingVbufList
  privNodup : (s.calls.filterMap Call.priv).Nodup
  owned : ∀ a ∈ s.calls.filterMap Call.owned, a ∈ s.pendingVbufList ∧ s.syncAt a
  ownedNodup : (s.calls.filterMap Call.owned).Nodup
  marked : ∀ a ∈ s.calls.filterMap Call.marked, s.syncAt a
  teardown : s.teardown ≠ .no → s.calls = []
  derefs : ∀ p ∈ s.derefs, p.2 = true

/-! ### The vbufs of the calls -/

section

variable {β : Type} {f : Call → Option β} {l : List Call} {c : Call} {a : β}

theorem forall_filterMap_cons {P : β → Prop} (hc : ∀ a, f c = some a → P a) (hl : ∀ a ∈ l.filterMap f, P a) :
    ∀ a ∈ (c :: l).filterMap f, P a := by
  intro a ha
  obtain ⟨d, hd, hda⟩ := List.mem_filterMap.mp ha
  rcases List.mem_cons.mp hd with rfl | hd
  · exact hc a hda
  · exact hl a (List.mem_filterMap.mpr ⟨d, hd, hda⟩)

theorem nodup_filterMap_cons (hc : ∀ a, f c = some a → a ∉ l.filterMap f) (hl : (l.filterMap f).Nodup) :
    ((c :: l).filterMap f).Nodup := by
  rw [List.filterMap_cons]
  cases h : f c with
  | none => exact hl
  | some a => exact List.nodup_cons.mpr ⟨hc a h, hl⟩

/-- No other call has what this one has. -/
theorem not_mem_filterMap_erase (hl : (l.filterMap f).Nodup) (hc : c ∈ l) (ha : f c = some a) :
    a ∉ (l.erase c).filterMap f := by
  have hnodup := ((List.perm_cons_erase hc).filterMap f).nodup_iff.mp hl
  rw [List.filterMap_cons_some ha] at hnodup
  exact (List.nodup_cons.mp hnodup).1

end

theorem probe_inv : Inv probe where
  nodup := by simp [probe]
  perm := by simp [probe]
  priv := by simp [probe]
  privNodup := by simp [probe]
  owned := by simp [probe]
  ownedNodup := by simp [probe]
  marked := by simp [probe]
  teardown := by simp [probe]
  derefs := by simp [probe]

namespace Inv

variable {s : State}

/-- A listed vbuf is alive. -/
theorem alive (h : Inv s) {a} (ha : a ∈ s.pendingVbufList) : ∃ v, s.heap a = some v := by
  have hm : s.serialAt a ∈ (List.range s.vbufsSent).map some :=
    h.perm.subset (List.mem_append_left _ (List.mem_map_of_mem ha))
  obtain ⟨k, -, hk⟩ := List.mem_map.mp hm
  obtain ⟨v, hv, -⟩ := Option.map_eq_some_iff.mp hk.symm
  exact ⟨v, hv⟩

theorem no_calls (h : Inv s) {c} (hc : c ∈ s.calls) : s.teardown = .no := by
  cases ht : s.teardown with
  | no => rfl
  | freeing | done =>
    have := h.teardown (by rw [ht]; exact fun he => by cases he)
    rw [this] at hc
    cases hc

/-- What is true of the calls stays true of fewer calls. -/
theorem drop (h : Inv s) (c : Call) : Inv { s with calls := s.calls.erase c } :=
  have hsub := List.erase_sublist (a := c) (l := s.calls)
  { h with
    priv := fun a ha => h.priv a ((hsub.filterMap _).subset ha)
    privNodup := h.privNodup.sublist (hsub.filterMap _)
    owned := fun a ha => h.owned a ((hsub.filterMap _).subset ha)
    ownedNodup := h.ownedNodup.sublist (hsub.filterMap _)
    marked := fun a ha => h.marked a ((hsub.filterMap _).subset ha)
    teardown := fun ht => by
      have : s.calls = [] := h.teardown ht
      simp [this] }

theorem priv_mem (h : Inv s) {c a} (hc : c ∈ s.calls) (ha : c.priv = some a) :
    s.heap a ≠ none ∧ a ∉ s.pendingVbufList :=
  h.priv a (List.mem_filterMap.mpr ⟨c, hc, ha⟩)

theorem owned_mem (h : Inv s) {c a} (hc : c ∈ s.calls) (ha : c.owned = some a) :
    a ∈ s.pendingVbufList ∧ s.syncAt a :=
  h.owned a (List.mem_filterMap.mpr ⟨c, hc, ha⟩)

/-- A new call brings a vbuf of its own, or none. -/
theorem push (h : Inv s) {c : Call} (ht : s.teardown = .no)
    (hp : ∀ a, c.priv = some a → (s.heap a ≠ none ∧ a ∉ s.pendingVbufList) ∧ a ∉ s.calls.filterMap Call.priv)
    (ho : ∀ a, c.owned = some a → (a ∈ s.pendingVbufList ∧ s.syncAt a) ∧ a ∉ s.calls.filterMap Call.owned)
    (hm : ∀ a, c.marked = some a → s.syncAt a) : Inv { s with calls := c :: s.calls } where
  nodup := h.nodup
  perm := h.perm
  priv := forall_filterMap_cons (fun a ha => (hp a ha).1) h.priv
  privNodup := nodup_filterMap_cons (fun a ha => (hp a ha).2) h.privNodup
  owned := forall_filterMap_cons (fun a ha => (ho a ha).1) h.owned
  ownedNodup := nodup_filterMap_cons (fun a ha => (ho a ha).2) h.ownedNodup
  marked := forall_filterMap_cons hm h.marked
  teardown hn := absurd ht hn
  derefs := h.derefs

/-- A call moves on with the vbuf it had. -/
theorem move (h : Inv s) {c : Call} (hc : c ∈ s.calls) (c' : Call) (hp : ∀ a, c'.priv = some a → c.priv = some a)
    (ho : ∀ a, c'.owned = some a → c.owned = some a) (hm : ∀ a, c'.marked = some a → c.marked = some a) :
    Inv { s with calls := c' :: s.calls.erase c } :=
  (h.drop c).push (h.no_calls hc)
    (fun a ha => ⟨h.priv_mem hc (hp a ha), not_mem_filterMap_erase h.privNodup hc (hp a ha)⟩)
    (fun a ha => ⟨h.owned_mem hc (ho a ha), not_mem_filterMap_erase h.ownedNodup hc (ho a ha)⟩)
    fun a ha => h.marked a (List.mem_filterMap.mpr ⟨c, hc, hm a ha⟩)

/-- The allocator gives an address that is not in use. -/
theorem alloc (h : Inv s) {a : Addr} (hfree : s.heap a = none) (v : Vbuf) :
    Inv { s with heap := Function.update s.heap a (some v) } := by
  have hpend : ∀ b ∈ s.pendingVbufList, b ≠ a := fun b hb he => by
    obtain ⟨w, hw⟩ := h.alive hb
    rw [he, hfree] at hw
    cases hw
  have hsyn : ∀ b, s.syncAt b → ({ s with heap := Function.update s.heap a (some v) } : State).syncAt b := by
    intro b hb
    obtain ⟨w, hw, hws⟩ := hb
    have hba : b ≠ a := fun he => by
      rw [he, hfree] at hw
      cases hw
    exact ⟨w, by simpa [hba] using hw, hws⟩
  exact { h with
    perm := by
      have : s.pendingVbufList.map ({ s with heap := Function.update s.heap a (some v) } : State).serialAt =
          s.pendingVbufList.map s.serialAt :=
        List.map_congr_left fun b hb => by simp [State.serialAt, hpend b hb]
      rw [this]
      exact h.perm
    priv := fun b hb => by
      refine ⟨?_, (h.priv b hb).2⟩
      by_cases hba : b = a
      · simp [hba]
      · simpa [hba] using (h.priv b hb).1
    owned := fun b hb => ⟨(h.owned b hb).1, hsyn b (h.owned b hb).2⟩
    marked := fun b hb => hsyn b (h.marked b hb) }

/-- A vbuf is numbered and listed. -/
theorem list (h : Inv s) {a : Addr} {v : Vbuf} (hv : s.heap a = some v) (hn : a ∉ s.pendingVbufList)
    (hp : a ∉ s.calls.filterMap Call.priv) (id : UInt32) : Inv { s with
      heap := Function.update s.heap a (some { v with id, serial := s.vbufsSent })
      vbufsSent := s.vbufsSent + 1
      pendingVbufList := s.pendingVbufList ++ [a] } := by
  have hne : ∀ b ∈ s.pendingVbufList, b ≠ a := fun b hb he => hn (he ▸ hb)
  have hsyn : ∀ b, s.syncAt b → ∃ w, Function.update s.heap a (some { v with id, serial := s.vbufsSent }) b = some w ∧
      w.isSync = true := by
    intro b hb
    obtain ⟨w, hw, hws⟩ := hb
    by_cases hb : b = a
    · subst hb
      obtain rfl : v = w := by simpa [hv] using hw
      exact ⟨{ v with id, serial := s.vbufsSent }, Function.update_self .., hws⟩
    · exact ⟨w, by simpa [hb] using hw, hws⟩
  exact { h with
    nodup := h.nodup.append (List.nodup_singleton a) (by simpa using hn)
    perm := by
      have hold : s.pendingVbufList.map (fun b =>
          (Function.update s.heap a (some { v with id, serial := s.vbufsSent }) b).map (·.serial)) =
          s.pendingVbufList.map s.serialAt :=
        List.map_congr_left fun b hb => by simp [State.serialAt, hne b hb]
      have hperm := h.perm
      show ((s.pendingVbufList ++ [a]).map (fun b =>
          (Function.update s.heap a (some { v with id, serial := s.vbufsSent }) b).map (·.serial)) ++ s.freed).Perm _
      rw [List.map_append, hold, List.range_succ, List.map_append]
      simp only [List.map_cons, List.map_nil, Function.update_self, Option.map_some]
      refine .trans (List.perm_iff_count.mpr fun k => ?_) (hperm.append_right [some s.vbufsSent])
      simp only [List.count_append]
      omega
    priv := fun b hb => by
      have hba : b ≠ a := fun he => hp (he ▸ hb)
      obtain ⟨h1, h2⟩ := h.priv b hb
      exact ⟨by simpa [hba] using h1, by simp [h2, hba]⟩
    owned := fun b hb => ⟨List.mem_append_left _ (h.owned b hb).1, hsyn b (h.owned b hb).2⟩
    marked := fun b hb => hsyn b (h.marked b hb) }

/-- Writing a vbuf without changing its submission. -/
theorem write (h : Inv s) {a : Addr} {v v' : Vbuf} (hv : s.heap a = some v) (hserial : v'.serial = v.serial)
    (hsync : a ∈ s.calls.filterMap Call.owned ∨ a ∈ s.calls.filterMap Call.marked → v'.isSync = true) :
    Inv { s with heap := Function.update s.heap a (some v') } := by
  have hser : ({ s with heap := Function.update s.heap a (some v') } : State).serialAt = s.serialAt := by
    funext b
    by_cases hb : b = a
    · subst hb
      simp [State.serialAt, hv, hserial]
    · simp [State.serialAt, hb]
  have hsyn : ∀ b, b ∈ s.calls.filterMap Call.owned ∨ b ∈ s.calls.filterMap Call.marked → s.syncAt b →
      ({ s with heap := Function.update s.heap a (some v') } : State).syncAt b := by
    intro b hmem hb
    obtain ⟨w, hw, hws⟩ := hb
    by_cases hb : b = a
    · subst hb
      exact ⟨v', by simp, hsync hmem⟩
    · exact ⟨w, by simpa [hb] using hw, hws⟩
  exact { h with
    perm := by
      rw [hser]
      exact h.perm
    priv := fun b hb => by
      refine ⟨?_, (h.priv b hb).2⟩
      by_cases hba : b = a
      · simp [hba]
      · simpa [hba] using (h.priv b hb).1
    owned := fun b hb => ⟨(h.owned b hb).1, hsyn b (.inl hb) (h.owned b hb).2⟩
    marked := fun b hb => hsyn b (.inr hb) (h.marked b hb) }

theorem marked_priv {a} {l : List Call} (ha : a ∈ l.filterMap Call.marked) : a ∈ l.filterMap Call.priv := by
  obtain ⟨c, hc, hm⟩ := List.mem_filterMap.mp ha
  refine List.mem_filterMap.mpr ⟨c, hc, ?_⟩
  unfold Call.marked at hm
  split at hm <;> first | exact hm | cases hm

/-- `is_sync` is set before anybody else knows the vbuf. -/
theorem mark (h : Inv s) {a : Addr} {v : Vbuf} (hv : s.heap a = some v) (hp : a ∉ s.calls.filterMap Call.priv)
    (hn : a ∉ s.pendingVbufList) (sync : Bool) :
    Inv { s with heap := Function.update s.heap a (some { v with isSync := sync }) } :=
  h.write hv rfl fun hm => hm.elim (fun ho => absurd (h.owned a ho).1 hn) fun hm => absurd (marked_priv hm) hp

/-- Dereferencing listed tokens. -/
theorem touch (h : Inv s) (ptrs : List Addr) (hp : ∀ a ∈ ptrs, a ∈ s.pendingVbufList) : Inv (touch s ptrs) :=
  { h with
    derefs := by
      intro p hm
      rcases List.mem_append.mp hm with hm | hm
      · obtain ⟨a, ha, rfl⟩ := List.mem_map.mp hm
        obtain ⟨v, hv⟩ := h.alive (hp a ha)
        simp [hp a ha, hv]
      · exact h.derefs p hm }

/-- `free_vbuf` on a listed vbuf that no synchronous call waits for. -/
theorem free (h : Inv s) {a : Addr} (ha : a ∈ s.pendingVbufList) (hno : a ∉ s.calls.filterMap Call.owned) :
    Inv (freeVbuf s a) := by
  have hna : a ∉ s.pendingVbufList.erase a := fun hm => (h.nodup.mem_erase_iff.mp hm).1 rfl
  have hser : (s.pendingVbufList.erase a).map (freeVbuf s a).serialAt = (s.pendingVbufList.erase a).map s.serialAt := by
    refine List.map_congr_left fun b hb => ?_
    have hba : b ≠ a := fun he => hna (he ▸ hb)
    simp [State.serialAt, freeVbuf, hba]
  have hsyn : ∀ b, b ≠ a → s.syncAt b → (freeVbuf s a).syncAt b := by
    intro b hb hs
    obtain ⟨v, hv, hvs⟩ := hs
    exact ⟨v, by simpa [freeVbuf, hb] using hv, hvs⟩
  have hpa : ∀ b ∈ s.calls.filterMap Call.priv, b ≠ a := fun b hb he => (h.priv b hb).2 (he ▸ ha)
  exact { h with
    nodup := h.nodup.erase a
    perm := by
      have hmove : (s.pendingVbufList.map s.serialAt).Perm
          (s.serialAt a :: (s.pendingVbufList.erase a).map s.serialAt) :=
        (List.perm_cons_erase ha).map _
      show (((s.pendingVbufList.erase a).map (freeVbuf s a).serialAt) ++ (s.serialAt a :: s.freed)).Perm _
      rw [hser]
      exact .trans (List.perm_middle.trans (hmove.symm.append_right s.freed)) h.perm
    priv := fun b hb => by
      refine ⟨?_, fun hm => (h.priv b hb).2 (List.mem_of_mem_erase hm)⟩
      simpa [freeVbuf, hpa b hb] using (h.priv b hb).1
    owned := fun b hb => by
      have hba : b ≠ a := fun he => hno (he ▸ hb)
      exact ⟨(List.mem_erase_of_ne hba).mpr (h.owned b hb).1, hsyn b hba (h.owned b hb).2⟩
    marked := fun b hb => hsyn b (hpa b (marked_priv hb)) (h.marked b hb) }

/-- The callback with one token: it frees only what no synchronous call waits for. -/
theorem token (h : Inv s) (r : Req) : Inv (cmdCbToken s r) := by
  unfold cmdCbToken
  dsimp only
  have ht := h.touch (vbufIsPending s.heap r.token s.pendingVbufList).2 (vbufIsPending_snd _ _ _)
  split
  · next hp =>
    have hmem : r.token ∈ s.pendingVbufList := (vbufIsPending_fst ..).mp hp
    have ht := ht.touch [r.token] (by simpa [VirtioVideo.touch] using hmem)
    split
    · exact ht
    · next vbuf hv =>
      have hlog : ∀ l, Inv { VirtioVideo.touch (VirtioVideo.touch s (vbufIsPending s.heap r.token s.pendingVbufList).2)
          [r.token] with attributed := l } := fun l => { ht with }
      split
      · next hsync =>
        split <;> exact (hlog _).write hv rfl fun _ => hsync
      · next hsync =>
        have hno : r.token ∉ s.calls.filterMap Call.owned := fun ho => by
          obtain ⟨-, v, hv', hs⟩ := h.owned _ ho
          cases hv.symm.trans hv'
          exact hsync hs
        split <;> exact (hlog _).free hmem hno
  · exact ht

end Inv

/-- No step breaks the invariant. -/
theorem Inv.step {s s' : State} {a : Act} (h : Inv s) (hs : Step s a s') : Inv s' := by
  cases hs with
  | getVbuf hfree ht =>
    rename_i vbuf respCb sync
    have hnot : vbuf ∉ s.pendingVbufList := fun hm => by
      obtain ⟨v, hv⟩ := h.alive hm
      cases hfree.symm.trans hv
    have hpriv : vbuf ∉ s.calls.filterMap Call.priv := fun hm => (h.priv vbuf hm).1 hfree
    refine (h.alloc hfree _).push ht ?_ (fun _ he => by cases he) (fun _ he => by cases he)
    intro a ha
    cases ha
    exact ⟨⟨by simp, hnot⟩, hpriv⟩
  | test hc hr =>
    rename_i vbuf sync
    obtain ⟨v, hv⟩ := Option.ne_none_iff_exists'.mp (h.priv_mem hc rfl).1
    have hpriv := not_mem_filterMap_erase h.privNodup hc rfl
    have hw := (h.drop (.test vbuf sync)).mark hv hpriv (h.priv_mem hc rfl).2 sync
    rw [hv]
    refine hw.push (h.no_calls hc) ?_ ?_ ?_
    · intro a ha
      cases ha
      exact ⟨⟨by simp, (h.priv_mem hc rfl).2⟩, hpriv⟩
    · intro a ha
      cases ha
    · intro a ha
      cases sync <;> cases ha
      exact ⟨_, Function.update_self .., rfl⟩
  | notReady hc hr =>
    rename_i vbuf sync
    obtain ⟨v, hv⟩ := Option.ne_none_iff_exists'.mp (h.priv_mem hc rfl).1
    have hw := (h.drop (.test vbuf sync)).mark hv (not_mem_filterMap_erase h.privNodup hc rfl)
      (h.priv_mem hc rfl).2 sync
    rw [hv]
    exact { hw with }
  | number hc =>
    rename_i vbuf sync
    obtain ⟨v, hv⟩ := Option.ne_none_iff_exists'.mp (h.priv_mem hc rfl).1
    have hn := (h.priv_mem hc rfl).2
    have hl := (h.drop (.number vbuf sync)).list hv hn (not_mem_filterMap_erase h.privNodup hc rfl)
      (UInt32.ofNat s.vbufsSent)
    rw [hv]
    refine hl.push (h.no_calls hc) (fun a ha => by cases ha) ?_ (fun a ha => by cases ha)
    intro a ha
    cases sync <;> cases ha
    obtain ⟨w, hw, hws⟩ := h.marked vbuf (List.mem_filterMap.mpr ⟨_, hc, rfl⟩)
    cases hv.symm.trans hw
    exact ⟨⟨by simp, _, Function.update_self .., hws⟩,
      fun hm => hn ((h.drop (.number vbuf true)).owned vbuf hm).1⟩
  | lock hc hq =>
    rename_i vbuf sync
    exact { h.move hc (.number vbuf sync) (fun _ ha => ha) (fun _ ha => by cases sync <;> exact ha)
      (fun _ ha => by cases sync <;> exact ha) with }
  | retry hc hq =>
    rename_i vbuf serial sync
    exact { h.move hc (.add vbuf serial sync) (fun _ ha => ha) (fun _ ha => by cases sync <;> exact ha)
      (fun _ ha => by cases sync <;> exact ha) with }
  | noSpace hc =>
    rename_i vbuf serial sync
    exact { h.move hc (.full vbuf serial sync) (fun _ ha => ha) (fun _ ha => by cases sync <;> exact ha)
      (fun _ ha => by cases sync <;> exact ha) with }
  | relock hc _ =>
    exact { h.move hc (.reap _ _) (fun _ ha => ha) (fun _ ha => ha) (fun _ ha => ha) with }
  | addSync hc =>
    exact { h.move hc (.wait _) (fun _ ha => ha) (fun _ ha => ha) (fun _ ha => ha) with }
  | waitDone hc =>
    exact { h.move hc (.relock _ _) (fun _ ha => ha) (fun _ ha => ha) (fun _ ha => ha) with }
  | reap hc hm =>
    rename_i vbuf ret
    have hd : Inv { s with
      qlock := false, calls := s.calls.erase (.reap vbuf ret), returned := (vbuf, ret) :: s.returned } :=
      { h.drop _ with }
    exact hd.free hm (not_mem_filterMap_erase h.ownedNodup hc rfl)
  | reapGone | addErr | addAsync => exact { h.drop _ with }
  | cbLock | cbMove | complete | deinit => exact { h with }
  | cbToken hcb hu =>
    rename_i again r rest
    have hd : Inv { s with used := rest } := { h with }
    exact hd.token r
  | freeVbufs hc => exact { h with teardown := fun _ => hc }
  | detachDone ht => exact { h with teardown := fun _ => h.teardown (by rw [ht]; exact fun he => by cases he) }
  | detach ht ha hu =>
    rename_i r avail used
    have hnil : s.calls = [] := h.teardown (by rw [ht]; exact fun he => by cases he)
    have hd : Inv { s with avail, used } := { h with }
    have hd := hd.touch (vbufIsPending s.heap r.token s.pendingVbufList).2 (vbufIsPending_snd _ _ _)
    dsimp only
    split
    · next hm => exact hd.free hm (by simp [VirtioVideo.touch, hnil])
    · exact hd

/-! ## The lifecycle -/

theorem inv_inductive : machine.Inductive (fun _ _ => True) Inv where
  init s hs := by
    subst hs
    exact probe_inv
  step _ _ _ h _ hs := h.step (step_cases hs)

structure Lifecycle (s : State) : Prop where
  /-- `pending_vbuf_list` is duplicate-free, and so are its submissions. -/
  nodup : s.pendingVbufList.Nodup ∧ (s.pendingVbufList.map s.serialAt).Nodup
  alive : ∀ a ∈ s.pendingVbufList, s.heap a ≠ none
  /-- Listed: submitted and not yet freed. -/
  listed : ∀ k, (∃ a ∈ s.pendingVbufList, s.serialAt a = some k) ↔ k < s.vbufsSent ∧ some k ∉ s.freed
  /-- No vbuf is freed twice, or freed when it is not allocated. -/
  freed : s.freed.Nodup ∧ none ∉ s.freed
  /-- No token is dereferenced that is not on the list. -/
  derefs : ∀ p ∈ s.derefs, p.2 = true

theorem Inv.lifecycle {s : State} (h : Inv s) : Lifecycle s := by
  have hrange : ((List.range s.vbufsSent).map some).Nodup := List.nodup_range.map fun _ _ he => Option.some.inj he
  have hnd := h.perm.nodup_iff.mpr hrange
  obtain ⟨h1, h2, hdisj⟩ := List.nodup_append.mp hnd
  refine ⟨⟨h.nodup, h1⟩, fun a ha he => ?_, fun k => ⟨?_, ?_⟩, ⟨h2, fun hn => ?_⟩, h.derefs⟩
  · obtain ⟨v, hv⟩ := h.alive ha
    cases he.symm.trans hv
  · intro hlisted
    obtain ⟨a, ha, hk⟩ := hlisted
    have hmem : some k ∈ s.pendingVbufList.map s.serialAt := List.mem_map.mpr ⟨a, ha, hk⟩
    have hlt : some k ∈ (List.range s.vbufsSent).map some := h.perm.subset (List.mem_append_left _ hmem)
    exact ⟨by simpa using hlt, fun hf => hdisj _ hmem _ hf rfl⟩
  · intro hsent
    obtain ⟨hlt, hf⟩ := hsent
    have hmem : some k ∈ s.pendingVbufList.map s.serialAt ++ s.freed :=
      h.perm.symm.subset (List.mem_map_of_mem (List.mem_range.mpr hlt))
    exact List.mem_map.mp ((List.mem_append.mp hmem).resolve_right hf)
  · have : none ∈ (List.range s.vbufsSent).map some := h.perm.subset (List.mem_append_right _ hn)
    simp at this

/-- **Lifecycle of the vbufs.** In every reachable state the list is
duplicate-free and holds exactly the vbufs submitted and not yet freed, no
vbuf has been freed twice, and neither the callback nor the teardown has
dereferenced a token that was not on the list. -/
theorem vbufLifecycle {s : State} (h : machine.Reachable s) : Lifecycle s := (inv_inductive.reach h).lifecycle

/-- A synchronous submission at this address, up to its wait. -/
def submitSync (vbuf : Addr) (serial : Nat) : List Act :=
  [.getVbuf vbuf true true, .call (.test vbuf true), .call (.lock vbuf true), .call (.number vbuf true),
    .addSgs vbuf serial true .ok]

/-- The wait times out and the vbuf is freed. -/
def giveUp (vbuf : Addr) : List Act :=
  [.waitDone vbuf true, .call (.relock vbuf .etimedout), .call (.reap vbuf .etimedout)]

/-- The device completes the oldest request and the callback takes it. -/
def completeFirst : List Act := [.complete 0, .cmdCb false, .cmdCb false, .cmdCb false, .cmdCb false]

theorem probe_init : machine.init probe := rfl

theorem vbufLifecycle_reuse : ∃ s, s.pendingVbufList = [0] ∧ s.freed = [some 0] ∧ Lifecycle s := by
  obtain ⟨s, hs, hp, hf⟩ := Machine.exists_reach (fun _ _ => True) probe_init
    (submitSync 0 0 ++ giveUp 0 ++ submitSync 0 1 ++ completeFirst)
    (fun s => s.pendingVbufList = [0] ∧ s.freed = [some 0]) (by decide +kernel)
  exact ⟨s, hp, hf, vbufLifecycle hs⟩

end Agl.VirtioVideo
