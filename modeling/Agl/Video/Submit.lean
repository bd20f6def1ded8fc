/-
What a failed submission leaves behind.

The command functions allocate a vbuf, `virtio_video_cmd_resource_attach`
gives it the data buffer of its caller, and `virtio_video_queue_cmd_buffer`
or its `_sync` form lists it and offers it to the virtqueue. Neither of the
two errors on that way frees it: a submission is cleaned up after only if it
does not fail this way (`failedSubmit_clean`), and what `-ENODEV` leaves is
never freed (`notReady_leaks`).

Beside the command queue the model keeps which vbufs have a data buffer.
`virtio_video_buf_init` frees that buffer when the attach fails.
-/
import Agl.Video.VbufFacts

namespace Agl.VirtioVideo.Submit

/-- The command functions. -/
inductive Command
  | streamCreate | streamDestroy | streamDrain | resourceAttach | queueDetachResources | resourceQueue | queueClear
  | queryCapability | queryControlLevel | queryControlProfile | getParams | setParams | getControl | setControl
  deriving DecidableEq, Repr

/-- It passes a `resp_cb` to `virtio_video_alloc_req_resp`. -/
def Command.respCb : Command → Bool
  | .resourceQueue | .getParams | .getControl => true
  | _ => false

/-- It calls `virtio_video_queue_cmd_buffer_sync`. -/
def Command.sync : Command → Bool
  | .queueDetachResources | .queueClear | .queryCapability | .queryControlLevel | .queryControlProfile
  | .getParams | .getControl => true
  | _ => false

/-- It sets `data_buf`. -/
def Command.dataBuf : Command → Bool
  | .resourceAttach => true
  | _ => false

structure State where
  queue : VirtioVideo.State
  /-- `data_buf` of the vbuf at this address is set -/
  dataBuf : Addr → Bool

inductive Act
  /-- a command function gets this vbuf and fills it in -/
  | cmd (c : Command) (vbuf : Addr)
  | queue (a : VirtioVideo.Act)
  deriving DecidableEq, Repr

/-- The step is one of the command queue, and begins no submission. -/
def isGetVbuf : VirtioVideo.Act → Bool
  | .getVbuf _ _ _ => true
  | _ => false

def step (s : State) : Act → Option State
  | .cmd c vbuf => (getVbuf s.queue vbuf c.respCb c.sync).map fun q =>
    { queue := q, dataBuf := Function.update s.dataBuf vbuf c.dataBuf }
  | .queue a => if isGetVbuf a then none else (VirtioVideo.step s.queue a).map fun q => { s with queue := q }

/-- After `virtio_video_probe`. -/
def probe : State := { queue := VirtioVideo.probe, dataBuf := fun _ => false }

def machine : Machine State Act where
  init s := s = probe
  step := step

/-! ## Failures -/

/-- The number the submission that takes this step has been given, if any. -/
def Act.submission : Act → Option Nat
  | .queue (.addSgs _ serial _ _) => some serial
  | _ => none

/-- The vbuf at `a` is that of the submission with this vbuf and number. -/
def State.holds (s : State) (vbuf : Addr) (submission : Option Nat) (a : Addr) : Prop :=
  match submission with
  | none => a = vbuf
  | some k => s.queue.serialAt a = some k

instance (s : State) (vbuf : Addr) (submission : Option Nat) (a : Addr) : Decidable (s.holds vbuf submission a) := by
  unfold State.holds
  split <;> infer_instance

/-- The vbuf of the submission has been freed. -/
def State.gone (s : State) (vbuf : Addr) (submission : Option Nat) : Prop :=
  match submission with
  | none => s.queue.heap vbuf = none
  | some k => some k ∈ s.queue.freed

/-- A submission has left nothing behind. -/
structure LeavesNothing (s : State) (vbuf : Addr) (submission : Option Nat) : Prop where
  freed : s.gone vbuf submission
  /-- the list is without it, as before the call -/
  unlisted : ∀ a ∈ s.queue.pendingVbufList, ¬ s.holds vbuf submission a
  /-- no listed vbuf of it has a data buffer, which the caller frees -/
  data : ∀ a ∈ s.queue.pendingVbufList, s.holds vbuf submission a → s.dataBuf a = false

/-- When the step makes a submission return with an error and the virtqueue
has not taken its request, it leaves nothing behind. -/
def FailsClean (s : State) (a : Act) (s' : State) : Prop :=
  ∀ vbuf ret, s'.queue.returned = (vbuf, ret) :: s.queue.returned → ret = .enodev ∨ ret = .addErr →
    LeavesNothing s' vbuf a.submission

/-- The queue is ready at the test, and `virtqueue_add_sgs` returns no error
but `-ENOSPC`, unless a late completion at its address has freed the vbuf
of the call. -/
def Accepted (s : State) : Act → Prop
  | .queue (.call (.test _ _)) => s.queue.ready = true
  | .queue (.addSgs _ serial _ .err) => some serial ∈ s.queue.freed
  | _ => True

/-! ## The command queue below -/

theorem step_queue {s s' : State} {a : Act} (h : machine.step s a = some s') :
    ∃ b, VirtioVideo.machine.step s.queue b = some s'.queue ∧ ∀ c, a = .queue c → b = c := by
  simp only [machine, step] at h
  cases a with
  | cmd c vbuf =>
    obtain ⟨q, hq, rfl⟩ := Option.map_eq_some_iff.mp h
    exact ⟨.getVbuf vbuf c.respCb c.sync, hq, fun _ he => by cases he⟩
  | queue b =>
    dsimp only at h
    split at h
    · cases h
    · obtain ⟨q, hq, rfl⟩ := Option.map_eq_some_iff.mp h
      exact ⟨b, hq, fun c he => by cases he; rfl⟩

/-- The command queue runs as it does alone. -/
theorem queue_reachable {s : State} (h : machine.Reachable s) : VirtioVideo.machine.Reachable s.queue := by
  induction h with
  | init h =>
    subst h
    exact .init rfl
  | step _ _ hs ih =>
    obtain ⟨b, hb, -⟩ := step_queue hs
    exact .step ih trivial hb

/-! ## What a submission returns -/

/-- What a synchronous call is about to return after its wait. -/
def waitRet : Call → Option Ret
  | .relock _ ret | .reap _ ret => some ret
  | _ => none

/-- A wait ends with the completion or with the timeout. -/
def Waits (q : VirtioVideo.State) : Prop := ∀ ret ∈ q.calls.filterMap waitRet, ret = .ok ∨ ret = .etimedout

theorem Waits.erase {q : VirtioVideo.State} (h : Waits q) (c : Call) :
    ∀ ret ∈ (q.calls.erase c).filterMap waitRet, ret = .ok ∨ ret = .etimedout :=
  fun ret hr => h ret ((List.erase_sublist.filterMap waitRet).subset hr)

theorem Waits.mem {q : VirtioVideo.State} (h : Waits q) {c : Call} {ret : Ret} (hc : c ∈ q.calls)
    (hr : waitRet c = some ret) : ret = .ok ∨ ret = .etimedout :=
  h ret (List.mem_filterMap.mpr ⟨c, hc, hr⟩)

theorem cmdCbToken_calls (q : VirtioVideo.State) (r : Req) :
    (cmdCbToken q r).calls = q.calls ∧ (cmdCbToken q r).returned = q.returned := by
  unfold cmdCbToken
  dsimp only
  repeat' split
  all_goals exact ⟨rfl, rfl⟩

/-- The call knows which way its wait has ended. -/
theorem waitDone_cases {q q' : VirtioVideo.State} {vbuf : Addr} {timedOut : Bool}
    (h : VirtioVideo.waitDone q vbuf timedOut = some q') :
    ∃ ret, (ret = .ok ∨ ret = .etimedout) ∧
      q' = { q with calls := .relock vbuf ret :: q.calls.erase (.wait vbuf) } := by
  unfold VirtioVideo.waitDone at h
  split at h
  · split at h
    · cases h
      exact ⟨_, .inr rfl, rfl⟩
    · split at h <;> cases h
      exact ⟨_, .inl rfl, rfl⟩
  · cases h

theorem waits_step {q q' : VirtioVideo.State} {a : VirtioVideo.Act} (h : Waits q)
    (hs : VirtioVideo.machine.step q a = some q') : Waits q' := by
  cases step_cases hs with
  | getVbuf => exact forall_filterMap_cons (fun ret hr => by cases hr) h
  | test | lock | number | retry | noSpace | addSync =>
    exact forall_filterMap_cons (fun ret hr => by cases hr) (h.erase _)
  | relock hc => exact forall_filterMap_cons (fun ret hr => by cases hr; exact h.mem hc rfl) (h.erase _)
  | notReady | reap | reapGone | addErr | addAsync => exact h.erase _
  | cbLock | cbMove | complete | deinit | freeVbufs | detachDone => exact h
  | cbToken =>
    unfold Waits
    rw [(cmdCbToken_calls _ _).1]
    exact h
  | detach =>
    dsimp only
    split <;> exact h
  | waitDone =>
    obtain ⟨ret, hret, he⟩ := waitDone_cases hs
    rw [he]
    exact forall_filterMap_cons (fun ret' hr => by cases hr; exact hret) (h.erase _)

theorem waits_inductive : VirtioVideo.machine.Inductive (fun _ _ => True) Waits where
  init q hq := by
    subst hq
    simp [Waits, VirtioVideo.probe]
  step _ _ _ h _ hs := waits_step h hs

/-- No submission has returned. -/
theorem failsClean_of_eq {s s' : State} (a : Act) (h : s'.queue.returned = s.queue.returned) : FailsClean s a s' := by
  intro vbuf ret hr
  rw [h] at hr
  exact absurd hr.symm (List.cons_ne_self _ _)

/-- The one that has returned has not failed this way. -/
theorem failsClean_of_cons {s s' : State} (a : Act) {p : Addr × Ret} (h : s'.queue.returned = p :: s.queue.returned)
    (hp : p.2 = .ok ∨ p.2 = .etimedout) : FailsClean s a s' := by
  intro vbuf ret hr hret
  rw [h] at hr
  obtain ⟨rfl, -⟩ := List.cons.inj hr
  rcases hp with hp | hp <;> rcases hret with hret | hret <;> cases hp.symm.trans hret

/-! ## Failed submissions -/

/-- **Failed submissions.** For every command, in every reachable state and
for every step: a submission that returns with an error before the virtqueue
has its request leaves nothing behind if and only if there is none, the queue
being ready and the virtqueue taking the request, or the vbuf has been freed
before, by a late completion. -/
theorem failedSubmit_clean {s s' : State} {a : Act} (hs : machine.Reachable s) (hst : machine.step s a = some s') :
    FailsClean s a s' ↔ Accepted s a := by
  have hi := VirtioVideo.inv_inductive.reach (queue_reachable hs)
  have hw := waits_inductive.reach (queue_reachable hs)
  cases a with
  | cmd c vbuf =>
    obtain ⟨q, hq, rfl⟩ := Option.map_eq_some_iff.mp hst
    refine iff_of_true (failsClean_of_eq _ ?_) trivial
    simp only [VirtioVideo.getVbuf] at hq
    split at hq <;> cases hq
    rfl
  | queue b =>
    simp only [machine, step] at hst
    split at hst
    · cases hst
    obtain ⟨q, hq, rfl⟩ := Option.map_eq_some_iff.mp hst
    cases VirtioVideo.step_cases hq with
    | test hc hr => exact iff_of_true (failsClean_of_eq _ rfl) hr
    | @notReady vbuf sync hc hr =>
      refine iff_of_false (fun h => ?_) (by simp [Accepted, hr])
      have hfreed := (h vbuf .enodev rfl (.inl rfl)).freed
      simp [State.gone, Act.submission, (hi.priv_mem hc rfl).1] at hfreed
    | @addErr vbuf serial sync hc =>
      constructor
      · intro h
        exact (h vbuf .addErr rfl (.inr rfl)).freed
      · intro (hf : some serial ∈ s.queue.freed) vbuf' ret hr hret
        have hgone : ∀ a ∈ s.queue.pendingVbufList, s.queue.serialAt a ≠ some serial :=
          fun a ha he => ((hi.lifecycle.listed serial).mp ⟨a, ha, he⟩).2 hf
        exact ⟨hf, hgone, fun a ha he => absurd he (hgone a ha)⟩
    | addAsync => exact iff_of_true (failsClean_of_cons _ rfl (.inl rfl)) trivial
    | reap hc | reapGone hc => exact iff_of_true (failsClean_of_cons _ rfl (hw.mem hc rfl)) trivial
    | cbToken =>
      refine iff_of_true (failsClean_of_eq _ ?_) trivial
      rw [(cmdCbToken_calls _ _).2]
    | detach =>
      refine iff_of_true (failsClean_of_eq _ ?_) trivial
      dsimp only
      split <;> rfl
    | _ => exact iff_of_true (failsClean_of_eq _ rfl) trivial

/-- A command is sent. -/
def send (c : Command) (vbuf : Addr) (serial : Nat) : List Act :=
  [.cmd c vbuf, .queue (.call (.test vbuf c.sync)), .queue (.call (.lock vbuf c.sync)),
    .queue (.call (.number vbuf c.sync)), .queue (.addSgs vbuf serial c.sync .enospc),
    .queue (.call (.full vbuf serial c.sync))]

/-- An attach that finds the ring full once, and is accepted. -/
theorem failedSubmit_clean_attach : ∃ s s', machine.Reachable s ∧
    machine.step s (.queue (.addSgs 0 0 false .ok)) = some s' ∧ s'.queue.returned = [(0, .ok)] ∧
    FailsClean s (.queue (.addSgs 0 0 false .ok)) s' := by
  obtain ⟨s, hs, hp⟩ := Machine.exists_reach (M := machine) (fun _ _ => True) (s := probe) rfl
    (send .resourceAttach 0 0)
    (fun s => ∃ s' ∈ machine.step s (.queue (.addSgs 0 0 false .ok)), s'.queue.returned = [(0, .ok)])
    (by decide +kernel)
  obtain ⟨s', hst, hr⟩ := hp
  exact ⟨s, s', hs, hst, hr, (failedSubmit_clean hs hst).mpr trivial⟩

/-- An attach that the virtqueue refuses: its vbuf stays on the list with the
data buffer that `virtio_video_buf_init` frees. -/
theorem refusedAttach_listed : ∃ s s', machine.Reachable s ∧
    machine.step s (.queue (.addSgs 0 0 false .err)) = some s' ∧ s'.queue.pendingVbufList = [0] ∧ s'.dataBuf 0 = true ∧
    ¬ FailsClean s (.queue (.addSgs 0 0 false .err)) s' := by
  obtain ⟨s, hs, hp⟩ := Machine.exists_reach (M := machine) (fun _ _ => True) (s := probe) rfl
    (send .resourceAttach 0 0)
    (fun s => ∃ s' ∈ machine.step s (.queue (.addSgs 0 0 false .err)),
      s'.queue.returned = (0, .addErr) :: s.queue.returned ∧ s'.queue.pendingVbufList = [0] ∧ s'.dataBuf 0 = true ∧
      s'.queue.serialAt 0 = some 0) (by decide +kernel)
  obtain ⟨s', hst, hr, hl, hd, hserial⟩ := hp
  refine ⟨s, s', hs, hst, hl, hd, fun h => ?_⟩
  exact (h 0 .addErr hr (.inr rfl)).unlisted 0 (by simp [hl]) hserial

/-! ### What `-ENODEV` leaves -/

/-- Allocated, and known to nobody who would list or free it. -/
structure Leaked (q : VirtioVideo.State) (a : Addr) : Prop where
  alive : q.heap a ≠ none
  unlisted : a ∉ q.pendingVbufList
  priv : ∀ b ∈ q.calls.filterMap Call.priv, b ≠ a

theorem Leaked.priv_erase {q : VirtioVideo.State} {a : Addr} (h : Leaked q a) (c : Call) :
    ∀ b ∈ (q.calls.erase c).filterMap Call.priv, b ≠ a :=
  fun b hb => h.priv b ((List.erase_sublist.filterMap Call.priv).subset hb)

theorem Leaked.ne {q : VirtioVideo.State} {a vbuf : Addr} (h : Leaked q a) {c : Call} (hc : c ∈ q.calls)
    (hp : c.priv = some vbuf) : vbuf ≠ a :=
  h.priv vbuf (List.mem_filterMap.mpr ⟨c, hc, hp⟩)

/-- Freeing another vbuf. -/
theorem Leaked.free {q : VirtioVideo.State} {a vbuf : Addr} (h : Leaked q a) (hne : vbuf ≠ a) :
    Leaked (freeVbuf q vbuf) a where
  alive := by simpa [freeVbuf, Ne.symm hne] using h.alive
  unlisted hm := h.unlisted (List.mem_of_mem_erase hm)
  priv := h.priv

/-- The callback frees and marks listed vbufs only. -/
theorem Leaked.token {q : VirtioVideo.State} {a : Addr} (h : Leaked q a) (r : Req) : Leaked (cmdCbToken q r) a := by
  unfold cmdCbToken
  dsimp only
  split
  · next hp =>
    have hne : r.token ≠ a := fun he => h.unlisted (he ▸ (vbufIsPending_fst ..).mp hp)
    split
    · exact { h with }
    · next vbuf _ =>
      have hlog : ∀ l, Leaked { VirtioVideo.touch (VirtioVideo.touch q
          (vbufIsPending q.heap r.token q.pendingVbufList).2) [r.token] with attributed := l } a := fun l => { h with }
      have hheap : Function.update q.heap r.token (some { vbuf with reclaimed := true }) a ≠ none := by
        simpa [Ne.symm hne] using h.alive
      split
      · split <;> exact { h with alive := hheap }
      · split <;> exact (hlog _).free hne
  · exact { h with }

theorem Leaked.step {q q' : VirtioVideo.State} {a : Addr} {act : VirtioVideo.Act} (h : Leaked q a)
    (hs : VirtioVideo.Step q act q') : Leaked q' a := by
  have hupdate {vbuf : Addr} (hne : vbuf ≠ a) (v : Option Vbuf) : Function.update q.heap vbuf v a ≠ none := by
    simpa [Ne.symm hne] using h.alive
  cases hs with
  | getVbuf hfree =>
    have hne := fun he : _ = a => h.alive (he ▸ hfree)
    exact ⟨hupdate hne _, h.unlisted, forall_filterMap_cons (fun b hb => by cases hb; exact hne) h.priv⟩
  | test hc =>
    have hne := h.ne hc rfl
    exact ⟨hupdate hne _, h.unlisted, forall_filterMap_cons (fun b hb => by cases hb; exact hne) (h.priv_erase _)⟩
  | notReady hc => exact ⟨hupdate (h.ne hc rfl) _, h.unlisted, h.priv_erase _⟩
  | lock hc =>
    have hne := h.ne hc rfl
    exact ⟨h.alive, h.unlisted, forall_filterMap_cons (fun b hb => by cases hb; exact hne) (h.priv_erase _)⟩
  | number hc =>
    have hne := h.ne hc rfl
    refine ⟨hupdate hne _, ?_, forall_filterMap_cons (fun b hb => by cases hb) (h.priv_erase _)⟩
    simp [h.unlisted, Ne.symm hne]
  | retry | relock | noSpace | addSync | waitDone =>
    exact ⟨h.alive, h.unlisted, forall_filterMap_cons (fun b hb => by cases hb) (h.priv_erase _)⟩
  | @reap vbuf _ _ hm =>
    have hne : vbuf ≠ a := fun he => h.unlisted (he ▸ hm)
    exact Leaked.free ⟨h.alive, h.unlisted, h.priv_erase _⟩ hne
  | reapGone | addErr | addAsync => exact ⟨h.alive, h.unlisted, h.priv_erase _⟩
  | cbLock | cbMove | complete | deinit | freeVbufs | detachDone => exact { h with }
  | @cbToken _ r rest =>
    have hd : Leaked { q with used := rest } a := { h with }
    exact hd.token r
  | @detach r =>
    dsimp only
    split
    · next hm =>
      have hne : r.token ≠ a := fun he => h.unlisted (he ▸ hm)
      exact Leaked.free { h with } hne
    · exact { h with }

theorem leaked_of_notReady {q q' : VirtioVideo.State} {vbuf : Addr} {sync : Bool} (h : VirtioVideo.Inv q)
    (hr : q.ready = false) (hs : VirtioVideo.machine.step q (.call (.test vbuf sync)) = some q') : Leaked q' vbuf := by
  cases VirtioVideo.step_cases hs with
  | test _ hr' => cases hr.symm.trans hr'
  | notReady hc =>
    refine ⟨by simp [(h.priv_mem hc rfl).1], (h.priv_mem hc rfl).2, fun b hb he => ?_⟩
    exact not_mem_filterMap_erase h.privNodup hc rfl (he ▸ hb)

/-- A vbuf that `-ENODEV` has left is never freed. -/
theorem notReady_leaks {s s' t : State} {vbuf : Addr} {sync : Bool} (hs : machine.Reachable s)
    (hr : s.queue.ready = false) (hst : machine.step s (.queue (.call (.test vbuf sync))) = some s')
    (ht : (machine.startAt s').Reachable t) : t.queue.heap vbuf ≠ none := by
  have hi := VirtioVideo.inv_inductive.reach (queue_reachable hs)
  have hP : (machine.startAt s').Inductive (fun _ _ => True) fun t => Leaked t.queue vbuf := by
    refine ⟨fun t ht => ?_, fun t a t' h _ hst => ?_⟩
    · subst ht
      obtain ⟨b, hb, hbc⟩ := step_queue hst
      obtain rfl := hbc _ rfl
      exact leaked_of_notReady hi hr hb
    · obtain ⟨b, hb, -⟩ := step_queue hst
      exact h.step (VirtioVideo.step_cases hb)
  exact (hP.reach ht).alive

end Agl.VirtioVideo.Submit
