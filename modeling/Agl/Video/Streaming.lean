/-
STREAMON and STREAMOFF on an encoder: `virtio_video_enc_start_streaming` and
`virtio_video_enc_stop_streaming` as vb2 calls them.

The ioctls that call them follow one another, under the `vq_mutex` of the
stream, so a call finds the state as the one before has left it; what it makes
of it is that of a call of the interleaved model with nothing else in progress
(`call_alone`). Ioctls under `vd->lock` are not among them.
vb2 calls `start_streaming` when a queue is streaming and has enough buffers,
at STREAMON or at a later QBUF, and `stop_streaming` only when
`start_streaming` has been called.
-/
import Agl.Video.TransitionFacts

namespace Agl.VirtioVideo

namespace Transition

/-! ## A call alone -/

/-- Where the tests lead when the state does not change between them. -/
def branch (tests : List (Test × Branch)) (otherwise : Branch) (cur : StreamState) : Branch :=
  match tests with
  | [] => otherwise
  | (t, b) :: rest => if t.holds cur then b else branch rest otherwise cur

/-- The state after a branch. -/
def Site.after (site : Site) (cur : StreamState) : Branch → StreamState
  | .leave => cur
  | .update => if isError cur then cur else site.newState

/-- What a call makes of the state when nothing else writes it. -/
def Site.alone (site : Site) (cur : StreamState) : StreamState :=
  site.after cur (branch site.tests site.otherwise cur)

/-- From `s`, the calls in progress come to their end and leave the state `st`. -/
def Completes (s : State) (st : StreamState) : Prop :=
  ∃ t, (machine.startAt s).Reachable t ∧ t.calls = [] ∧ t.state = st

variable {s s' : State} {a : Act} {caller : Caller} {st : StreamState}

theorem Completes.refl (h : s.calls = []) : Completes s s.state := ⟨s, .init rfl, h, rfl⟩

theorem Completes.step (hs : machine.step s a = some s') (h : Completes s' st) : Completes s st := by
  obtain ⟨t, ht, hcalls, hstate⟩ := h
  refine ⟨t, ?_, hcalls, hstate⟩
  clear hcalls hstate
  induction ht with
  | init ht =>
    cases ht
    exact .step (.init rfl) trivial hs
  | step _ _ hs ih => exact .step ih trivial hs

/-- The only call in progress is one of `caller`. -/
structure OnlyCall (s : State) (caller : Caller) (pc : Pc) : Prop where
  life : s.life = .ready
  calls : s.calls = [⟨caller, pc⟩]

theorem OnlyCall.step {pc : Pc} (h : OnlyCall s caller pc) :
    machine.step s (.call ⟨caller, pc⟩) = callStep s ⟨caller, pc⟩ ∧ ⟨caller, pc⟩ ∈ s.calls := by
  refine ⟨?_, ?_⟩
  · simp only [machine, Transition.step, h.life, reduceCtorEq, ↓reduceIte]
  · rw [h.calls]
    exact List.mem_singleton_self _

theorem OnlyCall.moved {pc : Pc} (h : OnlyCall s caller pc) (next : Option Pc) :
    (s.moved ⟨caller, pc⟩ next).calls = (next.map fun next => ⟨caller, next⟩).toList := by
  simp [State.moved, h.calls]

/-- The loop of `virtio_video_state_update`. -/
theorem OnlyCall.update (h : OnlyCall s caller (.update .read)) :
    Completes s (if isError s.state then s.state else caller.site.newState) := by
  obtain ⟨hstep, hmem⟩ := h.step
  replace hstep := hstep.trans (if_pos hmem)
  by_cases herr : isError s.state = true
  · rw [if_pos herr]
    have hleave : (s.swapped ⟨caller, .update .read⟩ .read).state = s.state := rfl
    rw [← hleave]
    refine .step hstep (.refl ?_)
    simp only [State.swapped, casStep, herr, ↓reduceIte, Option.map_none]
    exact h.moved none
  · rw [if_neg herr]
    have hgoes : isError s.state = false := Bool.not_eq_true _ ▸ herr
    obtain ⟨hread, hswap⟩ := casStep_alone caller.site.newState hgoes
    refine .step hstep ?_
    have hnext : OnlyCall (s.swapped ⟨caller, .update .read⟩ .read) caller (.update (.swap s.state)) := by
      refine ⟨h.life, ?_⟩
      simp only [State.swapped, hread, Option.map_some]
      exact h.moved (some (.update (.swap s.state)))
    have hstate : (s.swapped ⟨caller, .update .read⟩ .read).state = s.state := rfl
    generalize s.swapped ⟨caller, .update .read⟩ .read = u at hnext hstate ⊢
    obtain ⟨hstep', hmem'⟩ := hnext.step
    replace hstep' := hstep'.trans (if_pos hmem')
    have hwrite : (u.swapped ⟨caller, .update (.swap s.state)⟩ (.swap s.state)).state = caller.site.newState := by
      simp only [State.swapped, hstate, hswap]
    rw [← hwrite]
    refine .step hstep' (.refl ?_)
    simp only [State.swapped, hstate, hswap, Option.map_none]
    exact hnext.moved none

/-- After its tests a call that queues no drain leaves the state as its branch says. -/
theorem OnlyCall.go {pc : Pc} (h : OnlyCall s caller pc) (hd : caller.site.drains = false) (b : Branch)
    (hs : machine.step s (.call ⟨caller, pc⟩) = some (s.moved ⟨caller, pc⟩ (caller.site.go b))) :
    Completes s (caller.site.after s.state b) := by
  refine .step hs ?_
  cases b with
  | leave => exact .refl (h.moved none)
  | update =>
    have hgo : caller.site.go .update = some (.update .read) := by
      simp only [Site.go, hd, Bool.false_eq_true, ↓reduceIte]
    rw [hgo]
    exact OnlyCall.update (s := s.moved ⟨caller, pc⟩ (some (.update .read))) ⟨h.life, h.moved _⟩

theorem OnlyCall.tests {rest : List (Test × Branch)} (h : OnlyCall s caller (.test rest))
    (hd : caller.site.drains = false) :
    Completes s (caller.site.after s.state (branch rest caller.site.otherwise s.state)) := by
  induction rest generalizing s with
  | nil =>
    obtain ⟨hstep, hmem⟩ := h.step
    exact h.go hd _ (hstep.trans (if_pos hmem))
  | cons tb rest ih =>
    obtain ⟨t, b⟩ := tb
    obtain ⟨hstep, hmem⟩ := h.step
    replace hstep := hstep.trans (if_pos hmem)
    dsimp only at hstep
    unfold branch
    split
    · next ht =>
      rw [if_pos ht] at hstep
      exact h.go hd b hstep
    · next ht =>
      rw [if_neg ht] at hstep
      exact .step hstep (ih (s := s.moved _ (some (.test rest))) ⟨h.life, h.moved _⟩)

/-- A call that queues no drain, begun with no other in progress, makes of
the state what `Site.alone` says. -/
theorem call_alone (hlife : s.life = .ready) (hcalls : s.calls = []) (hcaller : caller ≠ .bufDoneEos)
    (hd : caller.site.drains = false) : Completes s (caller.site.alone s.state) := by
  have henter : machine.step s (.enter caller) = some { s with calls := [⟨caller, .test caller.site.tests⟩] } := by
    simp [machine, Transition.step, enter, hlife, hcalls, hcaller]
  exact .step henter (OnlyCall.tests ⟨hlife, rfl⟩ hd)

end Transition

namespace Streaming

open Transition (Caller encStartStreaming encStopStreaming)

/-! ## The queues -/

/-- A queue as vb2 keeps it. -/
structure Queue where
  streaming : Bool
  /-- `start_streaming` has run, and `stop_streaming` has not since -/
  started : Bool
  deriving DecidableEq, Repr

structure State where
  /-- `stream->state` -/
  state : StreamState
  /-- the OUTPUT queue -/
  output : Queue
  capture : Queue
  deriving DecidableEq, Repr

def State.queue (s : State) (output : Bool) : Queue := if output then s.output else s.capture

def State.setQueue (s : State) (output : Bool) (q : Queue) : State :=
  if output then { s with output := q } else { s with capture := q }

/-- `vb2_start_streaming`: with an error from the driver the queue is not
started. -/
def startStreaming (s : State) (output : Bool) : Except Errno State :=
  if s.state = .error then .error .eio
  else .ok { s.setQueue output ⟨true, true⟩ with state := (encStartStreaming output).alone s.state }

/-- `vb2_streamon`; `ready` says whether enough buffers are queued. -/
def streamon (s : State) (output ready : Bool) : State :=
  if (s.queue output).streaming then s
  else if ready then
    match startStreaming s output with
    | .ok s => s
    | .error _ => s
  else s.setQueue output ⟨true, false⟩

/-- `vb2_qbuf`, when it brings the buffers that a streaming queue waits for. -/
def qbuf (s : State) (output : Bool) : State :=
  if s.queue output = ⟨true, false⟩ then
    match startStreaming s output with
    | .ok s => s
    | .error _ => s
  else s

/-- `vb2_streamoff`; `cleared` says whether `virtio_video_queue_release_buffers`
succeeds in `virtio_video_enc_stop_streaming`. -/
def streamoff (s : State) (output cleared : Bool) : State :=
  let s := if (s.queue output).started && cleared then
    { s with state := (encStopStreaming output).alone s.state } else s
  s.setQueue output ⟨false, false⟩

/-! ## The machine -/

inductive Act
  | streamon (output ready : Bool)
  | qbuf (output : Bool)
  | streamoff (output cleared : Bool)
  /-- a function that changes the state otherwise -/
  | other (caller : Caller)
  deriving DecidableEq, Repr

def step (s : State) : Act → State
  | .streamon output ready => streamon s output ready
  | .qbuf output => qbuf s output
  | .streamoff output cleared => streamoff s output cleared
  | .other caller => { s with state := caller.site.alone s.state }

/-- The capture format has been set, with at most one of the queues started. -/
def machine : Machine State Act where
  init s := s.state = .init ∧ ¬(s.output.started = true ∧ s.capture.started = true)
  step s a := some (step s a)

/-- No drain, EOS, event or failed `QUEUE_CLEAR`. Of the other functions
`virtio_video_enc_s_fmt` and the START command are let in. -/
def Undisturbed (_ : State) : Act → Prop
  | .streamoff _ cleared => cleared = true
  | .other caller => caller = .encoderCmdStart ∨ ∃ output, caller = .sFmt .encoder output
  | _ => True

instance (s : State) (a : Act) : Decidable (Undisturbed s a) := by
  cases a <;> unfold Undisturbed <;> infer_instance

/-! ## Restarting -/

/-- The state tells which queue is not started: after its stop the OUTPUT
queue for `STOPPED`, the CAPTURE queue for `RESET`. -/
inductive Inv (s : State) : Prop
  | running : s.state = .running → Inv s
  | init : s.state = .init → ¬(s.output.started = true ∧ s.capture.started = true) → Inv s
  | stopped : s.state = .stopped → s.output.started = false → Inv s
  | reset : s.state = .reset → s.capture.started = false → Inv s

theorem Inv.setQueue {s : State} (h : Inv s) (output streaming : Bool) :
    Inv (s.setQueue output ⟨streaming, false⟩) := by
  cases output with
  | true =>
    cases h with
    | running hs => exact .running hs
    | init hs => exact .init hs fun hboth => by cases hboth.1
    | stopped hs => exact .stopped hs rfl
    | reset hs hcap => exact .reset hs hcap
  | false =>
    cases h with
    | running hs => exact .running hs
    | init hs => exact .init hs fun hboth => by cases hboth.2
    | stopped hs hout => exact .stopped hs hout
    | reset hs => exact .reset hs rfl

/-- A start resumes the stream, unless the other queue was stopped last. -/
theorem Inv.start {s s' : State} (h : Inv s) {output : Bool} (hs : startStreaming s output = .ok s') : Inv s' := by
  unfold startStreaming at hs
  split at hs
  · cases hs
  cases hs
  cases output with
  | true =>
    cases h with
    | running hs => exact .running (by dsimp only; rw [hs]; rfl)
    | init hs => exact .running (by dsimp only; rw [hs]; rfl)
    | stopped hs => exact .running (by dsimp only; rw [hs]; rfl)
    | reset hs hcap => exact .reset (by dsimp only; rw [hs]; rfl) hcap
  | false =>
    cases h with
    | running hs => exact .running (by dsimp only; rw [hs]; rfl)
    | init hs => exact .running (by dsimp only; rw [hs]; rfl)
    | stopped hs hout => exact .stopped (by dsimp only; rw [hs]; rfl) hout
    | reset hs => exact .running (by dsimp only; rw [hs]; rfl)

theorem Inv.ne_error {s : State} (h : Inv s) : s.state ≠ .error := by
  cases h <;> simp_all

/-- A stop leaves the state that names its queue. -/
theorem stop_alone {cur : StreamState} (h : cur ≠ .error) (output : Bool) :
    (encStopStreaming output).alone cur = if output then .stopped else .reset := by
  cases cur <;> first | exact absurd rfl h | rfl

theorem Inv.stop {s : State} (h : Inv s) (output : Bool) : Inv (streamoff s output true) := by
  unfold streamoff
  split
  · rw [stop_alone h.ne_error]
    cases output with
    | true => exact .stopped rfl rfl
    | false => exact .reset rfl rfl
  · exact h.setQueue output false

theorem Inv.other {s : State} (h : Inv s) {caller : Caller}
    (hc : caller = .encoderCmdStart ∨ ∃ output, caller = .sFmt .encoder output) :
    Inv { s with state := caller.site.alone s.state } := by
  rcases hc with rfl | ⟨output, rfl⟩
  · refine .running ?_
    cases h with
    | running hs | init hs | stopped hs | reset hs =>
      dsimp only
      rw [hs]
      rfl
  · have hkeep : (Caller.sFmt .encoder output).site.alone s.state = s.state := by
      cases h with
      | running hs | init hs | stopped hs | reset hs =>
        rw [hs]
        cases output <;> rfl
    rw [hkeep]
    exact h

theorem Inv.step {s : State} {a : Act} (h : Inv s) (ha : Undisturbed s a) : Inv (step s a) := by
  cases a with
  | streamon output ready =>
    simp only [Streaming.step, streamon]
    split
    · exact h
    split
    · split
      · next hs => exact h.start hs
      · exact h
    · exact h.setQueue output true
  | qbuf output =>
    simp only [Streaming.step, qbuf]
    split
    · split
      · next hs => exact h.start hs
      · exact h
    · exact h
  | streamoff output cleared =>
    obtain rfl : cleared = true := ha
    exact h.stop output
  | other caller => exact h.other ha

theorem inv_inductive : machine.Inductive Undisturbed Inv where
  init _ hs := .init hs.1 hs.2
  step _ _ _ h ha hs := by
    cases hs
    exact h.step ha

/-- **The encoder always restarts.** After any sequence of STREAMON, QBUF
and STREAMOFF on the two queues of an initialised encoder, with nothing else
touching the state: when both queues have been started the stream is
running. -/
theorem encoder_restarts {s : State} (h : machine.Reach Undisturbed s) (hout : s.output.started = true)
    (hcap : s.capture.started = true) : s.state = .running := by
  cases inv_inductive.reach h with
  | running hs => exact hs
  | init _ hboth => exact absurd ⟨hout, hcap⟩ hboth
  | stopped _ hout' => cases hout'.symm.trans hout
  | reset _ hcap' => cases hcap'.symm.trans hcap

/-- Both queues stopped and started again in the same order. -/
theorem encoder_restarts_both :
    ∃ s : State, s.output.started = true ∧ s.capture.started = true ∧ s.state = .running := by
  obtain ⟨s, hs, hout, hcap⟩ := Machine.exists_reach Undisturbed (M := machine)
    (s := ⟨.init, ⟨false, false⟩, ⟨false, false⟩⟩) ⟨rfl, by decide⟩
    [.streamon true true, .streamon false false, .qbuf false, .streamoff true true, .streamoff false true,
      .streamon true true, .streamon false true]
    (fun s => s.output.started = true ∧ s.capture.started = true) (by decide)
  exact ⟨s, hout, hcap, encoder_restarts hs hout hcap⟩

end Streaming

end Agl.VirtioVideo
