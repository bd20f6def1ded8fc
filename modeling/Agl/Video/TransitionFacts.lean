/-
What holds of a stream's state whatever interleaves, and what does not.

`virtio_video_state_update` tests nothing but `STREAM_STATE_ERROR`, so a
transition rests on what its caller tested some steps before. The error
state stays (`error_absorbing`), a drain is answered (`drain_notMissed`) and
a guarded transition replaces a state its guard admits
(`guardedTransitions_atomic`) exactly as long as no other write falls in
between: the reset of the open after an error event, the reply to the drain
before its record, a change of the state between a test and the update.
-/
import Agl.Video.Transition

namespace Agl.VirtioVideo.Transition

/-! ## What a step can do -/

/-- One step, by the branch taken. -/
inductive Step (s : State) : Act → State → Prop
  | stateReset : s.life = .published → Step s .stateReset { s with state := .idle, life := .ready }
  | enter {caller} : caller ≠ .bufDoneEos →
      Step s (.enter caller) { s with calls := ⟨caller, .test caller.site.tests⟩ :: s.calls }
  | otherwise {c} : c ∈ s.calls → c.pc = .test [] →
      Step s (.call c) (s.moved c (c.caller.site.go c.caller.site.otherwise))
  | hit {c t b rest} : c ∈ s.calls → c.pc = .test ((t, b) :: rest) → t.holds s.state = true →
      Step s (.call c) (s.moved c (c.caller.site.go b))
  | miss {c t b rest} : c ∈ s.calls → c.pc = .test ((t, b) :: rest) → Step s (.call c) (s.moved c (some (.test rest)))
  | write {c} : c ∈ s.calls → c.pc = .update (.swap s.state) → Step s (.call c)
      { s.moved c none with state := c.caller.site.newState, writes := (c.caller, s.state) :: s.writes }
  | reread {c pc o} : c ∈ s.calls → c.pc = .update pc → pc ≠ .swap s.state → (o = none → s.state = .error) →
      (∀ p, o = some p → p.Goes isError) → Step s (.call c) (s.moved c (o.map .update))
  | drained {c} : c ∈ s.calls → c.pc = .drain →
      Step s (.drain c true) { s.moved c (some (.update .read)) with drainsOwed := s.drainsOwed + 1 }
  | refused {c} : c ∈ s.calls → c.pc = .drain → Step s (.drain c false) (s.moved c none)
  | reply {eos} : Step s (.reply eos) (reply s eos)
  | bufDone {rest} : s.replies = false :: rest → Step s .bufDone { s with replies := rest }
  | eos {rest} : s.replies = true :: rest → Step s .bufDone
      { s with replies := rest, calls := ⟨.bufDoneEos, .test Transition.bufDoneEos.tests⟩ :: s.calls }
  | free : Step s .free { s with life := .freed }

/-- The update writes over the state as it is, or leaves it. -/
theorem swapped_cases {s : State} {c : Call} {pc : CasPc StreamState} (hc : c ∈ s.calls)
    (hp : c.pc = .update pc) :
    Step s (.call c) (s.swapped c pc) := by
  rcases casStep_cases isError c.caller.site.newState s.state pc with ⟨rfl, h⟩ | ⟨hne, o, h, hleave, hgoes⟩
  · simp only [State.swapped, h, if_true]
    exact .write hc hp
  · simp only [State.swapped, h, hne, if_false]
    exact .reread hc hp hne (fun ho => by simpa [isError] using hleave ho) hgoes

theorem callStep_cases {s s' : State} {c : Call} (h : callStep s c = some s') : Step s (.call c) s' := by
  unfold callStep at h
  split at h
  · next hc =>
    split at h
    · next hp =>
      cases h
      exact .otherwise hc hp
    · next hp =>
      cases h
      split
      · exact .hit hc hp ‹_›
      · exact .miss hc hp
    · cases h
    · next hp =>
      cases h
      exact swapped_cases hc hp
  · cases h

theorem step_cases {s s' : State} {a : Act} (h : machine.step s a = some s') : Step s a s' ∧ s.life ≠ .freed := by
  simp only [machine, Transition.step] at h
  split at h
  · cases h
  next hlife =>
  refine ⟨?_, hlife⟩
  cases a with
  | stateReset =>
    dsimp only at h
    split at h <;> cases h
    exact .stateReset ‹_›
  | enter caller =>
    simp only [Transition.enter] at h
    split at h <;> cases h
    next hc => exact .enter hc.1
  | call c => exact callStep_cases h
  | drain c accepted =>
    simp only [Transition.drain] at h
    split at h
    · next hc =>
      cases accepted with
      | false =>
        cases h
        exact .refused hc.1 hc.2
      | true =>
        cases h
        exact .drained hc.1 hc.2
    · cases h
  | reply eos =>
    cases h
    exact .reply
  | bufDone =>
    simp only [Transition.bufDone] at h
    split at h
    · split at h
      · cases h
      · cases h
        exact .bufDone ‹_›
      · cases h
        exact .eos ‹_›
    · cases h
  | free =>
    cases h
    exact .free

/-- The calls after one has moved on are those before it and itself, moved. -/
theorem mem_moved {s : State} {c d : Call} {pc : Option Pc} (h : d ∈ (s.moved c pc).calls) :
    d ∈ s.calls ∨ ∃ p, pc = some p ∧ d = { c with pc := p } := by
  simp only [State.moved, List.mem_append, Option.mem_toList, Option.map_eq_some_iff] at h
  rcases h with ⟨p, hp, rfl⟩ | h
  · exact .inr ⟨p, hp, rfl⟩
  · exact .inl (List.mem_of_mem_erase h)

/-! ## Where calls are -/

/-- A call has some of its function's tests ahead, queues a drain only if
its function does, and never swaps out the error state. -/
def Call.Ok (c : Call) : Prop :=
  match c.pc with
  | .test rest => rest ⊆ c.caller.site.tests
  | .drain => c.caller.site.drains = true
  | .update pc => pc.Goes isError

def Inv (s : State) : Prop := ∀ c ∈ s.calls, c.Ok

/-- A call that goes on to its update is in order. -/
theorem go_ok {caller : Caller} {b : Branch} {p : Pc} (h : caller.site.go b = some p) : Call.Ok ⟨caller, p⟩ := by
  cases b with
  | leave => cases h
  | update =>
    simp only [Site.go, Option.some.injEq] at h
    by_cases hd : caller.site.drains = true
    · rw [if_pos hd] at h
      rw [← h]
      exact hd
    · rw [if_neg hd] at h
      rw [← h]
      trivial

theorem Inv.moved {s : State} (h : Inv s) {c : Call} {pc : Option Pc}
    (hp : ∀ p, pc = some p → Call.Ok { c with pc := p }) :
    Inv (s.moved c pc) := by
  intro d hd
  rcases mem_moved hd with hd | ⟨p, hpc, rfl⟩
  · exact h d hd
  · exact hp p hpc

theorem Inv.enter {s : State} (h : Inv s) (caller : Caller) :
    Inv { s with calls := ⟨caller, .test caller.site.tests⟩ :: s.calls } := by
  intro d hd
  rcases List.mem_cons.mp hd with rfl | hd
  · exact List.Subset.refl _
  · exact h d hd

/-- No step breaks it. -/
theorem Inv.step {s s' : State} {a : Act} (h : Inv s) (hs : Step s a s') : Inv s' := by
  cases hs with
  | stateReset | reply | bufDone | free => exact h
  | enter => exact h.enter _
  | eos => exact h.enter .bufDoneEos
  | otherwise => exact h.moved fun p hp => go_ok hp
  | hit => exact h.moved fun p hp => go_ok hp
  | miss hc hp =>
    refine h.moved fun p hp' => ?_
    cases hp'
    have hok := h _ hc
    rw [Call.Ok, hp] at hok
    exact fun t ht => hok (List.mem_cons_of_mem _ ht)
  | write | refused => exact h.moved fun p hp => by cases hp
  | reread _ _ _ _ hg =>
    refine h.moved fun p hp => ?_
    obtain ⟨q, hq, rfl⟩ := Option.map_eq_some_iff.mp hp
    exact hg q hq
  | drained =>
    refine h.moved fun p hp => ?_
    cases hp
    trivial

theorem inv_inductive : machine.Inductive (fun _ _ => True) Inv where
  init s hs := by
    subst hs
    simp [Inv, published]
  step _ _ _ h _ hs := h.step (step_cases hs).1

theorem Inv.goes {s : State} (h : Inv s) {c : Call} {pc : CasPc StreamState} (hc : c ∈ s.calls)
    (hp : c.pc = .update pc) :
    pc.Goes isError := by
  have := h c hc
  rwa [Call.Ok, hp] at this

/-- What a call replaces is not the error state. -/
theorem Inv.no_error {s : State} (h : Inv s) {c : Call} (hc : c ∈ s.calls) (hp : c.pc = .update (.swap s.state)) :
    s.state ≠ .error := by
  simpa [CasPc.Goes, isError] using h.goes hc hp

/-! ## The error state -/

/-- The open sets the state before any error event does. -/
def ResetsNoError (s : State) (a : Act) : Prop := a = .stateReset → s.state ≠ .error

instance (s : State) (a : Act) : Decidable (ResetsNoError s a) := inferInstanceAs (Decidable (_ → _))

theorem error_step {s s' : State} {a : Act} (hi : Inv s) (he : s.state = .error) (hs : Step s a s')
    (ha : ResetsNoError s a) : s'.state = .error := by
  cases hs with
  | stateReset => exact absurd he (ha rfl)
  | write hc hp => exact absurd he (hi.no_error hc hp)
  | _ => exact he

/-- **The error state stays.** In every run in which the open does not set
the state of a stream that an error event has reached: once the state of the
stream is `STREAM_STATE_ERROR` it is so in every later state. -/
theorem error_absorbing {s t : State} (hs : machine.Reach ResetsNoError s) (he : s.state = .error)
    (ht : (machine.startAt s).Reach ResetsNoError t) : t.state = .error := by
  have hi := inv_inductive.reach hs.reachable
  have hP : (machine.startAt s).Inductive ResetsNoError fun t => Inv t ∧ t.state = .error := by
    refine ((inv_inductive.startAt hi).mono fun _ _ _ => trivial).and (fun t ht => ?_) fun t a t' hi _ he ha hst => ?_
    · subst ht
      exact he
    · exact error_step hi he (step_cases hst).1 ha
  exact (hP.reach ht).2

/-- The worker handles an error event. -/
def errorEvent (cur : StreamState) : List Act :=
  [.enter .handleError, .call ⟨.handleError, .test []⟩, .call ⟨.handleError, .update .read⟩,
    .call ⟨.handleError, .update (.swap cur)⟩]

/-- A stream after an error event. -/
def errorState (life : Life) : State := { published with state := .error, life, writes := [(.handleError, .idle)] }

/-- After an error event, a reply that carries EOS changes nothing. -/
theorem error_absorbing_afterEos : ∃ t, (machine.startAt (errorState .ready)).Reach ResetsNoError t ∧
    t.replies = [] ∧ t.calls = [] ∧ t.life = .ready ∧ t.state = .error := by
  obtain ⟨s, hs, rfl⟩ := Machine.exists_reach (M := machine) ResetsNoError (s := published) rfl
    (.stateReset :: errorEvent .idle) (fun s => s = errorState .ready) (by decide)
  have hinit : (machine.startAt (errorState .ready)).init (errorState .ready) := rfl
  obtain ⟨t, ht, hr, hc, hl⟩ := Machine.exists_reach ResetsNoError hinit
    [.reply true, .bufDone, .call ⟨.bufDoneEos, .test []⟩, .call ⟨.bufDoneEos, .update .read⟩]
    (fun t => t.replies = [] ∧ t.calls = [] ∧ t.life = .ready) (by decide)
  exact ⟨t, ht, hr, hc, hl, error_absorbing hs rfl ht⟩

/-- The error event comes after `virtio_video_stream_id_get` and before
`virtio_video_state_reset`: the open makes the stream idle again. -/
theorem earlyError_forgotten : ∃ s t, machine.Reachable s ∧ s.state = .error ∧
    (machine.startAt s).Reachable t ∧ t.state = .idle ∧ t.life = .ready := by
  obtain ⟨s, hs, rfl⟩ := Machine.exists_reach (M := machine) (fun _ _ => True) (s := published) rfl
    (errorEvent .idle) (fun s => s = errorState .published) (by decide)
  have hinit : (machine.startAt (errorState .published)).init (errorState .published) := rfl
  obtain ⟨t, ht, hst, hl⟩ := Machine.exists_reach (fun _ _ => True) hinit [.stateReset]
    (fun t => t.state = .idle ∧ t.life = .ready) (by decide)
  exact ⟨_, t, hs, rfl, ht, hst, hl⟩

/-! ## Guarded transitions -/

/-- What the tests decide on one state. -/
def Site.decide (site : Site) (st : StreamState) : Branch :=
  ((site.tests.find? fun t => t.1.holds st).map (·.2)).getD site.otherwise

/-- The states the function goes on from. -/
def Caller.guard (caller : Caller) (st : StreamState) : Bool := caller.site.decide st = .update

/-- The transitions that rest on a test of the current state: to INIT in the
format wrappers, to RUNNING in the `start_streaming` callbacks, to
DYNAMIC_RES_CHANGE in the event worker. -/
def Caller.guarded : Caller → Bool
  | .startStreaming _ _ | .sFmt _ _ | .camGFmt | .handleResolutionChanged => true
  | _ => false

/-- The guarded functions return on the error state, go on from every other
test that holds, and return when none does. -/
theorem guarded_site {caller : Caller} (hg : caller.guarded = true) :
    (∀ q ∈ caller.site.tests, q.2 = .leave → q.1 = .is .error) ∧
      caller.site.otherwise = .leave ∧ caller.site.drains = false := by
  cases caller with
  | startStreaming type output => cases type <;> cases output <;> decide
  | sFmt type output => cases type <;> cases output <;> decide
  | camGFmt | handleResolutionChanged => decide
  | _ => cases hg

/-- A test that sends a guarded function on holds of states its guard admits,
and of the error state. -/
theorem guard_of_test {caller : Caller} (hg : caller.guarded = true) {p : Test × Branch} (hp : p ∈ caller.site.tests)
    {st : StreamState} (hh : p.1.holds st = true) : st = .error ∨ caller.guard st = true := by
  have hsome : (caller.site.tests.find? fun t => t.1.holds st).isSome = true := List.find?_isSome.mpr ⟨p, hp, hh⟩
  obtain ⟨q, hq⟩ := Option.isSome_iff_exists.mp hsome
  cases hb : q.2 with
  | leave =>
    have hq1 := (guarded_site hg).1 q (List.mem_of_find?_eq_some hq) hb
    have hholds := List.find?_some hq
    rw [hq1] at hholds
    exact .inl (by simpa [Test.holds] using hholds)
  | update => exact .inr (by simp [Caller.guard, Site.decide, hq, hb])

/-- The call has done its tests, and rests on them. -/
def Call.resting (c : Call) : Bool :=
  match c.pc with
  | .update _ => c.caller.guarded
  | _ => false

theorem resting_iff (c : Call) : c.resting = true ↔ (∃ pc, c.pc = .update pc) ∧ c.caller.guarded = true := by
  unfold Call.resting
  cases c.pc <;> simp

/-- No call that rests on its tests has its guard changed under it: what is
written, unless it is the error state, is a state that the guards of those
calls admit. -/
def KeepsGuards (s : State) : Act → Prop
  | .stateReset => ∀ d ∈ s.calls, d.resting = true → d.caller.guard .idle = true
  | .call c => c.pc = .update (.swap s.state) → c.caller.site.newState ≠ .error →
      ∀ d ∈ s.calls.erase c, d.resting = true → d.caller.guard c.caller.site.newState = true
  | _ => True

instance (s : State) (a : Act) : Decidable (KeepsGuards s a) := by
  unfold KeepsGuards
  split <;> infer_instance

/-- The calls that rest on their tests have guards that hold. -/
def Resting (s : State) : Prop := ∀ c ∈ s.calls, c.resting = true → s.state = .error ∨ c.caller.guard s.state = true

/-- Every guarded transition has replaced a state that its guard admits. -/
def GuardedWrites (s : State) : Prop := ∀ w ∈ s.writes, w.1.guarded = true → w.1.guard w.2 = true

theorem Resting.moved {s : State} (h : Resting s) {c : Call} {pc : Option Pc}
    (hp : ∀ p, pc = some p → Call.resting { c with pc := p } = true →
      s.state = .error ∨ c.caller.guard s.state = true) :
    Resting (s.moved c pc) := by
  intro d hd hr
  rcases mem_moved hd with hd | ⟨p, hpc, rfl⟩
  · exact h d hd hr
  · exact hp p hpc hr

theorem Resting.step {s s' : State} {a : Act} (h : Resting s) (hi : Inv s) (hs : Step s a s') (ha : KeepsGuards s a) :
    Resting s' := by
  cases hs with
  | stateReset => exact fun c hc hr => .inr (ha c hc hr)
  | enter | eos =>
    intro d hd hr
    rcases List.mem_cons.mp hd with rfl | hd
    · cases hr
    · exact h d hd hr
  | reply | bufDone | free => exact h
  | otherwise hc hp =>
    refine h.moved fun p hgo hr => ?_
    rw [(guarded_site ((resting_iff _).mp hr).2).2.1] at hgo
    cases hgo
  | hit hc hp hh =>
    refine h.moved fun p hgo hr => ?_
    have hok := hi _ hc
    rw [Call.Ok, hp] at hok
    exact guard_of_test ((resting_iff _).mp hr).2 (hok (List.mem_cons_self ..)) hh
  | miss => exact h.moved fun p hp hr => by cases hp; cases hr
  | refused => exact h.moved fun p hp => by cases hp
  | @write c hc hp =>
    intro d hd hr
    by_cases he : c.caller.site.newState = .error
    · exact .inl he
    · exact .inr (ha hp he d (by simpa [State.moved] using hd) hr)
  | reread hc hp =>
    refine h.moved fun p hp' hr => h _ hc ?_
    exact (resting_iff _).mpr ⟨⟨_, hp⟩, ((resting_iff _).mp hr).2⟩
  | drained hc hp =>
    refine h.moved fun p hp' hr => ?_
    have hok := hi _ hc
    rw [Call.Ok, hp, (guarded_site ((resting_iff _).mp hr).2).2.2] at hok
    cases hok

theorem GuardedWrites.step {s s' : State} {a : Act} (h : GuardedWrites s) (hr : Resting s) (hi : Inv s)
    (hs : Step s a s') :
    GuardedWrites s' := by
  cases hs with
  | @write c hc hp =>
    intro w hw hg
    rcases List.mem_cons.mp hw with rfl | hw
    · have hrest := hr c hc ((resting_iff c).mpr ⟨⟨_, hp⟩, hg⟩)
      exact hrest.resolve_left (hi.no_error hc hp)
    · exact h w hw hg
  | _ => exact h

/-- **Guarded transitions are atomic.** In every run in which no call that
has done its tests has its guard changed under it: every transition of the
format wrappers, the `start_streaming` callbacks and the event worker
replaces a state that its tests admit. -/
theorem guardedTransitions_atomic {s : State} (h : machine.Reach KeepsGuards s) : GuardedWrites s := by
  have hP := ((inv_inductive.mono fun _ _ _ => trivial).and (Q := fun s => Resting s ∧ GuardedWrites s)
    (fun s hs => by subst hs; simp [Resting, GuardedWrites, published])
    fun s a s' hi _ hq ha hs =>
      have hst := (step_cases hs).1
      ⟨hq.1.step hi hst ha, hq.2.step hq.1 hi hst⟩ : machine.Inductive KeepsGuards _)
  exact (hP.reach h).2.2

/-- `VIDIOC_STREAMON` on the capture queue of a decoder that has its format. -/
def startCapture : List Act :=
  let call (pc : Pc) : Act := .call ⟨.startStreaming .decoder false, pc⟩
  [.enter (.startStreaming .decoder false), call (.test (decStartStreaming false).tests),
    call (.test [(.atLeast .init, .update)]), call (.update .read), call (.update (.swap .init))]

/-- The coded format of a decoder is set. -/
def setFormat : List Act :=
  let call (pc : Pc) : Act := .call ⟨.sFmt .decoder true, pc⟩
  [.enter (.sFmt .decoder true), call (.test (decSFmt true).tests), call (.test [(.is .idle, .update)]),
    call (.update .read), call (.update (.swap .idle))]

theorem guardedTransitions_atomic_start : ∃ s, s.state = .running ∧ s.writes.length = 2 ∧ GuardedWrites s := by
  obtain ⟨s, hs, hst, hw⟩ := Machine.exists_reach (M := machine) KeepsGuards (s := published) rfl
    (.stateReset :: setFormat ++ startCapture) (fun s => s.state = .running ∧ s.writes.length = 2) (by decide)
  exact ⟨s, hst, hw, guardedTransitions_atomic hs⟩

/-- The event worker has found INIT; the capture queue starts; the worker
reads the state again and replaces RUNNING. -/
theorem resolutionChange_overRunning : ∃ s, machine.Reachable s ∧ ¬ GuardedWrites s ∧
    s.writes.head? = some (.handleResolutionChanged, .running) := by
  let call (pc : Pc) : Act := .call ⟨.handleResolutionChanged, pc⟩
  obtain ⟨s, hs, hw⟩ := Machine.exists_reach (M := machine) (fun _ _ => True) (s := published) rfl
    (.stateReset :: setFormat ++ [.enter .handleResolutionChanged, call (.test handleResolutionChanged.tests)] ++
      startCapture ++ [call (.update .read), call (.update (.swap .running))])
    (fun s => s.writes.head? = some (.handleResolutionChanged, .running)) (by decide)
  refine ⟨s, hs, fun hg => ?_, hw⟩
  exact absurd (hg _ (List.mem_of_mem_head? hw) rfl) (by decide)

/-! ### A guard that is lost -/

theorem step_update {s : State} {c : Call} {pc : CasPc StreamState} (hl : s.life ≠ .freed) (hc : c ∈ s.calls)
    (hp : c.pc = .update pc) : machine.step s (.call c) = some (s.swapped c pc) := by
  simp [machine, Transition.step, callStep, hl, hc, hp]

theorem mem_moved_self (s : State) (c : Call) (p : Pc) : { c with pc := p } ∈ (s.moved c (some p)).calls := by
  simp [State.moved]

/-- An update that reads the state can write over it. -/
theorem read_finishes {s : State} (hs : machine.Reachable s) (hl : s.life ≠ .freed) (he : s.state ≠ .error) {c : Call}
    (hc : c ∈ s.calls) (hp : c.pc = .update .read) : ∃ t, machine.Reachable t ∧ (c.caller, s.state) ∈ t.writes := by
  have hread := step_update hl hc hp
  have hne : isError s.state = false := by simpa [isError] using he
  simp only [State.swapped, (casStep_alone _ hne).1, Option.map_some, reduceCtorEq, if_false] at hread
  have hr := Machine.Reach.step hs trivial hread
  have hswap := step_update (s := s.moved c (some (.update (.swap s.state)))) hl (mem_moved_self s c _) rfl
  refine ⟨_, .step hr trivial hswap, ?_⟩
  simp [State.swapped, State.moved]

/-- An update in progress can finish on a state that is not the error state. -/
theorem update_finishes {s : State} (hs : machine.Reachable s) (hl : s.life ≠ .freed) (he : s.state ≠ .error) {c : Call}
    (hc : c ∈ s.calls) {pc : CasPc StreamState} (hp : c.pc = .update pc) :
    ∃ t, machine.Reachable t ∧ (c.caller, s.state) ∈ t.writes := by
  cases pc with
  | read => exact read_finishes hs hl he hc hp
  | swap prev =>
    have hstep := step_update hl hc hp
    by_cases hprev : s.state = prev
    · refine ⟨_, .step hs trivial hstep, ?_⟩
      simp [State.swapped, hprev]
    · have hne : CasPc.swap prev ≠ .swap s.state := by simp [Ne.symm hprev]
      simp only [State.swapped, casStep, hprev, hne, if_false, Option.map_some] at hstep
      exact read_finishes (c := { c with pc := .update .read }) (.step hs trivial hstep) hl he
        (mem_moved_self s c _) rfl

/-- A step that changes a guard under a call that rests on it can be
continued to a transition that replaces a state its guard does not admit. -/
theorem lostGuard_breaks {s s' : State} {a : Act} (hs : machine.Reachable s) (hst : machine.step s a = some s')
    (ha : ¬ KeepsGuards s a) : ∃ t, machine.Reachable t ∧ ¬ GuardedWrites t := by
  have hs' := Machine.Reach.step hs trivial hst
  have hbreak : ∀ d ∈ s'.calls, d.resting = true → d.caller.guard s'.state = false → s'.life ≠ .freed →
      s'.state ≠ .error → ∃ t, machine.Reachable t ∧ ¬ GuardedWrites t := by
    intro d hd hr hg hl he
    obtain ⟨⟨pc, hp⟩, hguarded⟩ := (resting_iff d).mp hr
    obtain ⟨t, ht, hw⟩ := update_finishes hs' hl he hd hp
    refine ⟨t, ht, fun h => ?_⟩
    have := h _ hw hguarded
    simp [hg] at this
  obtain ⟨hstep, hl⟩ := step_cases hst
  cases hstep with
  | stateReset =>
    simp only [KeepsGuards, not_forall] at ha
    obtain ⟨d, hd, hr, hg⟩ := ha
    exact hbreak d hd hr (by simpa using hg) (by simp) (by simp)
  | @write c hc hp =>
    simp only [KeepsGuards, not_forall] at ha
    obtain ⟨-, he, d, hd, hr, hg⟩ := ha
    exact hbreak d (by simpa [State.moved] using hd) hr (by simpa using hg) hl he
  | otherwise _ hp | hit _ hp | miss _ hp | reread _ hp => simp_all [KeepsGuards]
  | _ => simp [KeepsGuards] at ha

/-! ## Drains -/

/-- The decoder and encoder commands that queue a drain. -/
def Caller.stops : Caller → Bool
  | .decoderCmdStop | .encoderCmdStop => true
  | _ => false

/-- A reply with EOS is still to set the state. -/
def State.eosComing (s : State) : Prop :=
  0 < s.drainsOwed ∨ true ∈ s.replies ∨ ∃ c ∈ s.calls, c.caller = .bufDoneEos

instance (s : State) : Decidable s.eosComing := inferInstanceAs (Decidable (_ ∨ _ ∨ _))

/-- A drain is recorded before its EOS has set the state. -/
def DrainBacked (s : State) : Act → Prop
  | .call c => c.caller.stops = true → c.pc = .update (.swap s.state) → s.eosComing
  | _ => True

instance (s : State) (a : Act) : Decidable (DrainBacked s a) := by
  unfold DrainBacked
  split <;> infer_instance

/-- With the commands returned and the replies processed, a stream in the
drain state has a drain that the device has not answered. -/
def NoMissedDrain (s : State) : Prop :=
  (∀ c ∈ s.calls, c.caller.stops = false ∧ c.caller ≠ .bufDoneEos) → s.replies = [] →
    s.state = .drain → 0 < s.drainsOwed

/-- A stream in the drain state has an EOS coming. -/
def Draining (s : State) : Prop := s.state = .drain → s.eosComing

theorem eosComing_moved {s : State} {c : Call} {pc : Option Pc} (h : s.eosComing)
    (hp : pc = none → c.caller ≠ .bufDoneEos) : (s.moved c pc).eosComing := by
  rcases h with h | h | ⟨d, hd, hdc⟩
  · exact .inl h
  · exact .inr (.inl h)
  · refine .inr (.inr ?_)
    by_cases hdc' : d = c
    · subst hdc'
      cases pc with
      | none => exact absurd hdc (hp rfl)
      | some p => exact ⟨_, mem_moved_self s d p, hdc⟩
    · exact ⟨d, by simp [State.moved, List.mem_erase_of_ne hdc', hd], hdc⟩

theorem newState_drain {caller : Caller} : caller.site.newState = .drain ↔ caller.stops = true := by
  cases caller with
  | startStreaming type output => cases type <;> cases output <;> decide
  | sFmt type output => cases type <;> cases output <;> decide
  | encStopStreaming output => cases output <;> decide
  | _ => decide

theorem Draining.step {s s' : State} {a : Act} (h : Draining s) (hi : Inv s) (hs : Step s a s') (ha : DrainBacked s a) :
    Draining s' := by
  cases hs with
  | stateReset => exact fun hd => by cases hd
  | enter =>
    intro hd
    rcases h hd with h | h | ⟨d, hd, hc⟩
    · exact .inl h
    · exact .inr (.inl h)
    · exact .inr (.inr ⟨d, List.mem_cons_of_mem _ hd, hc⟩)
  | otherwise =>
    refine fun hd => eosComing_moved (h hd) fun hn hc => ?_
    rw [hc] at hn
    cases hn
  | hit hc hp =>
    refine fun hd => eosComing_moved (h hd) fun _ hc' => ?_
    have hok := hi _ hc
    rw [Call.Ok, hp] at hok
    have hmem := hok (List.mem_cons_self ..)
    rw [hc'] at hmem
    cases hmem
  | miss => exact fun hd => eosComing_moved (h hd) fun hn => by cases hn
  | @write c hc hp =>
    intro hd
    have hstops := newState_drain.mp hd
    refine eosComing_moved (ha hstops hp) fun _ hc' => ?_
    rw [hc'] at hstops
    cases hstops
  | reread _ _ _ hleave =>
    intro (hd : s.state = .drain)
    refine eosComing_moved (h hd) fun hn => ?_
    rw [hleave (Option.map_eq_none_iff.mp hn)] at hd
    cases hd
  | drained => exact fun hd => .inl (Nat.succ_pos _)
  | refused hc hp =>
    refine fun hd => eosComing_moved (h hd) fun _ hc' => ?_
    have hok := hi _ hc
    rw [Call.Ok, hp, hc'] at hok
    cases hok
  | @reply eos =>
    intro hd
    cases eos with
    | true => exact .inr (.inl (by simp [Transition.reply]))
    | false => simpa [State.eosComing, Transition.reply] using h hd
  | bufDone hr => exact fun hd => by simpa [State.eosComing, hr] using h hd
  | eos => exact fun _ => .inr (.inr ⟨_, List.mem_cons_self .., rfl⟩)
  | free => exact h

/-- **A drain is never missed.** In every run in which a drain is recorded
while its EOS has not set the state yet: with the commands returned and the
replies processed, a stream in `STREAM_STATE_DRAIN` has a drain that the
device still owes the EOS of. -/
theorem drain_notMissed {s : State} (h : machine.Reach DrainBacked s) : NoMissedDrain s := by
  have hP := ((inv_inductive.mono fun _ _ _ => trivial).and (Q := Draining)
    (fun s hs hd => by subst hs; cases hd)
    fun s a s' hi _ hq ha hs => hq.step hi (step_cases hs).1 ha : machine.Inductive DrainBacked _)
  intro hcalls hreplies hd
  rcases (hP.reach h).2 hd with h | h | ⟨c, hc, heos⟩
  · exact h
  · rw [hreplies] at h
    cases h
  · exact absurd heos (hcalls c hc).2

/-- `V4L2_DEC_CMD_STOP` up to the record of the drain. -/
def stopDecoder : List Act :=
  let call (pc : Pc) : Act := .call ⟨.decoderCmdStop, pc⟩
  [.enter .decoderCmdStop, call (.test tryCmd), call (.test [(.is .drain, .leave)]), call (.test []),
    .drain ⟨.decoderCmdStop, .drain⟩ true]

/-- `virtio_video_state_update` by one caller, on this state. -/
def updates (caller : Caller) (cur : StreamState) : List Act :=
  [.call ⟨caller, .update .read⟩, .call ⟨caller, .update (.swap cur)⟩]

/-- The reply that carries the EOS is processed. -/
def eosProcessed (cur : StreamState) : List Act :=
  [.reply true, .bufDone, .call ⟨.bufDoneEos, .test []⟩] ++ updates .bufDoneEos cur

theorem drain_notMissed_twice : ∃ s, s.state = .drain ∧ s.calls = [] ∧ s.replies = [] ∧ NoMissedDrain s := by
  obtain ⟨s, hs, hd, hc, hr⟩ := Machine.exists_reach (M := machine) DrainBacked (s := published) rfl
    (.stateReset :: stopDecoder ++ updates .decoderCmdStop .idle ++ eosProcessed .drain ++
      stopDecoder ++ updates .decoderCmdStop .stopped)
    (fun s => s.state = .drain ∧ s.calls = [] ∧ s.replies = []) (by decide)
  exact ⟨s, hd, hc, hr, drain_notMissed hs⟩

/-- The EOS is processed before the command records the drain. -/
theorem earlyEos_missed : ∃ s, machine.Reachable s ∧ ¬ NoMissedDrain s := by
  obtain ⟨s, hs, hd, hc, hr, hn⟩ := Machine.exists_reach (M := machine) (fun _ _ => True) (s := published) rfl
    (.stateReset :: stopDecoder ++ eosProcessed .idle ++ updates .decoderCmdStop .stopped)
    (fun s => s.state = .drain ∧ s.calls = [] ∧ s.replies = [] ∧ s.drainsOwed = 0) (by decide)
  refine ⟨s, hs, fun h => ?_⟩
  have := h (by simp [hc]) hr hd
  omega

/-- The replies without EOS are processed. -/
theorem replies_processed {s : State} (hs : machine.Reachable s) (hl : s.life = .ready) {rest : List Bool}
    (hr : s.replies = rest) (h : true ∉ rest) : machine.Reachable { s with replies := [] } := by
  induction rest generalizing s with
  | nil => rwa [← hr]
  | cons eos rest ih =>
    cases eos with
    | true => simp at h
    | false =>
      have hstep : machine.step s .bufDone = some { s with replies := rest } := by
        simp [machine, Transition.step, Transition.bufDone, hl, hr]
      exact ih (s := { s with replies := rest }) (.step hs trivial hstep) hl rfl (by simpa using h)

/-- A drain that is recorded with no EOS coming leaves the stream in the
drain state for good: no command runs beside this one, and no reply that is
left changes the state. -/
theorem unbackedDrain_stuck {s : State} (hs : machine.Reachable s) (hl : s.life = .ready) {c : Call} (hc : c ∈ s.calls)
    (hstops : c.caller.stops = true) (hp : c.pc = .update (.swap s.state))
    (hone : ∀ d ∈ s.calls.erase c, d.caller.stops = false) (hn : ¬ s.eosComing) :
    ∃ t, machine.Reachable t ∧ ¬ NoMissedDrain t := by
  obtain ⟨howed, hreplies, heos⟩ := by simpa only [State.eosComing, not_or] using hn
  have hstep := step_update (by simp [hl]) hc hp
  simp only [State.swapped, casStep, if_true, Option.map_none, newState_drain.mpr hstops] at hstep
  have ht := replies_processed (.step hs trivial hstep) hl rfl hreplies
  refine ⟨_, ht, fun h => howed (h (fun d hd => ?_) rfl rfl)⟩
  have hd : d ∈ s.calls.erase c := by simpa [State.moved] using hd
  exact ⟨hone d hd, fun he => heos ⟨d, List.mem_of_mem_erase hd, he⟩⟩

end Agl.VirtioVideo.Transition
