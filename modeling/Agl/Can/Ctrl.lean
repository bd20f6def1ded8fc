/-
The control queue of the virtio CAN driver: `virtio_can_send_ctrl_msg` by any
number of callers, and what their results rest on.

All requests share one pair of buffers. A call holds `ctrl_lock` while it
waits, but leaves its wait on a broken queue as well as on its token, and
reads the result from the shared buffer after it has dropped the lock. So a
result is the call's own as long as nobody leaves a broken queue with an old
OK in the buffer and no other answer arrives before the result is read
(`ctrlResult_own`).

Of the kernel: `virtqueue_get_buf` returns NULL and `virtqueue_add_sgs` fails
on a broken queue, which stays broken until `virtio_can_freeze` and
`virtio_can_restore` give the device new queues, with no call under way. Left
out: the contents of the requests and the messages printed.
-/
import Mathlib.Data.List.Basic
import Agl.Lib.Machine

namespace Agl.VirtioCan.Ctrl

/-- `VIRTIO_CAN_RESULT_OK` -/
def resultOk : UInt8 := 0

/-- Where the call that holds `ctrl_lock` is. `req` is its request, if
`virtqueue_add_sgs` has taken one. -/
inductive Pc
  | add
  /-- about to call `virtqueue_get_buf` -/
  | getBuf (req : Option Nat)
  /-- no token; about to call `virtqueue_is_broken` -/
  | isBroken (req : Option Nat)
  /-- in `wait_for_completion` -/
  | wait (req : Option Nat)
  | unlock (req : Option Nat)
  deriving DecidableEq, Repr

/-- The request a call waits for. -/
def Pc.awaits : Pc → Option Nat
  | .getBuf req | .isBroken req | .wait req => req
  | .add | .unlock _ => none

structure State where
  /-- `cpkt_in.result` -/
  cpktIn : UInt8
  /-- the count of `ctrl_done` -/
  ctrlDone : Nat
  broken : Bool
  /-- with the device -/
  avail : List Nat
  /-- completed, not yet taken by the driver -/
  used : List Nat
  /-- requests made so far; the next one's number -/
  requests : Nat
  /-- calls at `mutex_lock` -/
  callers : Nat
  /-- the call that holds `ctrl_lock` -/
  holder : Option Pc
  /-- calls between `mutex_unlock` and the read of the result -/
  returning : List (Option Nat)
  /-- what the device has answered to each request -/
  answers : List (Nat × UInt8)
  /-- what each call has returned, with its request -/
  returned : List (Option Nat × UInt8)
  deriving DecidableEq, Repr

/-! ## Steps -/

/-- The steps of the call that holds the lock, but for `virtqueue_add_sgs`. -/
def holderStep (s : State) : Option State :=
  match s.holder with
  | none | some .add => none
  | some (.getBuf req) =>
    match s.used with
    | [] => some { s with holder := some (.isBroken req) }
    | _ :: rest =>
      if s.broken then some { s with holder := some (.isBroken req) }
      else some { s with used := rest, holder := some (.unlock req) }
  | some (.isBroken req) => some { s with holder := some (if s.broken then .unlock req else .wait req) }
  | some (.wait req) =>
    if s.ctrlDone = 0 then none else some { s with ctrlDone := s.ctrlDone - 1, holder := some (.getBuf req) }
  | some (.unlock req) => some { s with holder := none, returning := req :: s.returning }

/-- `virtqueue_add_sgs`; its failure is only printed. -/
def addSgs (s : State) (ok : Bool) : Option State :=
  if s.holder = some .add then
    if ok then
      if s.broken then none
      else some { s with
        avail := s.avail ++ [s.requests], requests := s.requests + 1, holder := some (.getBuf (some s.requests)) }
    else some { s with holder := some (.getBuf none) }
  else none

/-- The device completes a request and writes a result, or nothing. -/
def complete (s : State) (req : Nat) (result : Option UInt8) : Option State :=
  if req ∈ s.avail then
    let s := { s with avail := s.avail.erase req, used := s.used ++ [req] }
    match result with
    | none => some s
    | some r => some { s with cpktIn := r, answers := (req, r) :: s.answers }
  else none

inductive Act
  /-- `virtio_can_send_ctrl_msg` is called -/
  | call
  | lock
  | addSgs (ok : Bool)
  | holder
  /-- a call returns `cpkt_in.result` -/
  | ret (req : Option Nat)
  | complete (req : Nat) (result : Option UInt8)
  /-- `virtio_can_control_intr` -/
  | controlIntr
  /-- the queue becomes broken -/
  | breakVq
  /-- `virtio_can_del_vq`, and later `virtio_can_find_vqs` -/
  | newVqs
  deriving DecidableEq, Repr

def step (s : State) : Act → Option State
  | .call => some { s with callers := s.callers + 1 }
  | .lock =>
    if s.callers = 0 ∨ s.holder ≠ none then none
    else some { s with callers := s.callers - 1, holder := some .add }
  | .addSgs ok => addSgs s ok
  | .holder => holderStep s
  | .ret req =>
    if req ∈ s.returning then
      some { s with returning := s.returning.erase req, returned := (req, s.cpktIn) :: s.returned }
    else none
  | .complete req result => complete s req result
  | .controlIntr => some { s with ctrlDone := s.ctrlDone + 1 }
  | .breakVq => some { s with broken := true }
  | .newVqs => if s.holder = none then some { s with broken := false, avail := [], used := [] } else none

/-- After `virtio_can_probe`: the buffers are zero. -/
def probe : State :=
  { cpktIn := 0, ctrlDone := 0, broken := false, avail := [], used := [], requests := 0, callers := 0
    holder := none, returning := [], answers := [], returned := [] }

def machine : Machine State Act where
  init s := s = probe
  step := step

/-! ## The results -/

/-- The device has completed this very request with OK. -/
def State.answered (s : State) (req : Option Nat) : Prop := ∃ k ∈ req, (k, resultOk) ∈ s.answers

instance (s : State) (req : Option Nat) : Decidable (s.answered req) := inferInstanceAs (Decidable (∃ k ∈ req, _))

/-- The requests of the calls that have left their wait. -/
def State.past (s : State) : List (Option Nat) :=
  match s.holder with
  | some (.unlock req) => req :: s.returning
  | _ => s.returning

/-- A call returns OK only if the device has completed its request with OK. -/
def OwnResults (s : State) : Prop := ∀ p ∈ s.returned, p.2 = resultOk → s.answered p.1

instance (s : State) : Decidable (OwnResults s) := inferInstanceAs (Decidable (∀ p ∈ s.returned, _))

/-- The call that is about to leave its wait on a broken queue. -/
def State.waiting (s : State) : List (Option Nat) :=
  match s.holder with
  | some (.isBroken req) => [req]
  | _ => []

/-- A wait is left on a broken queue only with a result that is not OK, or
the call's own; a device that completes a request writes its result, unless
the one in the buffer is not OK; and it answers OK while no other call is
past its wait, but for those it has answered OK. -/
def OwnAnswer (s : State) : Act → Prop
  | .holder => s.broken = true → s.cpktIn = resultOk → ∀ req ∈ s.waiting, s.answered req
  | .complete _ none => s.broken = false → s.cpktIn ≠ resultOk
  | .complete req (some r) => r = resultOk → ∀ p ∈ s.past, p = some req ∨ s.answered p
  | _ => True

instance (s : State) (a : Act) : Decidable (OwnAnswer s a) := by
  unfold OwnAnswer
  split <;> infer_instance

/-! ## What a step can do -/

/-- One step, by the branch taken. -/
inductive Step (s : State) : Act → State → Prop
  | call : Step s .call { s with callers := s.callers + 1 }
  | lock : s.holder = none → Step s .lock { s with callers := s.callers - 1, holder := some .add }
  | added : s.holder = some .add → s.broken = false → Step s (.addSgs true)
      { s with
        avail := s.avail ++ [s.requests], requests := s.requests + 1, holder := some (.getBuf (some s.requests)) }
  | refused : s.holder = some .add → Step s (.addSgs false) { s with holder := some (.getBuf none) }
  | token {req k rest} : s.holder = some (.getBuf req) → s.used = k :: rest → s.broken = false →
      Step s .holder { s with used := rest, holder := some (.unlock req) }
  | noToken {req} : s.holder = some (.getBuf req) → Step s .holder { s with holder := some (.isBroken req) }
  | isBroken {req} : s.holder = some (.isBroken req) → s.broken = true →
      Step s .holder { s with holder := some (.unlock req) }
  | notBroken {req} : s.holder = some (.isBroken req) → s.broken = false →
      Step s .holder { s with holder := some (.wait req) }
  | woken {req} : s.holder = some (.wait req) →
      Step s .holder { s with ctrlDone := s.ctrlDone - 1, holder := some (.getBuf req) }
  | unlock {req} : s.holder = some (.unlock req) →
      Step s .holder { s with holder := none, returning := req :: s.returning }
  | ret {req} : req ∈ s.returning → Step s (.ret req)
      { s with returning := s.returning.erase req, returned := (req, s.cpktIn) :: s.returned }
  | silent {req} : req ∈ s.avail → Step s (.complete req none)
      { s with avail := s.avail.erase req, used := s.used ++ [req] }
  | answer {req r} : req ∈ s.avail → Step s (.complete req (some r))
      { s with
        avail := s.avail.erase req, used := s.used ++ [req], cpktIn := r, answers := (req, r) :: s.answers }
  | controlIntr : Step s .controlIntr { s with ctrlDone := s.ctrlDone + 1 }
  | breakVq : Step s .breakVq { s with broken := true }
  | newVqs : s.holder = none → Step s .newVqs { s with broken := false, avail := [], used := [] }

theorem holderStep_cases {s s' : State} (h : holderStep s = some s') : Step s .holder s' := by
  unfold holderStep at h
  split at h
  · cases h
  · cases h
  · next req hh =>
    split at h
    · cases h
      exact .noToken hh
    · next hu =>
      split at h
      · cases h
        exact .noToken hh
      · next hb =>
        cases h
        exact .token hh hu (by simpa using hb)
  · next hh =>
    cases h
    split
    · exact .isBroken hh ‹_›
    · next hb => exact .notBroken hh (by simpa using hb)
  · next hh =>
    split at h
    · cases h
    · cases h
      exact .woken hh
  · next hh =>
    cases h
    exact .unlock hh

theorem step_cases {s s' : State} {a : Act} (h : machine.step s a = some s') : Step s a s' := by
  simp only [machine, step] at h
  cases a with
  | call =>
    cases h
    exact .call
  | lock =>
    dsimp only at h
    split at h
    · cases h
    · next hc =>
      cases h
      exact .lock (by simpa using (not_or.mp hc).2)
  | addSgs ok =>
    simp only [addSgs] at h
    split at h
    · next hh =>
      cases ok with
      | false =>
        cases h
        exact .refused hh
      | true =>
        simp only [if_true] at h
        split at h
        · cases h
        · next hb =>
          cases h
          exact .added hh (by simpa using hb)
    · cases h
  | holder => exact holderStep_cases h
  | ret req =>
    dsimp only at h
    split at h <;> cases h
    exact .ret ‹_›
  | complete req result =>
    simp only [complete] at h
    split at h
    · cases result with
      | none =>
        cases h
        exact .silent ‹_›
      | some r =>
        cases h
        exact .answer ‹_›
    · cases h
  | controlIntr =>
    cases h
    exact .controlIntr
  | breakVq =>
    cases h
    exact .breakVq
  | newVqs =>
    dsimp only at h
    split at h <;> cases h
    exact .newVqs ‹_›

/-! ## The invariant -/

/-- The queue holds the request of the call that waits and nothing else, and
an OK in the buffer answers what the device has completed and every call that
is past its wait. -/
structure Inv (s : State) : Prop where
  ring : s.broken = false → s.avail ++ s.used = (s.holder.bind Pc.awaits).toList
  used : s.broken = false → s.cpktIn = resultOk → ∀ k ∈ s.used, (k, resultOk) ∈ s.answers
  past : s.cpktIn = resultOk → ∀ req ∈ s.past, s.answered req
  returned : OwnResults s

@[simp] theorem answered_some {s : State} {k : Nat} : s.answered (some k) ↔ (k, resultOk) ∈ s.answers := by
  simp [State.answered]

theorem mem_past {s : State} {req : Option Nat} :
    req ∈ s.past ↔ s.holder = some (.unlock req) ∨ req ∈ s.returning := by
  unfold State.past
  split
  · next hh => simp [hh, eq_comm]
  · next hne =>
    have : s.holder ≠ some (.unlock req) := hne req
    simp [this]

theorem answered_cons {s s' : State} {p : Nat × UInt8} (hs : s'.answers = p :: s.answers) {req : Option Nat}
    (h : s.answered req) : s'.answered req := by
  obtain ⟨k, hk, ha⟩ := h
  exact ⟨k, hk, by rw [hs]; exact List.mem_cons_of_mem _ ha⟩

/-- A queue that holds one request at most and has completed one holds no
other. -/
theorem completed_alone {avail rest : List Nat} {k : Nat} {req : Option Nat} (h : avail ++ k :: rest = req.toList) :
    avail = [] ∧ rest = [] ∧ req = some k := by
  cases req with
  | none => simp at h
  | some j =>
    rw [Option.toList_some, List.append_eq_singleton_iff] at h
    rcases h with ⟨ha, hk⟩ | ⟨-, hk⟩
    · simp_all
    · cases hk

theorem available_alone {avail used : List Nat} {k : Nat} {req : Option Nat} (h : avail ++ used = req.toList)
    (hk : k ∈ avail) : avail = [k] ∧ used = [] ∧ req = some k := by
  cases req with
  | none => simp_all
  | some j =>
    rw [Option.toList_some, List.append_eq_singleton_iff] at h
    rcases h with ⟨rfl, -⟩ | ⟨rfl, rfl⟩
    · cases hk
    · simp_all

theorem Inv.ring_step {s s' : State} {a : Act} (h : Inv s) (hs : Step s a s') (hb : s'.broken = false) :
    s'.avail ++ s'.used = (s'.holder.bind Pc.awaits).toList := by
  cases hs with
  | call | ret | controlIntr => exact h.ring hb
  | lock hh | refused hh | noToken hh | notBroken hh | woken hh | unlock hh =>
    simpa [hh, Pc.awaits] using h.ring hb
  | isBroken _ hbr => exact absurd hb (by simp [hbr])
  | breakVq => cases hb
  | newVqs hh => simp [hh]
  | added hh =>
    have hr := h.ring hb
    simp only [hh, Option.bind_some, Pc.awaits, Option.toList_none, List.append_eq_nil_iff] at hr
    simp [hr.1, hr.2, Pc.awaits]
  | token hh hu =>
    have hr := h.ring hb
    rw [hh, hu] at hr
    obtain ⟨ha, hrest, -⟩ := completed_alone hr
    simp [ha, hrest, Pc.awaits]
  | silent hk | answer hk =>
    have hr := h.ring hb
    obtain ⟨ha, hu, hreq⟩ := available_alone hr hk
    simp [ha, hu, hreq]

theorem Inv.used_step {s s' : State} {a : Act} (h : Inv s) (hs : Step s a s') (ha : OwnAnswer s a)
    (hb : s'.broken = false) (hok : s'.cpktIn = resultOk) : ∀ k ∈ s'.used, (k, resultOk) ∈ s'.answers := by
  cases hs with
  | breakVq => cases hb
  | newVqs => simp
  | token hh hu =>
    intro k hk
    exact h.used hb hok k (by rw [hu]; exact List.mem_cons_of_mem _ hk)
  | silent => exact absurd hok (ha hb)
  | answer hk =>
    obtain ⟨-, hu, -⟩ := available_alone (h.ring hb) hk
    simp_all
  | _ => exact h.used hb hok

theorem Inv.past_step {s s' : State} {a : Act} (h : Inv s) (hs : Step s a s') (ha : OwnAnswer s a)
    (hok : s'.cpktIn = resultOk) : ∀ req ∈ s'.past, s'.answered req := by
  intro req hreq
  rw [mem_past] at hreq
  -- a call that was past its wait before, of which the step changes nothing
  have old (hreq : s.holder = some (.unlock req) ∨ req ∈ s.returning) (hok : s.cpktIn = resultOk) : s.answered req :=
    h.past hok req (mem_past.mpr hreq)
  cases hs with
  | call | controlIntr | breakVq | silent => exact old hreq hok
  | newVqs hh => exact old hreq hok
  | lock hh | added hh | refused hh | noToken hh | notBroken hh | woken hh =>
    exact old (.inr (by simpa using hreq)) hok
  | ret => exact old (hreq.imp_right List.mem_of_mem_erase) hok
  | unlock hh =>
    refine old ?_ hok
    simpa [hh, eq_comm] using hreq
  | token hh hu hb =>
    rcases hreq with hreq | hreq
    · cases hreq
      have hr := h.ring hb
      rw [hh, hu] at hr
      have hreq : _ = some _ := (completed_alone hr).2.2
      rw [show req = _ from hreq]
      exact answered_some.mpr (h.used hb hok _ (by simp [hu]))
    · exact old (.inr hreq) hok
  | isBroken hh hb =>
    rcases hreq with hreq | hreq
    · cases hreq
      exact ha hb hok req (by simp [State.waiting, hh])
    · exact old (.inr hreq) hok
  | answer hk =>
    rcases ha hok req (mem_past.mpr hreq) with rfl | hreq
    · dsimp only at hok
      subst hok
      simp
    · exact answered_cons rfl hreq

theorem Inv.returned_step {s s' : State} {a : Act} (h : Inv s) (hs : Step s a s') : OwnResults s' := by
  cases hs with
  | answer => exact fun p hp hok => answered_cons rfl (h.returned p hp hok)
  | ret hreq =>
    intro p hp hok
    rcases List.mem_cons.mp hp with rfl | hp
    · exact h.past hok _ (mem_past.mpr (.inr hreq))
    · exact h.returned p hp hok
  | _ => exact h.returned

theorem inv_inductive : machine.Inductive OwnAnswer Inv where
  init s hs := by
    subst hs
    constructor <;> simp [probe, State.past, OwnResults]
  step s a s' h ha hs :=
    have hs := step_cases hs
    ⟨h.ring_step hs, h.used_step hs ha, h.past_step hs ha, h.returned_step hs⟩

/-! ## The results are the calls' own -/

/-- **A result is the call's own.** In every run in which no call leaves a
broken queue with the OK of another in the buffer, every completion writes a
result, and no OK arrives while another call has yet to read its result: a
call returns OK only if the device has completed its request with OK. -/
theorem ctrlResult_own {s : State} (hs : machine.Reach OwnAnswer s) : OwnResults s :=
  (inv_inductive.reach hs).returned

/-- A request, up to its completion. -/
def request (req : Nat) (result : UInt8) : List Act :=
  [.call, .lock, .addSgs true, .holder, .holder, .complete req (some result), .controlIntr]

/-- The holder is woken, takes the token and drops the lock. -/
def wake : List Act := [.holder, .holder, .holder]

/-- A call refused by the device, and one that it accepts. -/
theorem ctrlResult_own_second : ∃ s, machine.Reach OwnAnswer s ∧
    s.returned = [(some 1, resultOk), (some 0, 1)] ∧ OwnResults s := by
  obtain ⟨s, hs, hr⟩ := Machine.exists_reach (M := machine) OwnAnswer (s := probe) rfl
    (request 0 1 ++ wake ++ [.ret (some 0)] ++ request 1 resultOk ++ wake ++ [.ret (some 1)])
    (fun s => s.returned = [(some 1, resultOk), (some 0, 1)]) (by decide)
  exact ⟨s, hs, hr, ctrlResult_own hs⟩

/-- The queue is broken, nothing is sent, and the call returns the OK that
the zeroed buffer stands for. -/
theorem brokenQueue_ok : ∃ s, machine.Reachable s ∧ s.requests = 0 ∧ ¬ OwnResults s :=
  Machine.exists_reach (M := machine) (fun _ _ => True) (s := probe) rfl
    [.breakVq, .call, .lock, .addSgs false, .holder, .holder, .holder, .ret none]
    (fun s => s.requests = 0 ∧ ¬ OwnResults s) (by decide)

/-- Nor is a broken queue needed: a refused call that has dropped the lock
returns the OK of the next one. -/
theorem unlockedRead_other : ∃ s, machine.Reachable s ∧ s.broken = false ∧ s.returned = [(some 0, resultOk)] ∧
    s.answers = [(1, resultOk), (0, 1)] :=
  Machine.exists_reach (M := machine) (fun _ _ => True) (s := probe) rfl
    (request 0 1 ++ wake ++ request 1 resultOk ++ [.ret (some 0)])
    (fun s => s.broken = false ∧ s.returned = [(some 0, resultOk)] ∧ s.answers = [(1, resultOk), (0, 1)]) (by decide)

end Agl.VirtioCan.Ctrl
