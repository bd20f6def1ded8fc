/-
Space in the command queue: what the wait for it waits for.

`virtio_video_queue_cmd_buffer` goes to sleep when `virtqueue_add_sgs`
returns `-ENOSPC`, until `num_free` is not zero. A command has up to three
elements, though, and without an indirect table it takes a descriptor for
each. With fewer free than that the retry is refused again, the wait is
over at once, and the call goes round (`retry_iff`, `rounds_spin`).

The descriptors are run beside the command queue; they decide what
`virtqueue_add_sgs` returns.
-/
import Agl.Video.Vbuf
import Agl.Lib.Descriptors

namespace Agl.VirtioVideo.Space

/-- What the vbuf of a submission carries beside the request. -/
structure Sizes where
  dataSize : Nat
  respSize : Nat
  deriving DecidableEq, Repr

/-- An element of the request. -/
inductive Sg
  | vreq | vout | vresp
  deriving DecidableEq, Repr

/-- The elements `virtio_video_queue_cmd_buffer` puts together. -/
def sgs (c : Sizes) : List Sg :=
  [.vreq] ++ (if c.dataSize ≠ 0 then [.vout] else []) ++ (if c.respSize ≠ 0 then [.vresp] else [])

/-- The descriptors the request takes: one with an indirect table, for which
there may be no memory, and otherwise one for each element. -/
def descsUsed (indirect table : Bool) (c : Sizes) : Nat := if indirect && table then 1 else (sgs c).length

/-- `virtqueue_add_sgs`; `broken` stands for the errors that are found before
the descriptors are counted. -/
def virtqueueAddSgs (indirect : Bool) (vq : Ring Nat) (serial : Nat) (c : Sizes) (table broken : Bool) :
    AddRet × Ring Nat :=
  if broken then (.err, vq)
  else
    match vq.add serial (descsUsed indirect table c) with
    | none => (.enospc, vq)
    | some vq => (.ok, vq)

/-- The command queue, and the submissions that hold descriptors. -/
structure State where
  queue : VirtioVideo.State
  vq : Ring Nat

inductive Act
  | queue (a : VirtioVideo.Act)
  /-- `virtqueue_add_sgs` -/
  | add (vbuf : Addr) (serial : Nat) (sync table broken : Bool)
  deriving DecidableEq, Repr

/-- The request that a step takes out of the virtqueue. -/
def gets (s : VirtioVideo.State) : VirtioVideo.Act → Option Req
  | .cmdCb _ => if s.cb = .pop then s.used.head? else none
  | .detach r => r
  | .getVbuf _ _ _ | .call _ | .addSgs _ _ _ _ | .waitDone _ _ | .complete _ | .deinit | .freeVbufs => none

/-- The virtqueue after a step that adds nothing. -/
def vqAfter (s : State) (a : VirtioVideo.Act) : Ring Nat :=
  match gets s.queue a with
  | none => s.vq
  | some r => s.vq.get r.serial

/-- `wait_event(vvd->commandq.reclaim_queue, vq->num_free)`, in the step that
goes on to `retry`; other steps do not wait for space. -/
def waits (s : State) : VirtioVideo.Act → Bool
  | .call (.full _ _ _) => s.vq.numFree = 0
  | _ => false

/-- Submission number `k` carries `sizes k`. -/
def step (indirect : Bool) (sizes : Nat → Sizes) (s : State) : Act → Option State
  | .add vbuf serial sync table broken =>
    let r := virtqueueAddSgs indirect s.vq serial (sizes serial) table broken
    (VirtioVideo.step s.queue (.addSgs vbuf serial sync r.1)).map fun q => ⟨q, r.2⟩
  | .queue (.addSgs _ _ _ _) => none
  | .queue a => if waits s a then none else (VirtioVideo.step s.queue a).map fun q => ⟨q, vqAfter s a⟩

/-- The driver with a command virtqueue of `size` descriptors. -/
def machine (indirect : Bool) (sizes : Nat → Sizes) (size : Nat) : Machine State Act where
  init s := s = ⟨probe, .fresh size⟩
  step := step indirect sizes

/-! ## What a step can do -/

section

variable {indirect : Bool} {sizes : Nat → Sizes} {size : Nat}

/-- One step, by who takes it. -/
inductive Step (indirect : Bool) (sizes : Nat → Sizes) (s : State) : Act → State → Prop
  | accepted {vbuf serial sync table q vq} : s.vq.add serial (descsUsed indirect table (sizes serial)) = some vq →
      VirtioVideo.machine.step s.queue (.addSgs vbuf serial sync .ok) = some q →
      Step indirect sizes s (.add vbuf serial sync table false) ⟨q, vq⟩
  | refused {vbuf serial sync table q} : s.vq.numFree < descsUsed indirect table (sizes serial) →
      VirtioVideo.machine.step s.queue (.addSgs vbuf serial sync .enospc) = some q →
      Step indirect sizes s (.add vbuf serial sync table false) ⟨q, s.vq⟩
  | failed {vbuf serial sync table q} : VirtioVideo.machine.step s.queue (.addSgs vbuf serial sync .err) = some q →
      Step indirect sizes s (.add vbuf serial sync table true) ⟨q, s.vq⟩
  | queue {a q} : waits s a = false → VirtioVideo.machine.step s.queue a = some q →
      Step indirect sizes s (.queue a) ⟨q, vqAfter s a⟩

theorem step_cases {s s' : State} {a : Act} (h : step indirect sizes s a = some s') : Step indirect sizes s a s' := by
  unfold step at h
  split at h
  · next vbuf serial sync table broken =>
    obtain ⟨q, hq, rfl⟩ := Option.map_eq_some_iff.mp h
    unfold virtqueueAddSgs at hq ⊢
    cases broken with
    | true => exact .failed hq
    | false =>
      cases hadd : s.vq.add serial (descsUsed indirect table (sizes serial)) with
      | none =>
        rw [hadd] at hq
        exact .refused (Ring.add_eq_none_iff.mp hadd) hq
      | some vq =>
        rw [hadd] at hq
        exact .accepted hadd hq
  · cases h
  · next a _ =>
    split at h
    · cases h
    · next hwaits =>
      obtain ⟨q, hq, rfl⟩ := Option.map_eq_some_iff.mp h
      exact .queue (Bool.eq_false_iff.mpr hwaits) hq

/-- The command queue runs as it does alone. -/
theorem queue_reachable {s : State} (h : (machine indirect sizes size).Reachable s) :
    VirtioVideo.machine.Reachable s.queue := by
  induction h with
  | init h =>
    rw [h]
    exact .init rfl
  | step _ _ hs ih =>
    cases step_cases hs with
    | accepted _ hq | refused _ hq | failed hq | queue _ hq => exact .step ih trivial hq

/-! ## Descriptors in use -/

/-- What the requests in the virtqueue hold. -/
def State.inUse (s : State) : Nat := (s.vq.held.map Prod.snd).sum

theorem vqAfter_sized {s : State} (h : s.vq.Sized size) (a : VirtioVideo.Act) : (vqAfter s a).Sized size := by
  unfold vqAfter
  split
  · exact h
  · exact h.get _

theorem sized_inductive : (machine indirect sizes size).Inductive (fun _ _ => True) fun s => s.vq.Sized size where
  init s h := by
    rw [h]
    exact Ring.sized_fresh
  step s a s' h _ hs := by
    cases step_cases hs with
    | accepted hadd => exact h.add hadd
    | refused | failed => exact h
    | queue => exact vqAfter_sized h _

/-- What is not in use is free. -/
theorem numFree_inUse {s : State} (h : (machine indirect sizes size).Reachable s) :
    s.vq.numFree + s.inUse = size := sized_inductive.reach h

/-- Where every request takes the same number of descriptors. -/
theorem held_inductive {n : Nat} (hn : ∀ table k, descsUsed indirect table (sizes k) = n) :
    (machine indirect sizes size).Inductive (fun _ _ => True) fun s => ∀ e ∈ s.vq.held, e.2 = n where
  init s h := by
    rw [h]
    exact fun e he => (by cases he)
  step s a s' h _ hs := by
    cases step_cases hs with
    | @accepted vbuf serial sync table q vq hadd =>
      obtain ⟨-, rfl⟩ := Ring.add_cases hadd
      intro e he
      rcases List.mem_append.mp he with he | he
      · exact h e he
      · rw [List.mem_singleton.mp he]
        exact hn table serial
    | refused | failed => exact h
    | queue =>
      unfold vqAfter
      split
      · exact h
      · exact fun e he => h e (Ring.mem_held_get he)

/-- Where that number divides the size of the ring, what is left is never too little for one more. -/
theorem uniform_room {n : Nat} (hn : ∀ table k, descsUsed indirect table (sizes k) = n) (hsize : n ∣ size) {s : State}
    (h : (machine indirect sizes size).Reachable s) : ¬(s.inUse < size ∧ size < s.inUse + n) := by
  have hheld := (held_inductive hn).reach h
  have huse : s.inUse = n * s.vq.held.length := by
    have hsame : s.vq.held.map Prod.snd = List.replicate s.vq.held.length n := by
      refine List.eq_replicate_iff.mpr ⟨List.length_map _, fun m hm => ?_⟩
      obtain ⟨e, he, rfl⟩ := List.mem_map.mp hm
      exact hheld e he
    rw [State.inUse, hsame, List.sum_replicate_nat, Nat.mul_comm]
  obtain ⟨m, rfl⟩ := hsize
  intro hbad
  rw [huse] at hbad
  have hmore : s.vq.held.length < m := Nat.lt_of_mul_lt_mul_left hbad.1
  have hless : m < s.vq.held.length + 1 := Nat.lt_of_mul_lt_mul_left (Nat.mul_succ n _ ▸ hbad.2)
  omega

/-! ## The wait and the retry -/

/-- Nobody else takes space. -/
def Undisturbed (_ : State) (a : Act) : Prop := ∀ vbuf serial sync table broken, a ≠ .add vbuf serial sync table broken

/-- Without new requests, what is free stays free. -/
theorem numFree_le {s₀ s : State} (h : ((machine indirect sizes size).startAt s₀).Reach Undisturbed s) :
    s₀.vq.numFree ≤ s.vq.numFree := by
  induction h with
  | init h =>
    subst h
    exact Nat.le_refl _
  | step _ ha hs ih =>
    cases step_cases hs with
    | accepted | refused | failed => exact absurd rfl (ha _ _ _ _ _)
    | queue =>
      unfold vqAfter
      split
      · exact ih
      · exact Nat.le_trans ih (Ring.numFree_get _ _)

/-- Only too few free descriptors make it return `-ENOSPC`. -/
theorem addSgs_enospc_iff {vq : Ring Nat} {serial : Nat} {c : Sizes} {table : Bool} :
    (∃ broken, (virtqueueAddSgs indirect vq serial c table broken).1 = .enospc) ↔
      vq.numFree < descsUsed indirect table c := by
  unfold virtqueueAddSgs
  cases hadd : vq.add serial (descsUsed indirect table c) with
  | none => exact iff_of_true ⟨false, rfl⟩ (Ring.add_eq_none_iff.mp hadd)
  | some vq' =>
    refine iff_of_false (fun h => ?_) (Nat.not_lt.mpr (Ring.add_cases hadd).1)
    obtain ⟨broken, hret⟩ := h
    cases broken <;> cases hret

/-- The call holds the lock again, at `retry`. -/
def relocked (q : VirtioVideo.State) (vbuf : Addr) (serial : Nat) (sync : Bool) : VirtioVideo.State :=
  { q with qlock := true, calls := .add vbuf serial sync :: q.calls.erase (.full vbuf serial sync) }

section

variable {s s' : State} {vbuf : Addr} {serial : Nat} {sync : Bool}

/-- When the wait lets the call go on, nothing else has changed. -/
theorem wait_cases (h : step indirect sizes s (.queue (.call (.full vbuf serial sync))) = some s') :
    s.vq.numFree ≠ 0 ∧ .full vbuf serial sync ∈ s.queue.calls ∧ s.queue.qlock = false ∧
      s' = ⟨relocked s.queue vbuf serial sync, s.vq⟩ := by
  cases step_cases h with
  | @queue _ q hwaits hq =>
    have hq : callStep s.queue (.full vbuf serial sync) = some q := hq
    unfold callStep at hq
    split at hq
    · next hfull =>
      dsimp only at hq
      split at hq
      · cases hq
      · next hlock =>
        cases hq
        exact ⟨of_decide_eq_false hwaits, hfull, by simpa using hlock, rfl⟩
    · cases hq

theorem wait_step (hfree : s.vq.numFree ≠ 0) (hfull : .full vbuf serial sync ∈ s.queue.calls)
    (hlock : s.queue.qlock = false) : step indirect sizes s (.queue (.call (.full vbuf serial sync))) =
      some ⟨relocked s.queue vbuf serial sync, s.vq⟩ := by
  have hwaits : waits s (.call (.full vbuf serial sync)) = false := decide_eq_false hfree
  simp only [step, hwaits, Bool.false_eq_true, if_false, VirtioVideo.step, callStep, if_pos hfull, hlock]
  rfl

/-- A refused retry is back in the wait. -/
theorem refused_step (s : State) (vbuf : Addr) (sync : Bool) {serial : Nat} {table : Bool}
    (hfew : s.vq.numFree < descsUsed indirect table (sizes serial)) :
    ∃ t, step indirect sizes ⟨relocked s.queue vbuf serial sync, s.vq⟩ (.add vbuf serial sync table false) = some t ∧
      t.vq = s.vq ∧ .full vbuf serial sync ∈ t.queue.calls ∧ t.queue.qlock = false := by
  have hadd : s.vq.add serial (descsUsed indirect table (sizes serial)) = none := Ring.add_eq_none_iff.mpr hfew
  have hmem : Call.add vbuf serial sync ∈ (relocked s.queue vbuf serial sync).calls := List.mem_cons_self
  simp only [step, virtqueueAddSgs, hadd, VirtioVideo.step, addSgs, if_pos hmem, Bool.false_eq_true, if_false,
    Option.map_some]
  exact ⟨_, rfl, rfl, List.mem_cons_self, rfl⟩

end

/-- Times round the loop: the wait lets the call go on, and the retry is refused. -/
inductive Rounds (indirect : Bool) (sizes : Nat → Sizes) (vbuf : Addr) (serial : Nat) (sync table : Bool) :
    Nat → State → State → Prop
  | none {s} : Rounds indirect sizes vbuf serial sync table 0 s s
  | more {k s s' t u} : step indirect sizes s (.queue (.call (.full vbuf serial sync))) = some s' →
      step indirect sizes s' (.add vbuf serial sync table false) = some t →
      Rounds indirect sizes vbuf serial sync table k t u → Rounds indirect sizes vbuf serial sync table (k + 1) s u

/-- With too few descriptors free the call goes round as long as nobody else does anything. -/
theorem rounds_spin {vbuf : Addr} {serial : Nat} {sync table : Bool} (k : Nat) : ∀ {s : State},
    s.vq.numFree ≠ 0 → s.vq.numFree < descsUsed indirect table (sizes serial) →
    .full vbuf serial sync ∈ s.queue.calls → s.queue.qlock = false →
    ∃ t, Rounds indirect sizes vbuf serial sync table k s t ∧ t.vq = s.vq := by
  induction k with
  | zero => exact fun _ _ _ _ => ⟨_, .none, rfl⟩
  | succ k ih =>
    intro s hfree hfew hfull hlock
    obtain ⟨t, hadd, hvq, hfull', hlock'⟩ := refused_step s vbuf sync hfew
    obtain ⟨u, hrounds, hu⟩ := ih (hvq ▸ hfree) (hvq ▸ hfew) hfull' hlock'
    exact ⟨u, .more (wait_step hfree hfull hlock) hadd hrounds, hu.trans hvq⟩

/-- **When the wait for space lets a call go on and nobody else takes space,
the retry is not refused again exactly if what is in use leaves the
descriptors the command needs, or none**; otherwise the call goes round any
number of times while the ring stays as it is. -/
theorem retry_iff {s s' : State} (h : (machine indirect sizes size).Reachable s) {vbuf : Addr} {serial : Nat}
    {sync : Bool} (hs : (machine indirect sizes size).step s (.queue (.call (.full vbuf serial sync))) = some s')
    (table : Bool) :
    ((∀ t, ((machine indirect sizes size).startAt s').Reach Undisturbed t → ∀ broken,
        (virtqueueAddSgs indirect t.vq serial (sizes serial) table broken).1 ≠ .enospc) ↔
      ¬(s.inUse < size ∧ size < s.inUse + descsUsed indirect table (sizes serial))) ∧
    (s.inUse < size ∧ size < s.inUse + descsUsed indirect table (sizes serial) → ∀ k, ∃ t,
      Rounds indirect sizes vbuf serial sync table k s t ∧ t.vq = s.vq) := by
  have hsize := numFree_inUse h
  have hstep : step indirect sizes s (.queue (.call (.full vbuf serial sync))) = some s' := hs
  obtain ⟨hfree, hfull, hlock, rfl⟩ := wait_cases hstep
  refine ⟨⟨fun hserved hfew => ?_, fun henough t ht broken hret => ?_⟩, fun hfew k => ?_⟩
  · have hrefused : ∃ broken, (virtqueueAddSgs indirect s.vq serial (sizes serial) table broken).1 = .enospc :=
      addSgs_enospc_iff.mpr (by omega)
    obtain ⟨broken, hret⟩ := hrefused
    exact hserved _ (.init rfl) broken hret
  · have hmore := numFree_le ht
    have hfew := addSgs_enospc_iff.mp ⟨broken, hret⟩
    dsimp only at hmore
    omega
  · exact rounds_spin k hfree (by omega) hfull hlock

end

/-- A submission of the vbuf up to `virtqueue_add_sgs`. -/
def submit (vbuf : Addr) (serial : Nat) : List Act :=
  [.queue (.getVbuf vbuf false false), .queue (.call (.test vbuf false)), .queue (.call (.lock vbuf false)),
   .queue (.call (.number vbuf false)), .add vbuf serial false false false]

/-- Two commands of two elements fill a ring of four; a third waits until one of them is taken out. -/
theorem retry_iff_served : ∃ s s', (machine false (fun _ => ⟨0, 8⟩) 4).step s (.queue (.call (.full 2 2 false))) =
    some s' ∧ ∀ broken, (virtqueueAddSgs false s'.vq 2 ⟨0, 8⟩ false broken).1 ≠ .enospc := by
  obtain ⟨s, hs, hfull, hlock, huse⟩ := Machine.exists_reach (M := machine false (fun _ => ⟨0, 8⟩) 4)
    (fun _ _ => True) (s := ⟨probe, .fresh 4⟩) rfl
    (submit 0 0 ++ submit 1 1 ++ submit 2 2 ++ [.queue (.complete 0), .queue (.cmdCb false), .queue (.cmdCb false),
      .queue (.cmdCb false), .queue (.cmdCb false)])
    (fun s => .full 2 2 false ∈ s.queue.calls ∧ s.queue.qlock = false ∧ s.inUse = 2)
    ⟨_, rfl, by decide +kernel⟩
  have hsize := numFree_inUse hs
  have hwait : step false (fun _ => ⟨0, 8⟩) s _ = _ := wait_step (by omega) hfull hlock
  obtain ⟨hiff, -⟩ := retry_iff hs hwait false
  have hserved := hiff.mpr (by simp [huse, descsUsed, sgs])
  exact ⟨s, _, hwait, hserved _ (.init rfl)⟩

/-- The first command has a data buffer, the others have none. -/
def mixed (k : Nat) : Sizes := if k = 0 then ⟨16, 8⟩ else ⟨0, 8⟩

/-- A command with a data buffer leaves one descriptor of four, and the next
command goes round for a second one. -/
theorem retry_refused : ∃ s s' t, (machine false mixed 4).Reachable s ∧
    (machine false mixed 4).step s (.queue (.call (.full 1 1 false))) = some s' ∧
    (machine false mixed 4).step s' (.add 1 1 false false false) = some t ∧
    .full 1 1 false ∈ t.queue.calls ∧ t.vq = s.vq ∧
    (virtqueueAddSgs false s'.vq 1 (mixed 1) false false).1 = .enospc := by
  obtain ⟨s, hs, hfull, hlock, hfree⟩ := Machine.exists_reach (M := machine false mixed 4) (fun _ _ => True)
    (s := ⟨probe, .fresh 4⟩) rfl (submit 0 0 ++ submit 1 1)
    (fun s => .full 1 1 false ∈ s.queue.calls ∧ s.queue.qlock = false ∧ s.vq.numFree = 1)
    ⟨_, rfl, by decide +kernel⟩
  have hfew : s.vq.numFree < descsUsed false false (mixed 1) := by
    rw [hfree]
    decide
  obtain ⟨t, hadd, hvq, hback, -⟩ := refused_step s 1 false hfew
  have hwait : step false mixed s _ = _ := wait_step (by omega) hfull hlock
  refine ⟨s, _, t, hs, hwait, hadd, hback, hvq, ?_⟩
  simp only [virtqueueAddSgs, Ring.add_eq_none_iff.mpr hfew, Bool.false_eq_true, if_false]

end Agl.VirtioVideo.Space
