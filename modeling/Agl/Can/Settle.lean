/-
NAPI comes to rest.

`napi_noLostEvent` says that somebody is going to look at an entry the
driver has not taken. Here they do: once the device is silent, the interrupt
handlers, the poll functions and what is left of them end whatever the order
they run in, and then every entry has been taken, the callbacks are on and
both instances are idle (`napi_settles`).

Every step but the device's lowers a rank (`Chan.rank`). A poll that uses up
its quota has taken an entry; the RX poll function counts a bus-off
indication too, so there a quota of at least 2 is what makes it take one.
-/
import Mathlib.Algebra.GroupWithZero.Nat
import Agl.Lib.Progress
import Agl.Can.Napi

namespace Agl.VirtioCan

/-! ## The rank -/

/-- What is ahead of the running poll function. -/
def PollPc.rank (used lastUsed : Nat) : PollPc → Nat
  | .idle => 0
  | .disable => 1
  -- entries that came after the last look make it ask for another poll
  | .complete prepared => if used = prepared then 5 else 35
  | .prepare => if used = lastUsed then 6 else 36
  | .loop quota work => if work < quota then 7 else 11
  | .indicate quota => if 1 < quota then 8 else 12
  | .busoff quota => if 1 < quota then 9 else 13

/-- What is ahead of a remainder. -/
def Tail.rank (used : Nat) : Tail → Nat
  | .check prepared => if used = prepared then 1 else 30
  | .prep => 28
  | .disable => 25
  | .schedule => 23

def EvindPc.rank : EvindPc → Nat
  | .idle => 0
  | .test => 40
  | .mark => 35
  | .schedule => 30

namespace Chan

def rank (c : Chan) : Nat :=
  10 * (c.used - c.lastUsed) + 35 * c.look.toNat + 30 * c.irq.toNat + 25 * c.intr + 20 * c.missed.toNat +
    10 * c.listed.toNat + c.poll.rank c.used c.lastUsed + (c.tails.map (Tail.rank c.used)).sum

/-- The steps of the handlers and the softirqs, with budgets over `least`. -/
def Act.internal (least : Nat) : Act → Bool
  | .post | .spurious => false
  | .begin quota => least < quota
  | .look | .intr | .schedule | .poll | .tail _ => true

theorem sum_rank_erase (used : Nat) {l : List Tail} {t : Tail} (ht : t ∈ l) :
    (l.map (Tail.rank used)).sum = t.rank used + ((l.erase t).map (Tail.rank used)).sum := by
  rw [((List.perm_cons_erase ht).map _).sum_nat, List.map_cons, List.sum_cons]

variable {c c' : Chan}

theorem pollStep_rank (hi : Inv c) (hs : c.pollStep = some c') : c'.rank < c.rank := by
  have hle := hi.taken
  unfold pollStep at hs
  split at hs
  · cases hs
  · cases hs
  · cases hs
  · next quota work hp =>
    split at hs
    · next hw =>
      split at hs
      · cases hs
        simp only [rank, hp, PollPc.rank, hw, if_true]
        split <;> omega
      · cases hs
        have hall : c.used = c.lastUsed := by omega
        simp only [rank, hp, PollPc.rank, hw, hall, if_true]
        omega
    · next hw =>
      cases hs
      simp only [rank, hp, PollPc.rank, hw, if_false, Bool.toNat_true]
      omega
  · next hp =>
    cases hs
    simp only [rank, hp, PollPc.rank]
    split <;> omega
  · next n hp =>
    unfold completeDone at hs
    cases hm : c.missed
    · simp only [hm, Bool.false_eq_true, ↓reduceIte, Option.some.injEq] at hs
      subst hs
      simp only [rank, hp, hm, PollPc.rank, List.map_cons, List.sum_cons, Tail.rank]
      split <;> omega
    · simp only [hm, ↓reduceIte, Option.some.injEq] at hs
      subst hs
      have hl : c.listed.toNat ≤ 1 := Bool.toNat_le _
      simp only [rank, hp, hm, PollPc.rank, Bool.toNat_true, Bool.toNat_false]
      split <;> omega
  · next hp =>
    cases hs
    simp only [rank, hp, PollPc.rank]
    omega

theorem tailStep_rank {t : Tail} (hs : c.tailStep t = some c') : c'.rank < c.rank := by
  have hm : c.missed.toNat ≤ 1 := Bool.toNat_le _
  unfold tailStep at hs
  split at hs
  · next ht =>
    have hsum := sum_rank_erase c.used ht
    cases t with
    | check n =>
      cases hs
      split
      · next hn =>
        simp only [rank, hsum, List.map_cons, List.sum_cons, Tail.rank, hn, if_false]
        omega
      · next hn =>
        obtain rfl := not_not.mp hn
        simp only [rank, hsum, Tail.rank, if_true]
        omega
    | prep =>
      dsimp only [schedulePrep] at hs
      cases hsched : c.sched
      · simp only [hsched, Bool.false_eq_true, ↓reduceIte, Option.some.injEq] at hs
        subst hs
        simp only [rank, hsum, List.map_cons, List.sum_cons, Tail.rank]
        omega
      · simp only [hsched, ↓reduceIte, Option.some.injEq] at hs
        subst hs
        simp only [rank, hsum, Tail.rank, Bool.toNat_true]
        omega
    | disable =>
      cases hs
      simp only [rank, hsum, List.map_cons, List.sum_cons, Tail.rank]
      omega
    | schedule =>
      cases hs
      simp only [rank, hsum, Tail.rank, Bool.toNat_true]
      omega
  · cases hs

theorem napiSchedule_rank (c : Chan) : c.napiSchedule.rank ≤ c.rank + 20 := by
  unfold napiSchedule
  split <;> simp only [rank, Bool.toNat_true] <;> omega

/-- Every step of a handler or a softirq lowers the rank. -/
theorem step_rank (hi : Inv c) {start : Nat → PollPc} {least : Nat}
    (hstart : ∀ quota, least < quota → ∀ used lastUsed, (start quota).rank used lastUsed ≤ 9) {a : Act}
    (ha : a.internal least = true) (hs : c.step start a = some c') : c'.rank < c.rank := by
  cases a with
  | post | spurious => cases ha
  | look =>
    simp only [Chan.step] at hs
    split at hs <;> cases hs
    next hl =>
    have hor : (c.irq || c.cbEnabled).toNat ≤ 1 := Bool.toNat_le _
    simp only [rank, hl, Bool.toNat_true, Bool.toNat_false]
    omega
  | intr =>
    simp only [Chan.step] at hs
    split at hs <;> cases hs
    next hirq =>
    simp only [rank, hirq, Bool.toNat_true, Bool.toNat_false]
    omega
  | schedule =>
    simp only [Chan.step] at hs
    split at hs <;> cases hs
    next hpos =>
    refine Nat.lt_of_le_of_lt (napiSchedule_rank _) ?_
    simp only [rank]
    omega
  | begin quota =>
    simp only [Chan.step] at hs
    split at hs <;> cases hs
    next hb =>
    have hq := hstart quota (of_decide_eq_true ha) c.used c.lastUsed
    have hidle : c.poll.rank c.used c.lastUsed = 0 := by rw [hb.2.1]; rfl
    simp only [rank, hb.1, hidle, Bool.toNat_true, Bool.toNat_false]
    omega
  | poll => exact pollStep_rank hi hs
  | tail t => exact tailStep_rank hs

end Chan

/-! ## Every schedule -/

def NapiState.rank (s : NapiState) : Nat := s.tx.rank + s.rx.rank + s.evind.rank

/-- The device posts nothing, no interrupt comes unasked and the interface is
not started or stopped; the RX poll function gets a budget of at least 2. -/
def Internal (s : NapiState) : NapiAct → Prop
  | .tx a => a.internal 0 = true
  -- a budget of 1 can go to the bus-off indication
  | .rx a => a.internal 1 = true
  | .busoff _ _ => True
  | .evind => s.evind ≠ .idle
  | .start | .stop => False

instance (s : NapiState) (a : NapiAct) : Decidable (Internal s a) :=
  match a with
  | .tx a => inferInstanceAs (Decidable (a.internal 0 = true))
  | .rx a => inferInstanceAs (Decidable (a.internal 1 = true))
  | .busoff _ _ => .isTrue trivial
  | .evind => inferInstanceAs (Decidable (s.evind ≠ .idle))
  | .start | .stop => .isFalse id

/-- Every entry is taken, the next one will be announced, nobody is left. -/
structure Chan.Rests (c : Chan) : Prop where
  taken : c.lastUsed = c.used
  cbEnabled : c.cbEnabled = true
  sched : c.sched = false
  irq : c.irq = false ∧ c.intr = 0
  poll : c.poll = .idle ∧ c.tails = []

def Rests (s : NapiState) : Prop := s.tx.Rests ∧ s.rx.Rests ∧ s.evind = .idle

theorem handleBusoff_rank {s s' : NapiState} {skb taken : Bool} (hs : handleBusoff s skb taken = some s') :
    s'.rank < s.rank := by
  unfold handleBusoff at hs
  split at hs
  · next quota hp =>
    have hloop : (PollPc.loop quota 0).rank s.rx.used s.rx.lastUsed < s.rx.poll.rank s.rx.used s.rx.lastUsed := by
      simp only [hp, PollPc.rank]
      split <;> split <;> omega
    have hind : (PollPc.indicate quota).rank s.rx.used s.rx.lastUsed < s.rx.poll.rank s.rx.used s.rx.lastUsed := by
      simp only [hp, PollPc.rank]
      split <;> omega
    split at hs <;> cases hs <;> simp only [NapiState.rank, Chan.rank] <;> omega
  · next quota hp =>
    have hloop : ∀ work ≤ 1,
        (PollPc.loop quota work).rank s.rx.used s.rx.lastUsed < s.rx.poll.rank s.rx.used s.rx.lastUsed := by
      intro work hw
      simp only [hp, PollPc.rank]
      split <;> split <;> omega
    have h0 := hloop 0 (Nat.zero_le _)
    have h1 := hloop 1 (Nat.le_refl _)
    dsimp only at hs
    split at hs <;> split at hs <;> cases hs <;> simp only [NapiState.rank, Chan.rank] <;> omega
  · cases hs

theorem internal_rank {s s' : NapiState} {a : NapiAct} (hi : NapiInv s) (ha : Internal s a)
    (hs : napiStep s a = some s') : s'.rank < s.rank := by
  cases a with
  | tx a =>
    obtain ⟨c, hc, rfl⟩ := Option.map_eq_some_iff.mp hs
    have hlt := Chan.step_rank hi.1 (fun quota hq _ _ => by simp only [PollPc.rank]; split <;> omega) ha hc
    simp only [NapiState.rank]
    omega
  | rx a =>
    obtain ⟨c, hc, rfl⟩ := Option.map_eq_some_iff.mp hs
    have hlt := Chan.step_rank hi.2 (fun quota hq _ _ => by simp only [PollPc.rank, hq, if_true]; omega) ha hc
    simp only [NapiState.rank]
    omega
  | busoff skb taken => exact handleBusoff_rank hs
  | evind =>
    simp only [napiStep, Option.some.injEq] at hs
    subst hs
    unfold evindStep
    split
    · next he => exact absurd he ha
    · next he => split <;> simp only [NapiState.rank, he, EvindPc.rank] <;> omega
    · next he =>
      simp only [NapiState.rank, he, EvindPc.rank]
      omega
    · next he =>
      have := Chan.napiSchedule_rank s.rx
      simp only [NapiState.rank, he, EvindPc.rank]
      omega
  | start | stop => exact ha.elim

theorem Chan.rests {c : Chan} (hi : Inv c) (start : Nat → PollPc) (least : Nat)
    (hstop : ∀ a : Act, a.internal least = true → c.step start a = none)
    (hbusoff : ∀ quota, c.poll ≠ .busoff quota ∧ c.poll ≠ .indicate quota) : c.Rests := by
  have hlook : c.look = false := by
    have h := hstop .look rfl
    simpa [Chan.step] using h
  have hirq : c.irq = false := by
    have h := hstop .intr rfl
    simpa [Chan.step] using h
  have hintr : c.intr = 0 := by
    have h := hstop .schedule rfl
    simpa [Chan.step] using h
  have hpoll : c.poll = .idle := by
    have h : c.pollStep = none := hstop .poll rfl
    unfold Chan.pollStep at h
    split at h
    · next hp => exact hp
    · next quota hp => exact absurd hp (hbusoff quota).1
    · next quota hp => exact absurd hp (hbusoff quota).2
    · split at h
      · split at h <;> cases h
      · cases h
    · cases h
    · split at h <;> cases h
    · cases h
  have htails : c.tails = [] := by
    rcases htl : c.tails with _ | ⟨t, rest⟩
    · rfl
    · have h : c.tailStep t = none := hstop (.tail t) rfl
      unfold Chan.tailStep at h
      rw [if_pos (htl ▸ List.mem_cons_self)] at h
      cases t with
      | prep =>
        dsimp only [Chan.schedulePrep] at h
        split at h <;> cases h
      | _ => cases h
  have hlisted : c.listed = false := by
    have h := hstop (.begin (least + 1)) (decide_eq_true (Nat.lt_succ_self _))
    simpa [Chan.step, hpoll] using h
  -- nobody holds the instance, so it is not scheduled
  have hsched : c.sched = false := by
    have h := hi.owner
    simp only [Chan.owners, hlisted, hpoll, htails] at h
    cases hs : c.sched
    · rfl
    · rw [hs] at h
      cases h
  refine ⟨?_, ?_, hsched, ⟨hirq, hintr⟩, hpoll, htails⟩
  · refine Nat.le_antisymm hi.taken (Nat.le_of_not_lt fun hlt => ?_)
    have h := hi.event hlt
    simp [hsched, hirq, hintr, hlook, htails] at h
  · cases hc : c.cbEnabled
    · have h := hi.off hc
      simp [hsched, hintr] at h
    · rfl

/-- No step is left but those of the device and of the interface. -/
theorem rests {s : NapiState} (hi : NapiInv s) (hplain : s.tx.poll.plain = true)
    (hstop : ∀ a s', Internal s a → napiStep s a ≠ some s') : Rests s := by
  have hbusoff : ∀ quota, s.rx.poll ≠ .busoff quota ∧ s.rx.poll ≠ .indicate quota := by
    have h : handleBusoff s true true = none :=
      Option.eq_none_iff_forall_ne_some.mpr fun s' => hstop (.busoff true true) s' trivial
    refine fun quota => ⟨fun hp => ?_, fun hp => ?_⟩
    · simp only [handleBusoff, hp] at h
      split at h <;> cases h
    · simp only [handleBusoff, hp] at h
      cases h
  refine ⟨Chan.rests hi.1 (.loop · 0) 0 (fun a ha => ?_) fun quota => ⟨fun hp => ?_, fun hp => ?_⟩,
    Chan.rests hi.2 .busoff 1 (fun a ha => ?_) hbusoff, ?_⟩
  · refine Option.eq_none_iff_forall_ne_some.mpr fun c hc => hstop (.tx a) { s with tx := c } ha ?_
    simp only [napiStep, hc, Option.map_some]
  · rw [hp] at hplain
    cases hplain
  · rw [hp] at hplain
    cases hplain
  · refine Option.eq_none_iff_forall_ne_some.mpr fun c hc => hstop (.rx a) { s with rx := c } ha ?_
    simp only [napiStep, hc, Option.map_some]
  · exact Classical.byContradiction fun he => hstop .evind _ he rfl

theorem plain_inductive : napiMachine.Inductive (fun _ _ => True) fun s => s.tx.poll.plain = true where
  init s hs := by
    obtain ⟨htx, -, -⟩ := hs
    rw [htx]
    rfl
  step s a s' h _ hs := by
    cases a with
    | tx a =>
      obtain ⟨c, hc, rfl⟩ := Option.map_eq_some_iff.mp hs
      exact Chan.step_plain h hc
    | rx a =>
      obtain ⟨c, hc, rfl⟩ := Option.map_eq_some_iff.mp hs
      exact h
    | busoff skb taken =>
      simp only [napiMachine, napiStep, handleBusoff] at hs
      split at hs
      · split at hs <;> cases hs <;> exact h
      · split at hs <;> split at hs <;> cases hs <;> exact h
      · cases hs
    | evind =>
      simp only [napiMachine, napiStep, Option.some.injEq] at hs
      subst hs
      unfold evindStep
      split
      · exact h
      · split <;> exact h
      · exact h
      · exact h
    | start | stop =>
      cases hs
      exact h

/-- **NAPI comes to rest.** From every reachable state, once the device puts
nothing more into the rings and the RX poll function gets budgets of at least
2, the interrupt handlers, the poll functions and what is left of them end in
whatever order they run; then the driver has taken every entry of both used
rings, the callbacks are enabled and nothing is scheduled. -/
theorem napi_settles {s : NapiState} (h : napiMachine.Reachable s) : napiMachine.Settles Internal Rests s :=
  Machine.settles_of_rank NapiState.rank
    (fun _ _ _ hr ha hs => ⟨.step hr trivial hs, internal_rank (napiInv_inductive.reach hr) ha hs⟩)
    (fun _ hr => rests (napiInv_inductive.reach hr) (plain_inductive.reach hr)) h

/-- A poll function has given the TX queue up with an entry not yet taken,
and a bus-off is about to be indicated. -/
theorem napi_settles_lateEntry : ∃ s : NapiState, s.tx.lastUsed < s.tx.used ∧ s.tx.sched = false ∧
    s.evind = .mark ∧ napiMachine.Settles Internal Rests s := by
  obtain ⟨s, hs, hu, hsched, hev⟩ := Machine.exists_reach (fun _ _ => True)
    (show napiMachine.init ⟨.enabled, .enabled, false, .errorActive, .idle⟩ from ⟨rfl, rfl, rfl⟩)
    (lateEntry ++ [.evind, .evind])
    (fun s => s.tx.lastUsed < s.tx.used ∧ s.tx.sched = false ∧ s.evind = .mark) (by decide +kernel)
  exact ⟨s, hu, hsched, hev, napi_settles hs⟩

end Agl.VirtioCan
