/-
Who owns an skb given to `virtio_can_start_xmit`.

The driver hands the skb to an echo slot before the ring takes the message,
and leaves it there when the ring refuses; and it returns `NETDEV_TX_OK`
without freeing the skb when there is no memory for the message. Where
neither happens (`CleanXmit`), an skb answered with `NETDEV_TX_OK` is freed
or sits in the echo slot of one message in flight, and one answered with
`NETDEV_TX_BUSY` is the stack's alone (`skbOwnership`).
-/
import Agl.Can.TxFacts

namespace Agl.VirtioCan

/-- The skb of the call in progress. -/
def XmitPc.skb : XmitPc → Option Skb
  | .idle => none
  | .entry skb | .test1 skb _ | .stopBusy skb | .test2 skb _ | .stopNormal skb _ | .lock1 skb _ | .alloc skb _
  | .link skb _ | .echo skb _ | .lock2 skb _ | .add skb _ | .stopFail skb | .kick skb _ => some skb

/-- The skb of the call in progress, once the driver has taken it over. -/
def XmitPc.taken : XmitPc → Option Skb
  | .lock2 skb _ | .add skb _ | .kick skb .ok => some skb
  | _ => none

theorem XmitPc.skb_of_taken {pc : XmitPc} {skb : Skb} (h : pc.taken = some skb) : pc.skb = some skb := by
  cases pc with
  | lock2 _ _ | add _ _ => exact h
  | kick _ ret =>
    cases ret with
    | ok => exact h
    | busy => cases h
  | _ => cases h

/-- The driver has neither freed the skb nor kept it. -/
def State.untouched (s : State) (skb : Skb) : Prop := skb ∉ s.gone ∧ ∀ i, s.echoSkb i ≠ some skb

/-- The skb is freed or looped back, and no echo slot refers to it. -/
def State.freed (s : State) (skb : Skb) : Prop := skb ∈ s.gone ∧ ∀ i, s.echoSkb i ≠ some skb

/-- What the calls that have returned left behind, and the echo slots. -/
structure SkbOwnership (s : State) : Prop where
  /-- `NETDEV_TX_OK`: freed, or in exactly one slot, that of a message in flight. -/
  ok : ∀ skb, (skb, .ok) ∈ s.returned → s.freed skb ∨
    (skb ∉ s.gone ∧ ∃ m ∈ s.txList, ∀ i, s.echoSkb i = some skb ↔ i = m.putidx)
  /-- `NETDEV_TX_BUSY`: the stack's, until it submits the skb again. -/
  busy : ∀ skb, (skb, .busy) ∈ s.returned → (skb, .ok) ∉ s.returned → s.xmit.skb ≠ some skb → s.untouched skb
  slot : ∀ i skb, s.echoSkb i = some skb → i ∈ s.inFlight
  /-- `can_put_echo_skb` is about to be called. -/
  put : ∀ skb m, s.xmit = .echo skb m → s.echoSkb m.putidx = none

/-- In `virtio_can_start_xmit` every allocation succeeds and the ring takes
every message; the device is suspended with every echo slot empty. -/
def CleanXmit (s : State) : Act → Prop
  | .xmitKzalloc ok | .xmitAdd ok => ok = true
  | .freeze => s.echoed = []
  | _ => True

instance (s : State) (a : Act) : Decidable (CleanXmit s a) := by
  cases a <;> unfold CleanXmit <;> infer_instance

/-! ## The invariant -/

/-- The skb is the driver's: returned with `NETDEV_TX_OK`, or about to be. -/
def State.delivered (s : State) (skb : Skb) : Prop := (skb, .ok) ∈ s.returned ∨ s.xmit.taken = some skb

structure SkbInv (s : State) : Prop where
  slot : ∀ i skb, s.echoSkb i = some skb → i ∈ s.inFlight
  put : ∀ skb m, s.xmit = .echo skb m → s.echoSkb m.putidx = none
  emptied : ∀ m, s.read = .unlink m → s.echoSkb m.putidx = none
  inj : ∀ i j skb, s.echoSkb i = some skb → s.echoSkb j = some skb → i = j
  cur : ∀ skb, s.xmit.skb = some skb → (skb, .ok) ∉ s.returned
  done : ∀ skb, s.delivered skb → s.freed skb ∨ (skb ∉ s.gone ∧ ∃ i, s.echoSkb i = some skb)
  rest : ∀ skb, ¬ s.delivered skb → s.untouched skb

/-- An index that is held is not in flight. -/
theorem Inv.not_inFlight_of_held {lost : List Int} {s : State} (h : Inv lost s) {i} (hi : i ∈ s.held) :
    i ∉ s.inFlight := by
  have hnd := (List.nodup_append.mp h.nodup).1
  intro hj
  exact (List.nodup_append.mp hnd).2.2 i (by simp [hj]) i hi rfl

/-- The message being queued and the one being completed have two indices. -/
theorem Inv.linked_ne_popped {lost : List Int} {s : State} (h : Inv lost s) {m n} (hm : m ∈ s.xmit.linked)
    (hn : n ∈ s.read.popped) : m.putidx ≠ n.putidx := by
  have hnd : s.inFlight.Nodup := by
    have := (List.nodup_append.mp (List.nodup_append.mp h.nodup).1).1
    exact (List.nodup_append.mp this).2.1
  have hp : s.inFlight.Perm ((s.ring ++ s.xmit.linked ++ s.read.popped).map (·.putidx)) := h.ring.map _
  rw [hp.nodup_iff, List.map_append] at hnd
  exact (List.nodup_append.mp hnd).2.2 _ (List.mem_map_of_mem (by simp [hm])) _ (List.mem_map_of_mem hn)

/-! ## One step -/

theorem takeEchoSkb_self (s : State) (i : Int) : (takeEchoSkb s i).echoSkb i = none := by
  unfold takeEchoSkb
  split
  · next h => exact h
  · exact Function.update_self ..

namespace SkbInv

variable {s : State}

/-- The skb of a call that has not handed it over is the stack's. -/
theorem untouched_cur (h : SkbInv s) (skb) (hx : s.xmit.skb = some skb) (ht : s.xmit.taken = none) :
    s.untouched skb :=
  h.rest skb fun hd => hd.elim (h.cur skb hx) fun hs => by cases ht.symm.trans hs

/-- Emptying a slot frees its skb. -/
theorem take (h : SkbInv s) (i : Int) : SkbInv (takeEchoSkb s i) := by
  unfold takeEchoSkb
  split
  · exact h
  next skb hi =>
  have hsub : ∀ {j skb'}, Function.update s.echoSkb i none j = some skb' → j ≠ i ∧ s.echoSkb j = some skb' := by
    intro j skb' hj
    by_cases hji : j = i
    · simp [hji] at hj
    · exact ⟨hji, by simpa [hji] using hj⟩
  refine { h with
    slot := fun j skb' hj => h.slot j skb' (hsub hj).2
    put := fun skb' m hx => ?_
    emptied := fun m hr => ?_
    inj := fun j k skb' hj hk => h.inj j k skb' (hsub hj).2 (hsub hk).2
    done := fun skb' hd => ?_
    rest := fun skb' hd => ?_ }
  · by_cases hji : m.putidx = i <;> simp [hji, h.put skb' m hx]
  · by_cases hji : m.putidx = i <;> simp [hji, h.emptied m hr]
  · rcases h.done skb' hd with ⟨hg, hn⟩ | ⟨hg, j, hj⟩
    · exact .inl ⟨List.mem_cons_of_mem _ hg, fun j hj => hn j (hsub hj).2⟩
    · by_cases hji : j = i
      · subst hji
        obtain rfl : skb = skb' := by simpa [hi] using hj
        exact .inl ⟨List.mem_cons_self, fun k hk => (hsub hk).1 (h.inj k j skb (hsub hk).2 hi)⟩
      · refine .inr ⟨?_, j, by simpa [hji] using hj⟩
        have hne : skb' ≠ skb := fun he => hji (h.inj j i skb' hj (he ▸ hi))
        simpa [hne] using hg
  · obtain ⟨hg, hn⟩ := h.rest skb' hd
    have hne : skb' ≠ skb := fun he => hn i (he ▸ hi)
    exact ⟨by simpa [hne] using hg, fun j hj => hn j (hsub hj).2⟩

theorem mem_echoed (h : SkbInv s) {lost : List Int} (hi : Inv lost s) {skb} :
    skb ∈ s.echoed ↔ ∃ i, s.echoSkb i = some skb := by
  simp only [Priv.echoed, List.mem_filterMap]
  constructor
  · intro h
    obtain ⟨i, -, hs⟩ := h
    exact ⟨i, hs⟩
  · intro hex
    obtain ⟨i, hs⟩ := hex
    exact ⟨i, hi.allIdx_of_inFlight (h.slot i skb hs), hs⟩

/-- Flushing the slots frees every skb in one. -/
theorem flush (h : SkbInv s) {lost : List Int} (hi : Inv lost s) : SkbInv (closeCandev s) := by
  refine { h with
    slot := fun _ _ hp => by cases hp
    put := fun _ _ _ => rfl
    emptied := fun _ _ => rfl
    inj := fun _ _ _ hp => by cases hp
    done := fun skb hd => ?_
    rest := fun skb hd => ?_ }
  · refine .inl ⟨?_, fun _ he => by cases he⟩
    rcases h.done skb hd with ⟨hg, -⟩ | ⟨-, hs⟩
    · exact List.mem_append_right _ hg
    · exact List.mem_append_left _ ((h.mem_echoed hi).mpr hs)
  · obtain ⟨hg, hn⟩ := h.rest skb hd
    refine ⟨fun hm => ?_, fun _ he => by cases he⟩
    rcases List.mem_append.mp hm with hm | hm
    · obtain ⟨i, hs⟩ := (h.mem_echoed hi).mp hm
      exact hn i hs
    · exact hg hm

/-- `can_put_echo_skb` on the empty slot of a linked message. -/
theorem echo (h : SkbInv s) {lost : List Int} (hi : Inv lost s) {skb m} (hx : s.xmit = .echo skb m) :
    SkbInv { canPutEchoSkb s skb m.putidx with xmit := .lock2 skb m } := by
  obtain ⟨hgone, hslot⟩ := h.untouched_cur skb (by rw [hx]; rfl) (by rw [hx]; rfl)
  have hm := hi.mem_of_linked (m := m) (by rw [hx]; simp [XmitPc.linked])
  have hput := h.put skb m hx
  have hdel : ∀ skb', s.delivered skb' → (skb', TxRet.ok) ∈ s.returned := by
    intro skb' hd
    rcases hd with hd | hd
    · exact hd
    · simp [hx, XmitPc.taken] at hd
  simp only [canPutEchoSkb, hput]
  refine { h with
    slot := fun j skb' hj => ?_
    put := fun _ _ hp => by cases hp
    emptied := fun n hr => ?_
    inj := fun j k skb' hj hk => ?_
    cur := fun skb' hc => h.cur skb' (by rw [hx]; exact hc)
    done := fun skb' hd => ?_
    rest := fun skb' hd => ?_ }
  · by_cases hjm : j = m.putidx
    · exact List.mem_map.mpr ⟨m, hm, hjm.symm⟩
    · exact h.slot j skb' (by simpa [hjm] using hj)
  · have hne := hi.linked_ne_popped (m := m) (n := n)
      (by rw [hx]; simp [XmitPc.linked]) (by rw [hr]; simp [ReadPc.popped])
    simpa [hne.symm] using h.emptied n hr
  · by_cases hjm : j = m.putidx <;> by_cases hkm : k = m.putidx
    · rw [hjm, hkm]
    · have hs : skb = skb' := by simpa [hjm] using hj
      exact absurd (by simpa [hkm, hs] using hk) (hslot k)
    · have hs : skb = skb' := by simpa [hkm] using hk
      exact absurd (by simpa [hjm, hs] using hj) (hslot j)
    · exact h.inj j k skb' (by simpa [hjm] using hj) (by simpa [hkm] using hk)
  · rcases hd with hd | hd
    · have hne : skb ≠ skb' := fun he => h.cur skb (by rw [hx]; rfl) (he ▸ hd)
      rcases h.done skb' (.inl hd) with ⟨hg, hn⟩ | ⟨hg, j, hj⟩
      · refine .inl ⟨hg, fun j => ?_⟩
        by_cases hjm : j = m.putidx <;> simp [hjm, hne, hn j]
      · refine .inr ⟨hg, j, ?_⟩
        have hjm : j ≠ m.putidx := fun he => by simp [he, hput] at hj
        simpa [hjm] using hj
    · obtain rfl : skb = skb' := by simpa [XmitPc.taken] using hd
      exact .inr ⟨hgone, m.putidx, by simp⟩
  · have hne : skb ≠ skb' := fun he => hd (.inr (he ▸ rfl))
    obtain ⟨hg, hn⟩ := h.rest skb' fun hd' => hd (.inl (hdel skb' hd'))
    refine ⟨hg, fun j => ?_⟩
    by_cases hjm : j = m.putidx <;> simp [hjm, hne, hn j]

/-- A frame that is dropped is freed and counts as sent. -/
theorem drop (h : SkbInv s) {skb} (hx : s.xmit = .entry skb) :
    SkbInv { s with gone := skb :: s.gone, xmit := .kick skb .ok } := by
  have hu := h.untouched_cur skb (by rw [hx]; rfl) (by rw [hx]; rfl)
  have hdel : ∀ skb', s.delivered skb' ↔ (skb', TxRet.ok) ∈ s.returned := fun skb' => by
    simp [State.delivered, hx, XmitPc.taken]
  refine { h with
    put := fun _ _ hp => by cases hp
    cur := fun skb' hc => h.cur skb' (by rw [hx]; exact hc)
    done := fun skb' hd => ?_
    rest := fun skb' hd => ?_ }
  · rcases hd with hd | hd
    · rcases h.done skb' (.inl hd) with ⟨hg, hn⟩ | ⟨hg, j, hj⟩
      · exact .inl ⟨List.mem_cons_of_mem _ hg, hn⟩
      · have hne : skb' ≠ skb := fun he => hu.2 j (he ▸ hj)
        exact .inr ⟨by simpa [hne] using hg, j, hj⟩
    · obtain rfl : skb = skb' := by simpa [XmitPc.taken] using hd
      exact .inl ⟨List.mem_cons_self, hu.2⟩
  · have hne : skb ≠ skb' := fun he => hd (.inr (he ▸ rfl))
    obtain ⟨hg, hn⟩ := h.rest skb' fun hd' => hd (.inl ((hdel skb').mp hd'))
    exact ⟨by simpa [hne.symm] using hg, hn⟩

/-- The slot of a message that is linked is empty. -/
theorem link (h : SkbInv s) {lost : List Int} (hi : Inv lost s) {skb m} (hx : s.xmit = .link skb m) :
    SkbInv { s with txList := s.txList ++ [m], txLock := none, xmit := .echo skb m } := by
  have hm : m.putidx ∉ s.inFlight :=
    hi.not_inFlight_of_held (i := m.putidx) (by rw [State.held, hx]; simp [XmitPc.msgs])
  have hdel : ∀ skb', XmitPc.taken (.echo skb m) = some skb' ↔ s.xmit.taken = some skb' := fun skb' => by
    rw [hx]
    rfl
  refine { h with
    slot := fun i skb' hs => ?_
    put := fun _ _ hp => ?_
    cur := fun skb' hc => h.cur skb' (by rw [hx]; exact hc)
    done := fun skb' hd => h.done skb' (hd.imp_right (hdel skb').mp)
    rest := fun skb' hd => h.rest skb' fun hd' => hd (hd'.imp_right (hdel skb').mpr) }
  · have := h.slot i skb' hs
    simp only [State.inFlight, List.map_append] at this ⊢
    exact List.mem_append_left _ this
  · cases hp
    cases he : s.echoSkb m.putidx with
    | none => rfl
    | some skb' => exact absurd (h.slot _ _ he) hm

/-- `virtio_can_start_xmit` returns. -/
theorem kick (h : SkbInv s) {skb ret} (hx : s.xmit = .kick skb ret) :
    SkbInv { s with xmit := .idle, returned := (skb, ret) :: s.returned } := by
  have hdel : ∀ skb', (skb', TxRet.ok) ∈ (skb, ret) :: s.returned ∨ XmitPc.idle.taken = some skb' ↔
      s.delivered skb' := fun skb' => by
    cases ret <;> simp [State.delivered, hx, XmitPc.taken, eq_comm, or_comm]
  exact { h with
    put := fun _ _ hp => by cases hp
    cur := fun _ hp => by cases hp
    done := fun skb' hd => h.done skb' ((hdel skb').mp hd)
    rest := fun skb' hd => h.rest skb' fun hd' => hd ((hdel skb').mpr hd') }

/-- The message that is unlinked has an empty slot. -/
theorem unlink (h : SkbInv s) {lost : List Int} (hi : Inv lost s) {m} (hr : s.read = .unlink m) :
    SkbInv { s with txList := s.txList.erase m, read := .freeIdx m } := by
  have hempty := h.emptied m hr
  have hm := hi.mem_of_popped (m := m) (by rw [hr]; simp [ReadPc.popped])
  have he := Inv.inFlight_erase s.txList hm
  refine { h with
    slot := fun i skb hs => ?_
    emptied := fun _ hp => by cases hp }
  have hne : i ≠ m.putidx := by
    rintro rfl
    cases hempty.symm.trans hs
  exact (List.mem_cons.mp (he.subset (h.slot i skb hs))).resolve_left hne

/-- No step with every allocation and every ring insertion successful
breaks the invariant. -/
theorem step {s' : State} {a : Act} {lost lost' : List Int} (h : SkbInv s) (hi : Inv lost s) (hi' : Inv lost' s')
    (hs : Step s a s') (hc : CleanXmit s a) : SkbInv s' := by
  obtain ⟨p, lock, av, us, xm, rd, ad, rs, sus, kz, gone, ret, bug⟩ := s
  cases hs with
  | call hx hr =>
    rename_i skb
    dsimp only at hx hr
    subst hx
    exact { h with
      put := fun _ _ hp => by cases hp
      cur := fun _ hp => by
        cases hp
        exact hr }
  | drop hx => exact h.drop hx
  | noMem => cases hc
  | kzalloc hx | stopBusy hx | full1 hx _ | room1 hx _ | room2 hx _ | full2 hx _ | stopNormal hx | stopFail hx
  | lock1 hx _ =>
    dsimp only at hx
    subst hx
    exact { h with put := fun _ _ hp => by cases hp }
  | allocBug | echoBug | undoBug | rdFreeBug => cases hi'.bug
  | alloc hx ha =>
    obtain ⟨idx, rest, -, ha'⟩ := hi.alloc_ok hx
    cases ha'.symm.trans ha
    dsimp only at hx
    subst hx
    exact { h with put := fun _ _ hp => by cases hp }
  | link hx => exact h.link hi hx
  | echo hx _ => exact h.echo hi hx
  | lock2 hx _ | add hx =>
    dsimp only at hx
    subst hx
    exact { h with put := fun _ _ hp => by cases hp }
  | undo => cases hc
  | kick hx => exact h.kick hx
  | rdEcho hr =>
    rename_i m
    have ht := h.take m.putidx
    obtain ⟨e, g, he⟩ := takeEchoSkb_frame ⟨p, lock, av, us, xm, rd, ad, rs, sus, kz, gone, ret, bug⟩ m.putidx
    have hnone := takeEchoSkb_self ⟨p, lock, av, us, xm, rd, ad, rs, sus, kz, gone, ret, bug⟩ m.putidx
    rw [he] at ht hnone ⊢
    exact { ht with
      emptied := fun _ hp => by
        cases hp
        exact hnone }
  | rdUnlink hr => exact h.unlink hi hr
  | rdFree hr hp =>
    cases (hi.free_ok hr).symm.trans hp
    exact { h with emptied := fun _ hp => by cases hp }
  | rdTest hr =>
    cases hq : p.queueStopped <;> exact { h with emptied := fun _ hp => by cases hp }
  | rdNone | rdGet | rdLock | rdWake => exact { h with emptied := fun _ hp => by cases hp }
  | complete | openStart | openQueue | closeStop | closeCtrl | restart | restartWake => exact { h with }
  | closeFlush =>
    exact { h.flush hi with }
  | busOff =>
    unfold VirtioCan.busOff
    split <;> exact { h with }
  | freeze hf =>
    obtain ⟨hx, hr, -, -, q, rfl⟩ := freeze_cases hf
    have hnil : p.echoed = [] := hc
    exact { h with slot := fun i skb hs => by simpa [hnil] using (h.mem_echoed hi).mpr ⟨i, hs⟩ }
  | restore hr _ =>
    rcases restore_cases hr with ⟨-, rfl⟩ | ⟨-, q, -, rfl⟩
    · exact h
    · exact { h with }

end SkbInv

/-! ## Reached states -/

theorem probe_skbInv (numFree : Nat) (indirect : Bool) : SkbInv (probe numFree indirect) where
  slot := fun _ _ hp => by cases hp
  put := fun _ _ hp => by cases hp
  emptied := fun _ hp => by cases hp
  inj := fun _ _ _ hp => by cases hp
  cur := fun _ hp => by cases hp
  done := by simp [State.delivered, probe, XmitPc.taken]
  rest := fun _ _ => ⟨by simp [probe], fun _ he => by cases he⟩

theorem skbInv_inductive : machine.Inductive CleanXmit fun s => (∃ lost, Inv lost s) ∧ SkbInv s :=
  (lost_inductive.mono fun _ _ _ => trivial).and
    (fun s hs => by
      obtain ⟨n, i, rfl⟩ := hs
      exact probe_skbInv n i)
    (fun s a s' hi hi' h ha hs => by
      obtain ⟨lost, hi⟩ := hi
      obtain ⟨lost', hi'⟩ := hi'
      exact h.step hi hi' (step_cases hs).1 ha)

theorem SkbInv.ownership {s : State} (h : SkbInv s) : SkbOwnership s where
  ok skb hr := by
    refine (h.done skb (.inl hr)).imp_right fun hkept => ?_
    obtain ⟨hg, i, hi⟩ := hkept
    obtain ⟨m, hm, rfl⟩ := List.mem_map.mp (h.slot i skb hi)
    exact ⟨hg, m, hm, fun j => ⟨fun hj => h.inj j _ skb hj hi, fun hj => hj ▸ hi⟩⟩
  busy skb _ hok hx := by
    exact h.rest skb fun hd => hd.elim hok fun ht => hx (XmitPc.skb_of_taken ht)
  slot := h.slot
  put := h.put

/-- **Ownership of an skb.** In every run in which `virtio_can_start_xmit`
gets its memory, the ring takes its messages and no suspend finds an echo
slot occupied: an skb answered with
`NETDEV_TX_OK` is freed, or in exactly one echo slot, that of a message in
flight; one answered with `NETDEV_TX_BUSY` is untouched; an occupied slot is
the slot of a message in flight; `can_put_echo_skb` finds its slot empty. -/
theorem skbOwnership {s : State} (h : machine.Reach CleanXmit s) : SkbOwnership s :=
  (skbInv_inductive.reach h).2.ownership

theorem skbOwnership_openAndSend : ∃ s, (7, .ok) ∈ s.returned ∧ s.echoSkb 0 = some 7 ∧ SkbOwnership s := by
  obtain ⟨s, hs, hr, he⟩ := Machine.exists_reach CleanXmit (probe_init 4 true) (openAndSend 7)
    (fun s => (7, .ok) ∈ s.returned ∧ s.echoSkb 0 = some 7) (by decide +kernel)
  exact ⟨s, hr, he, skbOwnership hs⟩

/-- The same frame, with the ring refusing the message. -/
def sendRefused (skb : Skb) : List Act :=
  [.admin, .admin, .xmitCall skb, .xmitKzalloc true] ++ List.replicate 7 .xmit ++ [.xmitAdd false, .xmit, .xmit]

/-- The refused skb goes back to the stack with `NETDEV_TX_BUSY` and stays
in an echo slot whose index is free. -/
theorem sendRefused_not_ownership : ∃ s, machine.Reachable s ∧ ¬ SkbOwnership s := by
  obtain ⟨s, hs, he, hi⟩ := Machine.exists_reach (fun _ _ => True) (probe_init 4 true) (sendRefused 7)
    (fun s => s.echoSkb 0 = some 7 ∧ 0 ∉ s.inFlight) (by decide +kernel)
  exact ⟨s, hs, fun h => hi (h.slot 0 7 he)⟩

end Agl.VirtioCan
