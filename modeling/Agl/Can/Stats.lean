/-
The transmit statistics of the interface (`dev->stats`).

`virtio_can_read_tx_queue` counts a completed message in `tx_packets` and
the bytes of its echo in `tx_bytes`, unless the controller is off the bus;
`tx_dropped` counts the frames `virtio_can_start_xmit` drops at its entry
and, in can-dev, those `can_flush_echo_skb` finds in the echo slots on
close. So an skb taken over is counted in one of the two or waits in an
echo slot (`Accounted`), as long as the driver has memory for the message,
the ring takes it, and a completion finds its echo slot occupied exactly
while the controller is on the bus (`Counted`). Any other such step breaks
the books (`packets_accounted`).

As in `canPutEchoSkb`, every frame is one the stack wants looped back. The
flush of `can_restart` is left out: a completion of what it drops would find
its slot empty.
-/
import Mathlib.Algebra.GroupWithZero.Nat
import Agl.Can.Echo

namespace Agl.VirtioCan

/-! ## The counters -/

/-- The transmit counters of `struct net_device_stats`, with the skbs
counted in each. -/
structure Stats where
  txPackets : Nat
  txBytes : Nat
  txDropped : Nat
  /-- looped back to the stack -/
  sent : List Skb
  dropped : List Skb
  deriving DecidableEq, Repr

def Stats.zero : Stats := ⟨0, 0, 0, [], []⟩

section

variable (len : Skb → Nat)

/-- What a step adds; `len` is the length of a frame. `can_get_echo_skb` on
an empty slot gives no bytes, and the message is counted all the same. -/
def Stats.note (s : State) (a : Act) (g : Stats) : Stats :=
  match a with
  | .xmitDrop =>
    match s.xmit with
    | .entry skb => { g with txDropped := g.txDropped + 1, dropped := skb :: g.dropped }
    | _ => g
  | .read =>
    match s.read with
    | .echo m =>
      if s.canState.val < CanState.busOff.val then
        let looped := (s.echoSkb m.putidx).toList
        { g with
          txBytes := g.txBytes + (looped.map len).sum, txPackets := g.txPackets + 1, sent := looped ++ g.sent }
      else g
    | _ => g
  | .admin =>
    match s.admin with
    | .flushing => { g with txDropped := g.txDropped + s.echoed.length, dropped := s.echoed ++ g.dropped }
    | _ => g
  | _ => g

/-- The transmit machine with its counters. -/
def statsMachine : Machine (State × Stats) Act := machine.watched .zero (Stats.note len)

/-- The skbs the driver has taken over from the stack. -/
def State.offered (s : State) : List Skb :=
  s.xmit.taken.toList ++ (s.returned.filter fun r => r.2 = .ok).map (·.1)

/-- Every skb taken over is sent, dropped or in an echo slot, and the
counters are those of the skbs counted. -/
structure Accounted (w : State × Stats) : Prop where
  frames : w.1.offered.Perm (w.2.sent ++ w.2.dropped ++ w.1.echoed)
  packets : w.2.txPackets = w.2.sent.length
  bytes : w.2.txBytes = (w.2.sent.map len).sum
  drops : w.2.txDropped = w.2.dropped.length

end

/-- The memory is there, the ring takes the message, and a completion finds
an skb in its slot exactly while the controller is on the bus. -/
def Counted (s : State) (a : Act) : Prop :=
  match a with
  | .xmitKzalloc ok | .xmitAdd ok => ok = true
  | .read =>
    match s.read with
    | .echo m => (s.echoSkb m.putidx).isSome ↔ s.canState.val < CanState.busOff.val
    | _ => True
  | _ => True

instance (s : State) (a : Act) : Decidable (Counted s a) :=
  match a with
  | .xmitKzalloc ok | .xmitAdd ok => inferInstanceAs (Decidable (ok = true))
  | .read =>
    match h : s.read with
    | .echo m => decidable_of_iff ((s.echoSkb m.putidx).isSome ↔ s.canState.val < CanState.busOff.val)
        (by simp only [Counted, h])
    | .idle | .get | .unlink _ | .freeIdx _ | .test | .wake => .isTrue (by simp only [Counted, h])
  | .xmitCall _ | .xmitDrop | .xmit | .complete _ | .admin | .restart | .busOff | .freeze | .restore _ =>
    inferInstanceAs (Decidable True)

/-! ## The slots as a list -/

theorem filterMap_update_of_notMem {f : Int → Option Skb} {i : Int} {l : List Int} (h : i ∉ l) (v : Option Skb) :
    l.filterMap (Function.update f i v) = l.filterMap f := by
  refine List.filterMap_congr fun j hj => ?_
  have hne : j ≠ i := fun he => h (he ▸ hj)
  exact Function.update_of_ne hne v f

/-- Emptying one slot takes its skb out of the list. -/
theorem filterMap_update_none {f : Int → Option Skb} {i : Int} {skb : Skb} {l : List Int} (hl : l.Nodup) (hi : i ∈ l)
    (hf : f i = some skb) : (l.filterMap f).Perm (skb :: l.filterMap (Function.update f i none)) := by
  have hp := List.perm_cons_erase hi
  have hn : i ∉ l.erase i := fun hm => (hl.mem_erase_iff.mp hm).1 rfl
  have h1 : (l.filterMap f).Perm (skb :: (l.erase i).filterMap f) := by simpa [hf] using hp.filterMap f
  have h2 : (l.filterMap (Function.update f i none)).Perm ((l.erase i).filterMap f) := by
    have := hp.filterMap (Function.update f i none)
    rwa [List.filterMap_cons_none (Function.update_self ..), filterMap_update_of_notMem hn] at this
  exact h1.trans (h2.symm.cons skb)

theorem echoed_take {s : State} {i : Int} {skb : Skb} (hi : i ∈ allIdx s.echoSkbMax) (h : s.echoSkb i = some skb) :
    s.echoed.Perm (skb :: (takeEchoSkb s i).echoed) := by
  simp only [takeEchoSkb, h]
  exact filterMap_update_none (nodup_allIdx _) hi h

theorem takeEchoSkb_empty {s : State} {i : Int} (h : s.echoSkb i = none) : takeEchoSkb s i = s := by
  simp only [takeEchoSkb, h]

theorem echoed_put {s : State} {i : Int} (hi : i ∈ allIdx s.echoSkbMax) (h : s.echoSkb i = none) (skb : Skb) :
    (canPutEchoSkb s skb i).echoed.Perm (skb :: s.echoed) := by
  have hback : Function.update (Function.update s.echoSkb i (some skb)) i none = s.echoSkb := by
    rw [Function.update_idem, ← h, Function.update_eq_self]
  have hp := filterMap_update_none (f := Function.update s.echoSkb i (some skb)) (nodup_allIdx s.echoSkbMax) hi
    (Function.update_self ..)
  rw [hback] at hp
  simp only [canPutEchoSkb, h]
  exact hp

/-! ## The occupied slots -/

/-- A slot is occupied only while its index is in flight or, since a
suspend, lost. -/
structure EchoSlots (lost : List Int) (s : State) : Prop where
  slot : ∀ i skb, s.echoSkb i = some skb → i ∈ s.inFlight ∨ i ∈ lost
  put : ∀ skb m, s.xmit = .echo skb m → s.echoSkb m.putidx = none
  emptied : ∀ m, s.read = .unlink m → s.echoSkb m.putidx = none

namespace EchoSlots

variable {s : State} {lost : List Int}

theorem take (h : EchoSlots lost s) (i : Int) : EchoSlots lost (takeEchoSkb s i) := by
  unfold takeEchoSkb
  split
  · exact h
  next skb hi =>
  have hsub : ∀ {j skb'}, Function.update s.echoSkb i none j = some skb' → s.echoSkb j = some skb' := by
    intro j skb' hj
    by_cases hji : j = i
    · simp [hji] at hj
    · simpa [hji] using hj
  exact { h with
    slot := fun j skb' hj => h.slot j skb' (hsub hj)
    put := fun skb' m hx => by by_cases hji : m.putidx = i <;> simp [hji, h.put skb' m hx]
    emptied := fun m hr => by by_cases hji : m.putidx = i <;> simp [hji, h.emptied m hr] }

/-- The index that is linked was held, so its slot is empty. -/
theorem link (h : EchoSlots lost s) (hi : Inv lost s) {skb m} (hx : s.xmit = .link skb m) :
    EchoSlots lost { s with txList := s.txList ++ [m], txLock := none, xmit := .echo skb m } := by
  have hheld : m.putidx ∈ s.held := by rw [State.held, hx]; simp [XmitPc.msgs]
  have hin : m.putidx ∉ s.inFlight := hi.not_inFlight_of_held hheld
  have hlost : m.putidx ∉ lost := fun hl =>
    (List.nodup_append.mp hi.nodup).2.2 m.putidx (by simp [hheld]) m.putidx hl rfl
  refine { h with
    slot := fun i skb' hs => (h.slot i skb' hs).imp_left fun hf => ?_
    put := fun skb' m' hp => ?_ }
  · simp only [State.inFlight, List.map_append] at hf ⊢
    exact List.mem_append_left _ hf
  · cases hp
    cases he : s.echoSkb m.putidx with
    | none => rfl
    | some skb' => exact absurd (h.slot _ _ he) (not_or.mpr ⟨hin, hlost⟩)

theorem echo (h : EchoSlots lost s) (hi : Inv lost s) {skb m} (hx : s.xmit = .echo skb m) :
    EchoSlots lost { canPutEchoSkb s skb m.putidx with xmit := .lock2 skb m } := by
  have hm := hi.mem_of_linked (m := m) (by rw [hx]; simp [XmitPc.linked])
  simp only [canPutEchoSkb, h.put skb m hx]
  refine ⟨fun j skb' hj => ?_, fun _ _ hp => (by cases hp), fun n hr => ?_⟩
  · by_cases hjm : j = m.putidx
    · exact .inl (List.mem_map.mpr ⟨m, hm, hjm.symm⟩)
    · exact h.slot j skb' (by simpa [hjm] using hj)
  · have hne := hi.linked_ne_popped (m := m) (n := n)
      (by rw [hx]; simp [XmitPc.linked]) (by rw [hr]; simp [ReadPc.popped])
    simpa [hne.symm] using h.emptied n hr

theorem unlink (h : EchoSlots lost s) (hi : Inv lost s) {m} (hr : s.read = .unlink m) :
    EchoSlots lost { s with txList := s.txList.erase m, read := .freeIdx m } := by
  have hm := hi.mem_of_popped (m := m) (by rw [hr]; simp [ReadPc.popped])
  refine { h with
    slot := fun i skb hs => (h.slot i skb hs).imp_left fun hf => ?_
    emptied := fun _ hp => by cases hp }
  have hne : i ≠ m.putidx := fun he => by cases (h.emptied m hr).symm.trans (he ▸ hs)
  exact (List.mem_cons.mp ((Inv.inFlight_erase s.txList hm).subset hf)).resolve_left hne

/-- No step but a refused message leaves a slot occupied behind it. -/
theorem step {s' : State} {a : Act} (h : EchoSlots lost s) (hi : Inv lost s) (hs : Step s a s')
    (hadd : a ≠ .xmitAdd false) (hf : a ≠ .freeze) : EchoSlots lost s' := by
  obtain ⟨p, lock, av, us, xm, rd, ad, rs, sus, kz, gone, ret, bug⟩ := s
  cases hs with
  | call hx | drop hx | kzalloc hx | noMem hx | full1 hx | room1 hx | stopBusy hx | full2 hx | room2 hx | stopNormal hx
  | lock1 hx | lock2 hx | stopFail hx | kick hx | add hx =>
    exact { h with put := fun _ _ hp => by cases hp }
  | allocBug | echoBug | undoBug | rdFreeBug => exact { h with }
  | alloc hx ha =>
    obtain ⟨idx, rest, -, ha'⟩ := hi.alloc_ok hx
    cases ha'.symm.trans ha
    exact { h with put := fun _ _ hp => by cases hp }
  | link hx => exact h.link hi hx
  | echo hx => exact h.echo hi hx
  | undo => exact absurd rfl hadd
  | rdEcho hr =>
    rename_i m
    have ht := h.take m.putidx
    have hnone := takeEchoSkb_self ⟨p, lock, av, us, xm, rd, ad, rs, sus, kz, gone, ret, bug⟩ m.putidx
    obtain ⟨e, g, he⟩ := takeEchoSkb_frame ⟨p, lock, av, us, xm, rd, ad, rs, sus, kz, gone, ret, bug⟩ m.putidx
    rw [he] at ht hnone ⊢
    exact { ht with
      emptied := fun _ hp => by
        cases hp
        exact hnone }
  | rdUnlink hr => exact h.unlink hi hr
  | rdFree hr hp =>
    cases (hi.free_ok hr).symm.trans hp
    exact { h with emptied := fun _ hp => by cases hp }
  | rdTest hr => cases hq : p.queueStopped <;> exact { h with emptied := fun _ hp => by cases hp }
  | rdNone | rdGet | rdLock | rdWake => exact { h with emptied := fun _ hp => by cases hp }
  | complete | openStart | openQueue | closeStop | closeCtrl | restart | restartWake => exact { h with }
  | closeFlush => exact ⟨fun _ _ hp => (by cases hp), fun _ _ _ => rfl, fun _ _ => rfl⟩
  | busOff =>
    unfold VirtioCan.busOff
    split <;> exact { h with }
  | freeze => exact absurd rfl hf
  | restore hr =>
    rcases restore_cases hr with ⟨-, rfl⟩ | ⟨-, q, -, rfl⟩
    · exact h
    · exact { h with }

/-- A suspend loses the indices in flight, their slots as they are. -/
theorem freeze {s' : State} (h : EchoSlots lost s) (hs : freeze s = some s') : EchoSlots (s.inFlight ++ lost) s' := by
  obtain ⟨hx, hr, -, -, q, rfl⟩ := freeze_cases hs
  refine ⟨fun i skb he => .inr (List.mem_append.mpr (h.slot i skb he)), fun _ _ hp => ?_, fun _ hp => ?_⟩
  · cases hx.symm.trans hp
  · cases hr.symm.trans hp

end EchoSlots

/-! ## The books -/

namespace Accounted

variable {len : Skb → Nat} {s s' : State} {g : Stats}

theorem length_offered (h : Accounted len (s, g)) :
    s.offered.length = g.sent.length + g.dropped.length + s.echoed.length := by
  have := h.frames.length_eq
  simpa only [List.length_append] using this

/-- What counts and keeps nothing new changes nothing. -/
theorem congr (h : Accounted len (s, g)) (ho : s'.offered = s.offered) (he : s'.echoed = s.echoed) :
    Accounted len (s', g) where
  frames := by
    show s'.offered.Perm (g.sent ++ g.dropped ++ s'.echoed)
    rw [ho, he]
    exact h.frames
  packets := h.packets
  bytes := h.bytes
  drops := h.drops

/-- A frame refused at the entry. -/
theorem drop (h : Accounted len (s, g)) {skb} (hx : s.xmit = .entry skb) :
    Accounted len ({ s with gone := skb :: s.gone, xmit := .kick skb .ok }, Stats.note len s .xmitDrop g) where
  frames := by
    have hp := h.frames
    simp only [State.offered, Stats.note, hx, XmitPc.taken] at hp ⊢
    exact (hp.cons skb).trans (by simp [List.perm_middle.symm, Priv.echoed])
  packets := by simpa only [Stats.note, hx] using h.packets
  bytes := by simpa only [Stats.note, hx] using h.bytes
  drops := by
    have := h.drops
    simp only [Stats.note, hx, List.length_cons] at this ⊢
    omega

/-- The driver takes the skb over into its slot. -/
theorem echo (h : Accounted len (s, g)) {skb m} (hx : s.xmit = .echo skb m) (hm : m.putidx ∈ allIdx s.echoSkbMax)
    (he : s.echoSkb m.putidx = none) :
    Accounted len ({ canPutEchoSkb s skb m.putidx with xmit := .lock2 skb m }, g) where
  frames := by
    have hp := h.frames
    have hput := echoed_put hm he skb
    simp only [State.offered, hx, XmitPc.taken, canPutEchoSkb, he] at hp hput ⊢
    exact (hp.cons skb).trans (List.perm_middle.symm.trans (hput.symm.append_left _))
  packets := h.packets
  bytes := h.bytes
  drops := h.drops

/-- A completion: the echo is looped back and counted, or there is none and
nothing is counted. -/
theorem readEcho (h : Accounted len (s, g)) {m} (hr : s.read = .echo m) (hm : m.putidx ∈ allIdx s.echoSkbMax)
    (hc : (s.echoSkb m.putidx).isSome ↔ s.canState.val < CanState.busOff.val) :
    Accounted len ({ takeEchoSkb s m.putidx with read := .unlink m }, Stats.note len s .read g) := by
  cases he : s.echoSkb m.putidx with
  | none =>
    have hoff : ¬ s.canState.val < CanState.busOff.val := by simpa [he] using hc
    simp only [Stats.note, hr, hoff, if_false, takeEchoSkb_empty he]
    exact h.congr rfl rfl
  | some skb =>
    have hon : s.canState.val < CanState.busOff.val := by simpa [he] using hc
    have htake := echoed_take hm he
    have hp := h.frames
    have hpk := h.packets
    have hby := h.bytes
    simp only [Stats.note, hr, hon, if_true, he, takeEchoSkb, Option.toList_some] at htake ⊢
    refine ⟨?_, ?_, ?_, h.drops⟩
    · exact hp.trans ((htake.append_left _).trans List.perm_middle)
    · simp only [List.length_append, List.length_singleton] at hpk ⊢
      omega
    · simp only [List.map_append, List.sum_append] at hby ⊢
      omega

/-- Closing drops what is in the slots. -/
theorem flush (h : Accounted len (s, g)) (ha : s.admin = .flushing) :
    Accounted len ({ closeCandev s with admin := .down }, Stats.note len s .admin g) where
  frames := by
    have hp := h.frames
    have hnone : ({ closeCandev s with admin := .down } : State).echoed = [] := by
      simp [closeCandev, Priv.echoed]
    simp only [Stats.note, ha, hnone, List.append_nil]
    refine hp.trans ?_
    rw [List.append_assoc]
    exact List.perm_append_comm.append_left _
  packets := by simpa only [Stats.note, ha] using h.packets
  bytes := by simpa only [Stats.note, ha] using h.bytes
  drops := by
    have := h.drops
    simp only [Stats.note, ha, List.length_append] at this ⊢
    omega

/-- Returning does not take over what was not. -/
theorem kick (h : Accounted len (s, g)) {skb ret} (hx : s.xmit = .kick skb ret) :
    Accounted len ({ s with xmit := .idle, returned := (skb, ret) :: s.returned }, g) := by
  refine h.congr ?_ rfl
  cases ret <;> simp [State.offered, hx, XmitPc.taken]

/-- A step that meets `Counted` keeps the books. -/
theorem step {a : Act} {lost : List Int} (h : Accounted len (s, g)) (hi : Inv lost s) (hsl : EchoSlots lost s)
    (hs : Step s a s') (hc : Counted s a) : Accounted len (s', Stats.note len s a g) := by
  obtain ⟨p, lock, av, us, xm, rd, ad, rs, sus, kz, gone, ret, bug⟩ := s
  cases hs with
  | drop hx => exact h.drop hx
  | noMem | undoBug | undo => cases hc
  | call hx | kzalloc hx | full1 hx | room1 hx | stopBusy hx | full2 hx | room2 hx | stopNormal hx | lock1 hx
  | link hx | lock2 hx | stopFail hx | add hx =>
    dsimp only at hx
    subst hx
    exact h.congr rfl rfl
  | alloc hx ha =>
    obtain ⟨idx, rest, -, ha'⟩ := hi.alloc_ok hx
    cases ha'.symm.trans ha
    dsimp only at hx
    subst hx
    exact h.congr rfl rfl
  | echo hx hneg =>
    rename_i skb m
    have hm := hi.mem_of_linked (m := m) (by rw [hx]; simp [XmitPc.linked])
    exact h.echo hx (hi.mem_allIdx_of_inFlight hm) (hsl.put skb m hx)
  | kick hx => exact h.kick hx
  | rdEcho hr =>
    rename_i m
    have hm := hi.mem_of_popped (m := m) (by rw [hr]; simp [ReadPc.popped])
    dsimp only at hr
    subst hr
    exact h.readEcho rfl (hi.mem_allIdx_of_inFlight hm) hc
  | rdFree hr hp =>
    cases (hi.free_ok hr).symm.trans hp
    dsimp only at hr
    subst hr
    exact h.congr rfl rfl
  | rdLock hr | rdNone hr | rdGet hr | rdUnlink hr | rdFreeBug hr | rdTest hr | rdWake hr =>
    dsimp only at hr
    subst hr
    exact h.congr rfl rfl
  | openStart ha | openQueue ha | closeStop ha | closeCtrl ha =>
    dsimp only at ha
    subst ha
    exact h.congr rfl rfl
  | closeFlush ha => exact h.flush ha
  | allocBug | echoBug | complete | restart | restartWake => exact h.congr rfl rfl
  | busOff =>
    refine h.congr ?_ ?_ <;> unfold VirtioCan.busOff <;> split <;> rfl
  | freeze hf =>
    obtain ⟨-, -, -, -, q, rfl⟩ := freeze_cases hf
    exact h.congr rfl rfl
  | restore hr =>
    rcases restore_cases hr with ⟨-, rfl⟩ | ⟨-, q, -, rfl⟩ <;> exact h.congr rfl rfl

/-- A step that takes over a frame, or gives one back, and counts nothing. -/
theorem unbalanced (h : Accounted len (s, g)) (he : s'.echoed = s.echoed)
    (ho : s'.offered.length ≠ s.offered.length) : ¬ Accounted len (s', g) := by
  intro h'
  have hlen := h.length_offered
  have hlen' := h'.length_offered
  rw [he] at hlen'
  omega

/-- A completion without an echo is counted, or an echo is freed and not counted. -/
theorem not_readEcho (h : Accounted len (s, g)) {m} (hr : s.read = .echo m) (hm : m.putidx ∈ allIdx s.echoSkbMax)
    (hc : ¬ ((s.echoSkb m.putidx).isSome ↔ s.canState.val < CanState.busOff.val)) :
    ¬ Accounted len ({ takeEchoSkb s m.putidx with read := .unlink m }, Stats.note len s .read g) := by
  intro h'
  have hpk : g.txPackets = g.sent.length := h.packets
  have hpk' : (Stats.note len s .read g).txPackets = (Stats.note len s .read g).sent.length := h'.packets
  have hlen := h.length_offered
  have hlen' := h'.length_offered
  cases he : s.echoSkb m.putidx with
  | none =>
    have hon : s.canState.val < CanState.busOff.val := by simpa [he] using hc
    simp only [Stats.note, hr, hon, if_true, he, Option.toList_none, List.nil_append] at hpk'
    omega
  | some skb =>
    have hoff : ¬ s.canState.val < CanState.busOff.val := by simpa [he] using hc
    have htake := (echoed_take hm he).length_eq
    have ho : (takeEchoSkb s m.putidx).offered = s.offered := by simp only [takeEchoSkb, he, State.offered]
    simp only [Stats.note, hr, hoff, if_false] at hlen'
    have hlen'' : s.offered.length = g.sent.length + g.dropped.length + (takeEchoSkb s m.putidx).echoed.length :=
      ho ▸ hlen'
    simp only [List.length_cons] at htake
    omega

/-- A step that does not meet it breaks them. -/
theorem not_step {a : Act} {lost : List Int} (h : Accounted len (s, g)) (hi : Inv lost s) (hs : Step s a s')
    (hc : ¬ Counted s a) : ¬ Accounted len (s', Stats.note len s a g) := by
  cases hs with
  | noMem hx => exact h.unbalanced rfl (by simp [State.offered, hx, XmitPc.taken])
  | undoBug hx hb => cases (hi.undo_ok hx).symm.trans hb
  | undo hx hp =>
    cases (hi.undo_ok hx).symm.trans hp
    exact h.unbalanced rfl (by simp [State.offered, hx, XmitPc.taken])
  | rdEcho hr =>
    rename_i m
    have hm := hi.mem_of_popped (m := m) (by rw [hr]; simp [ReadPc.popped])
    exact h.not_readEcho hr (hi.mem_allIdx_of_inFlight hm) (by simpa only [Counted, hr] using hc)
  | rdLock hr | rdNone hr | rdGet hr | rdUnlink hr | rdFreeBug hr | rdFree hr | rdTest hr | rdWake hr =>
    exact absurd (by simp only [Counted, hr]) hc
  | kzalloc | add => exact absurd rfl hc
  | _ => exact absurd trivial hc

end Accounted

/-! ## Every run -/

/-- The bookkeeping, the slots and the books. -/
structure StatsInv (len : Skb → Nat) (w : State × Stats) : Prop where
  slots : ∃ lost, Inv lost w.1 ∧ EchoSlots lost w.1
  books : Accounted len w

theorem statsInv_inductive (len : Skb → Nat) :
    (statsMachine len).Inductive (fun w a => Counted w.1 a) (StatsInv len) where
  init w hw := by
    obtain ⟨s, g⟩ := w
    obtain ⟨⟨n, i, hn⟩, hg⟩ := hw
    dsimp only at hn hg
    subst hn hg
    refine ⟨⟨[], probe_inv n i, fun _ _ hp => (by cases hp), fun _ _ hp => (by cases hp), fun _ hp => by cases hp⟩, ?_⟩
    exact ⟨by simp [State.offered, probe, XmitPc.taken, Stats.zero, Priv.echoed], rfl, rfl, rfl⟩
  step w a w' h ha hs := by
    obtain ⟨s, g⟩ := w
    obtain ⟨s', g'⟩ := w'
    obtain ⟨⟨lost, hi, hsl⟩, hb⟩ := h
    obtain ⟨ht, hg⟩ := Machine.watched_step.mp hs
    dsimp only at ht hg hi hsl
    subst hg
    have hstep := (step_cases ht).1
    refine ⟨?_, hb.step hi hsl hstep ha⟩
    by_cases hf : a = .freeze
    · subst hf
      cases hstep with
      | freeze hf => exact ⟨_, hi.freeze hf, hsl.freeze hf⟩
    · have hadd : a ≠ .xmitAdd false := by
        intro he
        subst he
        cases ha
      exact ⟨lost, hi.step hstep hf, hsl.step hi hstep hadd hf⟩

/-- **The books balance exactly when every step counts.** In every run whose
steps meet `Counted`, an skb taken over is sent, dropped or in an echo slot,
`tx_packets` and `tx_dropped` are the numbers of those sent and dropped and
`tx_bytes` their length; and the next step keeps this if and only if it
meets `Counted` too. -/
theorem packets_accounted {len : Skb → Nat} {w : State × Stats}
    (h : (statsMachine len).Reach (fun w a => Counted w.1 a) w) :
    Accounted len w ∧
    ∀ a w', (statsMachine len).step w a = some w' → (Accounted len w' ↔ Counted w.1 a) := by
  refine ⟨((statsInv_inductive len).reach h).books, fun a w' hs => ?_⟩
  refine (statsInv_inductive len).keeps_iff (fun w hw => hw.books) (fun w a w' hw ha hs => ?_) h hs
  obtain ⟨⟨lost, hi, -⟩, hb⟩ := hw
  obtain ⟨hs, hg⟩ := Machine.watched_step.mp hs
  have := hb.not_step hi (step_cases hs).1 ha
  rwa [← hg] at this

/-- A frame is queued; the interface is closed and opened again before the
device completes it. -/
def reopenBeforeCompletion (skb : Skb) : List Act :=
  openAndSend skb ++ List.replicate 5 .admin ++ [.complete 0, .read, .read]

/-- The frame is counted as dropped, then as sent with no bytes. -/
theorem packets_accounted_reopened : ∃ w w' : State × Stats, w.2.txDropped = 1 ∧ w'.2.txPackets = 1 ∧
    w'.2.txBytes = 0 ∧ w'.1.offered = [7] ∧ ¬ Accounted (fun _ => 8) w' := by
  obtain ⟨w, hw, hd, hc, w', hs, hp⟩ := Machine.exists_reach (M := statsMachine fun _ => 8) (fun w a => Counted w.1 a)
    (s := (probe 4 true, .zero)) ⟨probe_init 4 true, rfl⟩ (reopenBeforeCompletion 7)
    (fun w => w.2.txDropped = 1 ∧ ¬ Counted w.1 .read ∧ ∃ w' ∈ (statsMachine fun _ => 8).step w .read,
      w'.2.txPackets = 1 ∧ w'.2.txBytes = 0 ∧ w'.1.offered = [7]) (by decide +kernel)
  exact ⟨w, w', hd, hp.1, hp.2.1, hp.2.2, fun h => hc (((packets_accounted hw).2 _ _ hs).mp h)⟩

end Agl.VirtioCan
