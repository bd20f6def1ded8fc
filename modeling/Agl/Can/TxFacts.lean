/-
What one step of the transmit machine can do (`Step`), and the TX
bookkeeping invariant: free indices, linked messages, the in-flight counter
and the limit move together.

`Inv lost s` is stated for a list `lost` of indices, those of the messages
`virtio_can_del_vq` threw away: it is empty in every run without suspend
(`reach_inv`), and some list in any run (`reachable_inv`).
-/
import Mathlib.Data.List.Nodup
import Agl.Can.Tx

namespace Agl.VirtioCan

/-! ## What a step can do -/

/-- One step, by the branch taken. -/
inductive Step (s : State) : Act → State → Prop
  | call {skb} : s.xmit = .idle → (skb, .ok) ∉ s.returned → Step s (.xmitCall skb) { s with xmit := .entry skb }
  | drop {skb} : s.xmit = .entry skb → Step s .xmitDrop { s with gone := skb :: s.gone, xmit := .kick skb .ok }
  | kzalloc {skb} : s.xmit = .entry skb →
      Step s (.xmitKzalloc true) { s with kzallocs := s.kzallocs + 1, xmit := .test1 skb s.kzallocs }
  | noMem {skb} : s.xmit = .entry skb → Step s (.xmitKzalloc false) { s with xmit := .kick skb .ok }
  | full1 {skb addr} : s.xmit = .test1 skb addr → s.txInflight ≥ s.txLimit →
      Step s .xmit { s with xmit := .stopBusy skb }
  | room1 {skb addr} : s.xmit = .test1 skb addr → s.txInflight < s.txLimit →
      Step s .xmit { s with xmit := .test2 skb addr }
  | stopBusy {skb} : s.xmit = .stopBusy skb → Step s .xmit { s with queueStopped := true, xmit := .kick skb .busy }
  | full2 {skb addr} : s.xmit = .test2 skb addr → s.txInflight ≥ s.txLimit →
      Step s .xmit { s with xmit := .stopNormal skb addr }
  | room2 {skb addr} : s.xmit = .test2 skb addr → s.txInflight < s.txLimit →
      Step s .xmit { s with xmit := .lock1 skb addr }
  | stopNormal {skb addr} : s.xmit = .stopNormal skb addr →
      Step s .xmit { s with queueStopped := true, xmit := .lock1 skb addr }
  | lock1 {skb addr} : s.xmit = .lock1 skb addr → s.txLock = none →
      Step s .xmit { s with txLock := some .xmit, xmit := .alloc skb addr }
  | allocBug {skb addr b} : s.xmit = .alloc skb addr → allocTxIdx s.toPriv 0 = .error b →
      Step s .xmit { s with bug := some b }
  | alloc {skb addr idx p} : s.xmit = .alloc skb addr → allocTxIdx s.toPriv 0 = .ok (idx, p) →
      Step s .xmit { s with toPriv := p, xmit := .link skb ⟨addr, 0, idx⟩ }
  | link {skb m} : s.xmit = .link skb m →
      Step s .xmit { s with txList := s.txList ++ [m], txLock := none, xmit := .echo skb m }
  | echoBug {skb m} : s.xmit = .echo skb m → m.putidx < 0 → Step s .xmit { s with bug := some .xmitPutidx }
  | echo {skb m} : s.xmit = .echo skb m → ¬ m.putidx < 0 →
      Step s .xmit { canPutEchoSkb s skb m.putidx with xmit := .lock2 skb m }
  | lock2 {skb m} : s.xmit = .lock2 skb m → s.txLock = none →
      Step s .xmit { s with txLock := some .xmit, xmit := .add skb m }
  | stopFail {skb} : s.xmit = .stopFail skb → Step s .xmit { s with queueStopped := true, xmit := .kick skb .busy }
  | kick {skb ret} : s.xmit = .kick skb ret →
      Step s .xmit { s with xmit := .idle, returned := (skb, ret) :: s.returned }
  | add {skb m} : s.xmit = .add skb m →
      Step s (.xmitAdd true) { s with avail := s.avail ++ [m], txLock := none, xmit := .kick skb .ok }
  | undoBug {skb m b} : s.xmit = .add skb m →
      freeTxIdx { s.toPriv with txList := s.txList.erase m } m.prio m.putidx = .error b →
      Step s (.xmitAdd false) { s with bug := some b }
  | undo {skb m p} : s.xmit = .add skb m →
      freeTxIdx { s.toPriv with txList := s.txList.erase m } m.prio m.putidx = .ok p →
      Step s (.xmitAdd false) { s with toPriv := p, txLock := none, xmit := .stopFail skb }
  | rdLock : s.read = .idle → s.txLock = none → Step s .read { s with txLock := some .read, read := .get }
  | rdNone : s.read = .get → s.used = [] → Step s .read { s with txLock := none, read := .idle }
  | rdGet {m rest} : s.read = .get → s.used = m :: rest → Step s .read { s with used := rest, read := .echo m }
  | rdEcho {m} : s.read = .echo m → Step s .read { takeEchoSkb s m.putidx with read := .unlink m }
  | rdUnlink {m} : s.read = .unlink m → Step s .read { s with txList := s.txList.erase m, read := .freeIdx m }
  | rdFreeBug {m b} : s.read = .freeIdx m → freeTxIdx s.toPriv m.prio m.putidx = .error b →
      Step s .read { s with bug := some b }
  | rdFree {m p} : s.read = .freeIdx m → freeTxIdx s.toPriv m.prio m.putidx = .ok p →
      Step s .read { s with toPriv := p, txLock := none, read := .test }
  | rdTest : s.read = .test → Step s .read { s with read := if s.queueStopped then .wake else .idle }
  | rdWake : s.read = .wake → Step s .read { s with queueStopped := false, read := .idle }
  | complete {i m} : s.avail[i]? = some m →
      Step s (.complete i) { s with avail := s.avail.eraseIdx i, used := s.used ++ [m] }
  | openStart : s.admin = .down → Step s .admin { s with canState := .errorActive, admin := .opening }
  | openQueue : s.admin = .opening → Step s .admin { s with queueStopped := false, admin := .up }
  | closeStop : s.admin = .up → Step s .admin { s with queueStopped := true, admin := .closing }
  | closeCtrl : s.admin = .closing → Step s .admin { s with canState := .stopped, admin := .flushing }
  | closeFlush : s.admin = .flushing → s.restarting = false → Step s .admin { closeCandev s with admin := .down }
  | restart : s.restarting = false → s.admin = .up →
      Step s .restart { s with canState := .errorActive, restarting := true }
  | restartWake : s.restarting = true → Step s .restart { s with queueStopped := false, restarting := false }
  | busOff : Step s .busOff (busOff s)
  | freeze {s'} : freeze s = some s' → Step s .freeze s'
  | restore {ok s'} : restore s ok = some s' → s.suspended = true → Step s (.restore ok) s'

theorem xmitStep_cases {s s' : State} (h : xmitStep s = some s') : Step s .xmit s' := by
  unfold xmitStep at h
  split at h
  · cases h
  · cases h
  · cases h
  · next hx => split at h <;> cases h <;> [exact .full1 hx ‹_›; exact .room1 hx (by omega)]
  · next hx => cases h; exact .stopBusy hx
  · next hx => split at h <;> cases h <;> [exact .full2 hx ‹_›; exact .room2 hx (by omega)]
  · next hx => cases h; exact .stopNormal hx
  · next hx => split at h <;> cases h; exact .lock1 hx ‹_›
  · next hx => split at h <;> cases h <;> [exact .allocBug hx ‹_›; exact .alloc hx ‹_›]
  · next hx => cases h; exact .link hx
  · next hx => split at h <;> cases h <;> [exact .echoBug hx ‹_›; exact .echo hx ‹_›]
  · next hx => split at h <;> cases h; exact .lock2 hx ‹_›
  · next hx => cases h; exact .stopFail hx
  · next hx => cases h; exact .kick hx

theorem xmitAdd_cases {s s' : State} {ok} (h : xmitAdd s ok = some s') : Step s (.xmitAdd ok) s' := by
  unfold xmitAdd at h
  split at h
  · next hx =>
    split at h
    · next hok => cases h; subst hok; exact .add hx
    · next hok =>
      obtain rfl : ok = false := by simpa using hok
      split at h <;> cases h <;> [exact .undoBug hx ‹_›; exact .undo hx ‹_›]
  · cases h

theorem readStep_cases {s s' : State} (h : readStep s = some s') : Step s .read s' := by
  unfold readStep at h
  split at h
  · next hr => split at h <;> cases h; exact .rdLock hr ‹_›
  · next hr => split at h <;> cases h <;> [exact .rdNone hr ‹_›; exact .rdGet hr ‹_›]
  · next hr => split at h <;> cases h <;> exact .rdEcho hr
  · next hr => cases h; exact .rdUnlink hr
  · next hr => split at h <;> cases h <;> [exact .rdFreeBug hr ‹_›; exact .rdFree hr ‹_›]
  · next hr => cases h; exact .rdTest hr
  · next hr => cases h; exact .rdWake hr

theorem adminStep_cases {s s' : State} (h : adminStep s = some s') : Step s .admin s' := by
  unfold adminStep at h
  split at h
  · next ha => cases h; exact .openStart ha
  · next ha => cases h; exact .openQueue ha
  · next ha => cases h; exact .closeStop ha
  · next ha => cases h; exact .closeCtrl ha
  · next ha => split at h <;> cases h; exact .closeFlush ha (by simpa using ‹¬ s.restarting = true›)

/-- Every step is one of the branches, no `BUG_ON` has fired before it, and
only a restore leaves a suspended state. -/
theorem step_cases {s s' : State} {a} (h : machine.step s a = some s') :
    Step s a s' ∧ s.bug = none ∧ (s.suspended = false ∨ ∃ ok, a = .restore ok) := by
  simp only [machine, VirtioCan.step] at h
  split at h
  · cases h
  next hb =>
  refine ⟨?_, by simpa using hb, ?_⟩
  · split at h
    · next hs =>
      split at h
      · exact .restore h hs
      · cases h
    · split at h
      · unfold xmitCall at h
        split at h <;> cases h
        next hx => exact .call hx.1 hx.2
      · unfold xmitDrop at h
        split at h <;> cases h
        next hx => exact .drop hx
      · unfold xmitKzalloc at h
        split at h
        · next ok _ _ hx => cases ok <;> cases h <;> [exact .noMem hx; exact .kzalloc hx]
        · cases h
      · exact xmitStep_cases h
      · exact xmitAdd_cases h
      · exact readStep_cases h
      · unfold VirtioCan.complete at h
        split at h <;> cases h
        exact .complete ‹_›
      · exact adminStep_cases h
      · unfold restartStep at h
        split at h
        · next hr => cases h; exact .restartWake hr
        · next hr =>
          split at h <;> cases h
          exact .restart (by simpa using hr) ‹_›
      · cases h; exact .busOff
      · exact .freeze h
      · cases h
  · split at h
    · split at h
      · exact .inr ⟨_, rfl⟩
      · cases h
    · next hs => exact .inl (by simpa using hs)

/-- What `virtio_can_freeze` leaves: no messages, a stopped queue. -/
theorem freeze_cases {s s' : State} (h : freeze s = some s') :
    s.xmit = .idle ∧ s.read = .idle ∧ (s.admin = .up ∨ s.admin = .down) ∧ s.restarting = false ∧
    ∃ q, s' = { s with
      canState := .sleeping, queueStopped := q, avail := [], used := [], txList := [], suspended := true } := by
  unfold freeze at h
  split at h
  · next hg =>
    cases h
    refine ⟨hg.1, hg.2.1, hg.2.2.1, hg.2.2.2, ?_⟩
    split
    · exact ⟨true, rfl⟩
    · exact ⟨s.queueStopped, rfl⟩
  · cases h

/-- What `virtio_can_restore` changes: nothing when it fails; else the
device runs again, with the queue started if the interface is up. -/
theorem restore_cases {s s' : State} {ok} (h : restore s ok = some s') :
    (ok = false ∧ s' = s) ∨ (ok = true ∧ ∃ q, (s.admin = .up → q = false) ∧
      s' = { s with canState := .errorActive, suspended := false, queueStopped := q }) := by
  unfold restore at h
  split at h
  · next hok =>
    cases h
    refine .inr ⟨hok, ?_⟩
    split
    · exact ⟨false, fun _ => rfl, rfl⟩
    · next hup => exact ⟨s.queueStopped, fun hu => absurd hu hup, rfl⟩
  · next hok => cases h; exact .inl ⟨by simpa using hok, rfl⟩

/-! ## The bookkeeping invariant -/

/-- `tx_lock` is held here. -/
def XmitPc.locked : XmitPc → Bool
  | .alloc _ _ | .link _ _ | .add _ _ => true
  | _ => false

/-- `tx_lock` is held here. -/
def ReadPc.locked : ReadPc → Bool
  | .get | .echo _ | .unlink _ | .freeIdx _ => true
  | _ => false

/-- The message that has an index and is not on `tx_list` yet. -/
def XmitPc.msgs : XmitPc → List TxMsg
  | .link _ m => [m]
  | _ => []

/-- The message off `tx_list` whose index is not freed yet. -/
def ReadPc.msgs : ReadPc → List TxMsg
  | .freeIdx m => [m]
  | _ => []

/-- The message linked and not in the ring yet. -/
def XmitPc.linked : XmitPc → List TxMsg
  | .echo _ m | .lock2 _ m | .add _ m => [m]
  | _ => []

/-- The message out of the ring and still linked. -/
def ReadPc.popped : ReadPc → List TxMsg
  | .echo m | .unlink m => [m]
  | _ => []

/-- The limit test has passed and the index is not taken yet. -/
def XmitPc.passed : XmitPc → Bool
  | .test2 _ _ | .stopNormal _ _ | .lock1 _ _ | .alloc _ _ => true
  | _ => false

/-- The indices neither free nor on `tx_list`. -/
def State.held (s : State) : List Int := (s.xmit.msgs ++ s.read.msgs).map (·.putidx)

/-- The indices of the messages on `tx_list`. -/
def State.inFlight (s : State) : List Int := s.txList.map (·.putidx)

structure Inv (lost : List Int) (s : State) : Prop where
  lockX : s.txLock = some .xmit ↔ s.xmit.locked = true
  lockR : s.txLock = some .read ↔ s.read.locked = true
  perm : (s.txPutidxFree ++ s.inFlight ++ s.held ++ lost).Perm (allIdx s.echoSkbMax)
  count : s.txInflight = s.inFlight.length + s.held.length + lost.length
  limit : s.txInflight ≤ s.txLimit
  limitMax : s.txLimit ≤ s.echoSkbMax
  room : s.xmit.passed = true → s.txInflight < s.txLimit
  prio : ∀ m ∈ s.txList ++ s.xmit.msgs ++ s.read.msgs, m.prio = 0
  ring : s.txList.Perm (s.ring ++ s.xmit.linked ++ s.read.popped)
  bug : s.bug = none

theorem length_allIdx (n : Nat) : (allIdx n).length = n := by simp [allIdx]

theorem mem_allIdx {n : Nat} {i : Int} : i ∈ allIdx n ↔ 0 ≤ i ∧ i < n := by
  simp only [allIdx, List.mem_map, List.mem_range]
  constructor
  · intro h
    obtain ⟨k, hk, rfl⟩ := h
    simp only [Int.ofNat_eq_natCast]
    omega
  · intro h
    exact ⟨i.toNat, by omega, by simp only [Int.ofNat_eq_natCast]; omega⟩

theorem nodup_allIdx (n : Nat) : (allIdx n).Nodup :=
  List.nodup_range.map fun _ _ h => Int.ofNat.inj h

namespace Inv

variable {lost : List Int} {s : State}

/-- The indices add up to all of them. -/
theorem total (h : Inv lost s) :
    s.txPutidxFree.length + s.inFlight.length + s.held.length + lost.length = s.echoSkbMax := by
  have := h.perm.length_eq
  simpa [length_allIdx, Nat.add_assoc] using this

theorem nodup (h : Inv lost s) : (s.txPutidxFree ++ s.inFlight ++ s.held ++ lost).Nodup :=
  h.perm.nodup_iff.mpr (nodup_allIdx _)

/-- With the lock free nothing is held. -/
theorem held_nil (h : Inv lost s) (hl : s.txLock = none) : s.held = [] := by
  have hx : s.xmit.locked = false := by
    have := h.lockX
    simpa [hl] using this
  have hr : s.read.locked = false := by
    have := h.lockR
    simpa [hl] using this
  simp only [State.held]
  have h1 : s.xmit.msgs = [] := by cases hp : s.xmit <;> simp_all [XmitPc.locked, XmitPc.msgs]
  have h2 : s.read.msgs = [] := by cases hp : s.read <;> simp_all [ReadPc.locked, ReadPc.msgs]
  simp [h1, h2]

/-- The two holders exclude each other. -/
theorem excl (h : Inv lost s) (hx : s.xmit.locked = true) : s.read.locked = false := by
  have h1 := h.lockX.mpr hx
  have h2 := h.lockR
  simpa [h1] using h2

/-- There is an index to take when the limit test has passed. -/
theorem alloc_ok (h : Inv lost s) {skb addr} (hx : s.xmit = .alloc skb addr) : ∃ idx rest,
    s.txPutidxFree = idx :: rest ∧ allocTxIdx s.toPriv 0 =
      .ok (idx, { s.toPriv with txInflight := s.txInflight + 1, txPutidxFree := rest }) := by
  have hroom := h.room (by rw [hx]; rfl)
  have hmax : s.txInflight < s.echoSkbMax := Nat.lt_of_lt_of_le hroom h.limitMax
  have htot := h.total
  have hcnt := h.count
  cases hf : s.txPutidxFree with
  | nil => rw [hf] at htot; simp only [List.length_nil] at htot; omega
  | cons idx rest =>
    refine ⟨idx, rest, rfl, ?_⟩
    simp [allocTxIdx, hf, Nat.not_le.mpr hmax]

/-- An index that is held or in flight can be freed. -/
theorem freeTxIdx_ok {p : Priv} {prio : Nat} {idx : Int} (hprio : prio = 0) (hidx : idx ∈ allIdx p.echoSkbMax)
    (hpos : 0 < p.txInflight) : freeTxIdx p prio idx =
      .ok { p with txPutidxFree := idx :: p.txPutidxFree, txInflight := p.txInflight - 1 } := by
  obtain ⟨h0, hn⟩ := mem_allIdx.mp hidx
  have hr : ¬ (idx < 0 ∨ idx ≥ p.echoSkbMax) := by omega
  simp [freeTxIdx, prioCount, hprio, hr, Nat.pos_iff_ne_zero.mp hpos]

theorem allIdx_of_inFlight (h : Inv lost s) {i} (hi : i ∈ s.inFlight) : i ∈ allIdx s.echoSkbMax :=
  h.perm.subset (by simp [hi])

theorem mem_allIdx_of_inFlight (h : Inv lost s) {m} (hm : m ∈ s.txList) : m.putidx ∈ allIdx s.echoSkbMax :=
  h.allIdx_of_inFlight (List.mem_map.mpr ⟨m, hm, rfl⟩)

theorem mem_of_linked (h : Inv lost s) {m} (hm : m ∈ s.xmit.linked) : m ∈ s.txList :=
  h.ring.mem_iff.mpr (by simp [hm])

theorem mem_of_popped (h : Inv lost s) {m} (hm : m ∈ s.read.popped) : m ∈ s.txList :=
  h.ring.mem_iff.mpr (by simp [hm])

theorem prio_of_mem (h : Inv lost s) {m} (hm : m ∈ s.txList) : m.prio = 0 := h.prio m (by simp [hm])

theorem pos_of_mem (h : Inv lost s) {m} (hm : m ∈ s.txList) : 0 < s.txInflight := by
  have hlen : 0 < s.inFlight.length := by simpa [State.inFlight] using List.length_pos_of_mem hm
  have := h.count
  omega

/-- No `BUG_ON` fires when a completion frees its index. -/
theorem free_ok (h : Inv lost s) {m} (hr : s.read = .freeIdx m) : freeTxIdx s.toPriv m.prio m.putidx =
    .ok { s.toPriv with txPutidxFree := m.putidx :: s.txPutidxFree, txInflight := s.txInflight - 1 } := by
  have hmem : m.putidx ∈ s.held := by simp [State.held, hr, ReadPc.msgs]
  have hlen := List.length_pos_of_mem hmem
  have hcnt := h.count
  exact freeTxIdx_ok (h.prio m (by simp [hr, ReadPc.msgs])) (h.perm.subset (by simp [hmem])) (by omega)

/-- No `BUG_ON` fires when a failed transmission frees its index. -/
theorem undo_ok (h : Inv lost s) {skb m} (hx : s.xmit = .add skb m) :
    freeTxIdx { s.toPriv with txList := s.txList.erase m } m.prio m.putidx = .ok { s.toPriv with
      txList := s.txList.erase m, txPutidxFree := m.putidx :: s.txPutidxFree, txInflight := s.txInflight - 1 } := by
  have hm := h.mem_of_linked (m := m) (by rw [hx]; simp [XmitPc.linked])
  exact freeTxIdx_ok (h.prio_of_mem hm) (h.mem_allIdx_of_inFlight hm) (h.pos_of_mem hm)

theorem inFlight_erase (l : List TxMsg) {m : TxMsg} (hm : m ∈ l) :
    (l.map (·.putidx)).Perm (m.putidx :: (l.erase m).map (·.putidx)) :=
  (List.perm_cons_erase hm).map _

end Inv

theorem takeEchoSkb_frame (s : State) (i : Int) : ∃ e g, takeEchoSkb s i = { s with echoSkb := e, gone := g } := by
  unfold takeEchoSkb
  split
  · exact ⟨s.echoSkb, s.gone, rfl⟩
  · exact ⟨_, _, rfl⟩

theorem canPutEchoSkb_frame (s : State) (skb : Skb) (i : Int) :
    ∃ e g, canPutEchoSkb s skb i = { s with echoSkb := e, gone := g } := by
  unfold canPutEchoSkb
  split <;> exact ⟨_, _, rfl⟩

theorem allocTxIdx_frame {p p' : Priv} {prio idx} (h : allocTxIdx p prio = .ok (idx, p')) :
    ∃ n f, p' = { p with txInflight := n, txPutidxFree := f } := by
  unfold allocTxIdx at h
  split at h
  · cases h
  split at h
  · cases h
  dsimp only at h
  split at h <;> cases h <;> exact ⟨_, _, rfl⟩

theorem freeTxIdx_frame {p p' : Priv} {prio idx} (h : freeTxIdx p prio idx = .ok p') :
    ∃ n f, p' = { p with txInflight := n, txPutidxFree := f } := by
  unfold freeTxIdx at h
  split at h
  · cases h
  split at h
  · cases h
  split at h <;> cases h
  exact ⟨_, _, rfl⟩

namespace Inv

variable {lost : List Int} {s : State}

/-- `virtio_can_alloc_tx_idx` moves an index from the free ones to the held ones. -/
theorem alloc {skb addr idx p} (h : Inv lost s) (hx : s.xmit = .alloc skb addr)
    (ha : allocTxIdx s.toPriv 0 = .ok (idx, p)) :
    Inv lost { s with toPriv := p, xmit := .link skb ⟨addr, 0, idx⟩ } := by
  obtain ⟨idx, rest, hfree, ha'⟩ := h.alloc_ok hx
  rw [ha'] at ha
  cases ha
  have hroom := h.room (by rw [hx]; rfl)
  obtain ⟨p, lock, av, us, xm, rd, ad, rs, sus, kz, gone, ret, bug⟩ := s
  dsimp only at hx hfree
  subst hx
  exact { h with
    perm := by
      refine (List.perm_iff_count.mpr fun i => ?_).trans h.perm
      simp only [hfree, State.inFlight, State.held, XmitPc.msgs, List.map_append, List.map_cons, List.map_nil,
        List.count_append, List.count_cons, List.count_nil]
      omega
    count := by
      have hcount := h.count
      simp only [State.inFlight, State.held, XmitPc.msgs, List.length_append, List.length_map, List.length_cons,
        List.length_nil] at hcount ⊢
      omega
    limit := hroom
    room := fun hp => by cases hp
    prio := by
      have hprio := h.prio
      simp only [XmitPc.msgs, List.forall_mem_append, List.forall_mem_singleton] at hprio ⊢
      exact ⟨⟨hprio.1.1, trivial⟩, hprio.2⟩ }

/-- The message goes on `tx_list`, with its index. -/
theorem link {skb m} (h : Inv lost s) (hx : s.xmit = .link skb m) :
    Inv lost { s with txList := s.txList ++ [m], txLock := none, xmit := .echo skb m } := by
  have hl : s.txLock = some .xmit := h.lockX.mpr (by rw [hx]; rfl)
  have hr := h.excl (by rw [hx]; rfl)
  obtain ⟨p, lock, av, us, xm, rd, ad, rs, sus, kz, gone, ret, bug⟩ := s
  dsimp only at hx hl hr
  subst hx hl
  exact { h with
    lockX := by simp [XmitPc.locked]
    lockR := by simp [hr]
    perm := by
      refine (List.perm_iff_count.mpr fun i => ?_).trans h.perm
      simp only [State.inFlight, State.held, XmitPc.msgs, List.map_append, List.map_cons, List.map_nil,
        List.count_append, List.count_cons, List.count_nil]
      omega
    count := by
      have hcount := h.count
      simp only [State.inFlight, State.held, XmitPc.msgs, List.length_append, List.length_map, List.length_cons,
        List.length_nil] at hcount ⊢
      omega
    room := fun hp => by cases hp
    prio := by
      have hprio := h.prio
      simp only [XmitPc.msgs, List.forall_mem_append, List.forall_mem_singleton] at hprio ⊢
      exact ⟨⟨hprio.1, by simp⟩, hprio.2⟩
    ring := by
      refine .trans (h.ring.append_right [m]) (List.perm_iff_count.mpr fun i => ?_)
      simp only [XmitPc.linked, State.ring, List.count_append, List.count_nil]
      omega }

/-- A failed transmission takes its message off `tx_list` and frees its index. -/
theorem undo {skb m p} (h : Inv lost s) (hx : s.xmit = .add skb m)
    (hp : freeTxIdx { s.toPriv with txList := s.txList.erase m } m.prio m.putidx = .ok p) :
    Inv lost { s with toPriv := p, txLock := none, xmit := .stopFail skb } := by
  have hm := h.mem_of_linked (m := m) (by rw [hx]; simp [XmitPc.linked])
  have hr := h.excl (by rw [hx]; rfl)
  cases (h.undo_ok hx).symm.trans hp
  obtain ⟨p, lock, av, us, xm, rd, ad, rs, sus, kz, gone, ret, bug⟩ := s
  have herase := inFlight_erase p.txList hm
  dsimp only at hx hr
  subst hx
  exact { h with
    lockX := by simp [XmitPc.locked]
    lockR := by simp [hr]
    perm := by
      refine (List.perm_iff_count.mpr fun i => ?_).trans h.perm
      have hcount := herase.count_eq i
      simp only [State.inFlight, State.held, XmitPc.msgs, List.count_append, List.count_cons] at hcount ⊢
      omega
    count := by
      have hcount := h.count
      have hlen := herase.length_eq
      simp only [State.inFlight, State.held, XmitPc.msgs, List.length_append, List.length_map, List.length_cons,
        List.length_nil] at hcount hlen ⊢
      omega
    limit := Nat.le_trans (Nat.sub_le _ _) h.limit
    room := fun hp => by cases hp
    prio := by
      have hprio := h.prio
      simp only [XmitPc.msgs, List.forall_mem_append] at hprio ⊢
      exact ⟨⟨fun m hm => hprio.1.1 m (List.mem_of_mem_erase hm), hprio.1.2⟩, hprio.2⟩
    ring := by
      refine List.Perm.cons_inv (a := m) ((List.perm_cons_erase hm).symm.trans (h.ring.trans ?_))
      refine List.perm_iff_count.mpr fun i => ?_
      simp only [XmitPc.linked, State.ring, List.count_append, List.count_cons, List.count_nil]
      omega }

/-- A completed message goes off `tx_list`; its index is held. -/
theorem unlink {m} (h : Inv lost s) (hr : s.read = .unlink m) :
    Inv lost { s with txList := s.txList.erase m, read := .freeIdx m } := by
  have hm := h.mem_of_popped (m := m) (by rw [hr]; simp [ReadPc.popped])
  have hlock := h.lockR
  rw [hr] at hlock
  obtain ⟨p, lock, av, us, xm, rd, ad, rs, sus, kz, gone, ret, bug⟩ := s
  have herase := inFlight_erase p.txList hm
  dsimp only at hr
  subst hr
  exact { h with
    lockR := hlock
    perm := by
      refine (List.perm_iff_count.mpr fun i => ?_).trans h.perm
      have hcount := herase.count_eq i
      simp only [State.inFlight, State.held, ReadPc.msgs, List.map_append, List.map_cons, List.map_nil,
        List.count_append, List.count_cons, List.count_nil] at hcount ⊢
      omega
    count := by
      have hcount := h.count
      have hlen := herase.length_eq
      simp only [State.inFlight, State.held, ReadPc.msgs, List.length_append, List.length_map, List.length_cons,
        List.length_nil] at hcount hlen ⊢
      omega
    prio := by
      have hprio := h.prio
      simp only [ReadPc.msgs, List.forall_mem_append, List.forall_mem_singleton] at hprio ⊢
      exact ⟨⟨fun m hm => hprio.1.1 m (List.mem_of_mem_erase hm), hprio.1.2⟩, hprio.1.1 m hm⟩
    ring := by
      refine List.Perm.cons_inv (a := m) ((List.perm_cons_erase hm).symm.trans (h.ring.trans ?_))
      refine List.perm_iff_count.mpr fun i => ?_
      simp only [ReadPc.popped, State.ring, List.count_append, List.count_cons, List.count_nil]
      omega }

/-- A completion frees its index. -/
theorem freeIdx {m p} (h : Inv lost s) (hr : s.read = .freeIdx m) (hp : freeTxIdx s.toPriv m.prio m.putidx = .ok p) :
    Inv lost { s with toPriv := p, txLock := none, read := .test } := by
  cases (h.free_ok hr).symm.trans hp
  have hl : s.txLock = some .read := h.lockR.mpr (by rw [hr]; rfl)
  have hx : s.xmit.locked = false := by simpa [hl] using h.lockX
  obtain ⟨p, lock, av, us, xm, rd, ad, rs, sus, kz, gone, ret, bug⟩ := s
  dsimp only at hr hx
  subst hr
  exact { h with
    lockX := by simp [hx]
    lockR := by simp [ReadPc.locked]
    perm := by
      refine (List.perm_iff_count.mpr fun i => ?_).trans h.perm
      simp only [State.inFlight, State.held, ReadPc.msgs, List.map_append, List.map_cons, List.map_nil,
        List.count_append, List.count_cons, List.count_nil]
      omega
    count := by
      have hcount := h.count
      simp only [State.inFlight, State.held, ReadPc.msgs, List.length_append, List.length_map, List.length_cons,
        List.length_nil] at hcount ⊢
      omega
    limit := Nat.le_trans (Nat.sub_le _ _) h.limit
    room := fun hp => Nat.lt_of_le_of_lt (Nat.sub_le _ _) (h.room hp)
    prio := by
      have hprio := h.prio
      simp only [ReadPc.msgs, List.forall_mem_append] at hprio ⊢
      exact ⟨hprio.1, by simp⟩ }

end Inv

/-- No step but a freeze touches the invariant. -/
theorem Inv.step {lost : List Int} {s s' : State} {a : Act} (h : Inv lost s) (hs : Step s a s') (hf : a ≠ .freeze) :
    Inv lost s' := by
  obtain ⟨p, lock, av, us, xm, rd, ad, rs, sus, kz, gone, ret, bug⟩ := s
  cases hs with
  | call hx | drop hx | kzalloc hx | noMem hx | stopBusy hx | full1 hx | kick hx | stopFail hx =>
    dsimp only at hx
    subst hx
    exact { h with room := fun hp => by cases hp }
  | full2 hx hl =>
    have := h.room (by rw [hx]; rfl)
    exact absurd this (Nat.not_lt.mpr hl)
  | room1 hx hl | room2 hx hl => dsimp only at hx; subst hx; exact { h with room := fun _ => hl }
  | stopNormal hx => dsimp only at hx; subst hx; exact { h with room := h.room }
  | lock1 hx hl =>
    dsimp only at hx hl
    subst hx hl
    have hr : rd.locked = false := by simpa using h.lockR
    exact { h with lockX := by simp [XmitPc.locked], lockR := by simp [hr], room := h.room }
  | allocBug hx ha =>
    obtain ⟨idx, rest, -, ha'⟩ := h.alloc_ok hx
    rw [ha'] at ha
    cases ha
  | alloc hx ha => exact h.alloc hx ha
  | link hx => exact h.link hx
  | echoBug hx hneg =>
    rename_i skb m
    have hm := h.mem_of_linked (m := m) (by rw [hx]; simp [XmitPc.linked])
    have := (mem_allIdx.mp (h.mem_allIdx_of_inFlight hm)).1
    omega
  | echo hx hneg =>
    rename_i skb m
    obtain ⟨e, g, he⟩ := canPutEchoSkb_frame ⟨p, lock, av, us, xm, rd, ad, rs, sus, kz, gone, ret, bug⟩ skb m.putidx
    rw [he]
    dsimp only at hx
    subst hx
    exact { h with room := fun hp => by cases hp }
  | lock2 hx hl =>
    dsimp only at hx hl
    subst hx hl
    have hr : rd.locked = false := by simpa using h.lockR
    exact { h with lockX := by simp [XmitPc.locked], lockR := by simp [hr], room := fun hp => by cases hp }
  | add hx =>
    rename_i skb m
    dsimp only at hx
    subst hx
    have hr := h.excl rfl
    exact { h with
      lockX := by simp [XmitPc.locked]
      lockR := by simp [hr]
      room := fun hp => by cases hp
      ring := by
        refine h.ring.trans (List.perm_iff_count.mpr fun i => ?_)
        simp only [XmitPc.linked, State.ring, List.count_append, List.count_nil]
        omega }
  | undoBug hx hb => cases (h.undo_ok hx).symm.trans hb
  | undo hx hp => exact h.undo hx hp
  | rdLock hr hl =>
    dsimp only at hr hl
    subst hr hl
    have hx : xm.locked = false := by simpa using h.lockX
    exact { h with lockX := by simp [hx], lockR := by simp [ReadPc.locked] }
  | rdNone hr hu =>
    dsimp only at hr
    subst hr
    have hl : lock = some .read := h.lockR.mpr rfl
    have hx : xm.locked = false := by simpa [hl] using h.lockX
    exact { h with lockX := by simp [hx], lockR := by simp [ReadPc.locked] }
  | rdGet hr hu =>
    rename_i m rest
    dsimp only at hr hu
    subst hr hu
    exact { h with
      lockR := h.lockR
      ring := by
        refine h.ring.trans (List.perm_iff_count.mpr fun i => ?_)
        simp only [ReadPc.popped, State.ring, List.count_append, List.count_cons, List.count_nil]
        omega }
  | rdEcho hr =>
    rename_i m
    obtain ⟨e, g, he⟩ := takeEchoSkb_frame ⟨p, lock, av, us, xm, rd, ad, rs, sus, kz, gone, ret, bug⟩ m.putidx
    rw [he]
    dsimp only at hr
    subst hr
    exact { h with lockR := h.lockR }
  | rdUnlink hr => exact h.unlink hr
  | rdFreeBug hr hb => cases (h.free_ok hr).symm.trans hb
  | rdFree hr hp => exact h.freeIdx hr hp
  | rdTest hr =>
    dsimp only at hr
    subst hr
    cases hq : p.queueStopped <;> exact { h with lockR := h.lockR }
  | rdWake hr => dsimp only at hr; subst hr; exact { h with lockR := h.lockR }
  | complete hi =>
    rename_i i m
    obtain ⟨hlt, rfl⟩ := List.getElem?_eq_some_iff.mp hi
    have hmove := List.getElem_cons_eraseIdx_perm hlt
    exact { h with
      ring := by
        refine h.ring.trans (List.perm_iff_count.mpr fun k => ?_)
        have hcount := hmove.count_eq k
        simp only [State.ring, List.count_append, List.count_cons, List.count_nil] at hcount ⊢
        omega }
  | openStart | openQueue | closeStop | closeCtrl | restart | restartWake => exact { h with }
  | closeFlush => exact { h with }
  | busOff =>
    unfold VirtioCan.busOff
    split <;> exact { h with }
  | freeze => exact absurd rfl hf
  | restore hr hs =>
    rcases restore_cases hr with ⟨-, rfl⟩ | ⟨-, q, -, rfl⟩
    · exact h
    · exact { h with }

/-! ## Suspend -/

/-- A freeze loses the indices of the messages in flight. -/
theorem Inv.freeze {lost : List Int} {s s' : State} (h : Inv lost s) (hs : freeze s = some s') :
    Inv (s.inFlight ++ lost) s' := by
  obtain ⟨hx, hr, -, -, q, rfl⟩ := freeze_cases hs
  exact { h with
    perm := by
      refine (List.perm_iff_count.mpr fun i => ?_).trans h.perm
      simp only [State.inFlight, State.held, hx, hr, XmitPc.msgs, ReadPc.msgs, List.map_nil, List.count_append,
        List.count_nil]
      omega
    count := by
      have := h.count
      simp only [State.inFlight, State.held, hx, hr, XmitPc.msgs, ReadPc.msgs, List.map_nil, List.length_nil,
        List.length_append, List.append_nil] at this ⊢
      omega
    prio := by simp [hx, hr, XmitPc.msgs, ReadPc.msgs]
    ring := by simp [State.ring, hx, hr, XmitPc.linked, ReadPc.popped] }

/-! ## Reached states -/

theorem probe_inv (numFree : Nat) (indirect : Bool) : Inv [] (probe numFree indirect) where
  lockX := by simp [probe, XmitPc.locked]
  lockR := by simp [probe, ReadPc.locked]
  perm := by simp [probe, State.inFlight, State.held, XmitPc.msgs, ReadPc.msgs]
  count := by simp [probe, State.inFlight, State.held, XmitPc.msgs, ReadPc.msgs]
  limit := Nat.zero_le _
  limitMax := by
    simp only [probe]
    split <;> split <;> omega
  room := fun hp => by cases hp
  prio := by simp [probe, XmitPc.msgs, ReadPc.msgs]
  ring := by simp [probe, State.ring, XmitPc.linked, ReadPc.popped]
  bug := rfl

/-- Suspend and resume are left out. -/
def NoSuspend (_ : State) (a : Act) : Prop := a ≠ .freeze

instance (s : State) (a : Act) : Decidable (NoSuspend s a) := inferInstanceAs (Decidable (_ ≠ _))

theorem inv_inductive : machine.Inductive NoSuspend (Inv []) where
  init s hs := by
    obtain ⟨n, i, rfl⟩ := hs
    exact probe_inv n i
  step _ _ _ h ha hs := h.step (step_cases hs).1 ha

theorem reach_inv {s : State} (h : machine.Reach NoSuspend s) : Inv [] s := inv_inductive.reach h

theorem lost_inductive : machine.Inductive (fun _ _ => True) fun s => ∃ lost, Inv lost s where
  init s hs := by
    obtain ⟨n, i, rfl⟩ := hs
    exact ⟨[], probe_inv n i⟩
  step s a s' h _ hs := by
    obtain ⟨lost, h⟩ := h
    by_cases ha : a = .freeze
    · subst ha
      cases (step_cases hs).1 with
      | freeze hf => exact ⟨_, h.freeze hf⟩
    · exact ⟨lost, h.step (step_cases hs).1 ha⟩

theorem reachable_inv {s : State} (h : machine.Reachable s) : ∃ lost, Inv lost s := lost_inductive.reach h

/-! ## The bookkeeping -/

/-- The bookkeeping as seen with `tx_lock` free. -/
structure Bookkeeping (s : State) : Prop where
  free_nodup : s.txPutidxFree.Nodup
  inFlight_nodup : s.inFlight.Nodup
  disjoint : ∀ i ∈ s.txPutidxFree, i ∉ s.inFlight
  cover : ∀ i : Int, (i ∈ s.txPutidxFree ∨ i ∈ s.inFlight) ↔ 0 ≤ i ∧ i < s.echoSkbMax
  count : s.txInflight = s.txList.length
  limit : s.txInflight ≤ s.txLimit

theorem Inv.bookkeeping {s : State} (h : Inv [] s) (hl : s.txLock = none) : Bookkeeping s := by
  have hheld := h.held_nil hl
  have hperm := h.perm
  have hnd := h.nodup
  have hcnt := h.count
  simp only [hheld, List.append_nil] at hperm hnd
  obtain ⟨h1, h2, h3⟩ := List.nodup_append.mp hnd
  refine ⟨h1, h2, fun i hi hj => h3 i hi i hj rfl, fun i => ?_, ?_, h.limit⟩
  · rw [← List.mem_append, hperm.mem_iff, mem_allIdx]
  · simpa [hheld, State.inFlight] using hcnt

/-- **The TX bookkeeping invariant.** In every state of every run without
suspend: with `tx_lock` free, the free indices and the indices in flight are
duplicate-free, disjoint and together `0 .. echo_skb_max - 1`, and
`tx_inflight` is the length of `tx_list` and within the limit. No two
messages in flight share an echo slot, `virtio_can_alloc_tx_idx` never
returns -1, and no `BUG_ON` has fired. -/
theorem txBookkeeping {s : State} (h : machine.Reach NoSuspend s) :
    (s.txLock = none → Bookkeeping s) ∧ s.inFlight.Nodup ∧
    (∀ skb addr, s.xmit = .alloc skb addr → ∃ idx p, allocTxIdx s.toPriv 0 = .ok (idx, p) ∧ idx ≠ -1) ∧
    s.bug = none := by
  have hi := reach_inv h
  refine ⟨hi.bookkeeping, ?_, fun skb addr hx => ?_, hi.bug⟩
  · have := hi.nodup
    simp only [List.append_assoc] at this
    exact (List.nodup_append.mp (List.nodup_append.mp this).2.1).1
  · obtain ⟨idx, rest, hfree, ha⟩ := hi.alloc_ok hx
    refine ⟨idx, _, ha, ?_⟩
    have := (mem_allIdx.mp (hi.perm.subset (a := idx) (by simp [hfree]))).1
    omega

/-- Opening the interface and queueing one frame. -/
def openAndSend (skb : Skb) : List Act :=
  [.admin, .admin, .xmitCall skb, .xmitKzalloc true] ++ List.replicate 7 .xmit ++ [.xmitAdd true, .xmit]

theorem txBookkeeping_openAndSend : ∃ s, s.txList.length = 1 ∧ (s.txLock = none → Bookkeeping s) ∧ s.inFlight.Nodup ∧
    (∀ skb addr, s.xmit = .alloc skb addr → ∃ idx p, allocTxIdx s.toPriv 0 = .ok (idx, p) ∧ idx ≠ -1) ∧
    s.bug = none := by
  obtain ⟨s, hs, hl⟩ := Machine.exists_reach NoSuspend (probe_init 4 true) (openAndSend 7)
    (fun s => s.txList.length = 1) (by decide +kernel)
  exact ⟨s, hl, txBookkeeping hs⟩

end Agl.VirtioCan
