/-
Room in the transmit ring.

`virtio_can_probe` takes half the ring's descriptors for the limit, or all
of them when indirect descriptors are negotiated: then a message holds one
if a table for it can be allocated and two if not. The limit counts
messages, so it keeps room for the next one as long as those that hold two
descriptors are no more than the ring has beyond the limit (`txRing_room`).

The ring is run beside the transmit machine up to the first suspend; it
decides what `virtqueue_add_sgs` returns.
-/
import Agl.Can.Suspend
import Agl.Lib.Descriptors

namespace Agl.VirtioCan

/-- What `virtqueue_add_sgs` fails with. -/
inductive AddErr
  /-- `-ENOSPC` -/
  | noSpc
  /-- any other error, found before the descriptors are counted -/
  | other
  deriving DecidableEq, Repr

/-- `virtqueue_add_sgs` for the two elements of a message; `table` says
whether there is memory for an indirect table. -/
def virtqueueAddSgs (indirect : Bool) (vq : Ring TxMsg) (m : TxMsg) (table broken : Bool) :
    Except AddErr (Ring TxMsg) :=
  if broken then .error .other
  else
    match vq.add m (if indirect && table then 1 else 2) with
    | none => .error .noSpc
    | some vq => .ok vq

/-- The message `virtqueue_get_buf` returns in a step. -/
def gets (s : State) (a : Act) : Option TxMsg :=
  if a = .read ∧ s.read = .get then s.used.head? else none

inductive RingAct
  | tx (a : Act)
  /-- `virtqueue_add_sgs` -/
  | add (table broken : Bool)
  deriving DecidableEq, Repr

/-- The ring after a step that adds nothing. -/
def ringAfter (s : State) (a : Act) (vq : Ring TxMsg) : Ring TxMsg :=
  match gets s a with
  | none => vq
  | some m => vq.get m

def ringStep (indirect : Bool) (w : State × Ring TxMsg) : RingAct → Option (State × Ring TxMsg)
  | .add table broken =>
    match w.1.xmit with
    | .add _ m =>
      match virtqueueAddSgs indirect w.2 m table broken with
      | .error _ => (step w.1 (.xmitAdd false)).map fun s => (s, w.2)
      | .ok vq => (step w.1 (.xmitAdd true)).map fun s => (s, vq)
    | _ => none
  | .tx (.xmitAdd _) | .tx .freeze => none
  | .tx a => (step w.1 a).map fun s => (s, ringAfter w.1 a w.2)

/-- The driver with a TX virtqueue of `size` descriptors. -/
def ringMachine (size : Nat) (indirect : Bool) : Machine (State × Ring TxMsg) RingAct where
  init w := w = (probe size indirect, .fresh size)
  step := ringStep indirect

/-! ## The runs of the transmit machine -/

/-- A step adds the message, or takes at most one. -/
inductive RingStep (indirect : Bool) (w : State × Ring TxMsg) : State × Ring TxMsg → Prop
  | add {skb m table s vq} : w.1.xmit = .add skb m → w.2.add m (if indirect && table then 1 else 2) = some vq →
      machine.step w.1 (.xmitAdd true) = some s → RingStep indirect w (s, vq)
  | other {a s} : a ≠ .freeze → a ≠ .xmitAdd true → machine.step w.1 a = some s →
      RingStep indirect w (s, ringAfter w.1 a w.2)

theorem virtqueueAddSgs_ok {indirect : Bool} {vq vq' : Ring TxMsg} {m : TxMsg} {table broken : Bool}
    (h : virtqueueAddSgs indirect vq m table broken = .ok vq') :
    vq.add m (if indirect && table then 1 else 2) = some vq' := by
  unfold virtqueueAddSgs at h
  split at h
  · cases h
  · split at h
    · cases h
    · next heq =>
      cases h
      exact heq

theorem ringStep_cases {indirect : Bool} {w w' : State × Ring TxMsg} {a : RingAct}
    (h : ringStep indirect w a = some w') : RingStep indirect w w' := by
  unfold ringStep at h
  split at h
  · split at h
    · next hx =>
      split at h
      · obtain ⟨s, hs, rfl⟩ := Option.map_eq_some_iff.mp h
        have hring : w.2 = ringAfter w.1 (.xmitAdd false) w.2 := by simp [ringAfter, gets]
        rw [hring]
        exact .other (by simp) (by simp) hs
      · next hadd =>
        obtain ⟨s, hs, rfl⟩ := Option.map_eq_some_iff.mp h
        exact .add hx (virtqueueAddSgs_ok hadd) hs
    · cases h
  · cases h
  · cases h
  · next a hadd hfreeze =>
    obtain ⟨s, hs, rfl⟩ := Option.map_eq_some_iff.mp h
    exact .other (fun hf => hfreeze (by rw [hf])) (fun ha => hadd true (by rw [ha])) hs

/-- What runs with the ring runs without it. -/
theorem ringReach_tx {size : Nat} {indirect : Bool} {w : State × Ring TxMsg}
    (h : (ringMachine size indirect).Reachable w) : machine.Reach NoSuspend w.1 := by
  induction h with
  | init h =>
    rw [h]
    exact .init (probe_init size indirect)
  | step _ _ hs ih =>
    cases ringStep_cases hs with
    | add _ _ hstep => exact .step ih (by simp [NoSuspend]) hstep
    | other hf _ hstep => exact .step ih hf hstep

/-! ## The messages in the ring -/

/-- Apart from `virtqueue_add_sgs`, the driver only takes messages out. -/
theorem Step.ring {s s' : State} {a : Act} (hs : Step s a s') (hf : a ≠ .freeze) (ha : a ≠ .xmitAdd true) :
    s.ring.Perm ((gets s a).toList ++ s'.ring) := by
  have hnone (hr : s.read ≠ .get ∨ a ≠ .read ∨ s.used = []) : gets s a = none := by
    unfold gets
    split
    · next h => rcases hr with hr | hr | hr <;> simp_all
    · rfl
  cases hs with
  | add => exact absurd rfl ha
  | freeze => exact absurd rfl hf
  | rdGet hr hu => simp [gets, hr, hu, State.ring]
  | rdNone hr hu =>
    rw [hnone (.inr (.inr hu))]
    exact .refl _
  | rdEcho hr =>
    rename_i m
    rw [hnone (.inl (by rw [hr]; exact ReadPc.noConfusion))]
    obtain ⟨e, g, he⟩ := takeEchoSkb_frame s m.putidx
    rw [he]
    exact .refl _
  | rdLock hr | rdUnlink hr | rdFreeBug hr | rdTest hr | rdWake hr =>
    rw [hnone (.inl (by rw [hr]; exact ReadPc.noConfusion))]
    exact .refl _
  | rdFree hr hfr =>
    rw [hnone (.inl (by rw [hr]; exact ReadPc.noConfusion))]
    exact .refl _
  | complete hi =>
    rename_i i m
    rw [hnone (.inr (.inl (by simp)))]
    obtain ⟨hlt, rfl⟩ := List.getElem?_eq_some_iff.mp hi
    have hmove := List.getElem_cons_eraseIdx_perm hlt
    refine List.perm_iff_count.mpr fun k => ?_
    have hcount := hmove.count_eq k
    simp only [State.ring, Option.toList_none, List.nil_append, List.count_append, List.count_cons,
      List.count_nil] at hcount ⊢
    omega
  | echo =>
    rename_i skb m _ _
    rw [hnone (.inr (.inl (by simp)))]
    obtain ⟨e, g, he⟩ := canPutEchoSkb_frame s skb m.putidx
    rw [he]
    exact .refl _
  | busOff =>
    rw [hnone (.inr (.inl (by simp)))]
    unfold VirtioCan.busOff
    split <;> exact .refl _
  | restore hr _ =>
    rw [hnone (.inr (.inl (by simp)))]
    rcases restore_cases hr with ⟨-, rfl⟩ | ⟨-, q, -, rfl⟩ <;> exact .refl _
  | _ =>
    rw [hnone (.inr (.inl (by simp)))]
    exact .refl _

/-- The ring holds the messages of the machine, one or two descriptors each. -/
structure RingInv (size : Nat) (indirect : Bool) (w : State × Ring TxMsg) : Prop where
  sized : w.2.Sized size
  bufs : w.2.bufs.Perm w.1.ring
  two : ∀ e ∈ w.2.held, e.2 = 2 ∨ indirect = true ∧ e.2 = 1
  limit : w.1.txLimit = (probe size indirect).txLimit

theorem RingInv.step {size : Nat} {indirect : Bool} {w w' : State × Ring TxMsg} (h : RingInv size indirect w)
    (hs : RingStep indirect w w') : RingInv size indirect w' := by
  cases hs with
  | add hx hadd hstep =>
    rename_i skb m table s vq
    obtain ⟨hs, -, -⟩ := step_cases hstep
    refine ⟨h.sized.add hadd, ?_, ?_, hs.limits.1.trans h.limit⟩
    · cases hs with
      | add hx' =>
        rw [hx] at hx'
        cases hx'
        rw [Ring.bufs_add hadd]
        refine (h.bufs.append_right _).trans (List.perm_iff_count.mpr fun k => ?_)
        simp only [State.ring, List.count_append]
        omega
    · obtain ⟨-, rfl⟩ := Ring.add_cases hadd
      intro e he
      rcases List.mem_append.mp he with he | he
      · exact h.two e he
      · obtain rfl := List.mem_singleton.mp he
        cases indirect <;> cases table <;> simp
  | other hf ha hstep =>
    rename_i a s
    obtain ⟨hs, -, -⟩ := step_cases hstep
    have hring := hs.ring hf ha
    refine ⟨?_, ?_, ?_, hs.limits.1.trans h.limit⟩ <;> unfold ringAfter <;> split
    · exact h.sized
    · exact h.sized.get _
    · next hgets =>
      rw [hgets] at hring
      exact h.bufs.trans hring
    · next m hgets =>
      rw [hgets] at hring
      have hperm : w.2.bufs.Perm (m :: s.ring) := h.bufs.trans hring
      have hget := Ring.bufs_get (hperm.mem_iff.mpr List.mem_cons_self)
      exact List.Perm.cons_inv (hget.symm.trans hperm)
    · exact h.two
    · exact fun e he => h.two e (Ring.mem_held_get he)

theorem ringInv_inductive (size : Nat) (indirect : Bool) :
    (ringMachine size indirect).Inductive (fun _ _ => True) (RingInv size indirect) where
  init w hw := by
    rw [hw]
    exact ⟨Ring.sized_fresh, .refl _, fun _ he => (by cases he), rfl⟩
  step w a w' h _ hs := h.step (ringStep_cases hs)

/-! ## Room for the next one -/

/-- Past the test against `tx_limit`, with the message not in the ring yet. -/
def XmitPc.admitted : XmitPc → Bool
  | .test2 _ _ | .stopNormal _ _ | .lock1 _ _ | .alloc _ _ | .link _ _ | .echo _ _ | .lock2 _ _ | .add _ _ => true
  | _ => false

/-- The messages in the ring leave one place under the limit. -/
theorem Inv.ring_lt {lost : List Int} {s : State} (h : Inv lost s) (hx : s.xmit.admitted = true) :
    s.ring.length < s.txLimit := by
  have hring := h.ring.length_eq
  have hcount := h.count
  have hlimit := h.limit
  have hroom := h.room
  simp only [List.length_append, State.inFlight, State.held, List.length_map] at hring hcount
  cases hp : s.xmit with
  | test2 | stopNormal | lock1 | alloc =>
    have := hroom (by rw [hp]; rfl)
    omega
  | link | echo | lock2 | add =>
    simp only [hp, XmitPc.linked, XmitPc.msgs, List.length_cons, List.length_nil] at hring hcount
    omega
  | idle | entry | test1 | stopBusy | stopFail | kick =>
    rw [hp] at hx
    cases hx

/-- The messages that hold two descriptors, the next one included, are no
more than the ring has beyond the limit. -/
def FewDirect (w : State × Ring TxMsg) (size : Nat) (table : Bool) : Prop :=
  w.2.direct + (if table then 0 else 1) + w.1.txLimit ≤ size

instance (w : State × Ring TxMsg) (size : Nat) (table : Bool) : Decidable (FewDirect w size table) :=
  inferInstanceAs (Decidable (_ ≤ _))

/-- **Room in the transmit ring.** For every ring size, in every state
before the first suspend: once `virtio_can_start_xmit` has passed its test,
and until the message is added, `virtqueue_add_sgs` does not return
`-ENOSPC`, when indirect descriptors are not negotiated, when the ring has
256 descriptors or more, and else as long as few messages go without a
table. -/
theorem txRing_room {size : Nat} {indirect : Bool} {w : State × Ring TxMsg}
    (h : (ringMachine size indirect).Reachable w) (hx : w.1.xmit.admitted = true) {table : Bool}
    (hfew : indirect = false ∨ 256 ≤ size ∨ FewDirect w size table) (m : TxMsg) (broken : Bool) :
    virtqueueAddSgs indirect w.2 m table broken ≠ .error .noSpc := by
  have hi := (ringInv_inductive size indirect).reach h
  have hlt := (reach_inv (ringReach_tx h)).ring_lt hx
  have hlen := hi.bufs.length_eq
  have htotal := hi.sized.numFree_of_two fun e he => (hi.two e he).elim .inr fun h => .inl h.2
  have hdirect : w.2.direct ≤ w.2.bufs.length := by
    unfold Ring.direct Ring.bufs
    rw [List.length_map]
    exact List.countP_le_length
  have hlimit := hi.limit
  have hfree : (if indirect && table then 1 else 2) ≤ w.2.numFree := by
    cases indirect with
    | false =>
      simp only [probe, Bool.false_eq_true, if_false, Nat.shiftRight_one, maxEchoSkb] at hlimit
      simp only [Bool.false_and, Bool.false_eq_true, if_false]
      split at hlimit <;> omega
    | true =>
      simp only [probe, if_true, maxEchoSkb] at hlimit
      unfold FewDirect at hfew
      simp only [Bool.true_and]
      cases table <;> simp at hfew ⊢ <;> split at hlimit <;> omega
  unfold virtqueueAddSgs
  split
  · simp
  · split
    · next hnone => exact absurd hfree (Nat.not_le.mpr (Ring.add_eq_none_iff.mp hnone))
    · simp

/-- Opening the interface and sending up to the ring. -/
def sendUpTo (skb : Skb) : List RingAct :=
  [.tx (.xmitCall skb), .tx (.xmitKzalloc true)] ++ List.replicate 7 (.tx .xmit)

/-- The second of two frames in a ring of four. -/
theorem txRing_room_four : ∃ w : State × Ring TxMsg, w.2.numFree = 2 ∧
    ∀ m, virtqueueAddSgs false w.2 m true false ≠ .error .noSpc := by
  obtain ⟨w, hw, hfree, hx⟩ := Machine.exists_reach (fun _ _ => True) (M := ringMachine 4 false) rfl
    ([.tx .admin, .tx .admin] ++ sendUpTo 7 ++ [.add true false, .tx .xmit] ++ sendUpTo 8)
    (fun w => w.2.numFree = 2 ∧ w.1.xmit.admitted = true) (by decide +kernel)
  exact ⟨w, hfree, fun m => txRing_room hw hx (.inl rfl) m false⟩

/-- With indirect descriptors negotiated and no memory for the first
message's table, a ring of two has no room for the second. -/
theorem txRing_full : ∃ (size : Nat) (w : State × Ring TxMsg) (m : TxMsg), (ringMachine size true).Reachable w ∧
    w.1.xmit.admitted = true ∧ virtqueueAddSgs true w.2 m true false = .error .noSpc := by
  obtain ⟨w, hw, hx, hadd⟩ := Machine.exists_reach (fun _ _ => True) (M := ringMachine 2 true) rfl
    ([.tx .admin, .tx .admin] ++ sendUpTo 7 ++ [.add false false, .tx .xmit] ++ sendUpTo 8)
    (fun w => w.1.xmit.admitted = true ∧ virtqueueAddSgs true w.2 ⟨1, 0, 1⟩ true false = .error .noSpc)
    (by decide +kernel)
  exact ⟨2, w, _, hw, hx, hadd⟩

end Agl.VirtioCan
