/-
A buffer that is filled by stores: what a sequence of stores leaves in
memory, the rule for one that is written from front to back (each part goes
behind what is there, and the rest stays zero), and the rule for stores that
stay apart, in any order.
-/
import Agl.Lib.Words

namespace Agl

/-- Bytes written at an offset. -/
structure Store where
  off : Nat
  bytes : List UInt8
  deriving DecidableEq, Repr

/-- The offset behind it. -/
def Store.stop (st : Store) : Nat := st.off + st.bytes.length

/-- Neither store touches a byte of the other. -/
def Store.Apart (a b : Store) : Prop := a.stop ≤ b.off ∨ b.stop ≤ a.off

namespace Mem

variable {m m' m'' : Mem} {off : Nat} {l l' : List UInt8}

def store (m : Mem) (st : Store) : Mem := fun i =>
  if st.off ≤ i ∧ i < st.stop then st.bytes.getD (i - st.off) 0 else m i

/-- The stores in order. -/
def stores (m : Mem) : List Store → Mem
  | [] => m
  | st :: rest => stores (m.store st) rest

theorem stores_append (m : Mem) (a b : List Store) : m.stores (a ++ b) = (m.stores a).stores b := by
  induction a generalizing m with
  | nil => rfl
  | cons st rest ih => exact ih (m.store st)

theorem store_outside (m : Mem) (st : Store) {i : Nat} (h : i < st.off ∨ st.stop ≤ i) : m.store st i = m i := by
  unfold store
  rw [if_neg (by omega)]

theorem store_holds (m : Mem) (st : Store) : (m.store st).Holds st.off st.bytes := by
  rw [holds_iff]
  intro i hi
  have hin : st.off ≤ st.off + i ∧ st.off + i < st.stop := by
    simp only [Store.stop]
    omega
  simp [store, hin, hi]

/-- What is held elsewhere stays. -/
theorem Holds.congr (h : m.Holds off l) (he : ∀ i, off ≤ i → i < off + l.length → m' i = m i) : m'.Holds off l := by
  rw [holds_iff] at h ⊢
  intro i hi
  rw [he (off + i) (Nat.le_add_right off i) (by omega)]
  exact h i hi

/-! ## From front to back -/

/-- Nothing but zeros from `off` on. -/
def ZeroFrom (m : Mem) (off : Nat) : Prop := ∀ i, off ≤ i → m i = 0

/-- The bytes have been written at `off`, where all was zero, and nothing else. -/
structure Appends (m m' : Mem) (off : Nat) (l : List UInt8) : Prop where
  below : ∀ i < off, m' i = m i
  holds : m'.Holds off l
  rest : m'.ZeroFrom (off + l.length)

theorem ZeroFrom.mono {off' : Nat} (h : m.ZeroFrom off) (hle : off ≤ off') : m.ZeroFrom off' := fun i hi =>
  h i (Nat.le_trans hle hi)

theorem ZeroFrom.append_nil (h : m.ZeroFrom off) : Appends m m off [] :=
  ⟨fun _ _ => rfl, trivial, h⟩

/-- Padding is there without being written. -/
theorem ZeroFrom.append_zeros (h : m.ZeroFrom off) (n : Nat) : Appends m m off (List.replicate n 0) where
  below _ _ := rfl
  holds := by
    rw [holds_iff]
    intro i hi
    rw [List.getElem_replicate]
    exact h (off + i) (Nat.le_add_right off i)
  rest := h.mono (Nat.le_add_right off _)

theorem ZeroFrom.append_store (h : m.ZeroFrom off) (l : List UInt8) : Appends m (m.store ⟨off, l⟩) off l where
  below i hi := store_outside m _ (.inl hi)
  holds := store_holds m ⟨off, l⟩
  rest i hi := by
    rw [store_outside m _ (.inr hi)]
    exact h i (by omega)

theorem Appends.trans (h : Appends m m' off l) (h' : Appends m' m'' (off + l.length) l') :
    Appends m m'' off (l ++ l') where
  below i hi := by
    rw [h'.below i (by omega)]
    exact h.below i hi
  holds := by
    refine holds_append.mpr ⟨h.holds.congr fun i _ hi => h'.below i hi, h'.holds⟩
  rest := by
    rw [List.length_append, ← Nat.add_assoc]
    exact h'.rest

/-- A header that is written after what follows it. -/
theorem Appends.header {k : Nat} (h : Appends m m' (off + (l.length + k)) l') (hz : m.ZeroFrom off) :
    Appends m (m'.store ⟨off, l⟩) off (l ++ (List.replicate k 0 ++ l')) := by
  have hbelow : ∀ i < off + (l.length + k), off + l.length ≤ i → m'.store ⟨off, l⟩ i = 0 := by
    intro i hi hge
    rw [store_outside m' _ (.inr hge), h.below i hi]
    exact hz i (by omega)
  refine ⟨fun i hi => ?_, holds_append.mpr ⟨store_holds m' ⟨off, l⟩, holds_append.mpr ⟨?_, ?_⟩⟩, fun i hi => ?_⟩
  · rw [store_outside m' _ (.inl hi)]
    exact h.below i (by omega)
  · rw [holds_iff]
    intro i hi
    rw [List.getElem_replicate]
    rw [List.length_replicate] at hi
    exact hbelow _ (by omega) (by omega)
  · rw [List.length_replicate, Nat.add_assoc]
    refine h.holds.congr fun i hi _ => store_outside m' _ (.inr ?_)
    simp only [Store.stop]
    omega
  · simp only [List.length_append, List.length_replicate] at hi
    rw [store_outside m' _ (.inr (by simp only [Store.stop]; omega))]
    exact h.rest i (by omega)

/-! ## In any order -/

theorem stores_outside {sts : List Store} {i : Nat} (h : ∀ st ∈ sts, i < st.off ∨ st.stop ≤ i) :
    m.stores sts i = m i := by
  induction sts generalizing m with
  | nil => rfl
  | cons st rest ih =>
    exact (ih fun st' hst' => h st' (List.mem_cons_of_mem st hst')).trans
      (store_outside m st (h st List.mem_cons_self))

/-- Of stores that stay apart each leaves what it stored. -/
theorem stores_holds {sts : List Store} (h : sts.Pairwise Store.Apart) (st : Store) (hst : st ∈ sts) :
    (m.stores sts).Holds st.off st.bytes := by
  induction sts generalizing m with
  | nil => cases hst
  | cons st' rest ih =>
    obtain ⟨hapart, hrest⟩ := List.pairwise_cons.mp h
    rcases List.mem_cons.mp hst with rfl | hst
    · refine (store_holds m st).congr fun i hi hlt => ?_
      show (m.store st).stores rest i = m.store st i
      refine stores_outside fun st' hst' => ?_
      rcases hapart st' hst' with hle | hle
      · exact .inl (Nat.lt_of_lt_of_le hlt hle)
      · exact .inr (Nat.le_trans hle hi)
    · exact ih hrest hst

theorem holds_zeros {n : Nat} (h : ∀ i, off ≤ i → i < off + n → m i = 0) : m.Holds off (List.replicate n 0) := by
  rw [holds_iff]
  intro i hi
  rw [List.length_replicate] at hi
  rw [List.getElem_replicate]
  exact h (off + i) (Nat.le_add_right off i) (by omega)

theorem holds_of_map_range {l : List UInt8} (h : (List.range l.length).map (fun i => m (off + i)) = l) :
    m.Holds off l := by
  rw [holds_iff]
  intro i hi
  have hget := congrArg (·[i]?) h
  simp only [List.getElem?_map, List.getElem?_range hi, Option.map_some, List.getElem?_eq_getElem hi,
    Option.some.injEq] at hget
  exact hget

/-- Elements of one width after another. -/
theorem holds_flatMap {α : Type} {g : α → List UInt8} {width : Nat} (hw : ∀ a, (g a).length = width) {as : List α}
    (h : ∀ i a, as[i]? = some a → m.Holds (off + width * i) (g a)) : m.Holds off (as.flatMap g) := by
  induction as generalizing off with
  | nil => trivial
  | cons a as ih =>
    rw [List.flatMap_cons, holds_append]
    refine ⟨h 0 a rfl, ih fun i b hb => ?_⟩
    rw [hw, Nat.add_assoc, Nat.add_comm width, ← Nat.mul_succ]
    exact h (i + 1) b hb

end Mem

/-! ## An array behind a header -/

section

variable {hdr : List Store} {f : Nat → List Store} {base width : Nat}
  (hin : ∀ i, ∀ st ∈ f i, base + width * i ≤ st.off ∧ st.stop ≤ base + width * (i + 1))
include hin

/-- A loop that keeps to element `i` of an array in its round `i` makes stores
that stay apart. -/
theorem apart_flatMap (hf : ∀ i, (f i).Pairwise Store.Apart) (n : Nat) :
    ((List.range n).flatMap f).Pairwise Store.Apart := by
  refine List.pairwise_flatMap.mpr ⟨fun i _ => hf i, List.pairwise_lt_range.imp fun {i j} hij st hst st' hst' => ?_⟩
  have hle : width * (i + 1) ≤ width * j := Nat.mul_le_mul_left width hij
  have hi := (hin i st hst).2
  have hj := (hin j st' hst').1
  exact .inl (by omega)

theorem flatMap_stop {n : Nat} {st : Store} (hst : st ∈ (List.range n).flatMap f) : st.stop ≤ base + width * n := by
  obtain ⟨i, hi, hst⟩ := List.mem_flatMap.mp hst
  have hle : width * (i + 1) ≤ width * n := Nat.mul_le_mul_left width (List.mem_range.mp hi)
  have := (hin i st hst).2
  omega

namespace Mem

variable {m : Mem}

/-- The loop leaves the header, -/
theorem stores_header (n : Nat) {j : Nat} (hj : j < base) :
    m.stores (hdr ++ (List.range n).flatMap f) j = m.stores hdr j := by
  rw [stores_append]
  refine stores_outside fun st hst => ?_
  obtain ⟨i, -, hst⟩ := List.mem_flatMap.mp hst
  have := (hin i st hst).1
  exact .inl (by omega)

/-- fills the elements it comes to, -/
theorem stores_element (hf : ∀ i, (f i).Pairwise Store.Apart) {n i : Nat} (hi : i < n) (st : Store) (hst : st ∈ f i) :
    (m.stores (hdr ++ (List.range n).flatMap f)).Holds st.off st.bytes := by
  rw [stores_append]
  exact stores_holds (apart_flatMap hin hf n) st (List.mem_flatMap.mpr ⟨i, List.mem_range.mpr hi, hst⟩)

/-- and leaves those behind. -/
theorem stores_behind (hhdr : ∀ st ∈ hdr, st.stop ≤ base) {n j : Nat} (hj : base + width * n ≤ j) :
    m.stores (hdr ++ (List.range n).flatMap f) j = m j := by
  refine stores_outside fun st hst => .inr ?_
  rcases List.mem_append.mp hst with hst | hst
  · exact Nat.le_trans (hhdr st hst) (by omega)
  · exact Nat.le_trans (flatMap_stop hin hst) hj

end Mem

end

end Agl
