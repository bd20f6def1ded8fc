/-
Fixed-width words: their little-endian bytes, as encoders that match
`Mem.le32` and `Mem.le64` and a memory that holds a list of bytes, their flag
bits, read one by one, and rounding up with a mask.
-/
import Agl.Lib.Access

namespace Agl

/-- The little-endian 16-bit value at `i`. -/
def Mem.le16 (m : Mem) (i : Nat) : UInt16 := UInt16.ofNat ((m i).toNat + 0x100 * (m (i + 1)).toNat)

/-! ## Encoders -/

def le16Bytes (v : UInt16) : List UInt8 := [UInt8.ofNat v.toNat, UInt8.ofNat (v.toNat / 0x100)]

def le32Bytes (v : UInt32) : List UInt8 :=
  [UInt8.ofNat v.toNat, UInt8.ofNat (v.toNat / 0x100), UInt8.ofNat (v.toNat / 0x10000),
    UInt8.ofNat (v.toNat / 0x1000000)]

def le64Bytes (v : UInt64) : List UInt8 :=
  le32Bytes (UInt32.ofNat v.toNat) ++ le32Bytes (UInt32.ofNat (v.toNat / 0x100000000))

@[simp] theorem length_le16Bytes (v : UInt16) : (le16Bytes v).length = 2 := rfl
@[simp] theorem length_le32Bytes (v : UInt32) : (le32Bytes v).length = 4 := rfl
@[simp] theorem length_le64Bytes (v : UInt64) : (le64Bytes v).length = 8 := rfl

theorem length_flatMap_le32Bytes (ws : List UInt32) : (ws.flatMap le32Bytes).length = 4 * ws.length := by
  induction ws with
  | nil => rfl
  | cons w ws ih =>
    rw [List.flatMap_cons, List.length_append, ih, length_le32Bytes, List.length_cons]
    omega

/-! ## Memory that holds them -/

namespace Mem

variable {m : Mem} {off : Nat}

/-- The bytes from `off` on. -/
def Holds (m : Mem) (off : Nat) : List UInt8 → Prop
  | [] => True
  | b :: bs => m off = b ∧ Holds m (off + 1) bs

theorem holds_append {l l' : List UInt8} : m.Holds off (l ++ l') ↔ m.Holds off l ∧ m.Holds (off + l.length) l' := by
  induction l generalizing off with
  | nil => simp [Holds]
  | cons b bs ih =>
    have he : off + 1 + bs.length = off + (b :: bs).length := by simp only [List.length_cons]; omega
    simp only [List.cons_append, Holds, ih, he, and_assoc]

theorem Holds.left {l l' : List UInt8} (h : m.Holds off (l ++ l')) : m.Holds off l := (holds_append.mp h).1

theorem Holds.right {l l' : List UInt8} (h : m.Holds off (l ++ l')) : m.Holds (off + l.length) l' :=
  (holds_append.mp h).2

theorem Holds.get {l : List UInt8} (h : m.Holds off l) {i : Nat} (hi : i < l.length) : m (off + i) = l[i] := by
  induction l generalizing off i with
  | nil => cases hi
  | cons b bs ih =>
    cases i with
    | zero => exact h.1
    | succ i =>
      have he : off + (i + 1) = off + 1 + i := by omega
      rw [he]
      exact ih h.2 (Nat.lt_of_succ_lt_succ hi)

/-- What a memory holds, read off position by position. -/
theorem holds_iff {l : List UInt8} : m.Holds off l ↔ ∀ i (hi : i < l.length), m (off + i) = l[i] := by
  refine ⟨fun h i hi => h.get hi, fun h => ?_⟩
  induction l generalizing off with
  | nil => trivial
  | cons b bs ih =>
    refine ⟨h 0 (Nat.succ_pos _), ih fun i hi => ?_⟩
    have he : off + 1 + i = off + (i + 1) := by omega
    rw [he]
    exact h (i + 1) (Nat.succ_lt_succ hi)

/-- The bytes held, collected. -/
theorem Holds.map_range {l : List UInt8} (h : m.Holds off l) :
    (List.range l.length).map (fun i => m (off + i)) = l := by
  apply List.ext_getElem
  · simp
  · intro i hi hi'
    rw [List.getElem_map, List.getElem_range]
    exact h.get hi'

/-- A buffer as memory; nothing is known behind its end. -/
def ofList (l : List UInt8) (rest : Mem) : Mem := fun i => l.getD i (rest i)

theorem holds_ofList (l : List UInt8) (rest : Mem) : (ofList l rest).Holds 0 l := by
  rw [holds_iff]
  intro i hi
  simp [ofList, List.getD, hi]

/-! ## Reading values back -/

theorem Holds.le16 {v : UInt16} (h : m.Holds off (le16Bytes v)) : m.le16 off = v := by
  obtain ⟨h0, h1, -⟩ := h
  apply UInt16.toNat_inj.mp
  have := v.toNat_lt
  simp only [Mem.le16, h0, h1, UInt8.toNat_ofNat', UInt16.toNat_ofNat']
  omega

theorem Holds.le32 {v : UInt32} (h : m.Holds off (le32Bytes v)) : m.le32 off = v := by
  obtain ⟨h0, h1, h2, h3, -⟩ := h
  apply UInt32.toNat_inj.mp
  have := v.toNat_lt
  simp only [Mem.le32, h0, h1, h2, h3, UInt8.toNat_ofNat', UInt32.toNat_ofNat']
  omega

/-- A sequence of words, one by one. -/
theorem Holds.words {ws : List UInt32} (h : m.Holds off (ws.flatMap le32Bytes)) {i : Nat} {v : UInt32}
    (hi : ws[i]? = some v) : m.le32 (off + 4 * i) = v := by
  induction ws generalizing off i with
  | nil => cases hi
  | cons w ws ih =>
    rw [List.flatMap_cons] at h
    cases i with
    | zero =>
      cases hi
      exact h.left.le32
    | succ i =>
      have he : off + 4 * (i + 1) = off + (le32Bytes w).length + 4 * i := by rw [length_le32Bytes]; omega
      rw [he]
      exact ih h.right hi

theorem Holds.le64 {v : UInt64} (h : m.Holds off (le64Bytes v)) : m.le64 off = v := by
  have hlo := h.left.le32
  have hhi := h.right.le32
  apply UInt64.toNat_inj.mp
  have := v.toNat_lt
  simp only [length_le32Bytes] at hhi
  simp only [Mem.le64, hlo, hhi, UInt32.toNat_ofNat', UInt64.toNat_ofNat']
  omega

end Mem

/-! ## Flags -/

/-- Bit `i` of a word. -/
def bit (x : UInt32) (i : Nat) : Bool := x.toNat.testBit i

theorem bit_and (x y : UInt32) (i : Nat) : bit (x &&& y) i = (bit x i && bit y i) := by
  simp only [bit, UInt32.toNat_and, Nat.testBit_and]

theorem bit_or (x y : UInt32) (i : Nat) : bit (x ||| y) i = (bit x i || bit y i) := by
  simp only [bit, UInt32.toNat_or, Nat.testBit_or]

theorem bit_not (x : UInt32) {i : Nat} (hi : i < 32) : bit (~~~x) i = !bit x i := by
  have hn : (~~~x).toBitVec = ~~~x.toBitVec := rfl
  have hx : bit x i = x.toBitVec.getLsbD i := rfl
  have hb : bit (~~~x) i = (~~~x).toBitVec.getLsbD i := rfl
  rw [hb, hn, hx, BitVec.getLsbD_not, decide_eq_true hi, Bool.true_and]

@[simp] theorem bit_zero (i : Nat) : bit 0 i = false := Nat.zero_testBit i

theorem eq_of_bit {x y : UInt32} (h : ∀ i < 32, bit x i = bit y i) : x = y := by
  apply UInt32.toNat_inj.mp
  apply Nat.eq_of_testBit_eq
  intro i
  by_cases hi : i < 32
  · exact h i hi
  · have hle : 2 ^ 32 ≤ 2 ^ i := Nat.pow_le_pow_right (by decide) (by omega)
    rw [Nat.testBit_lt_two_pow (Nat.lt_of_lt_of_le x.toNat_lt hle),
      Nat.testBit_lt_two_pow (Nat.lt_of_lt_of_le y.toNat_lt hle)]

/-- The word with bit `k` only. -/
def IsFlag (f : UInt32) (k : Nat) : Prop := k < 32 ∧ ∀ i < 32, bit f i = decide (i = k)

instance (f : UInt32) (k : Nat) : Decidable (IsFlag f k) := inferInstanceAs (Decidable (_ ∧ _))

/-- Testing a flag is reading its bit. -/
theorem IsFlag.and_eq_zero {f : UInt32} {k : Nat} (hf : IsFlag f k) {x : UInt32} : x &&& f = 0 ↔ bit x k = false := by
  constructor
  · intro h
    have hk := congrArg (bit · k) h
    simp only [bit_and, bit_zero, hf.2 k hf.1, decide_true, Bool.and_true] at hk
    exact hk
  · intro h
    apply eq_of_bit
    intro i hi
    rw [bit_and, hf.2 i hi, bit_zero]
    by_cases hik : i = k
    · rw [hik, h, Bool.false_and]
    · simp [hik]

theorem IsFlag.and_ne_zero {f : UInt32} {k : Nat} (hf : IsFlag f k) {x : UInt32} : x &&& f ≠ 0 ↔ bit x k = true := by
  rw [Ne, hf.and_eq_zero, Bool.not_eq_false]

/-- The word with the bits below `n`. -/
def IsMask (f : UInt32) (n : Nat) : Prop := n ≤ 32 ∧ ∀ i < 32, bit f i = decide (i < n)

instance (f : UInt32) (n : Nat) : Decidable (IsMask f n) := inferInstanceAs (Decidable (_ ∧ _))

/-- A word within a mask has no bit beyond it. -/
theorem IsMask.bit_of_le {f : UInt32} {n : Nat} (hf : IsMask f n) {x : UInt32} (hx : x ≤ f) {i : Nat} (hi : n ≤ i) :
    bit x i = false := by
  have hlt : f.toNat < 2 ^ n := by
    apply Nat.lt_pow_two_of_testBit
    intro j hj
    by_cases hj' : j < 32
    · have := hf.2 j hj'
      rw [decide_eq_false (Nat.not_lt.mpr hj)] at this
      exact this
    · exact Nat.testBit_lt_two_pow
        (Nat.lt_of_lt_of_le f.toNat_lt (Nat.pow_le_pow_right (by decide) (Nat.le_of_not_lt hj')))
  exact Nat.testBit_lt_two_pow (Nat.lt_of_le_of_lt (UInt32.le_iff_toNat_le.mp hx)
    (Nat.lt_of_lt_of_le hlt (Nat.pow_le_pow_right (by decide) hi)))

/-- What a mask leaves is within it. -/
theorem and_le (x f : UInt32) : x &&& f ≤ f := by
  rw [UInt32.le_iff_toNat_le, UInt32.toNat_and]
  exact Nat.and_le_right

/-! ## Rounding up by a mask -/

theorem add_eq_or {x y : UInt32} (h : x &&& y = 0) : x + y = x ||| y := by
  apply UInt32.toBitVec_inj.1
  have hb : x.toBitVec &&& y.toBitVec = 0#32 := congrArg UInt32.toBitVec h
  rw [UInt32.toBitVec_add, UInt32.toBitVec_or]
  exact BitVec.add_eq_or_of_and_eq_zero _ _ hb

/-- The bits of `x` that `k` has not, and those that it has. -/
theorem clear_add_and (x k : UInt32) : (x &&& ~~~k) + (x &&& k) = x := by
  rw [add_eq_or]
  · apply eq_of_bit
    intro i hi
    rw [bit_or, bit_and, bit_and, bit_not k hi]
    cases bit x i <;> cases bit k i <;> rfl
  · apply eq_of_bit
    intro i hi
    rw [bit_and, bit_and, bit_and, bit_not k hi, bit_zero]
    cases bit x i <;> cases bit k i <;> rfl

theorem clear_and (x k : UInt32) : (x &&& ~~~k) &&& k = 0 := by
  apply eq_of_bit
  intro i hi
  rw [bit_and, bit_and, bit_not k hi, bit_zero]
  cases bit x i <;> cases bit k i <;> rfl

theorem and_clear (x k : UInt32) : (k &&& x) &&& ~~~k = 0 := by
  apply eq_of_bit
  intro i hi
  rw [bit_and, bit_and, bit_not k hi, bit_zero]
  cases bit x i <;> cases bit k i <;> rfl

/-- Bits of `k` come and go over a word without any. -/
theorem or_clear {g k : UInt32} (h : g &&& k = 0) (x : UInt32) : (g ||| (k &&& x)) &&& ~~~k = g := by
  apply eq_of_bit
  intro i hi
  have hb : (bit g i && bit k i) = false := by rw [← bit_and, h, bit_zero]
  rw [bit_and, bit_or, bit_and, bit_not k hi]
  revert hb
  cases bit g i <;> cases bit k i <;> cases bit x i <;> decide

/-- Taking away bits of `k`. -/
theorem sub_eq_clear {x k : UInt32} (h : x &&& ~~~k = 0) : k - x = k &&& ~~~x := by
  have hk : k &&& x = x := by
    rw [UInt32.and_comm, ← clear_add_and x k, h, UInt32.zero_add]
    grind
  have hsum := clear_add_and k x
  rw [hk] at hsum
  grind

/-- Adding `k` and clearing its bits gives the word without bits of `k` that
lies above by bits of `k` only. -/
theorem add_clear_eq_iff {x k g : UInt32} : (x + k) &&& ~~~k = g ↔ g &&& k = 0 ∧ (g - x) &&& ~~~k = 0 := by
  constructor
  · rintro rfl
    have hsub : ((x + k) &&& ~~~k) - x = k - ((x + k) &&& k) := by
      have hsum := clear_add_and (x + k) k
      grind
    have hin : ((x + k) &&& k) &&& ~~~k = 0 := by
      rw [UInt32.and_comm (x + k) k]
      exact and_clear _ _
    rw [hsub, sub_eq_clear hin]
    exact ⟨clear_and _ _, and_clear _ _⟩
  · rintro ⟨hg, he⟩
    have hsum : x + k = g + (k &&& ~~~(g - x)) := by
      have hd := sub_eq_clear he
      grind
    have hdisj : g &&& (k &&& ~~~(g - x)) = 0 := by rw [← UInt32.and_assoc, hg, UInt32.zero_and]
    rw [hsum, add_eq_or hdisj]
    exact or_clear hg _

/-- Bits of `k` only are no more than `k`. -/
theorem le_of_clear {x k : UInt32} (h : x &&& ~~~k = 0) : x.toNat ≤ k.toNat := by
  have hx : x &&& k = x := by
    have hsum := clear_add_and x k
    rwa [h, UInt32.zero_add] at hsum
  rw [← hx, UInt32.toNat_and]
  exact Nat.and_le_right

theorem toNat_pos {a : UInt32} (h0 : a ≠ 0) : 0 < a.toNat := Nat.pos_of_ne_zero fun h => h0 (UInt32.toNat_inj.1 h)

theorem toNat_pred {a : UInt32} (h0 : a ≠ 0) : (a - 1).toNat = a.toNat - 1 := by
  have hone : (1 : UInt32).toNat ≤ a.toNat := toNat_pos h0
  rw [UInt32.toNat_sub_of_le _ _ (UInt32.le_iff_toNat_le.2 hone)]
  rfl

theorem toNat_mod_eq_zero {x a : UInt32} : x.toNat % a.toNat = 0 ↔ x % a = 0 := by
  rw [← UInt32.toNat_inj, UInt32.toNat_mod]
  rfl

/-- A power of two takes away all but the rest. -/
theorem and_pred_eq_mod {a : UInt32} (h0 : a ≠ 0) (hpow : a &&& (a - 1) = 0) (x : UInt32) : x &&& (a - 1) = x % a := by
  have hpred := toNat_pred h0
  have hnat : a.toNat &&& (a.toNat - 1) = 0 := by rw [← hpred, ← UInt32.toNat_and, hpow]; rfl
  obtain ⟨t, ht⟩ := (Nat.and_sub_one_eq_zero_iff_isPowerOfTwo (Nat.ne_of_gt (toNat_pos h0))).1 hnat
  apply UInt32.toNat_inj.1
  rw [UInt32.toNat_and, UInt32.toNat_mod, hpred, ht, Nat.and_two_pow_sub_one_eq_mod]

end Agl
