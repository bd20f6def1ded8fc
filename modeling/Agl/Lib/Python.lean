/-
Numbers and bytes as Python has them: `int` and `float` (read as an exact
rational), the operators that keep them apart, and `bytes`, which takes no
`float`.

A word of two bytes that is put together from the quotient and the
remainder by 256 is read back (`word_bytes`).
-/
import Mathlib.Data.Rat.Floor

namespace Agl.Python

/-- The exceptions that are raised here. -/
inductive Err
  | typeError | valueError | indexError
  deriving DecidableEq, Repr

inductive Number
  | int (n : ℤ)
  | float (x : ℚ)
  deriving DecidableEq, Repr

namespace Number

/-- `x * n` -/
def mul : Number → ℤ → Number
  | int m, n => int (m * n)
  | float x, n => float (x * n)

/-- `x // n`, rounded down -/
def floorDiv : Number → ℤ → Number
  | int m, n => int (m.fdiv n)
  | float x, n => float ⌊x / n⌋

/-- `x % n`, with the sign of `n` -/
def mod : Number → ℤ → Number
  | int m, n => int (m.fmod n)
  | float x, n => float (x - n * ⌊x / n⌋)

end Number

/-- `int(x)` of a `float` -/
def int (x : ℚ) : ℤ := if 0 ≤ x then ⌊x⌋ else ⌈x⌉

/-- `data[i]` -/
def index (data : List UInt8) (i : ℕ) : Except Err UInt8 :=
  match data[i]? with
  | some b => .ok b
  | none => .error .indexError

/-- What `bytes` makes of one element. -/
def byte : Number → Except Err UInt8
  | .int n => if 0 ≤ n ∧ n < 256 then .ok (UInt8.ofNat n.toNat) else .error .valueError
  | .float _ => .error .typeError

/-- `bytes(l)` -/
def bytes : List Number → Except Err (List UInt8)
  | [] => .ok []
  | x :: l => do
    let b ← byte x
    let bs ← bytes l
    return b :: bs

/-- The big endian word at place `i`. -/
def word (data : List UInt8) (i : ℕ) : Option ℕ :=
  match data[i]?, data[i + 1]? with
  | some hi, some lo => some (256 * hi.toNat + lo.toNat)
  | _, _ => none

/-! ## int -/

theorem int_nonneg_iff {x : ℚ} : 0 ≤ int x ↔ -1 < x := by
  unfold int
  split
  · next h => exact iff_of_true (Int.floor_nonneg.mpr h) (by linarith)
  · rw [show (0 : ℤ) = -1 + 1 from rfl, Int.add_one_le_iff, Int.lt_ceil]
    norm_num

theorem int_lt_iff {x : ℚ} {n : ℕ} (hn : 0 < n) : int x < n ↔ x < n := by
  unfold int
  split
  · rw [Int.floor_lt]
    norm_num
  · next h =>
    have hneg : x < 0 := not_le.mp h
    have hpos : (0 : ℚ) < n := Nat.cast_pos.mpr hn
    have hceil : ⌈x⌉ ≤ 0 := Int.ceil_le.mpr (by simpa using hneg.le)
    exact iff_of_true (by omega) (hneg.trans hpos)

/-! ## bytes -/

theorem byte_nat {n : ℕ} (h : n < 256) : byte (.int n) = .ok (UInt8.ofNat n) := by
  have hn : (0 : ℤ) ≤ n ∧ (n : ℤ) < 256 := by omega
  simp only [byte, if_pos hn, Int.toNat_natCast]

theorem byte_cases {x : Number} {b : UInt8} (h : byte x = .ok b) : ∃ n : ℤ, x = .int n ∧ 0 ≤ n ∧ n < 256 := by
  cases x with
  | int n =>
    simp only [byte] at h
    split at h
    · next hn => exact ⟨n, rfl, hn⟩
    · cases h
  | float x => cases h

/-- Every element of what `bytes` takes is a byte. -/
theorem byte_of_bytes {l : List Number} {bs : List UInt8} (h : bytes l = .ok bs) {x : Number} (hx : x ∈ l) :
    ∃ b, byte x = .ok b := by
  induction l generalizing bs with
  | nil => cases hx
  | cons y l ih =>
    simp only [bytes] at h
    cases hy : byte y with
    | error e =>
      rw [hy] at h
      cases h
    | ok b =>
      cases hl : bytes l with
      | error e =>
        rw [hy, hl] at h
        cases h
      | ok bs' =>
        cases hx with
        | head => exact ⟨b, hy⟩
        | tail _ hx => exact ih hl hx

/-! ## Words -/

/-- The two bytes of a word. -/
theorem byte_word {w : ℕ} (h : w < 65536) :
    byte ((Number.int w).floorDiv 256) = .ok (UInt8.ofNat (w / 256)) ∧
      byte ((Number.int w).mod 256) = .ok (UInt8.ofNat (w % 256)) := by
  constructor
  · have hdiv : (w : ℤ).fdiv 256 = ((w / 256 : ℕ) : ℤ) := by
      rw [Int.fdiv_eq_ediv_of_nonneg _ (by decide)]
      omega
    rw [Number.floorDiv, hdiv]
    exact byte_nat (by omega)
  · have hmod : (w : ℤ).fmod 256 = ((w % 256 : ℕ) : ℤ) := by
      rw [Int.fmod_eq_emod_of_nonneg _ (by decide)]
      omega
    rw [Number.mod, hmod]
    exact byte_nat (by omega)

/-- They give the word back. -/
theorem word_bytes {w : ℕ} (h : w < 65536) :
    256 * (UInt8.ofNat (w / 256)).toNat + (UInt8.ofNat (w % 256)).toNat = w := by
  rw [UInt8.toNat_ofNat', UInt8.toNat_ofNat']
  omega

/-- A number whose quotient is a byte is a word. -/
theorem word_of_byte {x : Number} {b : UInt8} (h : byte (x.floorDiv 256) = .ok b) :
    ∃ w : ℕ, w < 65536 ∧ x = .int w := by
  obtain ⟨n, hn, hpos, hlt⟩ := byte_cases h
  cases x with
  | float x => cases hn
  | int m =>
    have hm : m / 256 = n := by
      rw [← Int.fdiv_eq_ediv_of_nonneg _ (by decide)]
      exact Number.int.inj hn
    refine ⟨m.toNat, by omega, ?_⟩
    rw [Int.toNat_of_nonneg (by omega)]

end Agl.Python
