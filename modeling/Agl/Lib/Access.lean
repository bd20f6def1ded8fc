/-
Computations that read memory: what they read, and rules to bound it.

An `Access` reads a byte memory, asks for allocations whose outcome an
oracle decides, and may fault. Running one gives its result and the extents
it read, also when it faults. `Gives grant p n Q` says what the result is,
with this oracle. `Meets p hi Q` says that no run of `p` reads
at or beyond `hi` and that its results satisfy `Q`; `Reaches p lo hi Q` that
with every allocation granted `p` has a result in `Q`, and that a bound on
what was read so far and is read by `p` is at least `hi`. `Consumes p lo hi a`
says that with every allocation granted the result is `a` and the pieces read
follow one another from `lo` to `hi`. All compose along `bind`, so what is
shown of a parser follows its text.
-/
import Mathlib.Logic.Basic

namespace Agl

/-- Memory, from the start of a buffer on. -/
abbrev Mem := Nat → UInt8

/-- The little-endian 32-bit value at `i`. -/
def Mem.le32 (m : Mem) (i : Nat) : UInt32 :=
  UInt32.ofNat ((m i).toNat + 0x100 * (m (i + 1)).toNat + 0x10000 * (m (i + 2)).toNat + 0x1000000 * (m (i + 3)).toNat)

/-- The little-endian 64-bit value at `i`. -/
def Mem.le64 (m : Mem) (i : Nat) : UInt64 :=
  UInt64.ofNat ((m.le32 i).toNat + 0x100000000 * (m.le32 (i + 4)).toNat)

/-- A piece of memory. -/
structure Extent where
  off : Nat
  len : Nat
  deriving DecidableEq, Repr

/-- The first byte after it. -/
def Extent.stop (e : Extent) : Nat := e.off + e.len

/-- What a run leaves: a result, or none after a fault; the extents read;
the number of allocations asked for so far. -/
structure Out (α : Type) where
  val : Option α
  reads : List Extent
  allocs : Nat

/-- A computation; the oracle says which allocations succeed. -/
def Access (α : Type) := (Nat → Bool) → Nat → Out α

namespace Access

variable {α β : Type}

def ret (a : α) : Access α := fun _ n => ⟨some a, [], n⟩

def andThen (p : Access α) (f : α → Access β) : Access β := fun grant n =>
  let r := p grant n
  match r.val with
  | none => ⟨none, r.reads, r.allocs⟩
  | some a =>
    let r' := f a grant r.allocs
    ⟨r'.val, r.reads ++ r'.reads, r'.allocs⟩

instance : Monad Access where
  pure := ret
  bind := andThen

/-- Read an entry. -/
def read (off len : Nat) : Access Unit := fun _ n => ⟨some (), [⟨off, len⟩], n⟩

/-- Ask for an allocation. -/
def alloc : Access Bool := fun grant n => ⟨some (grant n), [], n + 1⟩

/-- Use a NULL pointer. -/
def fault : Access α := fun _ n => ⟨none, [], n⟩

/-- A pointer that is about to be written through. -/
def deref (ptr : Bool) : Access Unit := if ptr then ret () else fault

/-- Every run reads only below `len`. -/
def Inside (p : Access α) (len : Nat) : Prop := ∀ grant n, ∀ e ∈ (p grant n).reads, e.stop ≤ len

/-! ## The result -/

section

variable {grant : Nat → Bool}

/-- From the `n`-th allocation on there is a result, and it and the number of
allocations then are in `Q`. -/
def Gives (grant : Nat → Bool) (p : Access α) (n : Nat) (Q : α → Nat → Prop) : Prop :=
  ∃ a, (p grant n).val = some a ∧ Q a (p grant n).allocs

theorem Gives.val {p : Access α} {n : Nat} {a : α} (h : Gives grant p n fun a' _ => a' = a) :
    (p grant n).val = some a := by
  obtain ⟨_, hv, rfl⟩ := h
  exact hv

theorem Gives.ret {a : α} {n : Nat} {Q : α → Nat → Prop} (h : Q a n) : Gives grant (pure a) n Q := ⟨a, rfl, h⟩

theorem Gives.read {off len n : Nat} {Q : Unit → Nat → Prop} (h : Q () n) : Gives grant (read off len) n Q :=
  ⟨(), rfl, h⟩

theorem Gives.alloc {n : Nat} {Q : Bool → Nat → Prop} (h : Q (grant n) (n + 1)) : Gives grant alloc n Q :=
  ⟨grant n, rfl, h⟩

theorem Gives.bind {p : Access α} {f : α → Access β} {n : Nat} {R : β → Nat → Prop}
    (h : Gives grant p n fun a k => Gives grant (f a) k R) : Gives grant (p >>= f) n R := by
  obtain ⟨a, ha, h⟩ := h
  show ∃ b, (andThen p f grant n).val = some b ∧ R b (andThen p f grant n).allocs
  unfold andThen
  simp only [ha]
  exact h

end

/-! ## Upper bounds -/

def Meets (p : Access α) (hi : Nat) (Q : α → Prop) : Prop :=
  ∀ grant n, (∀ e ∈ (p grant n).reads, e.stop ≤ hi) ∧ ∀ a, (p grant n).val = some a → Q a

theorem Meets.inside {p : Access α} {hi Q} (h : Meets p hi Q) {len} (hl : hi ≤ len) : p.Inside len :=
  fun grant n e he => Nat.le_trans ((h grant n).1 e he) hl

theorem Meets.mono {p : Access α} {hi hi' : Nat} {Q Q' : α → Prop} (h : Meets p hi Q) (hh : hi ≤ hi')
    (hQ : ∀ a, Q a → Q' a) : Meets p hi' Q' :=
  fun grant n => ⟨fun e he => Nat.le_trans ((h grant n).1 e he) hh, fun a ha => hQ a ((h grant n).2 a ha)⟩

theorem Meets.ret {a : α} {hi} {Q : α → Prop} (h : Q a) : Meets (pure a) hi Q := by
  intro grant n
  refine ⟨fun e he => (by cases he), fun b hb => ?_⟩
  cases hb
  exact h

theorem Meets.read {off len hi : Nat} (h : off + len ≤ hi) : Meets (read off len) hi fun _ => True := by
  intro grant n
  refine ⟨fun e he => ?_, fun _ _ => trivial⟩
  obtain rfl := List.mem_singleton.mp he
  exact h

theorem Meets.alloc {hi : Nat} : Meets alloc hi fun _ => True :=
  fun _ _ => ⟨fun _ he => (by cases he), fun _ _ => trivial⟩

theorem Meets.fault {hi : Nat} {Q : α → Prop} : Meets fault hi Q :=
  fun _ _ => ⟨fun _ he => (by cases he), fun _ ha => by cases ha⟩

theorem Meets.deref {ptr : Bool} {hi : Nat} : Meets (deref ptr) hi fun _ => True := by
  unfold Access.deref
  split
  · exact Meets.ret trivial
  · exact Meets.fault

theorem Meets.bind {p : Access α} {f : α → Access β} {hi : Nat} {Q : α → Prop} {R : β → Prop} (hp : Meets p hi Q)
    (hf : ∀ a, Q a → Meets (f a) hi R) : Meets (p >>= f) hi R := by
  intro grant n
  obtain ⟨hr, hv⟩ := hp grant n
  show (∀ e ∈ (andThen p f grant n).reads, e.stop ≤ hi) ∧ ∀ b, (andThen p f grant n).val = some b → R b
  unfold andThen
  cases ha : (p grant n).val with
  | none =>
    simp only [ha]
    exact ⟨hr, fun b hb => by cases hb⟩
  | some a =>
    obtain ⟨hr', hv'⟩ := hf a (hv a ha) grant (p grant n).allocs
    simp only [ha]
    refine ⟨fun e he => ?_, hv'⟩
    rcases List.mem_append.mp he with he | he
    · exact hr e he
    · exact hr' e he

/-! ## Lower bounds, with every allocation granted -/

def Reaches (p : Access α) (lo hi : Nat) (Q : α → Prop) : Prop :=
  ∀ n, (∃ a, (p (fun _ => true) n).val = some a ∧ Q a) ∧
    ∀ len, lo ≤ len → (∀ e ∈ (p (fun _ => true) n).reads, e.stop ≤ len) → hi ≤ len

theorem Reaches.inside {p : Access α} {hi Q} (h : Reaches p 0 hi Q) {len} (hl : p.Inside len) : hi ≤ len :=
  (h 0).2 len (Nat.zero_le _) (hl _ 0)

theorem Reaches.ret {a : α} {lo} {Q : α → Prop} (h : Q a) : Reaches (pure a) lo lo Q :=
  fun _ => ⟨⟨a, rfl, h⟩, fun _ hl _ => hl⟩

theorem Reaches.read {off len lo : Nat} : Reaches (read off len) lo (off + len) fun _ => True :=
  fun _ => ⟨⟨(), rfl, trivial⟩, fun _ _ hb => hb ⟨off, len⟩ (List.mem_singleton.mpr rfl)⟩

theorem Reaches.alloc {lo : Nat} : Reaches alloc lo lo fun b => b = true :=
  fun _ => ⟨⟨true, rfl, rfl⟩, fun _ hl _ => hl⟩

theorem Reaches.deref {lo : Nat} : Reaches (deref true) lo lo fun _ => True := Reaches.ret trivial

theorem Reaches.bind {p : Access α} {f : α → Access β} {lo mid hi : Nat} {Q : α → Prop} {R : β → Prop}
    (hp : Reaches p lo mid Q) (hf : ∀ a, Q a → Reaches (f a) mid hi R) : Reaches (p >>= f) lo hi R := by
  intro n
  obtain ⟨⟨a, ha, hq⟩, hb⟩ := hp n
  obtain ⟨⟨b, hv, hr⟩, hb'⟩ := hf a hq (p (fun _ => true) n).allocs
  show (∃ b, (andThen p f (fun _ => true) n).val = some b ∧ R b) ∧
    ∀ len, lo ≤ len → (∀ e ∈ (andThen p f (fun _ => true) n).reads, e.stop ≤ len) → hi ≤ len
  unfold andThen
  simp only [ha]
  refine ⟨⟨b, hv, hr⟩, fun len hlo he => hb' len (hb len hlo fun e h => ?_) fun e h => ?_⟩
  · exact he e (List.mem_append_left _ h)
  · exact he e (List.mem_append_right _ h)

/-! ## Consecutive pieces, with every allocation granted -/

/-- The pieces follow one another from the first position to the second. -/
def Tile : Nat → List Extent → Nat → Prop
  | lo, [], hi => lo = hi
  | lo, e :: es, hi => e.off = lo ∧ Tile e.stop es hi

theorem Tile.append {lo mid hi : Nat} {l l' : List Extent} (h : Tile lo l mid) (h' : Tile mid l' hi) :
    Tile lo (l ++ l') hi := by
  induction l generalizing lo with
  | nil =>
    have h : lo = mid := h
    rw [h]
    exact h'
  | cons e es ih => exact ⟨h.1, ih h.2⟩

def Consumes (p : Access α) (lo hi : Nat) (a : α) : Prop :=
  ∀ n, (p (fun _ => true) n).val = some a ∧ Tile lo (p (fun _ => true) n).reads hi

theorem Consumes.ret {a : α} {lo : Nat} : Consumes (pure a) lo lo a := fun _ => ⟨rfl, rfl⟩

theorem Consumes.read {off len : Nat} : Consumes (read off len) off (off + len) () := fun _ => ⟨rfl, rfl, rfl⟩

theorem Consumes.alloc {lo : Nat} : Consumes alloc lo lo true := fun _ => ⟨rfl, rfl⟩

theorem Consumes.deref {lo : Nat} : Consumes (deref true) lo lo () := Consumes.ret

theorem Consumes.bind {p : Access α} {f : α → Access β} {lo mid hi : Nat} {a : α} {b : β} (hp : Consumes p lo mid a)
    (hf : Consumes (f a) mid hi b) : Consumes (p >>= f) lo hi b := by
  intro n
  obtain ⟨ha, ht⟩ := hp n
  obtain ⟨hb, ht'⟩ := hf (p (fun _ => true) n).allocs
  show (andThen p f (fun _ => true) n).val = some b ∧ Tile lo (andThen p f (fun _ => true) n).reads hi
  unfold andThen
  simp only [ha]
  exact ⟨hb, ht.append ht'⟩

end Access

end Agl
