/-
A heap of objects, and rules for programs on it.

An object is live from its allocation until it is freed, and no address is
given out twice. To load, store or free at an address that is not live, or
through a null pointer, is a fault; only freeing a null pointer is not. So a
program that does not fault reaches no object that is not live and frees
none twice, and it leaks none if the live cells in the end are the ones there
were.

`Runs F l p Q` describes `p` by the cells it finds: where exactly `l` are
live, `p` faults only if `F`, and its result and the cells it leaves are in
`Q`. With `F` false that is total correctness; with `Q` false `p` always
faults. A rule holds for every rest of the heap, so none is needed for
frames.
-/
import Agl.Lib.Table

namespace Agl

open List

abbrev Heap.Addr := Nat

/-- None is the null pointer. -/
abbrev Heap.Ptr := Option Heap.Addr

/-- An object and where it is. -/
abbrev Heap.Cell (τ : Type) := (_ : Heap.Addr) × τ

open Heap (Addr Ptr Cell)

structure Heap (τ : Type) where
  cells : Table Addr τ
  /-- the next address to be given out -/
  next : Addr
  fresh : ∀ a ∈ cells, a < next

/-- Nothing is live. -/
def Heap.empty (τ : Type) : Heap τ := ⟨∅, 0, fun _ h => (AList.notMem_empty _ h).elim⟩

/-- A program on a heap: its result and the heap after, or none after a
fault. -/
def HeapM (τ α : Type) := Heap τ → Option (α × Heap τ)

namespace HeapM

variable {τ α β : Type}

instance : Monad (HeapM τ) where
  pure a := fun h => some (a, h)
  bind p f := fun h => (p h).bind fun r => f r.1 r.2

def fault : HeapM τ α := fun _ => none

/-- A computation that leaves the heap alone. -/
def lift (a : Option α) : HeapM τ α := fun h => a.map fun a => (a, h)

def load (a : Addr) : HeapM τ τ := fun h => (h.cells.lookup a).map fun v => (v, h)

def store (a : Addr) (w : τ) : HeapM τ Unit := fun h =>
  if ha : a ∈ h.cells then
    some ((), {
      cells := h.cells.insert a w
      next := h.next
      fresh := fun b hb => by
        rcases (AList.mem_insert _).mp hb with rfl | hb
        · exact h.fresh b ha
        · exact h.fresh b hb })
  else none

def alloc (v : τ) : HeapM τ Addr := fun h =>
  some (h.next, {
    cells := h.cells.insert h.next v
    next := h.next + 1
    fresh := fun b hb => by
      rcases (AList.mem_insert _).mp hb with rfl | hb
      · exact Nat.lt_succ_self _
      · exact Nat.lt_succ_of_lt (h.fresh b hb) })

def free (a : Addr) : HeapM τ Unit := fun h =>
  if a ∈ h.cells then
    some ((), {
      cells := h.cells.erase a
      next := h.next
      fresh := fun b hb => h.fresh b (AList.mem_erase.mp hb).2 })
  else none

/-- The address in a pointer that is about to be used. -/
def deref : Ptr → HeapM τ Addr
  | none => fault
  | some a => pure a

/-- An allocation that may fail. -/
def tryAlloc (granted : Bool) (v : τ) : HeapM τ Ptr := if granted then some <$> alloc v else pure none

/-- Free what a pointer points to, if anything. -/
def freePtr : Ptr → HeapM τ Unit
  | none => pure ()
  | some a => free a

end HeapM

namespace Heap

variable {τ : Type} {h : Heap τ} {l : List (Cell τ)} {a : Addr} {v : τ}

/-- Exactly these cells are live. -/
def Owns (h : Heap τ) (l : List (Cell τ)) : Prop := h.cells.entries ~ l

theorem Owns.lookup (ho : h.Owns (⟨a, v⟩ :: l)) : h.cells.lookup a = some v :=
  AList.mem_lookup_iff.mpr (ho.mem_iff.mpr List.mem_cons_self)

theorem Owns.mem (ho : h.Owns (⟨a, v⟩ :: l)) : a ∈ h.cells :=
  AList.lookup_isSome.mp (by rw [ho.lookup]; rfl)

theorem Owns.kerase (ho : h.Owns (⟨a, v⟩ :: l)) : h.cells.entries.kerase a ~ l := by
  have hcons : (⟨a, v⟩ :: l).kerase a = l := List.kerase_cons_eq rfl
  exact (Perm.kerase h.cells.nodupKeys ho).trans (.of_eq hcons)

end Heap

namespace HeapM

variable {τ α β : Type} {F F' : Prop} {l l' : List (Cell τ)} {a : Addr} {v w : τ} {p : HeapM τ α} {f : α → HeapM τ β}
  {Q Q' : α → List (Cell τ) → Prop} {R : β → List (Cell τ) → Prop}

/-- Where `l` are the live cells, `p` faults only if `F`, or comes to a result
and cells in `Q`. -/
def Runs (F : Prop) (l : List (Cell τ)) (p : HeapM τ α) (Q : α → List (Cell τ) → Prop) : Prop :=
  ∀ h : Heap τ, h.Owns l → (p h).elim F fun r => ∃ l', r.2.Owns l' ∧ Q r.1 l'

theorem Runs.mono (hp : Runs F l p Q) (hF : F → F') (hQ : ∀ a l', Q a l' → Q' a l') : Runs F' l p Q' := by
  intro h ho
  have := hp h ho
  cases hr : p h with
  | none =>
    rw [hr] at this
    exact hF this
  | some r =>
    rw [hr] at this
    obtain ⟨l', ho', hq⟩ := this
    exact ⟨l', ho', hQ _ _ hq⟩

/-- The cells in another order. -/
theorem Runs.perm (hl : l ~ l') (hp : Runs F l' p Q) : Runs F l p Q := fun h ho => hp h (ho.trans hl)

theorem Runs.ret {x : α} (hq : Q x l) : Runs F l (pure x) Q := fun _ ho => ⟨l, ho, hq⟩

theorem Runs.fault (hF : F) : Runs F l fault Q := fun _ _ => hF

theorem Runs.bind (hp : Runs F l p Q) (hf : ∀ x l', Q x l' → Runs F l' (f x) R) : Runs F l (p >>= f) R := by
  intro h ho
  have := hp h ho
  show ((p h).bind fun r => f r.1 r.2).elim F _
  cases hr : p h with
  | none =>
    rw [hr] at this
    exact this
  | some r =>
    rw [hr] at this
    obtain ⟨l', ho', hq⟩ := this
    exact hf _ _ hq _ ho'

/-- The last operation as one that is followed by nothing. -/
theorem Runs.last (hp : Runs F l (p >>= pure) Q) : Runs F l p Q := by
  intro h ho
  have hb : (p >>= pure) h = p h := Option.bind_fun_some (p h)
  rw [← hb]
  exact hp h ho

/-! ## One operation, and what follows it -/

theorem Runs.load {k : τ → HeapM τ β} (hk : Runs F (⟨a, v⟩ :: l) (k v) R) :
    Runs F (⟨a, v⟩ :: l) (load a >>= k) R := by
  intro h ho
  show (((h.cells.lookup a).map fun v => (v, h)).bind fun r => k r.1 r.2).elim F _
  rw [ho.lookup]
  exact hk h ho

theorem Runs.store {k : Unit → HeapM τ β} (hk : Runs F (⟨a, w⟩ :: l) (k ()) R) :
    Runs F (⟨a, v⟩ :: l) (store a w >>= k) R := by
  intro h ho
  show ((HeapM.store a w h).bind fun r => k r.1 r.2).elim F _
  simp only [HeapM.store, ho.mem, dif_pos]
  exact hk _ (ho.kerase.cons _)

theorem Runs.alloc {k : Addr → HeapM τ β} (hk : ∀ a, Runs F (⟨a, v⟩ :: l) (k a) R) :
    Runs F l (alloc v >>= k) R := by
  intro h ho
  have hn : h.next ∉ h.cells := fun hm => Nat.lt_irrefl _ (h.fresh _ hm)
  refine hk h.next _ ?_
  show (h.cells.insert h.next v).entries ~ _
  rw [AList.entries_insert_of_notMem hn]
  exact ho.cons _

theorem Runs.free {k : Unit → HeapM τ β} (hk : Runs F l (k ()) R) : Runs F (⟨a, v⟩ :: l) (free a >>= k) R := by
  intro h ho
  show ((HeapM.free a h).bind fun r => k r.1 r.2).elim F _
  simp only [HeapM.free, ho.mem, if_true]
  exact hk _ ho.kerase

theorem Runs.lift_some {x : α} {k : α → HeapM τ β} (hk : Runs F l (k x) R) :
    Runs F l (HeapM.lift (some x) >>= k) R := hk

theorem Runs.deref_some {k : Addr → HeapM τ β} (hk : Runs F l (k a) R) : Runs F l (deref (some a) >>= k) R := hk

theorem Runs.deref_none {k : Addr → HeapM τ β} (hF : F) : Runs F l (deref none >>= k) R := fun _ _ => hF

theorem Runs.tryAlloc {granted : Bool} {k : Ptr → HeapM τ β}
    (hsome : granted = true → ∀ a, Runs F (⟨a, v⟩ :: l) (k (some a)) R)
    (hnone : granted = false → Runs F l (k none) R) :
    Runs F l (tryAlloc granted v >>= k) R := by
  cases granted with
  | false => exact hnone rfl
  | true => exact Runs.alloc (k := fun a => k (some a)) (hsome rfl)

/-- What a pointer points to, if anything. -/
def ptrCells (p : Ptr) (v : τ) : List (Cell τ) := p.elim [] fun a => [⟨a, v⟩]

theorem Runs.freePtr {p : Ptr} {k : Unit → HeapM τ β} (hk : Runs F l (k ()) R) :
    Runs F (ptrCells p v ++ l) (freePtr p >>= k) R := by
  cases p with
  | none => exact hk
  | some a => exact Runs.free hk

end HeapM

end Agl
