/-
Buffers in a ring of descriptors: each buffer handed in takes some of the
free ones and gives them back when it comes out, by its own turn (`get`) or
when the ring is emptied (`detach`).

What is free and what the buffers hold always add up to the size
(`Ring.Sized`), so a ring refuses a buffer only when the others hold too
much.
-/
import Mathlib.Data.List.Perm.Basic
import Mathlib.Algebra.BigOperators.Group.List.Basic
import Mathlib.Algebra.GroupWithZero.Nat

namespace Agl

universe u

/-- The free descriptors, and the buffers inside with how many each holds. -/
structure Ring (β : Type u) where
  numFree : Nat
  held : List (β × Nat)
  deriving DecidableEq, Repr

namespace Ring

variable {β : Type u} {size : Nat} {r r' : Ring β} {b b' : β} {n : Nat}

/-- With nothing inside. -/
def fresh (size : Nat) : Ring β := ⟨size, []⟩

/-- The buffers inside. -/
def bufs (r : Ring β) : List β := r.held.map Prod.fst

/-- Hand in a buffer that takes `n` descriptors; none when too few are free. -/
def add (r : Ring β) (b : β) (n : Nat) : Option (Ring β) :=
  if n ≤ r.numFree then some ⟨r.numFree - n, r.held ++ [(b, n)]⟩ else none

/-- The buffer `b` comes out. -/
def get [DecidableEq β] (r : Ring β) (b : β) : Ring β :=
  match r.held.find? fun e => e.1 = b with
  | none => r
  | some e => ⟨r.numFree + e.2, r.held.erase e⟩

/-- Some buffer is taken out; none when nothing is inside. -/
def detach (r : Ring β) : Option (β × Ring β) :=
  match r.held with
  | [] => none
  | e :: rest => some (e.1, ⟨r.numFree + e.2, rest⟩)

/-- The descriptors add up. -/
def Sized (size : Nat) (r : Ring β) : Prop := r.numFree + (r.held.map Prod.snd).sum = size

@[simp] theorem bufs_fresh : (fresh size : Ring β).bufs = [] := rfl

theorem sized_fresh : (fresh size : Ring β).Sized size := rfl

/-! ## Handing in -/

theorem add_cases (h : r.add b n = some r') : n ≤ r.numFree ∧ r' = ⟨r.numFree - n, r.held ++ [(b, n)]⟩ := by
  unfold add at h
  split at h
  · next hn =>
    cases h
    exact ⟨hn, rfl⟩
  · cases h

theorem add_eq_none_iff : r.add b n = none ↔ r.numFree < n := by
  unfold add
  split
  · next hn => simpa using hn
  · next hn => simpa using hn

theorem bufs_add (h : r.add b n = some r') : r'.bufs = r.bufs ++ [b] := by
  obtain ⟨-, rfl⟩ := add_cases h
  simp [bufs]

theorem Sized.add (h : r.Sized size) (ha : r.add b n = some r') : r'.Sized size := by
  obtain ⟨hn, rfl⟩ := add_cases ha
  unfold Sized at h ⊢
  simp only [List.map_append, List.map_cons, List.map_nil, List.sum_append, List.sum_cons, List.sum_nil]
  omega

/-! ## Coming out -/

section

variable [DecidableEq β]

theorem get_cases (h : b ∈ r.bufs) :
    ∃ e ∈ r.held, e.1 = b ∧ r.get b = ⟨r.numFree + e.2, r.held.erase e⟩ := by
  obtain ⟨e₀, he₀, hb₀⟩ := List.mem_map.mp h
  have hsome : (r.held.find? fun e => e.1 = b).isSome := List.find?_isSome.mpr ⟨e₀, he₀, by simpa using hb₀⟩
  obtain ⟨e, he⟩ := Option.isSome_iff_exists.mp hsome
  exact ⟨e, List.mem_of_find?_eq_some he, by simpa using List.find?_some he, by simp only [get, he]⟩

theorem bufs_get (h : b ∈ r.bufs) : r.bufs.Perm (b :: (r.get b).bufs) := by
  obtain ⟨e, he, rfl, hget⟩ := get_cases h
  rw [hget]
  exact (List.perm_cons_erase he).map Prod.fst

theorem Sized.get (h : r.Sized size) (b : β) : (r.get b).Sized size := by
  by_cases hb : b ∈ r.bufs
  · obtain ⟨e, he, -, hget⟩ := get_cases hb
    have hsum := ((List.perm_cons_erase he).map Prod.snd).sum_eq
    rw [hget]
    unfold Sized at h ⊢
    simp only [List.map_cons, List.sum_cons] at hsum ⊢
    omega
  · have hnone : (r.held.find? fun e => e.1 = b) = none := List.find?_eq_none.mpr fun e he hbe =>
      hb (List.mem_map.mpr ⟨e, he, by simpa using hbe⟩)
    have hget : r.get b = r := by simp only [Ring.get, hnone]
    rwa [hget]

theorem numFree_get (r : Ring β) (b : β) : r.numFree ≤ (r.get b).numFree := by
  unfold get
  split
  · exact Nat.le_refl _
  · exact Nat.le_add_right _ _

theorem mem_held_get {e : β × Nat} (h : e ∈ (r.get b).held) : e ∈ r.held := by
  unfold get at h
  split at h
  · exact h
  · exact List.mem_of_mem_erase h

end

/-! ## Emptying -/

theorem detach_cases {x : β × Ring β} (h : r.detach = some x) :
    ∃ n, r.held = (x.1, n) :: x.2.held ∧ x.2.numFree = r.numFree + n := by
  unfold detach at h
  split at h
  · cases h
  · next e rest heq =>
    cases h
    exact ⟨e.2, heq, rfl⟩

theorem detach_eq_none_iff : r.detach = none ↔ r.bufs = [] := by
  unfold detach bufs
  split <;> simp_all

theorem bufs_detach (h : r.detach = some (b, r')) : r.bufs = b :: r'.bufs := by
  obtain ⟨n, hheld, -⟩ := detach_cases h
  simp only [bufs, hheld, List.map_cons]

theorem Sized.detach (h : r.Sized size) (hd : r.detach = some (b, r')) : r'.Sized size := by
  obtain ⟨n, hheld, hfree⟩ := detach_cases hd
  unfold Sized at h ⊢
  simp only [hheld, List.map_cons, List.sum_cons] at h
  dsimp only at hfree
  omega

/-! ## Room -/

/-- The buffers that hold more than one descriptor. -/
def direct (r : Ring β) : Nat := r.held.countP fun e => 1 < e.2

theorem sum_of_two (l : List (β × Nat)) (htwo : ∀ e ∈ l, e.2 = 1 ∨ e.2 = 2) :
    (l.map Prod.snd).sum = l.length + l.countP fun e => 1 < e.2 := by
  induction l with
  | nil => rfl
  | cons e rest ih =>
    have ih := ih fun e he => htwo e (List.mem_cons_of_mem _ he)
    simp only [List.map_cons, List.sum_cons, List.length_cons, ih]
    rcases htwo e List.mem_cons_self with he | he
    · rw [List.countP_cons_of_neg (by simp [he]), he]
      omega
    · rw [List.countP_cons_of_pos (by simp [he]), he]
      omega

/-- Where every buffer holds one descriptor or two. -/
theorem Sized.numFree_of_two (h : r.Sized size) (htwo : ∀ e ∈ r.held, e.2 = 1 ∨ e.2 = 2) :
    r.numFree + r.bufs.length + r.direct = size := by
  unfold Sized at h
  rw [sum_of_two r.held htwo] at h
  simp only [bufs, List.length_map, direct]
  omega

/-- Where every buffer holds one descriptor. -/
theorem Sized.numFree_of_one (h : r.Sized size) (hone : ∀ e ∈ r.held, e.2 = 1) :
    r.numFree + r.bufs.length = size := by
  have hdirect : r.direct = 0 := List.countP_eq_zero.mpr fun e he => by simp [hone e he]
  have htotal := h.numFree_of_two fun e he => .inl (hone e he)
  rwa [hdirect] at htotal

end Ring

end Agl
