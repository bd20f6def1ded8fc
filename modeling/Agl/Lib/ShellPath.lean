/-
Paths as a shell and its tools handle them: the patterns of pathname
expansion, `basename` and `dirname`, and `sort` and `uniq` on the lines of a
text.

`sort` is bytewise, which on the characters of UTF-8 is the order of their
numbers.
-/
import Mathlib.Data.List.Sort
import Mathlib.Data.String.Basic
import Agl.Lib.ShellText

namespace Agl.Sh

/-! ## Patterns -/

/-- A piece of a pattern for one name. -/
inductive PatternItem
  /-- `?` -/
  | any
  /-- `[..]` -/
  | oneOf (cs : List Char)
  /-- `*` -/
  | star
  | char (c : Char)
  deriving DecidableEq, Repr

def matchItems : List PatternItem → Text → Bool
  | [], s => s.isEmpty
  | .star :: p, s => s.tails.any (matchItems p)
  | .any :: p, _ :: s => matchItems p s
  | .oneOf cs :: p, c :: s => cs.contains c && matchItems p s
  | .char d :: p, c :: s => c = d && matchItems p s
  | _ :: _, [] => false

/-- A name that the pattern is expanded to: a dot in front has to be in the
pattern as such. -/
def expandsTo (p : List PatternItem) (name : Text) : Bool :=
  (name.head? ≠ some '.' || p.head? = some (.char '.')) && matchItems p name

/-! ## basename -/

/-- What is behind the last slash, those at the end aside. -/
def baseName (path : Text) : Text :=
  match path.reverse.dropWhile fun c => c = '/' with
  | [] => path.take 1
  | rest => (rest.takeWhile fun c => c ≠ '/').reverse

/-- `basename`: what it prints. It takes a path, and a suffix to remove. -/
def basename : List Text → Option Text
  | [path] => some (baseName path ++ ['\n'])
  | [path, suffix] =>
    let name := baseName path
    some ((if suffix <:+ name ∧ suffix ≠ name then name.take (name.length - suffix.length) else name) ++ ['\n'])
  | _ => none

theorem baseName_slash (dir : Text) {name : Text} (hne : name ≠ []) (h : '/' ∉ name) :
    baseName (dir ++ '/' :: name) = name := by
  have hall : ∀ c ∈ name.reverse, decide (c ≠ '/') = true := fun c hc => by
    simpa using fun hc' : c = '/' => h (hc' ▸ List.mem_reverse.mp hc)
  obtain ⟨c, rest, hrev⟩ := List.exists_cons_of_ne_nil fun h => hne (List.reverse_eq_nil_iff.mp h)
  have hc : c ≠ '/' := by simpa using hall c (hrev ▸ List.mem_cons_self)
  have hdrop : (dir ++ '/' :: name).reverse.dropWhile (fun c => c = '/') = name.reverse ++ '/' :: dir.reverse := by
    rw [List.reverse_append, List.reverse_cons, List.append_assoc, List.singleton_append, hrev, List.cons_append,
      List.dropWhile_cons_of_neg (by simpa using hc)]
  have htake : ((name.reverse ++ '/' :: dir.reverse).takeWhile fun c => c ≠ '/') = name.reverse := by
    rw [List.takeWhile_append_of_pos hall, List.takeWhile_cons_of_neg (by decide), List.append_nil]
  have hlast : baseName (dir ++ '/' :: name) =
      ((name.reverse ++ '/' :: dir.reverse).takeWhile fun c => c ≠ '/').reverse := by
    rw [baseName, hdrop, hrev]
    rfl
  rw [hlast, htake, List.reverse_reverse]

/-! ## dirname -/

/-- The reversed path without the slashes at its end. -/
def dropSlashes (s : Text) : Text := s.dropWhile fun c => c = '/'

/-- What is in front of the last name, slashes aside. -/
def dirName (path : Text) : Text :=
  let rest := dropSlashes path.reverse
  let front := rest.dropWhile fun c => c ≠ '/'
  if rest = [] then if path = [] then ['.'] else ['/']
  else if front = [] then ['.']
  else if dropSlashes front = [] then ['/']
  else (dropSlashes front).reverse

/-- `dirname`: what it prints. -/
def dirname (paths : List Text) : Text := paths.flatMap fun path => dirName path ++ ['\n']

theorem dropSlashes_cons {c : Char} (h : c ≠ '/') (s : Text) : dropSlashes (c :: s) = c :: s :=
  List.dropWhile_cons_of_neg (by simpa using h)

theorem dirName_slash {dir name : Text} {c : Char} (hdir : c ≠ '/') (hne : name ≠ []) (h : '/' ∉ name) :
    dirName (dir ++ c :: '/' :: name) = dir ++ [c] := by
  have hall : ∀ c ∈ name.reverse, decide (c ≠ '/') = true := fun c hc => by
    simpa using fun hc' : c = '/' => h (hc' ▸ List.mem_reverse.mp hc)
  obtain ⟨d, rest, hrev⟩ := List.exists_cons_of_ne_nil fun h => hne (List.reverse_eq_nil_iff.mp h)
  have hd : d ≠ '/' := by simpa using hall d (hrev ▸ List.mem_cons_self)
  have hpath : dropSlashes (dir ++ c :: '/' :: name).reverse = name.reverse ++ '/' :: c :: dir.reverse := by
    rw [show (dir ++ c :: '/' :: name).reverse = name.reverse ++ '/' :: c :: dir.reverse by simp, hrev,
      List.cons_append, dropSlashes_cons hd]
  have hfront : ((name.reverse ++ '/' :: c :: dir.reverse).dropWhile fun c => c ≠ '/') = '/' :: c :: dir.reverse := by
    rw [List.dropWhile_append_of_pos hall, List.dropWhile_cons_of_neg (by decide)]
  have hslash : dropSlashes ('/' :: c :: dir.reverse) = c :: dir.reverse := by
    rw [dropSlashes, List.dropWhile_cons_of_pos (by decide), ← dropSlashes, dropSlashes_cons hdir]
  simp only [dirName, hpath, hfront, hslash]
  rw [if_neg (by simp), if_neg (by simp), if_neg (by simp)]
  simp

/-! ## sort -/

def unlines (ls : List Text) : Text := ls.flatMap fun l => l ++ ['\n']

theorem lines_unlines {ls : List Text} (h : ∀ l ∈ ls, '\n' ∉ l) : lines (unlines ls) = ls := by
  induction ls with
  | nil => rfl
  | cons l ls ih =>
    rw [unlines, List.flatMap_cons, List.append_assoc, List.singleton_append, lines_append (h l List.mem_cons_self)]
    exact congrArg (l :: ·) (ih fun k hk => h k (List.mem_cons_of_mem l hk))

/-- The words of lines that are words or empty. -/
theorem splitWords_unlines {ls : List Text} (h : ∀ l ∈ ls, l = [] ∨ IsWord l) :
    splitWords (unlines ls) = ls.filter fun l => l ≠ [] := by
  induction ls with
  | nil => rfl
  | cons l ls ih =>
    rw [unlines, List.flatMap_cons, List.append_assoc, List.singleton_append, splitWords_append_blank _ _ rfl,
      ← unlines, ih fun k hk => h k (List.mem_cons_of_mem l hk)]
    rcases h l List.mem_cons_self with rfl | hl
    · rfl
    · rw [splitWords_of_isWord hl, List.filter_cons_of_pos (by simpa using hl.1), List.singleton_append]

def sort (s : Text) : Text := unlines ((lines s).insertionSort (· ≤ ·))

/-- What is sorted is the same in whatever order it came. -/
theorem insertionSort_congr {ls ls' : List Text} (h : ls.Perm ls') :
    ls.insertionSort (· ≤ ·) = ls'.insertionSort (· ≤ ·) := by
  refine List.Perm.eq_of_pairwise (fun a b _ _ hab hba => le_antisymm hab hba) (List.pairwise_insertionSort _ _)
    (List.pairwise_insertionSort _ _) ?_
  exact (List.perm_insertionSort _ _).trans (h.trans (List.perm_insertionSort _ _).symm)

theorem filter_insertionSort (p : Text → Bool) (ls : List Text) :
    (ls.insertionSort (· ≤ ·)).filter p = (ls.filter p).insertionSort (· ≤ ·) := by
  refine List.Perm.eq_of_pairwise (fun a b _ _ hab hba => le_antisymm hab hba)
    ((List.pairwise_insertionSort _ _).filter p) (List.pairwise_insertionSort _ _) ?_
  exact ((List.perm_insertionSort _ _).filter p).trans (List.perm_insertionSort _ _).symm

theorem lt_of_take_lt {a b : Text} {n : Nat} (h : a.take n < b.take n) : a < b := by
  induction n generalizing a b with
  | zero => exact absurd h (List.not_lt_nil _)
  | succ n ih =>
    cases b with
    | nil => exact absurd h (List.not_lt_nil _)
    | cons d b =>
      cases a with
      | nil => exact List.nil_lt_cons d b
      | cons c a =>
        rw [List.take_succ_cons, List.take_succ_cons] at h
        exact List.cons_lt_cons_iff.mpr ((List.cons_lt_cons_iff.mp h).imp id fun h => ⟨h.1, ih h.2⟩)

theorem take_le_take {a b : Text} (h : a ≤ b) (n : Nat) : a.take n ≤ b.take n :=
  not_lt.mp fun hlt => not_lt.mpr h (lt_of_take_lt hlt)

/-! ## uniq -/

/-- `uniq -c`: each line that differs from the one before it, and how often it
is repeated. -/
def uniqC : List Text → List (Nat × Text)
  | [] => []
  | l :: ls =>
    match uniqC ls with
    | [] => [(1, l)]
    | (n, k) :: rest => if l = k then (n + 1, k) :: rest else (1, l) :: (n, k) :: rest

theorem uniqC_head (l : Text) (ls : List Text) : ∃ n rest, uniqC (l :: ls) = (n + 1, l) :: rest := by
  cases h : uniqC ls with
  | nil => exact ⟨0, [], by simp only [uniqC, h]⟩
  | cons p rest =>
    by_cases hl : l = p.2
    · cases ls with
      | nil => cases h
      | cons k ls => exact ⟨p.1, rest, by simp only [uniqC] at h ⊢; simp only [h, hl, if_true]⟩
    · exact ⟨0, p :: rest, by simp only [uniqC, h, if_neg hl]⟩

/-- No line is counted twice where no two neighbours are the same. -/
theorem uniqC_ones {ls : List Text} : (∀ p ∈ uniqC ls, p.1 = 1) ↔ ls.IsChain (· ≠ ·) := by
  induction ls with
  | nil => simp [uniqC]
  | cons l ls ih =>
    cases ls with
    | nil => simp [uniqC]
    | cons k ls =>
      obtain ⟨n, rest, hk⟩ := uniqC_head k ls
      rw [List.isChain_cons_cons, ← ih]
      by_cases hl : l = k
      · have hu : uniqC (l :: k :: ls) = (n + 1 + 1, k) :: rest := by
          rw [uniqC, hk]
          simp only [if_pos hl]
        rw [hu]
        exact ⟨fun h => absurd (h _ List.mem_cons_self) (by simp), fun h => absurd hl h.1⟩
      · have hu : uniqC (l :: k :: ls) = (1, l) :: uniqC (k :: ls) := by
          rw [uniqC, hk]
          simp only [if_neg hl]
        simp [hu, hl]

/-- In a sorted text the same lines are neighbours. -/
theorem nodup_of_chain {ls : List Text} (hsorted : ls.Pairwise (· ≤ ·)) (hne : ls.IsChain (· ≠ ·)) : ls.Nodup := by
  induction ls with
  | nil => exact List.nodup_nil
  | cons l ls ih =>
    cases ls with
    | nil => exact List.nodup_singleton l
    | cons k ls =>
      obtain ⟨hle, hsorted⟩ := List.pairwise_cons.mp hsorted
      obtain ⟨hlk, hne⟩ := List.isChain_cons_cons.mp hne
      refine List.nodup_cons.mpr ⟨fun hl => hlk (le_antisymm (hle k List.mem_cons_self) ?_), ih hsorted hne⟩
      rcases List.mem_cons.mp hl with rfl | hl
      · exact le_rfl
      · exact List.rel_of_pairwise_cons hsorted hl

/-- `sort | uniq -c` counts every line once where no line is repeated. -/
theorem uniqC_insertionSort {ls : List Text} :
    (∀ p ∈ uniqC (ls.insertionSort (· ≤ ·)), p.1 = 1) ↔ ls.Nodup := by
  rw [uniqC_ones, ← (List.perm_insertionSort (· ≤ ·) ls).nodup_iff]
  exact ⟨nodup_of_chain (List.pairwise_insertionSort _ _), fun h => List.Pairwise.isChain h⟩

end Agl.Sh
