/-
Text as a shell handles it: word splitting, the builtin `echo`, the capture
of a command's output.

Text is a list of characters; blanks are those of the default `IFS`. The
escapes of `echo -e` that give a byte give the character of its number.
-/
import Mathlib.Algebra.GroupWithZero.Nat
import Mathlib.Data.List.TakeWhile

namespace Agl.Sh

abbrev Text := List Char

/-- A property of the characters is decided along the text. -/
instance (priority := high) decidableForallMem (s : Text) (p : Char → Prop) [DecidablePred p] :
    Decidable (∀ c ∈ s, p c) := List.decidableBAll p s

instance (priority := high) decidableForallHead (o : Option Char) (p : Char → Prop) [DecidablePred p] :
    Decidable (∀ c ∈ o, p c) := Option.decidableForallMem o

/-! ## Word splitting -/

/-- The default `IFS`. -/
def isBlank (c : Char) : Bool := c = ' ' || c = '\t' || c = '\n'

/-- Unquoted text falls into words. -/
def splitWords (s : Text) : List Text := (s.splitOnP isBlank).filter fun w => !w.isEmpty

/-- Not empty, and without blanks. -/
def IsWord (w : Text) : Prop := w ≠ [] ∧ ∀ c ∈ w, isBlank c = false

theorem IsWord.not_mem {w : Text} (h : IsWord w) {c : Char} (hc : isBlank c = true) : c ∉ w := by
  intro hmem
  rw [h.2 c hmem] at hc
  cases hc

instance (w : Text) : Decidable (IsWord w) := inferInstanceAs (Decidable (_ ∧ _))

@[simp] theorem splitWords_nil : splitWords [] = [] := rfl

theorem splitWords_append_blank (s t : Text) {c : Char} (hc : isBlank c = true) :
    splitWords (s ++ c :: t) = splitWords s ++ splitWords t := by
  simp only [splitWords, List.splitOnP_append_cons s t hc, List.filter_append]

theorem splitWords_append_blanks (s : Text) {t : Text} (ht : ∀ c ∈ t, isBlank c = true) :
    splitWords (s ++ t) = splitWords s := by
  induction t generalizing s with
  | nil => rw [List.append_nil]
  | cons c t ih =>
    rw [splitWords_append_blank s t (ht c List.mem_cons_self), ← List.nil_append t,
      ih [] fun d hd => ht d (List.mem_cons_of_mem c hd)]
    simp

theorem splitWords_of_isWord {w : Text} (h : IsWord w) : splitWords w = [w] := by
  rw [splitWords, List.splitOnP_eq_singleton h.2]
  simp [h.1]

theorem isWord_of_mem {s w : Text} (h : w ∈ splitWords s) : IsWord w := by
  obtain ⟨hmem, hne⟩ := List.mem_filter.mp h
  refine ⟨by simpa using hne, ?_⟩
  clear h hne
  induction s generalizing w with
  | nil =>
    rw [List.splitOnP_nil, List.mem_singleton] at hmem
    rw [hmem]
    exact fun _ hc => by cases hc
  | cons c s ih =>
    rw [List.splitOnP_cons_eq_if_modifyHead] at hmem
    split at hmem
    · rcases List.mem_cons.mp hmem with rfl | hmem
      · exact fun _ hc => by cases hc
      · exact ih hmem
    · next hc =>
      obtain ⟨v, rest, hsplit⟩ := List.exists_cons_of_ne_nil (List.splitOnP_ne_nil isBlank s)
      rw [hsplit, List.modifyHead_cons] at hmem
      rcases List.mem_cons.mp hmem with rfl | hmem
      · intro d hd
        rcases List.mem_cons.mp hd with rfl | hd
        · simpa using hc
        · exact ih (by rw [hsplit]; exact List.mem_cons_self) d hd
      · exact ih (by rw [hsplit]; exact List.mem_cons_of_mem v hmem)

/-- Words joined by single blanks. -/
def joinWords (ws : List Text) : Text := [' '].intercalate ws

@[simp] theorem joinWords_nil : joinWords [] = [] := rfl

@[simp] theorem joinWords_singleton (w : Text) : joinWords [w] = w := by
  simp [joinWords, List.intercalate]

theorem joinWords_cons {w : Text} {ws : List Text} (h : ws ≠ []) :
    joinWords (w :: ws) = w ++ ' ' :: joinWords ws := by
  obtain ⟨v, rest, rfl⟩ := List.exists_cons_of_ne_nil h
  simp [joinWords, List.intercalate]

theorem not_mem_joinWords {ws : List Text} {c : Char} (hc : c ≠ ' ') (h : ∀ w ∈ ws, c ∉ w) : c ∉ joinWords ws := by
  induction ws with
  | nil => exact List.not_mem_nil
  | cons w ws ih =>
    have ih := ih fun v hv => h v (List.mem_cons_of_mem w hv)
    by_cases hws : ws = []
    · rw [hws, joinWords_singleton]
      exact h w List.mem_cons_self
    · rw [joinWords_cons hws]
      simp [h w List.mem_cons_self, hc, ih]

theorem splitWords_joinWords {ws : List Text} (h : ∀ w ∈ ws, IsWord w) : splitWords (joinWords ws) = ws := by
  induction ws with
  | nil => rfl
  | cons w ws ih =>
    have hw := splitWords_of_isWord (h w List.mem_cons_self)
    have ih := ih fun v hv => h v (List.mem_cons_of_mem w hv)
    by_cases hws : ws = []
    · rw [hws, joinWords_singleton, hw]
    · rw [joinWords_cons hws, splitWords_append_blank _ _ rfl, hw, ih, List.singleton_append]

/-- A text without blanks, or the first of them. -/
theorem first_blank (s : Text) : (∀ c ∈ s, isBlank c = false) ∨
    ∃ a c b, s = a ++ c :: b ∧ isBlank c = true ∧ ∀ d ∈ a, isBlank d = false := by
  induction s with
  | nil => exact .inl fun c hc => by cases hc
  | cons c s ih =>
    cases hc : isBlank c with
    | true => exact .inr ⟨[], c, s, rfl, hc, fun d hd => by cases hd⟩
    | false =>
      rcases ih with hs | ⟨a, d, b, rfl, hd, ha⟩
      · exact .inl (List.forall_mem_cons.mpr ⟨hc, hs⟩)
      · exact .inr ⟨c :: a, d, b, rfl, hd, List.forall_mem_cons.mpr ⟨hc, ha⟩⟩

/-- The first word starts with the first character. -/
theorem splitWords_first {c : Char} (hc : isBlank c = false) (s : Text) :
    ∃ w ws, splitWords (c :: s) = (c :: w) :: ws := by
  have hword {w : Text} (hw : ∀ d ∈ w, isBlank d = false) : splitWords (c :: w) = [c :: w] :=
    splitWords_of_isWord ⟨List.cons_ne_nil c w, List.forall_mem_cons.mpr ⟨hc, hw⟩⟩
  rcases first_blank s with hs | ⟨a, d, b, rfl, hd, ha⟩
  · exact ⟨s, [], hword hs⟩
  · exact ⟨a, splitWords b, by rw [← List.cons_append, splitWords_append_blank _ _ hd, hword ha, List.singleton_append]⟩

/-- Joined again, the words end with the last character. -/
theorem joinWords_last {c : Char} (hc : isBlank c = false) (s : Text) :
    ∃ t, joinWords (splitWords (s ++ [c])) = t ++ [c] := by
  have hlast : ∃ ws w, splitWords (s ++ [c]) = ws ++ [w ++ [c]] := by
    have hword {w : Text} (hw : ∀ d ∈ w, isBlank d = false) : splitWords (w ++ [c]) = [w ++ [c]] :=
      splitWords_of_isWord ⟨by simp, List.forall_mem_append.mpr ⟨hw, by simpa using hc⟩⟩
    rcases first_blank s.reverse with hs | ⟨a, d, b, hs, hd, ha⟩
    · exact ⟨[], s, hword fun d hd => hs d (List.mem_reverse.mpr hd)⟩
    · obtain rfl : s = b.reverse ++ d :: a.reverse := by
        rw [← List.reverse_reverse s, hs, List.reverse_append, List.reverse_cons, List.append_assoc,
          List.singleton_append]
      refine ⟨splitWords b.reverse, a.reverse, ?_⟩
      rw [List.append_assoc, List.cons_append, splitWords_append_blank _ _ hd,
        hword fun e he => ha e (List.mem_reverse.mp he)]
  obtain ⟨ws, w, hsplit⟩ := hlast
  rw [hsplit]
  clear hsplit
  induction ws with
  | nil => exact ⟨w, joinWords_singleton _⟩
  | cons v ws ih =>
    obtain ⟨t, ht⟩ := ih
    exact ⟨v ++ ' ' :: t, by rw [List.cons_append, joinWords_cons (by simp), ht, List.append_assoc, List.cons_append]⟩

/-- Unquoted text: word splitting, then pathname expansion. -/
def expand (glob : Text → List Text) (s : Text) : List Text := (splitWords s).flatMap glob

theorem expand_eq {glob : Text → List Text} {s : Text} (h : ∀ w ∈ splitWords s, glob w = [w]) :
    expand glob s = splitWords s := by
  unfold expand
  generalize splitWords s = ws at h
  induction ws with
  | nil => rfl
  | cons w ws ih =>
    rw [List.flatMap_cons, h w List.mem_cons_self, ih fun v hv => h v (List.mem_cons_of_mem w hv)]
    rfl

/-! ## Weights -/

/-- The sum over the characters. -/
def weight (f : Char → Nat) (s : Text) : Nat := (s.map f).sum

section Weight

variable (f : Char → Nat)

@[simp] theorem weight_nil : weight f [] = 0 := rfl

@[simp] theorem weight_cons (c : Char) (s : Text) : weight f (c :: s) = f c + weight f s := List.sum_cons

@[simp] theorem weight_append (s t : Text) : weight f (s ++ t) = weight f s + weight f t := by
  rw [weight, List.map_append, List.sum_append]
  rfl

theorem weight_eq_zero {f : Char → Nat} {s : Text} (h : ∀ c ∈ s, f c = 0) : weight f s = 0 := by
  induction s with
  | nil => rfl
  | cons c s ih => rw [weight_cons, h c List.mem_cons_self, ih fun d hd => h d (List.mem_cons_of_mem c hd)]

theorem weight_le_of_sublist {s t : Text} (h : s.Sublist t) : weight f s ≤ weight f t := by
  induction h with
  | slnil => exact le_rfl
  | cons c _ ih =>
    rw [weight_cons]
    omega
  | cons_cons c _ ih =>
    rw [weight_cons, weight_cons]
    omega

theorem weight_joinWords_cons (w : Text) (ws : List Text) :
    weight f w + weight f (joinWords ws) ≤ weight f (joinWords (w :: ws)) := by
  by_cases hws : ws = []
  · simp [hws]
  · rw [joinWords_cons hws, weight_append, weight_cons]
    omega

theorem weight_joinWords_append (vs ws : List Text) : weight f (joinWords ws) ≤ weight f (joinWords (vs ++ ws)) := by
  induction vs with
  | nil => exact le_rfl
  | cons v vs ih =>
    have := weight_joinWords_cons f v (vs ++ ws)
    rw [List.cons_append]
    omega

theorem weight_joinWords_append_le (vs ws : List Text) :
    weight f (joinWords (vs ++ ws)) ≤ weight f (joinWords vs) + f ' ' + weight f (joinWords ws) := by
  induction vs with
  | nil =>
    rw [List.nil_append]
    omega
  | cons v vs ih =>
    rw [List.cons_append]
    by_cases hvs : vs = []
    · subst hvs
      by_cases hws : ws = []
      · simp [hws]
      · rw [List.nil_append, joinWords_cons hws, weight_append, weight_cons, joinWords_singleton]
        omega
    · rw [joinWords_cons hvs, joinWords_cons (by simp [hvs]), weight_append, weight_append, weight_cons, weight_cons]
      omega

/-- Joined again, the words weigh no more than the text they come from. -/
theorem weight_joinWords_splitWords (hf : ∀ c, isBlank c = true → f ' ' ≤ f c) (s : Text) :
    weight f (joinWords (splitWords s)) ≤ weight f s := by
  induction hlen : s.length using Nat.strong_induction_on generalizing s with
  | _ n ih =>
    by_cases hs : ∀ c ∈ s, isBlank c = false
    · by_cases hne : s = []
      · rw [hne]
        exact le_rfl
      · rw [splitWords_of_isWord ⟨hne, hs⟩, joinWords_singleton]
    · simp only [not_forall, Bool.not_eq_false] at hs
      obtain ⟨c, hc, hblank⟩ := hs
      obtain ⟨a, b, rfl⟩ := List.append_of_mem hc
      rw [List.length_append, List.length_cons] at hlen
      have ha := ih a.length (by omega) a rfl
      have hb := ih b.length (by omega) b rfl
      have hjoin := weight_joinWords_append_le f (splitWords a) (splitWords b)
      have hspace := hf c hblank
      rw [splitWords_append_blank a b hblank, weight_append, weight_cons]
      omega

end Weight

theorem weight_add (f g : Char → Nat) (s : Text) : weight (fun c => f c + g c) s = weight f s + weight g s := by
  induction s with
  | nil => rfl
  | cons c s ih =>
    rw [weight_cons, weight_cons, weight_cons, ih]
    omega

theorem weight_one (s : Text) : weight (fun _ => 1) s = s.length := by
  induction s with
  | nil => rfl
  | cons c s ih =>
    rw [weight_cons, ih, List.length_cons]
    omega

/-- How many backslashes there are. -/
def backslashes : Text → Nat := weight fun c => if c = '\\' then 1 else 0

theorem backslashes_eq_zero {s : Text} : backslashes s = 0 ↔ '\\' ∉ s := by
  unfold backslashes
  induction s with
  | nil => simp
  | cons c s ih =>
    rw [weight_cons, List.mem_cons, not_or, Nat.add_eq_zero_iff, ih, eq_comm (a := '\\')]
    simp

/-- How many quotes and backslashes there are. -/
def marks : Text → Nat := weight fun c => if c = '\\' ∨ c = '"' then 1 else 0

theorem marks_eq_zero {s : Text} : marks s = 0 ↔ '\\' ∉ s ∧ '"' ∉ s := by
  unfold marks
  induction s with
  | nil => simp
  | cons c s ih =>
    rw [weight_cons, Nat.add_eq_zero_iff, ih, List.mem_cons, List.mem_cons, eq_comm (a := '\\'), eq_comm (a := '"')]
    by_cases hc : c = '\\' ∨ c = '"'
    · rw [if_pos hc]
      refine ⟨fun h => (by cases h.1), fun h => ?_⟩
      exact absurd hc (not_or.mpr ⟨fun hb => h.1 (.inl hb), fun hq => h.2 (.inl hq)⟩)
    · rw [not_or] at hc
      simp [hc.1, hc.2]

theorem marks_cons (c : Char) (s : Text) :
    marks (c :: s) = (if c = '\\' ∨ c = '"' then 1 else 0) + marks s := weight_cons _ c s

theorem marks_append (s t : Text) : marks (s ++ t) = marks s + marks t := weight_append _ s t

theorem backslashes_le_marks (s : Text) : backslashes s ≤ marks s := by
  unfold backslashes marks
  induction s with
  | nil => exact le_rfl
  | cons c s ih =>
    rw [weight_cons, weight_cons]
    by_cases hc : c = '\\'
    · rw [if_pos hc, if_pos (.inl hc)]
      exact Nat.add_le_add_left ih 1
    · rw [if_neg hc]
      omega

/-! ## echo -/

/-- `-n`, `-e`, `-E`, and several of them in one word. -/
def isEchoOption : Text → Bool
  | '-' :: c :: cs => (c :: cs).all fun c => c = 'n' || c = 'e' || c = 'E'
  | _ => false

/-- An option has no other characters. -/
theorem isEchoOption_of_mem {s : Text} {c : Char} (hc : c ∈ s)
    (h : (['-', 'n', 'e', 'E'] : List Char).contains c = false) : isEchoOption s = false := by
  unfold isEchoOption
  split
  · next d cs =>
    rw [List.all_eq_false]
    have hne : c ≠ '-' ∧ c ≠ 'n' ∧ c ≠ 'e' ∧ c ≠ 'E' := by simpa using h
    refine ⟨c, ?_, by simp [hne]⟩
    exact (List.mem_cons.mp hc).resolve_left hne.1
  · rfl

theorem isEchoOption_of_head {s : Text} {c : Char} (h : c ≠ '-') : isEchoOption (c :: s) = false := by
  unfold isEchoOption
  split
  · next heq =>
    cases heq
    exact absurd rfl h
  · rfl

/-- What the options ask for. -/
structure EchoFlags where
  newline : Bool
  escapes : Bool
  deriving DecidableEq, Repr

/-- The flags after an option word; its last `e` or `E` counts. -/
def EchoFlags.read (f : EchoFlags) (w : Text) : EchoFlags :=
  w.foldl (fun f c =>
    if c = 'n' then { f with newline := false }
    else if c = 'e' then { f with escapes := true }
    else if c = 'E' then { f with escapes := false }
    else f) f

/-- The option words in front. -/
def echoFlags (f : EchoFlags) : List Text → EchoFlags × List Text
  | [] => (f, [])
  | w :: ws => if isEchoOption w then echoFlags (f.read w) ws else (f, w :: ws)

/-- The escapes of one letter. -/
def simpleEscape : Char → Option Char
  | 'a' => some '\x07'
  | 'b' => some '\x08'
  | 'e' | 'E' => some '\x1b'
  | 'f' => some '\x0c'
  | 'n' => some '\n'
  | 'r' => some '\r'
  | 't' => some '\t'
  | 'v' => some '\x0b'
  | '\\' => some '\\'
  | _ => none

/-- The escapes by number: the base, how many digits at most, how many at least. -/
def numberEscape : Char → Option (Nat × Nat × Nat)
  | '0' => some (8, 3, 0)
  | 'x' => some (16, 2, 1)
  | 'u' => some (16, 4, 1)
  | 'U' => some (16, 8, 1)
  | _ => none

/-- The value of a hexadecimal digit. -/
def hexValue (c : Char) : Option Nat :=
  if '0' ≤ c ∧ c ≤ '9' then some (c.toNat - '0'.toNat)
  else if 'a' ≤ c ∧ c ≤ 'f' then some (c.toNat - 'a'.toNat + 10)
  else if 'A' ≤ c ∧ c ≤ 'F' then some (c.toNat - 'A'.toNat + 10)
  else none

/-- The digits in front, at most `max`, and the rest. -/
def takeDigits (base : Nat) : Nat → Text → List Nat × Text
  | max + 1, c :: s =>
    match (hexValue c).filter fun d => d < base with
    | some d => (d :: (takeDigits base max s).1, (takeDigits base max s).2)
    | none => ([], c :: s)
  | _, s => ([], s)

/-- What `echo -e` prints of a text, and whether it goes on: `\c` ends the
output. Every step takes a character, so the length is fuel enough. -/
def unescapeStep : Nat → Text → Text × Bool
  | n + 1, '\\' :: c :: s =>
    if c = 'c' then ([], false)
    else
      match simpleEscape c, numberEscape c with
      | some d, _ => (unescapeStep n s).map (d :: ·) id
      | none, none => (unescapeStep n s).map ('\\' :: c :: ·) id
      | none, some (base, max, min) =>
        if (takeDigits base max s).1.length < min then (unescapeStep n s).map ('\\' :: c :: ·) id
        else
          (unescapeStep n (takeDigits base max s).2).map
            (Char.ofNat ((takeDigits base max s).1.foldl (fun v d => v * base + d) 0) :: ·) id
  | n + 1, c :: s => (unescapeStep n s).map (c :: ·) id
  | _, _ => ([], true)

def unescape (s : Text) : Text × Bool := unescapeStep s.length s

/-- The builtin `echo`. -/
def echo (args : List Text) : Text :=
  let (f, ws) := echoFlags ⟨true, false⟩ args
  let (out, goesOn) := if f.escapes then unescape (joinWords ws) else (joinWords ws, true)
  out ++ if f.newline && goesOn then ['\n'] else []

theorem echo_of_word {w : Text} (h : isEchoOption w = false) : echo [w] = w ++ ['\n'] := by
  simp [echo, echoFlags, h]

/-- Words of which the first is no option. -/
theorem echo_of_first {ws : List Text} (h : ∀ w ∈ ws.head?, isEchoOption w = false) :
    echo ws = joinWords ws ++ ['\n'] := by
  cases ws with
  | nil => rfl
  | cons w ws => simp [echo, echoFlags, h w rfl]

/-- `echo -n` of one word that is no option. -/
theorem echo_n {w : Text} (h : isEchoOption w = false) : echo [['-', 'n'], w] = w := by
  have hn : isEchoOption ['-', 'n'] = true := rfl
  simp [echo, echoFlags, hn, h, EchoFlags.read]

/-- An option alone prints at most an empty line. -/
theorem echo_of_option {w : Text} (h : isEchoOption w = true) : echo [w] = [] ∨ echo [w] = ['\n'] := by
  simp only [echo, echoFlags, h, if_true, joinWords_nil]
  cases (EchoFlags.read ⟨true, false⟩ w).newline <;> cases (EchoFlags.read ⟨true, false⟩ w).escapes <;>
    simp [unescape, unescapeStep]

theorem takeDigits_sublist (base max : Nat) (s : Text) : (takeDigits base max s).2.Sublist s := by
  induction max generalizing s with
  | zero => exact List.Sublist.refl s
  | succ max ih =>
    cases s with
    | nil => exact List.Sublist.refl []
    | cons c s =>
      rw [takeDigits]
      split
      · exact (ih s).cons c
      · exact List.Sublist.refl _

/-- An escape has a backslash in front, and gives one character: the text gets
no heavier if none is heavier than a backslash. -/
theorem weight_unescapeStep {f : Char → Nat} (hf : ∀ c, f c ≤ f '\\') (n : Nat) (s : Text) :
    weight f (unescapeStep n s).1 ≤ weight f s := by
  fun_induction unescapeStep n s with
  | case1 => simp
  | case2 n c s hc d hd ih =>
    have := hf d
    simp only [Prod.map_fst, weight_cons] at ih ⊢
    omega
  | case3 n c s hc hn hs ih =>
    simp only [Prod.map_fst, weight_cons] at ih ⊢
    omega
  | case4 n c s hc base max min hn hs hlt ih =>
    simp only [Prod.map_fst, weight_cons] at ih ⊢
    omega
  | case5 n c s hc base max min hn hs hlt ih =>
    have hrest := weight_le_of_sublist f (takeDigits_sublist base max s)
    have := hf (Char.ofNat ((takeDigits base max s).1.foldl (fun v d => v * base + d) 0))
    simp only [Prod.map_fst, weight_cons] at ih ⊢
    omega
  | case6 n c s hb ih =>
    simp only [Prod.map_fst, weight_cons] at ih ⊢
    omega
  | case7 => exact Nat.zero_le _

theorem unescapeStep_plain {n : Nat} {s : Text} (hs : '\\' ∉ s) (hn : s.length ≤ n) : unescapeStep n s = (s, true) := by
  induction s generalizing n with
  | nil => cases n <;> rfl
  | cons c s ih =>
    rw [List.mem_cons, not_or] at hs
    obtain ⟨n, rfl⟩ : ∃ k, n = k + 1 := ⟨n - 1, by rw [List.length_cons] at hn; omega⟩
    rw [unescapeStep, ih hs.2 (by rw [List.length_cons] at hn; omega)]
    · rfl
    · exact fun d s' hc => absurd hc.symm hs.1

/-- The options in front, and what they leave. -/
theorem echoFlags_spec (f : EchoFlags) (ws : List Text) :
    ∃ opts, ws = opts ++ (echoFlags f ws).2 ∧ (∀ w ∈ opts, isEchoOption w = true) ∧
      (∀ w ∈ (echoFlags f ws).2.head?, isEchoOption w = false) ∧ (opts = [] → (echoFlags f ws).1 = f) := by
  induction ws generalizing f with
  | nil => exact ⟨[], rfl, fun w hw => (by cases hw), fun w hw => (by cases hw), fun _ => rfl⟩
  | cons w ws ih =>
    rw [echoFlags]
    split
    · next hw =>
      obtain ⟨opts, hws, hopts, hhead, -⟩ := ih (f.read w)
      exact ⟨w :: opts, congrArg (w :: ·) hws, List.forall_mem_cons.mpr ⟨hw, hopts⟩, hhead,
        fun h => absurd h (List.cons_ne_nil w opts)⟩
    · next hw =>
      refine ⟨[], rfl, fun v hv => (by cases hv), fun v hv => ?_, fun _ => rfl⟩
      cases hv
      simpa using hw

/-- `echo` adds nothing but newlines. -/
theorem weight_echo {f : Char → Nat} (hf : ∀ c, f c ≤ f '\\') (hnl : f '\n' = 0) (ws : List Text) :
    weight f (echo ws) ≤ weight f (joinWords ws) := by
  obtain ⟨opts, hws, -⟩ := echoFlags_spec ⟨true, false⟩ ws
  have hrest : weight f (joinWords (echoFlags ⟨true, false⟩ ws).2) ≤ weight f (joinWords ws) := by
    conv => rhs; rw [hws]
    exact weight_joinWords_append _ opts _
  have hnewline (b : Bool) : weight f (if b then ['\n'] else []) = 0 := by cases b <;> simp [hnl]
  unfold echo
  dsimp only
  rw [weight_append, hnewline]
  split
  · exact (weight_unescapeStep hf _ _).trans hrest
  · exact hrest

theorem marks_echo (s : Text) : marks (echo (splitWords s)) ≤ marks s :=
  (weight_echo (fun c => by split <;> simp) rfl (splitWords s)).trans
    (weight_joinWords_splitWords _ (fun _ _ => Nat.zero_le _) s)

theorem backslashes_echo (s : Text) : backslashes (echo (splitWords s)) ≤ backslashes s :=
  (weight_echo (fun c => by split <;> simp) rfl (splitWords s)).trans
    (weight_joinWords_splitWords _ (fun _ _ => Nat.zero_le _) s)

/-- What `echo` prints of words without backslashes. -/
theorem echo_plain {ws : List Text} (h : '\\' ∉ joinWords ws) :
    ∃ (opts rest : List Text) (newline : Bool), ws = opts ++ rest ∧ (∀ w ∈ opts, isEchoOption w = true) ∧
      (∀ w ∈ rest.head?, isEchoOption w = false) ∧ (opts = [] → newline = true) ∧
      echo ws = joinWords rest ++ if newline then ['\n'] else [] := by
  obtain ⟨opts, hws, hopts, hhead, hflags⟩ := echoFlags_spec ⟨true, false⟩ ws
  have hrest : '\\' ∉ joinWords (echoFlags ⟨true, false⟩ ws).2 := by
    rw [← backslashes_eq_zero] at h ⊢
    rw [hws] at h
    have := weight_joinWords_append (fun c => if c = '\\' then 1 else 0) opts (echoFlags ⟨true, false⟩ ws).2
    unfold backslashes at h ⊢
    omega
  refine ⟨opts, (echoFlags ⟨true, false⟩ ws).2, (echoFlags ⟨true, false⟩ ws).1.newline, hws, hopts, hhead,
    fun hopts => by rw [hflags hopts], ?_⟩
  unfold echo
  generalize echoFlags ⟨true, false⟩ ws = flags at hrest ⊢
  obtain ⟨f, rest⟩ := flags
  dsimp only at hrest ⊢
  rw [unescape, unescapeStep_plain hrest le_rfl]
  split <;> simp

/-! ## Quotes -/

/-- A backslash before every quote. -/
def escapeQuotes (s : Text) : Text := s.flatMap fun c => if c = '"' then ['\\', '"'] else [c]

theorem escapeQuotes_of_not_mem {s : Text} (h : '"' ∉ s) : escapeQuotes s = s := by
  induction s with
  | nil => rfl
  | cons c s ih =>
    rw [List.mem_cons, not_or] at h
    rw [escapeQuotes, List.flatMap_cons, if_neg (Ne.symm h.1)]
    exact congrArg (c :: ·) (ih h.2)

/-! ## Lines -/

/-- What `$( )` makes of the output: newlines at the end are dropped. -/
def capture (out : Text) : Text := (out.reverse.dropWhile fun c => c = '\n').reverse

theorem capture_append (out : Text) : ∃ t, out = capture out ++ t ∧ ∀ c ∈ t, c = '\n' := by
  refine ⟨(out.reverse.takeWhile fun c => c = '\n').reverse, ?_, fun c hc => ?_⟩
  · rw [capture, ← List.reverse_append, List.takeWhile_append_dropWhile, List.reverse_reverse]
  · have := List.mem_takeWhile_imp (List.mem_reverse.mp hc)
    simpa using this

theorem capture_line {l : Text} (h : '\n' ∉ l) : capture (l ++ ['\n']) = l := by
  have hrev : (l.reverse.dropWhile fun c => c = '\n') = l.reverse := by
    cases hl : l.reverse with
    | nil => rfl
    | cons c rest =>
      refine List.dropWhile_cons_of_neg ?_
      have hc : c ≠ '\n' := by
        rintro rfl
        exact h (List.mem_reverse.mp (hl ▸ List.mem_cons_self))
      simpa using hc
  rw [capture, List.reverse_append, List.reverse_singleton, List.singleton_append,
    List.dropWhile_cons_of_pos (by decide), hrev, List.reverse_reverse]

theorem capture_concat {c : Char} (h : c ≠ '\n') (s : Text) : capture (s ++ [c]) = s ++ [c] := by
  rw [capture, List.reverse_append, List.reverse_singleton, List.singleton_append,
    List.dropWhile_cons_of_neg (by simpa using h), List.reverse_cons, List.reverse_reverse]

theorem splitWords_capture (out : Text) : splitWords (capture out) = splitWords out := by
  obtain ⟨t, ht, hnl⟩ := capture_append out
  have hblank : ∀ c ∈ t, isBlank c = true := fun c hc => by
    rw [hnl c hc]
    rfl
  calc splitWords (capture out)
    _ = splitWords (capture out ++ t) := (splitWords_append_blanks (capture out) hblank).symm
    _ = splitWords out := by rw [← ht]

/-- The lines of a text; a last one need not be ended. -/
def lines (s : Text) : List Text :=
  let ls := s.splitOn '\n'
  if ls.getLast? = some [] then ls.dropLast else ls

theorem lines_append {l : Text} (h : '\n' ∉ l) (t : Text) : lines (l ++ '\n' :: t) = l :: lines t := by
  obtain ⟨v, rest, hsplit⟩ := List.exists_cons_of_ne_nil (List.splitOn_ne_nil '\n' t)
  simp only [lines, List.splitOn_append_cons_self_of_not_mem h, hsplit, List.getLast?_cons_cons,
    List.dropLast_cons_cons]
  split <;> rfl

/-- The lines `echo` prints of a word: an option is lost, and may leave an
empty line. -/
def echoLines (w : Text) : List Text := if isEchoOption w then lines (echo [w]) else [w]

theorem lines_echo_append {w : Text} (h : IsWord w) (t : Text) : lines (echo [w] ++ t) = echoLines w ++ lines t := by
  unfold echoLines
  cases hopt : isEchoOption w with
  | false =>
    rw [echo_of_word hopt, List.append_assoc, List.singleton_append, lines_append (h.not_mem rfl)]
    rfl
  | true =>
    rcases echo_of_option hopt with hecho | hecho
    · rw [hecho]
      rfl
    · rw [hecho]
      exact lines_append (l := []) List.not_mem_nil t

theorem lines_flatMap_echo {ws : List Text} (h : ∀ w ∈ ws, IsWord w) :
    lines (ws.flatMap fun w => echo [w]) = ws.flatMap echoLines := by
  induction ws with
  | nil => rfl
  | cons w ws ih =>
    rw [List.flatMap_cons, lines_echo_append (h w List.mem_cons_self), ih fun v hv => h v (List.mem_cons_of_mem w hv),
      List.flatMap_cons]

theorem mem_echoLines {w l : Text} (hl : l ∈ echoLines w) : l = [] ∨ l = w ∧ isEchoOption w = false := by
  unfold echoLines at hl
  split at hl
  · next hopt =>
    rcases echo_of_option hopt with hecho | hecho <;> rw [hecho] at hl
    · cases hl
    · exact .inl (List.mem_singleton.mp hl)
  · next hopt => exact .inr ⟨List.mem_singleton.mp hl, by simpa using hopt⟩

end Agl.Sh
