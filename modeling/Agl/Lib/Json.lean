/-
JSON: a decoder for its texts, and how the texts of objects and arrays are
decoded that are put together from those of their parts.

A number is kept as it is written. Half a surrogate pair gives the
replacement character. The decoder takes at least a character for every
value it comes to, so the length of the text is fuel enough.
-/
import Agl.Lib.ShellText

namespace Agl.Json

open Sh (Text hexValue escapeQuotes escapeQuotes_of_not_mem)

inductive Value
  | null
  | bool (b : Bool)
  | num (literal : Text)
  | str (s : Text)
  | arr (vs : List Value)
  | obj (ms : List (Text × Value))
  deriving Repr

def isSpace (c : Char) : Bool := c = ' ' || c = '\t' || c = '\n' || c = '\r'

def skip (s : Text) : Text := s.dropWhile isSpace

/-! ## Strings -/

/-- What is between the quotes, from behind the first one, and what follows. -/
def quoted : Text → Option (Text × Text)
  | '"' :: s => some ([], s)
  | '\\' :: c :: s => (quoted s).map fun (x, r) => ('\\' :: c :: x, r)
  | c :: s => (quoted s).map fun (x, r) => (c :: x, r)
  | [] => none

/-- The four digits of a `\u`. -/
def hex4 : Text → Option (Nat × Text)
  | a :: b :: c :: d :: s => do
    let a ← hexValue a
    let b ← hexValue b
    let c ← hexValue c
    let d ← hexValue d
    some (((a * 16 + b) * 16 + c) * 16 + d, s)
  | _ => none

def simpleEscape : Char → Option Char
  | '"' => some '"'
  | '\\' => some '\\'
  | '/' => some '/'
  | 'b' => some '\x08'
  | 'f' => some '\x0c'
  | 'n' => some '\n'
  | 'r' => some '\r'
  | 't' => some '\t'
  | _ => none

def isHigh (u : Nat) : Bool := 0xD800 ≤ u && u < 0xDC00

def isLow (u : Nat) : Bool := 0xDC00 ≤ u && u < 0xE000

/-- The character of a code unit and what follows, with the other half of its
pair if that is there. -/
def unitChar (u : Nat) (s : Text) : Char × Text :=
  let alone := (if isHigh u || isLow u then '\uFFFD' else Char.ofNat u, s)
  match s with
  | '\\' :: 'u' :: t =>
    match hex4 t with
    | some (l, r) =>
      if isHigh u && isLow l then (Char.ofNat (0x10000 + (u - 0xD800) * 1024 + (l - 0xDC00)), r) else alone
    | none => alone
  | _ => alone

def unescapeStep : Nat → Text → Option Text
  | _, [] => some []
  | n + 1, '\\' :: 'u' :: s =>
    (hex4 s).bind fun (u, r) => (unescapeStep n (unitChar u r).2).map ((unitChar u r).1 :: ·)
  | n + 1, '\\' :: c :: s => (simpleEscape c).bind fun d => (unescapeStep n s).map (d :: ·)
  | n + 1, c :: s => if c = '\\' ∨ c.toNat < 0x20 then none else (unescapeStep n s).map (c :: ·)
  | 0, _ :: _ => none

def unescape (s : Text) : Option Text := unescapeStep s.length s

/-- A string, from behind its first quote. -/
def string (s : Text) : Option (Text × Text) := (quoted s).bind fun (x, r) => (unescape x).map fun y => (y, r)

/-! ## Numbers and literals -/

def isDigit (c : Char) : Bool := '0' ≤ c && c ≤ '9'

/-- One digit or more. -/
def digits (s : Text) : Option Text := if s.takeWhile isDigit = [] then none else some (s.dropWhile isDigit)

def intPart : Text → Option Text
  | '0' :: s => some s
  | s => digits s

def fracPart : Text → Option Text
  | '.' :: s => digits s
  | s => some s

def expPart : Text → Option Text
  | c :: s =>
    if c = 'e' ∨ c = 'E' then
      digits (match s with
        | d :: r => if d = '+' ∨ d = '-' then r else d :: r
        | [] => [])
    else some (c :: s)
  | [] => some []

def isNumber (s : Text) : Bool :=
  let s := match s with
    | '-' :: r => r
    | s => s
  ((intPart s).bind fracPart).bind expPart = some []

/-- The characters of numbers and literals. -/
def isScalarChar (c : Char) : Bool := c.isAlphanum || c = '+' || c = '-' || c = '.'

def scalarValue (w : Text) : Option Value :=
  if w = "null".toList then some .null
  else if w = "true".toList then some (.bool true)
  else if w = "false".toList then some (.bool false)
  else if isNumber w then some (.num w)
  else none

def scalar (s : Text) : Option (Value × Text) :=
  (scalarValue (s.takeWhile isScalarChar)).map fun v => (v, s.dropWhile isScalarChar)

/-! ## Values -/

section Sequences

variable {α : Type} (p : Text → Option (α × Text)) (close : Char)

/-- One or more, with commas between them, up to the bracket. -/
def items : Nat → Text → Option (List α × Text)
  | 0, _ => none
  | n + 1, s =>
    (p s).bind fun (v, r) =>
      match skip r with
      | [] => none
      | c :: r =>
        if c = ',' then (items n r).map fun (vs, r) => (v :: vs, r)
        else if c = close then some ([v], r)
        else none

def sequence (n : Nat) (s : Text) : Option (List α × Text) :=
  match skip s with
  | [] => none
  | c :: r => if c = close then some ([], r) else items p close n (c :: r)

end Sequences

def member (p : Text → Option (Value × Text)) (s : Text) : Option ((Text × Value) × Text) :=
  match skip s with
  | '"' :: s =>
    (string s).bind fun (k, r) =>
      match skip r with
      | ':' :: r => (p r).map fun (v, r) => ((k, v), r)
      | _ => none
  | _ => none

def value : Nat → Text → Option (Value × Text)
  | 0, _ => none
  | n + 1, s =>
    match skip s with
    | '"' :: s => (string s).map fun (x, r) => (.str x, r)
    | '{' :: s => (sequence (member (value n)) '}' n s).map fun (ms, r) => (.obj ms, r)
    | '[' :: s => (sequence (value n) ']' n s).map fun (vs, r) => (.arr vs, r)
    | s => scalar s

/-- The value of a text. -/
def decode (s : Text) : Option Value :=
  (value (s.length + 1) s).bind fun (v, r) => if skip r = [] then some v else none

example : (decode "[1, true, \"\\u00e9\\n\"]".toList).isSome = true := by decide +kernel

example : (decode "[01]".toList).isNone = true := by decide +kernel

/-! ## What follows a value -/

/-- Text that ends a number or a literal. -/
def Ends (t : Text) : Prop := ∀ c ∈ t.head?, isScalarChar c = false

/-- The second reads the same when more text follows. -/
def Extends {α : Type} (p q : Text → Option (α × Text)) : Prop :=
  ∀ s v r t, p s = some (v, r) → (r = [] → Ends t) → q (s ++ t) = some (v, r ++ t)

variable {s r t x : Text} {c : Char}

theorem skip_append (h : skip s = c :: r) (t : Text) : skip (s ++ t) = c :: (r ++ t) := by
  unfold skip at h ⊢
  rw [List.dropWhile_append, h]
  rfl

theorem skip_append_nil (h : skip s = []) (t : Text) : skip (s ++ t) = skip t := by
  unfold skip at h ⊢
  rw [List.dropWhile_append, h]
  rfl

theorem quoted_append (h : quoted s = some (x, r)) (t : Text) : quoted (s ++ t) = some (x, r ++ t) := by
  fun_induction quoted s generalizing x r with
  | case1 s =>
    cases h
    rfl
  | case2 c s ih =>
    obtain ⟨⟨y, r'⟩, hy, hr⟩ := Option.map_eq_some_iff.mp h
    cases hr
    simp only [List.cons_append, quoted, ih hy, Option.map_some]
  | case3 c s hq hb ih =>
    obtain ⟨⟨y, r'⟩, hy, hr⟩ := Option.map_eq_some_iff.mp h
    cases hr
    rw [List.cons_append, quoted, ih hy]
    · rfl
    · exact hq
    · -- behind a backslash there is a character
      rintro d s' rfl -
      cases s with
      | nil => cases hy
      | cons e s => exact hb e s rfl rfl
  | case4 => cases h

theorem string_append (h : string s = some (x, r)) (t : Text) : string (s ++ t) = some (x, r ++ t) := by
  obtain ⟨⟨y, r'⟩, hy, h⟩ := Option.bind_eq_some_iff.mp h
  obtain ⟨z, hz, hr⟩ := Option.map_eq_some_iff.mp h
  cases hr
  simp only [string, quoted_append hy, Option.bind_some, hz, Option.map_some]

theorem scalar_extends : Extends scalar scalar := by
  intro s v r t h hends
  obtain ⟨w, hw, hr⟩ := Option.map_eq_some_iff.mp h
  cases hr
  have htake : (s ++ t).takeWhile isScalarChar = s.takeWhile isScalarChar ∧
      (s ++ t).dropWhile isScalarChar = s.dropWhile isScalarChar ++ t := by
    rw [List.takeWhile_append, List.dropWhile_append]
    cases hdrop : s.dropWhile isScalarChar with
    | nil =>
      have hall : s.takeWhile isScalarChar = s := by
        have := List.takeWhile_append_dropWhile (p := isScalarChar) (l := s)
        rwa [hdrop, List.append_nil] at this
      have hnone : t.takeWhile isScalarChar = [] ∧ t.dropWhile isScalarChar = t := by
        cases t with
        | nil => exact ⟨rfl, rfl⟩
        | cons c t =>
          have hc : ¬ isScalarChar c = true := by simpa using hends hdrop c rfl
          exact ⟨List.takeWhile_cons_of_neg hc, List.dropWhile_cons_of_neg hc⟩
      simp [hall, hnone]
    | cons c rest =>
      have hlen : (s.takeWhile isScalarChar).length ≠ s.length := by
        have := congrArg List.length (List.takeWhile_append_dropWhile (p := isScalarChar) (l := s))
        rw [List.length_append, hdrop, List.length_cons] at this
        omega
      simp [hlen]
  rw [scalar, htake.1, hw, htake.2]
  rfl

variable {α : Type} {p q : Text → Option (α × Text)} {close : Char} {n m : Nat}

theorem items_append (hp : Extends p q) (hnm : n ≤ m) {vs : List α} (h : items p close n s = some (vs, r))
    (t : Text) : items q close m (s ++ t) = some (vs, r ++ t) := by
  induction n generalizing m s vs with
  | zero => cases h
  | succ n ih =>
    obtain ⟨m, rfl⟩ : ∃ k, m = k + 1 := ⟨m - 1, by omega⟩
    obtain ⟨⟨v, r₁⟩, hv, h⟩ := Option.bind_eq_some_iff.mp h
    have hne : r₁ ≠ [] := by
      rintro rfl
      cases h
    have hq := hp s v r₁ t hv fun hnil => absurd hnil hne
    rw [items, hq, Option.bind_some]
    dsimp only at h ⊢
    cases hskip : skip r₁ with
    | nil =>
      rw [hskip] at h
      cases h
    | cons c r₂ =>
      simp only [hskip] at h
      simp only [skip_append hskip t]
      split at h
      · next hcomma =>
        obtain ⟨⟨ws, r₃⟩, hws, hr⟩ := Option.map_eq_some_iff.mp h
        cases hr
        rw [if_pos hcomma, ih (by omega) hws]
        rfl
      · next hcomma =>
        split at h
        · next hclose =>
          cases h
          rw [if_neg hcomma, if_pos hclose]
        · cases h

theorem sequence_append (hp : Extends p q) (hnm : n ≤ m) {vs : List α} (h : sequence p close n s = some (vs, r))
    (t : Text) : sequence q close m (s ++ t) = some (vs, r ++ t) := by
  unfold sequence at h ⊢
  cases hskip : skip s with
  | nil =>
    rw [hskip] at h
    cases h
  | cons c s₁ =>
    simp only [hskip] at h
    simp only [skip_append hskip t]
    split at h
    · next hclose =>
      cases h
      rw [if_pos hclose]
    · next hclose =>
      rw [if_neg hclose]
      exact items_append hp hnm h t

theorem member_extends {p q : Text → Option (Value × Text)} (hp : Extends p q) : Extends (member p) (member q) := by
  intro s v r t h hends
  unfold member at h ⊢
  split at h
  · next s₁ hskip =>
    obtain ⟨⟨k, r₁⟩, hk, h⟩ := Option.bind_eq_some_iff.mp h
    simp only [skip_append hskip t, string_append hk t, Option.bind_some]
    dsimp only at h
    split at h
    · next r₂ hcolon =>
      obtain ⟨⟨u, r₃⟩, hu, hr⟩ := Option.map_eq_some_iff.mp h
      cases hr
      simp only [skip_append hcolon t, hp r₂ u r₃ t hu hends, Option.map_some]
    · cases h
  · cases h

theorem value_extends (hnm : n ≤ m) : Extends (value n) (value m) := by
  induction n generalizing m with
  | zero =>
    intro s v r t h
    cases h
  | succ n ih =>
    obtain ⟨m, rfl⟩ : ∃ k, m = k + 1 := ⟨m - 1, by omega⟩
    have hle : n ≤ m := by omega
    have ih := ih hle
    intro s v r t h hends
    unfold value at h ⊢
    split at h
    · next s₁ hskip =>
      obtain ⟨⟨x, r₁⟩, hx, hr⟩ := Option.map_eq_some_iff.mp h
      cases hr
      simp only [skip_append hskip t, string_append hx t, Option.map_some]
    · next s₁ hskip =>
      obtain ⟨⟨ms, r₁⟩, hms, hr⟩ := Option.map_eq_some_iff.mp h
      cases hr
      simp only [skip_append hskip t, sequence_append (member_extends ih) hle hms t, Option.map_some]
    · next s₁ hskip =>
      obtain ⟨⟨vs, r₁⟩, hvs, hr⟩ := Option.map_eq_some_iff.mp h
      cases hr
      simp only [skip_append hskip t, sequence_append ih hle hvs t, Option.map_some]
    · next h₁ h₂ h₃ =>
      have hne : skip s ≠ [] := by
        intro hnil
        rw [hnil] at h
        cases h
      obtain ⟨c, s₁, hskip⟩ := List.exists_cons_of_ne_nil hne
      have hscalar := scalar_extends (skip s) v r t h hends
      rw [hskip] at h₁ h₂ h₃ hscalar
      rw [skip_append hskip t]
      rw [List.cons_append] at hscalar
      split
      · next heq =>
        cases heq
        exact absurd rfl (h₁ s₁)
      · next heq =>
        cases heq
        exact absurd rfl (h₂ s₁)
      · next heq =>
        cases heq
        exact absurd rfl (h₃ s₁)
      · exact hscalar

/-! ## Strings as they are written -/

/-- Characters that a string can hold, the quote escaped. -/
def Printable (s : Text) : Prop := ∀ c ∈ s, c ≠ '\\' ∧ 0x20 ≤ c.toNat

instance (s : Text) : Decidable (Printable s) := inferInstanceAs (Decidable (∀ c ∈ s, _))

theorem Printable.noBackslash (h : Printable s) : '\\' ∉ s := fun hb => (h _ hb).1 rfl

theorem quoted_escapeQuotes (h : '\\' ∉ s) (t : Text) :
    quoted (escapeQuotes s ++ '"' :: t) = some (escapeQuotes s, t) := by
  induction s with
  | nil => rfl
  | cons c s ih =>
    rw [List.mem_cons, not_or] at h
    have ih := ih h.2
    have hc : c ≠ '\\' := Ne.symm h.1
    rw [escapeQuotes, List.flatMap_cons, ← escapeQuotes]
    by_cases hq : c = '"'
    · rw [if_pos hq]
      simp only [List.cons_append, List.nil_append, quoted, ih, Option.map_some]
    · rw [if_neg hq, List.append_assoc, List.singleton_append, quoted, ih]
      · rfl
      · exact hq
      · exact fun d s' hs => absurd hs hc

theorem unescapeStep_quote (n : Nat) (s : Text) :
    unescapeStep (n + 1) ('\\' :: '"' :: s) = (unescapeStep n s).map ('"' :: ·) := by
  rw [unescapeStep]
  · rfl
  · decide

theorem unescapeStep_escapeQuotes (h : Printable s) {n : Nat} (hn : (escapeQuotes s).length ≤ n) :
    unescapeStep n (escapeQuotes s) = some s := by
  induction s generalizing n with
  | nil => cases n <;> rfl
  | cons c s ih =>
    have ih {n : Nat} (hn : (escapeQuotes s).length ≤ n) := ih (fun d hd => h d (List.mem_cons_of_mem c hd)) hn
    obtain ⟨hb, hc⟩ := h c List.mem_cons_self
    rw [escapeQuotes, List.flatMap_cons, ← escapeQuotes] at hn ⊢
    by_cases hq : c = '"'
    · rw [if_pos hq] at hn ⊢
      simp only [List.cons_append, List.nil_append, List.length_cons] at hn
      obtain ⟨n, rfl⟩ : ∃ k, n = k + 1 := ⟨n - 1, by omega⟩
      rw [hq, List.cons_append, List.cons_append, List.nil_append, unescapeStep_quote, ih (n := n) (by omega)]
      rfl
    · rw [if_neg hq] at hn ⊢
      simp only [List.cons_append, List.nil_append, List.length_cons] at hn
      obtain ⟨n, rfl⟩ : ∃ k, n = k + 1 := ⟨n - 1, by omega⟩
      have hplain : ¬ (c = '\\' ∨ c.toNat < 0x20) := by
        rintro (hc' | hc')
        · exact hb hc'
        · omega
      rw [List.singleton_append, unescapeStep, if_neg hplain, ih (n := n) (by omega)]
      · rfl
      · exact fun s' hs => absurd hs hb
      · exact fun d s' hs => absurd hs hb

theorem string_escapeQuotes (h : Printable s) (t : Text) : string (escapeQuotes s ++ '"' :: t) = some (s, t) := by
  simp only [string, quoted_escapeQuotes h.noBackslash t, Option.bind_some, unescape, unescapeStep_escapeQuotes h le_rfl,
    Option.map_some]

/-! ## Texts put together -/

/-- The text is one of the value, whatever ends it. -/
def Reads {α : Type} (p : Text → Option (α × Text)) (s : Text) (v : α) : Prop :=
  ∀ t, Ends t → ∃ r, p (s ++ t) = some (v, r ++ t) ∧ skip r = []

theorem reads_of_decode {v : Value} (h : decode s = some v) (hm : s.length < m) : Reads (value m) s v := by
  intro t ht
  obtain ⟨⟨u, r⟩, hu, h⟩ := Option.bind_eq_some_iff.mp h
  dsimp only at h
  split at h
  · next hskip =>
    cases h
    exact ⟨r, value_extends (by omega) s v r t hu fun _ => ht, hskip⟩
  · cases h

theorem reads_member {k : Text} {v : Value} {pv : Text → Option (Value × Text)} (hk : Printable k) (hq : '"' ∉ k)
    (h : Reads pv s v) : Reads (member pv) ('"' :: (k ++ '"' :: ':' :: s)) (k, v) := by
  intro t ht
  obtain ⟨r, hr, hskip⟩ := h t ht
  refine ⟨r, ?_, hskip⟩
  have hstring := string_escapeQuotes hk (':' :: (s ++ t))
  rw [escapeQuotes_of_not_mem hq] at hstring
  have hopen : skip ('"' :: (k ++ '"' :: ':' :: (s ++ t))) = '"' :: (k ++ '"' :: ':' :: (s ++ t)) := rfl
  have hcolon : skip (':' :: (s ++ t)) = ':' :: (s ++ t) := rfl
  have htext : '"' :: (k ++ '"' :: ':' :: s) ++ t = '"' :: (k ++ '"' :: ':' :: (s ++ t)) := by simp
  simp only [member, htext, hopen, hstring, Option.bind_some, hcolon, hr, Option.map_some]

def commaJoin (ss : List Text) : Text := [','].intercalate ss

theorem commaJoin_cons (s : Text) {ss : List Text} (h : ss ≠ []) : commaJoin (s :: ss) = s ++ ',' :: commaJoin ss := by
  obtain ⟨u, rest, rfl⟩ := List.exists_cons_of_ne_nil h
  simp [commaJoin, List.intercalate]

theorem mem_commaJoin {ss : List Text} (h : c ∈ commaJoin ss) : c = ',' ∨ ∃ s ∈ ss, c ∈ s := by
  induction ss with
  | nil => cases h
  | cons s ss ih =>
    by_cases hne : ss = []
    · subst hne
      exact .inr ⟨s, List.mem_cons_self, by simpa [commaJoin, List.intercalate] using h⟩
    · rw [commaJoin_cons s hne, List.mem_append, List.mem_cons] at h
      rcases h with h | h | h
      · exact .inr ⟨s, List.mem_cons_self, h⟩
      · exact .inl h
      · exact (ih h).imp_right fun ⟨u, hu, hc⟩ => ⟨u, List.mem_cons_of_mem s hu, hc⟩

/-- A bracket that closes a sequence. -/
structure Closes (close : Char) : Prop where
  notSpace : isSpace close = false
  notScalar : isScalarChar close = false
  notComma : close ≠ ','

theorem skip_cons (h : isSpace c = false) (t : Text) : skip (c :: t) = c :: t :=
  List.dropWhile_cons_of_neg (by simp [h])

theorem items_commaJoin {es : List (Text × α)} (hclose : Closes close) (hne : es ≠ [])
    (h : ∀ e ∈ es, Reads p e.1 e.2) (hn : es.length ≤ n) (t : Text) :
    items p close n (commaJoin (es.map Prod.fst) ++ close :: t) = some (es.map Prod.snd, t) := by
  induction es generalizing n with
  | nil => exact absurd rfl hne
  | cons e es ih =>
    rw [List.length_cons] at hn
    obtain ⟨n, rfl⟩ : ∃ k, n = k + 1 := ⟨n - 1, by omega⟩
    by_cases hes : es = []
    · subst hes
      have hends : Ends (close :: t) := fun c hc => by
        cases hc
        exact hclose.notScalar
      obtain ⟨r, hr, hskip⟩ := h e List.mem_cons_self (close :: t) hends
      have hjoin : commaJoin ([e].map Prod.fst) = e.1 := by simp [commaJoin, List.intercalate]
      rw [hjoin, items, hr, Option.bind_some]
      simp only [skip_append_nil hskip, skip_cons hclose.notSpace, if_neg hclose.notComma, if_true]
      rfl
    · have hends : Ends (',' :: (commaJoin (es.map Prod.fst) ++ close :: t)) := fun c hc => by
        cases hc
        rfl
      obtain ⟨r, hr, hskip⟩ := h e List.mem_cons_self _ hends
      rw [List.map_cons, commaJoin_cons _ (by simpa using hes), List.append_assoc, List.cons_append, items, hr,
        Option.bind_some]
      simp only [skip_append_nil hskip, skip_cons (show isSpace ',' = false from rfl), if_true,
        ih (n := n) hes (fun e' he' => h e' (List.mem_cons_of_mem e he')) (by omega)]
      rfl

/-- Text that does not start with a blank or a closing bracket. -/
def Opens (close : Char) (s : Text) : Prop := ∃ c r, s = c :: r ∧ isSpace c = false ∧ c ≠ close

theorem sequence_commaJoin {es : List (Text × α)} (hclose : Closes close) (hopen : ∀ e ∈ es, Opens close e.1)
    (h : ∀ e ∈ es, Reads p e.1 e.2) (hn : es.length ≤ n) (t : Text) :
    sequence p close n (commaJoin (es.map Prod.fst) ++ close :: t) = some (es.map Prod.snd, t) := by
  cases es with
  | nil =>
    have hjoin : commaJoin (([] : List (Text × α)).map Prod.fst) ++ close :: t = close :: t := rfl
    rw [hjoin, sequence, skip_cons hclose.notSpace]
    exact if_pos rfl
  | cons e es =>
    have hitems := items_commaJoin hclose (List.cons_ne_nil e es) h hn t
    obtain ⟨c, r, hc, hspace, hne⟩ := hopen e List.mem_cons_self
    obtain ⟨u, hu⟩ : ∃ u, commaJoin ((e :: es).map Prod.fst) ++ close :: t = c :: u := by
      by_cases hes : es = []
      · subst hes
        exact ⟨r ++ close :: t, by simp [commaJoin, List.intercalate, hc]⟩
      · rw [List.map_cons, commaJoin_cons _ (by simpa using hes), hc]
        exact ⟨_, rfl⟩
    rw [hu] at hitems ⊢
    rw [sequence, skip_cons hspace]
    exact (if_neg hne).trans hitems

theorem length_le_commaJoin {ss : List Text} (hs : s ∈ ss) : s.length ≤ (commaJoin ss).length := by
  induction ss with
  | nil => cases hs
  | cons u ss ih =>
    by_cases hne : ss = []
    · subst hne
      rw [List.mem_singleton.mp hs]
      simp [commaJoin, List.intercalate]
    · rw [commaJoin_cons u hne, List.length_append, List.length_cons]
      rcases List.mem_cons.mp hs with rfl | hs
      · omega
      · have := ih hs
        omega

theorem length_commaJoin (ss : List Text) : ss.length ≤ (commaJoin ss).length + 1 := by
  induction ss with
  | nil => exact Nat.zero_le _
  | cons u ss ih =>
    by_cases hne : ss = []
    · subst hne
      exact Nat.le_add_left 1 _
    · rw [commaJoin_cons u hne, List.length_append, List.length_cons, List.length_cons]
      omega

theorem value_string (n : Nat) (s : Text) : value (n + 1) ('"' :: s) = (string s).map fun (x, r) => (.str x, r) := rfl

theorem value_object (n : Nat) (s : Text) :
    value (n + 1) ('\x7b' :: s) = (sequence (member (value n)) '\x7d' n s).map fun (ms, r) => (.obj ms, r) := rfl

theorem value_array (n : Nat) (s : Text) :
    value (n + 1) ('[' :: s) = (sequence (value n) ']' n s).map fun (vs, r) => (.arr vs, r) := rfl

theorem decode_string (h : Printable s) : decode ('"' :: (escapeQuotes s ++ ['"'])) = some (.str s) := by
  rw [decode, value_string, string_escapeQuotes h []]
  rfl

theorem decode_array (es : List (Text × Value)) (hopen : ∀ e ∈ es, Opens ']' e.1)
    (h : ∀ e ∈ es, decode e.1 = some e.2) :
    decode ('[' :: (commaJoin (es.map Prod.fst) ++ [']'])) = some (.arr (es.map Prod.snd)) := by
  have hcount := length_commaJoin (es.map Prod.fst)
  rw [List.length_map] at hcount
  have hlen : ('[' :: (commaJoin (es.map Prod.fst) ++ [']'])).length = (commaJoin (es.map Prod.fst)).length + 2 := by
    simp
  have hreads (e : Text × Value) (he : e ∈ es) :
      Reads (value ((commaJoin (es.map Prod.fst)).length + 2)) e.1 e.2 := by
    refine reads_of_decode (h e he) ?_
    have := length_le_commaJoin (List.mem_map_of_mem (f := Prod.fst) he)
    omega
  rw [decode, hlen, value_array, sequence_commaJoin ⟨rfl, rfl, by decide⟩ hopen hreads (by omega)]
  rfl

def memberText (k s : Text) : Text := '"' :: (k ++ '"' :: ':' :: s)

/-- An object, of keys and the texts of their values. -/
theorem decode_object {ms : List (Text × Text × Value)}
    (h : ∀ m ∈ ms, (Printable m.1 ∧ '"' ∉ m.1) ∧ decode m.2.1 = some m.2.2) :
    decode ('\x7b' :: (commaJoin (ms.map fun m => memberText m.1 m.2.1) ++ ['\x7d'])) =
      some (.obj (ms.map fun m => (m.1, m.2.2))) := by
  have hfst : ms.map (fun m => memberText m.1 m.2.1) =
      (ms.map fun m => (memberText m.1 m.2.1, (m.1, m.2.2))).map Prod.fst := by
    rw [List.map_map]
    rfl
  generalize hbody : commaJoin (ms.map fun m => memberText m.1 m.2.1) = body
  have hcount := length_commaJoin (ms.map fun m => memberText m.1 m.2.1)
  rw [hbody, List.length_map] at hcount
  have hreads : ∀ e ∈ ms.map fun m => (memberText m.1 m.2.1, (m.1, m.2.2)),
      Reads (member (value (body.length + 2))) e.1 e.2 := by
    intro e he
    obtain ⟨m, hm, rfl⟩ := List.mem_map.mp he
    obtain ⟨⟨hk, hq⟩, hd⟩ := h m hm
    refine reads_member hk hq (reads_of_decode hd ?_)
    have hlen := length_le_commaJoin (List.mem_map_of_mem (f := fun m => memberText m.1 m.2.1) hm)
    rw [hbody] at hlen
    simp only [memberText, List.length_cons, List.length_append] at hlen
    omega
  have hopen : ∀ e ∈ ms.map fun m => (memberText m.1 m.2.1, (m.1, m.2.2)), Opens '\x7d' e.1 := by
    intro e he
    obtain ⟨m, -, rfl⟩ := List.mem_map.mp he
    exact ⟨'"', _, rfl, rfl, by decide⟩
  have hsequence := sequence_commaJoin (n := body.length + 2) ⟨rfl, rfl, by decide⟩ hopen hreads
    (by rw [List.length_map]; omega) []
  rw [← hfst, hbody, List.map_map] at hsequence
  have hlen : ('\x7b' :: (body ++ ['\x7d'])).length = body.length + 2 := by simp
  rw [decode, hlen, value_object, hsequence]
  rfl

end Agl.Json
