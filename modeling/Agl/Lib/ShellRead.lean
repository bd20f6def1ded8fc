/-
Text as a shell reads it: the builtin `read` without `-r`, and the
assignments of a file that is sourced.

Of a sourced file only lines are read that assign text as it stands: where
anything would be expanded or run, there is no result, nor for single quotes
and for a backslash outside of double quotes. Letters are those of ASCII.
-/
import Agl.Lib.ShellText

namespace Agl.Sh

/-! ## read -/

/-- A character, and whether a backslash was in front of it. -/
abbrev ReadChar := Char × Bool

def ReadChar.isTrimmed (c : ReadChar) : Bool := isBlank c.1 && !c.2

/-- The blanks at both ends are dropped. -/
def trimBlanks (cs : List ReadChar) : Text :=
  ((cs.dropWhile ReadChar.isTrimmed).reverse.dropWhile ReadChar.isTrimmed).reverse.map Prod.fst

/-- The lines of `while read x`, given what has been read of the first one,
last character first. A line that is not ended is not read. -/
def readFrom : List ReadChar → Text → List Text
  | _, [] => []
  | cs, '\n' :: s => trimBlanks cs.reverse :: readFrom [] s
  | cs, '\\' :: '\n' :: s => readFrom cs s
  | cs, '\\' :: c :: s => readFrom ((c, true) :: cs) s
  | cs, c :: s => readFrom ((c, false) :: cs) s

def readLines (s : Text) : List Text := readFrom [] s

theorem mem_of_mem_trimBlanks {cs : List ReadChar} {c : Char} (h : c ∈ trimBlanks cs) : ∃ b, (c, b) ∈ cs := by
  obtain ⟨⟨d, b⟩, hmem, rfl⟩ := List.mem_map.mp h
  refine ⟨b, ?_⟩
  exact (List.dropWhile_sublist _).subset (List.mem_reverse.mp ((List.dropWhile_sublist _).subset
    (List.mem_reverse.mp hmem)))

/-- No line holds what ends one. -/
theorem readFrom_noNewline (cs : List ReadChar) (s : Text) (hcs : ∀ c ∈ cs, c.1 ≠ '\n') :
    ∀ l ∈ readFrom cs s, '\n' ∉ l := by
  have hline (cs : List ReadChar) (hcs : ∀ c ∈ cs, c.1 ≠ '\n') : '\n' ∉ trimBlanks cs.reverse := fun hmem => by
    obtain ⟨b, hb⟩ := mem_of_mem_trimBlanks hmem
    exact hcs _ (List.mem_reverse.mp hb) rfl
  have hcons {cs : List ReadChar} {c : ReadChar} (hcs : ∀ c ∈ cs, c.1 ≠ '\n') (hc : c.1 ≠ '\n') :
      ∀ d ∈ c :: cs, d.1 ≠ '\n' := List.forall_mem_cons.mpr ⟨hc, hcs⟩
  fun_induction readFrom cs s with
  | case1 => exact fun l hl => by cases hl
  | case2 cs s ih =>
    intro l hl
    rcases List.mem_cons.mp hl with rfl | hl
    · exact hline cs hcs
    · exact ih (fun c hc => by cases hc) l hl
  | case3 cs s ih => exact ih hcs
  | case4 cs c s hc ih => exact ih (hcons hcs hc)
  | case5 cs c s hc _ _ ih => exact ih (hcons hcs hc)

theorem readLines_noNewline {s l : Text} (h : l ∈ readLines s) : '\n' ∉ l :=
  readFrom_noNewline [] s (fun c hc => by cases hc) l h

/-- No blank at its ends. -/
def Tight (l : Text) : Prop := (∀ c ∈ l.head?, isBlank c = false) ∧ ∀ c ∈ l.getLast?, isBlank c = false

theorem tight_of_isWord {w : Text} (h : IsWord w) : Tight w :=
  ⟨fun c hc => h.2 c (List.mem_of_mem_head? hc), fun c hc => h.2 c (List.mem_of_mem_getLast? hc)⟩

theorem tight_append {a b : Text} (ha : Tight a) (hb : Tight b) : Tight (a ++ b) := by
  refine ⟨fun c hc => ?_, fun c hc => ?_⟩
  · cases a with
    | nil => exact hb.1 c hc
    | cons d a => exact ha.1 c hc
  · rw [List.getLast?_append] at hc
    cases hlast : b.getLast? with
    | none =>
      rw [hlast, Option.none_or] at hc
      exact ha.2 c hc
    | some e =>
      rw [hlast, Option.some_or] at hc
      exact hb.2 c (hlast ▸ hc)

theorem tight_joinWords {ws : List Text} (h : ∀ w ∈ ws, IsWord w) : Tight (joinWords ws) := by
  induction ws with
  | nil => exact ⟨fun c hc => (by cases hc), fun c hc => (by cases hc)⟩
  | cons w ws ih =>
    have hw := h w List.mem_cons_self
    by_cases hws : ws = []
    · rw [hws, joinWords_singleton]
      exact tight_of_isWord hw
    · have ih := ih fun v hv => h v (List.mem_cons_of_mem w hv)
      rw [joinWords_cons hws]
      refine ⟨fun c hc => ?_, fun c hc => ?_⟩
      · obtain ⟨d, w, rfl⟩ := List.exists_cons_of_ne_nil hw.1
        exact (tight_of_isWord hw).1 c hc
      · have hne : joinWords ws ≠ [] := by
          obtain ⟨v, rest, rfl⟩ := List.exists_cons_of_ne_nil hws
          intro hnil
          have hsplit := splitWords_joinWords fun u hu => h u (List.mem_cons_of_mem w hu)
          rw [hnil] at hsplit
          cases hsplit
        obtain ⟨d, l, hl⟩ := List.exists_cons_of_ne_nil hne
        rw [hl, List.getLast?_append, List.getLast?_cons_cons] at hc
        obtain ⟨e, he⟩ : ∃ e, (d :: l).getLast? = some e := ⟨_, List.getLast?_eq_some_getLast (List.cons_ne_nil d l)⟩
        rw [he, Option.some_or] at hc
        exact ih.2 c (hl ▸ he ▸ hc)

/-- The characters of a line that is read, without the backslashes that are dropped. -/
def slashed : Text → List ReadChar
  | [] => []
  | '\\' :: c :: l => (c, true) :: slashed l
  | c :: l => (c, false) :: slashed l

/-- The line without those backslashes. -/
def unslash (l : Text) : Text := (slashed l).map Prod.fst

theorem trimBlanks_of_kept {cs : List ReadChar} (hhead : ∀ c ∈ cs.head?, c.isTrimmed = false)
    (hlast : ∀ c ∈ cs.getLast?, c.isTrimmed = false) : trimBlanks cs = cs.map Prod.fst := by
  have hdrop (cs : List ReadChar) (h : ∀ c ∈ cs.head?, c.isTrimmed = false) : cs.dropWhile ReadChar.isTrimmed = cs := by
    cases cs with
    | nil => rfl
    | cons c cs => exact List.dropWhile_cons_of_neg (by simp [h c rfl])
  rw [trimBlanks, hdrop cs hhead, hdrop cs.reverse (by rw [List.head?_reverse]; exact hlast), List.reverse_reverse]

theorem getLast?_tail_ne {c : Char} {l : Text} (h : (c :: l).getLast? ≠ some '\\') : l.getLast? ≠ some '\\' := by
  cases l with
  | nil => exact nofun
  | cons d l => simpa [List.getLast?_cons_cons] using h

theorem ne_backslash {c : Char} {l : Text} (hc : ∀ d r, c = '\\' → l = d :: r → False)
    (hlast : (c :: l).getLast? ≠ some '\\') : c ≠ '\\' := by
  rintro rfl
  cases l with
  | nil => exact hlast rfl
  | cons d l => exact hc d l rfl rfl

/-- A line that does not end with a backslash. -/
theorem readFrom_slashed {l : Text} (hn : '\n' ∉ l) (hlast : l.getLast? ≠ some '\\') (cs : List ReadChar) (s : Text) :
    readFrom cs (l ++ '\n' :: s) = trimBlanks (cs.reverse ++ slashed l) :: readLines s := by
  fun_induction slashed l generalizing cs with
  | case1 =>
    rw [List.append_nil]
    rfl
  | case2 c l ih =>
    rw [List.mem_cons, List.mem_cons, not_or, not_or] at hn
    rw [List.cons_append, List.cons_append, readFrom, ih hn.2.2 (getLast?_tail_ne (getLast?_tail_ne hlast)),
      List.reverse_cons, List.append_assoc]
    · rfl
    · exact fun h => hn.2.1 h.symm
  | case3 c l hc ih =>
    rw [List.mem_cons, not_or] at hn
    have hb := ne_backslash hc hlast
    rw [List.cons_append, readFrom, ih hn.2 (getLast?_tail_ne hlast), List.reverse_cons, List.append_assoc]
    · rfl
    · exact fun h => hn.1 h.symm
    · exact fun _ h => absurd h hb
    · exact fun _ _ h => absurd h hb

theorem slashed_cons {c : Char} (hc : c ≠ '\\') (l : Text) : slashed (c :: l) = (c, false) :: slashed l := by
  rw [slashed]
  exact fun _ _ h => absurd h hc

theorem unslash_cons {c : Char} (hc : c ≠ '\\') (l : Text) : unslash (c :: l) = c :: unslash l := by
  rw [unslash, slashed_cons hc]
  rfl

theorem slashed_of_not_mem {l : Text} (hb : '\\' ∉ l) : slashed l = l.map (·, false) := by
  induction l with
  | nil => rfl
  | cons c l ih =>
    rw [List.mem_cons, not_or] at hb
    rw [slashed_cons (Ne.symm hb.1), ih hb.2]
    rfl

theorem unslash_of_not_mem {l : Text} (hb : '\\' ∉ l) : unslash l = l := by
  rw [unslash, slashed_of_not_mem hb, List.map_map]
  exact List.map_id l

theorem slashed_append {l : Text} (hlast : l.getLast? ≠ some '\\') (s : Text) :
    slashed (l ++ s) = slashed l ++ slashed s := by
  fun_induction slashed l with
  | case1 => rfl
  | case2 c l ih =>
    rw [List.cons_append, List.cons_append, slashed, ih (getLast?_tail_ne (getLast?_tail_ne hlast))]
    rfl
  | case3 c l hc ih =>
    have hb := ne_backslash hc hlast
    rw [List.cons_append, slashed_cons hb, ih (getLast?_tail_ne hlast)]
    rfl

theorem unslash_append {l : Text} (hlast : l.getLast? ≠ some '\\') (s : Text) :
    unslash (l ++ s) = unslash l ++ unslash s := by
  rw [unslash, slashed_append hlast, List.map_append]
  rfl

theorem unslash_sublist (l : Text) : (unslash l).Sublist l := by
  unfold unslash
  fun_induction slashed l with
  | case1 => exact List.Sublist.refl _
  | case2 c l ih => exact (ih.cons_cons c).cons _
  | case3 c l _ ih => exact ih.cons_cons c

theorem slashed_getLast? {l : Text} (hlast : l.getLast? ≠ some '\\') :
    (slashed l).getLast?.map Prod.fst = l.getLast? := by
  fun_induction slashed l with
  | case1 => rfl
  | case2 c l ih =>
    have ih := ih (getLast?_tail_ne (getLast?_tail_ne hlast))
    rw [List.getLast?_cons, List.getLast?_cons, List.getLast?_cons, ← ih]
    cases (slashed l).getLast? <;> rfl
  | case3 c l _ ih =>
    have ih := ih (getLast?_tail_ne hlast)
    rw [List.getLast?_cons, List.getLast?_cons, ← ih]
    cases (slashed l).getLast? <;> rfl

/-- The last character stays. -/
theorem unslash_getLast? {l : Text} (hlast : l.getLast? ≠ some '\\') : (unslash l).getLast? = l.getLast? := by
  rw [unslash, List.getLast?_map, slashed_getLast? hlast]

theorem readLines_unslash {l : Text} (ht : Tight l) (hn : '\n' ∉ l) (hlast : l.getLast? ≠ some '\\') (s : Text) :
    readLines (l ++ '\n' :: s) = unslash l :: readLines s := by
  rw [readLines, readFrom_slashed hn hlast, List.reverse_nil, List.nil_append, trimBlanks_of_kept, unslash]
  · intro c hc
    cases l with
    | nil => cases hc
    | cons d l =>
      have hd := ht.1 d rfl
      by_cases hb : d = '\\'
      · -- what is behind a backslash is not trimmed
        subst hb
        cases l with
        | nil => exact absurd rfl hlast
        | cons e l =>
          cases hc
          simp [ReadChar.isTrimmed]
      · rw [slashed_cons hb] at hc
        cases hc
        simp [ReadChar.isTrimmed, hd]
  · intro c hc
    have hmem : c.1 ∈ l.getLast? := by
      rw [← slashed_getLast? hlast]
      exact Option.mem_map_of_mem Prod.fst hc
    simp [ReadChar.isTrimmed, ht.2 c.1 hmem]

/-- A line without backslashes. -/
theorem readFrom_line {l : Text} (hb : '\\' ∉ l) (hn : '\n' ∉ l) (cs : List ReadChar) (s : Text) :
    readFrom cs (l ++ '\n' :: s) = trimBlanks (cs.reverse ++ l.map (·, false)) :: readLines s := by
  rw [readFrom_slashed hn fun hlast => hb (List.mem_of_getLast? hlast), slashed_of_not_mem hb]

theorem readFrom_unended {s : Text} (hn : '\n' ∉ s) (cs : List ReadChar) : readFrom cs s = [] := by
  fun_induction readFrom cs s with
  | case1 => rfl
  | case2 => exact absurd List.mem_cons_self hn
  | case3 cs s ih => exact ih fun h => hn (List.mem_cons_of_mem _ (List.mem_cons_of_mem _ h))
  | case4 cs c s _ ih => exact ih fun h => hn (List.mem_cons_of_mem _ (List.mem_cons_of_mem _ h))
  | case5 cs c s _ _ _ ih => exact ih fun h => hn (List.mem_cons_of_mem _ h)

theorem readLines_line {l : Text} (ht : Tight l) (hb : '\\' ∉ l) (hn : '\n' ∉ l) (s : Text) :
    readLines (l ++ '\n' :: s) = l :: readLines s := by
  rw [readLines_unslash ht hn fun hlast => hb (List.mem_of_getLast? hlast), unslash_of_not_mem hb]

theorem trimBlanks_sublist (cs : List ReadChar) : (trimBlanks cs).Sublist (cs.map Prod.fst) := by
  refine List.Sublist.map _ ?_
  have h := ((List.dropWhile_sublist ReadChar.isTrimmed (l := (cs.dropWhile ReadChar.isTrimmed).reverse)).reverse)
  rw [List.reverse_reverse] at h
  exact h.trans (List.dropWhile_sublist _)

theorem backslashes_cons (c : Char) (s : Text) :
    backslashes (c :: s) = (if c = '\\' then 1 else 0) + backslashes s := weight_cons _ c s

section Weight

variable {f g : Char → Nat}

theorem weight_trimBlanks (g : Char → Nat) (cs : List ReadChar) :
    weight g (trimBlanks cs.reverse) ≤ weight g (cs.map Prod.fst) := by
  have h := weight_le_of_sublist g (trimBlanks_sublist cs.reverse)
  have hsum : weight g (cs.reverse.map Prod.fst) = weight g (cs.map Prod.fst) := by
    rw [weight, weight, List.map_reverse, List.map_reverse, List.sum_reverse]
  exact h.trans_eq hsum

/-- What follows the text that is looked at: nothing, or a line with a
character, none of which weighs anything. -/
inductive FollowedBy (g : Char → Nat) : Text → Prop
  | nothing : FollowedBy g []
  | line (l r : Text) (hne : l ≠ []) (hb : '\\' ∉ l) (hn : '\n' ∉ l) (hg : weight g l = 0) :
    FollowedBy g (l ++ '\n' :: r)

theorem weight_line {l : Text} (hg : weight g l = 0) (cs : List ReadChar) :
    weight g (trimBlanks (cs.reverse ++ l.map (·, false))) ≤ weight g (cs.map Prod.fst) := by
  have h := weight_trimBlanks g ((l.map fun c => ((c, false) : ReadChar)).reverse ++ cs)
  rw [List.reverse_append, List.reverse_reverse, List.map_append, List.map_reverse, List.map_map, weight_append] at h
  have hl : weight g ((l.map (Prod.fst ∘ fun c => ((c, false) : ReadChar))).reverse) = weight g l := by
    rw [weight, weight, List.map_reverse, List.sum_reverse, List.map_map]
    rfl
  omega

/-- A line read of the text, or of it and the line that follows. A character
that comes out weighs no more than it did, with the backslash in front of it
if there was one. -/
theorem weight_readFrom (hescape : ∀ c, g c ≤ f '\\' + f c) (hplain : ∀ c, c ≠ '\\' → g c ≤ f c) {t y : Text}
    {ys : List Text} (ht : FollowedBy g t) {e : Text} {cs : List ReadChar} (h : readFrom cs (e ++ t) = y :: ys) :
    weight g y ≤ weight g (cs.map Prod.fst) + weight f e := by
  induction hlen : e.length using Nat.strong_induction_on generalizing e cs with
  | _ n ih =>
    cases e with
    | nil =>
      cases ht with
      | nothing => cases h
      | line l r hne hb hn hg =>
        rw [List.nil_append, readFrom_line hb hn] at h
        cases h
        exact weight_line hg cs
    | cons c e =>
      rw [List.length_cons] at hlen
      by_cases hc : c = '\n'
      · subst hc
        cases h
        exact (weight_trimBlanks g cs).trans (Nat.le_add_right _ _)
      · by_cases hb : c = '\\'
        · subst hb
          cases e with
          | nil =>
            -- the backslash is in front of what follows
            cases ht with
            | nothing => cases h
            | line l r hne hb hn hg =>
              obtain ⟨d, l, rfl⟩ := List.exists_cons_of_ne_nil hne
              rw [List.mem_cons, not_or] at hb hn
              rw [weight_cons, Nat.add_eq_zero_iff] at hg
              rw [List.singleton_append, List.cons_append, readFrom, readFrom_line hb.2 hn.2] at h
              · cases h
                have hline := weight_line hg.2 ((d, true) :: cs)
                rw [List.map_cons, weight_cons, hg.1] at hline
                omega
              · exact fun hd => hn.1 hd.symm
          | cons d e =>
            rw [List.length_cons] at hlen
            rw [weight_cons, weight_cons]
            by_cases hd : d = '\n'
            · subst hd
              have hrest : weight g y ≤ weight g (cs.map Prod.fst) + weight f e := ih e.length (by omega) h rfl
              omega
            · rw [List.cons_append, List.cons_append, readFrom] at h
              · have hrest := ih e.length (by omega) h rfl
                have hout := hescape d
                rw [List.map_cons, weight_cons] at hrest
                dsimp only at hrest
                omega
              · exact hd
        · rw [List.cons_append, readFrom] at h
          · have hrest := ih e.length (by omega) h rfl
            have hout := hplain c hb
            rw [List.map_cons, weight_cons] at hrest
            rw [weight_cons]
            dsimp only at hrest
            omega
          · exact hc
          · exact fun _ hc => absurd hc hb
          · exact fun _ _ hc => absurd hc hb

end Weight

/-- The lines take nothing but what is in the text. -/
theorem readFrom_sublist (cs : List ReadChar) (s : Text) :
    (readFrom cs s).flatten.Sublist (cs.reverse.map Prod.fst ++ s) := by
  fun_induction readFrom cs s with
  | case1 => exact List.nil_sublist _
  | case2 cs s ih =>
    rw [List.flatten_cons]
    exact (trimBlanks_sublist cs.reverse).append (ih.trans (List.sublist_cons_self '\n' s))
  | case3 cs s ih => exact ih.trans (((List.sublist_cons_self _ _).trans (List.sublist_cons_self _ _)).append_left _)
  | case4 cs c s _ ih =>
    rw [List.reverse_cons, List.map_append, List.append_assoc] at ih
    exact ih.trans ((List.sublist_cons_self '\\' _).append_left _)
  | case5 cs c s _ _ _ ih =>
    rw [List.reverse_cons, List.map_append, List.append_assoc] at ih
    exact ih

theorem readLines_sublist (s : Text) : (readLines s).flatten.Sublist s := readFrom_sublist [] s

/-! ## Assignments -/

/-- Behind a `$` it starts an expansion. -/
def startsExpansion (c : Char) : Bool :=
  c.isAlphanum || (['_', '@', '*', '#', '?', '-', '$', '!', '\x7b', '(', '['] : List Char).contains c

/-- A character that outside of quotes stands for itself, whatever is behind it. -/
def isPlain (c : Char) : Bool :=
  !(isBlank c || (['"', '\'', '\\', '$', '\x60', ';', '&', '|', '<', '>', '(', ')'] : List Char).contains c)

/-- A tilde in front of a name the shell knows a directory for, none of it
quoted. -/
def expandsTilde (login : Text → Bool) : Text → Bool
  | '~' :: s =>
    let name := s.takeWhile fun c => c ≠ '/' && c ≠ ':'
    name.all isPlain && login name
  | _ => false

/-- Outside of quotes `c` stands for itself in front of `s`. A tilde is looked
at behind a colon. -/
def keptPlain (login : Text → Bool) (c : Char) (s : Text) : Bool :=
  if c = '$' then !s.head?.any fun d => startsExpansion d || d = '"' || d = '\''
  else if c = ':' then !expandsTilde login s
  else isPlain c

/-- Within double quotes `c` stands for itself in front of `s`. -/
def keptQuoted (c : Char) (s : Text) : Bool :=
  if c = '$' then !s.head?.any startsExpansion else c ≠ '\\' && c ≠ '\x60'

/-- Before these a backslash in double quotes is dropped. -/
def isQuoteEscaped (c : Char) : Bool := (['"', '\\', '$', '\x60'] : List Char).contains c

section Word

variable (login : Text → Bool)

/-- What a word is the text of, up to the end of the line; within double
quotes or not. -/
def assignWord : Bool → Text → Option Text
  | false, [] => some []
  | true, [] => none
  | q, '"' :: s => assignWord (!q) s
  | true, '\\' :: c :: s =>
    if isQuoteEscaped c then (assignWord true s).map (c :: ·) else (assignWord true s).map ('\\' :: c :: ·)
  | true, c :: s => if keptQuoted c s then (assignWord true s).map (c :: ·) else none
  | false, c :: s => if keptPlain login c s then (assignWord false s).map (c :: ·) else none

/-- What a value is the text of; a tilde is looked at where it begins. -/
def assignValue (word : Text) : Option Text :=
  if expandsTilde login word then none else assignWord login false word

end Word

/-- Every character of a text meets `p` in front of what follows it. -/
def everywhere (p : Char → Text → Bool) : Text → Bool
  | [] => true
  | c :: s => p c s && everywhere p s

/-- Letters, digits and underscores. -/
def IsKey (x : Text) : Prop := x ≠ [] ∧ ∀ c ∈ x, c.isAlphanum = true ∨ c = '_'

/-- The name of a variable. -/
def IsName (x : Text) : Prop := x ≠ [] ∧ (∀ c ∈ x, c.isAlphanum = true ∨ c = '_') ∧ ∀ c ∈ x.head?, c.isDigit = false

instance (x : Text) : Decidable (IsName x) := inferInstanceAs (Decidable (_ ∧ _ ∧ _))

theorem IsName.isKey {x : Text} (h : IsName x) : IsKey x := ⟨h.1, h.2.1⟩

theorem IsKey.not_mem {x : Text} (h : IsKey x) {c : Char} (hc : c.isAlphanum = false ∧ c ≠ '_') : c ∉ x := fun hmem =>
  (h.2 c hmem).elim (fun h => by rw [hc.1] at h; cases h) hc.2

theorem isBlank_of_isAlphanum {c : Char} (h : c.isAlphanum = true ∨ c = '_') : isBlank c = false := by
  rw [← Bool.not_eq_true]
  intro hb
  simp only [isBlank, Bool.or_eq_true, decide_eq_true_eq] at hb
  rcases hb with (rfl | rfl) | rfl <;> revert h <;> decide

theorem IsKey.isWord {x : Text} (h : IsKey x) : IsWord x := ⟨h.1, fun c hc => isBlank_of_isAlphanum (h.2 c hc)⟩

theorem IsKey.notOption {x : Text} (h : IsKey x) : isEchoOption x = false := by
  obtain ⟨c, s, rfl⟩ := List.exists_cons_of_ne_nil h.1
  refine isEchoOption_of_head ?_
  rintro rfl
  exact absurd List.mem_cons_self (h.not_mem (by decide))

/-- A line that assigns. -/
def assignment (login : Text → Bool) (line : Text) : Option (Text × Text) :=
  match line.dropWhile (· ≠ '=') with
  | [] => none
  | _ :: word =>
    let x := line.takeWhile (· ≠ '=')
    if IsName x then (assignValue login word).map fun v => (x, v) else none

/-- What a sourced file assigns. -/
def source (login : Text → Bool) (s : Text) : Option (List (Text × Text)) := (lines s).mapM (assignment login)

section Kept

variable {login : Text → Bool}

theorem assignValue_of_head {word : Text} (h : word.head? ≠ some '~') :
    assignValue login word = assignWord login false word := by
  rw [assignValue, if_neg]
  unfold expandsTilde
  split
  · exact absurd rfl h
  · exact Bool.false_ne_true

theorem ne_quote_of_keptPlain {c : Char} {s : Text} (h : keptPlain login c s = true) : c ≠ '"' := by
  rintro rfl
  cases h

theorem ne_backslash_of_keptQuoted {c : Char} {s : Text} (h : keptQuoted c s = true) : c ≠ '\\' := by
  rintro rfl
  cases h

/-- What is escaped behind a `$` expands no more. -/
theorem keptQuoted_escaped (c : Char) (s : Text) : keptQuoted c (escapeQuotes s ++ ['"']) = keptQuoted c s := by
  have hhead : (escapeQuotes s ++ ['"']).head?.any startsExpansion = s.head?.any startsExpansion := by
    cases s with
    | nil => decide
    | cons d s =>
      rw [escapeQuotes, List.flatMap_cons]
      by_cases hq : d = '"'
      · subst hq
        rfl
      · rw [if_neg hq]
        rfl
  unfold keptQuoted
  rw [hhead]

theorem assignWord_plain {s : Text} (h : everywhere (keptPlain login) s = true) :
    assignWord login false s = some s := by
  induction s with
  | nil => rfl
  | cons c s ih =>
    rw [everywhere, Bool.and_eq_true] at h
    rw [assignWord, if_pos h.1, ih h.2]
    · rfl
    · exact ne_quote_of_keptPlain h.1

theorem assignWord_escaped {s : Text} (h : everywhere keptQuoted s = true) :
    assignWord login true (escapeQuotes s ++ ['"']) = some s := by
  induction s with
  | nil => rfl
  | cons c s ih =>
    rw [everywhere, Bool.and_eq_true] at h
    rw [escapeQuotes, List.flatMap_cons, ← escapeQuotes]
    by_cases hq : c = '"'
    · rw [if_pos hq, hq, List.append_assoc, List.cons_append, List.singleton_append, assignWord,
        if_pos (by decide), ih h.2]
      rfl
    · rw [if_neg hq, List.append_assoc, List.singleton_append, assignWord, keptQuoted_escaped, if_pos h.1, ih h.2]
      · rfl
      · exact hq
      · exact fun d s' hc => absurd hc (ne_backslash_of_keptQuoted h.1)

/-! ## What an assignment gives -/

/-- Outside of quotes, the last quote is one too many. -/
theorem assignWord_open (s : Text) : assignWord login false (escapeQuotes s ++ ['"']) = none := by
  induction s with
  | nil => rfl
  | cons c s ih =>
    rw [escapeQuotes, List.flatMap_cons, ← escapeQuotes]
    by_cases hq : c = '"'
    · rw [if_pos hq]
      rfl
    · rw [if_neg hq, List.append_assoc, List.singleton_append, assignWord, ih]
      · simp
      · exact hq

theorem backslashes_quoted {s v : Text} (h : assignWord login true (escapeQuotes s ++ ['"']) = some v) :
    backslashes v ≤ backslashes s := by
  induction hlen : s.length using Nat.strong_induction_on generalizing s v with
  | _ n ih =>
    cases s with
    | nil =>
      cases h
      exact le_rfl
    | cons c s =>
      rw [List.length_cons] at hlen
      rw [escapeQuotes, List.flatMap_cons, ← escapeQuotes] at h
      by_cases hq : c = '"'
      · rw [if_pos hq, List.append_assoc, List.cons_append, List.singleton_append, assignWord, if_pos (by decide)] at h
        obtain ⟨u, hu, rfl⟩ := Option.map_eq_some_iff.mp h
        have := ih s.length (by omega) hu rfl
        rw [backslashes_cons, backslashes_cons, hq]
        omega
      · rw [if_neg hq, List.append_assoc, List.singleton_append] at h
        by_cases hb : c = '\\'
        · subst hb
          cases s with
          | nil => cases h
          | cons d s =>
            rw [List.length_cons] at hlen
            rw [escapeQuotes, List.flatMap_cons, ← escapeQuotes] at h
            by_cases hd : d = '"'
            · -- the quote is closed, and another one opened
              rw [if_pos hd, List.append_assoc, List.cons_append, List.singleton_append, assignWord,
                if_pos (by decide), assignWord, Bool.not_true, assignWord_open] at h
              cases h
            · rw [if_neg hd, List.append_assoc, List.singleton_append, assignWord] at h
              split at h
              · obtain ⟨u, hu, rfl⟩ := Option.map_eq_some_iff.mp h
                have := ih s.length (by omega) hu rfl
                rw [backslashes_cons, backslashes_cons, backslashes_cons]
                omega
              · obtain ⟨u, hu, rfl⟩ := Option.map_eq_some_iff.mp h
                have := ih s.length (by omega) hu rfl
                rw [backslashes_cons, backslashes_cons, backslashes_cons, backslashes_cons]
                omega
        · rw [assignWord] at h
          · split at h
            · obtain ⟨u, hu, rfl⟩ := Option.map_eq_some_iff.mp h
              have := ih s.length (by omega) hu rfl
              rw [backslashes_cons, backslashes_cons]
              omega
            · cases h
          · exact hq
          · exact fun _ _ hc => absurd hc hb

theorem backslashes_assignWord {q : Bool} {s v : Text} (h : assignWord login q s = some v) :
    backslashes v ≤ backslashes s := by
  fun_induction assignWord login q s generalizing v with
  | case1 =>
    cases h
    exact le_rfl
  | case2 => cases h
  | case3 q s ih =>
    have := ih h
    rw [backslashes_cons]
    omega
  | case4 c s hc ih =>
    obtain ⟨u, hu, rfl⟩ := Option.map_eq_some_iff.mp h
    have := ih hu
    rw [backslashes_cons, backslashes_cons, backslashes_cons]
    omega
  | case5 c s hc ih =>
    obtain ⟨u, hu, rfl⟩ := Option.map_eq_some_iff.mp h
    have := ih hu
    rw [backslashes_cons, backslashes_cons, backslashes_cons, backslashes_cons]
    omega
  | case6 c s _ _ hc ih =>
    obtain ⟨u, hu, rfl⟩ := Option.map_eq_some_iff.mp h
    have := ih hu
    rw [backslashes_cons, backslashes_cons]
    omega
  | case7 => cases h
  | case8 c s _ hc ih =>
    obtain ⟨u, hu, rfl⟩ := Option.map_eq_some_iff.mp h
    have := ih hu
    rw [backslashes_cons, backslashes_cons]
    omega
  | case9 => cases h

/-- Without backslashes, what is in the quotes is taken as it is. -/
theorem assignWord_quoted {s v : Text} (hb : '\\' ∉ s) (h : assignWord login true (escapeQuotes s ++ ['"']) = some v) :
    v = s ∧ everywhere keptQuoted s = true := by
  induction s generalizing v with
  | nil =>
    cases h
    exact ⟨rfl, rfl⟩
  | cons c s ih =>
    rw [List.mem_cons, not_or] at hb
    rw [escapeQuotes, List.flatMap_cons, ← escapeQuotes] at h
    by_cases hq : c = '"'
    · rw [if_pos hq, List.append_assoc, List.cons_append, List.singleton_append, assignWord, if_pos (by decide)] at h
      obtain ⟨u, hu, rfl⟩ := Option.map_eq_some_iff.mp h
      obtain ⟨rfl, hall⟩ := ih hb.2 hu
      subst hq
      exact ⟨rfl, by rw [everywhere, hall]; rfl⟩
    · rw [if_neg hq, List.append_assoc, List.singleton_append, assignWord] at h
      · split at h
        · next hkept =>
          obtain ⟨u, hu, rfl⟩ := Option.map_eq_some_iff.mp h
          obtain ⟨rfl, hall⟩ := ih hb.2 hu
          rw [keptQuoted_escaped] at hkept
          exact ⟨rfl, by rw [everywhere, hkept, hall]; rfl⟩
        · cases h
      · exact hq
      · exact fun _ _ hc => absurd hc.symm hb.1

/-- Without quotes and backslashes, every character stands for itself. -/
theorem assignWord_unquoted {s v : Text} (hq : '"' ∉ s) (h : assignWord login false s = some v) :
    v = s ∧ everywhere (keptPlain login) s = true := by
  induction s generalizing v with
  | nil =>
    cases h
    exact ⟨rfl, rfl⟩
  | cons c s ih =>
    rw [List.mem_cons, not_or] at hq
    rw [assignWord] at h
    · split at h
      · next hc =>
        obtain ⟨u, hu, rfl⟩ := Option.map_eq_some_iff.mp h
        obtain ⟨rfl, hall⟩ := ih hq.2 hu
        exact ⟨rfl, by rw [everywhere, hc, hall]; rfl⟩
      · cases h
    · exact fun hc => hq.1 hc.symm

/-- Quotes are not part of the value. -/
theorem length_assignWord {q : Bool} {s v : Text} (h : assignWord login q s = some v) :
    v.length ≤ s.length ∧ ('"' ∈ s → '\\' ∉ s → v.length < s.length) := by
  fun_induction assignWord login q s generalizing v with
  | case1 =>
    cases h
    exact ⟨le_rfl, fun hq => by cases hq⟩
  | case2 => cases h
  | case3 q s ih =>
    have := (ih h).1
    rw [List.length_cons]
    exact ⟨by omega, fun _ _ => by omega⟩
  | case4 c s hc ih =>
    obtain ⟨u, hu, rfl⟩ := Option.map_eq_some_iff.mp h
    have := (ih hu).1
    simp only [List.length_cons]
    exact ⟨by omega, fun _ _ => by omega⟩
  | case5 c s hc ih =>
    obtain ⟨u, hu, rfl⟩ := Option.map_eq_some_iff.mp h
    have := (ih hu).1
    simp only [List.length_cons]
    exact ⟨by omega, fun _ hb => absurd List.mem_cons_self hb⟩
  | case6 c s hq _ hc ih =>
    obtain ⟨u, hu, rfl⟩ := Option.map_eq_some_iff.mp h
    obtain ⟨hle, hlt⟩ := ih hu
    simp only [List.length_cons]
    refine ⟨by omega, fun hmem hb => ?_⟩
    have := hlt ((List.mem_cons.mp hmem).resolve_left (Ne.symm hq)) (fun h => hb (List.mem_cons_of_mem c h))
    omega
  | case7 => cases h
  | case8 c s hq hc ih =>
    obtain ⟨u, hu, rfl⟩ := Option.map_eq_some_iff.mp h
    obtain ⟨hle, hlt⟩ := ih hu
    simp only [List.length_cons]
    refine ⟨by omega, fun hmem hb => ?_⟩
    have := hlt ((List.mem_cons.mp hmem).resolve_left (Ne.symm hq)) (fun h => hb (List.mem_cons_of_mem c h))
    omega
  | case9 => cases h

end Kept

end Agl.Sh
