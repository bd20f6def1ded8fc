/-
What is printed for a manifest, and the assignments.

The loop of `out_object` takes lines in pairs (`pairUp`). A value that goes
through `echo` and `read` as one line (`Passed`) comes behind its key: as it
is, if it is carried, else without the blanks and backslashes that are lost
on the way (`squeezed`). So assignments of clean values come out.
-/
import Agl.Lib.ShellPath
import Agl.Setup.Manifest

namespace Agl.Setup

open Sh
open Json (commaJoin memberText)

/-! ## Printing -/

theorem out_eq {x : Text} (h : isEchoOption x = false) : out [x] = x := echo_n h

theorem digits_cons_none {c : Char} {s : Text} (h : Json.isDigit c = false) : Json.digits (c :: s) = none :=
  if_pos (List.takeWhile_cons_of_neg (by simp [h]))

/-- What a text starts with that is not taken for a string. -/
theorem isRaw_head {c : Char} {s : Text} (h : isRaw (c :: s) = true) :
    c ∈ ['t', 'f', 'n', '+', '-', '\x7b', '['] ∨ Json.isDigit c = true := by
  simp only [isRaw, Bool.or_eq_true] at h
  rcases h with ((h | h) | h) | h
  · simp only [isLiteral, Bool.or_eq_true, decide_eq_true_eq] at h
    rcases h with (h | h) | h <;> cases h <;> decide
  · by_cases hsign : c = '+' ∨ c = '-'
    · exact .inl (by rcases hsign with rfl | rfl <;> decide)
    · refine .inr (Bool.not_eq_false _ ▸ fun hd => ?_)
      simp [isNumber, hsign, digits_cons_none hd] at h
  · simp only [isBracketed, Bool.and_eq_true, decide_eq_true_eq] at h
    exact .inl (by rw [h.1]; decide)
  · simp only [isBracketed, Bool.and_eq_true, decide_eq_true_eq] at h
    exact .inl (by rw [h.1]; decide)

theorem isRaw_opens {c : Char} {s : Text} (h : isRaw (c :: s) = true) :
    Json.isSpace c = false ∧ c ≠ ']' ∧ c ≠ '"' := by
  have hall : ∀ c ∈ ['t', 'f', 'n', '+', '-', '\x7b', '['], Json.isSpace c = false ∧ c ≠ ']' ∧ c ≠ '"' := by decide
  have hdigit : ∀ c ∈ [' ', '\t', '\n', '\r', ']', '"'], Json.isDigit c = false := by decide
  rcases isRaw_head h with hc | hc
  · exact hall c hc
  · have hnot (d : Char) (hd : d ∈ [' ', '\t', '\n', '\r', ']', '"']) : c ≠ d := by
      rintro rfl
      rw [hdigit c hd] at hc
      cases hc
    refine ⟨?_, hnot ']' (by decide), hnot '"' (by decide)⟩
    simp [Json.isSpace, hnot ' ' (by decide), hnot '\t' (by decide), hnot '\n' (by decide), hnot '\r' (by decide)]

/-- Behind a minus sign there is a digit. -/
theorem isRaw_minus {d : Char} {s : Text} (h : isRaw ('-' :: d :: s) = true) : Json.isDigit d = true := by
  have hnumber : isNumber ('-' :: d :: s) = true := by simpa [isRaw, isLiteral, isBracketed] using h
  refine Bool.not_eq_false _ ▸ fun hd => ?_
  simp [isNumber, digits_cons_none hd] at hnumber

theorem isEchoOption_of_isRaw {x : Text} (h : isRaw x = true) : isEchoOption x = false := by
  cases x with
  | nil => rfl
  | cons c s =>
    by_cases hc : c = '-'
    · subst hc
      cases s with
      | nil => rfl
      | cons d s =>
        refine isEchoOption_of_mem (List.mem_cons_of_mem _ List.mem_cons_self) ?_
        rw [← Bool.not_eq_true, List.contains_iff_mem]
        intro hmem
        have hall : ∀ c ∈ ['-', 'n', 'e', 'E'], Json.isDigit c = false := by decide
        exact absurd (isRaw_minus h) (by rw [hall d hmem]; decide)
    · exact isEchoOption_of_head hc

/-! ## Texts that are not taken for strings -/

theorem digits_eq {s r : Text} (h : Json.digits s = some r) : s = s.takeWhile Json.isDigit ++ r := by
  unfold Json.digits at h
  split at h
  · cases h
  · cases h
    exact List.takeWhile_append_dropWhile.symm

/-- Digits, then maybe a fraction. -/
theorem decimal_chars {s : Text} (h : (match (Json.digits s).bind Json.fracPart with
    | some rest => rest.isEmpty
    | none => false) = true) : ∀ c ∈ s, Json.isDigit c = true ∨ c = '.' := by
  have htake (s : Text) : ∀ c ∈ s.takeWhile Json.isDigit, Json.isDigit c = true ∨ c = '.' := fun c hc =>
    .inl (List.mem_takeWhile_imp hc)
  cases hint : Json.digits s with
  | none =>
    rw [hint] at h
    cases h
  | some r =>
    rw [hint, Option.bind_some] at h
    rw [digits_eq hint]
    refine List.forall_mem_append.mpr ⟨htake s, ?_⟩
    unfold Json.fracPart at h
    split at h
    · next rest hfrac =>
      rw [List.isEmpty_iff] at h
      subst h
      split at hfrac
      · next s' =>
        rw [digits_eq hfrac, List.append_nil]
        exact List.forall_mem_cons.mpr ⟨.inr rfl, htake s'⟩
      · cases hfrac
        exact fun c hc => by cases hc
    · cases h

theorem isNumber_chars {x : Text} (h : isNumber x = true) :
    ∀ c ∈ x, Json.isDigit c = true ∨ c ∈ ['+', '-', '.'] := by
  have hdecimal {s : Text} (hs : ∀ c ∈ s, Json.isDigit c = true ∨ c = '.') :
      ∀ c ∈ s, Json.isDigit c = true ∨ c ∈ ['+', '-', '.'] := fun c hc => (hs c hc).imp_right (by rintro rfl; decide)
  have h := decimal_chars h
  cases x with
  | nil => exact fun c hc => by cases hc
  | cons c s =>
    by_cases hsign : c = '+' ∨ c = '-'
    · simp only [if_pos hsign] at h
      exact List.forall_mem_cons.mpr ⟨.inr (by rcases hsign with rfl | rfl <;> decide), hdecimal h⟩
    · simp only [if_neg hsign] at h
      exact hdecimal h

/-- Either it has no blanks, backslashes and quotes, or it stands in brackets. -/
theorem isRaw_cases {x : Text} (h : isRaw x = true) :
    (x ≠ [] ∧ ∀ c ∈ x, isBlank c = false ∧ c ≠ '\\' ∧ c ≠ '"') ∨
      ∃ o s c, x = o :: (s ++ [c]) ∧ ((o = '[' ∧ c = ']') ∨ (o = '\x7b' ∧ c = '\x7d')) := by
  have hbracket {o c : Char} (h : isBracketed o c x = true) : ∃ s, x = o :: (s ++ [c]) := by
    cases x with
    | nil => cases h
    | cons d s =>
      simp only [isBracketed, Bool.and_eq_true, decide_eq_true_eq] at h
      obtain ⟨s, rfl⟩ := List.getLast?_eq_some_iff.mp h.2
      exact ⟨s, by rw [h.1]⟩
  simp only [isRaw, Bool.or_eq_true] at h
  rcases h with ((h | h) | h) | h
  · left
    simp only [isLiteral, Bool.or_eq_true, decide_eq_true_eq] at h
    rcases h with (rfl | rfl) | rfl <;> decide
  · have hdigit : ∀ d ∈ [' ', '\t', '\n', '\\', '"'], Json.isDigit d = false := by decide
    have hsign : ∀ c ∈ ['+', '-', '.'], isBlank c = false ∧ c ≠ '\\' ∧ c ≠ '"' := by decide
    refine .inl ⟨fun hnil => (by subst hnil; cases h), fun c hc => ?_⟩
    rcases isNumber_chars h c hc with hd | hd
    · have hnot (d : Char) (hmem : d ∈ [' ', '\t', '\n', '\\', '"']) : c ≠ d := by
        rintro rfl
        rw [hdigit c hmem] at hd
        cases hd
      simp [isBlank, hnot ' ' (by decide), hnot '\t' (by decide), hnot '\n' (by decide), hnot '\\' (by decide),
        hnot '"' (by decide)]
    · exact hsign c hd
  · obtain ⟨s, hs⟩ := hbracket h
    exact .inr ⟨_, s, _, hs, .inr ⟨rfl, rfl⟩⟩
  · obtain ⟨s, hs⟩ := hbracket h
    exact .inr ⟨_, s, _, hs, .inl ⟨rfl, rfl⟩⟩

theorem isRaw_of_brackets {o c : Char} (hoc : (o = '[' ∧ c = ']') ∨ (o = '\x7b' ∧ c = '\x7d')) (s : Text) :
    isRaw (o :: (s ++ [c])) = true := by
  rcases hoc with ⟨rfl, rfl⟩ | ⟨rfl, rfl⟩ <;> simp [isRaw, isBracketed]

/-- Those that hold a quote end with a bracket. -/
theorem isRaw_quote {x : Text} (h : isRaw x = true) (hq : '"' ∈ x) :
    x.getLast? = some '\x7d' ∨ x.getLast? = some ']' := by
  rcases isRaw_cases h with ⟨-, hplain⟩ | ⟨o, s, c, rfl, hoc⟩
  · exact absurd rfl (hplain _ hq).2.2
  · rw [← List.cons_append, List.getLast?_concat]
    rcases hoc with ⟨-, rfl⟩ | ⟨-, rfl⟩
    · exact .inr rfl
    · exact .inl rfl

theorem isRaw_getLast? {x : Text} (h : isRaw x = true) : x.getLast? ≠ some '\\' := by
  rcases isRaw_cases h with ⟨-, hplain⟩ | ⟨o, s, c, rfl, hoc⟩
  · exact fun hlast => (hplain _ (List.mem_of_getLast? hlast)).2.1 rfl
  · rw [← List.cons_append, List.getLast?_concat]
    rcases hoc with ⟨-, rfl⟩ | ⟨-, rfl⟩ <;> decide

theorem outValue_raw {x : Text} (h : isRaw x = true) : outValue x = x := by
  rw [outValue, if_pos h, out_eq (isEchoOption_of_isRaw h)]

theorem not_mem_escapeQuotes {x : Text} (h : '\n' ∉ x) : '\n' ∉ escapeQuotes x := by
  intro hmem
  obtain ⟨c, hc, hcn⟩ := List.mem_flatMap.mp hmem
  split at hcn
  · simp at hcn
  · rw [List.mem_singleton.mp hcn] at h
    exact h hc

theorem outValue_string {x : Text} (h : isRaw x = false) (hn : '\n' ∉ x) :
    outValue x = '"' :: (escapeQuotes x ++ ['"']) := by
  rw [outValue, if_neg (by simp [h]), capture_line (not_mem_escapeQuotes hn),
    out_eq (isEchoOption_of_mem List.mem_cons_self rfl)]

/-! ## out_object -/

/-- The lines in pairs; empty ones are no keys. -/
def pairUp : List Text → List (Text × Text)
  | [] => []
  | [_] => []
  | k :: x :: ls => if k = [] then pairUp (x :: ls) else (k, x) :: pairUp ls

theorem mem_pairUp {ls : List Text} {p : Text × Text} (h : p ∈ pairUp ls) : p.1 ∈ ls ∧ p.2 ∈ ls := by
  fun_induction pairUp ls with
  | case1 => cases h
  | case2 => cases h
  | case3 x ls ih => exact (ih h).imp (List.mem_cons_of_mem _) (List.mem_cons_of_mem _)
  | case4 k x ls _ ih =>
    rcases List.mem_cons.mp h with rfl | h
    · exact ⟨List.mem_cons_self, List.mem_cons_of_mem _ List.mem_cons_self⟩
    · exact (ih h).imp (fun h => List.mem_cons_of_mem _ (List.mem_cons_of_mem _ h))
        (fun h => List.mem_cons_of_mem _ (List.mem_cons_of_mem _ h))

def bashLine (p : Text × Text) : Text := p.1 ++ '=' :: outValue p.2

theorem objectStep_key (format : Format) (sep printed k : Text) :
    objectStep format ⟨[], sep, printed⟩ k = ⟨k, sep, printed⟩ := if_pos rfl

theorem objectStep_bash {k : Text} (hk : k ≠ []) (sep printed x : Text) :
    objectStep .bash ⟨k, sep, printed⟩ x = ⟨[], ['\n'], printed ++ (sep ++ bashLine (k, x))⟩ := by
  have hkey : isEchoOption (sep ++ (k ++ ['='])) = false := isEchoOption_of_mem (c := '=') (by simp) rfl
  unfold objectStep
  simp [if_neg hk, out_eq hkey, bashLine]

theorem objectStep_json {k : Text} (hk : k ≠ []) (sep printed x : Text) :
    objectStep .json ⟨k, sep, printed⟩ x = ⟨[], [','], printed ++ (sep ++ memberText k (outValue x))⟩ := by
  have hkey : isEchoOption (sep ++ '"' :: (k ++ ['"', ':'])) = false := isEchoOption_of_mem (c := '"') (by simp) rfl
  unfold objectStep
  simp [if_neg hk, out_eq hkey, memberText]

theorem foldl_bash (ls : List Text) {sep : Text} (hsep : isEchoOption sep = false) (printed : Text) :
    (ls.foldl (objectStep .bash) ⟨[], sep, printed⟩).printed ++
      out [(ls.foldl (objectStep .bash) ⟨[], sep, printed⟩).sep] =
      printed ++ (sep ++ unlines ((pairUp ls).map bashLine)) := by
  fun_induction pairUp ls generalizing sep printed with
  | case1 => simp [out_eq hsep, unlines]
  | case2 k => simp [objectStep, out_eq hsep, unlines]
  | case3 x ls ih =>
    rw [List.foldl_cons]
    exact ih hsep printed
  | case4 k x ls hk ih =>
    rw [List.foldl_cons, List.foldl_cons, objectStep_key, objectStep_bash hk, ih rfl]
    simp [unlines]

theorem outObject_bash (input : Text) :
    outObject .bash input = unlines ((pairUp (readLines input)).map bashLine) :=
  foldl_bash (readLines input) rfl []

/-- The separator is in front of the first, and then it is a comma. -/
def separated (sep : Text) : List Text → Text
  | [] => []
  | s :: ss => sep ++ (s ++ separated [','] ss)

theorem separated_cons (sep s : Text) (ss : List Text) : separated sep (s :: ss) = sep ++ commaJoin (s :: ss) := by
  induction ss generalizing sep s with
  | nil => simp [separated, commaJoin, List.intercalate]
  | cons u ss ih => rw [separated, ih, Json.commaJoin_cons s (List.cons_ne_nil u ss), List.singleton_append]

theorem separated_nil (ss : List Text) : separated [] ss = commaJoin ss := by
  cases ss with
  | nil => rfl
  | cons s ss => exact separated_cons [] s ss

theorem foldl_json (ls : List Text) (sep printed : Text) :
    (ls.foldl (objectStep .json) ⟨[], sep, printed⟩).printed =
      printed ++ separated sep ((pairUp ls).map fun p => memberText p.1 (outValue p.2)) := by
  fun_induction pairUp ls generalizing sep printed with
  | case1 => simp [separated]
  | case2 k => simp [objectStep, separated]
  | case3 x ls ih =>
    rw [List.foldl_cons]
    exact ih sep printed
  | case4 k x ls hk ih =>
    rw [List.foldl_cons, List.foldl_cons, objectStep_key, objectStep_json hk, ih]
    simp [separated]

theorem outObject_json (input : Text) :
    outObject .json input =
      '\x7b' :: (commaJoin ((pairUp (readLines input)).map fun p => memberText p.1 (outValue p.2)) ++ ['\x7d']) := by
  rw [outObject, foldl_json, separated_nil]
  rfl

namespace Manifest

variable {m : Manifest}

/-! ## Lines -/

/-- It goes through `echo` and `read` as one line. -/
structure Passed (x : Text) : Prop where
  noOption : ∀ w ∈ (splitWords x).head?, isEchoOption w = false
  ends : (joinWords (splitWords x)).getLast? ≠ some '\\'

/-- It is the next line that is read. -/
theorem Passed.readLines {x : Text} (h : Passed x) (s : Text) :
    Sh.readLines (Sh.echo (splitWords x) ++ s) = squeezed x :: Sh.readLines s := by
  have hwords : ∀ w ∈ splitWords x, IsWord w := fun w hw => isWord_of_mem hw
  have hn : '\n' ∉ joinWords (splitWords x) := not_mem_joinWords (by decide) fun w hw => (hwords w hw).not_mem rfl
  rw [echo_of_first h.noOption, List.append_assoc, List.singleton_append,
    readLines_unslash (tight_joinWords hwords) hn h.ends]
  rfl

theorem Passed.read {x y t : Text} {ls : List Text} (h : Passed x)
    (hread : Sh.readLines (Sh.echo (splitWords x) ++ t) = y :: ls) : y = squeezed x ∧ ls = Sh.readLines t := by
  rw [h.readLines] at hread
  obtain ⟨hx, hls⟩ := List.cons.inj hread
  exact ⟨hx.symm, hls.symm⟩

theorem squeezed_of_isWord {x : Text} (h : IsWord x) : squeezed x = unslash x := by
  rw [squeezed, splitWords_of_isWord h, joinWords_singleton]

/-- In brackets it stays in them. -/
theorem passed_of_brackets {o c : Char} (hoc : (o = '[' ∧ c = ']') ∨ (o = '\x7b' ∧ c = '\x7d')) (s : Text) :
    Passed (o :: (s ++ [c])) ∧ ∃ t, squeezed (o :: (s ++ [c])) = o :: (t ++ [c]) := by
  have hchars : (isBlank o = false ∧ o ≠ '-' ∧ o ≠ '\\') ∧ isBlank c = false ∧ c ≠ '\\' ∧ o ≠ c := by
    rcases hoc with ⟨rfl, rfl⟩ | ⟨rfl, rfl⟩ <;> decide
  obtain ⟨⟨ho, hminus, hslash⟩, hc, hclose, hne⟩ := hchars
  obtain ⟨w, ws, hw⟩ := splitWords_first ho (s ++ [c])
  obtain ⟨l, hl⟩ := joinWords_last hc (o :: s)
  rw [List.cons_append] at hl
  -- the text starts with the one bracket, and ends with the other
  obtain ⟨b, rfl⟩ : ∃ b, l = o :: b := by
    have hhead : (joinWords (splitWords (o :: (s ++ [c])))).head? = some o := by
      rw [hw]
      cases ws <;> simp [joinWords, List.intercalate]
    rw [hl] at hhead
    cases l with
    | nil => exact absurd (Option.some.inj hhead).symm hne
    | cons d b => exact ⟨b, by rw [Option.some.inj hhead]⟩
  have hlast : (o :: b ++ [c]).getLast? ≠ some '\\' := by
    rw [List.getLast?_concat]
    exact fun h => hclose (Option.some.inj h)
  refine ⟨⟨fun v hv => ?_, hl ▸ hlast⟩, ?_⟩
  · rw [hw] at hv
    cases hv
    exact isEchoOption_of_head hminus
  · have hend : (unslash (b ++ [c])).getLast? = some c :=
      (unslash_getLast? (getLast?_tail_ne hlast)).trans List.getLast?_concat
    obtain ⟨t, ht⟩ := List.getLast?_eq_some_iff.mp hend
    exact ⟨t, by rw [squeezed, hl, List.cons_append, unslash_cons hslash, ht]⟩

/-- What is not taken for a string is not taken for one when it is read. -/
theorem passed_of_isRaw {x : Text} (h : isRaw x = true) : Passed x ∧ isRaw (squeezed x) = true := by
  rcases isRaw_cases h with ⟨hne, hplain⟩ | ⟨o, s, c, rfl, hoc⟩
  · have hb : '\\' ∉ x := fun hb => (hplain _ hb).2.1 rfl
    have hsplit := splitWords_of_isWord (show IsWord x from ⟨hne, fun c hc => (hplain c hc).1⟩)
    refine ⟨⟨fun w hw => ?_, ?_⟩, ?_⟩
    · rw [hsplit] at hw
      cases hw
      exact isEchoOption_of_isRaw h
    · rw [hsplit, joinWords_singleton]
      exact isRaw_getLast? h
    · rw [squeezed, hsplit, joinWords_singleton, unslash_of_not_mem hb]
      exact h
  · obtain ⟨hpassed, t, ht⟩ := passed_of_brackets hoc s
    exact ⟨hpassed, ht ▸ isRaw_of_brackets hoc t⟩

theorem Carried.passed {x : Text} (h : Carried x) : Passed x := by
  refine ⟨h.noOption, fun hlast => h.noBackslash ?_⟩
  rw [h.joined] at hlast
  exact List.mem_of_getLast? hlast

theorem Carried.squeezed {x : Text} (h : Carried x) : squeezed x = x := by
  rw [Manifest.squeezed, h.joined, unslash_of_not_mem h.noBackslash]

/-- The text and the line it is carried as. -/
theorem Carried.echo {x : Text} (h : Carried x) (hglob : ∀ w ∈ splitWords x, m.glob w = [w]) :
    Sh.echo (m.expand x) = x ++ ['\n'] := by
  rw [Manifest.expand, Sh.expand_eq hglob, echo_of_first h.noOption, h.joined]

theorem Carried.noNewline {x : Text} (h : Carried x) : '\n' ∉ x := by
  rw [← h.joined]
  exact not_mem_joinWords (by decide) fun w hw => (isWord_of_mem hw).not_mem rfl

theorem Carried.readLines {x : Text} (h : Carried x) (s : Text) : Sh.readLines (x ++ '\n' :: s) = x :: Sh.readLines s :=
  readLines_line (h.joined ▸ tight_joinWords fun _ hw => isWord_of_mem hw) h.noBackslash h.noNewline s

theorem Carried.read {x y t : Text} {ls : List Text} (h : Carried x)
    (hread : Sh.readLines (Sh.echo (splitWords x) ++ t) = y :: ls) : y = x ∧ ls = Sh.readLines t := by
  have hline := h.passed.read hread
  rwa [h.squeezed] at hline

theorem carried_of_isWord {x : Text} (h : IsWord x) (hopt : isEchoOption x = false) (hb : '\\' ∉ x) : Carried x := by
  have hsplit := splitWords_of_isWord h
  refine ⟨by rw [hsplit, joinWords_singleton], fun w hw => ?_, hb⟩
  rw [hsplit] at hw
  cases hw
  exact hopt

theorem carried_nil : Carried [] := ⟨rfl, fun w hw => (by cases hw), List.not_mem_nil⟩

theorem carried_of_isKey {x : Text} (h : IsKey x) : Carried x :=
  carried_of_isWord h.isWord h.notOption (h.not_mem (by decide))

/-! ## Assignments -/

theorem assignWord_outValue {v : Text} (hv : Carried v) (h : m.BashText v) :
    assignWord m.login false (outValue v) = some v := by
  unfold BashText at h
  split at h
  · next hraw => rw [outValue_raw hraw, assignWord_plain h]
  · next hraw =>
    rw [outValue_string (by simpa using hraw) hv.noNewline, assignWord, Bool.not_false]
    exact assignWord_escaped h

theorem isRaw_tilde (s : Text) : isRaw ('~' :: s) = false := by
  simp [isRaw, isLiteral, isNumber, isBracketed, Json.digits, Json.isDigit]

/-- Nothing that is printed begins with a tilde. -/
theorem head_outValue {y : Text} (hn : '\n' ∉ y) : (outValue y).head? ≠ some '~' := by
  by_cases hraw : isRaw y = true
  · rw [outValue_raw hraw]
    cases y with
    | nil => simp
    | cons c s =>
      rintro ⟨⟩
      rw [isRaw_tilde] at hraw
      cases hraw
  · rw [outValue_string (by simpa using hraw) hn]
    simp

theorem assignment_bashLine {login : Text → Bool} {x y : Text} (hx : IsName x) (hn : '\n' ∉ y) :
    assignment login (bashLine (x, y)) = (assignWord login false (outValue y)).map fun v => (x, v) := by
  have heq : ∀ c ∈ x, decide (c ≠ '=') = true := fun c hc => by
    simpa using fun h : c = '=' => hx.isKey.not_mem (c := '=') (by decide) (h ▸ hc)
  have hdrop : (bashLine (x, y)).dropWhile (fun c => c ≠ '=') = '=' :: outValue y := by
    rw [bashLine, List.dropWhile_append_of_pos heq, List.dropWhile_cons_of_neg (by decide)]
  have htake : (bashLine (x, y)).takeWhile (fun c => c ≠ '=') = x := by
    rw [bashLine, List.takeWhile_append_of_pos heq, List.takeWhile_cons_of_neg (by decide), List.append_nil]
  unfold assignment
  rw [hdrop]
  dsimp only
  rw [htake, if_pos hx, assignValue_of_head (head_outValue hn)]

theorem outValue_noNewline {y : Text} (h : '\n' ∉ y) : '\n' ∉ outValue y := by
  by_cases hraw : isRaw y = true
  · rwa [outValue_raw hraw]
  · rw [outValue_string (by simpa using hraw) h]
    simp [not_mem_escapeQuotes h]

theorem glob_of_isKey {x : Text} (h : IsKey x) : ∀ w ∈ splitWords x, m.glob w = [w] := by
  intro w hw
  rw [splitWords_of_isWord h.isWord, List.mem_singleton] at hw
  subst hw
  refine m.glob_plain w fun c hc hmem => ?_
  have hall : ∀ c ∈ ['*', '?', '[', '\\'], c.isAlphanum = false ∧ c ≠ '_' := by decide
  exact h.not_mem (hall c hmem) hc

theorem echo_expand_key {x : Text} (h : IsKey x) : Sh.echo (m.expand x) = x ++ ['\n'] :=
  (carried_of_isKey h).echo (glob_of_isKey h)

/-- What the last loop prints, where nothing matches. -/
def pairLines (ps : List (Text × Text)) : Text := ps.flatMap fun p => (p.1 ++ ['\n']) ++ Sh.echo (splitWords p.2)

theorem pairLines_cons (p : Text × Text) (ps : List (Text × Text)) :
    pairLines (p :: ps) = p.1 ++ '\n' :: (Sh.echo (splitWords p.2) ++ pairLines ps) := by
  simp [pairLines]

/-- What the last loop prints. -/
theorem lines_eq (key value : Text → Text) (hkey : ∀ x ∈ m.names, IsKey (key x))
    (hglob : ∀ x ∈ m.names, ∀ w ∈ splitWords (value x), m.glob w = [w]) :
    m.names.flatMap (fun x => Sh.echo (m.expand (key x)) ++ Sh.echo (m.expand (value x))) =
      pairLines (m.names.map fun x => (key x, value x)) := by
  rw [pairLines, List.flatMap_map]
  refine List.flatMap_congr fun x hx => ?_
  rw [echo_expand_key (hkey x hx), expand, Sh.expand_eq (hglob x hx)]

/-- Keys that are carried come out in pairs with what is read of the values. -/
theorem pairUp_passed {ps : List (Text × Text)} (h : ∀ p ∈ ps, (p.1 ≠ [] ∧ Carried p.1) ∧ Passed p.2) :
    pairUp (readLines (pairLines ps)) = ps.map fun p => (p.1, squeezed p.2) := by
  induction ps with
  | nil => rfl
  | cons p ps ih =>
    obtain ⟨⟨hne, hk⟩, hx⟩ := h p List.mem_cons_self
    rw [pairLines_cons, hk.readLines, hx.readLines, pairUp, if_neg hne, ih fun q hq => h q (List.mem_cons_of_mem p hq),
      List.map_cons]

/-- What is read of the file of assignments: a line for each pair. -/
theorem source_getManifest (m : Manifest) :
    source m.login (m.getManifest .bash) =
      (pairUp (readLines (m.names.flatMap fun x =>
        Sh.echo (m.expand x) ++ Sh.echo (m.expand (m.value x))))).mapM fun p => assignment m.login (bashLine p) := by
  have hlines : ∀ l ∈ (pairUp (readLines (m.names.flatMap fun x =>
      Sh.echo (m.expand x) ++ Sh.echo (m.expand (m.value x))))).map bashLine, '\n' ∉ l := by
    intro l hl
    obtain ⟨p, hp, rfl⟩ := List.mem_map.mp hl
    obtain ⟨hk, hx⟩ := mem_pairUp hp
    simp only [bashLine, List.mem_append, List.mem_cons, not_or]
    exact ⟨readLines_noNewline hk, by decide, outValue_noNewline (readLines_noNewline hx)⟩
  rw [source, getManifest, outObject_bash]
  exact (congrArg (List.mapM (assignment m.login)) (lines_unlines hlines)).trans List.mapM_map

theorem bash_correct (hin : m.Inert) (h : m.BashClean) : m.BashCorrect (m.getManifest .bash) := by
  have hkey (x : Text) (hx : x ∈ m.names) : IsKey x := (m.isName x hx).isKey
  have hps : ∀ p ∈ m.names.map fun x => (x, m.value x), (p.1 ≠ [] ∧ Carried p.1) ∧ Passed p.2 := by
    intro p hp
    obtain ⟨x, hx, rfl⟩ := List.mem_map.mp hp
    exact ⟨⟨(m.isName x hx).1, carried_of_isKey (hkey x hx)⟩, (h x hx).1.passed⟩
  rw [BashCorrect, source_getManifest, lines_eq (fun x => x) m.value hkey hin.value, pairUp_passed hps, List.map_map,
    List.mapM_map]
  have hall : ∀ x ∈ m.names, assignment m.login (bashLine (x, squeezed (m.value x))) = some (x, m.value x) := by
    intro x hx
    rw [(h x hx).1.squeezed, assignment_bashLine (m.isName x hx) (h x hx).1.noNewline,
      assignWord_outValue (h x hx).1 (h x hx).2]
    rfl
  revert hall
  generalize m.names = names
  intro hall
  induction names with
  | nil => rfl
  | cons x names ih =>
    rw [List.mapM_cons]
    dsimp only [Function.comp_apply]
    rw [hall x List.mem_cons_self, ih fun y hy => hall y (List.mem_cons_of_mem x hy)]
    rfl

end Manifest

end Agl.Setup
