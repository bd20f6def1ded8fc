/-
Strings, features and layers that come out in the JSON manifest are clean.

The marks of the strings (quotes and backslashes) come from the backslashes of
the text; reading a line takes half of the backslashes away, and only the
quotes and backslashes of the values put any there. So where a string comes
out there were none but the quotes that were escaped, once.
-/
import Mathlib.Data.List.Flatten
import Agl.Lib.JsonRead
import Agl.Setup.ManifestClean
import Agl.Setup.ManifestExact

namespace Agl.Setup

open Sh
open Json (commaJoin memberText)

/-! ## What is printed -/

theorem backslashes_escapeQuotes (y : Text) : backslashes (escapeQuotes y) = marks y := by
  induction y with
  | nil => rfl
  | cons c y ih =>
    rw [escapeQuotes, List.flatMap_cons, ← escapeQuotes, Json.backslashes_append, ih, marks_cons]
    by_cases hq : c = '"'
    · subst hq
      rfl
    · rw [if_neg hq]
      by_cases hb : c = '\\'
      · subst hb
        rfl
      · rw [if_neg (not_or.mpr ⟨hb, hq⟩), backslashes_eq_zero.mpr (by simpa using Ne.symm hb)]

theorem backslashes_outValue {y : Text} (hn : '\n' ∉ y) : backslashes (outValue y) ≤ marks y := by
  by_cases hraw : isRaw y = true
  · rw [outValue_raw hraw]
    exact backslashes_le_marks y
  · rw [outValue_string (by simpa using hraw) hn, backslashes_cons, Json.backslashes_append, backslashes_escapeQuotes]
    exact (Nat.zero_add _).le

/-- What is not printed in quotes is no string. -/
theorem raw_ne_str {y r w rest : Text} {n : Nat} (h : isRaw y = true) :
    Json.value n (y ++ r) ≠ some (.str w, rest) := by
  intro hvalue
  cases y with
  | nil => cases h
  | cons c y =>
    obtain ⟨hspace, -, hquote⟩ := isRaw_opens h
    obtain ⟨s', hskip⟩ := Json.value_opening hvalue rfl
    rw [List.cons_append, Json.skip_cons hspace] at hskip
    exact hquote (List.cons.inj hskip).1

/-- What is decoded to an array or an object is in its brackets. -/
theorem bracketed_of_value {y r rest : Text} {n : Nat} {v : Json.Value} {o c : Char} (hn : '\n' ∉ y)
    (hoc : (o = '[' ∧ c = ']') ∨ (o = '\x7b' ∧ c = '\x7d')) (hv : v.opening = some o)
    (h : Json.value n (outValue y ++ r) = some (v, rest)) : ∃ z, y = o :: z ∧ z.getLast? = some c := by
  obtain ⟨s', hskip⟩ := Json.value_opening h hv
  by_cases hraw : isRaw y = true
  · rw [outValue_raw hraw] at hskip
    cases y with
    | nil => cases hraw
    | cons d z =>
      rw [List.cons_append, Json.skip_cons (isRaw_opens hraw).1] at hskip
      obtain ⟨rfl, -⟩ := List.cons.inj hskip
      refine ⟨z, rfl, ?_⟩
      rcases hoc with ⟨rfl, rfl⟩ | ⟨rfl, rfl⟩
      · have hnumber : isNumber ('[' :: z) = false := by simp [isNumber, digits_cons_none (c := '[') (by decide)]
        simpa [isRaw, isLiteral, isBracketed, hnumber] using hraw
      · have hnumber : isNumber ('\x7b' :: z) = false := by
          simp [isNumber, digits_cons_none (c := '\x7b') (by decide)]
        simpa [isRaw, isLiteral, isBracketed, hnumber] using hraw
  · rw [outValue_string (by simpa using hraw) hn, List.cons_append, Json.skip_cons rfl] at hskip
    rcases hoc with ⟨rfl, -⟩ | ⟨rfl, -⟩ <;> cases hskip

namespace Manifest

variable {m : Manifest}

/-! ## A value -/

/-- Reading takes a backslash for every one that it leaves. -/
theorem marks_read {y t e : Text} {ls : List Text} (ht : NameFollows t) (h : readLines (e ++ t) = y :: ls) :
    backslashes y + marks y ≤ marks e := by
  have hread := weight_readFrom (f := fun c => if c = '\\' ∨ c = '"' then 1 else 0)
    (g := fun c => (if c = '\\' then 1 else 0) + if c = '\\' ∨ c = '"' then 1 else 0) (fun c => ?_) (fun c hc => ?_)
    (ht.followedBy fun c hc => ?_) h
  · rw [weight_add, List.map_nil, weight_nil, Nat.zero_add] at hread
    exact hread
  · split <;> simp
  · simp [hc]
  · have hall : ∀ d ∈ ['\\', '"'], ¬ (d.isAlphanum = true ∨ d = '_') := by decide
    have hb : c ≠ '\\' := fun h => hall '\\' (by decide) (h ▸ hc)
    have hq : c ≠ '"' := fun h => hall '"' (by decide) (h ▸ hc)
    simp [hb, hq]

theorem plain_clean {n : Nat} {v y t r rest : Text} {ls : List Text} (ht : NameFollows t)
    (hread : readLines (Sh.echo (splitWords v) ++ t) = y :: ls) (hr : Json.Follows r)
    (h : Json.value n (outValue y ++ r) = some (.str v, rest)) : Carried v ∧ Json.Printable v := by
  have hyn : '\n' ∉ y := readLines_noNewline (hread ▸ List.mem_cons_self)
  by_cases hraw : isRaw y = true
  · rw [outValue_raw hraw] at h
    exact absurd h (raw_ne_str hraw)
  · rw [outValue_string (by simpa using hraw) hyn] at h
    obtain ⟨s', hskip, hstring⟩ := Json.value_str h
    obtain rfl : s' = escapeQuotes y ++ ['"'] ++ r := (List.cons.inj hskip).2.symm
    have hmarks : marks v ≤ marks y := by
      have hle : backslashes (escapeQuotes y ++ ['"']) = marks y := by
        rw [Json.backslashes_append, backslashes_escapeQuotes]
        rfl
      rcases Json.string_follows hr hstring with ⟨a, s', hs, -, hmarks⟩ | ⟨hmarks, -⟩
      · rw [hs, Json.backslashes_append] at hle
        omega
      · omega
    have hecho := marks_echo v
    have hout := marks_read ht hread
    have hyb : '\\' ∉ y := backslashes_eq_zero.mp (by omega)
    rw [List.append_assoc, List.singleton_append] at hstring
    obtain ⟨⟨rfl, hprintable⟩, -⟩ := Json.string_exact hyb hstring
    rcases read_cases ht hread hyb with ⟨hcarried, -⟩ | ⟨hne, -⟩
    · exact ⟨hcarried, hprintable⟩
    · exact absurd rfl hne

/-! ## Pieces -/

/-- The lines of a piece without blanks and backslashes. -/
theorem readLines_echo {x : Text} (hblank : ∀ c ∈ x, isBlank c = false) (hb : '\\' ∉ x) (t : Text) :
    readLines (Sh.echo (splitWords x) ++ t) = echoLines x ++ readLines t := by
  by_cases hx : x = []
  · subst hx
    rfl
  · have hword : IsWord x := ⟨hx, hblank⟩
    rw [splitWords_of_isWord hword, echoLines]
    cases hopt : isEchoOption x with
    | false =>
      rw [echo_of_word hopt, List.append_assoc, List.singleton_append,
        readLines_line (tight_of_isWord hword) hb (hword.not_mem rfl)]
      rfl
    | true =>
      rcases echo_of_option hopt with hecho | hecho
      · rw [hecho]
        rfl
      · rw [hecho]
        rfl

theorem readLines_flatMap_echo {α : Type} {as : List α} {pieces : α → List Text}
    (h : ∀ a ∈ as, ∀ x ∈ pieces a, (∀ c ∈ x, isBlank c = false) ∧ '\\' ∉ x) :
    readLines (as.flatMap fun a => (pieces a).flatMap fun x => Sh.echo (splitWords x)) =
      as.flatMap fun a => (pieces a).flatMap echoLines := by
  have hpieces (xs : List Text) (hxs : ∀ x ∈ xs, (∀ c ∈ x, isBlank c = false) ∧ '\\' ∉ x) (t : Text) :
      readLines ((xs.flatMap fun x => Sh.echo (splitWords x)) ++ t) = xs.flatMap echoLines ++ readLines t := by
    induction xs with
    | nil => rfl
    | cons x xs ih =>
      obtain ⟨hblank, hb⟩ := hxs x List.mem_cons_self
      rw [List.flatMap_cons, List.flatMap_cons, List.append_assoc, readLines_echo hblank hb,
        ih fun y hy => hxs y (List.mem_cons_of_mem x hy), List.append_assoc]
  induction as with
  | nil => rfl
  | cons a as ih =>
    rw [List.flatMap_cons, List.flatMap_cons, hpieces _ (h a List.mem_cons_self),
      ih fun b hb => h b (List.mem_cons_of_mem a hb)]

theorem length_echoLines (x : Text) : (echoLines x).length ≤ 1 := by
  unfold echoLines
  split
  · next hopt =>
    rcases echo_of_option hopt with hecho | hecho <;> rw [hecho] <;> decide
  · exact le_rfl

/-- The piece is its line, if that is one. -/
theorem echoLines_eq {x l : Text} (h : echoLines x = [l]) (hl : x ≠ [] → l ≠ []) : l = x ∧ isEchoOption x = false := by
  rcases mem_echoLines (h ▸ List.mem_singleton_self l) with rfl | hx
  · by_cases hx : x = []
    · subst hx
      exact ⟨rfl, rfl⟩
    · exact absurd rfl (hl hx)
  · exact hx

theorem length_flatMap_le {α β : Type} {as : List α} {f g : α → List β} (h : ∀ a ∈ as, (f a).length ≤ (g a).length) :
    (as.flatMap f).length ≤ (as.flatMap g).length := by
  induction as with
  | nil => exact le_rfl
  | cons a as ih =>
    have ha := h a List.mem_cons_self
    have ih := ih fun b hb => h b (List.mem_cons_of_mem a hb)
    rw [List.flatMap_cons, List.flatMap_cons, List.length_append, List.length_append]
    omega

/-- Equal parts of equal texts. -/
theorem flatMap_parts {α β : Type} {as : List α} {f g : α → List β} (hlen : ∀ a ∈ as, (f a).length ≤ (g a).length)
    (h : as.flatMap f = as.flatMap g) : ∀ a ∈ as, f a = g a := by
  induction as with
  | nil => exact fun a ha => by cases ha
  | cons a as ih =>
    have hrest : ∀ b ∈ as, (f b).length ≤ (g b).length := fun b hb => hlen b (List.mem_cons_of_mem a hb)
    rw [List.flatMap_cons, List.flatMap_cons] at h
    have hsum := congrArg List.length h
    have ha := hlen a List.mem_cons_self
    have has := length_flatMap_le hrest
    rw [List.length_append, List.length_append] at hsum
    obtain ⟨hfg, has'⟩ := List.append_inj h (by omega)
    exact List.forall_mem_cons.mpr ⟨hfg, ih hrest has'⟩

/-! ## The text behind a value -/

def memberOf (p : Text × Text) : Text := memberText p.1 (outValue p.2)

/-- What is printed behind a value. -/
def following : List (Text × Text) → Text
  | [] => ['\x7d']
  | p :: ps => ',' :: (commaJoin ((p :: ps).map memberOf) ++ ['\x7d'])

theorem commaJoin_memberOf (p : Text × Text) (ps : List (Text × Text)) :
    commaJoin ((p :: ps).map memberOf) ++ ['\x7d'] = memberOf p ++ following ps := by
  cases ps with
  | nil => simp [commaJoin, List.intercalate, following]
  | cons q qs => rw [List.map_cons, Json.commaJoin_cons _ (by simp), List.append_assoc, List.cons_append, following]

theorem memberOf_append (p : Text × Text) (r : Text) :
    memberOf p ++ r = '"' :: (p.1 ++ '"' :: ':' :: (outValue p.2 ++ r)) := by
  simp [memberOf, memberText]

theorem following_next (p : Text × Text) (ps : List (Text × Text)) :
    ∃ u, following (p :: ps) = ',' :: '"' :: (p.1 ++ '"' :: u) :=
  ⟨_, by rw [following, commaJoin_memberOf, memberOf_append]⟩

theorem follows_following (ps : List (Text × Text)) : Json.Follows (following ps) := by
  cases ps with
  | nil => exact .closed
  | cons p ps =>
    obtain ⟨u, hu⟩ := following_next p ps
    rw [hu]
    exact .next _

/-- The next key starts with a letter, a digit or an underscore. -/
theorem noSeparator_following {qs : List (Text × Text)} (h : ∀ q ∈ qs, IsKey q.1) {u : Text}
    (hu : following (pairUp (readLines (pairLines qs))) = ',' :: '"' :: u) : Json.NoSeparator u := by
  cases qs with
  | nil => cases hu
  | cons q qs =>
    have hq := h q List.mem_cons_self
    rw [pairLines_cons, (carried_of_isKey hq).readLines] at hu
    cases hls : readLines (Sh.echo (splitWords q.2) ++ pairLines qs) with
    | nil =>
      rw [hls] at hu
      cases hu
    | cons y ls =>
      rw [hls, pairUp, if_neg hq.1] at hu
      obtain ⟨v, hv⟩ := following_next (q.1, y) (pairUp ls)
      obtain rfl : u = q.1 ++ '"' :: v := (List.cons.inj (List.cons.inj (hu.symm.trans hv)).2).2
      obtain ⟨c, k, hk⟩ := List.exists_cons_of_ne_nil hq.1
      have hnot (d : Char) (hd : d.isAlphanum = false ∧ d ≠ '_') : c ≠ d := by
        rintro rfl
        exact hq.not_mem hd (hk ▸ List.mem_cons_self)
      refine ⟨c, k ++ '"' :: v, by rw [hk, List.cons_append], ?_, ?_⟩
      · simp [Json.isSpace, hnot ' ' (by decide), hnot '\t' (by decide), hnot '\n' (by decide), hnot '\r' (by decide)]
      · simp [hnot ',' (by decide), hnot ':' (by decide), hnot ']' (by decide), hnot '\x7d' (by decide)]

/-! ## Features -/

theorem passes_outValue {l : Text} (hpass : ∀ c ∈ l, Passes c) (hquote : isRaw l = false → '"' ∉ l) :
    ∀ c ∈ outValue l, Passes c := by
  intro c hc
  by_cases hraw : isRaw l = true
  · rw [outValue_raw hraw] at hc
    exact hpass c hc
  · have hstring : isRaw l = false := by simpa using hraw
    have hn : '\n' ∉ l := fun hn => by cases (hpass _ hn).1
    rw [outValue_string hstring hn, escapeQuotes_of_not_mem (hquote hstring), List.mem_cons, List.mem_append,
      List.mem_singleton] at hc
    rcases hc with rfl | hc | rfl
    · decide
    · exact hpass c hc
    · decide

/-- The text of an array passes, if its lines do and those in quotes have none. -/
theorem passes_array {ls : List Text} (h : ∀ l ∈ ls, (∀ c ∈ l, Passes c) ∧ (isRaw l = false → '"' ∉ l)) :
    ∀ c ∈ '[' :: (commaJoin (ls.map outValue) ++ [']']), Passes c := by
  intro c hc
  rw [List.mem_cons, List.mem_append, List.mem_singleton] at hc
  rcases hc with rfl | hc | rfl
  · decide
  · rcases Json.mem_commaJoin hc with rfl | ⟨s, hs, hc⟩
    · decide
    · obtain ⟨l, hl, rfl⟩ := List.mem_map.mp hs
      exact passes_outValue (h l hl).1 (h l hl).2 c hc
  · decide

/-- A string without marks. -/
theorem value_plain {n : Nat} {y r w rest : Text} (hm : marks y = 0) (hn : '\n' ∉ y)
    (h : Json.value n (outValue y ++ r) = some (.str w, rest)) :
    (w = y ∧ Json.Printable y ∧ isRaw y = false) ∧ rest = r := by
  by_cases hraw : isRaw y = true
  · rw [outValue_raw hraw] at h
    exact absurd h (raw_ne_str hraw)
  · have hstring : isRaw y = false := by simpa using hraw
    rw [outValue_string hstring hn, escapeQuotes_of_not_mem (marks_eq_zero.mp hm).2] at h
    obtain ⟨s', hskip, hs'⟩ := Json.value_str h
    obtain rfl : s' = y ++ ['"'] ++ r := (List.cons.inj hskip).2.symm
    rw [List.append_assoc, List.singleton_append] at hs'
    obtain ⟨⟨hw, hprintable⟩, hrest⟩ := Json.string_plain hm hs'
    exact ⟨⟨hw, hprintable, hstring⟩, hrest⟩

theorem marks_of_mem {ws : List Text} (h : marks ws.flatten = 0) {w : Text} (hw : w ∈ ws) : marks w = 0 := by
  rw [marks_eq_zero] at h ⊢
  exact ⟨fun hb => h.1 (List.mem_flatten_of_mem hw hb), fun hq => h.2 (List.mem_flatten_of_mem hw hq)⟩

theorem marks_flatMap_le {α : Type} {as : List α} {f g : α → Text} (h : ∀ a ∈ as, marks (f a) ≤ marks (g a)) :
    marks (as.flatMap f) ≤ marks (as.flatMap g) := by
  induction as with
  | nil => exact le_rfl
  | cons a as ih =>
    have ha := h a List.mem_cons_self
    have ih := ih fun b hb => h b (List.mem_cons_of_mem a hb)
    rw [List.flatMap_cons, List.flatMap_cons, marks_append, marks_append]
    omega

/-- What stands in brackets and is decoded to strings with as many marks as it
has backslashes at least, has none. -/
theorem marks_of_brackets {b y t z : Text} {ls : List Text} {k : Nat} {o : Char} (ht : NameFollows t)
    (hread : readLines (Sh.echo (splitWords b) ++ t) = y :: ls) (hy : y = o :: z) (hb : backslashes b ≤ k)
    (hk : k ≤ backslashes z) : k = 0 := by
  have hhalf := backslashes_read ht hread
  have hecho := backslashes_echo b
  have hz := Json.backslashes_le_cons o z
  rw [← hy] at hz
  omega

/-- The line that is read for the features, and what is known of it. -/
structure FeaturesRead (m : Manifest) (n : Nat) (qs : List (Text × Text)) (y : Text) (ls : List Text)
    (rest : Text) : Prop where
  inert : m.Inert
  mem : distFeatures ∈ m.names
  strings : ∀ x ∈ splitWords (m.value distFeatures), isRaw x = false
  keys : ∀ q ∈ qs, IsKey q.1
  read : readLines (Sh.echo (splitWords m.featuresArray) ++ pairLines qs) = y :: ls
  value : Json.value n (outValue y ++ following (pairUp ls)) =
    some (.arr ((splitWords (m.value distFeatures)).map .str), rest)

section Features

variable {n : Nat} {qs : List (Text × Text)} {ls : List Text} {y rest : Text}

theorem FeaturesRead.noMarks (h : m.FeaturesRead n qs y ls rest) :
    marks (splitWords (m.value distFeatures)).flatten = 0 := by
  have harray := featuresArray_lines h.inert h.mem
  have hread := h.read
  have hvalue := h.value
  have hyn : '\n' ∉ y := readLines_noNewline (hread ▸ List.mem_cons_self)
  have hls : ls = readLines (pairLines qs) := by
    rw [harray] at hread
    exact ((passed_of_brackets (.inl ⟨rfl, rfl⟩) _).1.read hread).2
  obtain ⟨z, rfl, hlast⟩ := bracketed_of_value hyn (.inl ⟨rfl, rfl⟩) rfl hvalue
  have hraw : isRaw ('[' :: z) = true := by simp [isRaw, isBracketed, hlast]
  generalize splitWords (m.value distFeatures) = ws at harray hvalue ⊢
  refine marks_of_brackets (nameFollows_pairLines h.keys) hread rfl ?_ ?_
  · generalize hinput : (ws.flatMap fun x => Sh.echo (splitWords x)) = input at harray
    have hjoin := Json.backslashes_commaJoin (f := outValue) (g := id) fun l (hl : l ∈ readLines input) =>
      backslashes_outValue (readLines_noNewline hl)
    have hsub : marks (readLines input).flatten ≤ marks input := weight_le_of_sublist _ (readLines_sublist _)
    have hechos : marks input ≤ marks (ws.flatMap id) := hinput ▸ marks_flatMap_le fun x _ => marks_echo x
    have hend : backslashes [']'] = 0 := rfl
    rw [List.flatMap_id] at hjoin hechos
    rw [harray, backslashes_cons, if_neg (by decide), Json.backslashes_append]
    omega
  · rw [outValue_raw hraw, List.cons_append] at hvalue
    refine Json.array_marks (follows_following _) (fun u hu => ?_) hlast hvalue
    rw [hls] at hu
    exact noSeparator_following h.keys hu

/-- Without marks the array holds the lines, so these are the features. -/
theorem FeaturesRead.lines (h : m.FeaturesRead n qs y ls rest) :
    (splitWords (m.value distFeatures)).flatMap echoLines = splitWords (m.value distFeatures) ∧
      ∀ x ∈ splitWords (m.value distFeatures), Json.Printable x := by
  have hmarks (x : Text) (hx : x ∈ splitWords (m.value distFeatures)) : marks x = 0 := marks_of_mem h.noMarks hx
  have hwords : ∀ x ∈ splitWords (m.value distFeatures), IsWord x := fun x hx => isWord_of_mem hx
  have harray := featuresArray_lines h.inert h.mem
  have hread := h.read
  have hvalue := h.value
  generalize splitWords (m.value distFeatures) = ws at hmarks hwords harray hvalue ⊢
  have hys : readLines (ws.flatMap fun x => Sh.echo (splitWords x)) = ws.flatMap echoLines := by
    have hpieces : ∀ x ∈ ws, ∀ p ∈ [x], (∀ c ∈ p, isBlank c = false) ∧ '\\' ∉ p := by
      intro x hx p hp
      rw [List.mem_singleton.mp hp]
      exact ⟨(hwords x hx).2, (marks_eq_zero.mp (hmarks x hx)).1⟩
    simpa using readLines_flatMap_echo hpieces
  rw [hys] at harray
  have hline (l : Text) (hl : l ∈ ws.flatMap echoLines) : marks l = 0 ∧ ∀ c ∈ l, isBlank c = false := by
    obtain ⟨x, hx, hlx⟩ := List.mem_flatMap.mp hl
    rcases mem_echoLines hlx with rfl | ⟨rfl, -⟩
    · exact ⟨rfl, fun c hc => by cases hc⟩
    · exact ⟨hmarks l hx, (hwords l hx).2⟩
  generalize ws.flatMap echoLines = ks at harray hline ⊢
  have hcarried : Carried m.featuresArray := by
    rw [harray]
    refine carried_of_passes (passes_array fun l hl => ?_) (by decide)
    obtain ⟨hm, hblank⟩ := hline l hl
    obtain ⟨hb, hq⟩ := marks_eq_zero.mp hm
    exact ⟨fun c hc => ⟨hblank c hc, fun h => hb (h ▸ hc)⟩, fun _ => hq⟩
  obtain rfl := (hcarried.read hread).1
  have hraw : isRaw m.featuresArray = true := by simp [harray, isRaw, isBracketed]
  rw [outValue_raw hraw, harray, List.cons_append, List.append_assoc, List.singleton_append] at hvalue
  have hopens (l : Text) (hl : l ∈ ks) : Json.Opens ']' (outValue l) :=
    opens_outValue fun hn => by cases (hline l hl).2 _ hn
  have hexact (l : Text) (hl : l ∈ ks) (n : Nat) : Json.ReadsExactly (Json.value n) .str (outValue l)
      fun w => w = l ∧ Json.Printable l ∧ isRaw l = false := by
    intro r w rest hparse
    exact value_plain (hline l hl).1 (fun hn => by cases (hline l hl).2 _ hn) hparse
  obtain ⟨hall, -⟩ := Json.array_exact hopens hexact hvalue
  have hsame : List.Forall₂ (fun l w => l = w) ks ws := hall.imp fun l w h => h.1.symm
  rw [List.forall₂_eq_eq_eq] at hsame
  subst hsame
  exact ⟨rfl, fun x hx => ((List.forall₂_same.mp hall) x hx).2.1⟩

theorem FeaturesRead.clean (h : m.FeaturesRead n qs y ls rest) :
    ∀ x ∈ splitWords (m.value distFeatures), FeatureClean x := by
  obtain ⟨hlines, hprintable⟩ := h.lines
  have hparts := flatMap_parts (f := echoLines) (g := fun x => [x]) (fun x _ => length_echoLines x)
    (hlines.trans (by simp))
  intro x hx
  obtain ⟨-, hoption⟩ := echoLines_eq (hparts x hx) id
  obtain ⟨hb, hq⟩ := marks_eq_zero.mp (marks_of_mem h.noMarks hx)
  unfold FeatureClean
  rw [if_neg (by simp [h.strings x hx])]
  exact ⟨(isWord_of_mem hx).2, hoption, hq, hprintable x hx⟩

end Features

/-! ## Layers -/

/-- The parts of a layer's item. -/
def layerParts (l : Text × Text) : List Text := [beforeColon (layerItem l), afterColon (layerItem l)]

theorem layerParts_append (l : Text × Text) :
    beforeColon (layerItem l) ++ ':' :: afterColon (layerItem l) = layerItem l := by
  have hmem : ':' ∈ layerItem l := by simp [layerItem]
  obtain ⟨d, s, hdrop⟩ := List.exists_cons_of_ne_nil (l := (layerItem l).dropWhile fun c => c ≠ ':') (by
    intro hnil
    simpa using List.dropWhile_eq_nil_iff.mp hnil ':' hmem)
  have hd : d = ':' := by
    have hhead := List.head?_dropWhile_not (fun c => decide (c ≠ ':')) (layerItem l)
    rw [hdrop] at hhead
    simpa using hhead
  subst hd
  rw [beforeColon, afterColon, if_pos hmem, hdrop, List.tail_cons, ← hdrop, List.takeWhile_append_dropWhile]

theorem marks_layerParts (l : Text × Text) : marks (layerParts l).flatten = marks (l.1 ++ l.2) := by
  have hsum := congrArg marks (layerParts_append l)
  have hitem : marks (layerItem l) = marks l.1 + marks l.2 := by
    rw [layerItem, marks_append, marks_cons, if_neg (by decide), Nat.zero_add]
  rw [marks_append, marks_cons, if_neg (by decide)] at hsum
  simp only [layerParts, List.flatten_cons, List.flatten_nil, List.append_nil, marks_append]
  omega

/-- The lines that come into pairs. -/
theorem pairUp_sublist (ls : List Text) : ((pairUp ls).flatMap fun p => [p.1, p.2]).Sublist ls := by
  fun_induction pairUp ls with
  | case1 => exact List.Sublist.refl _
  | case2 => exact List.nil_sublist _
  | case3 x ls ih => exact ih.trans (List.sublist_cons_self _ _)
  | case4 k x ls _ ih => exact (ih.cons_cons x).cons_cons k

theorem pairUp_key {ls : List Text} {p : Text × Text} (h : p ∈ pairUp ls) : p.1 ≠ [] := by
  fun_induction pairUp ls with
  | case1 => cases h
  | case2 => cases h
  | case3 x ls ih => exact ih h
  | case4 k x ls hk ih =>
    rcases List.mem_cons.mp h with rfl | h
    · exact hk
    · exact ih h

theorem layersObject_lines (hin : m.Inert) (hmem : distLayers ∈ m.names)
    (hwords : ∀ l ∈ m.layers, IsWord (layerItem l)) :
    m.layersObject = '\x7b' :: (commaJoin ((pairUp (readLines (m.layers.flatMap fun l =>
      (layerParts l).flatMap fun x => Sh.echo (splitWords x)))).map memberOf) ++ ['\x7d']) := by
  have hsplit : splitWords (m.value distLayers) = m.layers.map layerItem := by
    rw [m.value_layers, splitWords_joinWords]
    intro w hw
    obtain ⟨l, hl, rfl⟩ := List.mem_map.mp hw
    exact hwords l hl
  have hinput : (m.expand (m.value distLayers)).flatMap (fun x =>
      Sh.echo (m.expand (beforeColon x)) ++ Sh.echo (m.expand (afterColon x))) =
      m.layers.flatMap fun l => (layerParts l).flatMap fun x => Sh.echo (splitWords x) := by
    rw [expand, Sh.expand_eq (hin.value distLayers hmem), hsplit, List.flatMap_map]
    refine List.flatMap_congr fun l hl => ?_
    have hglob := hin.layer (layerItem l) (hsplit ▸ List.mem_map_of_mem hl)
    rw [expand, expand, Sh.expand_eq fun w hw => hglob w (List.mem_append_left _ hw),
      Sh.expand_eq fun w hw => hglob w (List.mem_append_right _ hw)]
    simp [layerParts]
  rw [layersObject, hinput, outObject_json, ← List.cons_append, capture_concat (by decide)]
  rfl

/-- The text of an object passes, if its keys and lines do and those in quotes have none. -/
theorem passes_object {ps : List (Text × Text)} (h : ∀ p ∈ ps, (∀ c ∈ p.1, Passes c) ∧ (∀ c ∈ p.2, Passes c) ∧
    (isRaw p.2 = false → '"' ∉ p.2)) : ∀ c ∈ '\x7b' :: (commaJoin (ps.map memberOf) ++ ['\x7d']), Passes c := by
  intro c hc
  rw [List.mem_cons, List.mem_append, List.mem_singleton] at hc
  rcases hc with rfl | hc | rfl
  · decide
  · rcases Json.mem_commaJoin hc with rfl | ⟨s, hs, hc⟩
    · decide
    · obtain ⟨p, hp, rfl⟩ := List.mem_map.mp hs
      obtain ⟨hkey, hvalue, hquote⟩ := h p hp
      simp only [memberOf, memberText, List.mem_cons, List.mem_append] at hc
      rcases hc with rfl | hc | rfl | rfl | hc
      · decide
      · exact hkey c hc
      · decide
      · decide
      · exact passes_outValue hvalue hquote c hc
  · decide

/-- The key and the value of a member. -/
theorem member_read {n : Nat} {p : Text × Text} {q : Text × Json.Value} {r rest : Text} (hk : marks p.1 = 0)
    (h : Json.member (Json.value n) (memberOf p ++ r) = some (q, rest)) :
    (q.1 = p.1 ∧ Json.Printable p.1) ∧ Json.value n (outValue p.2 ++ r) = some (q.2, rest) := by
  rw [memberOf_append, Json.member, Json.skip_cons rfl] at h
  obtain ⟨⟨k, r₁⟩, hstring, h⟩ := Option.bind_eq_some_iff.mp h
  obtain ⟨hkey, rfl⟩ := Json.string_plain hk hstring
  dsimp only at h
  rw [Json.skip_cons rfl] at h
  obtain ⟨⟨v, r₂⟩, hvalue, heq⟩ := Option.map_eq_some_iff.mp h
  cases heq
  exact ⟨hkey, hvalue⟩

/-- The line that is read for the layers, and what is known of it. -/
structure LayersRead (m : Manifest) (n : Nat) (qs : List (Text × Text)) (y : Text) (ls : List Text)
    (rest : Text) : Prop where
  inert : m.Inert
  mem : distLayers ∈ m.names
  words : ∀ l ∈ m.layers, ∀ c ∈ l.1 ++ l.2, isBlank c = false
  keys : ∀ q ∈ qs, IsKey q.1
  read : readLines (Sh.echo (splitWords m.layersObject) ++ pairLines qs) = y :: ls
  value : Json.value n (outValue y ++ following (pairUp ls)) = some (.obj (m.layers.map fun l => (l.1, .str l.2)), rest)

section Layers

variable {n : Nat} {qs : List (Text × Text)} {ls : List Text} {y rest : Text}

theorem LayersRead.isWord (h : m.LayersRead n qs y ls rest) : ∀ l ∈ m.layers, IsWord (layerItem l) := by
  intro l hl
  obtain ⟨hname, hrevision⟩ := List.forall_mem_append.mp (h.words l hl)
  refine ⟨by simp [layerItem], ?_⟩
  exact List.forall_mem_append.mpr ⟨hname, List.forall_mem_cons.mpr ⟨rfl, hrevision⟩⟩

theorem LayersRead.noMarks (h : m.LayersRead n qs y ls rest) : marks (m.layers.flatMap fun l => l.1 ++ l.2) = 0 := by
  have hobject := layersObject_lines h.inert h.mem h.isWord
  have hread := h.read
  have hvalue := h.value
  have hyn : '\n' ∉ y := readLines_noNewline (hread ▸ List.mem_cons_self)
  have hls : ls = readLines (pairLines qs) := by
    rw [hobject] at hread
    exact ((passed_of_brackets (.inr ⟨rfl, rfl⟩) _).1.read hread).2
  obtain ⟨z, rfl, hlast⟩ := bracketed_of_value hyn (.inr ⟨rfl, rfl⟩) rfl hvalue
  have hraw : isRaw ('\x7b' :: z) = true := by simp [isRaw, isBracketed, hlast]
  refine marks_of_brackets (nameFollows_pairLines h.keys) hread rfl ?_ ?_
  · generalize hinput : (m.layers.flatMap fun l => (layerParts l).flatMap fun x => Sh.echo (splitWords x)) = input
      at hobject
    have hmember : ∀ p ∈ pairUp (readLines input), backslashes (memberOf p) ≤ marks (p.1 ++ p.2) := by
      intro p hp
      have hn : '\n' ∉ p.2 := readLines_noNewline (mem_pairUp hp).2
      have hout := backslashes_outValue hn
      have hkey := backslashes_le_marks p.1
      simp only [memberOf, memberText, backslashes_cons, Json.backslashes_append, marks_append]
      simp
      omega
    have hjoin := Json.backslashes_commaJoin (f := memberOf) (g := fun p => p.1 ++ p.2) hmember
    have hpairs : marks ((pairUp (readLines input)).flatMap fun p => p.1 ++ p.2) ≤ marks (readLines input).flatten := by
      have hflatten := (pairUp_sublist (readLines input)).flatMap id
      rw [List.flatMap_assoc, List.flatMap_id] at hflatten
      simp only [List.flatMap_cons, List.flatMap_nil, List.append_nil, id] at hflatten
      exact weight_le_of_sublist _ hflatten
    have hsub : marks (readLines input).flatten ≤ marks input := weight_le_of_sublist _ (readLines_sublist _)
    have hechos : marks input ≤ marks (m.layers.flatMap fun l => l.1 ++ l.2) := by
      rw [← hinput]
      refine marks_flatMap_le fun l _ => ?_
      rw [← marks_layerParts l, ← List.flatMap_id]
      exact marks_flatMap_le fun x _ => marks_echo x
    have hend : backslashes ['\x7d'] = 0 := rfl
    rw [hobject, backslashes_cons, if_neg (by decide), Json.backslashes_append]
    omega
  · rw [outValue_raw hraw, List.cons_append] at hvalue
    refine Json.object_marks (follows_following _) (fun u hu => ?_) hlast hvalue
    rw [hls] at hu
    exact noSeparator_following h.keys hu

theorem LayersRead.layer (h : m.LayersRead n qs y ls rest) {l : Text × Text} (hl : l ∈ m.layers) :
    marks (l.1 ++ l.2) = 0 := by
  have hmarks := h.noMarks
  rw [List.flatMap_def] at hmarks
  exact marks_of_mem hmarks (List.mem_map_of_mem (f := fun l : Text × Text => l.1 ++ l.2) hl)

theorem LayersRead.part (h : m.LayersRead n qs y ls rest) {l : Text × Text} (hl : l ∈ m.layers) {x : Text}
    (hx : x ∈ layerParts l) : marks x = 0 ∧ ∀ c ∈ x, isBlank c = false := by
  have hlayer : marks (layerParts l).flatten = 0 := by
    rw [marks_layerParts]
    exact h.layer hl
  refine ⟨marks_of_mem hlayer hx, fun c hc => (h.isWord l hl).2 c ?_⟩
  have hitem := layerParts_append l
  simp only [layerParts, List.mem_cons, List.not_mem_nil, or_false] at hx
  rw [← hitem, List.mem_append, List.mem_cons]
  rcases hx with rfl | rfl
  · exact .inl hc
  · exact .inr (.inr hc)

/-- Without marks the object holds the lines in pairs, so these are the layers. -/
theorem LayersRead.pairs (h : m.LayersRead n qs y ls rest) :
    pairUp (m.layers.flatMap fun l => (layerParts l).flatMap echoLines) = m.layers ∧
      ∀ l ∈ m.layers, Json.Printable l.1 ∧ Json.Printable l.2 ∧ isRaw l.2 = false := by
  have hobject := layersObject_lines h.inert h.mem h.isWord
  have hread := h.read
  have hvalue := h.value
  have hlines : readLines (m.layers.flatMap fun l => (layerParts l).flatMap fun x => Sh.echo (splitWords x)) =
      m.layers.flatMap fun l => (layerParts l).flatMap echoLines :=
    readLines_flatMap_echo fun l hl x hx => ⟨(h.part hl hx).2, (marks_eq_zero.mp (h.part hl hx).1).1⟩
  rw [hlines] at hobject
  have hline (k : Text) (hk : k ∈ m.layers.flatMap fun l => (layerParts l).flatMap echoLines) :
      marks k = 0 ∧ ∀ c ∈ k, isBlank c = false := by
    obtain ⟨l, hl, hk⟩ := List.mem_flatMap.mp hk
    obtain ⟨x, hx, hk⟩ := List.mem_flatMap.mp hk
    rcases mem_echoLines hk with rfl | ⟨rfl, -⟩
    · exact ⟨rfl, fun c hc => by cases hc⟩
    · exact h.part hl hx
  generalize (m.layers.flatMap fun l => (layerParts l).flatMap echoLines) = ks at hobject hline ⊢
  have hpasses (k : Text) (hk : k ∈ ks) : ∀ c ∈ k, Passes c := fun c hc =>
    ⟨(hline k hk).2 c hc, fun hb => (marks_eq_zero.mp (hline k hk).1).1 (hb ▸ hc)⟩
  have hcarried : Carried m.layersObject := by
    rw [hobject]
    refine carried_of_passes (passes_object fun p hp => ?_) (by decide)
    obtain ⟨hkey, hp⟩ := mem_pairUp hp
    exact ⟨hpasses p.1 hkey, hpasses p.2 hp, fun _ => (marks_eq_zero.mp (hline p.2 hp).1).2⟩
  obtain rfl := (hcarried.read hread).1
  have hraw : isRaw m.layersObject = true := by simp [hobject, isRaw, isBracketed]
  rw [outValue_raw hraw, hobject, List.cons_append, List.append_assoc, List.singleton_append] at hvalue
  have hopens (p : Text × Text) (_ : p ∈ pairUp ks) : Json.Opens '\x7d' (memberOf p) := ⟨'"', _, rfl, rfl, by decide⟩
  have hexact (p : Text × Text) (hp : p ∈ pairUp ks) (n : Nat) : Json.ReadsExactly (Json.member (Json.value n))
      (fun l => (l.1, .str l.2)) (memberOf p)
      fun l => l = p ∧ Json.Printable p.1 ∧ Json.Printable p.2 ∧ isRaw p.2 = false := by
    intro r l rest hparse
    obtain ⟨hkey, hp⟩ := mem_pairUp hp
    obtain ⟨⟨hname, hprintable⟩, hstr⟩ := member_read (hline p.1 hkey).1 hparse
    obtain ⟨⟨hrevision, hplain⟩, hr⟩ :=
      value_plain (hline p.2 hp).1 (fun hn => by cases (hline p.2 hp).2 _ hn) hstr
    exact ⟨⟨Prod.ext hname hrevision, hprintable, hplain⟩, hr⟩
  obtain ⟨hall, -⟩ := Json.object_exact hopens hexact hvalue
  have hsame : List.Forall₂ (fun p l => p = l) (pairUp ks) m.layers := hall.imp fun p l h => h.1.symm
  rw [List.forall₂_eq_eq_eq] at hsame
  rw [hsame, List.forall₂_same] at hall
  exact ⟨hsame, fun l hl => (hall l hl).2⟩

theorem LayersRead.clean (h : m.LayersRead n qs y ls rest) : ∀ l ∈ m.layers, LayerClean l := by
  obtain ⟨hpairs, hplain⟩ := h.pairs
  have hlength (l : Text × Text) : ((layerParts l).flatMap echoLines).length ≤ [l.1, l.2].length := by
    have hfirst := length_echoLines (beforeColon (layerItem l))
    have hsecond := length_echoLines (afterColon (layerItem l))
    simp only [layerParts, List.flatMap_cons, List.flatMap_nil, List.append_nil, List.length_append, List.length_cons,
      List.length_nil]
    omega
  -- there are no more lines than these pairs have
  have hlines := (pairUp_sublist (m.layers.flatMap fun l => (layerParts l).flatMap echoLines)).eq_of_length_le
    (by rw [hpairs]; exact length_flatMap_le fun l _ => hlength l)
  have hkey (l : Text × Text) (hl : l ∈ m.layers) : l.1 ≠ [] := pairUp_key (hpairs.symm ▸ hl)
  rw [hpairs] at hlines
  have hparts := flatMap_parts (fun l _ => hlength l) hlines.symm
  intro l hl
  have hl₂ := hparts l hl
  have hfirst := length_echoLines (beforeColon (layerItem l))
  have hsecond := length_echoLines (afterColon (layerItem l))
  have hsum := congrArg List.length hl₂
  simp only [layerParts, List.flatMap_cons, List.flatMap_nil, List.append_nil, List.length_append, List.length_cons,
    List.length_nil] at hl₂ hsum
  obtain ⟨hname, hrevision⟩ := List.append_inj (show _ = [l.1] ++ [l.2] from hl₂)
    (by rw [List.length_singleton]; omega)
  obtain ⟨hname, hnameOption⟩ := echoLines_eq hname fun _ => hkey l hl
  have hcolon : ':' ∉ l.1 := by
    rw [hname]
    intro hmem
    simpa using List.mem_takeWhile_imp hmem
  have hitem := layerParts_append l
  rw [← hname] at hitem hnameOption
  obtain hafter : afterColon (layerItem l) = l.2 := (List.cons.inj (List.append_cancel_left hitem)).2
  rw [hafter] at hrevision
  obtain ⟨-, hrevisionOption⟩ := echoLines_eq hrevision id
  have hblank := List.forall_mem_append.mp (h.words l hl)
  have hquote := (marks_eq_zero.mp (h.layer hl)).2
  rw [List.mem_append, not_or] at hquote
  obtain ⟨hprintable₁, hprintable₂, hstring⟩ := hplain l hl
  exact ⟨⟨hblank.1, hnameOption, hquote.1, hprintable₁⟩, hkey l hl, hcolon,
    ⟨hblank.2, hrevisionOption, hquote.2, hprintable₂⟩, hstring⟩

end Layers

end Manifest

end Agl.Setup
