/-
What a JSON text is that is decoded to strings.

A quote or a backslash in a string comes from a backslash of the text, so the
text has as many backslashes as its strings have of both (`items_marks`).
Where there is no backslash the strings are what is between the quotes
(`string_exact`), and a sequence is decoded item by item (`items_exact`).
-/
import Mathlib.Data.List.Basic
import Agl.Lib.Json
import Agl.Lib.ShellRead

namespace Agl.Json

open Sh

variable {s r t x y w rest : Text} {c : Char} {n : Nat}

/-! ## Marks -/

/-- There is no quote but behind a backslash. -/
inductive Escaped : Text → Prop
  | nil : Escaped []
  | escape (c : Char) {s : Text} (h : Escaped s) : Escaped ('\\' :: c :: s)
  | char {c : Char} {s : Text} (hb : c ≠ '\\') (hq : c ≠ '"') (h : Escaped s) : Escaped (c :: s)

theorem Escaped.tail (h : Escaped (c :: s)) (hb : c ≠ '\\') : c ≠ '"' ∧ Escaped s := by
  cases h with
  | escape => exact absurd rfl hb
  | char _ hq h => exact ⟨hq, h⟩

theorem Escaped.drop_escape (h : Escaped ('\\' :: c :: s)) : Escaped s := by
  cases h with
  | escape _ h => exact h
  | char hb => exact absurd rfl hb

theorem escaped_quoted (h : quoted s = some (x, r)) : Escaped x := by
  fun_induction quoted s generalizing x r with
  | case1 =>
    cases h
    exact .nil
  | case2 c s ih =>
    obtain ⟨⟨y, r'⟩, hy, hr⟩ := Option.map_eq_some_iff.mp h
    cases hr
    exact .escape c (ih hy)
  | case3 c s hq hb ih =>
    obtain ⟨⟨y, r'⟩, hy, hr⟩ := Option.map_eq_some_iff.mp h
    cases hr
    refine .char ?_ hq (ih hy)
    -- behind a backslash there is a character
    rintro rfl
    cases s with
    | nil => cases hy
    | cons d s => exact hb d s rfl rfl
  | case4 => cases h

theorem hexValue_ne {d : Nat} (h : hexValue c = some d) : c ≠ '\\' := by
  rintro rfl
  cases h

theorem hex4_spec {u : Nat} (h : hex4 s = some (u, r)) (hs : Escaped s) :
    Escaped r ∧ backslashes r ≤ backslashes s := by
  unfold hex4 at h
  split at h
  · next a b c d s' =>
    simp only [Option.bind_eq_bind, Option.bind_eq_some_iff] at h
    obtain ⟨a', ha, b', hb, c', hc, d', hd, heq⟩ := h
    cases heq
    have ha := hs.tail (hexValue_ne ha)
    have hb := ha.2.tail (hexValue_ne hb)
    have hc := hb.2.tail (hexValue_ne hc)
    have hd := hc.2.tail (hexValue_ne hd)
    exact ⟨hd.2, weight_le_of_sublist _ (List.drop_sublist 4 (a :: b :: c :: d :: r))⟩
  · cases h

theorem unitChar_spec (u : Nat) (hs : Escaped s) :
    Escaped (unitChar u s).2 ∧ backslashes (unitChar u s).2 ≤ backslashes s := by
  unfold unitChar
  generalize (if isHigh u || isLow u then '\uFFFD' else Char.ofNat u) = alone
  dsimp only
  split
  · next t =>
    split
    · next l r hl =>
      have ht := hex4_spec hl hs.drop_escape
      split
      · refine ⟨ht.1, ht.2.trans ?_⟩
        exact weight_le_of_sublist _ (List.drop_sublist 2 ('\\' :: 'u' :: t))
      · exact ⟨hs, le_rfl⟩
    · exact ⟨hs, le_rfl⟩
  · exact ⟨hs, le_rfl⟩

theorem marks_le_one (c : Char) (s : Text) : marks (c :: s) ≤ 1 + marks s := by
  rw [marks_cons]
  split <;> omega

theorem backslashes_append (s t : Text) : backslashes (s ++ t) = backslashes s + backslashes t := weight_append _ s t

theorem backslashes_escape (c : Char) (s : Text) : 1 + backslashes s ≤ backslashes ('\\' :: c :: s) := by
  unfold backslashes
  rw [weight_cons, weight_cons, if_pos rfl]
  omega

theorem marks_unescapeStep (h : unescapeStep n x = some w) (hx : Escaped x) : marks w ≤ backslashes x := by
  fun_induction unescapeStep n x generalizing w with
  | case1 =>
    cases h
    exact le_rfl
  | case2 n s ih =>
    obtain ⟨⟨u, r⟩, hu, h⟩ := Option.bind_eq_some_iff.mp h
    obtain ⟨v, hv, rfl⟩ := Option.map_eq_some_iff.mp h
    obtain ⟨hr, hle⟩ := hex4_spec hu hx.drop_escape
    obtain ⟨hunit, hunit'⟩ := unitChar_spec u hr
    have hrest := ih u r hv hunit
    have hone := marks_le_one (unitChar u r).1 v
    have hescape := backslashes_escape 'u' s
    omega
  | case3 n c s hc ih =>
    obtain ⟨d, hd, h⟩ := Option.bind_eq_some_iff.mp h
    obtain ⟨v, hv, rfl⟩ := Option.map_eq_some_iff.mp h
    have hrest := ih hv hx.drop_escape
    have hone := marks_le_one d v
    have hescape := backslashes_escape c s
    omega
  | case4 => cases h
  | case5 n c s _ _ hc ih =>
    obtain ⟨v, hv, rfl⟩ := Option.map_eq_some_iff.mp h
    rw [not_or] at hc
    obtain ⟨hq, hs⟩ := hx.tail hc.1
    have hrest := ih hv hs
    rw [marks_cons, if_neg (not_or.mpr ⟨hc.1, hq⟩), backslashes, weight_cons]
    unfold backslashes at hrest
    omega
  | case6 => cases h

/-! ## Strings that run over -/

/-- What follows a member of an object: its end, or the next key. -/
inductive Follows : Text → Prop
  | closed : Follows ['\x7d']
  | next (u : Text) : Follows (',' :: '"' :: u)

theorem quoted_cons (hq : c ≠ '"') (hb : c ≠ '\\') : quoted (c :: s) = (quoted s).map fun (x, r) => (c :: x, r) := by
  rw [quoted]
  · exact hq
  · exact fun _ _ h => absurd h hb

/-- A string ends in the text, or at the first quote behind it. -/
theorem quoted_follows (hr : Follows r) (h : quoted (s ++ r) = some (x, rest)) :
    (∃ s', s = x ++ '"' :: s' ∧ rest = s' ++ r) ∨ (x = s ++ [','] ∧ ∃ u, r = ',' :: '"' :: u ∧ rest = u) := by
  induction hlen : s.length using Nat.strong_induction_on generalizing s x with
  | _ n ih =>
    cases s with
    | nil =>
      cases hr with
      | closed => cases h
      | next u =>
        cases h
        exact .inr ⟨rfl, _, rfl, rfl⟩
    | cons c s =>
      rw [List.length_cons] at hlen
      by_cases hq : c = '"'
      · subst hq
        cases h
        exact .inl ⟨s, rfl, rfl⟩
      · by_cases hb : c = '\\'
        · subst hb
          cases s with
          | nil =>
            cases hr with
            | closed => cases h
            | next u =>
              cases h
              exact .inr ⟨rfl, _, rfl, rfl⟩
          | cons d s =>
            rw [List.length_cons] at hlen
            obtain ⟨⟨x', rest'⟩, hx, heq⟩ := Option.map_eq_some_iff.mp (show (quoted (s ++ r)).map _ = _ from h)
            cases heq
            rcases ih s.length (by omega) hx rfl with ⟨s', rfl, hrest⟩ | ⟨rfl, hrest⟩
            · exact .inl ⟨s', rfl, hrest⟩
            · exact .inr ⟨rfl, hrest⟩
        · rw [List.cons_append, quoted_cons hq hb] at h
          obtain ⟨⟨x', rest'⟩, hx, heq⟩ := Option.map_eq_some_iff.mp h
          cases heq
          rcases ih s.length (by omega) hx rfl with ⟨s', rfl, hrest⟩ | ⟨rfl, hrest⟩
          · exact .inl ⟨s', rfl, hrest⟩
          · exact .inr ⟨rfl, hrest⟩

theorem string_follows (hr : Follows r) (h : string (s ++ r) = some (w, rest)) :
    (∃ a s', s = a ++ '"' :: s' ∧ rest = s' ++ r ∧ marks w ≤ backslashes a) ∨
      (marks w ≤ backslashes s ∧ ∃ u, r = ',' :: '"' :: u ∧ rest = u) := by
  obtain ⟨⟨x, r'⟩, hx, h⟩ := Option.bind_eq_some_iff.mp h
  obtain ⟨v, hv, heq⟩ := Option.map_eq_some_iff.mp h
  cases heq
  have hmarks := marks_unescapeStep hv (escaped_quoted hx)
  rcases quoted_follows hr hx with ⟨s', hs, hrest⟩ | ⟨rfl, hrest⟩
  · exact .inl ⟨x, s', hs, hrest, hmarks⟩
  · rw [backslashes_append] at hmarks
    exact .inr ⟨hmarks, hrest⟩

/-- What the text of a string, an array or an object starts with. -/
def Value.opening : Value → Option Char
  | .str _ => some '"'
  | .arr _ => some '['
  | .obj _ => some '\x7b'
  | _ => none

theorem value_opening {v : Value} (h : value n s = some (v, rest)) (hv : v.opening = some c) :
    ∃ s', skip s = c :: s' := by
  cases n with
  | zero => cases h
  | succ n =>
    unfold value at h
    split at h
    · next s' hskip =>
      obtain ⟨x, -, heq⟩ := Option.map_eq_some_iff.mp h
      cases heq
      cases hv
      exact ⟨s', hskip⟩
    · next s' hskip =>
      obtain ⟨x, -, heq⟩ := Option.map_eq_some_iff.mp h
      cases heq
      cases hv
      exact ⟨s', hskip⟩
    · next s' hskip =>
      obtain ⟨x, -, heq⟩ := Option.map_eq_some_iff.mp h
      cases heq
      cases hv
      exact ⟨s', hskip⟩
    · obtain ⟨u, hu, heq⟩ := Option.map_eq_some_iff.mp h
      cases heq
      unfold scalarValue at hu
      split_ifs at hu
      all_goals
        cases hu
        cases hv

theorem value_str (h : value n s = some (.str w, rest)) : ∃ s', skip s = '"' :: s' ∧ string s' = some (w, rest) := by
  obtain ⟨s', hskip⟩ := value_opening h rfl
  cases n with
  | zero => cases h
  | succ n =>
    unfold value at h
    rw [hskip] at h
    obtain ⟨⟨x, r⟩, hx, heq⟩ := Option.map_eq_some_iff.mp (show (string s').map _ = _ from h)
    cases heq
    exact ⟨s', hskip, hx⟩

/-! ## Sequences of strings -/

/-- Neither a separator nor a bracket comes next. -/
def NoSeparator (u : Text) : Prop := ∃ c v, u = c :: v ∧ isSpace c = false ∧ c ∉ [',', ':', ']', '\x7d']

section Marks

variable {α : Type} {p : Text → Option (α × Text)} {close : Char} {k : Nat}

theorem backslashes_le_cons (c : Char) (s : Text) : backslashes s ≤ backslashes (c :: s) :=
  weight_le_of_sublist _ (List.sublist_cons_self c s)

theorem getLast?_tail (h : (c :: s).getLast? = some close) (hc : c ≠ close) : s.getLast? = some close := by
  cases s with
  | nil =>
    cases h
    exact absurd rfl hc
  | cons d s => rwa [List.getLast?_cons_cons] at h

theorem skip_inside (hclose : isSpace close = false) (hs : s.getLast? = some close) (r : Text) :
    ∃ c s', skip (s ++ r) = c :: (s' ++ r) ∧ (c :: s').getLast? = some close ∧
      backslashes (c :: s') ≤ backslashes s := by
  have hne : skip s ≠ [] := by
    intro hnil
    have hall := List.dropWhile_eq_nil_iff.mp hnil close (List.mem_of_mem_getLast? hs)
    rw [hclose] at hall
    cases hall
  obtain ⟨c, s', hskip⟩ := List.exists_cons_of_ne_nil hne
  obtain ⟨a, ha⟩ : skip s <:+ s := List.dropWhile_suffix isSpace
  refine ⟨c, s', skip_append hskip r, ?_, ?_⟩
  · rw [← hskip]
    rwa [← ha, List.getLast?_append_of_ne_nil _ hne] at hs
  · rw [← ha, hskip]
    exact weight_le_of_sublist _ (List.sublist_append_right a _)

theorem backslashes_commaJoin {β : Type} {es : List β} {f g : β → Text}
    (h : ∀ e ∈ es, backslashes (f e) ≤ marks (g e)) : backslashes (commaJoin (es.map f)) ≤ marks (es.flatMap g) := by
  induction es with
  | nil => exact le_rfl
  | cons e es ih =>
    have he := h e List.mem_cons_self
    have ih := ih fun e' he' => h e' (List.mem_cons_of_mem e he')
    rw [List.flatMap_cons, marks_append]
    by_cases hes : es = []
    · subst hes
      have hjoin : commaJoin ([e].map f) = f e := by simp [commaJoin, List.intercalate]
      rw [hjoin]
      omega
    · rw [List.map_cons, commaJoin_cons _ (by simpa using hes), backslashes_append, backslashes_cons,
        if_neg (by decide)]
      omega

/-- An item that is read of the text takes as many backslashes as its strings
have marks, unless it runs over. -/
def ReadsInside (p : Text → Option (α × Text)) (close : Char) (r : Text) (strings : α → Text) (v : α) : Prop :=
  ∀ s rest, s.getLast? = some close → p (s ++ r) = some (v, rest) →
    (∃ s', rest = s' ++ r ∧ s'.getLast? = some close ∧ marks (strings v) + backslashes s' ≤ backslashes s) ∨
      NoSeparator rest

theorem NoSeparator.skip (h : NoSeparator s) : ∃ c u, Json.skip s = c :: u ∧ c ∉ [',', ':', ']', '\x7d'] := by
  obtain ⟨c, u, rfl, hspace, hc⟩ := h
  exact ⟨c, u, skip_cons hspace u, hc⟩

/-- The first item, and what is read behind it. -/
theorem items_cons {v : α} {vs : List α} (h : items p close k s = some (v :: vs, rest)) :
    ∃ k' r, k = k' + 1 ∧ p s = some (v, r) ∧
      ((∃ r', skip r = ',' :: r' ∧ items p close k' r' = some (vs, rest)) ∨ (skip r = close :: rest ∧ vs = [])) := by
  cases k with
  | zero => cases h
  | succ k =>
    obtain ⟨⟨u, r⟩, hu, h⟩ := Option.bind_eq_some_iff.mp h
    dsimp only at h
    split at h
    · cases h
    · next c r' hskip =>
      split_ifs at h with hcomma hclose
      · obtain ⟨⟨us, r₂⟩, hrest, heq⟩ := Option.map_eq_some_iff.mp h
        cases heq
        exact ⟨k, r, rfl, hu, .inl ⟨r', by rw [hskip, hcomma], hrest⟩⟩
      · cases h
        exact ⟨k, r, rfl, hu, .inr ⟨by rw [hskip, hclose], rfl⟩⟩

theorem items_of_sequence {vs : List α} (h : sequence p close k s = some (vs, rest)) (hne : vs ≠ []) :
    items p close k (skip s) = some (vs, rest) := by
  unfold sequence at h
  split at h
  · cases h
  · next hskip =>
    split at h
    · cases h
      exact absurd rfl hne
    · rwa [hskip]

theorem items_ne_nil : items p close k s ≠ some ([], rest) := by
  intro h
  cases k with
  | zero => cases h
  | succ k =>
    obtain ⟨⟨u, r⟩, -, h⟩ := Option.bind_eq_some_iff.mp h
    dsimp only at h
    split at h
    · cases h
    · split_ifs at h
      · obtain ⟨x, -, heq⟩ := Option.map_eq_some_iff.mp h
        cases heq
      · cases h

theorem items_marks (strings : α → Text) (hclose : close ∈ [']', '\x7d']) {vs : List α}
    (hp : ∀ v ∈ vs, ReadsInside p close r strings v) (hs : s.getLast? = some close)
    (h : items p close k (s ++ r) = some (vs, rest)) : marks (vs.flatMap strings) ≤ backslashes s := by
  have hall : ∀ c ∈ [']', '\x7d'], isSpace c = false ∧ ',' ≠ c := by decide
  obtain ⟨hspace, hcomma⟩ := hall close hclose
  induction vs generalizing k s with
  | nil => exact absurd h items_ne_nil
  | cons v vs ih =>
    obtain ⟨k', r₁, -, hv, hnext⟩ := items_cons h
    rcases hp v List.mem_cons_self s r₁ hs hv with ⟨s₁, rfl, hs₁, hmarks⟩ | hover
    · obtain ⟨c, s₂, hskip, hs₂, hle⟩ := skip_inside hspace hs₁ r
      rw [List.flatMap_cons, marks_append]
      rcases hnext with ⟨r', hskip', hrest⟩ | ⟨-, rfl⟩
      · obtain ⟨rfl, rfl⟩ := List.cons.inj (hskip.symm.trans hskip')
        have hrest := ih (fun u hu => hp u (List.mem_cons_of_mem v hu)) (getLast?_tail hs₂ hcomma) hrest
        have hcons := backslashes_le_cons ',' s₂
        omega
      · rw [List.flatMap_nil, marks, weight_nil, ← marks]
        omega
    · -- behind it no item can follow
      obtain ⟨c, u, hskip, hc⟩ := hover.skip
      rcases hnext with ⟨r', hskip', -⟩ | ⟨hskip', -⟩
      · obtain ⟨rfl, -⟩ := List.cons.inj (hskip.symm.trans hskip')
        exact absurd List.mem_cons_self hc
      · obtain ⟨rfl, -⟩ := List.cons.inj (hskip.symm.trans hskip')
        exact absurd (List.mem_cons_of_mem _ (List.mem_cons_of_mem _ hclose)) hc

theorem readsInside_string (hclose : close ∈ [']', '\x7d']) (hr : Follows r)
    (hnext : ∀ u, r = ',' :: '"' :: u → NoSeparator u) (hs : s.getLast? = some close)
    (h : string (s ++ r) = some (w, rest)) :
    (∃ s', rest = s' ++ r ∧ s'.getLast? = some close ∧ marks w + backslashes s' ≤ backslashes s) ∨
      NoSeparator rest := by
  have hquote : '"' ≠ close := by
    have hall : ∀ c ∈ [']', '\x7d'], '"' ≠ c := by decide
    exact hall close hclose
  rcases string_follows hr h with ⟨a, s', rfl, hrest, hmarks⟩ | ⟨-, u, hu, rfl⟩
  · rw [List.getLast?_append_of_ne_nil _ (List.cons_ne_nil _ _)] at hs
    refine .inl ⟨s', hrest, getLast?_tail hs hquote, ?_⟩
    rw [backslashes_append, backslashes, weight_cons, if_neg (by decide)]
    unfold backslashes at hmarks
    omega
  · exact .inr (hnext _ hu)

/-- The characters, if it is a string. -/
def Value.text : Value → Text
  | .str s => s
  | _ => []

theorem value_readsInside (hclose : close ∈ [']', '\x7d']) (hr : Follows r)
    (hnext : ∀ u, r = ',' :: '"' :: u → NoSeparator u) (w : Text) :
    ReadsInside (value n) close r Value.text (.str w) := by
  intro s rest hs h
  have hall : ∀ c ∈ [']', '\x7d'], isSpace c = false ∧ '"' ≠ c := by decide
  obtain ⟨hspace, hquote⟩ := hall close hclose
  obtain ⟨s₁, hskip, hstring⟩ := value_str h
  obtain ⟨c, s', hskip', hs', hle⟩ := skip_inside hspace hs r
  obtain ⟨rfl, rfl⟩ := List.cons.inj (hskip'.symm.trans hskip)
  rcases readsInside_string hclose hr hnext (getLast?_tail hs' hquote) hstring with ⟨s₂, hrest, hs₂, hmarks⟩ | hover
  · exact .inl ⟨s₂, hrest, hs₂, hmarks.trans ((backslashes_le_cons _ _).trans hle)⟩
  · exact .inr hover

theorem member_readsInside (hclose : close ∈ [']', '\x7d']) (hr : Follows r)
    (hnext : ∀ u, r = ',' :: '"' :: u → NoSeparator u) (k w : Text) :
    ReadsInside (member (value n)) close r (fun m => m.1 ++ m.2.text) (k, .str w) := by
  intro s rest hs h
  have hall : ∀ c ∈ [']', '\x7d'], isSpace c = false ∧ '"' ≠ c ∧ ':' ≠ c := by decide
  obtain ⟨hspace, hquote, hcolon⟩ := hall close hclose
  obtain ⟨c, s', hskip, hs', hle⟩ := skip_inside hspace hs r
  unfold member at h
  rw [hskip] at h
  split at h
  · next s₁ heq =>
    obtain ⟨rfl, rfl⟩ := List.cons.inj heq
    obtain ⟨⟨k', r₁⟩, hk, h⟩ := Option.bind_eq_some_iff.mp h
    dsimp only at h
    rcases readsInside_string hclose hr hnext (getLast?_tail hs' hquote) hk with ⟨s₂, rfl, hs₂, hmarks⟩ | hover
    · obtain ⟨c, s₃, hskip, hs₃, hle₃⟩ := skip_inside hspace hs₂ r
      rw [hskip] at h
      split at h
      · next r₂ heq =>
        obtain ⟨rfl, rfl⟩ := List.cons.inj heq
        obtain ⟨⟨v, r₃⟩, hv, heq⟩ := Option.map_eq_some_iff.mp h
        cases heq
        rcases value_readsInside hclose hr hnext w s₃ _ (getLast?_tail hs₃ hcolon) hv with
          ⟨s₄, hrest, hs₄, hmarks'⟩ | hover
        · refine .inl ⟨s₄, hrest, hs₄, ?_⟩
          have hcons := backslashes_le_cons '"' s'
          have hcons₃ := backslashes_le_cons ':' s₃
          rw [marks_append]
          dsimp only [Value.text] at hmarks' ⊢
          omega
        · exact .inr hover
      · cases h
    · obtain ⟨c, u, hskip, hc⟩ := hover.skip
      rw [hskip] at h
      split at h
      · next heq =>
        cases heq
        exact absurd (List.mem_cons_of_mem _ List.mem_cons_self) hc
      · cases h
  · cases h

/-- A sequence of which nothing runs over. -/
theorem sequence_marks (strings : α → Text) (hclose : close ∈ [']', '\x7d']) {vs : List α}
    (hp : ∀ v ∈ vs, ReadsInside p close r strings v) (hs : s.getLast? = some close)
    (h : sequence p close k (s ++ r) = some (vs, rest)) : marks (vs.flatMap strings) ≤ backslashes s := by
  have hspace : isSpace close = false := by
    have hall : ∀ c ∈ [']', '\x7d'], isSpace c = false := by decide
    exact hall close hclose
  obtain ⟨c, s', hskip, hs', hle⟩ := skip_inside hspace hs r
  unfold sequence at h
  rw [hskip] at h
  dsimp only at h
  split at h
  · cases h
    exact Nat.zero_le _
  · exact (items_marks strings hclose hp hs' h).trans hle

/-- An array of strings. -/
theorem array_marks (hr : Follows r) (hnext : ∀ u, r = ',' :: '"' :: u → NoSeparator u) (hs : s.getLast? = some ']')
    {ws : List Text} (h : value n ('[' :: (s ++ r)) = some (.arr (ws.map .str), rest)) :
    marks ws.flatten ≤ backslashes s := by
  cases n with
  | zero => cases h
  | succ n =>
    rw [value_array] at h
    obtain ⟨⟨vs, r₁⟩, hvs, heq⟩ := Option.map_eq_some_iff.mp h
    cases heq
    have hmarks := sequence_marks Value.text (by decide) (fun v hv => ?_) hs hvs
    · rw [List.flatMap_map] at hmarks
      rw [← List.flatMap_id]
      exact hmarks
    · obtain ⟨w, -, rfl⟩ := List.mem_map.mp hv
      exact value_readsInside (by decide) hr hnext w

/-- An object of strings. -/
theorem object_marks (hr : Follows r) (hnext : ∀ u, r = ',' :: '"' :: u → NoSeparator u)
    (hs : s.getLast? = some '\x7d') {ms : List (Text × Text)}
    (h : value n ('\x7b' :: (s ++ r)) = some (.obj (ms.map fun m => (m.1, .str m.2)), rest)) :
    marks (ms.flatMap fun m => m.1 ++ m.2) ≤ backslashes s := by
  cases n with
  | zero => cases h
  | succ n =>
    rw [value_object] at h
    obtain ⟨⟨vs, r₁⟩, hvs, heq⟩ := Option.map_eq_some_iff.mp h
    cases heq
    have hmarks := sequence_marks (fun m => m.1 ++ m.2.text) (by decide) (fun v hv => ?_) hs hvs
    · rw [List.flatMap_map] at hmarks
      exact hmarks
    · obtain ⟨m, -, rfl⟩ := List.mem_map.mp hv
      exact member_readsInside (by decide) hr hnext m.1 m.2

end Marks

/-! ## Strings as they are -/

theorem unescapeStep_zero (c : Char) (s : Text) : unescapeStep 0 (c :: s) = none := by
  simp [unescapeStep]

theorem unescapeStep_exact (hb : '\\' ∉ y) (h : unescapeStep n (escapeQuotes y) = some w) : w = y ∧ Printable y := by
  induction y generalizing n w with
  | nil =>
    cases n <;> cases h <;> exact ⟨rfl, fun c hc => by cases hc⟩
  | cons c y ih =>
    rw [List.mem_cons, not_or] at hb
    have hc : c ≠ '\\' := Ne.symm hb.1
    rw [escapeQuotes, List.flatMap_cons, ← escapeQuotes] at h
    by_cases hq : c = '"'
    · rw [if_pos hq, List.cons_append, List.singleton_append] at h
      cases n with
      | zero => cases h
      | succ n =>
        rw [unescapeStep_quote] at h
        obtain ⟨v, hv, rfl⟩ := Option.map_eq_some_iff.mp h
        obtain ⟨rfl, hy⟩ := ih hb.2 hv
        exact ⟨by rw [hq], List.forall_mem_cons.mpr ⟨⟨hc, by rw [hq]; decide⟩, hy⟩⟩
    · rw [if_neg hq, List.singleton_append] at h
      cases n with
      | zero =>
        rw [unescapeStep_zero] at h
        cases h
      | succ n =>
        rw [unescapeStep] at h
        · split at h
          · cases h
          · next hplain =>
            obtain ⟨v, hv, rfl⟩ := Option.map_eq_some_iff.mp h
            obtain ⟨rfl, hy⟩ := ih hb.2 hv
            exact ⟨rfl, List.forall_mem_cons.mpr ⟨⟨hc, Nat.not_lt.mp (not_or.mp hplain).2⟩, hy⟩⟩
        · exact fun _ h => absurd h hc
        · exact fun _ _ h => absurd h hc

/-- Without backslashes, the string is what is between the quotes. -/
theorem string_exact (hb : '\\' ∉ y) (h : string (escapeQuotes y ++ '"' :: t) = some (w, rest)) :
    (w = y ∧ Printable y) ∧ rest = t := by
  obtain ⟨⟨x, r⟩, hx, h⟩ := Option.bind_eq_some_iff.mp h
  obtain ⟨v, hv, heq⟩ := Option.map_eq_some_iff.mp h
  cases heq
  cases (quoted_escapeQuotes hb t).symm.trans hx
  exact ⟨unescapeStep_exact hb hv, rfl⟩

theorem string_plain (hm : marks y = 0) (h : string (y ++ '"' :: t) = some (w, rest)) :
    (w = y ∧ Printable y) ∧ rest = t := by
  obtain ⟨hb, hq⟩ := marks_eq_zero.mp hm
  rw [← escapeQuotes_of_not_mem hq] at h
  exact string_exact hb h

/-! ## Sequences as they are -/

section Exact

variable {α β γ : Type} {p : Text → Option (α × Text)} {mk : γ → α} {close : Char} {k : Nat}

/-- What an item is read as, if it is one of those that are looked for. -/
def ReadsExactly (p : Text → Option (α × Text)) (mk : γ → α) (s : Text) (Q : γ → Prop) : Prop :=
  ∀ r g rest, p (s ++ r) = some (mk g, rest) → Q g ∧ rest = r

theorem items_exact (hclose : Closes close) {text : β → Text} {Q : β → γ → Prop} {es : List β} (hne : es ≠ [])
    (he : ∀ e ∈ es, ReadsExactly p mk (text e) (Q e)) {gs : List γ}
    (h : items p close k (commaJoin (es.map text) ++ close :: t) = some (gs.map mk, rest)) :
    List.Forall₂ Q es gs ∧ rest = t := by
  induction es generalizing k gs with
  | nil => exact absurd rfl hne
  | cons e es ih =>
    cases gs with
    | nil => exact absurd h items_ne_nil
    | cons g gs =>
      obtain ⟨k', r₁, -, hg, hnext⟩ := items_cons (List.map_cons (f := mk) ▸ h)
      have he₁ := he e List.mem_cons_self
      by_cases hes : es = []
      · subst hes
        have hjoin : commaJoin ([e].map text) = text e := by simp [commaJoin, List.intercalate]
        rw [hjoin] at hg
        obtain ⟨hQ, rfl⟩ := he₁ (close :: t) g r₁ hg
        rw [skip_cons hclose.notSpace] at hnext
        rcases hnext with ⟨r', hskip, -⟩ | ⟨hskip, hgs⟩
        · exact absurd (List.cons.inj hskip).1 hclose.notComma
        · rw [List.map_eq_nil_iff] at hgs
          subst hgs
          exact ⟨.cons hQ .nil, (List.cons.inj hskip).2.symm⟩
      · rw [List.map_cons, commaJoin_cons _ (by simpa using hes), List.append_assoc, List.cons_append] at hg
        obtain ⟨hQ, rfl⟩ := he₁ (',' :: _) g r₁ hg
        rw [skip_cons (show isSpace ',' = false from rfl)] at hnext
        rcases hnext with ⟨r', hskip, hrest⟩ | ⟨hskip, -⟩
        · obtain ⟨-, rfl⟩ := List.cons.inj hskip
          obtain ⟨hall, hrest⟩ := ih hes (fun f hf => he f (List.mem_cons_of_mem e hf)) hrest
          exact ⟨.cons hQ hall, hrest⟩
        · exact absurd (List.cons.inj hskip).1.symm hclose.notComma

theorem sequence_exact (hclose : Closes close) {text : β → Text} {Q : β → γ → Prop} {es : List β}
    (hopen : ∀ e ∈ es, Opens close (text e)) (he : ∀ e ∈ es, ReadsExactly p mk (text e) (Q e)) {gs : List γ}
    (h : sequence p close k (commaJoin (es.map text) ++ close :: t) = some (gs.map mk, rest)) :
    List.Forall₂ Q es gs ∧ rest = t := by
  cases es with
  | nil =>
    have hjoin : commaJoin (([] : List β).map text) ++ close :: t = close :: t := rfl
    rw [hjoin, sequence, skip_cons hclose.notSpace] at h
    simp only [if_true, Option.some.injEq, Prod.mk.injEq, List.nil_eq, List.map_eq_nil_iff] at h
    obtain ⟨rfl, rfl⟩ := h
    exact ⟨.nil, rfl⟩
  | cons e es =>
    obtain ⟨c, r, hc, hspace, hne⟩ := hopen e List.mem_cons_self
    obtain ⟨u, hu⟩ : ∃ u, commaJoin ((e :: es).map text) ++ close :: t = c :: u := by
      by_cases hes : es = []
      · subst hes
        exact ⟨r ++ close :: t, by simp [commaJoin, List.intercalate, hc]⟩
      · rw [List.map_cons, commaJoin_cons _ (by simpa using hes), hc]
        exact ⟨_, rfl⟩
    refine items_exact (k := k) hclose (List.cons_ne_nil e es) he ?_
    rw [hu] at h ⊢
    rw [sequence, skip_cons hspace] at h
    exact (if_neg hne).symm.trans h

/-- An array of strings, by what its items are read as. -/
theorem array_exact {text : β → Text} {Q : β → Text → Prop} {es : List β} (hopen : ∀ e ∈ es, Opens ']' (text e))
    (he : ∀ e ∈ es, ∀ n, ReadsExactly (value n) .str (text e) (Q e)) {ws : List Text}
    (h : value n ('[' :: (commaJoin (es.map text) ++ ']' :: t)) = some (.arr (ws.map .str), rest)) :
    List.Forall₂ Q es ws ∧ rest = t := by
  cases n with
  | zero => cases h
  | succ n =>
    rw [value_array] at h
    obtain ⟨⟨vs, r₁⟩, hvs, heq⟩ := Option.map_eq_some_iff.mp h
    cases heq
    exact sequence_exact ⟨rfl, rfl, by decide⟩ hopen (fun e hmem => he e hmem n) hvs

/-- An object of strings, by what its members are read as. -/
theorem object_exact {text : β → Text} {Q : β → Text × Text → Prop} {es : List β}
    (hopen : ∀ e ∈ es, Opens '\x7d' (text e))
    (he : ∀ e ∈ es, ∀ n, ReadsExactly (member (value n)) (fun m => (m.1, .str m.2)) (text e) (Q e))
    {ms : List (Text × Text)} (h : value n ('\x7b' :: (commaJoin (es.map text) ++ '\x7d' :: t)) =
      some (.obj (ms.map fun m => (m.1, .str m.2)), rest)) : List.Forall₂ Q es ms ∧ rest = t := by
  cases n with
  | zero => cases h
  | succ n =>
    rw [value_object] at h
    obtain ⟨⟨vs, r₁⟩, hvs, heq⟩ := Option.map_eq_some_iff.mp h
    cases heq
    exact sequence_exact ⟨rfl, rfl, by decide⟩ hopen (fun e hmem => he e hmem n) hvs

end Exact

/-- Text that is decoded, with something behind it. -/
theorem value_decoded {u v : Value} (h : decode s = some v) (ht : Ends t) (hvalue : value n (s ++ t) = some (u, rest)) :
    ∃ r, rest = r ++ t ∧ skip r = [] := by
  obtain ⟨r, hr, hskip⟩ := reads_of_decode h (Nat.lt_of_lt_of_le (Nat.lt_succ_self _) (Nat.le_max_right n _)) t ht
  -- with more fuel nothing else is read
  have hmore := value_extends (Nat.le_max_left n (s.length + 1)) (s ++ t) u rest [] hvalue fun _ c hc => by cases hc
  rw [List.append_nil, List.append_nil, hr] at hmore
  cases hmore
  exact ⟨r, rfl, hskip⟩

end Agl.Json
