/-
The assignments of a manifest come out for no other values than those that
are carried (`BashClean`).

A backslash that is to come out would have to be there twice, and every one
comes from one of the value itself: there are none. Then what is read is no
longer than the value, and as long only if it is the value.
-/
import Agl.Setup.ManifestFacts

namespace Agl.Setup

open Sh

/-! ## Words -/

/-- A word more in the same place. -/
theorem length_splitWords_append {ws : List Text} (hne : ws ≠ []) (hws : ∀ w ∈ ws, IsWord w) {x : Text}
    (hx : IsWord x) :
    (splitWords (joinWords ws ++ x)).length = ws.length := by
  induction ws with
  | nil => exact absurd rfl hne
  | cons w ws ih =>
    have hw := hws w List.mem_cons_self
    by_cases hrest : ws = []
    · have hword : IsWord (w ++ x) := by
        refine ⟨by simp [hw.1], fun c hc => ?_⟩
        exact (List.mem_append.mp hc).elim (hw.2 c) (hx.2 c)
      rw [hrest, joinWords_singleton, splitWords_of_isWord hword]
      rfl
    · rw [joinWords_cons hrest, List.append_assoc, List.cons_append, splitWords_append_blank _ _ rfl,
        splitWords_of_isWord hw, List.length_append, ih hrest fun v hv => hws v (List.mem_cons_of_mem w hv),
        List.length_singleton, List.length_cons]
      omega

namespace Manifest

variable {m : Manifest}

/-! ## One value -/

/-- What is read as the value, if it has no backslashes: it is the value, or
longer for its quotes. -/
theorem value_of_assigned {v y : Text} (hn : '\n' ∉ y) (hb : '\\' ∉ y)
    (h : assignWord m.login false (outValue y) = some v) :
    (v = y ∧ m.BashText y) ∨ (v.length < y.length ∧ isRaw y = true ∧ '"' ∈ y) := by
  unfold BashText
  by_cases hraw : isRaw y = true
  · rw [outValue_raw hraw] at h
    by_cases hq : '"' ∈ y
    · exact .inr ⟨(length_assignWord h).2 hq hb, hraw, hq⟩
    · rw [if_pos hraw]
      exact .inl (assignWord_unquoted hq h)
  · rw [outValue_string (by simpa using hraw) hn, assignWord, Bool.not_false] at h
    rw [if_neg hraw]
    exact .inl (assignWord_quoted hb h)

theorem backslashes_assigned {v y : Text} (hn : '\n' ∉ y) (h : assignWord m.login false (outValue y) = some v) :
    backslashes v ≤ backslashes y := by
  by_cases hraw : isRaw y = true
  · rw [outValue_raw hraw] at h
    exact backslashes_assignWord h
  · rw [outValue_string (by simpa using hraw) hn, assignWord, Bool.not_false] at h
    exact backslashes_quoted h

/-- The line that follows the value, if one does. -/
inductive NameFollows : Text → Prop
  | nothing : NameFollows []
  | name (x r : Text) (hx : IsKey x) : NameFollows (x ++ '\n' :: r)

theorem NameFollows.followedBy {t : Text} (h : NameFollows t) {g : Char → Nat}
    (hg : ∀ c, c.isAlphanum = true ∨ c = '_' → g c = 0) : FollowedBy g t := by
  cases h with
  | nothing => exact .nothing
  | name x r hx =>
    exact .line x r hx.1 (hx.not_mem (by decide)) (hx.not_mem (by decide)) (weight_eq_zero fun c hc => hg c (hx.2 c hc))

/-- Half of the backslashes are read at most. -/
theorem backslashes_read {y t e : Text} {ls : List Text} (ht : NameFollows t) (h : readLines (e ++ t) = y :: ls) :
    2 * backslashes y ≤ backslashes e := by
  have hread := weight_readFrom (f := fun c => if c = '\\' then 1 else 0)
    (g := fun c => (if c = '\\' then 1 else 0) + if c = '\\' then 1 else 0) (fun c => ?_) (fun c hc => ?_)
    (ht.followedBy fun c hc => ?_) h
  · rw [weight_add, List.map_nil, weight_nil, Nat.zero_add] at hread
    unfold backslashes
    omega
  · split <;> simp
  · simp [hc]
  · have hne : c ≠ '\\' := by
      rintro rfl
      revert hc
      decide
    simp [hne]

/-- Options in front make the text longer. -/
theorem length_options {opts rest : List Text} (hne : opts ≠ []) (hopts : ∀ w ∈ opts, w ≠ []) :
    (joinWords rest).length < (joinWords (opts ++ rest)).length := by
  obtain ⟨w, opts, rfl⟩ := List.exists_cons_of_ne_nil hne
  have hcons := weight_joinWords_cons (fun _ => 1) w (opts ++ rest)
  have happend := weight_joinWords_append (fun _ => 1) opts rest
  have hw := List.length_pos_iff.mpr (hopts w List.mem_cons_self)
  rw [weight_one, weight_one, weight_one] at hcons
  rw [weight_one, weight_one] at happend
  rw [List.cons_append]
  omega

/-- What is read for a value without backslashes: the value, if it is carried;
else other text, no longer or with a name at its end. -/
theorem read_cases {v y t : Text} {ls : List Text} (ht : NameFollows t)
    (hread : readLines (Sh.echo (splitWords v) ++ t) = y :: ls) (hb : '\\' ∉ v) :
    (Carried v ∧ y = v) ∨ (y ≠ v ∧ (y.length ≤ v.length ∨ ∃ x, IsKey x ∧ y.getLast? = x.getLast?)) := by
  have hwords : ∀ w ∈ splitWords v, IsWord w := fun w hw => isWord_of_mem hw
  have hjoin : backslashes (joinWords (splitWords v)) = 0 := by
    have hle : backslashes (joinWords (splitWords v)) ≤ backslashes v :=
      weight_joinWords_splitWords _ (fun c _ => Nat.zero_le _) v
    have hzero := backslashes_eq_zero.mpr hb
    omega
  have hlen : (joinWords (splitWords v)).length ≤ v.length := by
    rw [← weight_one, ← weight_one]
    exact weight_joinWords_splitWords _ (fun _ _ => le_rfl) v
  obtain ⟨opts, rest, newline, hws, hopts, hhead, hnl, hecho⟩ := echo_plain (backslashes_eq_zero.mp hjoin)
  have hrest : ∀ w ∈ rest, IsWord w := fun w hw => hwords w (hws ▸ List.mem_append_right opts hw)
  have hrestN : '\n' ∉ joinWords rest := not_mem_joinWords (by decide) fun w hw => (hrest w hw).not_mem rfl
  have hrestB : '\\' ∉ joinWords rest := by
    have := weight_joinWords_append (fun c => if c = '\\' then 1 else 0) opts rest
    rw [hws] at hjoin
    rw [← backslashes_eq_zero]
    unfold backslashes at hjoin ⊢
    omega
  have hlonger (hne : opts ≠ []) : (joinWords rest).length < v.length := by
    have hshort : (joinWords rest).length < (joinWords (opts ++ rest)).length :=
      length_options hne fun w hw => (hwords w (hws ▸ List.mem_append_left rest hw)).1
    rw [← hws] at hshort
    omega
  rw [hecho] at hread
  cases newline with
  | true =>
    have hy : y = joinWords rest := by
      rw [if_pos rfl, List.append_assoc, List.singleton_append,
        readLines_line (tight_joinWords hrest) hrestB hrestN] at hread
      exact (List.cons.inj hread).1.symm
    by_cases hne : opts = []
    · rw [hne, List.nil_append] at hws
      rw [hws, ← hy] at hlen
      by_cases hyv : y = v
      · exact .inl ⟨⟨by rw [hws, ← hy, hyv], hws ▸ hhead, hb⟩, hyv⟩
      · exact .inr ⟨hyv, .inl hlen⟩
    · have hlt := hlonger hne
      rw [← hy] at hlt
      exact .inr ⟨fun hyv => absurd (congrArg List.length hyv) hlt.ne, .inl hlt.le⟩
  | false =>
    have hne : opts ≠ [] := fun hnil => by cases hnl hnil
    rw [if_neg (by decide), List.append_nil] at hread
    cases ht with
    | nothing =>
      rw [List.append_nil, readLines, readFrom_unended hrestN] at hread
      cases hread
    | name x r hx =>
      have hy : y = joinWords rest ++ x := by
        rw [← List.append_assoc,
          readLines_line (tight_append (tight_joinWords hrest) (tight_of_isWord hx.isWord))] at hread
        · exact (List.cons.inj hread).1.symm
        · simp [hrestB, hx.not_mem (c := '\\') (by decide)]
        · simp [hrestN, hx.not_mem (c := '\n') (by decide)]
      refine .inr ⟨?_, .inr ⟨x, hx, by rw [hy, List.getLast?_append_of_ne_nil _ hx.1]⟩⟩
      -- the name is a word of the value, or part of one
      rintro rfl
      by_cases hnil : rest = []
      · subst hnil
        rw [joinWords_nil, List.nil_append] at hy
        subst hy
        rw [splitWords_of_isWord hx.isWord, List.append_nil] at hws
        have hoption := hopts y (hws ▸ List.mem_singleton_self y)
        rw [hx.notOption] at hoption
        cases hoption
      · have hcount := length_splitWords_append hnil hrest hx.isWord
        have hpos := List.length_pos_iff.mpr hne
        rw [← hy, hws, List.length_append] at hcount
        omega

theorem carried_of_assigned {v y t : Text} {ls : List Text} (ht : NameFollows t)
    (hread : readLines (Sh.echo (splitWords v) ++ t) = y :: ls) (h : assignWord m.login false (outValue y) = some v) :
    Carried v ∧ m.BashText v := by
  have hyn : '\n' ∉ y := readLines_noNewline (hread ▸ List.mem_cons_self)
  -- no backslash comes out, so there is none
  have hnone : backslashes y = 0 ∧ backslashes v = 0 := by
    have hout := backslashes_assigned hyn h
    have hhalf := backslashes_read ht hread
    have hecho := backslashes_echo v
    omega
  have hassigned := value_of_assigned hyn (backslashes_eq_zero.mp hnone.1) h
  rcases read_cases ht hread (backslashes_eq_zero.mp hnone.2) with ⟨hcarried, rfl⟩ | ⟨hne, hread⟩
  · rcases hassigned with ⟨-, htext⟩ | ⟨hlt, -, -⟩
    · exact ⟨hcarried, htext⟩
    · exact absurd hlt (lt_irrefl _)
  · rcases hassigned with ⟨hv, -⟩ | ⟨hlt, hraw, hq⟩
    · exact absurd hv.symm hne
    · -- the text ends with a bracket, not like a name
      rcases hread with hle | ⟨x, hx, hlast⟩
      · omega
      · have hbracket : x.getLast? = some '\x7d' ∨ x.getLast? = some ']' := hlast ▸ isRaw_quote hraw hq
        rcases hbracket with hb | hb
        · exact absurd (List.mem_of_mem_getLast? hb) (hx.not_mem (by decide))
        · exact absurd (List.mem_of_mem_getLast? hb) (hx.not_mem (by decide))

/-! ## All values -/

theorem nameFollows_pairLines {ps : List (Text × Text)} (h : ∀ p ∈ ps, IsKey p.1) : NameFollows (pairLines ps) := by
  cases ps with
  | nil => exact .nothing
  | cons p ps =>
    rw [pairLines_cons]
    exact .name p.1 _ (h p List.mem_cons_self)

/-- What is assigned to the first is its value; then it is carried, and so the
others are read from the line behind it. -/
theorem carried_of_assigns {ps : List (Text × Text)} (hnames : ∀ p ∈ ps, IsName p.1)
    (h : (pairUp (readLines (pairLines ps))).mapM (fun p => assignment m.login (bashLine p)) = some ps) :
    ∀ p ∈ ps, Carried p.2 ∧ m.BashText p.2 := by
  induction ps with
  | nil => exact fun p hp => by cases hp
  | cons p ps ih =>
    obtain ⟨x, v⟩ := p
    have hx : IsName x := hnames (x, v) List.mem_cons_self
    have hrest : ∀ p ∈ ps, IsName p.1 := fun p hp => hnames p (List.mem_cons_of_mem _ hp)
    have hfollows : NameFollows (pairLines ps) := nameFollows_pairLines fun p hp => (hrest p hp).isKey
    rw [pairLines_cons, (carried_of_isKey hx.isKey).readLines] at h
    cases hread : readLines (Sh.echo (splitWords v) ++ pairLines ps) with
    | nil =>
      rw [hread] at h
      cases h
    | cons y ls =>
      have hyn : '\n' ∉ y := readLines_noNewline (hread ▸ List.mem_cons_self)
      rw [hread, pairUp, if_neg hx.1, List.mapM_cons, assignment_bashLine hx hyn] at h
      cases hvalue : assignWord m.login false (outValue y) with
      | none =>
        rw [hvalue] at h
        cases h
      | some v' =>
        rw [hvalue] at h
        cases hpairs : (pairUp ls).mapM (fun p => assignment m.login (bashLine p)) with
        | none =>
          rw [hpairs] at h
          cases h
        | some ps' =>
          rw [hpairs] at h
          have hcons : (x, v') :: ps' = (x, v) :: ps := Option.some.inj h
          cases hcons
          obtain ⟨hcarried, htext⟩ := carried_of_assigned hfollows hread hvalue
          rw [(hcarried.read hread).2] at hpairs
          exact List.forall_mem_cons.mpr ⟨⟨hcarried, htext⟩, ih hrest hpairs⟩

theorem bash_clean (hin : m.Inert) (h : m.BashCorrect (m.getManifest .bash)) : m.BashClean := by
  rw [BashCorrect, source_getManifest, lines_eq (fun x => x) m.value (fun x hx => (m.isName x hx).isKey) hin.value] at h
  intro x hx
  refine carried_of_assigns (fun p hp => ?_) h (x, m.value x) (List.mem_map_of_mem hx)
  obtain ⟨y, hy, rfl⟩ := List.mem_map.mp hp
  exact m.isName y hy

end Manifest

end Agl.Setup
