/-
What the resolution of features computes, and when it ends.

`containsFeature` is meant to look a dependency up in the list collected so
far, and gets its first word for it: the first requested feature. So the
recursion is cut where it comes to that one and nowhere else. It ends if
every cycle of dependencies goes through it (`resolution_ends`), and the
cut loses nothing, since that feature is resolved in its own right
(`features_closure`).
-/
import Agl.Lib.Acyclic
import Agl.Lib.Loop
import Agl.Lib.ShellPath
import Agl.Setup.Features

namespace Agl.Setup

open Sh Relation

namespace Tree

variable {t : Tree} {args : List Text} {first f g : Text}

/-! ## Words -/

theorem expand_eq {s : Text} (h : ∀ w ∈ splitWords s, t.glob w = [w]) : t.expand s = splitWords s := Sh.expand_eq h

theorem isWord_of_resolved (h : t.Resolved args g) : IsWord g := by
  obtain ⟨f, hf, hfg⟩ := h
  rcases ReflTransGen.cases_tail hfg with rfl | ⟨e, -, text, -, hg⟩
  · exact isWord_of_mem hf
  · exact isWord_of_mem hg

theorem Plain.expand (h : t.Plain args) {s : Text} (hs : ∀ w ∈ splitWords s, t.Resolved args w) :
    t.expand s = splitWords s := expand_eq fun w hw => h w (hs w hw)

theorem Plain.expand_word (h : t.Plain args) (hg : t.Resolved args g) : t.expand g = [g] := by
  have hw := splitWords_of_isWord (isWord_of_resolved hg)
  rw [h.expand (fun w hmem => by rw [hw, List.mem_singleton] at hmem; rwa [hmem]), hw]

theorem Resolved.entry (h : t.Resolved args f) (hfg : t.Entry f g) : t.Resolved args g := by
  obtain ⟨e, he, hef⟩ := h
  exact ⟨e, he, hef.tail hfg⟩

theorem Resolved.entries (h : t.Resolved args f) (hfg : ReflTransGen t.Entry f g) : t.Resolved args g := by
  obtain ⟨e, he, hef⟩ := h
  exact ⟨e, he, hef.trans hfg⟩

/-! ## The cut -/

/-- An entry the recursion follows: not one for the first requested feature. -/
def Cut (t : Tree) (first f g : Text) : Prop := t.Entry f g ∧ g ≠ first

/-- What a call for the feature prints: the entries it comes to. -/
def Below (t : Tree) (first f g : Text) : Prop := ∃ e, ReflTransGen (t.Cut first) f e ∧ t.Entry e g

theorem Resolved.below (h : t.Resolved args f) (hg : t.Below first f g) : t.Resolved args g := by
  obtain ⟨e, hfe, heg⟩ := hg
  exact (h.entries (ReflTransGen.mono (fun _ _ h => h.1) _ _ hfe)).entry heg

/-- The entries of a feature, as `find_feature_dependency` reads them. -/
def deps (t : Tree) (f : Text) : List Text :=
  match t.included.lookup f with
  | none => []
  | some text => splitWords text

theorem mem_deps : g ∈ t.deps f ↔ t.Entry f g := by
  unfold deps Entry
  split
  · next hnone => simp [hnone]
  · next text hsome => simp [hsome]

/-- The entries it calls itself for. -/
def next (t : Tree) (first f : Text) : List Text := (t.deps f).filter fun g => g ≠ first

theorem mem_next : g ∈ t.next first f ↔ t.Cut first f g := by
  simp only [next, List.mem_filter, mem_deps, decide_eq_true_eq, Cut]

/-- `n` nested calls are enough for the feature. -/
def Enough (t : Tree) (first : Text) : Nat → Text → Prop
  | 0, _ => False
  | n + 1, f => ∀ g ∈ t.next first f, Enough t first n g

theorem not_enough_zero (f : Text) : ¬ t.Enough first 0 f := id

theorem enough_succ (n : Nat) (f : Text) : t.Enough first (n + 1) f ↔ ∀ g ∈ t.next first f, t.Enough first n g := .rfl

/-- First the entry, then what is below it. -/
theorem below_iff : t.Below first f g ↔ ∃ e, t.Entry f e ∧ (g = e ∨ e ≠ first ∧ t.Below first e g) := by
  constructor
  · intro h
    obtain ⟨e, hfe, heg⟩ := h
    rcases ReflTransGen.cases_head hfe with rfl | ⟨d, hfd, hde⟩
    · exact ⟨g, heg, .inl rfl⟩
    · exact ⟨d, hfd.1, .inr ⟨hfd.2, e, hde, heg⟩⟩
  · rintro ⟨e, hfe, rfl | ⟨hne, d, hed, hdg⟩⟩
    · exact ⟨f, .refl, hfe⟩
    · exact ⟨d, .head ⟨hfe, hne⟩ hed, hdg⟩

/-! ## A call -/

/-- What a call does, nested `n` deep: it returns if that is enough, and
prints what is below its feature. -/
def Calls (t : Tree) (args : List Text) (first : Text) (n : Nat) (call : List Text → Option Text) : Prop :=
  ∀ words f, t.Resolved args f → arg words 1 = f → arg words 2 = first →
    ((call words).isSome ↔ t.Enough first n f) ∧
      ∀ out, call words = some out → ∀ g, g ∈ splitWords out ↔ t.Below first f g

/-- The variables in the loop: the words are resolved features, the first
requested one in front. -/
structure LoopInv (t : Tree) (args : List Text) (first : Text) (v : Locals) : Prop where
  full : ∀ g ∈ splitWords v.fullFeature, t.Resolved args g
  head : ∃ rest, splitWords v.fullFeature = first :: rest
  res : ∀ g ∈ splitWords v.resDepFeatures, t.Resolved args g
  noOption : isEchoOption v.resDepFeatures = false

theorem LoopInv.visit {n : Nat} {call : List Text → Option Text} {v : Locals} (hp : t.Plain args)
    (hcall : t.Calls args first n call) (hv : t.LoopInv args first v) (hf : t.Resolved args f) :
    ((t.visit call v f).isSome ↔ (f ≠ first → t.Enough first n f)) ∧
      ∀ v', t.visit call v f = some v' → t.LoopInv args first v' ∧
        ∀ g, g ∈ splitWords v'.resDepFeatures ↔
          g ∈ splitWords v.resDepFeatures ∨ g = f ∨ f ≠ first ∧ t.Below first f g := by
  obtain ⟨rest, hhead⟩ := hv.head
  have hword := splitWords_of_isWord (isWord_of_resolved hf)
  -- the words of the two variables after the first two assignments
  have hfull : splitWords (v.fullFeature ++ ' ' :: v.resDepFeatures) =
      first :: (rest ++ splitWords v.resDepFeatures) := by
    rw [splitWords_append_blank _ _ rfl, hhead, List.cons_append]
  have hfullR : ∀ g ∈ splitWords (v.fullFeature ++ ' ' :: v.resDepFeatures), t.Resolved args g := by
    intro g hg
    rw [splitWords_append_blank _ _ rfl] at hg
    exact (List.mem_append.mp hg).elim (hv.full g) (hv.res g)
  have hres : splitWords (v.resDepFeatures ++ ' ' :: f) = splitWords v.resDepFeatures ++ [f] := by
    rw [splitWords_append_blank _ _ rfl, hword]
  have hargs : t.expand f ++ t.expand (v.fullFeature ++ ' ' :: v.resDepFeatures) =
      f :: first :: (rest ++ splitWords v.resDepFeatures) := by
    rw [hp.expand_word hf, hp.expand hfullR, hfull, List.singleton_append]
  have hcontains : t.containsFeature (f :: first :: (rest ++ splitWords v.resDepFeatures)) = true ↔ f ≠ first := by
    have hexp : t.expand (arg (f :: first :: (rest ++ splitWords v.resDepFeatures)) 1) = [f] := hp.expand_word hf
    have harg : arg (f :: first :: (rest ++ splitWords v.resDepFeatures)) 2 = first := rfl
    rw [containsFeature, hexp, harg, Bool.not_eq_true', ← Bool.not_eq_true, List.contains_iff_mem, List.mem_singleton]
    exact ne_comm
  have hblank : ' ' ∈ v.resDepFeatures ++ ' ' :: f := by simp
  unfold Tree.visit
  simp only [hargs]
  by_cases hne : f = first
  · rw [if_neg (fun h => hcontains.mp h hne)]
    refine ⟨by simp [hne], fun v' hv' => ?_⟩
    cases hv'
    refine ⟨⟨hfullR, ⟨_, hfull⟩, fun g hg => ?_, isEchoOption_of_mem hblank rfl⟩, fun g => ?_⟩
    · rw [hres] at hg
      rcases List.mem_append.mp hg with hg | hg
      · exact hv.res g hg
      · rw [List.mem_singleton.mp hg]
        exact hf
    · rw [hres, List.mem_append, List.mem_singleton]
      simp only [hne, ne_eq, not_true_eq_false, false_and, or_false]
  · rw [if_pos (hcontains.mpr hne)]
    obtain ⟨hsome, hout⟩ := hcall (f :: first :: (rest ++ splitWords v.resDepFeatures)) f hf rfl rfl
    refine ⟨by simp [hsome, hne], fun v' hv' => ?_⟩
    obtain ⟨out, hcallout, rfl⟩ := Option.map_eq_some_iff.mp hv'
    have hbelow := hout out hcallout
    have hres' : splitWords (v.resDepFeatures ++ ' ' :: f ++ ' ' :: capture out) =
        splitWords v.resDepFeatures ++ [f] ++ splitWords out := by
      rw [splitWords_append_blank _ _ rfl, hres, splitWords_capture]
    refine ⟨⟨hfullR, ⟨_, hfull⟩, fun g hg => ?_, isEchoOption_of_mem (List.mem_append_left _ hblank) rfl⟩, fun g => ?_⟩
    · rw [hres'] at hg
      simp only [List.mem_append, List.mem_singleton, hbelow] at hg
      rcases hg with (hg | rfl) | hg
      · exact hv.res g hg
      · exact hf
      · exact hf.below hg
    · rw [hres', List.mem_append, List.mem_append, List.mem_singleton, hbelow, or_assoc]
      simp only [hne, ne_eq, not_false_eq_true, true_and]

theorem calls_find (hp : t.Plain args) (hfirst : t.Resolved args first) (n : Nat) :
    t.Calls args first n (t.findFeatureDependency n) := by
  induction n with
  | zero =>
    intro words f _ _ _
    exact ⟨by simp [findFeatureDependency, Enough], fun out hout => by cases hout⟩
  | succ n ih =>
    intro words f hf hf1 hf2
    have hdep : t.includedDep (arg words 1) = t.included.lookup f := by
      rw [hf1, includedDep, hp.expand_word hf]
      rfl
    have henough : t.Enough first (n + 1) f ↔ ∀ g ∈ t.deps f, g ≠ first → t.Enough first n g := by
      simp only [Enough, next, List.mem_filter, decide_eq_true_eq, and_imp]
    rw [findFeatureDependency, hdep]
    cases hlookup : t.included.lookup f with
    | none =>
      have hnone : t.deps f = [] := by rw [deps, hlookup]
      refine ⟨by simp [henough, hnone], fun out hout g => ?_⟩
      cases hout
      rw [echo_of_word rfl, splitWords_append_blank _ _ rfl, below_iff]
      simp only [← mem_deps, hnone, List.not_mem_nil, false_and, exists_false, splitWords_nil, List.append_nil]
    | some text =>
      have hdeps : t.deps f = splitWords (capture text) := by rw [deps, hlookup, splitWords_capture]
      have hdepsR : ∀ g ∈ splitWords (capture text), t.Resolved args g := fun g hg =>
        hf.entry (mem_deps.mp (hdeps ▸ hg))
      have hword := splitWords_of_isWord (isWord_of_resolved hfirst)
      have hinit : t.LoopInv args first ⟨arg words 2, []⟩ := by
        rw [hf2]
        exact ⟨fun g hg => (by rw [hword, List.mem_singleton] at hg; rwa [hg]), ⟨[], hword⟩,
          fun g hg => (by cases hg), rfl⟩
      have hround (v : Locals) (g : Text) (hg : g ∈ splitWords (capture text)) (hv : t.LoopInv args first v) :=
        hv.visit hp ih (hdepsR g hg)
      obtain ⟨hsome, hloop⟩ := Loop.foldlM_collects hround hinit
      dsimp only
      rw [hp.expand hdepsR]
      refine ⟨by rw [Option.isSome_map, hsome, henough, hdeps], fun out hout g => ?_⟩
      obtain ⟨v, hv, rfl⟩ := Option.map_eq_some_iff.mp hout
      obtain ⟨hinv, hall⟩ := hloop v hv
      rw [echo_of_word hinv.noOption, splitWords_append_blank _ _ rfl, splitWords_nil, List.append_nil, hall g,
        below_iff]
      simp only [splitWords_nil, List.not_mem_nil, false_or, ← hdeps, mem_deps]

/-! ## All requested features -/

/-- `TMP_FEATURES` in its loop. -/
structure TmpInv (t : Tree) (args : List Text) (first tmp : Text) : Prop where
  words : ∀ g ∈ splitWords tmp, t.Resolved args g
  head : ∃ rest, splitWords tmp = first :: rest

theorem addFeature_spec (fuel : Nat) (tmp : Text) (hp : t.Plain args) (hfirst : t.Resolved args first)
    (htmp : ∀ g ∈ splitWords tmp, t.Resolved args g) (hf : t.Resolved args f)
    (hhead : ∃ rest, splitWords tmp ++ [f] = first :: rest) :
    ((t.addFeature fuel tmp f).isSome ↔ t.Enough first fuel f) ∧
      ∀ tmp', t.addFeature fuel tmp f = some tmp' → t.TmpInv args first tmp' ∧
        ∀ g, g ∈ splitWords tmp' ↔ g ∈ splitWords tmp ∨ g = f ∨ t.Below first f g := by
  obtain ⟨rest, hrest⟩ := hhead
  have hwords : splitWords (tmp ++ ' ' :: f) = splitWords tmp ++ [f] := by
    rw [splitWords_append_blank _ _ rfl, splitWords_of_isWord (isWord_of_resolved hf)]
  have hwordsR : ∀ g ∈ splitWords (tmp ++ ' ' :: f), t.Resolved args g := by
    intro g hg
    rw [hwords, List.mem_append, List.mem_singleton] at hg
    exact hg.elim (htmp g) fun h => h ▸ hf
  unfold addFeature
  dsimp only
  rw [hp.expand_word hf, hp.expand hwordsR, hwords, hrest, List.singleton_append]
  obtain ⟨hsome, hout⟩ := calls_find hp hfirst fuel (f :: first :: rest) f hf rfl rfl
  refine ⟨by rw [Option.isSome_map, hsome], fun tmp' htmp' => ?_⟩
  obtain ⟨out, hcall, rfl⟩ := Option.map_eq_some_iff.mp htmp'
  have hall : splitWords (tmp ++ ' ' :: f ++ ' ' :: capture out) = splitWords tmp ++ [f] ++ splitWords out := by
    rw [splitWords_append_blank _ _ rfl, hwords, splitWords_capture]
  refine ⟨⟨fun g hg => ?_, ?_⟩, fun g => ?_⟩
  · rw [hall, List.mem_append, hout out hcall g] at hg
    exact hg.elim (fun hg => hwordsR g (hwords ▸ hg)) hf.below
  · rw [hall, hrest]
    exact ⟨_, rfl⟩
  · rw [hall, List.mem_append, List.mem_append, List.mem_singleton, hout out hcall g, or_assoc]

/-- The first requested feature; the recursion is cut there. -/
def firstRequested (args : List Text) : Text := arg (requested args) 1

theorem firstRequested_mem (hf : f ∈ requested args) : firstRequested args ∈ requested args := by
  unfold firstRequested
  cases hreq : requested args with
  | nil =>
    rw [hreq] at hf
    cases hf
  | cons first rest => exact List.mem_cons_self

/-- The cut loses nothing: what is behind the first requested feature is
resolved from there. -/
theorem Resolved.cut (h : t.Resolved args g) :
    ∃ f ∈ requested args, ReflTransGen (t.Cut (firstRequested args)) f g := by
  obtain ⟨f, hf, hfg⟩ := h
  induction hfg with
  | refl => exact ⟨f, hf, .refl⟩
  | @tail b c _ hbc ih =>
    by_cases hc : c = firstRequested args
    · exact ⟨c, hc ▸ firstRequested_mem hf, .refl⟩
    · obtain ⟨e, he, heb⟩ := ih
      exact ⟨e, he, heb.tail ⟨hbc, hc⟩⟩

theorem resolved_iff : t.Resolved args g ↔ ∃ f ∈ requested args, g = f ∨ t.Below (firstRequested args) f g := by
  constructor
  · intro h
    obtain ⟨e, he, heg⟩ := h.cut
    rcases ReflTransGen.cases_tail heg with rfl | ⟨d, hed, hdg⟩
    · exact ⟨g, he, .inl rfl⟩
    · exact ⟨e, he, .inr ⟨d, hed, hdg.1⟩⟩
  · rintro ⟨f, hf, rfl | hbelow⟩
    · exact ⟨g, hf, .refl⟩
    · exact Resolved.below ⟨f, hf, .refl⟩ hbelow

theorem tmpFeatures_spec (fuel : Nat) (hp : t.Plain args) :
    ((t.tmpFeatures fuel (joinWords args)).isSome ↔
      ∀ f ∈ requested args, t.Enough (firstRequested args) fuel f) ∧
      ∀ tmp, t.tmpFeatures fuel (joinWords args) = some tmp → ∀ g, g ∈ splitWords tmp ↔ t.Resolved args g := by
  have hmem (f : Text) (hf : f ∈ requested args) : t.Resolved args f := ⟨f, hf, .refl⟩
  have hexpand : t.expand (joinWords args) = requested args := hp.expand hmem
  simp only [resolved_iff]
  rw [tmpFeatures, hexpand]
  unfold firstRequested
  cases hreq : requested args with
  | nil =>
    refine ⟨by simp, fun tmp htmp => ?_⟩
    cases htmp
    simp
  | cons first rest =>
    have hfirst : t.Resolved args first := hmem first (hreq ▸ List.mem_cons_self)
    obtain ⟨hsome₁, hadd₁⟩ := addFeature_spec fuel [] hp hfirst (fun g hg => by cases hg) hfirst ⟨[], rfl⟩
    rw [List.foldlM_cons, List.forall_mem_cons, show arg (first :: rest) 1 = first from rfl, ← hsome₁]
    cases hround₁ : t.addFeature fuel [] first with
    | none => exact ⟨by simp, fun tmp htmp => by cases htmp⟩
    | some tmp₁ =>
      obtain ⟨hinv₁, hwords₁⟩ := hadd₁ tmp₁ hround₁
      have hround (tmp f : Text) (hf : f ∈ rest) (htmp : t.TmpInv args first tmp) :=
        addFeature_spec fuel tmp hp hfirst htmp.words (hmem f (hreq ▸ List.mem_cons_of_mem first hf))
          (htmp.head.elim fun ws hws => ⟨ws ++ [f], by rw [hws, List.cons_append]⟩)
      obtain ⟨hsome, hloop⟩ := Loop.foldlM_collects hround hinv₁
      refine ⟨?_, fun tmp htmp g => ?_⟩
      · change (rest.foldlM (t.addFeature fuel) tmp₁).isSome = true ↔ _
        rw [hsome]
        simp
      · rw [(hloop tmp htmp).2 g, hwords₁ g]
        simp only [splitWords_nil, List.not_mem_nil, false_or, List.mem_cons, exists_eq_or_imp]

/-! ## When it ends -/

theorem finite_cut (t : Tree) (first : Text) : {f | ∃ g, t.Cut first f g}.Finite := by
  refine (List.finite_toSet (t.included.map Prod.fst)).subset fun f hf => ?_
  obtain ⟨g, ⟨text, hlookup, -⟩, -⟩ := hf
  obtain ⟨e, he, hfe⟩ := List.lookup_isSome_iff.mp (Option.isSome_of_eq_some hlookup)
  exact List.mem_map.mpr ⟨e, he, (beq_iff_eq.mp hfe).symm⟩

/-- Some number of nested calls is enough where no cycle is met. -/
theorem enough_iff_acyclic : (∃ n, t.Enough first n f) ↔ Acyclic (t.Cut first) f := by
  have hrel : (fun a b => b ∈ t.next first a) = t.Cut first := by
    funext a b
    exact propext mem_next
  rw [← acc_iff_acyclic (t.finite_cut first), ← hrel]
  exact fuel_iff_acc not_enough_zero enough_succ

theorem computes_iff_enough (hp : t.Plain args) :
    (∃ features, t.Computes args features) ↔ ∀ f ∈ requested args, ∃ n, t.Enough (firstRequested args) n f := by
  have hsome (fuel : Nat) :
      (t.featuresOf fuel args).isSome ↔ ∀ f ∈ requested args, t.Enough (firstRequested args) fuel f := by
    rw [featuresOf, Option.isSome_map]
    exact (tmpFeatures_spec fuel hp).1
  constructor
  · intro h f hf
    obtain ⟨features, fuel, hfeatures⟩ := h
    exact ⟨fuel, (hsome fuel).mp (Option.isSome_of_eq_some hfeatures) f hf⟩
  · intro h
    obtain ⟨fuel, hfuel⟩ := fuel_forall not_enough_zero enough_succ h
    obtain ⟨features, hfeatures⟩ := Option.isSome_iff_exists.mp ((hsome fuel).mpr hfuel)
    exact ⟨features, fuel, hfeatures⟩

/-- **When the resolution ends.** For every set of `included.dep` files and
every request: it ends if and only if no cycle of dependencies that can be
reached avoids the first requested feature. -/
theorem resolution_ends (hp : t.Plain args) :
    (∃ features, t.Computes args features) ↔
      ∀ f, t.Resolved args f → ¬ TransGen (t.Cut (firstRequested args)) f f := by
  rw [computes_iff_enough hp]
  simp only [enough_iff_acyclic]
  constructor
  · intro h f hf
    obtain ⟨e, he, hef⟩ := hf.cut
    exact h e he f hef
  · intro h f hf g hfg
    exact h g (Resolved.entries ⟨f, hf, .refl⟩ (ReflTransGen.mono (fun _ _ h => h.1) _ _ hfg))

/-! ## What it computes -/

theorem mem_sortU {ls : List Text} {l : Text} : l ∈ sortU ls ↔ l ∈ ls := by
  rw [sortU, (List.perm_insertionSort _ _).mem_iff, List.mem_dedup]

theorem nodup_sortU (ls : List Text) : (sortU ls).Nodup :=
  (List.perm_insertionSort _ _).nodup_iff.mpr (List.nodup_dedup ls)

/-- Sorting forgets the order and the repetitions. -/
theorem sortU_congr {ls ls' : List Text} (h : ∀ l, l ∈ ls ↔ l ∈ ls') : sortU ls = sortU ls' := by
  refine insertionSort_congr ((List.perm_ext_iff_of_nodup (List.nodup_dedup ls) (List.nodup_dedup ls')).mpr fun l => ?_)
  rw [List.mem_dedup, List.mem_dedup, h l]

/-- The words of what `awk` prints of lines of one word or none. -/
theorem splitWords_awk {ls : List Text} (h : ∀ l ∈ ls, l = [] ∨ IsWord l) :
    splitWords (awk ls) = ls.filter fun l => l ≠ [] := by
  induction ls with
  | nil => rfl
  | cons l ls ih =>
    have ih := ih fun k hk => h k (List.mem_cons_of_mem l hk)
    rw [awk] at ih ⊢
    rw [List.flatMap_cons, List.append_assoc, List.singleton_append, splitWords_append_blank _ _ rfl, ih]
    rcases h l List.mem_cons_self with rfl | hl
    · rfl
    · rw [splitWords_of_isWord hl, List.filter_cons_of_pos (by simpa using hl.1)]
      exact congrArg (· ++ _) (splitWords_of_isWord hl)

/-- The text is made of the resolved features, in whatever order they are found. -/
theorem Computes.eq {features : Text} (hp : t.Plain args) (h : t.Computes args features) :
    ∃ ws : List Text, (∀ g, g ∈ ws ↔ t.Resolved args g) ∧ features = capture (awk (sortU (ws.flatMap echoLines))) := by
  obtain ⟨fuel, hfuel⟩ := h
  obtain ⟨tmp, htmp, rfl⟩ := Option.map_eq_some_iff.mp hfuel
  have hmem := (tmpFeatures_spec fuel hp).2 tmp htmp
  refine ⟨splitWords tmp, hmem, ?_⟩
  have hwords : ∀ w ∈ splitWords tmp, IsWord w := fun w hw => isWord_of_mem hw
  have hecho : ((t.expand tmp).flatMap fun x => echo (t.expand x)) = (splitWords tmp).flatMap fun x => echo [x] := by
    rw [hp.expand fun w hw => (hmem w).mp hw]
    exact List.flatMap_congr fun x hx => by rw [hp.expand_word ((hmem x).mp hx)]
  rw [hecho, lines_flatMap_echo hwords]

/-- What `FEATURES` holds: the resolved features that are no options of `echo`. -/
theorem Computes.words {features : Text} (hp : t.Plain args) (h : t.Computes args features) :
    (splitWords features).Nodup ∧ ∀ g, g ∈ splitWords features ↔ t.Resolved args g ∧ isEchoOption g = false := by
  obtain ⟨ws, hws, rfl⟩ := h.eq hp
  have hwords : ∀ l ∈ sortU (ws.flatMap echoLines), l = [] ∨ IsWord l := by
    intro l hl
    obtain ⟨w, hw, hlw⟩ := List.mem_flatMap.mp (mem_sortU.mp hl)
    rcases mem_echoLines hlw with rfl | ⟨rfl, -⟩
    · exact .inl rfl
    · exact .inr (isWord_of_resolved ((hws l).mp hw))
  rw [splitWords_capture, splitWords_awk hwords]
  refine ⟨(nodup_sortU _).filter _, fun g => ?_⟩
  rw [List.mem_filter, mem_sortU, List.mem_flatMap, decide_eq_true_eq]
  constructor
  · rintro ⟨⟨w, hw, hgw⟩, hne⟩
    obtain ⟨rfl, hopt⟩ := (mem_echoLines hgw).resolve_left hne
    exact ⟨(hws g).mp hw, hopt⟩
  · rintro ⟨hg, hopt⟩
    exact ⟨⟨g, (hws g).mpr hg, by simp [echoLines, hopt]⟩, (isWord_of_resolved hg).1⟩

theorem resolved_congr {args' : List Text} (h : ∀ f, f ∈ requested args' ↔ f ∈ requested args) :
    t.Resolved args' g ↔ t.Resolved args g := by
  simp only [Resolved, h]

/-- Order and repetition of the requests do not matter. -/
theorem Computes.congr {args' : List Text} {features features' : Text} (hp : t.Plain args)
    (hsame : ∀ f, f ∈ requested args' ↔ f ∈ requested args) (h : t.Computes args features)
    (h' : t.Computes args' features') : features' = features := by
  obtain ⟨ws, hws, rfl⟩ := h.eq hp
  obtain ⟨ws', hws', rfl⟩ := h'.eq fun g hg => hp g ((resolved_congr hsame).mp hg)
  have hmem (g : Text) : g ∈ ws' ↔ g ∈ ws := by rw [hws, hws', resolved_congr hsame]
  have hlines : sortU (ws'.flatMap echoLines) = sortU (ws.flatMap echoLines) := by
    refine sortU_congr fun l => ?_
    simp only [List.mem_flatMap, hmem]
  rw [hlines]

theorem computes_of_acyclic (hp : t.Plain args) (hac : ∀ f, ¬ TransGen t.Entry f f) :
    ∃ features, t.Computes args features :=
  (computes_iff_enough hp).mpr fun _ _ => enough_iff_acyclic.mpr fun g _ hg =>
    hac g (TransGen.mono (fun _ _ h => h.1) _ _ hg)

/-- The features reachable from the requested ones, each once, however they
are requested. -/
structure Closure (t : Tree) (args : List Text) (features : Text) : Prop where
  once : (splitWords features).Nodup
  mem : ∀ g, g ∈ splitWords features ↔ t.Resolved args g
  order : ∀ args', (∀ f, f ∈ requested args' ↔ f ∈ requested args) →
    ∀ features', t.Computes args' features' ↔ features' = features

/-- **What the resolution computes.** For every acyclic set of
`included.dep` files and every request: `FEATURES` is the closure of the
requested features if and only if none of those has a name that `echo` takes
for its options. -/
theorem features_closure (hp : t.Plain args) (hac : ∀ f, ¬ TransGen t.Entry f f) :
    (∃ features, t.Computes args features ∧ t.Closure args features) ↔
      ∀ g, t.Resolved args g → isEchoOption g = false := by
  constructor
  · rintro ⟨features, h, hclosure⟩ g hg
    exact (((h.words hp).2 g).mp ((hclosure.mem g).mpr hg)).2
  · intro hopt
    obtain ⟨features, h⟩ := computes_of_acyclic hp hac
    obtain ⟨hnodup, hmem⟩ := h.words hp
    refine ⟨features, h, hnodup, fun g => ?_, fun args' hsame features' => ⟨h.congr hp hsame, ?_⟩⟩
    · rw [hmem g]
      exact ⟨fun hg => hg.1, fun hg => ⟨hg, hopt g hg⟩⟩
    · rintro rfl
      obtain ⟨features₂, h₂⟩ := computes_of_acyclic (fun g hg => hp g ((resolved_congr hsame).mp hg)) hac
      exact h.congr hp hsame h₂ ▸ h₂

/-! ## Small trees -/

theorem Entry.mem (h : t.Entry f g) : ∃ p ∈ t.included, p.1 = f ∧ g ∈ splitWords p.2 := by
  obtain ⟨text, hlookup, hg⟩ := h
  obtain ⟨l₁, l₂, hl, -⟩ := List.lookup_eq_some_iff.mp hlookup
  exact ⟨(f, text), hl ▸ List.mem_append_right l₁ List.mem_cons_self, rfl, hg⟩

theorem acyclic_of_lt {R : Text → Text → Prop} (h : ∀ f g, R f g → f < g) (f : Text) : ¬ TransGen R f f := by
  have hlt {f g : Text} (hfg : TransGen R f g) : f < g := by
    induction hfg with
    | single hfg => exact h _ _ hfg
    | tail _ hgk ih => exact ih.trans (h _ _ hgk)
  exact fun hff => lt_irrefl _ (hlt hff)

/-- The feature `a` includes `b`; no name is a pattern. -/
def oneEntry : Tree where
  included := [(['a'], ['b', '\n'])]
  glob w := [w]

theorem oneEntry_entry : oneEntry.Entry f g ↔ f = ['a'] ∧ g = ['b'] := by
  have hlookup : oneEntry.included.lookup f = if f = ['a'] then some ['b', '\n'] else none := by
    by_cases hf : f = ['a']
    · rw [hf]
      rfl
    · have hne : (f == ['a']) = false := beq_eq_false_iff_ne.mpr hf
      rw [if_neg hf, oneEntry, List.lookup_cons, hne]
      rfl
  constructor
  · rintro ⟨text, htext, hg⟩
    rw [hlookup] at htext
    split at htext
    · next hf =>
      cases htext
      exact ⟨hf, List.mem_singleton.mp (show g ∈ [['b']] from hg)⟩
    · cases htext
  · rintro ⟨rfl, rfl⟩
    exact ⟨['b', '\n'], rfl, by decide⟩

theorem oneEntry_acyclic (f : Text) : ¬ TransGen oneEntry.Entry f f := by
  refine acyclic_of_lt (fun f g hfg => ?_) f
  obtain ⟨rfl, rfl⟩ := oneEntry_entry.mp hfg
  decide

theorem resolved_oneEntry (h : oneEntry.Resolved [['a']] g) : g = ['a'] ∨ g = ['b'] := by
  obtain ⟨f, hf, hfg⟩ := h
  rcases ReflTransGen.cases_tail hfg with rfl | ⟨e, -, heg⟩
  · exact .inl (List.mem_singleton.mp (show g ∈ [['a']] from hf))
  · exact .inr (oneEntry_entry.mp heg).2

/-- The feature `a` includes `b` and `c`, which both include `d`. -/
def diamond : Tree where
  included := [(['a'], "b c\n".toList), (['b'], "d\n".toList), (['c'], "d\n".toList)]
  glob w := [w]

theorem features_closure_diamond :
    ∃ features, diamond.Computes ["a".toList] features ∧ diamond.Closure ["a".toList] features := by
  have hlt : ∀ p ∈ diamond.included, ∀ g ∈ splitWords p.2, p.1 < g := by decide
  have hopt : ∀ p ∈ diamond.included, ∀ g ∈ splitWords p.2, isEchoOption g = false := by decide
  refine (features_closure (fun _ _ => rfl) (acyclic_of_lt fun f g hfg => ?_)).mpr fun g hg => ?_
  · obtain ⟨p, hp, rfl, hg⟩ := hfg.mem
    exact hlt p hp g hg
  · obtain ⟨f, hf, hfg⟩ := hg
    rcases ReflTransGen.cases_tail hfg with rfl | ⟨e, -, heg⟩
    · obtain rfl : g = ['a'] := List.mem_singleton.mp (show g ∈ [['a']] from hf)
      rfl
    · obtain ⟨p, hp, -, hg⟩ := heg.mem
      exact hopt p hp g hg

/-- The feature `a` includes `b`, which includes `a` again, and `c`. -/
def loop : Tree where
  included := [(['a'], "b\n".toList), (['b'], "a c\n".toList)]
  glob w := [w]

/-- The cycle is cut at the requested feature. -/
theorem resolution_ends_loop : TransGen loop.Entry ['a'] ['a'] ∧ ∃ features, loop.Computes ["a".toList] features := by
  have hlt : ∀ p ∈ loop.included, ∀ g ∈ splitWords p.2, g ≠ ['a'] → p.1 < g := by decide
  refine ⟨.tail (.single ⟨_, rfl, List.mem_singleton_self ['b']⟩) ⟨_, rfl, List.mem_cons_self⟩, ?_⟩
  refine (resolution_ends fun _ _ => rfl).mpr fun f _ => acyclic_of_lt (fun f g hfg => ?_) f
  obtain ⟨p, hp, rfl, hg⟩ := hfg.1.mem
  exact hlt p hp g hg hfg.2

/-- No feature includes another. -/
def noEntry : Tree where
  included := []
  glob w := [w]

/-- A feature with the name of an option is not resolved: `echo -n` prints
nothing. -/
theorem optionName_lost :
    (∀ f, ¬ TransGen noEntry.Entry f f) ∧
      ¬ ∃ features, noEntry.Computes [['-', 'n']] features ∧ noEntry.Closure [['-', 'n']] features := by
  refine ⟨fun f h => ?_, ?_⟩
  · obtain ⟨g, ⟨text, htext, -⟩, -⟩ := TransGen.head'_iff.mp h
    cases htext
  · rintro ⟨features, h, hclosure⟩
    have hreq : noEntry.Resolved [['-', 'n']] ['-', 'n'] := ⟨['-', 'n'], by decide, .refl⟩
    have hmem := (hclosure.mem _).mpr hreq
    exact absurd (((h.words fun _ _ => rfl).2 _).mp hmem).2 (by decide)

/-- The feature `x` includes `a`, which is in a cycle with `b`. -/
def cycle : Tree where
  included := [(['x'], ['a']), (['a'], ['b']), (['b'], ['a'])]
  glob w := [w]

/-- A cycle of two after the requested feature: no number of nested calls is
enough. -/
theorem cycle_runs : ¬ ∃ features, cycle.Computes [['x']] features := by
  rw [computes_iff_enough fun _ _ => rfl]
  intro h
  have hac := enough_iff_acyclic.mp (h ['x'] (by decide))
  have hxa : cycle.Cut ['x'] ['x'] ['a'] := ⟨⟨['a'], rfl, by decide⟩, by decide⟩
  have hab : cycle.Cut ['x'] ['a'] ['b'] := ⟨⟨['b'], rfl, by decide⟩, by decide⟩
  have hba : cycle.Cut ['x'] ['b'] ['a'] := ⟨⟨['a'], rfl, by decide⟩, by decide⟩
  exact hac ['a'] (.single hxa) (.tail (.single hab) hba)

end Tree

end Agl.Setup
