/-
The checks and the search agree: where the checks are passed, every template
that is looked for is the only one of its name, in whatever order the
repositories are searched (`setup_generates`).

All text here is made of plain words, which the shell leaves as they are; so
the functions come to lists of names, and `sort | uniq -c` to `Nodup`.
-/
import Mathlib.Data.List.Pairwise
import Agl.Setup.Search

namespace Agl.Setup

open Sh Relation

/-! ## Plain words -/

/-- A part of a plain path. -/
structure IsTail (s : Text) : Prop where
  blank : ∀ c ∈ s, isBlank c = false
  colon : ':' ∉ s
  literal : ∀ c ∈ s, isPatternChar c = false

instance (s : Text) : Decidable (IsTail s) :=
  decidable_of_iff ((∀ c ∈ s, isBlank c = false) ∧ ':' ∉ s ∧ ∀ c ∈ s, isPatternChar c = false)
    ⟨fun h => ⟨h.1, h.2.1, h.2.2⟩, fun h => ⟨h.blank, h.colon, h.literal⟩⟩

theorem IsPlain.isTail {p : Text} (h : IsPlain p) : IsTail p := ⟨h.path.1.2, h.path.2, h.literal⟩

theorem isTail_append {s t : Text} (hs : IsTail s) (ht : IsTail t) : IsTail (s ++ t) where
  blank := List.forall_mem_append.mpr ⟨hs.blank, ht.blank⟩
  colon := by simp [hs.colon, ht.colon]
  literal := List.forall_mem_append.mpr ⟨hs.literal, ht.literal⟩

theorem isTail_child {d n : Text} (hd : IsTail d) (hn : IsTail n) : IsTail (child d n) :=
  isTail_append hd (isTail_append (show IsTail ['/'] by decide) hn)

/-- A slash keeps it from being an option. -/
theorem isPlain_child {d n : Text} (hd : IsTail d) (hn : IsTail n) : IsPlain (child d n) where
  path := ⟨⟨by simp [child], (isTail_child hd hn).blank⟩, (isTail_child hd hn).colon⟩
  literal := (isTail_child hd hn).literal
  echo := isEchoOption_of_mem (c := '/') (by simp [child]) (by decide)

theorem child_inj {d n m : Text} (h : child d n = child d m) : n = m :=
  List.cons_injective (List.append_cancel_left h)

/-! ## When the files are made -/

namespace Checkout

variable {t : Checkout} {args ws ds : List Text} {machine features dir : Text} {v : Vars} {kind : Kind}

theorem Holds.fragmentsOf (hv : t.Holds ds v) (h : t.InertDir dir) :
    ∃ v', t.processFragments v (t.expand dir) = some v' ∧ t.Holds (ds ++ [dir]) v' := by
  obtain ⟨v', hv', hholds⟩ := hv.processDir h
  refine ⟨v', ?_, hholds⟩
  rw [h.expand, Checkout.processFragments, List.foldlM_cons, hv']
  rfl

theorem Holds.featuresOf (hv : t.Holds ds v) (hws : ∀ w ∈ ws, t.expand w = [w])
    (hdirs : ∀ w ∈ ws, ∃ dir, t.featureDir w = some dir ∧ t.InertDir dir) :
    ∃ v', ws.foldlM t.processFeature v = some v' := by
  induction ws generalizing ds v with
  | nil => exact ⟨v, rfl⟩
  | cons w ws ih =>
    obtain ⟨dir, hdir, hinert⟩ := hdirs w List.mem_cons_self
    obtain ⟨v₁, hv₁, hholds⟩ := hv.fragmentsOf hinert
    obtain ⟨v', hv'⟩ := ih hholds (fun u hu => hws u (List.mem_cons_of_mem w hu))
      fun u hu => hdirs u (List.mem_cons_of_mem w hu)
    have hfeature : t.processFeature v w = some v₁ := by
      rw [processFeature, hws w List.mem_cons_self]
      exact Option.bind_eq_some_iff.mpr ⟨dir, hdir, hv₁⟩
    exact ⟨v', by rw [List.foldlM_cons, hfeature]; exact hv'⟩

/-- With the machine and the features found, `genconfig` comes to the
execution of the setup script. -/
theorem genconfig_some (hin : t.Inert args machine) (hws : ∀ w ∈ splitWords features, t.Resolved args w)
    (hm : ∃ dir, t.machineDir machine = some dir) (hf : ∀ w ∈ splitWords features, ∃ dir, t.featureDir w = some dir) :
    ∃ files, t.genconfig machine features = some files := by
  obtain ⟨mdir, hmdir⟩ := hm
  have hused (dir : Text) (h : t.Used args machine dir) (hpath : IsPath dir) : t.InertDir dir :=
    ⟨hpath, hin.dir dir h, hin.path dir h⟩
  have hempty : t.Holds [] ⟨[], [], []⟩ := fun kind => ⟨[], .nil, by cases kind <;> rfl⟩
  obtain ⟨v₁, hv₁, hholds₁⟩ := hempty.fragmentsOf (hused _ (.inl rfl) t.isPath_templateConf)
  obtain ⟨v₂, hv₂, hholds₂⟩ :=
    hholds₁.fragmentsOf (hused mdir (.inr (.inl hmdir)) (t.isPath_machineDir machine mdir hmdir))
  obtain ⟨v, hv⟩ := hholds₂.featuresOf (fun w hw => hin.plain.expand_word (hws w hw)) fun w hw => by
    obtain ⟨dir, hdir⟩ := hf w hw
    exact ⟨dir, hdir, hused dir (.inr (.inr ⟨w, hws w hw, hdir⟩)) (t.isPath_featureDir w dir hdir)⟩
  have hall : t.processAll machine features = some v := by
    refine Option.bind_eq_some_iff.mpr ⟨v₁, hv₁, Option.bind_eq_some_iff.mpr ⟨mdir, ?_,
      Option.bind_eq_some_iff.mpr ⟨v₂, hv₂, ?_⟩⟩⟩
    · rw [hin.expandMachine]
      exact hmdir
    · rw [hin.plain.expand hws]
      exact hv
  have happend (kind : Kind) : ∃ blocks, t.appendAll kind (v.get kind) = some blocks := by
    obtain ⟨fs, hperm, hget⟩ := processAll_holds hin hws hall kind
    refine ⟨_, (congrArg _ hget).trans (appendAll_eq fun f hf => ?_)⟩
    obtain ⟨dir, hdir, hmem⟩ := List.mem_flatMap.mp (hperm.mem_iff.mp hf)
    have hd := used_of_mem hws hdir
    exact ⟨proper_of_mem (isPath_of_mem_dirs hdir) hmem, hin.path dir hd kind f hmem, hin.item dir hd kind f hmem⟩
  obtain ⟨b, hb⟩ := happend .bblayers
  obtain ⟨c, hc⟩ := happend .localconf
  obtain ⟨s, hs⟩ := happend .setup
  exact ⟨⟨b, c, s⟩, Option.bind_eq_some_iff.mpr ⟨v, hall, Option.bind_eq_some_iff.mpr ⟨b, hb,
    Option.bind_eq_some_iff.mpr ⟨c, hc, Option.bind_eq_some_iff.mpr ⟨s, hs, rfl⟩⟩⟩⟩⟩

end Checkout

namespace Layers

variable {l : Layers} {d n p x y : Text} {ns ws dirs : List Text} {pattern : List PatternItem}

theorem expand_unlines (h : ∀ w ∈ ws, IsPlain w) : l.expand (capture (unlines ws)) = ws := by
  have hsplit : splitWords (capture (unlines ws)) = ws := by
    rw [splitWords_capture, splitWords_unlines fun w hw => .inr (h w hw).path.1]
    exact List.filter_eq_self.mpr fun w hw => by simpa using (h w hw).path.1.1
  rw [expand, expand_eq, hsplit]
  intro w hw
  rw [hsplit] at hw
  exact glob_literal (h w hw).literal

theorem lines_plain (h : ∀ w ∈ ws, IsPlain w) : lines (unlines ws) = ws :=
  lines_unlines fun w hw => (h w hw).path.1.not_mem rfl

/-- `ls -d` prints what there is, sorted. -/
theorem expand_lsD : l.expand (capture (l.lsD ws)) = (ws.filter l.pathExists).insertionSort (· ≤ ·) := by
  refine expand_unlines fun w hw => l.isPlain_exists w ?_
  exact (List.mem_filter.mp ((List.mem_insertionSort _).mp hw)).2

theorem echoBasename_child (hd : IsTail d) (hn : IsPlain n) (hs : '/' ∉ n) :
    l.echoBasename (l.expand (child d n)) = n ++ ['\n'] := by
  have hne := hn.path.1.1
  rw [expand_plain (isPlain_child hd hn.isTail), echoBasename, basename, Option.getD_some, child,
    baseName_slash d hne hs, capture_line (hn.path.1.not_mem rfl), expand_plain hn, echo_of_word hn.echo]

/-! ## Names in directories -/

theorem mem_below (hd : IsTail d) :
    y ∈ l.below pattern d ↔ ∃ n ∈ l.names d, expandsTo pattern n = true ∧ y = child d n := by
  rw [below, l.matching_literal d hd.literal]
  split
  · rw [List.flatMap_singleton, List.mem_map]
    constructor
    · intro ⟨n, hn, hy⟩
      exact ⟨n, (List.mem_filter.mp hn).1, (List.mem_filter.mp hn).2, hy.symm⟩
    · intro ⟨n, hn, hmatch, hy⟩
      exact ⟨n, List.mem_filter.mpr ⟨hn, hmatch⟩, hy.symm⟩
  · next hnot =>
    constructor
    · intro h
      cases h
    · intro ⟨n, hn, _, _⟩
      exact absurd (l.exists_names d n hn) hnot

/-- The names `*` is expanded to. -/
def shown (l : Layers) (dir : Text) : List Text := (l.names dir).filter (expandsTo [.star])

theorem expandsTo_star : expandsTo [.star] n = true ↔ n.head? ≠ some '.' := by
  have hmatch : matchItems [.star] n = true := by
    rw [matchItems, List.any_eq_true]
    exact ⟨[], by simp, rfl⟩
  simp [expandsTo, hmatch]

theorem mem_shown : n ∈ l.shown d ↔ n ∈ l.names d ∧ IsName n := by
  rw [shown, List.mem_filter, expandsTo_star]
  constructor
  · intro ⟨hn, hdot⟩
    obtain ⟨hplain, hslash⟩ := l.isPlain_names d n hn
    exact ⟨hn, hplain, hslash, hdot⟩
  · exact fun h => ⟨h.1, h.2.visible⟩

theorem nodup_shown (l : Layers) (dir : Text) : (l.shown dir).Nodup := (l.nodup_names dir).filter _

theorem below_star (hd : IsTail d) : l.below [.star] d = (l.shown d).map (child d) := by
  rw [below, l.matching_literal d hd.literal]
  split
  · rw [List.flatMap_singleton]
    rfl
  · next hnot =>
    have hempty : l.shown d = [] := by
      rw [shown, List.filter_eq_nil_iff]
      exact fun n hn => absurd (l.exists_names d n hn) hnot
    rw [hempty]
    rfl

/-- What the loop over `ls -d` prints: the names, in some order. -/
theorem listDirs_eq (h : ∀ d ∈ dirs, IsTail d) :
    ∃ ns : List Text, l.listDirs dirs = unlines ns ∧ ns.Perm (dirs.flatMap l.shown) ∧ ∀ n ∈ ns, IsName n := by
  have hbelow : dirs.flatMap (l.below [.star]) = dirs.flatMap fun d => (l.shown d).map (child d) :=
    List.flatMap_congr fun d hd => below_star (h d hd)
  have hfilter : (dirs.flatMap fun d => (l.shown d).map (child d)).filter l.pathExists =
      dirs.flatMap fun d => (l.shown d).map (child d) := by
    refine List.filter_eq_self.mpr fun y hy => ?_
    obtain ⟨d, hd, hy⟩ := List.mem_flatMap.mp hy
    obtain ⟨n, hn, rfl⟩ := List.mem_map.mp hy
    exact l.exists_child d n (mem_shown.mp hn).1
  have hbase : ∀ y ∈ dirs.flatMap (fun d => (l.shown d).map (child d)),
      l.echoBasename (l.expand y) = baseName y ++ ['\n'] ∧ IsName (baseName y) := by
    intro y hy
    obtain ⟨d, hd, hy⟩ := List.mem_flatMap.mp hy
    obtain ⟨n, hn, rfl⟩ := List.mem_map.mp hy
    have hname := (mem_shown.mp hn).2
    have hb : baseName (child d n) = n := baseName_slash d hname.plain.path.1.1 hname.slash
    rw [hb]
    exact ⟨echoBasename_child (h d hd) hname.plain hname.slash, hname⟩
  have hperm := List.perm_insertionSort (· ≤ ·) (dirs.flatMap fun d => (l.shown d).map (child d))
  refine ⟨((dirs.flatMap fun d => (l.shown d).map (child d)).insertionSort (· ≤ ·)).map baseName, ?_, ?_, ?_⟩
  · rw [listDirs, expand_lsD, hbelow, hfilter, unlines, List.flatMap_map]
    exact List.flatMap_congr fun y hy => (hbase y (hperm.mem_iff.mp hy)).1
  · refine (hperm.map baseName).trans (List.Perm.of_eq ?_)
    rw [List.map_flatMap]
    refine List.flatMap_congr fun d hd => ?_
    rw [List.map_map]
    refine (List.map_congr_left fun n hn => ?_).trans (List.map_id _)
    exact baseName_slash d (mem_shown.mp hn).2.plain.path.1.1 (mem_shown.mp hn).2.slash
  · intro n hn
    obtain ⟨y, hy, rfl⟩ := List.mem_map.mp hn
    exact (hbase y (hperm.mem_iff.mp hy)).2

/-! ## The repositories -/

theorem exists_last (hne : n ≠ []) (hs : '/' ∉ n) : ∃ e c, child d n = e ++ [c] ∧ c ≠ '/' := by
  obtain ⟨e, c, rfl⟩ := (List.eq_nil_or_concat n).resolve_left hne
  exact ⟨child d e, c, by simp [child], fun h => hs (by simp [h])⟩

theorem dirName_child (hd : ∃ e c, d = e ++ [c] ∧ c ≠ '/') (hne : n ≠ []) (hs : '/' ∉ n) : dirName (child d n) = d := by
  obtain ⟨e, c, rfl, hc⟩ := hd
  rw [child, List.append_assoc, List.singleton_append]
  exact dirName_slash hc hne hs

theorem expand_dirname (hp : IsPlain (dirName p)) : l.expand (capture (dirname [p])) = [dirName p] := by
  rw [dirname, List.flatMap_singleton, capture_line (hp.path.1.not_mem rfl), expand_plain hp]

theorem repositoryOf_child {kind : Text} (hd : IsTail d) (hn : IsPlain n) (hs : '/' ∉ n) (hkind : IsTail kind)
    (hne : kind ≠ []) (hslash : '/' ∉ kind) :
    l.repositoryOf (child (child (child d n) "templates".toList) kind) = n ++ ['\n'] := by
  have hrepo : IsPlain (child d n) := isPlain_child hd hn.isTail
  have htemplates : IsPlain (child (child d n) "templates".toList) := isPlain_child hrepo.isTail (by decide)
  have hlast : dirName (child (child (child d n) "templates".toList) kind) = child (child d n) "templates".toList :=
    dirName_child (exists_last (by decide) (by decide)) hne hslash
  have hfirst : dirName (child (child d n) "templates".toList) = child d n :=
    dirName_child (exists_last hn.path.1.1 hs) (by decide) (by decide)
  rw [repositoryOf, expand_plain (isPlain_child htemplates.isTail hkind), expand_dirname (hlast.symm ▸ htemplates),
    hlast, expand_dirname (hfirst.symm ▸ hrepo), hfirst, ← expand_plain hrepo, echoBasename_child hd hn hs]

/-- The name of a repository. -/
def IsRepository (x : Text) : Prop := IsPlain x ∧ '/' ∉ x

theorem repositoryOf_root (hy : y ∈ l.templateRoots) : ∃ x, IsRepository x ∧ l.repositoryOf y = x ++ ['\n'] := by
  have hmetadir := l.isPlain_metadir.isTail
  have hbsp : IsTail (child l.metadir "bsp".toList) := isTail_child hmetadir (by decide)
  have hroot {d : Text} (hd : IsTail d) {pattern : List PatternItem} (kind : Text)
      (hkind : IsTail kind ∧ kind ≠ [] ∧ '/' ∉ kind)
      (hy : y ∈ (l.below pattern d).map fun d => child d (child "templates".toList kind)) :
      ∃ x, IsRepository x ∧ l.repositoryOf y = x ++ ['\n'] := by
    obtain ⟨e, he, rfl⟩ := List.mem_map.mp hy
    obtain ⟨n, hn, -, rfl⟩ := (mem_below hd).mp he
    have hname := l.isPlain_names d n hn
    have hpath : child (child d n) (child "templates".toList kind) =
        child (child (child d n) "templates".toList) kind := by simp [child]
    rw [hpath]
    exact ⟨n, hname, repositoryOf_child hd hname.1 hname.2 hkind.1 hkind.2.1 hkind.2.2⟩
  rcases List.mem_append.mp hy with hy | hy
  · rcases List.mem_append.mp hy with hy | hy
    · exact hroot hmetadir "machine".toList (by decide) hy
    · exact hroot hmetadir "feature".toList (by decide) hy
  · exact hroot hbsp "machine".toList (by decide) hy

/-- What a loop prints, one line in each round. -/
theorem exists_lines {α : Type} {as : List α} {f : α → Text} {P : Text → Prop}
    (h : ∀ a ∈ as, ∃ x, P x ∧ f a = x ++ ['\n']) : ∃ xs : List Text, (∀ x ∈ xs, P x) ∧ as.flatMap f = unlines xs := by
  induction as with
  | nil => exact ⟨[], by simp, rfl⟩
  | cons a as ih =>
    obtain ⟨x, hx, hf⟩ := h a List.mem_cons_self
    obtain ⟨xs, hxs, hrest⟩ := ih fun b hb => h b (List.mem_cons_of_mem a hb)
    exact ⟨x :: xs, List.forall_mem_cons.mpr ⟨hx, hxs⟩, by rw [List.flatMap_cons, hf, hrest]; rfl⟩

/-- Every repository is searched once. -/
theorem repositories_spec (l : Layers) : l.repositories.Nodup ∧ ∀ x ∈ l.repositories, IsRepository x := by
  have hround : ∀ y ∈ l.expand (capture (l.lsD l.templateRoots)),
      ∃ x, IsRepository x ∧ l.repositoryOf y = x ++ ['\n'] := by
    intro y hy
    rw [expand_lsD, List.mem_insertionSort] at hy
    exact repositoryOf_root (List.mem_filter.mp hy).1
  obtain ⟨xs, hxs, hout⟩ := exists_lines hround
  have hall : ∀ x ∈ Tree.sortU xs, IsRepository x := fun x hx => hxs x (Tree.mem_sortU.mp hx)
  have heq : l.repositories = Tree.sortU xs := by
    rw [repositories, aglRepositories, hout, lines_plain fun x hx => (hxs x hx).1]
    exact expand_unlines fun x hx => (hall x hx).1
  rw [heq]
  exact ⟨Tree.nodup_sortU xs, hall⟩

/-! ## The checks of the names -/

theorem listAll_eq (dirsOf : Text → List Text) (h : ∀ x, IsRepository x → ∀ d ∈ dirsOf x, IsPlain d) :
    ∃ ns : List Text,
      (l.repositories.flatMap fun x => ((l.expand x).flatMap l.expand).flatMap fun a => l.listDirs (dirsOf a)) =
        unlines ns ∧
      ns.Perm ((l.repositories.flatMap dirsOf).flatMap l.shown) ∧ ∀ n ∈ ns, IsName n := by
  have hrepos := l.repositories_spec.2
  generalize l.repositories = xs at hrepos
  induction xs with
  | nil => exact ⟨[], rfl, .nil, by simp⟩
  | cons x xs ih =>
    obtain ⟨hx, hxs⟩ := List.forall_mem_cons.mp hrepos
    obtain ⟨ns, hout, hperm, hnames⟩ := ih hxs
    obtain ⟨ms, hdirs, hms, hmnames⟩ := listDirs_eq (l := l) fun d hd => (h x hx d hd).isTail
    refine ⟨ms ++ ns, ?_, ?_, List.forall_mem_append.mpr ⟨hmnames, hnames⟩⟩
    · rw [List.flatMap_cons, hout, expand_plain hx.1, List.flatMap_singleton, expand_plain hx.1,
        List.flatMap_singleton, hdirs, unlines, unlines, unlines, List.flatMap_append]
    · rw [List.flatMap_cons, List.flatMap_append]
      exact hms.append hperm

theorem countedOnce_unlines (h : ∀ n ∈ ns, IsName n) : countedOnce (unlines ns) = true ↔ ns.Nodup := by
  have hplain : ∀ n ∈ ns, IsPlain n := fun n hn => (h n hn).plain
  have hsorted : ∀ n ∈ ns.insertionSort (· ≤ ·), IsPlain n := fun n hn => hplain n ((List.mem_insertionSort _).mp hn)
  rw [countedOnce, sort, lines_plain hplain, lines_plain hsorted, List.all_eq_true, ← uniqC_insertionSort]
  simp only [decide_eq_true_eq]

theorem nodup_shown_iff (h : dirs.Nodup) : (dirs.flatMap l.shown).Nodup ↔ l.Once dirs := by
  rw [List.nodup_flatMap]
  constructor
  · intro ⟨_, hdisjoint⟩ n hn d hd e he hnd hne
    have hsymm : Std.Symm (Function.onFun List.Disjoint l.shown) := ⟨fun _ _ h => h.symm⟩
    by_contra hde
    exact hdisjoint.forall hd he hde (mem_shown.mpr ⟨hnd, hn⟩) (mem_shown.mpr ⟨hne, hn⟩)
  · intro honce
    refine ⟨fun d _ => l.nodup_shown d, h.imp_of_mem fun {d e} hd he hde n hnd hne => hde ?_⟩
    exact honce n (mem_shown.mp hnd).2 d hd e he (mem_shown.mp hnd).1 (mem_shown.mp hne).1

theorem isPlain_featureDirsOf (hx : IsRepository x) : ∀ d ∈ l.featureDirsOf x, IsPlain d := by
  intro d hd
  obtain rfl := List.mem_singleton.mp hd
  exact isPlain_child l.isPlain_metadir.isTail (isTail_child hx.1.isTail (by decide))

theorem isPlain_machineDirsOf (hx : IsRepository x) : ∀ d ∈ l.machineDirsOf x, IsPlain d := by
  have htail : IsTail (child x "templates/machine".toList) := isTail_child hx.1.isTail (by decide)
  intro d hd
  rcases List.mem_cons.mp hd with rfl | hd
  · exact isPlain_child l.isPlain_metadir.isTail (isTail_append (by decide) htail)
  · obtain rfl := List.mem_singleton.mp hd
    exact isPlain_child l.isPlain_metadir.isTail (isTail_append (by decide) htail)

theorem isPlain_dirs {dirsOf : Text → List Text} (h : ∀ x, IsRepository x → ∀ d ∈ dirsOf x, IsPlain d) :
    ∀ d ∈ l.repositories.flatMap dirsOf, IsPlain d := by
  intro d hd
  obtain ⟨x, hx, hd⟩ := List.mem_flatMap.mp hd
  exact h x (l.repositories_spec.2 x hx) d hd

theorem isPlain_featureDirs : ∀ d ∈ l.featureDirs, IsPlain d := isPlain_dirs fun _ hx => isPlain_featureDirsOf hx

theorem isPlain_machineDirs : ∀ d ∈ l.machineDirs, IsPlain d := isPlain_dirs fun _ hx => isPlain_machineDirsOf hx

theorem nodup_featureDirs (l : Layers) : l.featureDirs.Nodup := by
  refine List.nodup_flatMap.mpr ⟨fun x _ => List.nodup_singleton _, l.repositories_spec.1.imp fun hxy d hx hy => hxy ?_⟩
  exact List.append_cancel_right (child_inj ((List.mem_singleton.mp hx).symm.trans (List.mem_singleton.mp hy)))

/-- The two directories of a machine differ behind `METADIR`. -/
theorem machineDirsOf_inj (hx : d ∈ l.machineDirsOf x) (hy : d ∈ l.machineDirsOf y) : x = y := by
  rcases List.mem_cons.mp hx with hx | hx <;> rcases List.mem_cons.mp hy with hy | hy
  · exact List.append_cancel_right (List.append_cancel_left (child_inj (hx.symm.trans hy)))
  · exact absurd (child_inj (hx.symm.trans (List.mem_singleton.mp hy))) (by simp)
  · exact absurd (child_inj ((List.mem_singleton.mp hx).symm.trans hy)) (by simp)
  · exact List.append_cancel_right (List.append_cancel_left
      (child_inj ((List.mem_singleton.mp hx).symm.trans (List.mem_singleton.mp hy))))

theorem nodup_machineDirs (l : Layers) : l.machineDirs.Nodup := by
  refine List.nodup_flatMap.mpr ⟨fun x _ => ?_,
    l.repositories_spec.1.imp fun hxy d hx hy => hxy (machineDirsOf_inj hx hy)⟩
  refine List.nodup_cons.mpr ⟨fun h => ?_, List.nodup_singleton _⟩
  exact absurd (child_inj (List.mem_singleton.mp h)) (by simp)

/-- Every name is listed once if no name is in two directories. -/
theorem countedOnce_listAll {dirsOf : Text → List Text} (h : ∀ x, IsRepository x → ∀ d ∈ dirsOf x, IsPlain d)
    (hnodup : (l.repositories.flatMap dirsOf).Nodup) :
    countedOnce (l.repositories.flatMap fun x =>
      ((l.expand x).flatMap l.expand).flatMap fun a => l.listDirs (dirsOf a)) = true ↔
      l.Once (l.repositories.flatMap dirsOf) := by
  obtain ⟨ns, hout, hperm, hnames⟩ := listAll_eq dirsOf h
  rw [hout, countedOnce_unlines hnames, hperm.nodup_iff]
  exact nodup_shown_iff hnodup

theorem validateMachines_iff : l.validateMachines = true ↔ l.Once l.machineDirs := by
  rw [validateMachines, listAllMachines]
  simp only [listMachines]
  exact countedOnce_listAll (fun x hx => isPlain_machineDirsOf hx) l.nodup_machineDirs

theorem validateFeatures_iff : l.validateFeatures = true ↔ l.Once l.featureDirs := by
  rw [validateFeatures, listAllFeatures]
  simp only [listFeatures]
  exact countedOnce_listAll (fun x hx => isPlain_featureDirsOf hx) l.nodup_featureDirs

/-! ## The search -/

theorem findFeatureDir_template {dir : Text} (h : l.findFeatureDir [n] = some dir) :
    l.IsTemplate l.featureDirs n dir := by
  obtain ⟨x, hx, hfind⟩ := List.exists_of_findSome?_eq_some h
  obtain ⟨d, hd, hdir⟩ := List.exists_of_findSome?_eq_some hfind
  obtain ⟨hisDir, rfl⟩ := echoDir_eq_some.mp hdir
  exact ⟨d, List.mem_flatMap.mpr ⟨x, hx, hd⟩, rfl, hisDir⟩

theorem findFeatureDir_isSome {dir : Text} (h : l.IsTemplate l.featureDirs n dir) :
    (l.findFeatureDir [n]).isSome = true := by
  obtain ⟨d, hd, rfl, hisDir⟩ := h
  obtain ⟨x, hx, hd⟩ := List.mem_flatMap.mp hd
  refine List.findSome?_isSome_iff.mpr ⟨x, hx, List.findSome?_isSome_iff.mpr ⟨d, hd, ?_⟩⟩
  exact Option.isSome_of_eq_some (echoDir_eq_some.mpr ⟨hisDir, rfl⟩)

/-- The words `find_machine_dir` looks at in one repository. -/
theorem mem_machineCandidates (hx : x ∈ l.repositories) (hn : IsTail n) :
    p ∈ l.expand (capture (l.lsD ((l.machineDirsOf x).flatMap fun dir => l.expand (child dir n)))) ↔
      l.pathExists p = true ∧ ∃ d ∈ l.machineDirsOf x, p = child d n := by
  rw [expand_lsD, List.mem_insertionSort, List.mem_filter, and_comm, List.mem_flatMap]
  refine and_congr_right fun _ => exists_congr fun d => and_congr_right fun hd => ?_
  have hplain := isPlain_child (isPlain_machineDirsOf (l.repositories_spec.2 x hx) d hd).isTail hn
  rw [expand_plain hplain, List.mem_singleton]

theorem findMachineDir_template {dir : Text} (hn : IsTail n) (h : l.findMachineDir [n] = some dir) :
    l.IsTemplate l.machineDirs n dir := by
  obtain ⟨x, hx, hfind⟩ := List.exists_of_findSome?_eq_some h
  obtain ⟨p, hp, hdir⟩ := List.exists_of_findSome?_eq_some hfind
  obtain ⟨hisDir, rfl⟩ := echoDir_eq_some.mp hdir
  obtain ⟨-, d, hd, rfl⟩ := (mem_machineCandidates hx hn).mp hp
  exact ⟨d, List.mem_flatMap.mpr ⟨x, hx, hd⟩, rfl, hisDir⟩

theorem findMachineDir_isSome {dir : Text} (hn : IsTail n) (h : l.IsTemplate l.machineDirs n dir) :
    (l.findMachineDir [n]).isSome = true := by
  obtain ⟨d, hd, rfl, hisDir⟩ := h
  obtain ⟨x, hx, hd⟩ := List.mem_flatMap.mp hd
  have hmem := (mem_machineCandidates hx hn).mpr ⟨l.exists_isDir _ hisDir, d, hd, rfl⟩
  refine List.findSome?_isSome_iff.mpr ⟨x, hx, List.findSome?_isSome_iff.mpr ⟨_, hmem, ?_⟩⟩
  exact Option.isSome_of_eq_some (echoDir_eq_some.mpr ⟨hisDir, rfl⟩)

theorem IsTemplate.mem_names {dir : Text} (hdirs : ∀ d ∈ dirs, IsPlain d) (hn : IsName n)
    (h : l.IsTemplate dirs n dir) : ∃ d ∈ dirs, dir = child d n ∧ n ∈ l.names d := by
  obtain ⟨d, hd, rfl, hisDir⟩ := h
  exact ⟨d, hd, rfl, l.names_child d n (hdirs d hd) hn (l.exists_isDir _ hisDir)⟩

/-- Where no name is in two directories, a template is the only one of its name. -/
theorem Once.eq {dir dir' : Text} (honce : l.Once dirs) (hdirs : ∀ d ∈ dirs, IsPlain d) (hn : IsName n)
    (h : l.IsTemplate dirs n dir) (h' : l.IsTemplate dirs n dir') : dir = dir' := by
  obtain ⟨d, hd, rfl, hnd⟩ := h.mem_names hdirs hn
  obtain ⟨e, he, rfl, hne⟩ := h'.mem_names hdirs hn
  rw [honce n hn d hd e he hnd hne]

/-- A search that finds templates only, and one if there is one, finds the
only one of its name, whatever its order is. -/
theorem Once.found_iff {found : Option Text} {dir : Text} (honce : l.Once dirs) (hdirs : ∀ d ∈ dirs, IsPlain d)
    (hn : IsName n) (htemplate : ∀ d, found = some d → l.IsTemplate dirs n d)
    (hsome : l.IsTemplate dirs n dir → found.isSome = true) : found = some dir ↔ l.IsTemplate dirs n dir := by
  refine ⟨htemplate dir, fun h => ?_⟩
  obtain ⟨d, hd⟩ := Option.isSome_iff_exists.mp (hsome h)
  rw [hd, honce.eq hdirs hn (htemplate d hd) h]

theorem findFeatureDir_iff {dir : Text} (honce : l.Once l.featureDirs) (hn : IsName n) :
    l.findFeatureDir [n] = some dir ↔ l.IsTemplate l.featureDirs n dir :=
  honce.found_iff isPlain_featureDirs hn (fun _ h => findFeatureDir_template h) findFeatureDir_isSome

theorem findMachineDir_iff {dir : Text} (honce : l.Once l.machineDirs) (hn : IsName n) :
    l.findMachineDir [n] = some dir ↔ l.IsTemplate l.machineDirs n dir :=
  honce.found_iff isPlain_machineDirs hn (fun _ h => findMachineDir_template hn.plain.isTail h)
    (findMachineDir_isSome hn.plain.isTail)

/-! ## The checks -/

theorem lookup_filterMap (dep : Text → Option Text) (fs : List Text) (f : Text) :
    (fs.filterMap fun f => (dep f).map fun text => (f, text)).lookup f = if f ∈ fs then dep f else none := by
  induction fs with
  | nil => rfl
  | cons g fs ih =>
    by_cases hfg : f = g
    · subst hfg
      cases hdep : dep f with
      | none => rw [List.filterMap_cons, hdep, Option.map_none, ih, hdep, ite_self, ite_self]
      | some text => simp [hdep]
    · have hne : (f == g) = false := beq_eq_false_iff_ne.mpr hfg
      cases hdep : dep g with
      | none => simp [hdep, ih, hfg]
      | some text => simp [hdep, ih, hfg, List.lookup_cons, hne]

/-- An entry is one of the `included.dep` in the directory that is found. -/
theorem entry_iff {f g : Text} (hf : IsName f) :
    l.tree.Entry f g ↔ ∃ text, l.includedDep f = some text ∧ g ∈ splitWords text := by
  have hlookup : l.tree.included.lookup f = l.includedDep f := by
    rw [tree, lookup_filterMap]
    split
    · rfl
    · next hnot =>
      refine (Option.eq_none_iff_forall_not_mem.mpr fun text htext => hnot ?_).symm
      obtain ⟨dir, hdir, -⟩ := Option.bind_eq_some_iff.mp htext
      obtain ⟨d, hd, -, hname⟩ := (findFeatureDir_template hdir).mem_names isPlain_featureDirs hf
      exact List.mem_flatMap.mpr ⟨d, hd, hname⟩
  rw [Tree.Entry, hlookup]

theorem plain_tree {args : List Text} (hs : ∀ g, l.tree.Resolved args g → IsName g) : l.tree.Plain args :=
  fun g hg => glob_literal (hs g hg).plain.literal

theorem validated_eq_some {fuel : Nat} {args : List Text} {machine features : Text} {builddir : Option Text} :
    l.validated fuel args machine builddir = some features ↔
      l.validateMachines = true ∧ (l.findMachineDir (l.expand machine)).isSome = true ∧ l.validateFeatures = true ∧
        l.tree.featuresOf fuel args = some features ∧
        ((l.expand features).all fun f => (l.findFeatureDir (l.expand f)).isSome) = true ∧
        ∃ dir ∈ builddir, validateBuilddir (capture dir) = true := by
  simp only [validated, Option.bind_eq_bind, Option.bind_eq_some_iff, Option.guard_eq_some', exists_const,
    Option.pure_def, Option.some.injEq, Option.mem_def]
  constructor
  · intro ⟨hm, hfound, hf, features', hfeatures, hall, dir, hdir, hbuild, heq⟩
    exact heq ▸ ⟨hm, hfound, hf, hfeatures, hall, dir, hdir, hbuild⟩
  · intro ⟨hm, hfound, hf, hfeatures, hall, dir, hdir, hbuild⟩
    exact ⟨hm, hfound, hf, features, hfeatures, hall, dir, hdir, hbuild, rfl⟩

theorem validateBuilddir_iff {dir : Text} : validateBuilddir dir = true ↔ ∀ c ∈ dir, isSpace c = false := by
  simp [validateBuilddir]

/-- What is in `FEATURES`. -/
theorem features_words {args : List Text} {features : Text} (hs : ∀ g, l.tree.Resolved args g → IsName g)
    (h : l.tree.Computes args features) :
    (splitWords features).Nodup ∧ (∀ g, g ∈ splitWords features ↔ l.tree.Resolved args g) ∧
      l.expand features = splitWords features := by
  obtain ⟨hnodup, hmem⟩ := h.words (plain_tree hs)
  have hwords (g : Text) : g ∈ splitWords features ↔ l.tree.Resolved args g :=
    (hmem g).trans ⟨fun hg => hg.1, fun hg => ⟨hg, (hs g hg).plain.echo⟩⟩
  exact ⟨hnodup, hwords, expand_eq fun w hw => glob_literal (hs w ((hwords w).mp hw)).plain.literal⟩

/-- The resolution ends where no cycle is met. -/
theorem computes_iff {args : List Text} (hs : ∀ g, l.tree.Resolved args g → IsName g) :
    (∃ features, l.tree.Computes args features) ↔
      ∀ f ∈ Tree.requested args, Acyclic (l.tree.Cut (Tree.firstRequested args)) f := by
  rw [Tree.computes_iff_enough (plain_tree hs)]
  simp only [Tree.enough_iff_acyclic]

theorem Passes.sound {args : List Text} {machine features : Text} {builddir : Option Text} (hm : IsName machine)
    (hs : ∀ g, l.tree.Resolved args g → IsName g) (h : l.Passes args machine builddir features) :
    l.Sound args machine builddir ∧ l.tree.Computes args features := by
  obtain ⟨fuel, h⟩ := h
  obtain ⟨hmachines, hfound, hfeatures, hfuel, hall, dir, hdir, hbuild⟩ := validated_eq_some.mp h
  have hc : l.tree.Computes args features := ⟨fuel, hfuel⟩
  obtain ⟨-, hmem, hexpand⟩ := features_words hs hc
  rw [expand_plain hm.plain] at hfound
  obtain ⟨mdir, hmdir⟩ := Option.isSome_iff_exists.mp hfound
  refine ⟨⟨validateMachines_iff.mp hmachines, validateFeatures_iff.mp hfeatures,
    ⟨mdir, findMachineDir_template hm.plain.isTail hmdir⟩, fun g hg => ?_, (computes_iff hs).mp ⟨features, hc⟩,
    dir, hdir, validateBuilddir_iff.mp hbuild⟩, hc⟩
  rw [hexpand, List.all_eq_true] at hall
  have hsome := hall g ((hmem g).mpr hg)
  rw [expand_plain (hs g hg).plain] at hsome
  obtain ⟨fdir, hfdir⟩ := Option.isSome_iff_exists.mp hsome
  exact ⟨fdir, findFeatureDir_template hfdir⟩

theorem Sound.passes {args : List Text} {machine : Text} {builddir : Option Text} (hm : IsName machine)
    (hs : ∀ g, l.tree.Resolved args g → IsName g) (h : l.Sound args machine builddir) :
    ∃ features, l.Passes args machine builddir features := by
  obtain ⟨features, hc⟩ := (computes_iff hs).mpr h.ends
  obtain ⟨-, hmem, hexpand⟩ := features_words hs hc
  obtain ⟨fuel, hfuel⟩ := hc
  obtain ⟨mdir, hmdir⟩ := h.machine
  obtain ⟨dir, hdir, hbuild⟩ := h.builddir
  refine ⟨features, fuel, validated_eq_some.mpr ⟨validateMachines_iff.mpr h.machinesOnce, ?_,
    validateFeatures_iff.mpr h.featuresOnce, hfuel, ?_, dir, hdir, validateBuilddir_iff.mpr hbuild⟩⟩
  · rw [expand_plain hm.plain]
    exact findMachineDir_isSome hm.plain.isTail hmdir
  · rw [hexpand, List.all_eq_true]
    intro g hg
    have hresolved := (hmem g).mp hg
    obtain ⟨fdir, hfdir⟩ := h.feature g hresolved
    rw [expand_plain (hs g hresolved).plain]
    exact findFeatureDir_isSome hfdir

/-! ## The setup -/

theorem matching_exists (h : l.pathExists p = true) : l.matching p = [p] := by
  rw [l.matching_literal p (l.isPlain_exists p h).literal, if_pos h]

/-- The paths and the items are no patterns. -/
theorem checkout_inert {args : List Text} {machine : Text} (hm : IsName machine)
    (hs : ∀ g, l.tree.Resolved args g → IsName g) : l.checkout.Inert args machine := by
  have hexists (dir : Text) (h : l.checkout.Used args machine dir) : l.pathExists dir = true := by
    rcases h with rfl | hmachine | ⟨g, -, hfeature⟩
    · exact l.templateConf_exists
    · rw [checkout_machineDir] at hmachine
      obtain ⟨d, -, rfl, hdir⟩ := findMachineDir_template hm.plain.isTail hmachine
      exact l.exists_isDir _ hdir
    · rw [checkout_featureDir] at hfeature
      obtain ⟨d, -, rfl, hdir⟩ := findFeatureDir_template hfeature
      exact l.exists_isDir _ hdir
  have hfile (dir : Text) (h : l.checkout.Used args machine dir) (kind : Kind) (f : TemplateFile)
      (hf : f ∈ l.checkout.found kind dir) : IsTail f.name ∧ IsTail f.path := by
    obtain ⟨rfl, hn, -⟩ := Checkout.mem_found.mp hf
    have hname := (l.isPlain_names f.dir f.name hn).1.isTail
    exact ⟨hname, isTail_child (l.isPlain_exists f.dir (hexists f.dir h)).isTail hname⟩
  exact {
    plain := plain_tree hs
    expandMachine := expand_plain hm.plain
    dir := fun dir h => matching_exists (hexists dir h)
    path := fun dir h kind f hf => glob_literal (hfile dir h kind f hf).2.literal
    item := fun dir h kind f hf => by
      obtain ⟨hname, hpath⟩ := hfile dir h kind f hf
      exact glob_literal (List.forall_mem_append.mpr ⟨hname.literal, List.forall_mem_cons.mpr ⟨rfl, hpath.literal⟩⟩) }

/-! ## The directories used -/

theorem child_eq {e m : Text} (hn : IsName n) (hm : IsName m) (h : child d n = child e m) : d = e ∧ n = m := by
  have hname : n = m := by
    rw [← baseName_slash d hn.plain.path.1.1 hn.slash, ← baseName_slash e hm.plain.path.1.1 hm.slash]
    exact congrArg baseName h
  subst hname
  exact ⟨List.append_cancel_right h, rfl⟩

theorem machineDirs_child (hd : d ∈ l.machineDirs) : ∃ e, d = child e "machine".toList := by
  obtain ⟨x, -, hd⟩ := List.mem_flatMap.mp hd
  rcases List.mem_cons.mp hd with rfl | hd
  · exact ⟨child l.metadir ("./".toList ++ child x "templates".toList), by simp [child]⟩
  · obtain rfl := List.mem_singleton.mp hd
    exact ⟨child l.metadir ("bsp/".toList ++ child x "templates".toList), by simp [child]⟩

theorem featureDirs_child (hd : d ∈ l.featureDirs) : ∃ e, d = child e "feature".toList := by
  obtain ⟨x, -, hd⟩ := List.mem_flatMap.mp hd
  obtain rfl := List.mem_singleton.mp hd
  exact ⟨child l.metadir (child x "templates".toList), by simp [child]⟩

/-- A machine and a feature have different directories, and so have two features. -/
theorem nodup_used {dir : Text} (hdir : l.IsTemplate l.machineDirs n dir) (hn : IsName n) (hws : ws.Nodup)
    (hnames : ∀ w ∈ ws, IsName w) : (dir :: ws.filterMap fun w => l.findFeatureDir [w]).Nodup := by
  have hfound {w out : Text} (hw : w ∈ ws) (h : l.findFeatureDir [w] = some out) :
      ∃ d ∈ l.featureDirs, out = child d w ∧ IsName w := by
    obtain ⟨d, hd, hout, -⟩ := findFeatureDir_template h
    exact ⟨d, hd, hout, hnames w hw⟩
  refine List.nodup_cons.mpr ⟨fun hmem => ?_, ?_⟩
  · obtain ⟨w, hw, hout⟩ := List.mem_filterMap.mp hmem
    obtain ⟨e, he, hdirw, hname⟩ := hfound hw hout
    obtain ⟨d, hd, rfl, -⟩ := hdir
    obtain ⟨rfl, -⟩ := child_eq hn hname hdirw
    obtain ⟨a, ha⟩ := machineDirs_child hd
    obtain ⟨b, hb⟩ := featureDirs_child he
    exact absurd (child_eq (by decide) (by decide) (ha.symm.trans hb)).2 (by decide)
  · refine List.pairwise_filterMap.mpr (hws.imp_of_mem fun {w u} hw hu hwu out hout out' hout' heq => hwu ?_)
    obtain ⟨d, -, rfl, hwname⟩ := hfound hw hout
    obtain ⟨e, -, rfl, huname⟩ := hfound hu hout'
    exact (child_eq hwname huname heq).2

/-- **What a setup needs, and what it gets.** For every set of layers and
every request: the script passes its checks and generates the files if and
only if no two repositories have a machine or a feature of the same name, the
machine and the resolved features are there, no cycle of dependencies is met,
and the build directory is one without blanks. Then the files hold the
fragments of the base directory and of every template of these names that
there is: none is hidden by another, in whatever order the repositories are
searched. -/
theorem setup_generates {args : List Text} {machine : Text} {builddir : Option Text} (hm : IsName machine)
    (hs : ∀ g, l.tree.Resolved args g → IsName g) :
    ((∃ files, l.SetsUp args machine builddir files) ↔ l.Sound args machine builddir) ∧
      ∀ files, l.SetsUp args machine builddir files → l.Exact args machine files := by
  have hin := checkout_inert hm hs
  refine ⟨⟨fun h => ?_, fun h => ?_⟩, fun files h => ?_⟩
  · obtain ⟨files, features, hpasses, -⟩ := h
    exact (hpasses.sound hm hs).1
  · obtain ⟨features, hpasses⟩ := h.passes hm hs
    obtain ⟨-, hmem, -⟩ := features_words hs (hpasses.sound hm hs).2
    obtain ⟨mdir, hmdir⟩ := h.machine
    obtain ⟨files, hfiles⟩ := Checkout.genconfig_some hin (fun w hw => (hmem w).mp hw)
      ⟨mdir, by rw [checkout_machineDir, findMachineDir_iff h.machinesOnce hm]; exact hmdir⟩ fun w hw => by
        obtain ⟨dir, hdir⟩ := h.feature w ((hmem w).mp hw)
        exact ⟨dir, by
          rw [checkout_featureDir, findFeatureDir_iff h.featuresOnce (hs w ((hmem w).mp hw))]
          exact hdir⟩
    exact ⟨files, features, hpasses, hfiles⟩
  · obtain ⟨features, hpasses, hfiles⟩ := h
    obtain ⟨hsound, hc⟩ := hpasses.sound hm hs
    obtain ⟨hnodup, hmem, -⟩ := features_words hs hc
    obtain ⟨mdir, hmdir⟩ := hsound.machine
    have hmfound : l.findMachineDir [machine] = some mdir := (findMachineDir_iff hsound.machinesOnce hm).mpr hmdir
    have hdirs : l.checkout.dirs machine (splitWords features) =
        l.templateConf :: mdir :: (splitWords features).filterMap fun w => l.findFeatureDir [w] := by
      rw [Checkout.dirs, checkout_machineDir, hmfound]
      simp only [checkout]
      rfl
    refine ⟨mdir :: (splitWords features).filterMap fun w => l.findFeatureDir [w],
      nodup_used hmdir hm hnodup fun w hw => hs w ((hmem w).mp hw), fun dir => ?_, fun kind => ?_⟩
    · rw [List.mem_cons, List.mem_filterMap]
      refine or_congr ⟨?_, fun h => hsound.machinesOnce.eq isPlain_machineDirs hm h hmdir⟩ (exists_congr fun g => ?_)
      · rintro rfl
        exact hmdir
      · rw [hmem]
        exact and_congr_right fun hg => findFeatureDir_iff hsound.featuresOnce (hs g hg)
    · obtain ⟨fs, hperm, hproper, hsorted, hget⟩ :=
        Checkout.genconfig_sorted hin (fun w hw => (hmem w).mp hw) hfiles kind
      rw [hdirs] at hperm
      exact ⟨fs, hperm, hsorted.imp_of_mem fun hf hg => Checkout.before_of_item_le (hproper _ hf) (hproper _ hg), hget⟩

/-! ## A small disk -/

/-- The names in the directories: a repository with the machine `m` and the
feature `a`, which includes `b`, and another one with `b`. -/
def smallEntries : List (Text × Text) :=
  ["/m".toList, "/m/.".toList].flatMap fun root =>
    let templates := child root "meta-a/templates".toList
    let others := child root "meta-b/templates".toList
    [(root, "base".toList), (root, "meta-a".toList), (root, "meta-b".toList),
      (child root "base".toList, "50_local.conf.inc".toList), (child root "meta-a".toList, "templates".toList),
      (templates, "machine".toList), (templates, "feature".toList), (child templates "machine".toList, ['m']),
      (child templates "feature".toList, ['a']), (child templates "feature/a".toList, "included.dep".toList),
      (child root "meta-b".toList, "templates".toList), (others, "feature".toList),
      (child others "feature".toList, ['b']), (child others "feature/b".toList, "50_local.conf.inc".toList)]

def smallPaths : List Text := "/m".toList :: "/m/.".toList :: smallEntries.map fun e => child e.1 e.2

/-- Only the files have a dot in their name. -/
def smallDirs : List Text :=
  "/m".toList :: "/m/.".toList :: (smallEntries.filter fun e => '.' ∉ e.2).map fun e => child e.1 e.2

theorem isPlain_smallEntries : ∀ e ∈ smallEntries, IsPlain e.2 ∧ '/' ∉ e.2 ∧ e.1 ∈ smallPaths := by
  decide +kernel

theorem isPlain_smallPaths : ∀ p ∈ smallPaths, IsPlain p := by
  decide +kernel

/-- The names of a directory. -/
def smallNames (dir : Text) : List Text := (smallEntries.filter fun e => e.1 = dir).map Prod.snd

theorem mem_smallNames : n ∈ smallNames d ↔ (d, n) ∈ smallEntries := by
  simp [smallNames]

def small : Layers where
  metadir := "/m".toList
  templateConf := "/m/base".toList
  names := smallNames
  pathExists p := smallPaths.contains p
  isDir p := smallDirs.contains p
  matching w := if smallPaths.contains w then [w] else []
  readable _ := true
  content _ := "b\n".toList
  isPlain_metadir := by decide
  isPlain_templateConf := by decide
  templateConf_exists := by decide +kernel
  isPlain_names dir n hn := by
    obtain ⟨hplain, hslash, -⟩ := isPlain_smallEntries (dir, n) (mem_smallNames.mp hn)
    exact ⟨hplain, hslash⟩
  nodup_names dir := by
    have hnodup : smallEntries.Nodup := by decide +kernel
    refine (hnodup.filter _).map_on fun e he e' he' h => Prod.ext ?_ h
    exact (of_decide_eq_true (List.mem_filter.mp he).2).trans (of_decide_eq_true (List.mem_filter.mp he').2).symm
  isPlain_exists p hp := isPlain_smallPaths p (List.contains_iff_mem.mp hp)
  exists_isDir p hp := by
    have hsub : ∀ p ∈ smallDirs, smallPaths.contains p = true := by decide +kernel
    exact hsub p (List.contains_iff_mem.mp hp)
  exists_names dir n hn := List.contains_iff_mem.mpr (isPlain_smallEntries (dir, n) (mem_smallNames.mp hn)).2.2
  exists_child dir n hn := by
    rw [List.contains_iff_mem]
    exact List.mem_cons_of_mem _ (List.mem_cons_of_mem _ (List.mem_map.mpr ⟨(dir, n), mem_smallNames.mp hn, rfl⟩))
  names_child dir n hdir hn h := by
    have hbase : baseName (child dir n) = n := baseName_slash dir hn.plain.path.1.1 hn.slash
    rcases List.mem_cons.mp (List.contains_iff_mem.mp h) with hroot | h
    · -- the root itself is in no plain directory
      rw [hroot] at hbase
      rw [← hbase] at hroot
      have hempty : dir ++ ['/', 'm'] = [] ++ ['/', 'm'] := hroot
      exact absurd (List.append_cancel_right hempty) hdir.path.1.1
    · rcases List.mem_cons.mp h with hroot | h
      · rw [hroot] at hbase
        exact absurd (hbase ▸ rfl) hn.visible
      · obtain ⟨e, he, hchild⟩ := List.mem_map.mp h
        obtain ⟨hplain, hslash, -⟩ := isPlain_smallEntries e he
        have hname : e.2 = n := by
          rw [← baseName_slash e.1 hplain.path.1.1 hslash, ← hbase]
          exact congrArg baseName hchild
        have hdir : e.1 = dir := List.append_cancel_right (hname ▸ hchild)
        exact mem_smallNames.mpr (hdir ▸ hname ▸ he)
  exists_matching w p hp := by
    split at hp
    · next hw => exact List.mem_singleton.mp hp ▸ hw
    · cases hp
  matching_literal _ _ := rfl

theorem small_tree : small.tree = Tree.oneEntry := by
  have hincluded : small.tree.included = Tree.oneEntry.included := by decide +kernel
  have hglob : small.tree.glob = Tree.oneEntry.glob := by
    funext w
    have hmatching : small.matching w = if smallPaths.contains w then [w] else [] := rfl
    show small.glob w = [w]
    rw [glob, hmatching]
    split <;> rfl
  cases hsmall : small.tree with
  | mk included glob =>
    rw [hsmall] at hincluded hglob
    cases hincluded
    cases hglob
    rfl

theorem setup_generates_small : ∃ files, small.SetsUp [['a']] ['m'] (some "/b\n".toList) files ∧
    small.Exact [['a']] ['m'] files := by
  have hnames : ∀ g, small.tree.Resolved [['a']] g → g = ['a'] ∨ g = ['b'] := by
    intro g hg
    rw [small_tree] at hg
    exact Tree.resolved_oneEntry hg
  have hs : ∀ g, small.tree.Resolved [['a']] g → IsName g := by
    intro g hg
    rcases hnames g hg with rfl | rfl <;> decide
  have hfind (f : Text) (h : (small.findFeatureDir [f]).isSome = true) :
      ∃ dir, small.IsTemplate small.featureDirs f dir := by
    obtain ⟨dir, hdir⟩ := Option.isSome_iff_exists.mp h
    exact ⟨dir, findFeatureDir_template hdir⟩
  obtain ⟨mdir, hmdir⟩ := Option.isSome_iff_exists.mp
    (show (small.findMachineDir [['m']]).isSome = true by decide +kernel)
  have hsound : small.Sound [['a']] ['m'] (some "/b\n".toList) := {
    machinesOnce := validateMachines_iff.mp (by decide +kernel)
    featuresOnce := validateFeatures_iff.mp (by decide +kernel)
    machine := ⟨mdir, findMachineDir_template (by decide) hmdir⟩
    feature := fun g hg => hfind g (by rcases hnames g hg with rfl | rfl <;> decide +kernel)
    ends := fun f _ g _ hg => by
      rw [small_tree] at hg
      exact Tree.oneEntry_acyclic g (TransGen.mono (fun _ _ h => h.1) _ _ hg)
    builddir := ⟨"/b\n".toList, rfl, by decide⟩ }
  obtain ⟨files, hfiles⟩ := (setup_generates (by decide) hs).1.mpr hsound
  exact ⟨files, hfiles, (setup_generates (by decide) hs).2 files hfiles⟩

end Layers

end Agl.Setup
