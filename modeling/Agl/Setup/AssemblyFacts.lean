/-
What the three configuration files get of the fragments.

Each of the three variables holds the items of the files listed so far, in
some order (`Holds`); sorting forgets the order, and the path is what is
behind the only colon of an item. So a run that comes to its end appends
every matching file, once and in order, of which `cat` may have hidden a
failure (`fragments_assembled`).
-/
import Agl.Setup.Assembly
import Agl.Setup.FeaturesFacts

namespace Agl.Setup

open Sh Relation

namespace Checkout

variable {t : Checkout} {args : List Text} {machine features : Text} {ws : List Text} {kind : Kind} {dir : Text}
  {ds : List Text}
  {f : TemplateFile} {fs : List TemplateFile} {v : Vars}

/-! ## Words -/

theorem expand_of_glob {w : Text} (hw : IsWord w) (h : t.glob w = [w]) : t.expand w = [w] := by
  rw [Tree.expand, Sh.expand, splitWords_of_isWord hw, List.flatMap_singleton, h]

theorem isWord_append {a b : Text} {c : Char} (ha : IsWord a) (hb : IsWord b) (hc : isBlank c = false) :
    IsWord (a ++ c :: b) := by
  refine ⟨by simp, fun d hd => ?_⟩
  rcases List.mem_append.mp hd with hd | hd
  · exact ha.2 d hd
  · rcases List.mem_cons.mp hd with rfl | hd
    · exact hc
    · exact hb.2 d hd

/-! ## The files found -/

theorem mem_found :
    f ∈ t.found kind dir ↔ f.dir = dir ∧ f.name ∈ t.names dir ∧ expandsTo kind.pattern f.name = true := by
  simp only [found, List.mem_map, List.mem_filter]
  constructor
  · rintro ⟨n, ⟨hn, hmatch⟩, rfl⟩
    exact ⟨rfl, hn, hmatch⟩
  · rintro ⟨rfl, hn, hmatch⟩
    exact ⟨f.name, ⟨hn, hmatch⟩, rfl⟩

/-- What a file of a directory with such a path is: its path and its item
can be taken apart again. -/
structure Proper (f : TemplateFile) : Prop where
  path : IsPath f.path
  item : IsWord f.item
  baseName : baseName f.path = f.name
  name : IsPath f.name
  prio : 2 ≤ f.name.length

theorem length_of_pattern (h : expandsTo kind.pattern f.name = true) : 2 ≤ f.name.length := by
  have hmatch : matchItems kind.pattern f.name = true := (Bool.and_eq_true _ _ ▸ h).2
  cases kind <;> cases hname : f.name with
  | nil =>
    rw [hname] at hmatch
    cases hmatch
  | cons c rest =>
    cases rest with
    | nil =>
      rw [hname] at hmatch
      cases hmatch
    | cons d rest =>
      rw [List.length_cons, List.length_cons]
      omega

theorem proper_of_mem (hdir : IsPath dir) (hf : f ∈ t.found kind dir) : Proper f := by
  obtain ⟨rfl, hn, hmatch⟩ := mem_found.mp hf
  obtain ⟨hname, hslash⟩ := t.isPath_names f.dir f.name hn
  have hpath : IsPath f.path := by
    refine ⟨isWord_append hdir.1 hname.1 rfl, ?_⟩
    simp only [TemplateFile.path, List.mem_append, List.mem_cons, not_or]
    exact ⟨hdir.2, by decide, hname.2⟩
  exact ⟨hpath, isWord_append hname.1 hpath.1 rfl, baseName_slash f.dir hname.1.1 hslash, hname,
    length_of_pattern hmatch⟩

theorem Proper.dropPrefix (h : Proper f) : dropPrefix f.item = f.path := by
  have hall : ∀ c ∈ f.path.reverse, decide (c ≠ ':') = true := fun c hc => by
    simpa using fun hc' : c = ':' => h.path.2 (hc' ▸ List.mem_reverse.mp hc)
  rw [Checkout.dropPrefix, TemplateFile.item, List.reverse_append, List.reverse_cons, List.append_assoc,
    List.singleton_append, List.takeWhile_append_of_pos hall, List.takeWhile_cons_of_neg (by decide),
    List.append_nil, List.reverse_reverse]

theorem isPath_of_mem_dirs (h : dir ∈ t.dirs machine ws) : IsPath dir := by
  simp only [dirs, List.mem_cons, List.mem_append, Option.mem_toList, List.mem_filterMap] at h
  rcases h with rfl | h | ⟨feature, -, h⟩
  · exact t.isPath_templateConf
  · exact t.isPath_machineDir machine dir h
  · exact t.isPath_featureDir feature dir h

/-! ## One directory -/

/-- The items of the files, as they are collected. -/
def itemsText (fs : List TemplateFile) : Text := fs.flatMap fun f => ' ' :: f.item

/-- The three variables hold the items of the matching files. -/
def Holds (t : Checkout) (ds : List Text) (v : Vars) : Prop :=
  ∀ kind, ∃ fs : List TemplateFile, fs.Perm (ds.flatMap (t.found kind)) ∧ v.get kind = itemsText fs

/-- Neither the directory nor its files are patterns that match something else. -/
structure InertDir (t : Checkout) (dir : Text) : Prop where
  isPath : IsPath dir
  matching : t.matching dir = [dir]
  path : ∀ kind, ∀ f ∈ t.found kind dir, t.glob f.path = [f.path]

theorem InertDir.expand (h : t.InertDir dir) : t.expand dir = [dir] :=
  expand_of_glob h.isPath.1 (by rw [t.glob_eq, h.matching]; rfl)

theorem addItem_eq (hf : Proper f) (hglob : t.glob f.path = [f.path]) (v : Text) :
    t.addItem v f.path = some (v ++ ' ' :: f.item) := by
  rw [addItem, expand_of_glob hf.path.1 hglob, basename, hf.baseName, Option.map_some,
    capture_line (hf.name.1.not_mem rfl)]
  rfl

theorem foldlM_addItem (hf : ∀ f ∈ fs, Proper f ∧ t.glob f.path = [f.path]) (v : Text) :
    (fs.map TemplateFile.path).foldlM t.addItem v = some (v ++ itemsText fs) := by
  induction fs generalizing v with
  | nil => simp [itemsText]
  | cons f fs ih =>
    obtain ⟨hproper, hglob⟩ := hf f List.mem_cons_self
    rw [List.map_cons, List.foldlM_cons, addItem_eq hproper hglob, Option.bind_eq_bind, Option.bind_some,
      ih fun g hg => hf g (List.mem_cons_of_mem f hg), itemsText, itemsText, List.flatMap_cons, List.append_assoc]

theorem collect_eq (h : t.InertDir dir) (kind : Kind) (v : Text) :
    t.collect kind v dir = some (v ++ itemsText (t.listed kind dir)) ∧
      (t.listed kind dir).Perm (t.found kind dir) := by
  have hperm : (t.listed kind dir).Perm (t.found kind dir) := by
    rw [listed, h.matching, List.flatMap_singleton]
    exact List.perm_insertionSort _ _
  have hfound (f : TemplateFile) (hf : f ∈ t.listed kind dir) : Proper f ∧ t.glob f.path = [f.path] :=
    ⟨proper_of_mem h.isPath (hperm.mem_iff.mp hf), h.path kind f (hperm.mem_iff.mp hf)⟩
  have hwords : splitWords (capture (t.ls kind dir)) = (t.listed kind dir).map TemplateFile.path := by
    have hpaths : ∀ p ∈ (t.listed kind dir).map TemplateFile.path, IsWord p := by
      intro p hp
      obtain ⟨f, hf, rfl⟩ := List.mem_map.mp hp
      exact (hfound f hf).1.path.1
    rw [splitWords_capture, ls, splitWords_unlines fun p hp => .inr (hpaths p hp), List.filter_eq_self]
    intro p hp
    simpa using (hpaths p hp).1
  have hexpand : t.expand (capture (t.ls kind dir)) = (t.listed kind dir).map TemplateFile.path := by
    rw [Tree.expand_eq, hwords]
    intro p hp
    rw [hwords] at hp
    obtain ⟨f, hf, rfl⟩ := List.mem_map.mp hp
    exact (hfound f hf).2
  rw [collect, hexpand]
  exact ⟨foldlM_addItem hfound v, hperm⟩

theorem Holds.processDir (hv : t.Holds ds v) (h : t.InertDir dir) :
    ∃ v', t.processDir v dir = some v' ∧ t.Holds (ds ++ [dir]) v' := by
  refine ⟨⟨v.bblayers ++ itemsText (t.listed .bblayers dir), v.localconf ++ itemsText (t.listed .localconf dir),
    v.setup ++ itemsText (t.listed .setup dir)⟩, ?_, fun kind => ?_⟩
  · simp only [Checkout.processDir, (collect_eq h _ _).1, Option.bind_eq_bind, Option.bind_some]
  · obtain ⟨fs, hperm, hget⟩ := hv kind
    refine ⟨fs ++ t.listed kind dir, ?_, ?_⟩
    · rw [List.flatMap_append, List.flatMap_singleton]
      exact hperm.append (collect_eq h kind []).2
    · cases kind <;> exact (congrArg (· ++ _) hget).trans List.flatMap_append.symm

/-! ## All directories -/

/-- A call of `process_fragments` with the path of one directory. -/
theorem Holds.processFragments (hv : t.Holds ds v) (h : t.InertDir dir) {v' : Vars}
    (hp : t.processFragments v (t.expand dir) = some v') : t.Holds (ds ++ [dir]) v' := by
  obtain ⟨v₁, hv₁, hholds⟩ := hv.processDir h
  rw [h.expand, Checkout.processFragments, List.foldlM_cons, hv₁] at hp
  cases hp
  exact hholds

theorem Holds.processFeatures (hv : t.Holds ds v) (hws : ∀ w ∈ ws, t.expand w = [w])
    (hdirs : ∀ w ∈ ws, ∀ dir ∈ t.featureDir w, t.InertDir dir) {v' : Vars}
    (h : ws.foldlM t.processFeature v = some v') : t.Holds (ds ++ ws.filterMap t.featureDir) v' := by
  induction ws generalizing ds v with
  | nil =>
    cases h
    rw [List.filterMap_nil, List.append_nil]
    exact hv
  | cons w ws ih =>
    rw [List.foldlM_cons] at h
    obtain ⟨v₁, hv₁, h⟩ := Option.bind_eq_some_iff.mp h
    obtain ⟨dir, hdir, hp⟩ := Option.bind_eq_some_iff.mp hv₁
    rw [hws w List.mem_cons_self] at hdir
    have hsome : t.featureDir w = some dir := hdir
    have hholds := ih (hv.processFragments (hdirs w List.mem_cons_self dir hsome) hp)
      (fun w' hw' => hws w' (List.mem_cons_of_mem w hw')) (fun w' hw' => hdirs w' (List.mem_cons_of_mem w hw')) h
    rw [List.filterMap_cons_some hsome, ← List.singleton_append, ← List.append_assoc]
    exact hholds

theorem used_of_mem (hws : ∀ w ∈ ws, t.Resolved args w) (h : dir ∈ t.dirs machine ws) : t.Used args machine dir := by
  simp only [dirs, List.mem_cons, List.mem_append, Option.mem_toList, List.mem_filterMap] at h
  exact h.imp_right (Or.imp_right fun ⟨g, hg, hdir⟩ => ⟨g, hws g hg, hdir⟩)

/-- The variables after step 4. -/
theorem processAll_holds (hin : t.Inert args machine) (hws : ∀ w ∈ splitWords features, t.Resolved args w)
    (h : t.processAll machine features = some v) : t.Holds (t.dirs machine (splitWords features)) v := by
  have hdir (dir : Text) (hd : dir ∈ t.dirs machine (splitWords features)) : t.InertDir dir :=
    ⟨isPath_of_mem_dirs hd, hin.dir dir (used_of_mem hws hd), hin.path dir (used_of_mem hws hd)⟩
  have hempty : t.Holds [] ⟨[], [], []⟩ := fun kind => ⟨[], .nil, by cases kind <;> rfl⟩
  obtain ⟨v₁, hv₁, h⟩ := Option.bind_eq_some_iff.mp h
  obtain ⟨mdir, hmdir, h⟩ := Option.bind_eq_some_iff.mp h
  obtain ⟨v₂, hv₂, h⟩ := Option.bind_eq_some_iff.mp h
  rw [hin.expandMachine] at hmdir
  have hmachine : t.machineDir machine = some mdir := hmdir
  have hmem : t.dirs machine (splitWords features) =
      ([] ++ [t.templateConf] ++ [mdir]) ++ (splitWords features).filterMap t.featureDir := by
    rw [dirs, hmachine]
    rfl
  have hholds := (hempty.processFragments (hdir t.templateConf (by simp [hmem])) hv₁).processFragments
    (hdir mdir (by simp [hmem])) hv₂
  rw [hin.plain.expand hws] at h
  rw [hmem]
  refine hholds.processFeatures (fun w hw => hin.plain.expand_word (hws w hw)) (fun w hw dir hd => hdir dir ?_) h
  rw [hmem]
  exact List.mem_append_right _ (List.mem_filterMap.mpr ⟨w, hw, hd⟩)

/-! ## Sorting -/

/-- `sed` ends every item, and leaves an empty line in front. -/
theorem sed_itemsText (h : ∀ f ∈ fs, IsWord f.item) :
    (itemsText fs).map (fun c => if c = ' ' then '\n' else c) ++ ['\n'] =
      '\n' :: unlines (fs.map TemplateFile.item) := by
  induction fs with
  | nil => rfl
  | cons f fs ih =>
    have hitem : f.item.map (fun c => if c = ' ' then '\n' else c) = f.item := by
      refine (List.map_congr_left fun c hc => if_neg ?_).trans (List.map_id _)
      rintro rfl
      cases (h f List.mem_cons_self).2 ' ' hc
    have ih := ih fun g hg => h g (List.mem_cons_of_mem f hg)
    rw [itemsText, List.flatMap_cons, List.cons_append, List.map_cons, List.map_append, hitem, List.cons_append,
      List.append_assoc]
    rw [itemsText] at ih
    rw [ih, if_pos rfl, List.map_cons, unlines, unlines, List.flatMap_cons, List.append_assoc, List.singleton_append]

theorem splitWords_sedSort (h : ∀ f ∈ fs, IsWord f.item) :
    splitWords (sedSort (itemsText fs)) = (fs.insertionSort fun f g => f.item ≤ g.item).map TemplateFile.item := by
  have hitem : ∀ l ∈ fs.map TemplateFile.item, IsWord l := by
    intro l hl
    obtain ⟨f, hf, rfl⟩ := List.mem_map.mp hl
    exact h f hf
  have hlines : lines ('\n' :: unlines (fs.map TemplateFile.item)) = [] :: fs.map TemplateFile.item := by
    have hnl : ∀ l ∈ fs.map TemplateFile.item, '\n' ∉ l := fun l hl => (hitem l hl).not_mem rfl
    exact (lines_append (l := []) List.not_mem_nil _).trans (congrArg ([] :: ·) (lines_unlines hnl))
  have hwords : ∀ l ∈ ([] :: fs.map TemplateFile.item).insertionSort (· ≤ ·), l = [] ∨ IsWord l := by
    intro l hl
    rw [List.mem_insertionSort, List.mem_cons] at hl
    exact hl.imp_right (hitem l)
  rw [sedSort, sed_itemsText h, sort, hlines, splitWords_unlines hwords, filter_insertionSort,
    List.filter_cons_of_neg (by simp), List.filter_eq_self.mpr fun l hl => by simpa using (hitem l hl).1]
  exact (List.map_insertionSort (fun f g : TemplateFile => f.item ≤ g.item) (· ≤ ·) TemplateFile.item fs
    fun _ _ _ _ => .rfl).symm

/-! ## Appending -/

/-- What is appended of the file. -/
def block (t : Checkout) (kind : Kind) (f : TemplateFile) : Block :=
  { f := f.path, label := capture (echo (labels kind f.path)), copied := [(f.path, t.readable f.path)] }

theorem appendItem_eq (hf : Proper f) (hglob : t.glob f.path = [f.path]) :
    t.appendItem kind f.item = some (t.block kind f) := by
  have hexpand := expand_of_glob hf.path.1 hglob
  rw [appendItem, hf.dropPrefix, hexpand, List.singleton_append, appendFragment, if_neg hf.path.1.1, hexpand]
  rfl

theorem appendAll_eq (hf : ∀ f ∈ fs, Proper f ∧ t.glob f.path = [f.path] ∧ t.glob f.item = [f.item]) :
    t.appendAll kind (itemsText fs) = some ((fs.insertionSort fun f g => f.item ≤ g.item).map (t.block kind)) := by
  have hwords := splitWords_sedSort fun f h => (hf f h).1.item
  have hmem (f : TemplateFile) (h : f ∈ fs.insertionSort fun f g => f.item ≤ g.item) :=
    hf f ((List.mem_insertionSort _).mp h)
  rw [appendAll, Tree.expand_eq, splitWords_capture, hwords, List.mapM_map]
  · generalize (fs.insertionSort fun f g => f.item ≤ g.item) = gs at hmem
    induction gs with
    | nil => rfl
    | cons f gs ih =>
      obtain ⟨hproper, hglob, -⟩ := hmem f List.mem_cons_self
      rw [List.mapM_cons, Function.comp_apply, appendItem_eq hproper hglob,
        ih fun g hg => hmem g (List.mem_cons_of_mem f hg)]
      rfl
  · intro w hw
    rw [splitWords_capture, hwords] at hw
    obtain ⟨f, h, rfl⟩ := List.mem_map.mp hw
    exact (hmem f h).2.2

/-! ## genconfig -/

theorem before_of_item_le (hf : Proper f) {g : TemplateFile} (hg : Proper g) (h : f.item ≤ g.item) : Before f g := by
  have htake (f : TemplateFile) (hf : Proper f) : f.item.take 2 = f.name.take 2 :=
    List.take_append_of_le_length hf.prio
  have hle := take_le_take h 2
  rw [htake f hf, htake g hg] at hle
  exact hle.lt_or_eq.imp_right fun heq => ⟨heq, h⟩

/-- The fragments that a run appends. -/
theorem genconfig_sorted {files : Files} (hin : t.Inert args machine)
    (hws : ∀ w ∈ splitWords features, t.Resolved args w) (h : t.genconfig machine features = some files)
    (kind : Kind) :
    ∃ fs : List TemplateFile, fs.Perm ((t.dirs machine (splitWords features)).flatMap (t.found kind)) ∧
      (∀ f ∈ fs, Proper f) ∧ (fs.Pairwise fun f g => f.item ≤ g.item) ∧ files.get kind = fs.map (t.block kind) := by
  obtain ⟨v, hv, h⟩ := Option.bind_eq_some_iff.mp h
  obtain ⟨b, hb, h⟩ := Option.bind_eq_some_iff.mp h
  obtain ⟨l, hl, h⟩ := Option.bind_eq_some_iff.mp h
  obtain ⟨s, hs, h⟩ := Option.bind_eq_some_iff.mp h
  cases h
  obtain ⟨fs, hperm, hget⟩ := processAll_holds hin hws hv kind
  have hfs (f : TemplateFile) (hf : f ∈ fs) : Proper f ∧ t.glob f.path = [f.path] ∧ t.glob f.item = [f.item] := by
    obtain ⟨dir, hdir, hmem⟩ := List.mem_flatMap.mp (hperm.mem_iff.mp hf)
    have hused := used_of_mem hws hdir
    exact ⟨proper_of_mem (isPath_of_mem_dirs hdir) hmem, hin.path dir hused kind f hmem,
      hin.item dir hused kind f hmem⟩
  have happend : t.appendAll kind (itemsText fs) = _ := appendAll_eq hfs
  rw [← hget] at happend
  refine ⟨fs.insertionSort fun f g => f.item ≤ g.item, (List.perm_insertionSort _ _).trans hperm,
    fun f hf => (hfs f ((List.mem_insertionSort _).mp hf)).1, ?_, ?_⟩
  · exact List.pairwise_insertionSort (fun f g : TemplateFile => f.item ≤ g.item) fs
  · cases kind with
    | bblayers => exact Option.some.inj (hb.symm.trans happend)
    | localconf => exact Option.some.inj (hl.symm.trans happend)
    | setup => exact Option.some.inj (hs.symm.trans happend)

/-! ## The model of runs -/

theorem files_templateDir (kind : Kind) (dir : Text) :
    kind.files (t.templateDir dir) = (t.found kind dir).map TemplateFile.fragment := by
  cases kind <;> rfl

theorem fragment_item (f : TemplateFile) : f.fragment.item.toList = f.item := by
  simp [TemplateFile.fragment, Fragment.item, TemplateFile.item, String.toList_append]

/-- The item says which file it is. -/
theorem Proper.fragment_inj (hf : Proper f) {g : TemplateFile} (hg : Proper g) (h : f.item = g.item) :
    f.fragment = g.fragment := by
  have hpath : f.path = g.path := by rw [← hf.dropPrefix, h, hg.dropPrefix]
  have hname : f.name = g.name := by rw [← hf.baseName, hpath, hg.baseName]
  rw [TemplateFile.fragment, TemplateFile.fragment, hname, hpath]

theorem fragments_perm (kind : Kind) (machine : Text) (ws : List Text) :
    (fragments kind.files t.templates (String.ofList machine) (ws.map String.ofList)).Perm
      (((t.dirs machine ws).flatMap (t.found kind)).map TemplateFile.fragment) := by
  have hopt (o : Option Text) : (o.map t.templateDir).elim [] kind.files =
      (o.toList.flatMap (t.found kind)).map TemplateFile.fragment := by
    cases o with
    | none => rfl
    | some dir => simp [files_templateDir]
  have hfeatures : (ws.map String.ofList).flatMap (fun feature => (t.templates.featureDir feature).elim [] kind.files) =
      ((ws.filterMap t.featureDir).flatMap (t.found kind)).map TemplateFile.fragment := by
    induction ws with
    | nil => rfl
    | cons w ws ih =>
      rw [List.map_cons, List.flatMap_cons, ih]
      simp only [templates, String.toList_ofList, hopt]
      cases hw : t.featureDir w <;> simp [hw]
  refine (List.perm_insertionSort _ _).trans (.of_eq ?_)
  rw [hfeatures]
  simp only [templates, String.toList_ofList, hopt, files_templateDir, dirs, List.flatMap_cons, List.flatMap_append,
    List.map_append]

/-- The text comes down to the sorted fragments that the model of runs has. -/
theorem genconfig_fragments {files : Files} (hin : t.Inert args machine)
    (hws : ∀ w ∈ splitWords features, t.Resolved args w) (h : t.genconfig machine features = some files)
    (kind : Kind) :
    (files.get kind).map (fun b => String.ofList b.f) =
      (fragments kind.files t.templates (String.ofList machine)
        ((splitWords features).map String.ofList)).map Fragment.path := by
  obtain ⟨fs, hperm, hproper, hsorted, hblocks⟩ := genconfig_sorted hin hws h kind
  have hle (f g : TemplateFile) : f.fragment.item ≤ g.fragment.item ↔ f.item ≤ g.item := by
    rw [String.le_iff_toList_le, fragment_item, fragment_item]
  have hfragments : fragments kind.files t.templates (String.ofList machine)
      ((splitWords features).map String.ofList) = fs.map TemplateFile.fragment := by
    have hall := (fragments_perm kind machine (splitWords features)).trans (hperm.symm.map TemplateFile.fragment)
    refine List.Perm.eq_of_pairwise (fun a b ha hb hab hba => ?_)
      (List.pairwise_insertionSort (fun a b : Fragment => a.item ≤ b.item) _)
      (List.pairwise_map.mpr (hsorted.imp fun {f g} hfg => (hle f g).mpr hfg)) hall
    obtain ⟨f, hf, rfl⟩ := List.mem_map.mp (hall.mem_iff.mp ha)
    obtain ⟨g, hg, rfl⟩ := List.mem_map.mp hb
    exact (hproper f hf).fragment_inj (hproper g hg) (le_antisymm ((hle f g).mp hab) ((hle g f).mp hba))
  rw [hfragments, hblocks, List.map_map, List.map_map]
  rfl

/-! ## What is lost -/

/-- What belongs to features with the name of an option is lost. -/
def lost (t : Checkout) (kind : Kind) (ws : List Text) : List TemplateFile :=
  ((ws.filter isEchoOption).filterMap t.featureDir).flatMap (t.found kind)

theorem dirs_perm (hws : ws.Nodup) (hfeatures : (splitWords features).Nodup)
    (h : ∀ w, w ∈ splitWords features ↔ w ∈ ws ∧ isEchoOption w = false) (kind : Kind) :
    ((t.dirs machine ws).flatMap (t.found kind)).Perm
      ((t.dirs machine (splitWords features)).flatMap (t.found kind) ++ t.lost kind ws) := by
  have hkept : (splitWords features).Perm (ws.filter fun w => !isEchoOption w) := by
    refine (List.perm_ext_iff_of_nodup hfeatures (hws.filter _)).mpr fun w => ?_
    rw [h, List.mem_filter, Bool.not_eq_true']
  have hall : ws.Perm (splitWords features ++ ws.filter isEchoOption) :=
    (List.filter_append_perm isEchoOption ws).symm.trans (List.perm_append_comm.trans (hkept.symm.append_right _))
  have hfeature := (hall.filterMap t.featureDir).flatMap_right (t.found kind)
  rw [List.filterMap_append, List.flatMap_append] at hfeature
  simp only [dirs, List.flatMap_cons, List.flatMap_append, List.append_assoc]
  exact (hfeature.append_left _).append_left _

/-- What `cat` has copied to the end is there to the end. -/
theorem block_eq_iff : t.block kind f = wholeBlock kind f ↔ t.readable f.path = true := by
  simp [block, wholeBlock]

theorem lost_eq_nil_iff (hws : ∀ g, g ∈ ws ↔ t.Resolved args g) : t.lost kind ws = [] ↔
    ∀ g, t.Resolved args g → isEchoOption g = true → ∀ dir ∈ t.featureDir g, t.found kind dir = [] := by
  simp only [lost, List.flatMap_eq_nil_iff, List.mem_filterMap, List.mem_filter, hws]
  constructor
  · exact fun h g hg hopt dir hdir => h dir ⟨g, ⟨hg, hopt⟩, hdir⟩
  · rintro h dir ⟨g, ⟨hg, hopt⟩, hdir⟩
    exact h g hg hopt dir hdir

theorem used_iff_mem (hws : ∀ g, g ∈ ws ↔ t.Resolved args g) : dir ∈ t.dirs machine ws ↔ t.Used args machine dir := by
  refine ⟨used_of_mem fun w hw => (hws w).mp hw, fun h => ?_⟩
  simp only [dirs, List.mem_cons, List.mem_append, Option.mem_toList, List.mem_filterMap]
  exact h.imp_right (Or.imp_right fun ⟨g, hg, hdir⟩ => ⟨g, (hws g).mpr hg, hdir⟩)

theorem assembled_iff {files : Files} (hin : t.Inert args machine) (hc : t.Computes args features)
    (h : t.genconfig machine features = some files) (hnodup : ws.Nodup) (hws : ∀ g, g ∈ ws ↔ t.Resolved args g)
    (kind : Kind) :
    t.Assembled kind (t.dirs machine ws) (files.get kind) ↔
      (∀ dir, t.Used args machine dir → ∀ f ∈ t.found kind dir, t.readable f.path = true) ∧ t.lost kind ws = [] := by
  obtain ⟨honce, hmem⟩ := hc.words hin.plain
  obtain ⟨fs, hperm, hproper, hsorted, hblocks⟩ := genconfig_sorted hin (fun w hw => ((hmem w).mp hw).1) h kind
  have hdirs : ((t.dirs machine ws).flatMap (t.found kind)).Perm
      ((t.dirs machine (splitWords features)).flatMap (t.found kind) ++ t.lost kind ws) :=
    t.dirs_perm hnodup honce (fun w => by rw [hmem, hws]) kind
  have hall : ((t.dirs machine ws).flatMap (t.found kind)).Perm (fs ++ t.lost kind ws) :=
    hdirs.trans (hperm.symm.append_right _)
  constructor
  · rintro ⟨gs, hgs, -, hwhole⟩
    have hlost : t.lost kind ws = [] := by
      have hlen : gs.length = fs.length := by
        rw [← List.length_map (wholeBlock kind), ← hwhole, hblocks, List.length_map]
      have hsum := (hgs.trans hall).length_eq
      rw [List.length_append] at hsum
      exact List.eq_nil_of_length_eq_zero (by omega)
    refine ⟨fun dir hdir f hf => ?_, hlost⟩
    rw [hlost, List.append_nil] at hall
    have hfs : f ∈ fs := hall.mem_iff.mp (List.mem_flatMap.mpr ⟨dir, (used_iff_mem hws).mpr hdir, hf⟩)
    have hblock : t.block kind f ∈ gs.map (wholeBlock kind) := by
      rw [← hwhole, hblocks]
      exact List.mem_map_of_mem hfs
    obtain ⟨g, -, hg⟩ := List.mem_map.mp hblock
    have hcopied : [(g.path, true)] = [(f.path, t.readable f.path)] := congrArg Block.copied hg
    simp only [List.cons.injEq, Prod.mk.injEq, and_true] at hcopied
    exact hcopied.2.symm
  · rintro ⟨hread, hlost⟩
    rw [hlost, List.append_nil] at hall
    refine ⟨fs, hall.symm, hsorted.imp_of_mem fun hf hg => before_of_item_le (hproper _ hf) (hproper _ hg),
      hblocks.trans (List.map_congr_left fun f hf => ?_)⟩
    obtain ⟨dir, hdir, hfound⟩ := List.mem_flatMap.mp (hall.mem_iff.mpr hf)
    exact block_eq_iff.mpr (hread dir ((used_iff_mem hws).mp hdir) f hfound)

theorem generates_congr {args' : List Text} {files files' : Files} (hin : t.Inert args machine)
    (hac : ∀ f, ¬ TransGen t.Entry f f) (hsame : ∀ f, f ∈ Tree.requested args' ↔ f ∈ Tree.requested args)
    (h : t.Generates args machine files) : t.Generates args' machine files' ↔ files' = files := by
  obtain ⟨features, hc, hg⟩ := h
  constructor
  · rintro ⟨features', hc', hg'⟩
    rw [hc.congr hin.plain hsame hc', hg] at hg'
    exact (Option.some.inj hg').symm
  · rintro rfl
    have hplain : t.Plain args' := fun g hg => hin.plain g ((Tree.resolved_congr hsame).mp hg)
    obtain ⟨features', hc'⟩ := Tree.computes_of_acyclic hplain hac
    exact ⟨features', hc', by rw [hc.congr hin.plain hsame hc', hg]⟩

/-- **What the configuration files get of the fragments.** For every set of
template files, every acyclic set of `included.dep` files and every request:
a run that makes the files appends every matching file of base, machine and
resolved features, once and in order, and the same for any order of the
requests, if and only if `cat` can copy each of them to its end and none
belongs to a feature whose name `echo` takes for its options. -/
theorem fragments_assembled {files : Files} (hin : t.Inert args machine) (hac : ∀ f, ¬ TransGen t.Entry f f)
    (h : t.Generates args machine files) :
    t.Correct args machine files ↔
      (∀ dir, t.Used args machine dir → ∀ kind, ∀ f ∈ t.found kind dir, t.readable f.path = true) ∧
      (∀ g, t.Resolved args g → isEchoOption g = true → ∀ dir ∈ t.featureDir g, ∀ kind, t.found kind dir = []) := by
  obtain ⟨features, hc, hg⟩ := h
  constructor
  · rintro ⟨⟨ws, hnodup, hws, hall⟩, -⟩
    have hiff (kind : Kind) := (assembled_iff hin hc hg hnodup hws kind).mp (hall kind)
    exact ⟨fun dir hdir kind => (hiff kind).1 dir hdir,
      fun g hg hopt dir hdir kind => (lost_eq_nil_iff hws).mp (hiff kind).2 g hg hopt dir hdir⟩
  · rintro ⟨hread, hopt⟩
    obtain ⟨ws, hws, -⟩ := hc.eq hin.plain
    have hmem (g : Text) : g ∈ ws.dedup ↔ t.Resolved args g := by rw [List.mem_dedup, hws]
    refine ⟨⟨ws.dedup, List.nodup_dedup ws, hmem, fun kind => ?_⟩,
      fun args' hsame files' => generates_congr hin hac hsame ⟨features, hc, hg⟩⟩
    exact (assembled_iff hin hc hg (List.nodup_dedup ws) hmem kind).mpr
      ⟨fun dir hdir => hread dir hdir kind, (lost_eq_nil_iff hmem).mpr fun g hg h dir hdir => hopt g hg h dir hdir kind⟩

/-! ## Small checkouts -/

def knownPaths : List Text := ["base".toList, "machine".toList, "fa".toList, "fb".toList]

theorem isPath_of_known {w : Text} (h : w ∈ knownPaths) : IsPath w := by
  have hall : ∀ w ∈ knownPaths, IsPath w := by decide
  exact hall w h

/-- Two features with a fragment of the same name; no path is a pattern. -/
def twoFeatures : Checkout where
  toTree := Tree.oneEntry
  matching w := if w ∈ knownPaths then [w] else []
  glob_eq w := by
    by_cases hw : w ∈ knownPaths
    · rw [if_pos hw]
      rfl
    · rw [if_neg hw]
      rfl
  names dir := if dir ∈ ["base".toList, "fa".toList, "fb".toList] then ["50_local.conf.inc".toList] else []
  readable _ := true
  templateConf := "base".toList
  machineDir machine := if machine = ['m'] then some "machine".toList else none
  featureDir feature :=
    if feature = ['a'] then some "fa".toList else if feature = ['b'] then some "fb".toList else none
  isPath_matching w p hp := by
    split at hp
    · next hw => exact List.mem_singleton.mp hp ▸ isPath_of_known hw
    · cases hp
  isPath_names dir n hn := by
    split at hn
    · rw [List.mem_singleton.mp hn]
      decide
    · cases hn
  nodup_names dir := by
    split <;> decide
  isPath_templateConf := by decide
  isPath_machineDir machine dir hdir := by
    split at hdir <;> cases hdir
    decide
  isPath_featureDir feature dir hdir := by
    split at hdir
    · cases hdir
      decide
    · split at hdir <;> cases hdir
      decide

theorem twoFeatures_inert : twoFeatures.Inert [['a']] ['m'] where
  plain _ _ := rfl
  expandMachine := rfl
  dir dir hdir := by
    rcases hdir with rfl | hdir | ⟨g, -, hdir⟩
    · rfl
    · cases hdir
      rfl
    · have hg : twoFeatures.featureDir g = if g = ['a'] then some "fa".toList else
          if g = ['b'] then some "fb".toList else none := rfl
      rw [hg] at hdir
      split at hdir
      · cases hdir
        rfl
      · split at hdir <;> cases hdir
        rfl
  path _ _ _ _ _ := rfl
  item _ _ _ _ _ := rfl

theorem fragments_assembled_two :
    ∃ files, twoFeatures.Generates [['a']] ['m'] files ∧ twoFeatures.Correct [['a']] ['m'] files := by
  have hc : twoFeatures.featuresOf 3 [['a']] = some "a b ".toList := by decide +kernel
  obtain ⟨files, hfiles⟩ := Option.isSome_iff_exists.mp
    (show (twoFeatures.genconfig ['m'] "a b ".toList).isSome = true by decide +kernel)
  have h : twoFeatures.Generates [['a']] ['m'] files := ⟨_, ⟨3, hc⟩, hfiles⟩
  refine ⟨files, h, (fragments_assembled twoFeatures_inert Tree.oneEntry_acyclic h).mpr ⟨fun _ _ _ _ _ => rfl, ?_⟩⟩
  intro g hg hopt
  rcases Tree.resolved_oneEntry hg with rfl | rfl <;> cases hopt

/-- A path that matches another one as a pattern. -/
def patternPath : Text := "base/50_local.conf.?.inc".toList

def matchedPath : Text := "base/50_local.conf.a.inc".toList

/-- No feature includes another; the base directory holds the two files. -/
def patternName : Checkout where
  included := []
  glob w := if w = patternPath then [patternPath, matchedPath] else [w]
  matching w :=
    if w = patternPath then [patternPath, matchedPath]
    else if w ∈ matchedPath :: knownPaths then [w] else []
  glob_eq w := by
    by_cases hw : w = patternPath
    · simp only [if_pos hw]
      rfl
    · simp only [if_neg hw]
      by_cases hk : w ∈ matchedPath :: knownPaths
      · rw [if_pos hk]
        rfl
      · rw [if_neg hk]
        rfl
  names dir :=
    if dir = "base".toList then ["50_local.conf.?.inc".toList, "50_local.conf.a.inc".toList] else []
  readable _ := true
  templateConf := "base".toList
  machineDir _ := some "machine".toList
  featureDir _ := none
  isPath_matching w p hp := by
    split at hp
    · have hall : ∀ p ∈ [patternPath, matchedPath], IsPath p := by decide
      exact hall p hp
    · split at hp
      · next hw =>
        rw [List.mem_singleton.mp hp]
        rcases List.mem_cons.mp hw with rfl | hw
        · decide
        · exact isPath_of_known hw
      · cases hp
  isPath_names dir n hn := by
    split at hn
    · have hall : ∀ n ∈ ["50_local.conf.?.inc".toList, "50_local.conf.a.inc".toList], IsPath n ∧ '/' ∉ n := by decide
      exact hall n hn
    · cases hn
  nodup_names dir := by
    split <;> decide
  isPath_templateConf := by decide
  isPath_machineDir machine dir hdir := by
    cases hdir
    decide
  isPath_featureDir feature dir hdir := by cases hdir

/-- A fragment whose path is a pattern for that of another: `cat` is given
both, and the other one is there three times. -/
theorem patternName_repeats :
    (∀ f, ¬ TransGen patternName.Entry f f) ∧
      ∃ files, patternName.Generates [] ['m'] files ∧ ¬ patternName.Correct [] ['m'] files := by
  refine ⟨fun f h => ?_, ?_⟩
  · obtain ⟨g, ⟨text, htext, -⟩, -⟩ := TransGen.head'_iff.mp h
    cases htext
  · have hc : patternName.featuresOf 0 [] = some [] := by decide +kernel
    have hrun : (patternName.genconfig ['m'] []).any (fun files =>
        files.localConf.any fun b => b.copied.length = 2) = true := by
      decide +kernel
    obtain ⟨files, hfiles, hany⟩ := (Option.any_eq_true _ _).mp hrun
    refine ⟨files, ⟨[], ⟨0, hc⟩, hfiles⟩, fun hcorrect => ?_⟩
    obtain ⟨ws, -, -, hall⟩ := hcorrect.assembled
    obtain ⟨fs, -, -, hblocks⟩ := hall .localconf
    obtain ⟨b, hb, hcopied⟩ := List.any_eq_true.mp hany
    have hb' : b ∈ fs.map (wholeBlock .localconf) := hblocks ▸ hb
    obtain ⟨f, -, rfl⟩ := List.mem_map.mp hb'
    -- a whole fragment is one file
    have hlen : (wholeBlock .localconf f).copied.length = 1 := rfl
    exact absurd (hlen.symm.trans (of_decide_eq_true hcopied)) (by decide)

end Checkout

end Agl.Setup
