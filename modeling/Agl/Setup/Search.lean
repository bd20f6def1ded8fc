/-
The search for the templates of a setup, and the checks before anything is
generated: `AGL_REPOSITORIES`, `list_machines`, `validate_machines`,
`find_machine_dir` and their likes for features, `validate_builddir`, and the
part of `.aglsetup_genconfig.bash` that calls them.

The directories are given by the names in each. No name, and no path that
exists, has a blank, a colon or a character of a pattern in it or is an
option of `echo`, no link is broken, and there is no `/included.dep`; what
the command line gives may be any text. `sort` is bytewise, and what
`uniq -c` prints is kept as pairs. The messages are left out.
-/
import Agl.Setup.AssemblyFacts

namespace Agl.Setup

open Sh

/-- The characters that make a word a pattern. -/
def isPatternChar (c : Char) : Bool := c = '*' || c = '?' || c = '[' || c = '\\'

/-- Text that the shell leaves as it is. -/
structure IsPlain (p : Text) : Prop where
  path : IsPath p
  literal : ∀ c ∈ p, isPatternChar c = false
  echo : isEchoOption p = false

instance (p : Text) : Decidable (IsPlain p) :=
  decidable_of_iff (IsPath p ∧ (∀ c ∈ p, isPatternChar c = false) ∧ isEchoOption p = false)
    ⟨fun h => ⟨h.1, h.2.1, h.2.2⟩, fun h => ⟨h.path, h.literal, h.echo⟩⟩

/-- The name of a file that `*` is expanded to. -/
structure IsName (n : Text) : Prop where
  plain : IsPlain n
  slash : '/' ∉ n
  visible : n.head? ≠ some '.'

instance (n : Text) : Decidable (IsName n) :=
  decidable_of_iff (IsPlain n ∧ '/' ∉ n ∧ n.head? ≠ some '.')
    ⟨fun h => ⟨h.1, h.2.1, h.2.2⟩, fun h => ⟨h.plain, h.slash, h.visible⟩⟩

/-- `dir/n` -/
def child (dir n : Text) : Text := dir ++ '/' :: n

/-- What the script finds on the disk. -/
structure Layers where
  /-- `METADIR` -/
  metadir : Text
  /-- `TEMPLATECONF` -/
  templateConf : Text
  /-- the files in a directory -/
  names : Text → List Text
  /-- `[ -e .. ]` -/
  pathExists : Text → Bool
  /-- `[[ -d .. ]]` -/
  isDir : Text → Bool
  /-- the paths that a word matches as a pattern, in the working directory -/
  matching : Text → List Text
  /-- `cat` copies it to its end -/
  readable : Text → Bool
  /-- what `cat` prints of it -/
  content : Text → Text
  isPlain_metadir : IsPlain metadir
  isPlain_templateConf : IsPlain templateConf
  templateConf_exists : pathExists templateConf = true
  isPlain_names : ∀ dir, ∀ n ∈ names dir, IsPlain n ∧ '/' ∉ n
  nodup_names : ∀ dir, (names dir).Nodup
  isPlain_exists : ∀ p, pathExists p = true → IsPlain p
  exists_isDir : ∀ p, isDir p = true → pathExists p = true
  exists_names : ∀ dir, ∀ n ∈ names dir, pathExists dir = true
  exists_child : ∀ dir, ∀ n ∈ names dir, pathExists (child dir n) = true
  names_child : ∀ dir n, IsPlain dir → IsName n → pathExists (child dir n) = true → n ∈ names dir
  exists_matching : ∀ w, ∀ p ∈ matching w, pathExists p = true
  matching_literal : ∀ w, (∀ c ∈ w, isPatternChar c = false) →
    matching w = if pathExists w = true then [w] else []

namespace Layers

variable (l : Layers)

/-- Pathname expansion; a word that matches nothing stays as it is. -/
def glob (w : Text) : List Text := if (l.matching w).isEmpty then [w] else l.matching w

/-- Unquoted text. -/
def expand (s : Text) : List Text := Sh.expand l.glob s

/-- `ls -d .. 2>/dev/null`: what it prints for these words. -/
def lsD (words : List Text) : Text := unlines ((words.filter l.pathExists).insertionSort (· ≤ ·))

/-- What `$dir/<pattern>` is expanded to, where it matches something. -/
def below (pattern : List PatternItem) (dir : Text) : List Text :=
  (l.matching dir).flatMap fun d => ((l.names d).filter (expandsTo pattern)).map (child d)

/-- `echo $(basename ..)` -/
def echoBasename (words : List Text) : Text := echo (l.expand (capture ((basename words).getD [])))

/-! ## The repositories -/

/-- `meta-*` -/
def metaPattern : List PatternItem := "meta-".toList.map .char ++ [.star]

/-- The words behind the `ls -d` of `AGL_REPOSITORIES`. -/
def templateRoots : List Text :=
  let metas := l.below metaPattern l.metadir
  metas.map (fun d => child d "templates/machine".toList) ++ metas.map (fun d => child d "templates/feature".toList) ++
    (l.below [.star] (child l.metadir "bsp".toList)).map fun d => child d "templates/machine".toList

/-- `echo $(basename $(dirname $(dirname $x)))` -/
def repositoryOf (x : Text) : Text :=
  l.echoBasename (l.expand (capture (dirname (l.expand (capture (dirname (l.expand x)))))))

/-- `AGL_REPOSITORIES` -/
def aglRepositories : Text :=
  capture (unlines (Tree.sortU (lines ((l.expand (capture (l.lsD l.templateRoots))).flatMap l.repositoryOf))))

/-- The words of `$AGL_REPOSITORIES`. -/
def repositories : List Text := l.expand l.aglRepositories

/-! ## Machines and features -/

/-- `$METADIR/{.,bsp}/$a/templates/machine` -/
def machineDirsOf (a : Text) : List Text :=
  [child l.metadir ("./".toList ++ child a "templates/machine".toList),
    child l.metadir ("bsp/".toList ++ child a "templates/machine".toList)]

/-- `$METADIR/$x/templates/feature` -/
def featureDirsOf (x : Text) : List Text := [child l.metadir (child x "templates/feature".toList)]

/-- The loop over `$(ls -d ../* 2>/dev/null)`. -/
def listDirs (dirs : List Text) : Text :=
  (l.expand (capture (l.lsD (dirs.flatMap (l.below [.star]))))).flatMap fun y => l.echoBasename (l.expand y)

/-- `list_machines` -/
def listMachines (args : List Text) : Text := (args.flatMap l.expand).flatMap fun a => l.listDirs (l.machineDirsOf a)

/-- `list_features` -/
def listFeatures (args : List Text) : Text := (args.flatMap l.expand).flatMap fun x => l.listDirs (l.featureDirsOf x)

/-- `list_all_machines` -/
def listAllMachines : Text := l.repositories.flatMap fun x => l.listMachines (l.expand x)

/-- `list_all_features` -/
def listAllFeatures : Text := l.repositories.flatMap fun x => l.listFeatures (l.expand x)

/-- `.. | sort | uniq -c | while read cnt ..`: no count is different from 1. -/
def countedOnce (listed : Text) : Bool := (uniqC (lines (sort listed))).all fun p => p.1 = 1

/-- `validate_machines` -/
def validateMachines : Bool := countedOnce l.listAllMachines

/-- `validate_features` -/
def validateFeatures : Bool := countedOnce l.listAllFeatures

/-- `[[ -d $dir ]] && echo $dir`, as its caller gets it. -/
def echoDir (dir : Text) : Option Text := if l.isDir dir then some (capture (echo (l.expand dir))) else none

/-- `find_machine_dir`, unless it returns 1. -/
def findMachineDir (args : List Text) : Option Text :=
  l.repositories.findSome? fun x =>
    let dirs := capture (l.lsD ((l.machineDirsOf x).flatMap fun dir => l.expand (child dir (Tree.arg args 1))))
    (l.expand dirs).findSome? l.echoDir

/-- `find_feature_dir`, unless it returns 1. -/
def findFeatureDir (args : List Text) : Option Text :=
  l.repositories.findSome? fun x =>
    (l.featureDirsOf x).findSome? fun dir => l.echoDir (child dir (Tree.arg args 1))

/-! ## Plain words -/

variable {l}

theorem glob_literal {w : Text} (h : ∀ c ∈ w, isPatternChar c = false) : l.glob w = [w] := by
  rw [glob, l.matching_literal w h]
  split <;> simp_all

theorem expand_plain {w : Text} (h : IsPlain w) : l.expand w = [w] := by
  rw [expand, Sh.expand, splitWords_of_isWord h.path.1, List.flatMap_singleton, glob_literal h.literal]

/-- What is found is a directory. -/
theorem echoDir_eq_some {dir out : Text} : l.echoDir dir = some out ↔ l.isDir dir = true ∧ out = dir := by
  unfold echoDir
  split
  · next hdir =>
    have hplain := l.isPlain_exists dir (l.exists_isDir dir hdir)
    rw [expand_plain hplain, echo_of_word hplain.echo, capture_line (hplain.path.1.not_mem rfl), Option.some.injEq]
    exact ⟨fun h => ⟨hdir, h.symm⟩, fun h => h.2.symm⟩
  · next hdir =>
    constructor
    · intro h
      cases h
    · exact fun h => absurd h.1 hdir

theorem isPath_echoDir {dir out : Text} (h : l.echoDir dir = some out) : IsPath out := by
  obtain ⟨hdir, rfl⟩ := echoDir_eq_some.mp h
  exact (l.isPlain_exists out (l.exists_isDir out hdir)).path

variable (l)

/-! ## The checks -/

/-- `[[:space:]]` -/
def isSpace (c : Char) : Bool := isBlank c || c.toNat = 11 || c.toNat = 12 || c.toNat = 13

/-- `validate_builddir` -/
def validateBuilddir (builddir : Text) : Bool := !builddir.any isSpace

/-- `$featuredir/included.dep` -/
def includedDep (f : Text) : Option Text :=
  (l.findFeatureDir [f]).bind fun dir =>
    if l.pathExists (child dir "included.dep".toList) then some (l.content (child dir "included.dep".toList)) else none

/-- The directories of all features, in the order of the search. -/
def featureDirs : List Text := l.repositories.flatMap l.featureDirsOf

/-- Those of all machines. -/
def machineDirs : List Text := l.repositories.flatMap l.machineDirsOf

/-- As the resolution of features has it. -/
def tree : Tree where
  included := (l.featureDirs.flatMap l.names).filterMap fun f => (l.includedDep f).map fun text => (f, text)
  glob := l.glob

/-- From `validate_machines` to `validate_builddir`: `FEATURES`, unless the
script has exited. `builddir` is what `pwd -P` prints, if the directory can
be entered. -/
def validated (fuel : Nat) (args : List Text) (machine : Text) (builddir : Option Text) : Option Text := do
  guard l.validateMachines
  guard (l.findMachineDir (l.expand machine)).isSome
  guard l.validateFeatures
  let features ← l.tree.featuresOf fuel args
  guard ((l.expand features).all fun f => (l.findFeatureDir (l.expand f)).isSome)
  let dir ← builddir
  guard (validateBuilddir (capture dir))
  return features

/-- The script passes its checks with these features. -/
def Passes (args : List Text) (machine : Text) (builddir : Option Text) (features : Text) : Prop :=
  ∃ fuel, l.validated fuel args machine builddir = some features

/-- The checkout with what is found in it. -/
def checkout : Checkout where
  toTree := l.tree
  matching := l.matching
  glob_eq _ := rfl
  names := l.names
  readable := l.readable
  templateConf := l.templateConf
  machineDir machine := l.findMachineDir [machine]
  featureDir feature := l.findFeatureDir [feature]
  isPath_matching w p hp := (l.isPlain_exists p (l.exists_matching w p hp)).path
  isPath_names dir n hn := (l.isPlain_names dir n hn).imp_left IsPlain.path
  nodup_names := l.nodup_names
  isPath_templateConf := l.isPlain_templateConf.path
  isPath_machineDir machine dir hdir := by
    obtain ⟨x, -, hx⟩ := List.exists_of_findSome?_eq_some hdir
    obtain ⟨d, -, hd⟩ := List.exists_of_findSome?_eq_some hx
    exact isPath_echoDir hd
  isPath_featureDir feature dir hdir := by
    obtain ⟨x, -, hx⟩ := List.exists_of_findSome?_eq_some hdir
    obtain ⟨d, -, hd⟩ := List.exists_of_findSome?_eq_some hx
    exact isPath_echoDir hd

@[simp] theorem checkout_machineDir (machine : Text) : l.checkout.machineDir machine = l.findMachineDir [machine] := by
  simp only [checkout]

@[simp] theorem checkout_featureDir (feature : Text) : l.checkout.featureDir feature = l.findFeatureDir [feature] := by
  simp only [checkout]

/-- The script passes its checks and makes these files. -/
def SetsUp (args : List Text) (machine : Text) (builddir : Option Text) (files : Checkout.Files) : Prop :=
  ∃ features, l.Passes args machine builddir features ∧ l.checkout.genconfig machine features = some files

/-! ## What is asked for -/

/-- No name is in two of the directories. -/
def Once (dirs : List Text) : Prop :=
  ∀ n, IsName n → ∀ d ∈ dirs, ∀ e ∈ dirs, n ∈ l.names d → n ∈ l.names e → d = e

/-- In one of the directories there is a directory of that name. -/
def IsTemplate (dirs : List Text) (n dir : Text) : Prop := ∃ d ∈ dirs, dir = child d n ∧ l.isDir dir = true

/-- No two repositories have a machine or a feature of the same name, what is
asked for is there, no cycle of dependencies is met, and the build directory
can be entered and has no blank in its path. -/
structure Sound (args : List Text) (machine : Text) (builddir : Option Text) : Prop where
  machinesOnce : l.Once l.machineDirs
  featuresOnce : l.Once l.featureDirs
  machine : ∃ dir, l.IsTemplate l.machineDirs machine dir
  feature : ∀ g, l.tree.Resolved args g → ∃ dir, l.IsTemplate l.featureDirs g dir
  ends : ∀ f ∈ Tree.requested args, Acyclic (l.tree.Cut (Tree.firstRequested args)) f
  builddir : ∃ dir ∈ builddir, ∀ c ∈ capture dir, isSpace c = false

/-- The files hold the fragments of the base directory and of every directory
of a template that is asked for, each directory once, in order. -/
def Exact (args : List Text) (machine : Text) (files : Checkout.Files) : Prop :=
  ∃ dirs : List Text, dirs.Nodup ∧
    (∀ dir, dir ∈ dirs ↔ l.IsTemplate l.machineDirs machine dir ∨
      ∃ g, l.tree.Resolved args g ∧ l.IsTemplate l.featureDirs g dir) ∧
    ∀ kind, ∃ fs : List TemplateFile, fs.Perm ((l.templateConf :: dirs).flatMap (l.checkout.found kind)) ∧
      fs.Pairwise Checkout.Before ∧ files.get kind = fs.map (l.checkout.block kind)

end Layers

end Agl.Setup
