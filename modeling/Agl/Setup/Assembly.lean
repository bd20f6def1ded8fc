/-
The fragments of a setup as the script handles them: text that is split,
expanded, sorted and cut (`process_fragments`, `append_fragment` and
`genconfig` of `.aglsetup_genconfig.bash`).

Of `genconfig`, what it appends of fragments to the three files is modelled,
up to the execution of the setup script; what it writes beside the fragments
does not depend on them. Left out are the messages, and the
search for the directories of machine and features, of which only the
results are used. Whether `cat` copies a file to its end is given with the
file.
-/
import Agl.Lib.ShellPath
import Agl.Setup.Features
import Agl.Setup.Genconfig

namespace Agl.Setup

open Sh

/-- A path without blanks and colons. -/
def IsPath (p : Text) : Prop := IsWord p ∧ ':' ∉ p

instance (p : Text) : Decidable (IsPath p) := inferInstanceAs (Decidable (_ ∧ _))

inductive Kind
  | bblayers | localconf | setup
  deriving DecidableEq, Repr

/-- `??[._]<name>*<suffix>` -/
def fragmentPattern (name suffix : String) : List PatternItem :=
  .any :: .any :: .oneOf ['.', '_'] :: (name.toList.map .char ++ .star :: suffix.toList.map .char)

def Kind.pattern : Kind → List PatternItem
  | .bblayers => fragmentPattern "bblayers.conf" ".inc"
  | .localconf => fragmentPattern "local.conf" ".inc"
  | .setup => fragmentPattern "setup" ".sh"

/-- A file of a directory. -/
structure TemplateFile where
  dir : Text
  name : Text
  deriving DecidableEq, Repr

def TemplateFile.path (f : TemplateFile) : Text := f.dir ++ '/' :: f.name

/-- What is collected of it and sorted. -/
def TemplateFile.item (f : TemplateFile) : Text := f.name ++ ':' :: f.path

/-- As the model of runs has it. -/
def TemplateFile.fragment (f : TemplateFile) : Fragment := ⟨String.ofList f.name, String.ofList f.path⟩

def Kind.files : Kind → TemplateDir → List Fragment
  | .bblayers => TemplateDir.bblayers
  | .localconf => TemplateDir.localconf
  | .setup => TemplateDir.setup

/-- What the script finds. -/
structure Checkout extends Tree where
  /-- the paths that a word matches as a pattern, in the working directory -/
  matching : Text → List Text
  glob_eq : ∀ w, glob w = if (matching w).isEmpty then [w] else matching w
  /-- the files in a directory -/
  names : Text → List Text
  /-- `cat` copies it to its end -/
  readable : Text → Bool
  /-- `TEMPLATECONF` -/
  templateConf : Text
  /-- `find_machine_dir`: what it finds -/
  machineDir : Text → Option Text
  /-- `find_feature_dir`: what it finds -/
  featureDir : Text → Option Text
  isPath_matching : ∀ w, ∀ p ∈ matching w, IsPath p
  isPath_names : ∀ dir, ∀ n ∈ names dir, IsPath n ∧ '/' ∉ n
  nodup_names : ∀ dir, (names dir).Nodup
  isPath_templateConf : IsPath templateConf
  isPath_machineDir : ∀ machine, ∀ dir ∈ machineDir machine, IsPath dir
  isPath_featureDir : ∀ feature, ∀ dir ∈ featureDir feature, IsPath dir

namespace Checkout

variable (t : Checkout)

/-! ## process_fragments -/

/-- The matching files of a directory. -/
def found (kind : Kind) (dir : Text) : List TemplateFile :=
  ((t.names dir).filter (expandsTo kind.pattern)).map fun n => ⟨dir, n⟩

/-- What `$dir/??[._]..` is expanded to. -/
def listed (kind : Kind) (dir : Text) : List TemplateFile :=
  ((t.matching dir).flatMap (t.found kind)).insertionSort fun f g => f.path ≤ g.path

/-- `ls $dir/??[._].. 2>/dev/null` -/
def ls (kind : Kind) (dir : Text) : Text := unlines ((t.listed kind dir).map TemplateFile.path)

/-- One round of a loop of `process_fragments`. -/
def addItem (v x : Text) : Option Text :=
  (basename (t.expand x)).map fun out => v ++ ' ' :: (capture out ++ ':' :: x)

/-- One of its three loops. -/
def collect (kind : Kind) (v dir : Text) : Option Text := (t.expand (capture (t.ls kind dir))).foldlM t.addItem v

/-- `FRAGMENTS_BBLAYERS`, `FRAGMENTS_LOCALCONF` and `FRAGMENTS_SETUP` -/
structure Vars where
  bblayers : Text
  localconf : Text
  setup : Text
  deriving DecidableEq, Repr

def Vars.get (v : Vars) : Kind → Text
  | .bblayers => v.bblayers
  | .localconf => v.localconf
  | .setup => v.setup

/-- `process_fragments` on one directory. -/
def processDir (v : Vars) (dir : Text) : Option Vars := do
  let bblayers ← t.collect .bblayers v.bblayers dir
  let localconf ← t.collect .localconf v.localconf dir
  let setup ← t.collect .setup v.setup dir
  some { bblayers, localconf, setup }

/-- `process_fragments` -/
def processFragments (v : Vars) (dirs : List Text) : Option Vars := dirs.foldlM t.processDir v

/-! ## append_fragment -/

/-- What `append_fragment` writes of its arguments: the file it names, the
label, the files `cat` is given, and whether they are copied to the end. -/
structure Block where
  f : Text
  label : Text
  copied : List (Text × Bool)
  deriving DecidableEq, Repr

/-- `append_fragment`, for the arguments behind the output file; the second
`shift` needs one. -/
def appendFragment : List Text → Option Block
  | [] => none
  | f :: label =>
    some {
      f
      label := capture (echo label)
      copied := if f = [] then [] else (t.expand f).map fun p => (p, t.readable p) }

/-- `sed 's/ /\n/g' <<<$v | sort` -/
def sedSort (v : Text) : Text := sort (v.map (fun c => if c = ' ' then '\n' else c) ++ ['\n'])

/-- `${x/#*:/}` -/
def dropPrefix (x : Text) : Text := (x.reverse.takeWhile fun c => c ≠ ':').reverse

/-- What `append_fragment` is given behind `$file`. -/
def labels (kind : Kind) (file : Text) : List Text :=
  match kind with
  | .bblayers | .localconf => []
  | .setup => ["echo '--- fragment ".toList ++ file ++ ['\'']]

/-- One round of a loop of step 5. -/
def appendItem (kind : Kind) (x : Text) : Option Block :=
  t.appendFragment (t.expand (dropPrefix x) ++ labels kind (dropPrefix x))

/-- One of its three loops. -/
def appendAll (kind : Kind) (v : Text) : Option (List Block) :=
  (t.expand (capture (sedSort v))).mapM (t.appendItem kind)

/-! ## genconfig -/

/-- The fragments in the three files. -/
structure Files where
  bblayersConf : List Block
  localConf : List Block
  setupSh : List Block
  deriving DecidableEq, Repr

def Files.get (files : Files) : Kind → List Block
  | .bblayers => files.bblayersConf
  | .localconf => files.localConf
  | .setup => files.setupSh

/-- Step 4 for one feature. -/
def processFeature (v : Vars) (feature : Text) : Option Vars := do
  let dir ← t.featureDir (Tree.arg (t.expand feature) 1)
  t.processFragments v (t.expand dir)

/-- Steps 2 to 4. Machine and features have been found before. -/
def processAll (machine features : Text) : Option Vars := do
  let v ← t.processFragments ⟨[], [], []⟩ (t.expand t.templateConf)
  let dir ← t.machineDir (Tree.arg (t.expand machine) 1)
  let v ← t.processFragments v (t.expand dir)
  (t.expand features).foldlM t.processFeature v

/-- `genconfig` in an empty directory, where it comes to the execution of the
setup script. -/
def genconfig (machine features : Text) : Option Files := do
  let v ← t.processAll machine features
  let bblayersConf ← t.appendAll .bblayers v.bblayers
  let localConf ← t.appendAll .localconf v.localconf
  let setupSh ← t.appendAll .setup v.setup
  some { bblayersConf, localConf, setupSh }

/-- The script, called with these requests, makes these files. -/
def Generates (args : List Text) (machine : Text) (files : Files) : Prop :=
  ∃ features, t.Computes args features ∧ t.genconfig machine features = some files

/-! ## The model of runs -/

/-- What `ls` finds in the directory. -/
def templateDir (dir : Text) : TemplateDir where
  bblayers := (t.found .bblayers dir).map TemplateFile.fragment
  localconf := (t.found .localconf dir).map TemplateFile.fragment
  setup := (t.found .setup dir).map TemplateFile.fragment

def templates : Templates where
  base := t.templateDir t.templateConf
  machineDir machine := (t.machineDir machine.toList).map t.templateDir
  featureDir feature := (t.featureDir feature.toList).map t.templateDir

/-! ## What is asked for -/

/-- The directories of base, machine and features. -/
def dirs (machine : Text) (features : List Text) : List Text :=
  t.templateConf :: ((t.machineDir machine).toList ++ features.filterMap t.featureDir)

/-- By the two characters in front, then by the item. -/
def Before (f g : TemplateFile) : Prop :=
  f.name.take 2 < g.name.take 2 ∨ f.name.take 2 = g.name.take 2 ∧ f.item ≤ g.item

/-- The fragment is there to its end. -/
def wholeBlock (kind : Kind) (f : TemplateFile) : Block :=
  { f := f.path, label := capture (echo (labels kind f.path)), copied := [(f.path, true)] }

/-- Every matching file of the directories, once and in order. -/
def Assembled (kind : Kind) (dirs : List Text) (blocks : List Block) : Prop :=
  ∃ fs : List TemplateFile,
    fs.Perm (dirs.flatMap (t.found kind)) ∧ fs.Pairwise Before ∧ blocks = fs.map (wholeBlock kind)

/-- The files hold the fragments of base, machine and resolved features, and
are the same however the features are requested. -/
structure Correct (args : List Text) (machine : Text) (files : Files) : Prop where
  assembled : ∃ features : List Text, features.Nodup ∧ (∀ g, g ∈ features ↔ t.Resolved args g) ∧
    ∀ kind, t.Assembled kind (t.dirs machine features) (files.get kind)
  order : ∀ args', (∀ f, f ∈ Tree.requested args' ↔ f ∈ Tree.requested args) →
    ∀ files', t.Generates args' machine files' ↔ files' = files

/-- A directory that is asked for. -/
def Used (args : List Text) (machine dir : Text) : Prop :=
  dir = t.templateConf ∨ t.machineDir machine = some dir ∨ ∃ g, t.Resolved args g ∧ t.featureDir g = some dir

/-- The names, paths and items are not patterns that match something else. -/
structure Inert (args : List Text) (machine : Text) : Prop where
  plain : t.Plain args
  expandMachine : t.expand machine = [machine]
  dir : ∀ dir, t.Used args machine dir → t.matching dir = [dir]
  path : ∀ dir, t.Used args machine dir → ∀ kind, ∀ f ∈ t.found kind dir, t.glob f.path = [f.path]
  item : ∀ dir, t.Used args machine dir → ∀ kind, ∀ f ∈ t.found kind dir, t.glob f.item = [f.item]

end Checkout

end Agl.Setup
