/-
`.aglsetup_genconfig.bash` on one build directory: the configuration files
it generates from the fragments of the base, machine and feature templates,
and the setup manifest.

A run is given its machine and its features as resolved. What `ls` finds in
the template directories is given, and is the same for every run; `sort` is
bytewise. Of a configuration file only what `append_fragment` writes is
modelled: the samples that `oe-init-build-env` puts in front, and what the
setup fragments add themselves, are left out. So are the logs,
`templateconf.cfg`, which any run writes alike, the options that change
neither machine nor features, and `-h` and `-V`, with which nothing is set up.
-/
import Mathlib.Data.List.Sort
import Agl.Lib.Machine
import Agl.Lib.Script

namespace Agl.Setup

/-! ## Templates -/

/-- A file of a template directory. -/
structure Fragment where
  name : String
  path : String
  deriving DecidableEq, Repr

/-- What `ls` finds in a directory for the three patterns of
`process_fragments`. -/
structure TemplateDir where
  bblayers : List Fragment
  localconf : List Fragment
  setup : List Fragment
  deriving DecidableEq, Repr

structure Templates where
  base : TemplateDir
  /-- `find_machine_dir` -/
  machineDir : String → Option TemplateDir
  /-- `find_feature_dir` -/
  featureDir : String → Option TemplateDir

/-- The item that is sorted. -/
def Fragment.item (f : Fragment) : String := f.name ++ ":" ++ f.path

/-- `process_fragments` on the base, the machine and the features, and the
sort of step 5. -/
def fragments (kind : TemplateDir → List Fragment) (t : Templates) (machine : String) (features : List String) :
    List Fragment :=
  List.insertionSort (fun a b => a.item ≤ b.item)
    (kind t.base ++ ((t.machineDir machine).elim [] kind ++
      features.flatMap fun feature => (t.featureDir feature).elim [] kind))

/-! ## The build directory -/

/-- What `append_fragment` is given. -/
inductive Source
  | file (f : Fragment)
  /-- the here-document for `distro-manifest-generator.sh` -/
  | distro
  /-- the first lines of `setup.sh`, with what they export -/
  | header (machine : String) (features : List String)
  /-- its last fragment, a line without a file -/
  | endOfSetup
  deriving DecidableEq, Repr

/-- It has a file that is copied with `cat .. || true`. -/
def Source.isCopied : Source → Bool
  | .file _ | .distro => true
  | .header .. | .endOfSetup => false

/-- A fragment in a file, and whether it is complete. -/
structure Copy where
  source : Source
  whole : Bool
  deriving DecidableEq, Repr

inductive Target
  | bblayersConf | localConf | setupSh
  deriving DecidableEq, Repr

structure BuildDir where
  /-- `conf/bblayers.conf` -/
  bblayersConf : Option (List Copy)
  /-- `conf/local.conf` -/
  localConf : Option (List Copy)
  /-- `conf/setup.sh` -/
  setupSh : Option (List Copy)
  /-- the setup script that has run to its end since the configuration files were created -/
  setupRun : Option (List Copy)
  /-- machine and features in `aglsetup.manifest` -/
  manifest : Option (String × List String)
  deriving DecidableEq, Repr

def BuildDir.file (d : BuildDir) : Target → Option (List Copy)
  | .bblayersConf => d.bblayersConf
  | .localConf => d.localConf
  | .setupSh => d.setupSh

/-- `>>` -/
def BuildDir.append (d : BuildDir) (target : Target) (copies : List Copy) : BuildDir :=
  let file := some ((d.file target).getD [] ++ copies)
  match target with
  | .bblayersConf => { d with bblayersConf := file }
  | .localConf => { d with localConf := file }
  | .setupSh => { d with setupSh := file }

/-- `conf/local.conf` or `conf/bblayers.conf` exists. -/
def BuildDir.configured (d : BuildDir) : Bool := d.localConf.isSome || d.bblayersConf.isSome

/-! ## The script -/

inductive Cmd
  /-- `rm -f`, with `--force` -/
  | rm
  /-- `oe-init-build-env`, and `oe-setup-builddir`, which it runs -/
  | oeInit
  | append (target : Target) (source : Source)
  /-- `cat >$BUILDDIR/conf/setup.sh` -/
  | setupHeader (machine : String) (features : List String)
  /-- `execute_setup .. | tee ..` -/
  | executeSetup
  /-- `rm $BUILDDIR/conf/setup.sh` -/
  | rmSetup
  /-- `cat >$BUILDDIR/$SETUP_MANIFEST` -/
  | manifest (machine : String) (features : List String)
  /-- `agl-init-build-env`, and the script for the caller -/
  | initBuildEnv | setupScript
  deriving DecidableEq, Repr

def Cmd.passed (d : BuildDir) : Cmd → Option BuildDir
  | .rm => some { d with localConf := none, bblayersConf := none, setupSh := none, setupRun := none }
  | .oeInit => some { d with localConf := some [], bblayersConf := some [], setupRun := none }
  | .append target source => some (d.append target [⟨source, true⟩])
  | .setupHeader machine features => some { d with setupSh := some [⟨.header machine features, true⟩] }
  | .executeSetup => d.setupSh.map fun script => { d with setupRun := some script }
  | .rmSetup => some { d with setupSh := none }
  | .manifest machine features => some { d with manifest := some (machine, features) }
  | .initBuildEnv | .setupScript => some d

/-- Only `append_fragment` hides a failure: that of its `cat`.
`oe-setup-builddir` runs without `-e` as well, but what it hides are failures
to copy the samples, which are left out. -/
def Cmd.hidden (d : BuildDir) : Cmd → Option BuildDir
  | .append target source => if source.isCopied then some (d.append target [⟨source, false⟩]) else none
  | _ => none

/-- What a command leaves that fails, by how far it got. -/
def Cmd.failed (d : BuildDir) : Cmd → Nat → BuildDir
  | .rm, n => match n with
    | 0 => d
    | 1 => { d with localConf := none, setupRun := none }
    | 2 => { d with bblayersConf := none, setupRun := none }
    | _ => { d with localConf := none, bblayersConf := none, setupRun := none }
  | .oeInit, n => match n with
    | 0 => { d with setupRun := none }
    | 1 => { d with localConf := some [], setupRun := none }
    | _ => { d with localConf := some [], bblayersConf := some [], setupRun := none }
  | .append target source, n => match n with
    | 0 => d
    | 1 => d.append target [⟨source, false⟩]
    | _ => d.append target [⟨source, true⟩]
  | .setupHeader machine features, n => match n with
    | 0 => d
    | _ => { d with setupSh := some [⟨.header machine features, false⟩] }
  | .manifest .., n => match n with
    | 0 => d
    | _ => { d with manifest := none }
  | .executeSetup, n => match n with
    | 0 => d
    -- the setup script ran to its end, `tee` failed
    | _ => { d with setupRun := d.setupSh }
  | .rmSetup, _ | .initBuildEnv, _ | .setupScript, _ => d

def shell : Shell Cmd BuildDir where
  passed c whole d := if whole then c.passed d else c.hidden d
  failed c n d := c.failed d n

/-- What goes to `bblayers.conf`. -/
def bblayersSources (t : Templates) (machine : String) (features : List String) : List Source :=
  (fragments TemplateDir.bblayers t machine features).map .file

/-- What goes to `local.conf`. -/
def localConfSources (t : Templates) (machine : String) (features : List String) : List Source :=
  (fragments TemplateDir.localconf t machine features).map .file ++ [.distro]

/-- What goes to `setup.sh`, behind its header. -/
def setupSources (t : Templates) (machine : String) (features : List String) : List Source :=
  (fragments TemplateDir.setup t machine features).map .file ++ [.endOfSetup]

/-- `genconfig` up to `execute_setup` -/
def genconfigFiles (t : Templates) (machine : String) (features : List String) : List Cmd :=
  .oeInit :: ((bblayersSources t machine features).map (.append .bblayersConf) ++
    ((localConfSources t machine features).map (.append .localConf) ++
      .setupHeader machine features :: (setupSources t machine features).map (.append .setupSh)))

/-- `genconfig` -/
def genconfig (t : Templates) (machine : String) (features : List String) : List Cmd :=
  genconfigFiles t machine features ++ [.executeSetup, .rmSetup]

/-- One run of the script. -/
structure Run where
  machine : String
  features : List String
  force : Bool
  /-- for each command passed, whether all went well -/
  passed : List Bool
  /-- how far the command got that failed, if one did -/
  stop : Option Nat
  deriving DecidableEq, Repr

/-- Steps 2 to 4. -/
def manifestAndScripts (r : Run) : List Cmd := [.manifest r.machine r.features, .initBuildEnv, .setupScript]

/-- The commands of the run. -/
def commands (t : Templates) (d : BuildDir) (r : Run) : List Cmd :=
  (if r.force then [.rm] else []) ++
    ((if !r.force && d.configured then [] else genconfig t r.machine r.features) ++ manifestAndScripts r)

/-- Machine and features have been found. -/
def Templates.found (t : Templates) (r : Run) : Bool :=
  (t.machineDir r.machine).isSome && r.features.all fun feature => (t.featureDir feature).isSome

/-! ## Runs -/

structure State where
  dir : BuildDir
  /-- the last run has exited with 0 -/
  exited0 : Bool
  deriving DecidableEq, Repr

def step (t : Templates) (s : State) (r : Run) : Option State :=
  if t.found r then
    (shell.exec (commands t s.dir r) r.passed r.stop s.dir).map fun dir => { dir, exited0 := r.stop = none }
  else some { s with exited0 := false }

/-- A directory in which there was no run yet. -/
def emptyDir : State := { dir := ⟨none, none, none, none, none⟩, exited0 := false }

def machine (t : Templates) : Machine State Run where
  init s := s = emptyDir
  step := step t

/-! ## What is asked for -/

/-- The sources, all complete. -/
def wholeCopies (sources : List Source) : List Copy := sources.map fun source => ⟨source, true⟩

/-- The configuration of the machine with the features is there, and its
setup script has run. Which fragments these are, in which order, is the search
of the script itself (`Checkout.genconfig_fragments`). -/
structure Complete (t : Templates) (d : BuildDir) (machine : String) (features : List String) : Prop where
  bblayersConf : d.bblayersConf = some (wholeCopies (bblayersSources t machine features))
  localConf : d.localConf = some (wholeCopies (localConfSources t machine features))
  setup : d.setupRun = some (wholeCopies (.header machine features :: setupSources t machine features))

/-- The stored configuration agrees with the manifest. -/
def Agrees (t : Templates) (s : State) : Prop :=
  s.exited0 = true → ∃ machine features, s.dir.manifest = some (machine, features) ∧ Complete t s.dir machine features

/-- No fragment has been lost. -/
def Intact (file : Option (List Copy)) : Prop := ∀ l ∈ file, ∀ c ∈ l, c.whole = true

instance (file : Option (List Copy)) : Decidable (Intact file) :=
  inferInstanceAs (Decidable (∀ l ∈ file, ∀ c ∈ l, c.whole = true))

/-- The configuration files were generated for the machine with the features
without losing a fragment, and their setup script has run. -/
structure BuildDir.GeneratedFor (d : BuildDir) (machine : String) (features : List String) : Prop where
  setup : ∃ l, d.setupRun = some (⟨.header machine features, true⟩ :: l)
  bblayersConf : Intact d.bblayersConf
  localConf : Intact d.localConf
  setupRun : Intact d.setupRun

instance (d : BuildDir) (machine : String) (features : List String) : Decidable (d.GeneratedFor machine features) :=
  decidable_of_iff (d.setupRun.bind List.head? = some ⟨.header machine features, true⟩ ∧ Intact d.bblayersConf ∧
    Intact d.localConf ∧ Intact d.setupRun) <| by
    constructor
    · rintro ⟨hs, hb, hl, hr⟩
      obtain ⟨l, hrun, hh⟩ := Option.bind_eq_some_iff.mp hs
      obtain ⟨rest, rfl⟩ := List.head?_eq_some_iff.mp hh
      exact ⟨⟨rest, hrun⟩, hb, hl, hr⟩
    · rintro ⟨⟨l, hrun⟩, hb, hl, hr⟩
      exact ⟨by rw [hrun]; rfl, hb, hl, hr⟩

/-- A run that is not ended by a failure loses no fragment, and if it leaves
the configuration files as they are, they were generated for its machine
with its features. -/
def Orderly (t : Templates) (s : State) (r : Run) : Prop :=
  t.found r = true → r.stop = none →
    false ∉ r.passed ∧ ((!r.force && s.dir.configured) = true → s.dir.GeneratedFor r.machine r.features)

instance (t : Templates) (s : State) (r : Run) : Decidable (Orderly t s r) :=
  inferInstanceAs (Decidable (t.found r = true → r.stop = none →
    false ∉ r.passed ∧ ((!r.force && s.dir.configured) = true → s.dir.GeneratedFor r.machine r.features)))

end Agl.Setup
