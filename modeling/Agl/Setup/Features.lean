/-
The features of a setup (`.aglsetup_genconfig.bash`): the requested ones and
what their `included.dep` files name.

The functions of the script hand their results on as text, and take their
arguments as the words of unquoted text: `$n` is the n-th word of the line
that calls them. A feature whose `included.dep` exists is given with the
text of that file. Left out are the messages, and the search for the
directory of a feature, of which only that file is used.
-/
import Mathlib.Data.String.Basic
import Mathlib.Data.List.Sort
import Mathlib.Data.List.Dedup
import Mathlib.Logic.Relation
import Agl.Lib.ShellText

namespace Agl.Setup

open Sh

/-- What the script finds. -/
structure Tree where
  /-- the features with an `included.dep`, and its text -/
  included : List (Text × Text)
  /-- pathname expansion of a word, in the working directory -/
  glob : Text → List Text

namespace Tree

variable (t : Tree)

/-- Unquoted text: word splitting, then pathname expansion. -/
def expand (s : Text) : List Text := Sh.expand t.glob s

/-- `$n` of a function called with these words. -/
def arg (args : List Text) (n : Nat) : Text := args.getD (n - 1) []

/-- `containsFeature`: does it return 0? -/
def containsFeature (args : List Text) : Bool := !(t.expand (arg args 1)).contains (arg args 2)

/-- `$featuredir/included.dep`, of the feature `find_feature_dir` is called with. -/
def includedDep (feature : Text) : Option Text := t.included.lookup (arg (t.expand feature) 1)

/-- The variables of `find_feature_dependency` in its loop. -/
structure Locals where
  fullFeature : Text
  resDepFeatures : Text
  deriving DecidableEq, Repr

/-- One round of the loop of `find_feature_dependency`; `call` is a call of
itself, with what it prints. -/
def visit (call : List Text → Option Text) (v : Locals) (depFeature : Text) : Option Locals :=
  let full := v.fullFeature ++ ' ' :: v.resDepFeatures
  let res := v.resDepFeatures ++ ' ' :: depFeature
  let args := t.expand depFeature ++ t.expand full
  if t.containsFeature args then
    (call args).map fun out => { fullFeature := full, resDepFeatures := res ++ ' ' :: capture out }
  else some { fullFeature := full, resDepFeatures := res }

/-- `find_feature_dependency`: what it prints, if the calls are not nested
deeper than `fuel`. -/
def findFeatureDependency : Nat → List Text → Option Text
  | 0, _ => none
  | fuel + 1, args =>
    match t.includedDep (arg args 1) with
    | none => some (echo [[]])
    | some text =>
      ((t.expand (capture text)).foldlM (t.visit (findFeatureDependency fuel)) ⟨arg args 2, []⟩).map fun v =>
        echo [v.resDepFeatures]

/-- One round of the loop that fills `TMP_FEATURES`. -/
def addFeature (fuel : Nat) (tmpFeatures feature : Text) : Option Text :=
  let tmpFeatures := tmpFeatures ++ ' ' :: feature
  (t.findFeatureDependency fuel (t.expand feature ++ t.expand tmpFeatures)).map fun out =>
    tmpFeatures ++ ' ' :: capture out

/-- `TMP_FEATURES` -/
def tmpFeatures (fuel : Nat) (features : Text) : Option Text := (t.expand features).foldlM (t.addFeature fuel) []

/-- `sort -u` -/
def sortU (ls : List Text) : List Text := ls.dedup.insertionSort (· ≤ ·)

/-- `awk '{printf("%s ",$1);}'` -/
def awk (ls : List Text) : Text := ls.flatMap fun l => arg (splitWords l) 1 ++ [' ']

/-- `FEATURES`, for what the command line gives. -/
def featuresOf (fuel : Nat) (args : List Text) : Option Text :=
  (t.tmpFeatures fuel (joinWords args)).map fun tmp =>
    capture (awk (sortU (lines ((t.expand tmp).flatMap fun x => echo (t.expand x)))))

/-! ## What is asked for -/

/-- An entry of the feature's `included.dep`. -/
def Entry (f g : Text) : Prop := ∃ text, t.included.lookup f = some text ∧ g ∈ splitWords text

/-- The features the command line requests. -/
def requested (args : List Text) : List Text := splitWords (joinWords args)

/-- Reachable from a requested feature along the entries. -/
def Resolved (args : List Text) (g : Text) : Prop := ∃ f ∈ requested args, Relation.ReflTransGen t.Entry f g

/-- The names are not patterns that match something else. -/
def Plain (args : List Text) : Prop := ∀ g, t.Resolved args g → t.glob g = [g]

/-- The script computes this text for `FEATURES`. -/
def Computes (args : List Text) (features : Text) : Prop := ∃ fuel, t.featuresOf fuel args = some features

end Tree

end Agl.Setup
