/-
The build manifest (`distro-manifest-generator.sh`): the variables of a setup
and of its layers, as a file of assignments or as JSON.

What goes into it is given: the variables, in the order in which they are
written, with their values, and the layers with their revisions. Left out are
how the values come about, the comments of `--verbose`, and the reformatting
by `jq`, where there is one.
-/
import Mathlib.Data.List.Forall2
import Agl.Lib.Json
import Agl.Lib.ShellRead

namespace Agl.Setup

open Sh

/-! ## Printing -/

inductive Format
  | bash | json
  deriving DecidableEq, Repr

/-- `out` -/
def out (args : List Text) : Text := echo (['-', 'n'] :: args)

/-- `^(true|false|null)$` -/
def isLiteral (x : Text) : Bool := x = "true".toList || x = "false".toList || x = "null".toList

/-- `^[+-]?[0-9]+(\.[0-9]+)?$` -/
def isNumber (x : Text) : Bool :=
  let x := match x with
    | c :: s => if c = '+' ∨ c = '-' then s else c :: s
    | [] => []
  match (Json.digits x).bind Json.fracPart with
  | some rest => rest.isEmpty
  | none => false

/-- `^\{.*\}$` or `^\[.*\]$`, for these brackets. -/
def isBracketed (opening closing : Char) (x : Text) : Bool := match x with
  | c :: s => c = opening && s.getLast? = some closing
  | [] => false

/-- Not taken for a string by `out_value`. -/
def isRaw (x : Text) : Bool :=
  isLiteral x || isNumber x || isBracketed '\x7b' '\x7d' x || isBracketed '[' ']' x

/-- `out_value` -/
def outValue (x : Text) : Text :=
  if isRaw x then out [x]
  -- sed 's/\("\)/\\\1/g' <<<$x
  else out ['"' :: (capture (escapeQuotes x ++ ['\n']) ++ ['"'])]

/-- The variables of the loop in `out_object`, and what has been printed. -/
structure ObjectLoop where
  k : Text
  sep : Text
  printed : Text
  deriving DecidableEq, Repr

/-- One round of the loop of `out_object`. -/
def objectStep (format : Format) (v : ObjectLoop) (x : Text) : ObjectLoop :=
  if v.k = [] then { v with k := x }
  else
    match format with
    | .bash => { k := [], sep := ['\n'], printed := v.printed ++ (out [v.sep ++ v.k ++ ['=']] ++ outValue x) }
    | .json =>
      { k := [], sep := [','], printed := v.printed ++ (out [v.sep ++ '"' :: (v.k ++ ['"', ':'])] ++ outValue x) }

/-- `out_object`, for its input. -/
def outObject (format : Format) (input : Text) : Text :=
  match format with
  | .bash =>
    let v := (readLines input).foldl (objectStep .bash) ⟨[], [], []⟩
    v.printed ++ out [v.sep]
  | .json => out [['\x7b']] ++ ((readLines input).foldl (objectStep .json) ⟨[], [], []⟩).printed ++ out [['\x7d']]

/-- The variables of the loop in `out_array`, and what has been printed. -/
structure ArrayLoop where
  sep : Text
  printed : Text
  deriving DecidableEq, Repr

/-! ## The manifest -/

def distFeatures : Text := "DIST_FEATURES".toList

def distLayers : Text := "DIST_LAYERS".toList

/-- `<layer>:<revision>` -/
def layerItem (layer : Text × Text) : Text := layer.1 ++ ':' :: layer.2

/-- What goes into a manifest, and where it is made. -/
structure Manifest where
  /-- pathname expansion of a word, in the working directory -/
  glob : Text → List Text
  glob_plain : ∀ w, (∀ c ∈ w, c ∉ ['*', '?', '[', '\\']) → glob w = [w]
  /-- the names behind a tilde that the shell which reads the manifest knows a directory for -/
  login : Text → Bool
  /-- the variables that are written -/
  names : List Text
  isName : ∀ x ∈ names, IsName x
  /-- `${!x}` -/
  value : Text → Text
  singleLine : ∀ x, '\n' ∉ value x
  /-- the layers and their revisions -/
  layers : List (Text × Text)
  value_layers : value distLayers = joinWords (layers.map layerItem)

namespace Manifest

variable (m : Manifest)

def expand (s : Text) : List Text := Sh.expand m.glob s

/-- One round of the loop of `out_array`; in JSON the separator is not quoted. -/
def arrayStep (format : Format) (v : ArrayLoop) (x : Text) : ArrayLoop :=
  match format with
  | .bash => { sep := [' '], printed := v.printed ++ (out [v.sep] ++ outValue x) }
  | .json => { sep := [','], printed := v.printed ++ (out (m.expand v.sep) ++ outValue x) }

/-- `out_array`, for its input. -/
def outArray (format : Format) (input : Text) : Text :=
  let v := (readLines input).foldl (m.arrayStep format) ⟨[], []⟩
  match format with
  | .bash => v.printed
  | .json => out [['[']] ++ v.printed ++ out [[']']]

/-- `${x%%:*}` -/
def beforeColon (x : Text) : Text := x.takeWhile fun c => c ≠ ':'

/-- `${x#*:}` -/
def afterColon (x : Text) : Text := if ':' ∈ x then (x.dropWhile fun c => c ≠ ':').tail else x

/-- `DIST_FEATURES` in JSON -/
def featuresArray : Text :=
  capture (m.outArray .json ((m.expand (m.value distFeatures)).flatMap fun x => echo (m.expand x)))

/-- `DIST_LAYERS` in JSON -/
def layersObject : Text :=
  capture (outObject .json ((m.expand (m.value distLayers)).flatMap fun x =>
    echo (m.expand (beforeColon x)) ++ echo (m.expand (afterColon x))))

/-- `${!x}` in the last loop. -/
def dumped (format : Format) (x : Text) : Text :=
  match format with
  | .bash => m.value x
  | .json => if x = distFeatures then m.featuresArray else if x = distLayers then m.layersObject else m.value x

/-- `k` in the last loop. -/
def key (format : Format) (x : Text) : Text :=
  match format with
  | .bash => x
  | .json => (if "DIST_".toList.isPrefixOf x then x.drop 5 else x).map Char.toLower

/-- `_getgitmanifest`, from the layers on. -/
def getManifest (format : Format) : Text :=
  outObject format (m.names.flatMap fun x => echo (m.expand (key format x)) ++ echo (m.expand (m.dumped format x)))

/-! ## What is asked for -/

/-- A string that is printed as one is decoded to itself. -/
def Decodes (x : Text) (v : Json.Value) : Prop := isRaw x = false → v = .str x

/-- A JSON object that holds what was put in. -/
def JsonCorrect (text : Text) : Prop :=
  ∃ members : List (Text × Json.Value), Json.decode text = some (.obj members) ∧
    members.map Prod.fst = m.names.map (key .json) ∧
    (∀ x ∈ m.names, x ≠ distFeatures → x ≠ distLayers →
      ∃ v, members.lookup (key .json x) = some v ∧ Decodes (m.value x) v) ∧
    (distFeatures ∈ m.names → ∃ vs, members.lookup (key .json distFeatures) = some (.arr vs) ∧
      List.Forall₂ Decodes (splitWords (m.value distFeatures)) vs) ∧
    (distLayers ∈ m.names → members.lookup (key .json distLayers) =
      some (.obj (m.layers.map fun layer => (layer.1, .str layer.2))))

/-- Assignments of the variables to their values. -/
def BashCorrect (text : Text) : Prop := source m.login text = some (m.names.map fun x => (x, m.value x))

/-! ## When it comes out -/

/-- It goes through `echo` and `read` as it is. -/
structure Carried (x : Text) : Prop where
  joined : joinWords (splitWords x) = x
  noOption : ∀ w ∈ (splitWords x).head?, isEchoOption w = false
  noBackslash : '\\' ∉ x

/-- What `echo` and `read` leave of a value: the blanks are squeezed, and the
backslashes dropped. -/
def squeezed (x : Text) : Text := unslash (joinWords (splitWords x))

/-- What is taken for JSON text is JSON when it has been read; any other value
comes out as it is. -/
def ValueText (x : Text) : Prop :=
  if isRaw x = true then (Json.decode (squeezed x)).isSome = true else Carried x ∧ Json.Printable x

/-- What `out_value` prints of it is text that a shell leaves as it is: each
character stands for itself, without quotes or within them. -/
def BashText (x : Text) : Prop :=
  if isRaw x = true then everywhere (keptPlain m.login) x = true else everywhere keptQuoted x = true

/-- The words that the script expands are not patterns that match something else. -/
structure Inert : Prop where
  value : ∀ x ∈ m.names, ∀ w ∈ splitWords (m.value x), m.glob w = [w]
  featuresArray : ∀ w ∈ splitWords m.featuresArray, m.glob w = [w]
  layer : ∀ x ∈ splitWords (m.value distLayers), ∀ w ∈ splitWords (beforeColon x) ++ splitWords (afterColon x),
    m.glob w = [w]
  layersObject : ∀ w ∈ splitWords m.layersObject, m.glob w = [w]

/-- Text that is a JSON string as it stands. -/
structure StringClean (x : Text) : Prop where
  noBlank : ∀ c ∈ x, isBlank c = false
  noOption : isEchoOption x = false
  noQuote : '"' ∉ x
  printable : Json.Printable x

/-- A feature is read twice. -/
def FeatureClean (x : Text) : Prop :=
  if isRaw x = true then (Json.decode (unslash (unslash x))).isSome = true else StringClean x

/-- A layer that is decoded to itself and its revision. -/
structure LayerClean (layer : Text × Text) : Prop where
  name : StringClean layer.1
  nonempty : layer.1 ≠ []
  noColon : ':' ∉ layer.1
  revision : StringClean layer.2
  isString : isRaw layer.2 = false

structure JsonClean : Prop where
  keys : (m.names.map (key .json)).Nodup
  nonempty : ∀ x ∈ m.names, key .json x ≠ []
  value : ∀ x ∈ m.names, x ≠ distFeatures → x ≠ distLayers → ValueText (m.value x)
  feature : distFeatures ∈ m.names → ∀ x ∈ splitWords (m.value distFeatures), FeatureClean x
  layer : distLayers ∈ m.names → ∀ l ∈ m.layers, LayerClean l

def BashClean : Prop := ∀ x ∈ m.names, Carried (m.value x) ∧ m.BashText (m.value x)

end Manifest

end Agl.Setup
