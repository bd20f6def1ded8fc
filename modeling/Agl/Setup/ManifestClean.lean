/-
The JSON manifest comes out where it is clean (`json_correct`).

A value is read once before it is printed. The features and the layers are
read twice: what is printed of them in an array or an object is a line like
any other value.
-/
import Agl.Setup.ManifestFacts

namespace Agl.Setup

open Sh
open Json (commaJoin memberText)

namespace Manifest

variable {m : Manifest}

/-! ## JSON values -/

/-- What the text that `out_value` prints of a value is decoded to. -/
def jsonValue (x : Text) : Json.Value := (Json.decode (outValue (squeezed x))).getD .null

/-- What is dumped is a line, and decoded as it should be. -/
structure DumpedAs (x : Text) (v : Json.Value) : Prop where
  passed : Passed x
  decode : Json.decode (outValue (squeezed x)) = some v

theorem DumpedAs.jsonValue {x : Text} {v : Json.Value} (h : DumpedAs x v) : Manifest.jsonValue x = v := by
  rw [Manifest.jsonValue, h.decode]
  rfl

theorem decode_outValue {x : Text} (hraw : isRaw x = false) (hn : '\n' ∉ x) (h : Json.Printable x) :
    Json.decode (outValue x) = some (.str x) := by
  rw [outValue_string hraw hn, Json.decode_string h]

theorem ValueText.dumped {x : Text} (h : ValueText x) : ∃ v, DumpedAs x v ∧ Decodes x v := by
  unfold ValueText at h
  split at h
  · next hraw =>
    obtain ⟨hpassed, hsqueezed⟩ := passed_of_isRaw hraw
    obtain ⟨v, hv⟩ := Option.isSome_iff_exists.mp h
    exact ⟨v, ⟨hpassed, by rw [outValue_raw hsqueezed, hv]⟩, fun hstring => by cases hraw.symm.trans hstring⟩
  · next hraw =>
    obtain ⟨hcarried, hprintable⟩ := h
    refine ⟨.str x, ⟨hcarried.passed, ?_⟩, fun _ => rfl⟩
    rw [hcarried.squeezed, decode_outValue (by simpa using hraw) hcarried.noNewline hprintable]

theorem opens_of_isRaw {x : Text} (h : isRaw x = true) : Json.Opens ']' x := by
  cases x with
  | nil => cases h
  | cons c s =>
    obtain ⟨hspace, hne, -⟩ := isRaw_opens h
    exact ⟨c, s, rfl, hspace, hne⟩

theorem opens_outValue {x : Text} (h : '\n' ∉ x) : Json.Opens ']' (outValue x) := by
  by_cases hraw : isRaw x = true
  · rw [outValue_raw hraw]
    exact opens_of_isRaw hraw
  · rw [outValue_string (by simpa using hraw) h]
    exact ⟨'"', _, rfl, rfl, by decide⟩

/-! ## out_array -/

theorem foldl_array (m : Manifest) (ls : List Text) (sep printed : Text) (hsep : out (m.expand sep) = sep) :
    (ls.foldl (m.arrayStep .json) ⟨sep, printed⟩).printed = printed ++ separated sep (ls.map outValue) := by
  have hcomma : out (m.expand [',']) = [','] := by
    have hglob : m.glob [','] = [[',']] := m.glob_plain [','] (by decide)
    have hexpand : m.expand [','] = [[',']] :=
      Sh.expand_eq (by simpa [splitWords_of_isWord (show IsWord [','] by decide)] using hglob)
    rw [hexpand]
    rfl
  induction ls generalizing sep printed with
  | nil => simp [separated]
  | cons x ls ih =>
    rw [List.foldl_cons, arrayStep, hsep, ih _ _ hcomma]
    simp [separated]

theorem outArray_json (m : Manifest) (input : Text) :
    m.outArray .json input = '[' :: (commaJoin ((readLines input).map outValue) ++ [']']) := by
  rw [outArray, foldl_array m _ _ _ rfl, separated_nil]
  rfl

/-! ## Features and layers -/

theorem readLines_passed {ls : List Text} (h : ∀ l ∈ ls, Passed l) :
    readLines (ls.flatMap fun l => Sh.echo (splitWords l)) = ls.map squeezed := by
  induction ls with
  | nil => rfl
  | cons l ls ih =>
    rw [List.flatMap_cons, (h l List.mem_cons_self).readLines, ih fun k hk => h k (List.mem_cons_of_mem l hk),
      List.map_cons]

theorem StringClean.carried {x : Text} (h : StringClean x) : Carried x := by
  by_cases hx : x = []
  · rw [hx]
    exact carried_nil
  · exact carried_of_isWord ⟨hx, h.noBlank⟩ h.noOption fun hb => (h.printable _ hb).1 rfl

theorem FeatureClean.passed {x : Text} (h : FeatureClean x) : Passed x := by
  unfold FeatureClean at h
  split at h
  · next hraw => exact (passed_of_isRaw hraw).1
  · exact h.carried.passed

theorem featuresArray_lines (hin : m.Inert) (hmem : distFeatures ∈ m.names) :
    m.featuresArray = '[' :: (commaJoin ((readLines ((splitWords (m.value distFeatures)).flatMap fun x =>
      Sh.echo (splitWords x))).map outValue) ++ [']']) := by
  have hglob := hin.value distFeatures hmem
  have hinput : (m.expand (m.value distFeatures)).flatMap (fun x => Sh.echo (m.expand x)) =
      (splitWords (m.value distFeatures)).flatMap fun x => Sh.echo (splitWords x) := by
    rw [expand, Sh.expand_eq hglob]
    refine List.flatMap_congr fun x hx => congrArg Sh.echo (Sh.expand_eq fun w hw => ?_)
    rw [splitWords_of_isWord (isWord_of_mem hx), List.mem_singleton] at hw
    exact hw ▸ hglob x hx
  rw [featuresArray, hinput, outArray_json, ← List.cons_append, capture_concat (by decide)]

theorem featuresArray_eq (hin : m.Inert) (hmem : distFeatures ∈ m.names)
    (h : ∀ x ∈ splitWords (m.value distFeatures), FeatureClean x) :
    m.featuresArray =
      '[' :: (commaJoin ((splitWords (m.value distFeatures)).map fun x => outValue (unslash x)) ++ [']']) := by
  rw [featuresArray_lines hin hmem, readLines_passed fun x hx => (h x hx).passed, List.map_map]
  refine congrArg (fun ss => '[' :: (commaJoin ss ++ [']'])) (List.map_congr_left fun x hx => ?_)
  rw [Function.comp_apply, squeezed_of_isWord (isWord_of_mem hx)]

theorem LayerClean.isWord {l : Text × Text} (h : LayerClean l) : IsWord (layerItem l) := by
  refine ⟨by simp [layerItem], fun c hc => ?_⟩
  rcases List.mem_append.mp hc with hc | hc
  · exact h.name.noBlank c hc
  · rcases List.mem_cons.mp hc with rfl | hc
    · rfl
    · exact h.revision.noBlank c hc

theorem LayerClean.beforeColon {l : Text × Text} (h : LayerClean l) : beforeColon (layerItem l) = l.1 := by
  have hall : ∀ c ∈ l.1, decide (c ≠ ':') = true := fun c hc => by
    simpa using fun hc' : c = ':' => h.noColon (hc' ▸ hc)
  rw [Manifest.beforeColon, layerItem, List.takeWhile_append_of_pos hall, List.takeWhile_cons_of_neg (by decide),
    List.append_nil]

theorem LayerClean.afterColon {l : Text × Text} (h : LayerClean l) : afterColon (layerItem l) = l.2 := by
  have hall : ∀ c ∈ l.1, decide (c ≠ ':') = true := fun c hc => by
    simpa using fun hc' : c = ':' => h.noColon (hc' ▸ hc)
  rw [Manifest.afterColon, if_pos (by simp [layerItem]), layerItem, List.dropWhile_append_of_pos hall,
    List.dropWhile_cons_of_neg (by decide), List.tail_cons]

/-- The object text, of strings. -/
def layersText (layers : List (Text × Text)) : Text :=
  '\x7b' :: (commaJoin (layers.map fun l => memberText l.1 ('"' :: (l.2 ++ ['"']))) ++ ['\x7d'])

theorem layersObject_eq (hin : m.Inert) (hmem : distLayers ∈ m.names) (h : ∀ l ∈ m.layers, LayerClean l) :
    m.layersObject = layersText m.layers := by
  have hwords : splitWords (m.value distLayers) = m.layers.map layerItem := by
    rw [m.value_layers, splitWords_joinWords]
    intro w hw
    obtain ⟨l, hl, rfl⟩ := List.mem_map.mp hw
    exact (h l hl).isWord
  have hinput : (m.expand (m.value distLayers)).flatMap (fun x =>
      Sh.echo (m.expand (Manifest.beforeColon x)) ++ Sh.echo (m.expand (Manifest.afterColon x))) =
      pairLines m.layers := by
    rw [expand, Sh.expand_eq (hin.value distLayers hmem), hwords, List.flatMap_map, pairLines]
    refine List.flatMap_congr fun l hl => ?_
    have hglob := hin.layer (layerItem l) (hwords ▸ List.mem_map_of_mem hl)
    rw [(h l hl).beforeColon, (h l hl).afterColon] at hglob
    rw [(h l hl).beforeColon, (h l hl).afterColon,
      (h l hl).name.carried.echo fun w hw => hglob w (List.mem_append_left _ hw), expand,
      Sh.expand_eq fun w hw => hglob w (List.mem_append_right _ hw)]
  have hpairs := pairUp_passed fun l hl => ⟨⟨(h l hl).nonempty, (h l hl).name.carried⟩,
    (h l hl).revision.carried.passed⟩
  have hvalues : m.layers.map (fun l => memberText l.1 (outValue (squeezed l.2))) =
      m.layers.map fun l => memberText l.1 ('"' :: (l.2 ++ ['"'])) := by
    refine List.map_congr_left fun l hl => ?_
    rw [(h l hl).revision.carried.squeezed, outValue_string (h l hl).isString (h l hl).revision.carried.noNewline,
      escapeQuotes_of_not_mem (h l hl).revision.noQuote]
  rw [layersObject, hinput, outObject_json, hpairs, List.map_map]
  dsimp only [Function.comp_def]
  rw [hvalues, ← List.cons_append, capture_concat (by decide)]
  rfl

theorem decode_layersText {layers : List (Text × Text)} (h : ∀ l ∈ layers, LayerClean l) :
    Json.decode (layersText layers) = some (.obj (layers.map fun l => (l.1, .str l.2))) := by
  have hms : ∀ p ∈ layers.map (fun l => (l.1, '"' :: (l.2 ++ ['"']), Json.Value.str l.2)),
      (Json.Printable p.1 ∧ '"' ∉ p.1) ∧ Json.decode p.2.1 = some p.2.2 := by
    intro p hp
    obtain ⟨l, hl, rfl⟩ := List.mem_map.mp hp
    have hdecode := Json.decode_string (h l hl).revision.printable
    rw [escapeQuotes_of_not_mem (h l hl).revision.noQuote] at hdecode
    exact ⟨⟨(h l hl).name.printable, (h l hl).name.noQuote⟩, hdecode⟩
  have hobject := Json.decode_object hms
  rw [List.map_map, List.map_map] at hobject
  exact hobject

/-- A character that goes through `echo` and `read`. -/
def Passes (c : Char) : Prop := isBlank c = false ∧ c ≠ '\\'

instance (c : Char) : Decidable (Passes c) := inferInstanceAs (Decidable (_ ∧ _))

theorem carried_of_passes {c : Char} {s : Text} (h : ∀ d ∈ c :: s, Passes d) (hc : c ≠ '-') : Carried (c :: s) :=
  carried_of_isWord ⟨List.cons_ne_nil c s, fun d hd => (h d hd).1⟩ (isEchoOption_of_head hc) fun hb => (h _ hb).2 rfl

theorem StringClean.passes {x : Text} (h : StringClean x) {c : Char} (hc : c ∈ x) : Passes c :=
  ⟨h.noBlank c hc, (h.printable c hc).1⟩

theorem passes_layersText {layers : List (Text × Text)} (h : ∀ l ∈ layers, LayerClean l) :
    ∀ c ∈ layersText layers, Passes c := by
  intro c hc
  rw [layersText, List.mem_cons, List.mem_append, List.mem_singleton] at hc
  rcases hc with rfl | hc | rfl
  · decide
  · rcases Json.mem_commaJoin hc with rfl | ⟨s, hs, hc⟩
    · decide
    · obtain ⟨l, hl, rfl⟩ := List.mem_map.mp hs
      simp only [memberText, List.mem_cons, List.mem_append, List.not_mem_nil, or_false] at hc
      rcases hc with rfl | hc | rfl | rfl | rfl | hc | rfl
      · decide
      · exact (h l hl).name.passes hc
      · decide
      · decide
      · decide
      · exact (h l hl).revision.passes hc
      · decide
  · decide

/-! ## The array of the features -/

/-- What a feature comes to when the array is read as well. -/
def featurePiece (x : Text) : Text := unslash (outValue (unslash x))

theorem isRaw_unslash {x : Text} (h : isRaw x = true) (hw : IsWord x) :
    isRaw (unslash x) = true ∧ IsWord (unslash x) := by
  have hraw := (passed_of_isRaw h).2
  rw [squeezed_of_isWord hw] at hraw
  refine ⟨hraw, ?_, fun c hc => hw.2 c ((unslash_sublist x).subset hc)⟩
  intro hnil
  rw [hnil] at hraw
  cases hraw

theorem FeatureClean.piece {x : Text} (h : FeatureClean x) (hw : IsWord x) :
    ((∀ c ∈ outValue (unslash x), isBlank c = false) ∧ (outValue (unslash x)).getLast? ≠ some '\\') ∧
      Json.Opens ']' (featurePiece x) ∧ ∃ v, Json.decode (featurePiece x) = some v ∧ Decodes x v := by
  unfold FeatureClean at h
  split at h
  · next hraw =>
    obtain ⟨honce, hword⟩ := isRaw_unslash hraw hw
    obtain ⟨htwice, -⟩ := isRaw_unslash honce hword
    obtain ⟨v, hv⟩ := Option.isSome_iff_exists.mp h
    rw [featurePiece, outValue_raw honce]
    exact ⟨⟨hword.2, isRaw_getLast? honce⟩, opens_of_isRaw htwice, v, hv,
      fun hstring => by cases hraw.symm.trans hstring⟩
  · next hraw =>
    have hstring : isRaw x = false := by simpa using hraw
    have hb : '\\' ∉ x := h.printable.noBackslash
    have hn : '\n' ∉ x := hw.not_mem rfl
    have hout : outValue x = '"' :: (x ++ ['"']) := by
      rw [outValue_string hstring hn, escapeQuotes_of_not_mem h.noQuote]
    have hpiece : featurePiece x = outValue x := by
      rw [featurePiece, unslash_of_not_mem hb, hout, unslash_of_not_mem (by simp [hb])]
    rw [hpiece, unslash_of_not_mem hb]
    refine ⟨⟨fun c hc => ?_, ?_⟩, opens_outValue hn, _, decode_outValue hstring hn h.printable, fun _ => rfl⟩
    · rw [hout] at hc
      simp only [List.mem_cons, List.mem_append, List.not_mem_nil, or_false] at hc
      rcases hc with rfl | hc | rfl
      · rfl
      · exact hw.2 c hc
      · rfl
    · rw [hout, ← List.cons_append, List.getLast?_concat]
      decide

theorem unslash_commaJoin {ss : List Text} (h : ∀ s ∈ ss, s.getLast? ≠ some '\\') (t : Text) :
    unslash (commaJoin ss ++ t) = commaJoin (ss.map unslash) ++ unslash t := by
  induction ss with
  | nil => rfl
  | cons s ss ih =>
    obtain ⟨hs, hss⟩ := List.forall_mem_cons.mp h
    by_cases hnil : ss = []
    · subst hnil
      simpa [commaJoin, List.intercalate] using unslash_append hs t
    · rw [List.map_cons, Json.commaJoin_cons s hnil, Json.commaJoin_cons _ (by simpa using hnil), List.append_assoc,
        List.cons_append, unslash_append hs, unslash_cons (by decide), ih hss, List.append_assoc, List.cons_append]

theorem dumped_features (hin : m.Inert) (hmem : distFeatures ∈ m.names)
    (h : ∀ x ∈ splitWords (m.value distFeatures), FeatureClean x) :
    ∃ vs, DumpedAs m.featuresArray (.arr vs) ∧ List.Forall₂ Decodes (splitWords (m.value distFeatures)) vs := by
  have heq := featuresArray_eq hin hmem h
  have hpiece (x : Text) (hx : x ∈ splitWords (m.value distFeatures)) := (h x hx).piece (isWord_of_mem hx)
  generalize splitWords (m.value distFeatures) = ws at heq hpiece ⊢
  have hword : IsWord m.featuresArray := by
    rw [heq]
    refine ⟨List.cons_ne_nil _ _, fun c hc => ?_⟩
    rw [List.mem_cons, List.mem_append, List.mem_singleton] at hc
    rcases hc with rfl | hc | rfl
    · rfl
    · rcases Json.mem_commaJoin hc with rfl | ⟨s, hs, hc⟩
      · rfl
      · obtain ⟨x, hx, rfl⟩ := List.mem_map.mp hs
        exact (hpiece x hx).1.1 c hc
    · rfl
  have hsqueezed : squeezed m.featuresArray = '[' :: (commaJoin (ws.map featurePiece) ++ [']']) := by
    have hends : ∀ s ∈ ws.map fun x => outValue (unslash x), s.getLast? ≠ some '\\' := by
      intro s hs
      obtain ⟨x, hx, rfl⟩ := List.mem_map.mp hs
      exact (hpiece x hx).1.2
    rw [squeezed_of_isWord hword, heq, unslash_cons (by decide), unslash_commaJoin hends, List.map_map]
    rfl
  have hdecode := Json.decode_array (ws.map fun x => (featurePiece x, (Json.decode (featurePiece x)).getD .null))
    (by
      intro e he
      obtain ⟨x, hx, rfl⟩ := List.mem_map.mp he
      exact (hpiece x hx).2.1)
    (by
      intro e he
      obtain ⟨x, hx, rfl⟩ := List.mem_map.mp he
      obtain ⟨-, -, v, hv, -⟩ := hpiece x hx
      rw [hv]
      rfl)
  rw [List.map_map, List.map_map] at hdecode
  have hbrackets : ('[' = '[' ∧ ']' = ']') ∨ ('[' = '\x7b' ∧ ']' = '\x7d') := .inl ⟨rfl, rfl⟩
  refine ⟨ws.map fun x => (Json.decode (featurePiece x)).getD .null, ⟨?_, ?_⟩, ?_⟩
  · rw [heq]
    exact (passed_of_brackets hbrackets _).1
  · rw [hsqueezed, outValue_raw (isRaw_of_brackets hbrackets _)]
    exact hdecode
  · rw [List.forall₂_map_right_iff, List.forall₂_same]
    intro x hx
    obtain ⟨-, -, v, hv, hdecodes⟩ := hpiece x hx
    rw [hv]
    exact hdecodes

theorem dumped_layers (hin : m.Inert) (hmem : distLayers ∈ m.names) (h : ∀ l ∈ m.layers, LayerClean l) :
    DumpedAs m.layersObject (.obj (m.layers.map fun l => (l.1, .str l.2))) := by
  rw [layersObject_eq hin hmem h]
  have hraw : isRaw (layersText m.layers) = true := by simp [isRaw, isBracketed, layersText]
  have hcarried : Carried (layersText m.layers) := carried_of_passes (passes_layersText h) (by decide)
  refine ⟨hcarried.passed, ?_⟩
  rw [hcarried.squeezed, outValue_raw hraw, decode_layersText h]

/-! ## The JSON object -/

theorem isAlphanum_toLower {c : Char} (h : c.isAlphanum = true) : c.toLower.isAlphanum = true := by
  unfold Char.toLower
  split
  · next hupper =>
    have hlower : (97 : UInt32) ≤ c.val + 32 ∧ c.val + 32 ≤ 122 := by
      obtain ⟨h₁, h₂⟩ := hupper
      simp only [UInt32.le_iff_toNat_le, ge_iff_le] at *
      simp at *
      omega
    delta Char.isAlphanum Char.isAlpha Char.isLower
    simp [hlower]
  · exact h

theorem le_of_isAlphanum {c : Char} (h : c.isAlphanum = true) : 0x20 ≤ c.toNat := by
  delta Char.isAlphanum Char.isAlpha Char.isUpper Char.isLower Char.isDigit at h
  simp only [Bool.or_eq_true, Bool.and_eq_true, decide_eq_true_eq, UInt32.le_iff_toNat_le, ge_iff_le] at h
  have : c.toNat = c.val.toNat := rfl
  simp at h
  omega

theorem isKey_json {x : Text} (hx : IsName x) (hne : key .json x ≠ []) : IsKey (key .json x) := by
  refine ⟨hne, fun c hc => ?_⟩
  obtain ⟨d, hd, rfl⟩ := List.mem_map.mp hc
  have hmem : d ∈ x := by
    split at hd
    · exact List.mem_of_mem_drop hd
    · exact hd
  refine (hx.isKey.2 d hmem).imp isAlphanum_toLower ?_
  rintro rfl
  rfl

theorem printable_of_isKey {x : Text} (h : IsKey x) : Json.Printable x := by
  refine fun c hc => ⟨?_, ?_⟩
  · rintro rfl
    exact h.not_mem (by decide) hc
  · rcases h.2 c hc with h | rfl
    · exact le_of_isAlphanum h
    · decide

theorem lookup_map {names : List Text} {k : Text → Text} {v : Text → Json.Value} (h : (names.map k).Nodup) {x : Text}
    (hx : x ∈ names) : (names.map fun x => (k x, v x)).lookup (k x) = some (v x) := by
  induction names with
  | nil => cases hx
  | cons y names ih =>
    rw [List.map_cons, List.nodup_cons] at h
    rw [List.map_cons]
    by_cases hxy : k x = k y
    · rcases List.mem_cons.mp hx with rfl | hx
      · exact List.lookup_cons_self
      · exact absurd (hxy ▸ List.mem_map_of_mem hx) h.1
    · have hmem : x ∈ names := (List.mem_cons.mp hx).resolve_left fun he => hxy (he ▸ rfl)
      rw [List.lookup_cons, beq_eq_false_iff_ne.mpr hxy]
      exact ih h.2 hmem

theorem dumped_plain {x : Text} (hf : x ≠ distFeatures) (hl : x ≠ distLayers) : m.dumped .json x = m.value x := by
  rw [dumped, if_neg hf, if_neg hl]

theorem dumped_distFeatures : m.dumped .json distFeatures = m.featuresArray := by rw [dumped, if_pos rfl]

theorem dumped_distLayers : m.dumped .json distLayers = m.layersObject := by
  rw [dumped, if_neg (by decide), if_pos rfl]

theorem Inert.dumped (hin : m.Inert) {x : Text} (hx : x ∈ m.names) :
    ∀ w ∈ splitWords (m.dumped .json x), m.glob w = [w] := by
  by_cases hf : x = distFeatures
  · rw [hf, dumped_distFeatures]
    exact hin.featuresArray
  · by_cases hl : x = distLayers
    · rw [hl, dumped_distLayers]
      exact hin.layersObject
    · rw [dumped_plain hf hl]
      exact hin.value x hx

/-- A variable that comes out. -/
structure ValueClean (m : Manifest) (x : Text) : Prop where
  plain : x ≠ distFeatures → x ≠ distLayers → ValueText (m.value x)
  feature : x = distFeatures → ∀ w ∈ splitWords (m.value distFeatures), FeatureClean w
  layer : x = distLayers → ∀ l ∈ m.layers, LayerClean l

theorem JsonClean.valueClean (h : m.JsonClean) {x : Text} (hx : x ∈ m.names) : m.ValueClean x :=
  ⟨h.value x hx, fun hf => h.feature (hf ▸ hx), fun hl => h.layer (hl ▸ hx)⟩

theorem ValueClean.dumpedAs {x : Text} (h : m.ValueClean x) (hin : m.Inert) (hx : x ∈ m.names) :
    ∃ v, DumpedAs (m.dumped .json x) v := by
  by_cases hf : x = distFeatures
  · have hclean := h.feature hf
    subst hf
    obtain ⟨vs, hvs, -⟩ := dumped_features hin hx hclean
    exact ⟨_, dumped_distFeatures ▸ hvs⟩
  · by_cases hl : x = distLayers
    · have hclean := h.layer hl
      subst hl
      exact ⟨_, dumped_distLayers ▸ dumped_layers hin hx hclean⟩
    · obtain ⟨v, hv, -⟩ := (h.plain hf hl).dumped
      exact ⟨v, (dumped_plain hf hl).symm ▸ hv⟩

theorem json_correct (hin : m.Inert) (h : m.JsonClean) : m.JsonCorrect (m.getManifest .json) := by
  have hdumped (x : Text) (hx : x ∈ m.names) : ∃ v, DumpedAs (m.dumped .json x) v :=
    (h.valueClean hx).dumpedAs hin hx
  have hkey (x : Text) (hx : x ∈ m.names) : IsKey (key .json x) := isKey_json (m.isName x hx) (h.nonempty x hx)
  have hinput := lines_eq (key .json) (m.dumped .json) hkey fun x hx => hin.dumped hx
  have hps : ∀ p ∈ m.names.map fun x => (key .json x, m.dumped .json x), (p.1 ≠ [] ∧ Carried p.1) ∧ Passed p.2 := by
    intro p hp
    obtain ⟨x, hx, rfl⟩ := List.mem_map.mp hp
    obtain ⟨v, hv⟩ := hdumped x hx
    exact ⟨⟨h.nonempty x hx, carried_of_isKey (hkey x hx)⟩, hv.passed⟩
  have hms : ∀ p ∈ m.names.map fun x =>
      (key .json x, outValue (squeezed (m.dumped .json x)), jsonValue (m.dumped .json x)),
      (Json.Printable p.1 ∧ '"' ∉ p.1) ∧ Json.decode p.2.1 = some p.2.2 := by
    intro p hp
    obtain ⟨x, hx, rfl⟩ := List.mem_map.mp hp
    obtain ⟨v, hv⟩ := hdumped x hx
    exact ⟨⟨printable_of_isKey (hkey x hx), (hkey x hx).not_mem (by decide)⟩, by rw [hv.jsonValue]; exact hv.decode⟩
  have hobject := Json.decode_object hms
  rw [List.map_map, List.map_map] at hobject
  have htext : m.getManifest .json = '\x7b' :: (commaJoin (m.names.map fun x =>
      memberText (key .json x) (outValue (squeezed (m.dumped .json x)))) ++ ['\x7d']) := by
    rw [getManifest, outObject_json, hinput, pairUp_passed hps, List.map_map, List.map_map]
    rfl
  have hlookup {x : Text} (hx : x ∈ m.names) :=
    lookup_map (v := fun x => jsonValue (m.dumped .json x)) h.keys hx
  refine ⟨m.names.map fun x => (key .json x, jsonValue (m.dumped .json x)), ?_, ?_, fun x hx hf hl => ?_, fun hx => ?_,
    fun hx => ?_⟩
  · rw [htext]
    exact hobject
  · rw [List.map_map]
    rfl
  · obtain ⟨v, hv, hdecodes⟩ := (h.value x hx hf hl).dumped
    refine ⟨v, ?_, hdecodes⟩
    rw [hlookup hx, dumped_plain hf hl, hv.jsonValue]
  · obtain ⟨vs, hvs, hall⟩ := dumped_features hin hx (h.feature hx)
    refine ⟨vs, ?_, hall⟩
    rw [hlookup hx, dumped_distFeatures, hvs.jsonValue]
  · rw [hlookup hx, dumped_distLayers, (dumped_layers hin hx (h.layer hx)).jsonValue]

end Manifest

end Agl.Setup
