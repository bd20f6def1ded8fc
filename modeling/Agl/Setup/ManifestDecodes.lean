/-
Which manifests come out (`manifest_decodes`).

For the JSON manifest the values are taken one after the other: the first is
decoded to what is asked for, so it is clean, and the others are read from the
line behind it. Where a value is taken for JSON text without being it, this
breaks off: two such values can close each other's braces (`brokenPair`). So
there nothing may be guessed wrongly (`Tame`).
-/
import Agl.Setup.ManifestJson

namespace Agl.Setup

open Sh
open Json (commaJoin)

namespace Manifest

variable {m : Manifest}

/-! ## The JSON object -/

/-- What is asked of the value of a variable. -/
structure Wanted (m : Manifest) (x : Text) (v : Json.Value) : Prop where
  plain : x ≠ distFeatures → x ≠ distLayers → Decodes (m.value x) v
  features : x = distFeatures → ∃ vs, v = .arr vs ∧ List.Forall₂ Decodes (splitWords (m.value distFeatures)) vs
  layers : x = distLayers → v = .obj (m.layers.map fun l => (l.1, .str l.2))

/-- Nothing is guessed wrongly: the values are strings, or JSON when they have
been read; the features are strings, and the layers words. -/
structure Tame (m : Manifest) : Prop where
  keys : (m.names.map (key .json)).Nodup
  nonempty : ∀ x ∈ m.names, key .json x ≠ []
  values : ∀ x ∈ m.names, x ≠ distFeatures → x ≠ distLayers → isRaw (m.value x) = true →
    (Json.decode (squeezed (m.value x))).isSome = true
  strings : distFeatures ∈ m.names → ∀ x ∈ splitWords (m.value distFeatures), isRaw x = false
  words : distLayers ∈ m.names → ∀ l ∈ m.layers, ∀ c ∈ l.1 ++ l.2, isBlank c = false

theorem decodes_strings {ws : List Text} {vs : List Json.Value} (hws : ∀ x ∈ ws, isRaw x = false)
    (h : List.Forall₂ Decodes ws vs) : vs = ws.map .str := by
  induction h with
  | nil => rfl
  | cons hv _ ih =>
    rw [List.map_cons, hv (hws _ List.mem_cons_self), ih fun x hx => hws x (List.mem_cons_of_mem _ hx)]

/-- The values in the order of the keys. -/
theorem forall₂_lookup {names : List Text} {k : Text → Text} {members : List (Text × Json.Value)}
    {R : Text → Json.Value → Prop} (hkeys : members.map Prod.fst = names.map k) (hnodup : (names.map k).Nodup)
    (h : ∀ x ∈ names, ∃ v, members.lookup (k x) = some v ∧ R x v) :
    List.Forall₂ (fun x p => R x p.2) names members := by
  induction names generalizing members with
  | nil =>
    rw [List.map_eq_nil_iff.mp hkeys]
    exact .nil
  | cons x names ih =>
    cases members with
    | nil => cases hkeys
    | cons p members =>
      obtain ⟨hp, hkeys⟩ := List.cons.inj hkeys
      rw [List.map_cons, List.nodup_cons] at hnodup
      refine .cons ?_ (ih hkeys hnodup.2 fun y hy => ?_)
      · obtain ⟨v, hv, hR⟩ := h x List.mem_cons_self
        rw [← hp, List.lookup_cons_self] at hv
        cases hv
        exact hR
      · obtain ⟨v, hv, hR⟩ := h y (List.mem_cons_of_mem x hy)
        have hne : k y ≠ p.1 := by
          rw [hp]
          exact fun heq => hnodup.1 (heq ▸ List.mem_map_of_mem hy)
        rw [List.lookup_cons, beq_eq_false_iff_ne.mpr hne] at hv
        exact ⟨v, hv, hR⟩

section Object

variable {n k : Nat} {v : Json.Value} {ls : List Text} {rest : Text}

theorem Wanted.valueClean {x : Text} (h : m.Wanted x v) (hin : m.Inert) (htame : m.Tame) (hx : x ∈ m.names)
    {qs : List (Text × Text)} (hkeys : ∀ q ∈ qs, IsKey q.1) {y : Text}
    (hread : readLines (Sh.echo (splitWords (m.dumped .json x)) ++ pairLines qs) = y :: ls)
    (hvalue : Json.value n (outValue y ++ following (pairUp ls)) = some (v, rest)) : m.ValueClean x := by
  refine ⟨fun hf hl => ?_, fun hf => ?_, fun hl => ?_⟩
  · rw [dumped_plain hf hl] at hread
    by_cases hraw : isRaw (m.value x) = true
    · unfold ValueText
      rw [if_pos hraw]
      exact htame.values x hx hf hl hraw
    · obtain rfl := h.plain hf hl (by simpa using hraw)
      obtain ⟨hcarried, hprintable⟩ := plain_clean (nameFollows_pairLines hkeys) hread (follows_following _) hvalue
      unfold ValueText
      rw [if_neg hraw]
      exact ⟨hcarried, hprintable⟩
  · subst hf
    obtain ⟨vs, rfl, hall⟩ := h.features rfl
    rw [dumped_distFeatures] at hread
    rw [decodes_strings (htame.strings hx) hall] at hvalue
    exact FeaturesRead.clean ⟨hin, hx, htame.strings hx, hkeys, hread, hvalue⟩
  · subst hl
    obtain rfl := h.layers rfl
    rw [dumped_distLayers] at hread
    exact LayersRead.clean ⟨hin, hx, htame.words hx, hkeys, hread, hvalue⟩

theorem ends_following (ps : List (Text × Text)) : Json.Ends (following ps) := by
  cases ps with
  | nil =>
    intro c hc
    cases hc
    rfl
  | cons p ps =>
    intro c hc
    cases hc
    rfl

/-- What is decoded of the first is its value; then it comes out, and so the
others are read from the line behind it. -/
theorem clean_of_items (hin : m.Inert) (htame : m.Tame) {xs : List Text} (hxs : ∀ x ∈ xs, x ∈ m.names)
    {members : List (Text × Json.Value)} (hwanted : List.Forall₂ (fun x p => m.Wanted x p.2) xs members)
    (h : Json.items (Json.member (Json.value n)) '\x7d' k (commaJoin ((pairUp (readLines (pairLines
      (xs.map fun x => (key .json x, m.dumped .json x))))).map memberOf) ++ ['\x7d']) = some (members, rest)) :
    ∀ x ∈ xs, m.ValueClean x := by
  induction hwanted generalizing k with
  | nil => exact fun x hx => by cases hx
  | @cons x p xs members hp hwanted ih =>
    have hx := hxs x List.mem_cons_self
    have hrest : ∀ y ∈ xs, y ∈ m.names := fun y hy => hxs y (List.mem_cons_of_mem x hy)
    have hkey (y : Text) (hy : y ∈ m.names) : IsKey (key .json y) := isKey_json (m.isName y hy) (htame.nonempty y hy)
    have hkeys : ∀ q ∈ xs.map (fun x => (key .json x, m.dumped .json x)), IsKey q.1 := by
      intro q hq
      obtain ⟨y, hy, rfl⟩ := List.mem_map.mp hq
      exact hkey y (hrest y hy)
    rw [List.map_cons, pairLines_cons, (carried_of_isKey (hkey x hx)).readLines] at h
    cases hread : readLines (Sh.echo (splitWords (m.dumped .json x)) ++
        pairLines (xs.map fun x => (key .json x, m.dumped .json x))) with
    | nil =>
      rw [hread] at h
      obtain ⟨k', r, -, hmember, -⟩ := Json.items_cons h
      cases hmember
    | cons y ls =>
      rw [hread, pairUp, if_neg (hkey x hx).1, commaJoin_memberOf] at h
      obtain ⟨k', r, -, hmember, hnext⟩ := Json.items_cons h
      have hmarks : marks (key .json x) = 0 :=
        marks_eq_zero.mpr ⟨(hkey x hx).not_mem (by decide), (hkey x hx).not_mem (by decide)⟩
      obtain ⟨-, hvalue⟩ := member_read hmarks hmember
      have hclean := hp.valueClean hin htame hx hkeys hread hvalue
      obtain ⟨v, hv⟩ := hclean.dumpedAs hin hx
      obtain ⟨rfl, rfl⟩ := hv.passed.read hread
      obtain ⟨r', rfl, hskip⟩ := Json.value_decoded hv.decode (ends_following _) hvalue
      refine List.forall_mem_cons.mpr ⟨hclean, ?_⟩
      rw [Json.skip_append_nil hskip] at hnext
      cases hpairs : pairUp (readLines (pairLines (xs.map fun x => (key .json x, m.dumped .json x)))) with
      | nil =>
        rw [hpairs, following, Json.skip_cons rfl] at hnext
        rcases hnext with ⟨r', hcomma, -⟩ | ⟨-, rfl⟩
        · cases hcomma
        · cases hwanted
          exact fun x hx => by cases hx
      | cons q ps =>
        rw [hpairs, following, Json.skip_cons rfl] at hnext
        rcases hnext with ⟨r', hcomma, hitems⟩ | ⟨hclose, -⟩
        · obtain ⟨-, rfl⟩ := List.cons.inj hcomma
          exact ih hrest (hpairs ▸ hitems)
        · cases hclose

end Object

theorem skip_members (ps : List (Text × Text)) :
    Json.skip (commaJoin (ps.map memberOf) ++ ['\x7d']) = commaJoin (ps.map memberOf) ++ ['\x7d'] := by
  cases ps with
  | nil => rfl
  | cons p ps =>
    rw [commaJoin_memberOf, memberOf_append]
    exact Json.skip_cons rfl _

/-- Where nothing is guessed wrongly, only what is clean comes out. -/
theorem json_clean (hin : m.Inert) (htame : m.Tame) (h : m.JsonCorrect (m.getManifest .json)) : m.JsonClean := by
  obtain ⟨members, hdecode, hfst, hplain, hfeatures, hlayers⟩ := h
  have hwanted (x : Text) (hx : x ∈ m.names) : ∃ v, members.lookup (key .json x) = some v ∧ m.Wanted x v := by
    by_cases hf : x = distFeatures
    · subst hf
      obtain ⟨vs, hlookup, hall⟩ := hfeatures hx
      exact ⟨_, hlookup, fun hne => absurd rfl hne, fun _ => ⟨vs, rfl, hall⟩, fun hl => by cases hl⟩
    · by_cases hl : x = distLayers
      · subst hl
        exact ⟨_, hlayers hx, fun _ hne => absurd rfl hne, fun hf => (by cases hf), fun _ => rfl⟩
      · obtain ⟨v, hlookup, hv⟩ := hplain x hx hf hl
        exact ⟨v, hlookup, fun _ _ => hv, fun h => absurd h hf, fun h => absurd h hl⟩
  have hall := forall₂_lookup hfst htame.keys hwanted
  have hclean : ∀ x ∈ m.names, m.ValueClean x := by
    by_cases hmembers : members = []
    · subst hmembers
      rw [List.forall₂_nil_right_iff.mp hall]
      exact fun x hx => by cases hx
    · have hinput := lines_eq (key .json) (m.dumped .json)
        (fun x hx => isKey_json (m.isName x hx) (htame.nonempty x hx)) fun x hx => hin.dumped hx
      obtain ⟨⟨v, r⟩, hvalue, hend⟩ := Option.bind_eq_some_iff.mp hdecode
      dsimp only at hend
      split at hend
      · cases hend
        rw [getManifest, outObject_json, hinput, Json.value_object] at hvalue
        obtain ⟨⟨ms, r'⟩, hsequence, heq⟩ := Option.map_eq_some_iff.mp hvalue
        cases heq
        have hitems := Json.items_of_sequence hsequence hmembers
        exact clean_of_items hin htame (fun x hx => hx) hall (skip_members _ ▸ hitems)
      · cases hend
  exact ⟨htame.keys, htame.nonempty, fun x hx => (hclean x hx).plain, fun hx => (hclean _ hx).feature rfl,
    fun hx => (hclean _ hx).layer rfl⟩

/-- A machine, a feature, and a layer with its revision. -/
def ofMachine (machine revision : Text) (hm : '\n' ∉ machine) (hr : '\n' ∉ revision) : Manifest where
  glob w := [w]
  glob_plain _ _ := rfl
  login name := name = [] || name = "root".toList
  names := ["DIST_MACHINE".toList, distFeatures, distLayers]
  isName := by decide
  value x :=
    if x = distLayers then joinWords [layerItem (['a'], revision)]
    else if x = distFeatures then ['b']
    else machine
  singleLine x := by
    split
    · simp [layerItem, hr]
    · split
      · decide
      · exact hm
  layers := [(['a'], revision)]
  value_layers := if_pos rfl

theorem mem_names_ofMachine {machine revision x : Text} {hm : '\n' ∉ machine} {hr : '\n' ∉ revision}
    (hx : x ∈ (ofMachine machine revision hm hr).names) (hf : x ≠ distFeatures) (hl : x ≠ distLayers) :
    x = "DIST_MACHINE".toList := by
  simpa [ofMachine, hf, hl] using hx

/-- Two values that are no JSON, and close each other's braces. -/
def brokenPair : Manifest where
  glob w := [w]
  glob_plain _ _ := rfl
  login _ := false
  names := [['A'], ['B']]
  isName := by decide
  value x :=
    if x = ['A'] then "\x7b\"x\":\x7b\x7d".toList
    else if x = ['B'] then "\x7b\x7d\x7d,\"b\":\x7b\x7d".toList
    else []
  singleLine x := by
    split
    · decide
    · split <;> decide
  layers := []
  value_layers := rfl

/-- They come out right, each in its place. -/
example : brokenPair.JsonCorrect (brokenPair.getManifest .json) ∧ ¬ brokenPair.JsonClean := by
  constructor
  · refine ⟨[(['a'], .obj [(['x'], .obj []), (['b'], .obj [])]), (['b'], .obj [])], rfl, rfl, fun x hx _ _ => ?_,
      fun hmem => absurd hmem (by decide), fun hmem => absurd hmem (by decide)⟩
    have hraw : ∀ x ∈ brokenPair.names, isRaw (brokenPair.value x) = true := by decide
    have hlookup : ∀ x ∈ brokenPair.names, x = ['A'] ∨ x = ['B'] := by decide
    rcases hlookup x hx with rfl | rfl <;> exact ⟨_, rfl, fun h => by cases (hraw _ hx).symm.trans h⟩
  · intro h
    have hvalue := h.value ['A'] List.mem_cons_self (by decide) (by decide)
    rw [ValueText, if_pos (by decide)] at hvalue
    revert hvalue
    decide

end Manifest

end Agl.Setup
