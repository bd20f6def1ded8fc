/-
The menus of the controls: the minimum, the maximum and the mask that the
parser of a control reply (`parseControl`) folds over the reported values.

All three describe the set of the converted values. But the conversion has a
value for what it does not know, and that is the first item of both menus: an
unknown value offers it (`menus_offer`).
-/
import Agl.Lib.Words
import Agl.Video.Caps

namespace Agl.VirtioVideo

/-! ## What the parser computes -/

/-- The `n` words from `pos` on. -/
def valuesAt (m : Mem) : Nat → Nat → List UInt32
  | 0, _ => []
  | n + 1, pos => m.le32 pos :: valuesAt m n (pos + 4)

/-- The values a control reply reports. -/
def reported (m : Mem) : List UInt32 :=
  valuesAt m (m.le32 controlRespSize).toNat (controlRespSize + controlRespNumSize)

/-- A round of the loop over the values. -/
def ControlAcc.add (toV4l2 : UInt32 → UInt32) (acc : ControlAcc) (v : UInt32) : ControlAcc where
  entries := acc.entries ++ [toV4l2 v]
  mask := acc.mask ||| (1 <<< toV4l2 v)
  max := if toV4l2 v > acc.max then toV4l2 v else acc.max
  min := if toV4l2 v < acc.min then toV4l2 v else acc.min

/-- As the loop starts. -/
def ControlAcc.init : ControlAcc := ⟨[], 0, 0, 0xffffffff⟩

/-- The record of the values `vs`. -/
def menuOf (toV4l2 : UInt32 → UInt32) (vs : List UInt32) : ControlFmtData :=
  let acc := vs.foldl (ControlAcc.add toV4l2) .init
  ⟨acc.min, acc.max, UInt32.ofNat vs.length, ~~~acc.mask, acc.entries⟩

section

variable (toV4l2 : UInt32 → UInt32) (m : Mem)

theorem length_valuesAt (n pos : Nat) : (valuesAt m n pos).length = n := by
  induction n generalizing pos with
  | zero => rfl
  | succ n ih => rw [valuesAt, List.length_cons, ih]

open Access

theorem parseControlEntries_gives {grant : Nat → Bool} {k : Nat} {Q : ControlAcc → Nat → Prop} (n pos : Nat)
    (acc : ControlAcc) (h : Q ((valuesAt m n pos).foldl (ControlAcc.add toV4l2) acc) k) :
    Gives grant (parseControlEntries toV4l2 m n pos acc) k Q := by
  induction n generalizing pos acc with
  | zero => exact Gives.ret h
  | succ n ih => exact Gives.bind (Gives.read (ih (pos + 4) _ h))

theorem parseControlEntries_reported (grant : Nat → Bool) (k : Nat) :
    (parseControlEntries toV4l2 m (m.le32 controlRespSize).toNat (controlRespSize + controlRespNumSize) .init
      grant k).val = some ((reported m).foldl (ControlAcc.add toV4l2) .init) :=
  Gives.val (parseControlEntries_gives toV4l2 m _ _ _ rfl)

theorem ofNat_length_reported : UInt32.ofNat (reported m).length = m.le32 controlRespSize := by
  rw [reported, length_valuesAt, UInt32.ofNat_toNat]

/-- The result and the record of a control reply, by the two allocations. -/
theorem parseControl_val (grant : Nat → Bool) (n : Nat) :
    (parseControl toV4l2 m grant n).val = some (
      if m.le32 controlRespSize = 0 then (.ok (), .null)
      else if grant n then
        if grant (n + 1) then (.ok (), .data (menuOf toV4l2 (reported m))) else (.error .enomem, .dangling)
      else (.error .enomem, .null)) := by
  refine Gives.val ?_
  unfold parseControl
  refine Gives.bind (Gives.read ?_)
  dsimp only
  split
  · exact Gives.ret rfl
  · refine Gives.bind (Gives.alloc ?_)
    split
    · refine Gives.bind (Gives.alloc ?_)
      split
      · refine Gives.bind (parseControlEntries_gives toV4l2 m _ _ _ (Gives.ret ?_))
        rw [menuOf, ofNat_length_reported]
        rfl
      · exact Gives.ret rfl
    · exact Gives.ret rfl

end

/-! ## One set, three ways -/

theorem bit_one_shiftLeft {e : UInt32} (he : e < 32) {i : Nat} (hi : i < 32) :
    bit (1 <<< e) i = decide (e.toNat = i) := by
  have he : e.toNat < 32 := he
  have hone : (1 : UInt32).toNat = 1 := rfl
  simp only [bit, UInt32.toNat_shiftLeft, hone, Nat.mod_eq_of_lt he, Nat.one_shiftLeft, Nat.testBit_mod_two_pow, hi,
    decide_true, Bool.true_and, Nat.testBit_two_pow]

/-- The mask, the largest and the smallest are those of the entries. -/
structure ControlAcc.Sums (acc : ControlAcc) : Prop where
  lt : ∀ e ∈ acc.entries, e < 32
  mask : ∀ i < 32, bit acc.mask i = true ↔ ∃ e ∈ acc.entries, e.toNat = i
  le_max : ∀ e ∈ acc.entries, e ≤ acc.max
  min_le : ∀ e ∈ acc.entries, acc.min ≤ e
  max_lt : acc.max < 32
  min_mem : acc.entries ≠ [] → acc.min ∈ acc.entries
  min_init : acc.entries = [] → acc.min = 0xffffffff

theorem ControlAcc.Sums.init : ControlAcc.init.Sums where
  lt := fun _ he => by cases he
  mask := fun i _ => by simp [ControlAcc.init]
  le_max := fun _ he => by cases he
  min_le := fun _ he => by cases he
  max_lt := by decide
  min_mem := fun h => (h rfl).elim
  min_init := fun _ => rfl

theorem ControlAcc.Sums.add {toV4l2 : UInt32 → UInt32} {acc : ControlAcc} (h : acc.Sums) {v : UInt32}
    (hv : toV4l2 v < 32) : (acc.add toV4l2 v).Sums where
  lt := by
    intro e he
    rcases List.mem_append.mp he with he | he
    · exact h.lt e he
    · obtain rfl := List.mem_singleton.mp he
      exact hv
  mask := by
    intro i hi
    simp only [ControlAcc.add, bit_or, bit_one_shiftLeft hv hi, Bool.or_eq_true, h.mask i hi, decide_eq_true_eq,
      List.mem_append, List.mem_singleton, or_and_right, exists_or, exists_eq_left]
  le_max := by
    intro e he
    show e ≤ if toV4l2 v > acc.max then toV4l2 v else acc.max
    rcases List.mem_append.mp he with he | he
    · have := h.le_max e he
      split
      · exact UInt32.le_trans this (UInt32.le_of_lt ‹_›)
      · exact this
    · obtain rfl := List.mem_singleton.mp he
      split
      · exact UInt32.le_refl _
      · exact UInt32.not_lt.mp ‹_›
  min_le := by
    intro e he
    show (if toV4l2 v < acc.min then toV4l2 v else acc.min) ≤ e
    rcases List.mem_append.mp he with he | he
    · have := h.min_le e he
      split
      · exact UInt32.le_trans (UInt32.le_of_lt ‹_›) this
      · exact this
    · obtain rfl := List.mem_singleton.mp he
      split
      · exact UInt32.le_refl _
      · exact UInt32.not_lt.mp ‹_›
  max_lt := by
    show (if toV4l2 v > acc.max then toV4l2 v else acc.max) < 32
    split
    · exact hv
    · exact h.max_lt
  min_mem := by
    intro _
    show (if toV4l2 v < acc.min then toV4l2 v else acc.min) ∈ acc.entries ++ [toV4l2 v]
    split
    · exact List.mem_append_right _ (List.mem_singleton.mpr rfl)
    · next hle =>
      by_cases he : acc.entries = []
      · rw [h.min_init he] at hle
        exact (hle (UInt32.lt_trans hv (by decide))).elim
      · exact List.mem_append_left _ (h.min_mem he)
  min_init := fun he => (List.append_ne_nil_of_right_ne_nil _ (List.cons_ne_nil _ _) he).elim

theorem foldl_sums {toV4l2 : UInt32 → UInt32} (hlt : ∀ v, toV4l2 v < 32) (vs : List UInt32) {acc : ControlAcc}
    (h : acc.Sums) : (vs.foldl (ControlAcc.add toV4l2) acc).Sums := by
  induction vs generalizing acc with
  | nil => exact h
  | cons v vs ih => exact ih (h.add (hlt v))

theorem foldl_entries (toV4l2 : UInt32 → UInt32) (vs : List UInt32) (acc : ControlAcc) :
    (vs.foldl (ControlAcc.add toV4l2) acc).entries = acc.entries ++ vs.map toV4l2 := by
  induction vs generalizing acc with
  | nil => exact (List.append_nil _).symm
  | cons v vs ih =>
    rw [List.foldl_cons, ih, List.map_cons]
    exact List.append_assoc _ [_] _

/-! ## The items of a menu -/

/-- `v4l2_ctrl_new_std_menu` and the checks of a menu control let the item
be set. -/
def ControlFmtData.Admits (d : ControlFmtData) (item : UInt32) : Prop :=
  d.min ≤ item ∧ item ≤ d.max ∧ bit d.skipMask item.toNat = false

theorem menuOf_admits {toV4l2 : UInt32 → UInt32} (hlt : ∀ v, toV4l2 v < 32) (vs : List UInt32) (item : UInt32) :
    (menuOf toV4l2 vs).Admits item ↔ item ∈ vs.map toV4l2 := by
  have hs := foldl_sums hlt vs .init
  have he := foldl_entries toV4l2 vs .init
  rw [show ControlAcc.init.entries = [] from rfl, List.nil_append] at he
  rw [← he]
  constructor
  · rintro ⟨-, hmax, hskip⟩
    have hi : item.toNat < 32 := UInt32.lt_of_le_of_lt hmax hs.max_lt
    rw [menuOf, bit_not _ hi, Bool.not_eq_false', hs.mask _ hi] at hskip
    obtain ⟨e, hmem, heq⟩ := hskip
    rwa [← UInt32.toNat_inj.mp heq]
  · intro hmem
    have hi : item.toNat < 32 := hs.lt item hmem
    refine ⟨hs.min_le item hmem, hs.le_max item hmem, ?_⟩
    rw [menuOf, bit_not _ hi, Bool.not_eq_false', hs.mask _ hi]
    exact ⟨item, hmem, rfl⟩

theorem menuOf_min_mem {toV4l2 : UInt32 → UInt32} (hlt : ∀ v, toV4l2 v < 32) {vs : List UInt32} (hne : vs ≠ []) :
    (menuOf toV4l2 vs).min ∈ vs.map toV4l2 := by
  have hs := foldl_sums hlt vs .init
  have he := foldl_entries toV4l2 vs .init
  rw [show ControlAcc.init.entries = [] from rfl, List.nil_append] at he
  rw [← he]
  refine hs.min_mem ?_
  rw [he]
  exact fun h => hne (List.map_eq_nil_iff.mp h)

/-! ## What the menus offer -/

/-- What the table has for a value; its last entry only ends it. -/
def translation (table : List ConvertEntry) (v : UInt32) : Option UInt32 :=
  (table.dropLast.find? fun e => e.virtioValue = v).map ConvertEntry.v4l2Value

/-- The items are the translations of the values, and the first, which is
the default, is one if there are any. -/
structure ControlFmtData.Offers (d : ControlFmtData) (table : List ConvertEntry) (vs : List UInt32) : Prop where
  items : ∀ item, d.Admits item ↔ ∃ v ∈ vs, translation table v = some item
  default : (∃ v ∈ vs, (translation table v).isSome) → ∃ v ∈ vs, translation table v = some d.min

/-- A table whose translations are items of a menu, the first of them that
of one value. -/
structure IsMenuTable (table : List ConvertEntry) : Prop where
  ends : table = table.dropLast ++ [⟨0, 0⟩]
  lt : ∀ e ∈ table, e.v4l2Value < 32
  zero : ∀ e ∈ table.dropLast, e.v4l2Value = 0 → e.virtioValue = 0x100
  first : translation table 0x100 = some 0

theorem levelTable_isMenuTable : IsMenuTable levelTable := ⟨rfl, by decide, by decide, rfl⟩

theorem profileTable_isMenuTable : IsMenuTable profileTable := ⟨rfl, by decide, by decide, rfl⟩

section

variable {table : List ConvertEntry} (ht : IsMenuTable table)

include ht

theorem IsMenuTable.toV4l2 (v : UInt32) : toV4l2 table v = (translation table v).getD 0 := by
  rw [ht.ends]
  simp only [VirtioVideo.toV4l2, translation, List.dropLast_concat, List.find?_append, List.find?_singleton]
  cases table.dropLast.find? fun e => e.virtioValue = v with
  | some e => rfl
  | none =>
    by_cases h0 : (0 : UInt32) = v
    · simp [h0]
    · simp [h0]

theorem IsMenuTable.toV4l2_lt (v : UInt32) : VirtioVideo.toV4l2 table v < 32 := by
  unfold VirtioVideo.toV4l2
  split
  · next e he => exact ht.lt e (List.mem_of_find?_eq_some he)
  · decide

theorem IsMenuTable.translation_zero {v : UInt32} : translation table v = some 0 ↔ v = 0x100 := by
  constructor
  · intro h
    obtain ⟨e, he, h0⟩ := Option.map_eq_some_iff.mp h
    have hv := List.find?_some he
    rw [← of_decide_eq_true hv]
    exact ht.zero e (List.mem_of_find?_eq_some he) h0
  · rintro rfl
    exact ht.first

/-- What is offered is right unless an unknown value alone offers the first
item. -/
theorem IsMenuTable.offers_iff (vs : List UInt32) :
    (menuOf (VirtioVideo.toV4l2 table) vs).Offers table vs ↔
      (∀ v ∈ vs, (translation table v).isSome) ∨ 0x100 ∈ vs := by
  have hadmits := menuOf_admits ht.toV4l2_lt vs
  constructor
  · intro h
    by_cases hall : ∀ v ∈ vs, (translation table v).isSome
    · exact .inl hall
    · simp only [not_forall, exists_prop] at hall
      obtain ⟨v, hv, hnone⟩ := hall
      have hv0 : VirtioVideo.toV4l2 table v = 0 := by
        rw [ht.toV4l2, Option.not_isSome_iff_eq_none.mp hnone]
        rfl
      obtain ⟨v', hv', h0⟩ := (h.items 0).mp ((hadmits 0).mpr (List.mem_map.mpr ⟨v, hv, hv0⟩))
      exact .inr (ht.translation_zero.mp h0 ▸ hv')
  · intro h
    have hmem : ∀ item, item ∈ vs.map (VirtioVideo.toV4l2 table) ↔ ∃ v ∈ vs, translation table v = some item := by
      intro item
      simp only [List.mem_map, ht.toV4l2]
      constructor
      · rintro ⟨v, hv, rfl⟩
        cases hv' : translation table v with
        | some i => exact ⟨v, hv, hv'⟩
        | none =>
          refine ⟨0x100, ?_, ht.first⟩
          rcases h with h | h
          · have := h v hv
            rw [hv'] at this
            cases this
          · exact h
      · rintro ⟨v, hv, hitem⟩
        exact ⟨v, hv, by rw [hitem]; rfl⟩
    refine ⟨fun item => (hadmits item).trans (hmem item), ?_⟩
    rintro ⟨v, hv, -⟩
    exact (hmem _).mp (menuOf_min_mem ht.toV4l2_lt (List.ne_nil_of_mem hv))

end

theorem reported_ne_nil {m : Mem} : reported m ≠ [] ↔ m.le32 controlRespSize ≠ 0 := by
  rw [← List.length_pos_iff, reported, length_valuesAt, Nat.pos_iff_ne_zero, ne_eq, ne_eq, ← UInt32.toNat_inj]
  rfl

theorem parseControl_data {toV4l2 : UInt32 → UInt32} {m : Mem} (hne : reported m ≠ []) (grant : Nat → Bool) (n : Nat) :
    (parseControl toV4l2 m grant n).val = some (.ok (), .data (menuOf toV4l2 (reported m))) ↔
      grant n = true ∧ grant (n + 1) = true := by
  rw [parseControl_val, if_neg (reported_ne_nil.mp hne)]
  cases grant n <;> cases grant (n + 1) <;> simp

/-- **The menus.** Of a reply with values, the two parsers leave a record
each, if they can allocate it; its menu offers what the device reports
exactly when every value is in the table, or the one whose translation is the
first item is reported. -/
theorem menus_offer {m : Mem} (hne : reported m ≠ []) : ∃ levels profiles : ControlFmtData,
    (∀ grant n, (parseControlLevels m grant n).val = some (.ok (), .data levels) ↔
      grant n = true ∧ grant (n + 1) = true) ∧
    (∀ grant n, (parseControlProfiles m grant n).val = some (.ok (), .data profiles) ↔
      grant n = true ∧ grant (n + 1) = true) ∧
    (levels.Offers levelTable (reported m) ↔
      (∀ v ∈ reported m, (translation levelTable v).isSome) ∨ 0x100 ∈ reported m) ∧
    (profiles.Offers profileTable (reported m) ↔
      (∀ v ∈ reported m, (translation profileTable v).isSome) ∨ 0x100 ∈ reported m) :=
  ⟨menuOf levelToV4l2 (reported m), menuOf profileToV4l2 (reported m), parseControl_data hne, parseControl_data hne,
    levelTable_isMenuTable.offers_iff _, profileTable_isMenuTable.offers_iff _⟩

/-- A control reply with these values. -/
def controlReply (vs : List UInt32) : Mem :=
  .ofList (([0, 0, UInt32.ofNat vs.length, 0] ++ vs).flatMap le32Bytes) fun _ => 0

/-- Three values of each table, none of them the first item. -/
theorem menus_offer_main : ∃ levels profiles : ControlFmtData,
    (parseControlLevels (controlReply [0x105, 0x103, 0x104]) (fun _ => true) 0).val = some (.ok (), .data levels) ∧
      (parseControlProfiles (controlReply [0x105, 0x103, 0x104]) (fun _ => true) 0).val =
        some (.ok (), .data profiles) ∧
      levels.Offers levelTable [0x105, 0x103, 0x104] ∧ profiles.Offers profileTable [0x105, 0x103, 0x104] := by
  have hreported : reported (controlReply [0x105, 0x103, 0x104]) = [0x105, 0x103, 0x104] := by decide
  obtain ⟨levels, profiles, hlevels, hprofiles, hlevel, hprofile⟩ :=
    menus_offer (m := controlReply [0x105, 0x103, 0x104]) (by decide)
  rw [hreported] at hlevel hprofile
  exact ⟨levels, profiles, (hlevels _ 0).mpr ⟨rfl, rfl⟩, (hprofiles _ 0).mpr ⟨rfl, rfl⟩,
    hlevel.mpr (.inl (List.all_eq_true.mp (by decide))), hprofile.mpr (.inl (List.all_eq_true.mp (by decide)))⟩

/-- Level 2.1 and one the driver does not know: level 1.0 is offered, and is
the default. -/
theorem menu_offers_unknown : ∃ d : ControlFmtData,
    (parseControlLevels (controlReply [0x105, 0x200]) (fun _ => true) 0).val = some (.ok (), .data d) ∧
      reported (controlReply [0x105, 0x200]) = [0x105, 0x200] ∧ d.min = 0 ∧
      ¬d.Offers levelTable (reported (controlReply [0x105, 0x200])) := by
  refine ⟨_, (parseControl_data (by decide) _ _).mpr ⟨rfl, rfl⟩, by decide, by decide, fun h => ?_⟩
  have h0 := (h.items 0).mp ⟨by decide, by decide, by decide⟩
  exact absurd h0 (by decide)

end Agl.VirtioVideo
