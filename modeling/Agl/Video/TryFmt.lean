/-
The size TRY_FMT settles on (`virtio_video_try_fmt`), against the test the
frame intervals are enumerated with.

Three notions of a multiple meet here: the ranges of a frame count their
steps from `min`, `ALIGN` and `IS_ALIGNED` count from 0 and by the bits of
`step - 1`, and a step of 0 is none for the macros and a single size for
`in_stepped_interval`. `Suits` says for which requests they agree; on ranges
that are `Regular` they do for all.
-/
import Mathlib.Data.Nat.ModEq
import Agl.Lib.Words
import Agl.Video.CmdFacts
import Agl.Video.FrameIntervals

namespace Agl.VirtioVideo

/-! ## One size -/

theorem clamp_of_within {val lo hi : UInt32} (hlo : lo ≤ val) (hhi : val ≤ hi) : clamp val lo hi = val := by
  unfold clamp
  grind

theorem clamp_within (val : UInt32) {lo hi : UInt32} (h : lo ≤ hi) : lo ≤ clamp val lo hi ∧ clamp val lo hi ≤ hi := by
  unfold clamp
  grind

theorem needsAlignment_eq_false {val a : UInt32} (h0 : a ≠ 0) :
    needsAlignment val a = false ↔ val &&& (a - 1) = 0 := by
  simp [needsAlignment, h0]

/-- `ALIGN` gives the aligned value that lies above by bits of `a - 1`. -/
theorem align_eq_iff {x a g : UInt32} (h0 : a ≠ 0) :
    align x a = g ↔ needsAlignment g a = false ∧ (g - x) &&& ~~~(a - 1) = 0 := by
  unfold align
  rw [add_clear_eq_iff, needsAlignment_eq_false h0]

theorem align_of_aligned {x a : UInt32} (h0 : a ≠ 0) (h : needsAlignment x a = false) : align x a = x := by
  rw [align_eq_iff h0, UInt32.sub_self, UInt32.zero_and]
  exact ⟨h, rfl⟩

/-- What a request, brought into the range, lacks to the next size of the range. -/
def FormatRange.gap (range : FormatRange) (val : UInt32) : UInt32 :=
  let above := (clamp val range.min range.max - range.min) % range.step
  if above = 0 then 0 else range.step - above

/-- A size that needs no alignment, and lies above the request, brought into
the range, by bits of the step less one. -/
def FormatRange.AlignsTo (range : FormatRange) (val size : UInt32) : Prop :=
  needsAlignment size range.step = false ∧ (size - clamp val range.min range.max) &&& ~~~(range.step - 1) = 0

instance (range : FormatRange) (val size : UInt32) : Decidable (range.AlignsTo val size) :=
  inferInstanceAs (Decidable (_ ∧ _))

/-- The range and the macros agree on the request. Without a step the range has
to be a single size. A step that is a power of two has to divide `min`, and the
request must not be above the last multiple, unless that is `max`, or 2^32 comes
next and the range begins at 0. By any other step the macros count something
else: there the next size of the range, or `min` beyond 2^32, happens to be
aligned. -/
def FormatRange.Suits (range : FormatRange) (val : UInt32) : Prop :=
  if range.step = 0 then range.min = range.max
  else if range.step &&& (range.step - 1) = 0 then
    range.min % range.step = 0 ∧ (range.max % range.step = 0 ∨ val ≤ range.max - range.max % range.step ∨
      range.min = 0 ∧ -range.step ≤ range.max - range.max % range.step)
  else
    (range.gap val ≤ range.max - clamp val range.min range.max ∧
      range.AlignsTo val (clamp val range.min range.max + range.gap val)) ∨ range.AlignsTo val range.min

instance (range : FormatRange) (val : UInt32) : Decidable (range.Suits val) := by
  unfold FormatRange.Suits
  infer_instance

/-- The size of the range next to the request: `min` where there is no step
or the sum passes 2^32, else the first one at or above it. -/
def FormatRange.next (range : FormatRange) (val : UInt32) : UInt32 :=
  if range.step = 0 ∨ range.AlignsTo val range.min then range.min
  else clamp val range.min range.max + range.gap val

/-! ## The next size of a range -/

theorem alignsTo_iff {range : FormatRange} {val size : UInt32} (h0 : range.step ≠ 0) :
    range.AlignsTo val size ↔ align (clamp val range.min range.max) range.step = size :=
  (align_eq_iff h0).symm

/-- The gap is less than a step, and filled gives a size of the range. -/
theorem gap_spec {range : FormatRange} (val : UInt32) (h0 : range.step ≠ 0) (hle : range.min ≤ range.max) :
    (range.gap val).toNat < range.step.toNat ∧
      ((clamp val range.min range.max).toNat - range.min.toNat + (range.gap val).toNat) % range.step.toNat = 0 := by
  have hpos : 0 < range.step.toNat := toNat_pos h0
  obtain ⟨hlo, -⟩ := clamp_within val hle
  have habove : ((clamp val range.min range.max - range.min) % range.step).toNat =
      ((clamp val range.min range.max).toNat - range.min.toNat) % range.step.toNat := by
    rw [UInt32.toNat_mod, UInt32.toNat_sub_of_le _ _ hlo]
  have hlt := Nat.mod_lt ((clamp val range.min range.max).toNat - range.min.toNat) hpos
  unfold FormatRange.gap
  dsimp only
  split
  · next hzero =>
    rw [hzero] at habove
    exact ⟨hpos, by simpa using habove.symm⟩
  · next hne =>
    have hnat : ((clamp val range.min range.max - range.min) % range.step).toNat ≠ 0 := fun hz =>
      hne (UInt32.toNat_inj.1 hz)
    rw [UInt32.toNat_sub_of_le _ _ (UInt32.le_iff_toNat_le.2 (by omega)), habove]
    rw [habove] at hnat
    refine ⟨by omega, ?_⟩
    have hsum := Nat.div_add_mod ((clamp val range.min range.max).toNat - range.min.toNat) range.step.toNat
    apply Nat.mod_eq_zero_of_dvd
    refine ⟨((clamp val range.min range.max).toNat - range.min.toNat) / range.step.toNat + 1, ?_⟩
    rw [Nat.mul_add, Nat.mul_one]
    omega

/-- A size of the range less than a step above is the next one. -/
theorem gap_eq {range : FormatRange} {val : UInt32} (h0 : range.step ≠ 0) (hle : range.min ≤ range.max) {d : UInt32}
    (hd : d.toNat < range.step.toNat)
    (hgrid : ((clamp val range.min range.max).toNat - range.min.toNat + d.toNat) % range.step.toNat = 0) :
    d = range.gap val := by
  obtain ⟨hlt, hmod⟩ := gap_spec val h0 hle
  apply UInt32.toNat_inj.1
  have hcong : d.toNat ≡ (range.gap val).toNat [MOD range.step.toNat] :=
    Nat.ModEq.add_left_cancel' _ (hgrid.trans hmod.symm)
  unfold Nat.ModEq at hcong
  rwa [Nat.mod_eq_of_lt hd, Nat.mod_eq_of_lt hlt] at hcong

/-- `ALIGN` comes to a size of the range exactly if that is the next one, or
`min` where the sum passes 2^32. -/
theorem align_takes_iff {range : FormatRange} {val : UInt32} (h0 : range.step ≠ 0) (hle : range.min ≤ range.max) :
    inSteppedInterval range (align (clamp val range.min range.max) range.step) = true ↔
      (range.gap val ≤ range.max - clamp val range.min range.max ∧
        range.AlignsTo val (clamp val range.min range.max + range.gap val)) ∨ range.AlignsTo val range.min := by
  have hpos : 0 < range.step.toNat := toNat_pos h0
  have hpred := toNat_pred h0
  obtain ⟨hlo, hhi⟩ := clamp_within val hle
  obtain ⟨hgap, hgrid⟩ := gap_spec val h0 hle
  have hnext := @gap_eq range val h0 hle
  rw [inSteppedInterval_iff, if_neg h0, alignsTo_iff h0, alignsTo_iff h0]
  have hfill := ((align_eq_iff (x := clamp val range.min range.max) h0).1 rfl).2
  generalize align (clamp val range.min range.max) range.step = g at hfill ⊢
  generalize clamp val range.min range.max = c at hlo hhi hgrid hnext hfill ⊢
  have hmask := le_of_clear hfill
  have hfits := c.toNat_lt
  rw [hpred] at hmask
  constructor
  · intro ⟨⟨hmin, hmax⟩, hmod⟩
    have hsub := toNat_mod_eq_zero.2 hmod
    rw [UInt32.toNat_sub_of_le _ _ hmin] at hsub
    rw [UInt32.le_iff_toNat_le] at hmin hmax hlo
    by_cases hcg : c ≤ g
    · -- the sum does not pass 2^32: `g` is less than a step above
      have hdiff := UInt32.toNat_sub_of_le _ _ hcg
      rw [UInt32.le_iff_toNat_le] at hcg
      have hgrid' : (c.toNat - range.min.toNat + (g - c).toNat) % range.step.toNat = 0 := by
        rw [hdiff, show c.toNat - range.min.toNat + (g.toNat - c.toNat) = g.toNat - range.min.toNat by omega]
        exact hsub
      have hd := hnext (by omega) hgrid'
      refine .inl ⟨?_, by rw [← hd]; grind⟩
      rw [← hd, UInt32.le_iff_toNat_le, UInt32.toNat_sub_of_le _ _ hhi, hdiff]
      omega
    · -- it does, and there is no room for a step between `min` and `g`
      rw [UInt32.le_iff_toNat_le, Nat.not_le] at hcg
      rw [UInt32.toNat_sub, Nat.mod_eq_of_lt (by omega)] at hmask
      have hzero : (g.toNat - range.min.toNat) % range.step.toNat = g.toNat - range.min.toNat :=
        Nat.mod_eq_of_lt (by omega)
      rw [hzero] at hsub
      refine .inr (UInt32.toNat_inj.1 ?_)
      omega
  · rintro (⟨hroom, rfl⟩ | rfl)
    · rw [UInt32.le_iff_toNat_le, UInt32.toNat_sub_of_le _ _ hhi] at hroom
      rw [UInt32.le_iff_toNat_le] at hhi hlo
      have hmaxfits := range.max.toNat_lt
      have hsum : (c + range.gap val).toNat = c.toNat + (range.gap val).toNat := by
        rw [UInt32.toNat_add, Nat.mod_eq_of_lt (by omega)]
      have hmin : range.min ≤ c + range.gap val := by
        rw [UInt32.le_iff_toNat_le, hsum]
        omega
      refine ⟨⟨hmin, ?_⟩, toNat_mod_eq_zero.1 ?_⟩
      · rw [UInt32.le_iff_toNat_le, hsum]
        omega
      · rw [UInt32.toNat_sub_of_le _ _ hmin, hsum,
          show c.toNat + (range.gap val).toNat - range.min.toNat = c.toNat - range.min.toNat + (range.gap val).toNat by
            omega, hgrid]
    · exact ⟨⟨UInt32.le_refl _, hle⟩, by rw [UInt32.sub_self, UInt32.zero_mod]⟩

theorem inSteppedInterval_within {range : FormatRange} {point : UInt32} (h : inSteppedInterval range point = true) :
    withinRange range.min point range.max = true := by
  have hin := (inSteppedInterval_iff.1 h).1
  simp only [withinRange, hin, decide_true, Bool.and_self]

theorem fitSize_of_aligned {range : FormatRange} {val : UInt32} (hin : withinRange range.min val range.max = true)
    (ha : needsAlignment val range.step = false) : fitSize val range = val := by
  simp only [withinRange, Bool.and_eq_true, decide_eq_true_eq] at hin
  unfold fitSize
  rw [clamp_of_within hin.1 hin.2]
  dsimp only
  split
  · next h0 => exact align_of_aligned h0 ha
  · rfl

/-! ## Powers of two -/

theorem align_pow_eq {x a g : UInt32} (h0 : a ≠ 0) (hpow : a &&& (a - 1) = 0) (hg : g % a = 0)
    (hlt : (g - x).toNat < a.toNat) : align x a = g := by
  rw [align_eq_iff h0, needsAlignment_eq_false h0, and_pred_eq_mod h0 hpow]
  refine ⟨hg, ?_⟩
  have hrest : (g - x) &&& (a - 1) = g - x := by
    rw [and_pred_eq_mod h0 hpow]
    apply UInt32.toNat_inj.1
    rw [UInt32.toNat_mod, Nat.mod_eq_of_lt hlt]
  have hsum := clear_add_and (g - x) (a - 1)
  rw [hrest] at hsum
  grind

/-- The next multiple at or above `c` does not pass a multiple above `c`. -/
theorem next_multiple {c a max : Nat} (ha : 0 < a) (hc : c ≤ max) (hmax : max % a = 0) :
    c ≤ (c + (a - 1)) / a * a ∧ (c + (a - 1)) / a * a ≤ max ∧ (c + (a - 1)) / a * a < c + a := by
  have hdiv := Nat.div_add_mod (c + (a - 1)) a
  have hlt := Nat.mod_lt (c + (a - 1)) ha
  have hcomm := Nat.mul_comm ((c + (a - 1)) / a) a
  obtain ⟨k, rfl⟩ := Nat.dvd_of_mod_eq_zero hmax
  refine ⟨by omega, ?_, by omega⟩
  rw [hcomm]
  apply Nat.mul_le_mul_left
  apply Nat.le_of_lt_succ
  rw [Nat.div_lt_iff_lt_mul ha, Nat.succ_mul, Nat.mul_comm k a]
  omega

/-- `max - max % step` is the last multiple up to `max`. -/
theorem last_multiple (max : UInt32) {step : UInt32} (h0 : step ≠ 0) :
    (max - max % step) % step = 0 ∧ max - max % step ≤ max ∧ (max % step ≠ 0 → max - max % step < max) ∧
      max.toNat < (max - max % step).toNat + step.toNat := by
  have hpos : 0 < step.toNat := toNat_pos h0
  have hmod := Nat.mod_le max.toNat step.toNat
  have hlt := Nat.mod_lt max.toNat hpos
  have hlast : (max - max % step).toNat = max.toNat - max.toNat % step.toNat := by
    rw [UInt32.toNat_sub_of_le, UInt32.toNat_mod]
    rw [UInt32.le_iff_toNat_le, UInt32.toNat_mod]
    exact hmod
  refine ⟨toNat_mod_eq_zero.1 ?_, ?_, fun hne => ?_, by omega⟩
  · rw [hlast]
    exact Nat.mod_eq_zero_of_dvd (Nat.dvd_sub_mod _)
  · rw [UInt32.le_iff_toNat_le]
    omega
  · have hnat : max.toNat % step.toNat ≠ 0 := mt toNat_mod_eq_zero.1 hne
    rw [UInt32.lt_iff_toNat_lt]
    omega

theorem le_last_multiple {x max step : UInt32} (h0 : step ≠ 0) (hx : x % step = 0) (hle : x ≤ max) :
    x ≤ max - max % step := by
  obtain ⟨hmod, -, -, hlt⟩ := last_multiple max h0
  generalize max - max % step = last at hmod hlt
  have hxmod : x.toNat % step.toNat = 0 := toNat_mod_eq_zero.2 hx
  have hlastmod : last.toNat % step.toNat = 0 := toNat_mod_eq_zero.2 hmod
  obtain ⟨j, hj⟩ := Nat.dvd_of_mod_eq_zero hxmod
  obtain ⟨k, hk⟩ := Nat.dvd_of_mod_eq_zero hlastmod
  rw [UInt32.le_iff_toNat_le] at hle ⊢
  have hjk : j < k + 1 := by
    apply Nat.lt_of_mul_lt_mul_left (a := step.toNat)
    rw [Nat.mul_succ]
    omega
  rw [hj, hk]
  exact Nat.mul_le_mul_left _ (Nat.le_of_lt_succ hjk)

section Power

variable {range : FormatRange} {val : UInt32}

/-- With a multiple between the request and `max` there is one the range has. -/
theorem takes_of_multiple {c t : UInt32} (h0 : range.step ≠ 0) (hpow : range.step &&& (range.step - 1) = 0)
    (hmin : range.min % range.step = 0) (hlo : range.min ≤ c) (hct : c ≤ t) (ht : t % range.step = 0)
    (hmax : t ≤ range.max) : inSteppedInterval range (align c range.step) = true := by
  have hpos : 0 < range.step.toNat := toNat_pos h0
  have htmod : t.toNat % range.step.toNat = 0 := toNat_mod_eq_zero.2 ht
  obtain ⟨hge, hle, hlt⟩ := next_multiple hpos (UInt32.le_iff_toNat_le.1 hct) htmod
  obtain ⟨g, hg⟩ : ∃ g : UInt32, g.toNat = (c.toNat + (range.step.toNat - 1)) / range.step.toNat * range.step.toNat :=
    ⟨.ofNat _, UInt32.toNat_ofNat_of_lt' (Nat.lt_of_le_of_lt hle t.toNat_lt)⟩
  have hgmod : g.toNat % range.step.toNat = 0 := by
    rw [hg]
    exact Nat.mul_mod_left _ _
  rw [← hg] at hge hle hlt
  have hcg : c ≤ g := UInt32.le_iff_toNat_le.2 hge
  have hming : range.min ≤ g := UInt32.le_trans hlo hcg
  have halign : align c range.step = g := by
    refine align_pow_eq h0 hpow (toNat_mod_eq_zero.1 hgmod) ?_
    rw [UInt32.toNat_sub_of_le _ _ hcg]
    omega
  rw [halign, inSteppedInterval_iff, if_neg h0]
  refine ⟨⟨hming, UInt32.le_trans (UInt32.le_iff_toNat_le.2 hle) hmax⟩, toNat_mod_eq_zero.1 ?_⟩
  have hminmod : range.min.toNat % range.step.toNat = 0 := toNat_mod_eq_zero.2 hmin
  rw [UInt32.toNat_sub_of_le _ _ hming]
  exact Nat.sub_mod_eq_zero_of_mod_eq (hgmod.trans hminmod.symm)

/-- A range that has a multiple begins at one. -/
theorem min_multiple {g : UInt32} (hg : g % range.step = 0) (hmin : range.min ≤ g)
    (hgrid : (g - range.min) % range.step = 0) : range.min % range.step = 0 := by
  have hgmod : g.toNat % range.step.toNat = 0 := toNat_mod_eq_zero.2 hg
  have hdiffmod : (g.toNat - range.min.toNat) % range.step.toNat = 0 := by
    rw [← UInt32.toNat_sub_of_le _ _ hmin]
    exact toNat_mod_eq_zero.2 hgrid
  rw [UInt32.le_iff_toNat_le] at hmin
  obtain ⟨j, hj⟩ := Nat.dvd_of_mod_eq_zero hgmod
  obtain ⟨k, hk⟩ := Nat.dvd_of_mod_eq_zero hdiffmod
  have hsub : range.min.toNat = range.step.toNat * (j - k) := by
    rw [Nat.mul_sub]
    omega
  apply toNat_mod_eq_zero.1
  rw [hsub]
  exact Nat.mul_mod_right _ _

/-- Beyond the last multiple `ALIGN` comes to a size of the range only past 2^32. -/
theorem wraps_of_takes {c : UInt32} (h0 : range.step ≠ 0) (hpow : range.step &&& (range.step - 1) = 0)
    (hmax : c ≤ range.max) (hc : range.max - range.max % range.step < c)
    (htakes : inSteppedInterval range (align c range.step) = true) :
    range.min = 0 ∧ -range.step ≤ range.max - range.max % range.step := by
  have hsize : UInt32.size = 2 ^ 32 := rfl
  have hfits := c.toNat_lt
  obtain ⟨haligned, hfill⟩ := (align_eq_iff (x := c) h0).1 rfl
  obtain ⟨hlastmod, -, -, hlastlt⟩ := last_multiple range.max h0
  rw [needsAlignment_eq_false h0, and_pred_eq_mod h0 hpow] at haligned
  rw [inSteppedInterval_iff, if_neg h0] at htakes
  obtain ⟨⟨hmin, hmaxg⟩, hgrid⟩ := htakes
  have hminmod := min_multiple haligned hmin hgrid
  have hglast := le_last_multiple h0 haligned hmaxg
  have hmask := le_of_clear hfill
  generalize hg : align c range.step = g at haligned hmin hmaxg hglast hmask
  generalize range.max - range.max % range.step = last at hc hlastmod hlastlt hglast ⊢
  rw [toNat_pred h0] at hmask
  rw [UInt32.le_iff_toNat_le] at hmax hmin hglast
  rw [UInt32.lt_iff_toNat_lt] at hc
  rw [UInt32.toNat_sub, Nat.mod_eq_of_lt (by omega)] at hmask
  have hmin0 : range.min.toNat = 0 := by
    have hmod : range.min.toNat % range.step.toNat = 0 := toNat_mod_eq_zero.2 hminmod
    rwa [Nat.mod_eq_of_lt (by omega)] at hmod
  refine ⟨UInt32.toNat_inj.1 hmin0, ?_⟩
  rw [UInt32.le_iff_toNat_le, UInt32.toNat_neg]
  -- a multiple below 2^32 would be the one `ALIGN` comes to
  by_contra hlow
  rw [Nat.mod_eq_of_lt (by omega)] at hlow
  obtain ⟨h, hh⟩ : ∃ h : UInt32, h.toNat = last.toNat + range.step.toNat :=
    ⟨.ofNat _, UInt32.toNat_ofNat_of_lt' (by omega)⟩
  have hch : c ≤ h := by
    rw [UInt32.le_iff_toNat_le]
    omega
  have hnext : align c range.step = h := by
    refine align_pow_eq h0 hpow (toNat_mod_eq_zero.1 ?_) ?_
    · rw [hh, Nat.add_mod_right]
      exact toNat_mod_eq_zero.2 hlastmod
    · rw [UInt32.toNat_sub_of_le _ _ hch]
      omega
  rw [hnext] at hg
  rw [hg] at hh
  omega

/-- By a power of two `ALIGN` comes to a size of the range exactly if the range
begins at a multiple, and there is another one up to `max`, or 2^32 comes next
and the range begins at 0. -/
theorem align_takes_pow (h0 : range.step ≠ 0) (hpow : range.step &&& (range.step - 1) = 0)
    (hle : range.min ≤ range.max) :
    inSteppedInterval range (align (clamp val range.min range.max) range.step) = true ↔
      range.min % range.step = 0 ∧ (range.max % range.step = 0 ∨ val ≤ range.max - range.max % range.step ∨
        range.min = 0 ∧ -range.step ≤ range.max - range.max % range.step) := by
  obtain ⟨hlo, hhi⟩ := clamp_within val hle
  obtain ⟨hlastmod, hlastle, hlastlt, -⟩ := last_multiple range.max h0
  constructor
  · intro htakes
    obtain ⟨haligned, -⟩ := (align_eq_iff (x := clamp val range.min range.max) h0).1 rfl
    rw [needsAlignment_eq_false h0, and_pred_eq_mod h0 hpow] at haligned
    have hin := htakes
    rw [inSteppedInterval_iff, if_neg h0] at hin
    have hminmod := min_multiple haligned hin.1.1 hin.2
    have hminlast := le_last_multiple h0 hminmod hle
    refine ⟨hminmod, ?_⟩
    by_cases hmaxmod : range.max % range.step = 0
    · exact .inl hmaxmod
    by_cases hval : val ≤ range.max - range.max % range.step
    · exact .inr (.inl hval)
    have hlast := hlastlt hmaxmod
    refine .inr (.inr (wraps_of_takes h0 hpow hhi ?_ htakes))
    unfold clamp
    grind
  · intro ⟨hmin, hroom⟩
    have hminlast := le_last_multiple h0 hmin hle
    have hmultiple {t : UInt32} := @takes_of_multiple range (clamp val range.min range.max) t h0 hpow hmin hlo
    rcases hroom with hmax | hval | ⟨hzero, hend⟩
    · exact hmultiple hhi hmax (UInt32.le_refl _)
    · refine hmultiple ?_ hlastmod hlastle
      unfold clamp
      grind
    · by_cases hc : clamp val range.min range.max ≤ range.max - range.max % range.step
      · exact hmultiple hc hlastmod hlastle
      · -- the sum comes to 2^32
        have halign : align (clamp val range.min range.max) range.step = range.min := by
          refine align_pow_eq h0 hpow hmin ?_
          have hsize : UInt32.size = 2 ^ 32 := rfl
          have hmin0 : range.min.toNat = 0 := congrArg UInt32.toNat hzero
          have hpos : 0 < range.step.toNat := toNat_pos h0
          rw [UInt32.le_iff_toNat_le, Nat.not_le] at hc
          rw [UInt32.le_iff_toNat_le, UInt32.toNat_neg, Nat.mod_eq_of_lt (by omega)] at hend
          rw [UInt32.toNat_sub, hmin0, Nat.mod_eq_of_lt (by omega)]
          omega
        rw [halign, inSteppedInterval_iff, if_neg h0]
        exact ⟨⟨UInt32.le_refl _, hle⟩, by rw [UInt32.sub_self, UInt32.zero_mod]⟩

end Power

/-! ## Where the range and the macros agree -/

theorem suits_iff {range : FormatRange} {val : UInt32} (hle : range.min ≤ range.max) :
    range.Suits val ↔ inSteppedInterval range (fitSize val range) = true := by
  unfold FormatRange.Suits fitSize
  dsimp only
  split
  · next h0 =>
    rw [if_neg (not_not_intro h0), inSteppedInterval_iff, if_pos h0]
    exact (and_iff_right (clamp_within val hle)).symm
  · next h0 =>
    split
    · next hpow => exact (align_takes_pow h0 hpow hle).symm
    · exact (align_takes_iff h0 hle).symm

theorem fitSize_eq_next {range : FormatRange} {val : UInt32} (hle : range.min ≤ range.max) (h : range.Suits val) :
    fitSize val range = range.next val := by
  have htakes := (suits_iff hle).1 h
  obtain ⟨hlo, hhi⟩ := clamp_within val hle
  unfold fitSize at htakes ⊢
  unfold FormatRange.next
  dsimp only at htakes ⊢
  by_cases h0 : range.step = 0
  · rw [inSteppedInterval_iff, if_pos h0] at htakes
    rw [if_neg (not_not_intro h0), if_pos (.inl h0)]
    exact UInt32.le_antisymm (htakes.2 ▸ hhi) hlo
  · rw [if_pos h0] at htakes ⊢
    by_cases hmin : range.AlignsTo val range.min
    · rw [if_pos (.inr hmin)]
      exact (alignsTo_iff h0).1 hmin
    · rw [if_neg (not_or.2 ⟨h0, hmin⟩)]
      exact (alignsTo_iff h0).1 (((align_takes_iff h0 hle).1 htakes).resolve_right hmin).2

/-- What the function gives needs no alignment. -/
theorem fitSize_needs_none (val : UInt32) (range : FormatRange) :
    needsAlignment (fitSize val range) range.step = false := by
  unfold fitSize
  dsimp only
  split
  · next h0 => exact ((align_eq_iff h0).1 rfl).1
  · next h0 => simp [needsAlignment, not_not.1 h0]

/-- A range whose sizes the macros count as the range does: one size without a
step, else a step that is a power of two and divides both ends. -/
structure Regular (range : FormatRange) : Prop where
  ordered : range.min ≤ range.max
  single : range.step = 0 → range.min = range.max
  pow : range.step ≠ 0 → range.step &&& (range.step - 1) = 0
  minDvd : range.step ≠ 0 → range.min % range.step = 0
  maxDvd : range.step ≠ 0 → range.max % range.step = 0

theorem Regular.suits {range : FormatRange} (h : Regular range) (val : UInt32) : range.Suits val := by
  unfold FormatRange.Suits
  split
  · next h0 => exact h.single h0
  · next h0 =>
    rw [if_pos (h.pow h0)]
    exact ⟨h.minDvd h0, .inl (h.maxDvd h0)⟩

/-! ## The frame -/

/-- The sizes are within the frame's ranges, steps aside. -/
def FormatFrame.contains (frame : FormatFrame) (width height : UInt32) : Bool :=
  withinRange frame.width.min width frame.width.max && withinRange frame.height.min height frame.height.max

/-- Neither size needs alignment to the frame's steps. -/
def FormatFrame.aligned (frame : FormatFrame) (width height : UInt32) : Bool :=
  !needsAlignment width frame.width.step && !needsAlignment height frame.height.step

/-- The frame a size falls to: the first that contains it and needs no
alignment, else the last that contains it, else the first of all. -/
def chosenFrame (frames : List FormatFrame) (width height : UInt32) : Option FormatFrame :=
  (frames.find? fun f => f.contains width height && f.aligned width height).or
    ((frames.filter (·.contains width height)).getLast?.or frames.head?)

theorem tryFrames_cons (width height : UInt32) (i idx : Nat) (f : FormatFrame) (rest : List FormatFrame) :
    tryFrames width height i idx (f :: rest) =
      if f.contains width height then
        if f.aligned width height then (some f, i) else tryFrames width height (i + 1) i rest
      else tryFrames width height (i + 1) idx rest := by
  simp only [tryFrames, FormatFrame.contains, FormatFrame.aligned, ← Bool.not_and, ← Bool.not_or]
  cases withinRange f.width.min width f.width.max && withinRange f.height.min height f.height.max <;>
    cases needsAlignment width f.width.step || needsAlignment height f.height.step <;> rfl

/-- What the loop finds, and the frame at `idx` when it finds none. -/
theorem tryFrames_append (width height : UInt32) (done rest : List FormatFrame) (idx : Nat) :
    (tryFrames width height done.length idx rest).1 =
        rest.find? (fun f => f.contains width height && f.aligned width height) ∧
      ((tryFrames width height done.length idx rest).1 = none →
        (done ++ rest)[(tryFrames width height done.length idx rest).2]? =
          (rest.filter (·.contains width height)).getLast?.or (done ++ rest)[idx]?) := by
  induction rest generalizing done idx with
  | nil => exact ⟨rfl, fun _ => rfl⟩
  | cons f rest ih =>
    have hpos : (done ++ f :: rest)[done.length]? = some f := by simp
    have hmore := ih (done ++ [f])
    simp only [List.length_append, List.append_assoc, List.length_singleton, List.singleton_append] at hmore
    rw [tryFrames_cons]
    cases hc : f.contains width height with
    | false =>
      obtain ⟨hfind, hidx⟩ := hmore idx
      simp only [List.find?_cons, List.filter_cons, hc, Bool.false_and, Bool.false_eq_true, if_false]
      exact ⟨hfind, hidx⟩
    | true =>
      cases ha : f.aligned width height with
      | true => simp [hc, ha]
      | false =>
        obtain ⟨hfind, hidx⟩ := hmore done.length
        simp only [List.find?_cons, List.filter_cons, hc, ha, Bool.and_false, Bool.false_eq_true, if_false, if_true]
        refine ⟨hfind, fun hnone => ?_⟩
        rw [hidx hnone, hpos, List.getLast?_cons]
        cases (rest.filter (·.contains width height)).getLast? <;> rfl

theorem tryFrames_eq (width height : UInt32) (frames : List FormatFrame) :
    (tryFrames width height 0 0 frames).1 =
        frames.find? (fun f => f.contains width height && f.aligned width height) ∧
      ((tryFrames width height 0 0 frames).1 = none →
        frames[(tryFrames width height 0 0 frames).2]? =
          (frames.filter (·.contains width height)).getLast?.or frames.head?) := by
  have h := tryFrames_append width height [] frames 0
  rw [List.head?_eq_getElem?]
  exact h

theorem chosenFrame_mem {frames : List FormatFrame} {width height : UInt32} {frame : FormatFrame}
    (h : chosenFrame frames width height = some frame) : frame ∈ frames := by
  unfold chosenFrame at h
  simp only [Option.or_eq_some_iff] at h
  obtain h | ⟨-, h | ⟨-, h⟩⟩ := h
  · exact List.mem_of_find?_eq_some h
  · exact (List.mem_filter.1 (List.mem_of_getLast? h)).1
  · exact List.mem_of_mem_head? h

theorem chosenFrame_found {frames : List FormatFrame} {width height : UInt32} {frame : FormatFrame}
    (hmem : frame ∈ frames) (hframe : frame.contains width height = true ∧ frame.aligned width height = true) :
    chosenFrame frames width height = frames.find? fun f => f.contains width height && f.aligned width height := by
  obtain ⟨f, hf⟩ := Option.isSome_iff_exists.1 (List.find?_isSome.2
    ⟨frame, hmem, Bool.and_eq_true_iff.2 hframe⟩ :
      (frames.find? fun f => f.contains width height && f.aligned width height).isSome = true)
  rw [chosenFrame, hf, Option.some_or]

/-- A frame that has the size without alignment is chosen if none before it has. -/
theorem chosenFrame_eq_iff {frames : List FormatFrame} {width height : UInt32} {frame : FormatFrame}
    (hmem : frame ∈ frames) (hframe : frame.contains width height = true ∧ frame.aligned width height = true) :
    chosenFrame frames width height = some frame ↔ ∃ before after, frames = before ++ frame :: after ∧
      ∀ f ∈ before, ¬(f.contains width height = true ∧ f.aligned width height = true) := by
  rw [chosenFrame_found hmem hframe, List.find?_eq_some_iff_append]
  simp only [hframe, Bool.and_self, true_and, Bool.not_eq_true', Bool.and_eq_true, ← Bool.not_eq_true]

theorem exists_chosenFrame {frames : List FormatFrame} (h : frames ≠ []) (width height : UInt32) :
    ∃ frame, chosenFrame frames width height = some frame := by
  obtain ⟨f, rest, rfl⟩ := List.exists_cons_of_ne_nil h
  apply Option.isSome_iff_exists.1
  simp [chosenFrame]

/-- The size and the frame the call gives. -/
theorem tryFmt_eq {vvd : FormatLists} {s : Stream} {type : BufType} {pix : PixMp} {fmt : VideoFormat}
    (hstate : s.state ≠ .error)
    (hfmt : findVideoFormat (if type.isOutput then vvd.inputFmtList else vvd.outputFmtList) pix.pixelformat = some fmt)
    {frame : FormatFrame} (hframe : chosenFrame fmt.frames pix.width pix.height = some frame) :
    tryFmt vvd s type pix = .ok (.ok
      ({ pix with width := fitSize pix.width frame.width, height := fitSize pix.height frame.height },
        some frame)) := by
  obtain ⟨hfind, hidx⟩ := tryFrames_eq pix.width pix.height fmt.frames
  unfold tryFmt
  rw [if_neg hstate, hfmt]
  dsimp only
  cases hr : tryFrames pix.width pix.height 0 0 fmt.frames with
  | mk found idx =>
    rw [hr] at hfind hidx
    dsimp only at hfind hidx
    cases found with
    | some f =>
      unfold chosenFrame at hframe
      rw [← hfind] at hframe
      cases hframe
      have hf := List.find?_some hfind.symm
      simp only [FormatFrame.contains, FormatFrame.aligned, Bool.and_eq_true, Bool.not_eq_true'] at hf
      dsimp only
      rw [fitSize_of_aligned hf.1.1 hf.2.1, fitSize_of_aligned hf.1.2 hf.2.2]
    | none =>
      unfold chosenFrame at hframe
      rw [← hfind, Option.none_or, ← hidx rfl] at hframe
      dsimp only
      rw [hframe]

theorem tryFmt_resized {vvd : FormatLists} {s : Stream} {type : BufType} {pix : PixMp} {fmt : VideoFormat}
    (hstate : s.state ≠ .error)
    (hfmt : findVideoFormat (if type.isOutput then vvd.inputFmtList else vvd.outputFmtList) pix.pixelformat = some fmt)
    {width height : UInt32} {frame : FormatFrame} (hframe : chosenFrame fmt.frames width height = some frame) :
    tryFmt vvd s type { pix with width, height } = .ok (.ok
      ({ pix with width := fitSize width frame.width, height := fitSize height frame.height }, some frame)) := by
  apply tryFmt_eq hstate
  · exact hfmt
  · exact hframe

/-! ## Supported sizes -/

/-- After a successful call the frame takes the size, and a second call gives
the same format and the same frame. -/
def SizeSupported (vvd : FormatLists) (s : Stream) (type : BufType) (pix : PixMp) : Prop :=
  match tryFmt vvd s type pix with
  | .ok (.ok (pix', some frame)) =>
    frame.takes pix'.width pix'.height = true ∧ tryFmt vvd s type pix' = .ok (.ok (pix', some frame))
  | .ok (.error _) => True
  | _ => False

section Frame

variable {vvd : FormatLists} {s : Stream} {type : BufType} {pix : PixMp} {fmt : VideoFormat} {frame : FormatFrame}

/-- The size is supported where the frame's ranges suit the request, and the
size next to it falls to the frame again. -/
theorem sizeSupported_iff (hstate : s.state ≠ .error)
    (hfmt : findVideoFormat (if type.isOutput then vvd.inputFmtList else vvd.outputFmtList) pix.pixelformat = some fmt)
    (hframes : fmt.frames ≠ []) (hframe : chosenFrame fmt.frames pix.width pix.height = some frame)
    (hw : frame.width.min ≤ frame.width.max) (hh : frame.height.min ≤ frame.height.max) :
    SizeSupported vvd s type pix ↔ frame.width.Suits pix.width ∧ frame.height.Suits pix.height ∧
      chosenFrame fmt.frames (frame.width.next pix.width) (frame.height.next pix.height) = some frame := by
  unfold SizeSupported
  rw [tryFmt_eq hstate hfmt hframe]
  dsimp only
  constructor
  · intro ⟨htakes, hagain⟩
    simp only [FormatFrame.takes, Bool.and_eq_true, ← suits_iff hw, ← suits_iff hh] at htakes
    obtain ⟨frame', hframe'⟩ := exists_chosenFrame hframes (fitSize pix.width frame.width)
      (fitSize pix.height frame.height)
    have hsecond := tryFmt_resized hstate hfmt hframe'
    rw [hagain] at hsecond
    simp only [Except.ok.injEq, Prod.mk.injEq, Option.some.injEq] at hsecond
    rw [← fitSize_eq_next hw htakes.1, ← fitSize_eq_next hh htakes.2]
    exact ⟨htakes.1, htakes.2, hsecond.2 ▸ hframe'⟩
  · intro ⟨hsw, hsh, hsame⟩
    have hiw := (suits_iff hw).1 hsw
    have hih := (suits_iff hh).1 hsh
    rw [← fitSize_eq_next hw hsw, ← fitSize_eq_next hh hsh] at hsame
    refine ⟨by rw [FormatFrame.takes, hiw, hih]; rfl, ?_⟩
    rw [tryFmt_resized hstate hfmt hsame,
      fitSize_of_aligned (inSteppedInterval_within hiw) (fitSize_needs_none _ _),
      fitSize_of_aligned (inSteppedInterval_within hih) (fitSize_needs_none _ _)]

/-- The frame has the size next to a request it suits, without alignment. -/
theorem next_taken (hw : frame.width.min ≤ frame.width.max) (hh : frame.height.min ≤ frame.height.max)
    (hsw : frame.width.Suits pix.width) (hsh : frame.height.Suits pix.height) :
    frame.contains (frame.width.next pix.width) (frame.height.next pix.height) = true ∧
      frame.aligned (frame.width.next pix.width) (frame.height.next pix.height) = true := by
  rw [← fitSize_eq_next hw hsw, ← fitSize_eq_next hh hsh]
  simp only [FormatFrame.contains, FormatFrame.aligned, inSteppedInterval_within ((suits_iff hw).1 hsw),
    inSteppedInterval_within ((suits_iff hh).1 hsh), fitSize_needs_none, Bool.and_self, Bool.not_false, and_self]

end Frame

/-- **TRY_FMT gives a supported size exactly where the ranges suit the request**
in the frame it falls to, and no frame before that one has the next size of
these ranges without alignment. -/
theorem tryFmt_supported_iff {vvd : FormatLists} {s : Stream} {type : BufType} {pix : PixMp} {fmt : VideoFormat}
    (hfmt : findVideoFormat (if type.isOutput then vvd.inputFmtList else vvd.outputFmtList) pix.pixelformat = some fmt)
    (hframes : fmt.frames ≠ [])
    (hrange : ∀ frame ∈ fmt.frames, frame.width.min ≤ frame.width.max ∧ frame.height.min ≤ frame.height.max) :
    SizeSupported vvd s type pix ↔ s.state = .error ∨
      ∃ frame, chosenFrame fmt.frames pix.width pix.height = some frame ∧
        frame.width.Suits pix.width ∧ frame.height.Suits pix.height ∧
        ∃ before after, fmt.frames = before ++ frame :: after ∧ ∀ f ∈ before,
          ¬(f.contains (frame.width.next pix.width) (frame.height.next pix.height) = true ∧
            f.aligned (frame.width.next pix.width) (frame.height.next pix.height) = true) := by
  by_cases hstate : s.state = .error
  · refine iff_of_true ?_ (.inl hstate)
    unfold SizeSupported tryFmt
    rw [if_pos hstate]
    trivial
  obtain ⟨frame, hframe⟩ := exists_chosenFrame hframes pix.width pix.height
  have hmem := chosenFrame_mem hframe
  obtain ⟨hw, hh⟩ := hrange frame hmem
  rw [sizeSupported_iff hstate hfmt hframes hframe hw hh, or_iff_right hstate, hframe]
  constructor
  · intro ⟨hsw, hsh, hsame⟩
    exact ⟨frame, rfl, hsw, hsh, (chosenFrame_eq_iff hmem (next_taken hw hh hsw hsh)).1 hsame⟩
  · rintro ⟨_, ⟨⟩, hsw, hsh, hbefore⟩
    exact ⟨hsw, hsh, (chosenFrame_eq_iff hmem (next_taken hw hh hsw hsh)).2 hbefore⟩

/-- A request for a width in the range, with one of the frame's heights. -/
def requestWidth (width : UInt32) : PixMp :=
  ⟨width, 480, v4l2Fourcc 'N' 'V' '1' '2', 0, 0, 0, 0, 0, 1, Vector.replicate maxPlanes ⟨0, 0⟩⟩

theorem tryFmt_supported_640 :
    SizeSupported (oneSize ⟨⟨32, 1000, 32⟩, ⟨480, 480, 0⟩, []⟩) openedStream .outputMplane (requestWidth 630) := by
  refine (tryFmt_supported_iff rfl (by decide) (by decide)).2 (.inr ?_)
  exact ⟨⟨⟨32, 1000, 32⟩, ⟨480, 480, 0⟩, []⟩, by decide, by decide, by decide, [], [], rfl, by decide⟩

/-- The width is brought down to `max`, then rounded up beyond it. -/
theorem tryFmt_past_max : ¬ ∀ (vvd : FormatLists) (s : Stream) (type : BufType) (pix : PixMp) (fmt : VideoFormat),
    findVideoFormat (if type.isOutput then vvd.inputFmtList else vvd.outputFmtList) pix.pixelformat = some fmt →
    fmt.frames ≠ [] →
    (∀ frame ∈ fmt.frames, frame.width.min ≤ frame.width.max ∧ frame.height.min ≤ frame.height.max) →
    SizeSupported vvd s type pix := by
  intro h
  have hlast := h (oneSize ⟨⟨32, 1000, 32⟩, ⟨480, 480, 0⟩, []⟩) openedStream .outputMplane (requestWidth 2000) _
    rfl (by decide) (by decide)
  exact absurd hlast.1 (by decide)

/-- With regular ranges in frames that have no size in common, every request
comes to a supported size. -/
theorem tryFmt_supported_of_regular {vvd : FormatLists} {s : Stream} {type : BufType} {pix : PixMp} {fmt : VideoFormat}
    (hstate : s.state ≠ .error)
    (hfmt : findVideoFormat (if type.isOutput then vvd.inputFmtList else vvd.outputFmtList) pix.pixelformat = some fmt)
    (hframes : fmt.frames ≠ []) (hreg : ∀ frame ∈ fmt.frames, Regular frame.width ∧ Regular frame.height)
    (hapart : ∀ f ∈ fmt.frames, ∀ g ∈ fmt.frames, ∀ width height,
      f.contains width height = true → g.contains width height = true → f = g) :
    SizeSupported vvd s type pix := by
  obtain ⟨frame, hframe⟩ := exists_chosenFrame hframes pix.width pix.height
  have hmem := chosenFrame_mem hframe
  obtain ⟨hw, hh⟩ := hreg frame hmem
  have htaken := next_taken hw.ordered hh.ordered (hw.suits pix.width) (hh.suits pix.height)
  refine (sizeSupported_iff hstate hfmt hframes hframe hw.ordered hh.ordered).2 ⟨hw.suits _, hh.suits _, ?_⟩
  -- whatever frame is chosen has the size, so it is the same one
  obtain ⟨f, hf⟩ := exists_chosenFrame hframes (frame.width.next pix.width) (frame.height.next pix.height)
  have hfound := hf
  rw [chosenFrame_found hmem htaken] at hfound
  have hcontains := List.find?_some hfound
  rw [Bool.and_eq_true] at hcontains
  rw [hf, hapart f (chosenFrame_mem hf) frame hmem _ _ hcontains.1 htaken.1]

end Agl.VirtioVideo
