/-
The enumeration of frame sizes and of frame intervals
(`virtio_video_enum_framesizes`, `virtio_video_enum_framemintervals`).

An entry outside its array has no defined content: the function has no
outcome then (`none`). The index of the request is an `__u32` that both
functions keep in an `int`; `f_idx` counts from 0 over an array `kcalloc`
gave, which has far fewer entries than an `int` can count.
-/
import Agl.Video.Format

namespace Agl.VirtioVideo

/-- `in_stepped_interval` -/
def inSteppedInterval (range : FormatRange) (point : UInt32) : Bool :=
  if point < range.min || point > range.max then false
  else if range.step = 0 && range.min = range.max && range.min = point then true
  else range.step ≠ 0 && (point - range.min) % range.step = 0

/-- Both sizes are in the ranges of the frame. -/
def FormatFrame.takes (frame : FormatFrame) (width height : UInt32) : Bool :=
  inSteppedInterval frame.width width && inSteppedInterval frame.height height

/-- `struct v4l2_fract` -/
structure Fract where
  numerator : UInt32
  denominator : UInt32
  deriving DecidableEq, Repr

/-- The interval of `struct v4l2_frmivalenum`, by its `type`. -/
inductive Frmival
  | discrete (interval : Fract)
  | continuous (min max step : Fract)
  | stepwise (min max step : Fract)
  deriving DecidableEq, Repr

/-- The size of `struct v4l2_frmsizeenum`, by its `type`. -/
inductive Frmsize
  | discrete (width height : UInt32)
  | continuous (width height : FormatRange)
  deriving DecidableEq, Repr

/-- Entry `idx` of an array, for an `int`. -/
def entryAt {α : Type} (entries : List α) (idx : Int32) : Option α :=
  if idx < 0 then none else entries[idx.toInt.toNat]?

/-- The format of either queue with this pixel format. -/
def FormatLists.find (vvd : FormatLists) (pixelFormat : UInt32) : Option VideoFormat :=
  match findVideoFormat vvd.inputFmtList pixelFormat with
  | some fmt => some fmt
  | none => findVideoFormat vvd.outputFmtList pixelFormat

/-- `virtio_video_enum_framesizes` -/
def enumFramesizes (vvd : FormatLists) (pixelFormat index : UInt32) : Option (Except Errno Frmsize) :=
  match vvd.find pixelFormat with
  | none => some (.error .einval)
  | some fmt =>
    if index.toNat ≥ fmt.frames.length then some (.error .einval)
    else do
      let frame ← entryAt fmt.frames index.toInt32
      if frame.width.min = frame.width.max ∧ frame.height.min = frame.height.max then
        return .ok (.discrete frame.width.min frame.height.min)
      else return .ok (.continuous frame.width frame.height)

/-- The loop of `virtio_video_enum_framemintervals` with `n` rounds left; what
`frame` points to after it. -/
def searchFrames (frames : List FormatFrame) (width height : UInt32) :
    Nat → Nat → Option FormatFrame → Option (Option FormatFrame)
  | 0, _, frame => some frame
  | n + 1, fIdx, _ => do
    let frame ← frames[fIdx]?
    if frame.takes width height then return some frame
    else searchFrames frames width height n (fIdx + 1) (some frame)

/-- The interval a rate is reported as. -/
def FormatRange.frmival (frate : FormatRange) : Frmival :=
  if frate.max = frate.min then .discrete ⟨1, frate.max⟩
  else if frate.step = 1 then .continuous ⟨1, frate.max⟩ ⟨1, frate.min⟩ ⟨1, frate.step⟩
  else .stepwise ⟨1, frate.max⟩ ⟨1, frate.min⟩ ⟨1, frate.step⟩

/-- `virtio_video_enum_framemintervals` -/
def enumFramemintervals (vvd : FormatLists) (pixelFormat width height index : UInt32) :
    Option (Except Errno Frmival) :=
  match vvd.find pixelFormat with
  | none => some (.error .einval)
  | some fmt => do
    -- the test is `f_idx <= num_frames`: a round more than there are frames
    match ← searchFrames fmt.frames width height (fmt.frames.length + 1) 0 none with
    | none => return .error .einval
    | some frame =>
      if index.toNat ≥ frame.frameRates.length then return .error .einval
      else
        let frate ← entryAt frame.frameRates index.toInt32
        return .ok frate.frmival

/-! ## Entries -/

theorem entryAt_toInt32 {α : Type} (entries : List α) {index : UInt32} (h : index.toNat < 2147483648) :
    entryAt entries index.toInt32 = entries[index.toNat]? := by
  have hi : index.toInt32.toInt = index.toNat := by
    have hb : index.toInt32.toInt = index.toBitVec.toInt := rfl
    have hn : index.toBitVec.toNat = index.toNat := rfl
    rw [hb, BitVec.toInt_eq_toNat_of_lt (by rw [hn]; omega), hn]
  have h0 : ¬ index.toInt32 < 0 := by
    rw [Int32.lt_iff_toInt_lt, hi]
    exact Int.not_lt.2 (Int.natCast_nonneg _)
  rw [entryAt, if_neg h0, hi, Int.toNat_natCast]

theorem entryAt_toInt32_neg {α : Type} (entries : List α) {index : UInt32} (h : 2147483648 ≤ index.toNat) :
    entryAt entries index.toInt32 = none := by
  have hlt : index.toNat < 4294967296 := index.toNat_lt
  have h0 : index.toInt32 < 0 := by
    have hb : index.toInt32.toInt = index.toBitVec.toInt := rfl
    have hn : index.toBitVec.toNat = index.toNat := rfl
    have hz : (0 : Int32).toInt = 0 := rfl
    rw [Int32.lt_iff_toInt_lt, hb, hz, BitVec.toInt_eq_toNat_cond, if_neg (by rw [hn]; omega), hn]
    omega
  rw [entryAt, if_pos h0]

/-! ## Sizes -/

theorem inSteppedInterval_iff {range : FormatRange} {point : UInt32} :
    inSteppedInterval range point = true ↔ (range.min ≤ point ∧ point ≤ range.max) ∧
      if range.step = 0 then range.min = range.max else (point - range.min) % range.step = 0 := by
  unfold inSteppedInterval
  by_cases hin : range.min ≤ point ∧ point ≤ range.max
  · have hout : (decide (point < range.min) || decide (point > range.max)) = false := by
      simp only [Bool.or_eq_false_iff, decide_eq_false_iff_not, UInt32.not_lt, gt_iff_lt]
      exact hin
    rw [hout]
    simp only [Bool.false_eq_true, if_false, hin, and_self, true_and]
    by_cases h0 : range.step = 0
    · have hpoint : range.min = range.max → range.min = point := fun he =>
        UInt32.le_antisymm hin.1 (he ▸ hin.2)
      simp only [h0, decide_true, Bool.true_and, if_true]
      grind
    · simp [h0]
  · have hout : (decide (point < range.min) || decide (point > range.max)) = true := by
      simp only [Bool.or_eq_true, decide_eq_true_eq, gt_iff_lt]
      grind
    rw [hout]
    simp [hin]

/-- The lower end is on the grid of any range that has a step or is one point. -/
theorem inSteppedInterval_min {range : FormatRange} (hle : range.min ≤ range.max)
    (h0 : range.step = 0 → range.min = range.max) : inSteppedInterval range range.min = true := by
  rw [inSteppedInterval_iff]
  refine ⟨⟨UInt32.le_refl _, hle⟩, ?_⟩
  split
  · next h => exact h0 h
  · rw [UInt32.sub_self, UInt32.zero_mod]

theorem takes_discrete {frame : FormatFrame} (hw : frame.width.min = frame.width.max)
    (hh : frame.height.min = frame.height.max) : frame.takes frame.width.min frame.height.min = true := by
  unfold FormatFrame.takes
  rw [inSteppedInterval_min (UInt32.le_of_eq hw) fun _ => hw, inSteppedInterval_min (UInt32.le_of_eq hh) fun _ => hh]
  rfl

/-! ## Frame intervals -/

/-- The loop finds the first frame that takes the size; without one it goes on
to the entry behind the last frame. -/
theorem searchFrames_append (done rest : List FormatFrame) (width height : UInt32) (frame : Option FormatFrame) :
    searchFrames (done ++ rest) width height (rest.length + 1) done.length frame =
      (rest.find? (·.takes width height)).map some := by
  induction rest generalizing done frame with
  | nil => simp [searchFrames]
  | cons f rest ih =>
    have hf : (done ++ f :: rest)[done.length]? = some f := by simp
    rw [List.length_cons, searchFrames, hf]
    dsimp only [Option.bind_eq_bind, Option.bind_some]
    split
    · next ht => simp only [List.find?_cons, ht]; rfl
    · next ht =>
      have hrest := ih (done ++ [f]) (some f)
      rw [List.length_append, List.append_assoc] at hrest
      simp only [List.find?_cons, Bool.eq_false_iff.2 ht]
      exact hrest

theorem searchFrames_eq (frames : List FormatFrame) (width height : UInt32) :
    searchFrames frames width height (frames.length + 1) 0 none =
      (frames.find? (·.takes width height)).map some :=
  searchFrames_append [] frames width height none

/-- The answer the table calls for: the rate with this index of the first
frame that takes the size, as the intervals from its highest rate to its
lowest. -/
def FormatLists.frmivalOf (vvd : FormatLists) (pixelFormat width height index : UInt32) : Except Errno Frmival :=
  match vvd.find pixelFormat with
  | none => .error .einval
  | some fmt =>
    match fmt.frames.find? (·.takes width height) with
    | none => .error .einval
    | some frame =>
      match frame.frameRates[index.toNat]? with
      | none => .error .einval
      | some rate =>
        .ok (if rate.min = rate.max then .discrete ⟨1, rate.max⟩
          else if rate.step = 1 then .continuous ⟨1, rate.max⟩ ⟨1, rate.min⟩ ⟨1, 1⟩
          else .stepwise ⟨1, rate.max⟩ ⟨1, rate.min⟩ ⟨1, rate.step⟩)

/-- An interval is the inverse of its rate. -/
theorem FormatRange.frmival_eq (rate : FormatRange) : rate.frmival =
    if rate.min = rate.max then .discrete ⟨1, rate.max⟩
    else if rate.step = 1 then .continuous ⟨1, rate.max⟩ ⟨1, rate.min⟩ ⟨1, 1⟩
    else .stepwise ⟨1, rate.max⟩ ⟨1, rate.min⟩ ⟨1, rate.step⟩ := by
  unfold FormatRange.frmival
  by_cases hone : rate.min = rate.max
  · rw [if_pos hone, if_pos hone.symm]
  · rw [if_neg hone, if_neg (Ne.symm hone)]
    split
    · next hstep => rw [hstep]
    · rfl

theorem FormatLists.frmivalOf_found {vvd : FormatLists} {pixelFormat width height : UInt32} {fmt : VideoFormat}
    {frame : FormatFrame} (hfmt : vvd.find pixelFormat = some fmt)
    (hframe : fmt.frames.find? (·.takes width height) = some frame) (index : UInt32) :
    vvd.frmivalOf pixelFormat width height index =
      match frame.frameRates[index.toNat]? with
      | none => .error .einval
      | some rate => .ok rate.frmival := by
  unfold FormatLists.frmivalOf
  simp only [FormatRange.frmival_eq, hfmt, hframe]

section

variable {vvd : FormatLists} {pixelFormat : UInt32} {fmt : VideoFormat} (hfmt : vvd.find pixelFormat = some fmt)
include hfmt

theorem enumFramemintervals_fault {width height : UInt32}
    (hnone : fmt.frames.find? (·.takes width height) = none) (index : UInt32) :
    enumFramemintervals vvd pixelFormat width height index = none := by
  unfold enumFramemintervals
  rw [hfmt]
  dsimp only
  rw [searchFrames_eq, hnone]
  rfl

theorem enumFramemintervals_found {width height : UInt32} {frame : FormatFrame}
    (hframe : fmt.frames.find? (·.takes width height) = some frame) (index : UInt32) :
    enumFramemintervals vvd pixelFormat width height index =
      if index.toNat ≥ frame.frameRates.length then some (.error .einval)
      else (entryAt frame.frameRates index.toInt32).map fun frate => .ok frate.frmival := by
  unfold enumFramemintervals
  rw [hfmt]
  dsimp only
  rw [searchFrames_eq, hframe]
  dsimp only [Option.map_some, Option.bind_eq_bind, Option.bind_some]
  split
  · rfl
  · cases entryAt frame.frameRates index.toInt32 <;> rfl

end

/-- **The frame intervals are those of the table exactly when the pixel format
is unknown or one of its frames takes the size**: without one the loop, which
makes a round more than there are frames, reads the entry behind the last. -/
theorem enumFramemintervals_iff (vvd : FormatLists) (pixelFormat width height index : UInt32) :
    enumFramemintervals vvd pixelFormat width height index =
        some (vvd.frmivalOf pixelFormat width height index) ↔
      ∀ fmt, vvd.find pixelFormat = some fmt →
        ∃ frame, fmt.frames.find? (·.takes width height) = some frame ∧
          (index.toNat < frame.frameRates.length → index.toNat < 2147483648) := by
  cases hfmt : vvd.find pixelFormat with
  | none => simp [enumFramemintervals, FormatLists.frmivalOf, hfmt]
  | some fmt =>
    cases hframe : fmt.frames.find? (·.takes width height) with
    | none =>
      rw [enumFramemintervals_fault hfmt hframe]
      simp [hframe]
    | some frame =>
      rw [enumFramemintervals_found hfmt hframe, FormatLists.frmivalOf_found hfmt hframe]
      simp only [Option.some.injEq, forall_eq', hframe, exists_eq_left']
      split
      · next hge =>
        rw [List.getElem?_eq_none hge]
        exact iff_of_true rfl fun hlt => absurd hge (Nat.not_le.2 hlt)
      · next hge =>
        have hlt : index.toNat < frame.frameRates.length := Nat.not_le.1 hge
        rw [List.getElem?_eq_getElem hlt]
        by_cases hi : index.toNat < 2147483648
        · rw [entryAt_toInt32 _ hi, List.getElem?_eq_getElem hlt]
          exact iff_of_true rfl fun _ => hi
        · rw [entryAt_toInt32_neg _ (Nat.not_lt.1 hi)]
          exact iff_of_false (by simp) fun h => hi (h hlt)

/-- A format with one frame of one size, as an input format. -/
def oneSize (frame : FormatFrame) : FormatLists :=
  ⟨[⟨v4l2Fourcc 'N' 'V' '1' '2', 1, 1, [frame]⟩], 1, [], 0⟩

/-- A width one above the only one of the table. -/
theorem enumFramemintervals_past : ¬ ∀ (vvd : FormatLists) (pixelFormat width height index : UInt32),
    enumFramemintervals vvd pixelFormat width height index =
      some (vvd.frmivalOf pixelFormat width height index) := by
  intro h
  have hsome := h (oneSize ⟨⟨640, 640, 0⟩, ⟨480, 480, 0⟩, [⟨30, 30, 0⟩]⟩) (v4l2Fourcc 'N' 'V' '1' '2') 641 480 0
  exact Option.some_ne_none _ hsome.symm

/-- A discrete size the table lists is taken by a frame of the format. -/
theorem enumFramesizes_discrete {vvd : FormatLists} {pixelFormat index width height : UInt32}
    (h : enumFramesizes vvd pixelFormat index = some (.ok (.discrete width height))) :
    ∃ fmt, vvd.find pixelFormat = some fmt ∧ ∃ frame ∈ fmt.frames, frame.takes width height = true := by
  unfold enumFramesizes at h
  split at h
  · cases h
  · next fmt hfmt =>
    refine ⟨fmt, hfmt, ?_⟩
    split at h
    · cases h
    · simp only [Option.bind_eq_bind, Option.bind_eq_some_iff] at h
      obtain ⟨frame, hframe, h⟩ := h
      have hmem : frame ∈ fmt.frames := by
        unfold entryAt at hframe
        split at hframe
        · cases hframe
        · exact List.mem_of_getElem? hframe
      split at h
      · next hd =>
        cases h
        exact ⟨frame, hmem, takes_discrete hd.1 hd.2⟩
      · cases h

/-- What the enumeration of sizes gives can be asked for its intervals. -/
theorem enumFramemintervals_of_framesize {vvd : FormatLists} {pixelFormat i width height : UInt32}
    (h : enumFramesizes vvd pixelFormat i = some (.ok (.discrete width height))) {index : UInt32}
    (hindex : index.toNat < 2147483648) :
    enumFramemintervals vvd pixelFormat width height index =
      some (vvd.frmivalOf pixelFormat width height index) := by
  obtain ⟨fmt, hfmt, frame, hmem, htakes⟩ := enumFramesizes_discrete h
  have hsome : (fmt.frames.find? (·.takes width height)).isSome := List.find?_isSome.2 ⟨frame, hmem, htakes⟩
  obtain ⟨first, hfirst⟩ := Option.isSome_iff_exists.1 hsome
  rw [enumFramemintervals_found hfmt hfirst, FormatLists.frmivalOf_found hfmt hfirst]
  split
  · next hge => rw [List.getElem?_eq_none hge]
  · next hge =>
    rw [entryAt_toInt32 _ hindex, List.getElem?_eq_getElem (Nat.not_le.1 hge)]
    rfl

end Agl.VirtioVideo
