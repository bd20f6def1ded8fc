/-
How `virtio_video_buf_done` reads the flags of a response.

The enumeration of the flags counts from 0 and its values are used as masks.
So `ERR` is never seen, `EOS` and `KEY_FRAME` are bits that `PFRAME` has too,
and only `BFRAME` stands alone.
-/
import Agl.Lib.Words
import Agl.Video.CmdFacts

namespace Agl.VirtioVideo

/-! ## The marks -/

/-- The marks `virtio_video_buf_done` adds to a buffer's flags. -/
def addMarks (flags : UInt32) (key bframe pframe last : Bool) : UInt32 :=
  let flags := if key then flags ||| bufFlagKeyframe else flags
  let flags := if bframe then flags ||| bufFlagBframe else flags
  let flags := if pframe then flags ||| bufFlagPframe else flags
  if last then flags ||| bufFlagLast else flags

theorem bit_or_if {f : UInt32} {k : Nat} (hf : IsFlag f k) (b : Bool) (x : UInt32) {i : Nat} (hi : i < 32) :
    bit (if b then x ||| f else x) i = (bit x i || (b && decide (i = k))) := by
  cases b with
  | false => simp
  | true => simp [bit_or, hf.2 i hi]

theorem bit_addMarks (flags : UInt32) (key bframe pframe last : Bool) {i : Nat} (hi : i < 32) :
    bit (addMarks flags key bframe pframe last) i =
      (bit flags i || (key && decide (i = 3)) || (bframe && decide (i = 5)) || (pframe && decide (i = 4)) ||
        (last && decide (i = 20))) := by
  unfold addMarks
  rw [bit_or_if (by decide : IsFlag bufFlagLast 20) _ _ hi, bit_or_if (by decide : IsFlag bufFlagPframe 4) _ _ hi,
    bit_or_if (by decide : IsFlag bufFlagBframe 5) _ _ hi, bit_or_if (by decide : IsFlag bufFlagKeyframe 3) _ _ hi]

/-- Marks are told apart except where the buffer had them before. -/
theorem addMarks_eq_iff {flags : UInt32} {key bframe pframe last key' bframe' pframe' last' : Bool} :
    addMarks flags key bframe pframe last = addMarks flags key' bframe' pframe' last' ↔
      (bit flags 3 = true ∨ key = key') ∧ (bit flags 5 = true ∨ bframe = bframe') ∧
        (bit flags 4 = true ∨ pframe = pframe') ∧ (bit flags 20 = true ∨ last = last') := by
  constructor
  · intro h
    have hbit : ∀ i < 32, bit (addMarks flags key bframe pframe last) i =
        bit (addMarks flags key' bframe' pframe' last') i := fun i _ => by rw [h]
    have h3 := hbit 3 (by decide)
    have h5 := hbit 5 (by decide)
    have h4 := hbit 4 (by decide)
    have h20 := hbit 20 (by decide)
    simp only [bit_addMarks, Nat.reduceLT, Nat.reduceEqDiff, decide_true, decide_false, Bool.and_true, Bool.and_false,
      Bool.or_false] at h3 h5 h4 h20
    grind
  · rintro ⟨h3, h5, h4, h20⟩
    apply eq_of_bit
    intro i hi
    rw [bit_addMarks _ _ _ _ _ hi, bit_addMarks _ _ _ _ _ hi]
    grind

/-! ## The function in one equation -/

theorem err_isIn (flags : UInt32) : DequeueFlag.err.isIn flags = false := by
  simp [DequeueFlag.isIn, DequeueFlag.code]

/-- The device after a completion. -/
def Device.without (vvd : Device) (vb : VideoBuffer) : Device := if vvd.isM2mDev then vvd else vvd.pendingBufListDel vb

theorem bufDone_eq (vvd : Device) (stream : Stream) (vb : VideoBuffer) (flags : UInt32) (timestamp : UInt64)
    (dataSizes : Nat → UInt32) :
    bufDone vvd stream vb flags timestamp dataSizes =
      let vb' := { vb with
        queued := false
        flags := addMarks vb.flags (DequeueFlag.keyFrame.isIn flags) (DequeueFlag.bframe.isIn flags)
          (DequeueFlag.pframe.isIn flags) (DequeueFlag.eos.isIn flags) }
      if DequeueFlag.eos.isIn flags then
        some { vvd := vvd.without vb, stream := stream.stateUpdate .stopped, eosEvent := true, state := .done
               buffer := { vb' with bytesused := vb.bytesused.set 0 0 } }
      else if vb.isOutput then
        some { vvd := vvd.without vb, stream, eosEvent := false, state := .done, buffer := vb' }
      else (captureBytesused vvd stream vb dataSizes).map fun bytesused =>
        { vvd := vvd.without vb, stream, eosEvent := false, state := .done
          buffer := { vb' with bytesused, timestamp } } := by
  -- the marks go to the flags, the rest of the buffer stays
  have hmark : ∀ (b : Bool) (vb : VideoBuffer) (mask : UInt32),
      (if b then { vb with flags := vb.flags ||| mask } else vb) =
        { vb with flags := if b then vb.flags ||| mask else vb.flags } := by
    intro b vb mask
    cases b <;> rfl
  unfold bufDone
  extract_lets vb0 state set vb1 vb2 vb3 vb4 eosEvent stream' vvd' vb'
  have h1 : vb1 = { vb0 with flags := _ } := hmark _ _ _
  have h2 : vb2 = { vb1 with flags := _ } := hmark _ _ _
  have h3 : vb3 = { vb2 with flags := _ } := hmark _ _ _
  have h4 : vb4 = { vb3 with flags := _ } := hmark _ _ _
  have hvb : vb4 = vb' := by
    rw [h4, h3, h2, h1]
    rfl
  have hvvd : vvd' = vvd.without vb := by
    unfold vvd'
    rw [hvb]
    rfl
  have hstate : state = .done := if_neg (by rw [err_isIn]; exact Bool.false_ne_true)
  rw [hvb, hvvd, hstate, err_isIn]
  by_cases heos : DequeueFlag.eos.isIn flags = true
  · have hstream : stream' = stream.stateUpdate .stopped := if_pos heos
    rw [if_pos (.inr heos), if_pos heos, hstream, show eosEvent = true from heos]
    rfl
  · have hno : ¬(false = true ∨ DequeueFlag.eos.isIn flags = true) := by simp [heos]
    have hstream : stream' = stream := if_neg heos
    rw [if_neg hno, if_neg heos, hstream, show eosEvent = false from Bool.eq_false_iff.2 heos]
    change (if vb.isOutput then _ else _) = _
    split
    · rfl
    · exact Option.map_eq_bind.symm

/-! ## A set of flags -/

/-- The value of a flag that is in the set, or not. -/
def DequeueFlag.value (f : DequeueFlag) (member : Bool) : UInt32 := if member then f.code else 0

/-- The flags word of a set of flags, their values put together. -/
def flagsWord (S : DequeueFlag → Bool) : UInt32 :=
  DequeueFlag.err.value (S .err) ||| DequeueFlag.eos.value (S .eos) ||| DequeueFlag.keyFrame.value (S .keyFrame) |||
    DequeueFlag.pframe.value (S .pframe) ||| DequeueFlag.bframe.value (S .bframe)

/-- What the tests on the word of a set find. -/
theorem isIn_flagsWord (S : DequeueFlag → Bool) :
    DequeueFlag.eos.isIn (flagsWord S) = (S .eos || S .pframe) ∧
    DequeueFlag.keyFrame.isIn (flagsWord S) = (S .keyFrame || S .pframe) ∧
    DequeueFlag.pframe.isIn (flagsWord S) = (S .eos || S .keyFrame || S .pframe) ∧
    DequeueFlag.bframe.isIn (flagsWord S) = S .bframe := by
  have htable : ∀ err eos key p b : Bool,
      let flags := DequeueFlag.err.value err ||| DequeueFlag.eos.value eos ||| DequeueFlag.keyFrame.value key |||
        DequeueFlag.pframe.value p ||| DequeueFlag.bframe.value b
      DequeueFlag.eos.isIn flags = (eos || p) ∧ DequeueFlag.keyFrame.isIn flags = (key || p) ∧
        DequeueFlag.pframe.isIn flags = (eos || key || p) ∧ DequeueFlag.bframe.isIn flags = b := by
    decide
  exact htable _ _ _ _ _

/-- The completion follows the set: each flag for itself, and the planes have
the sizes the device reports unless the frame is in error or the last. -/
structure Decoded (s : Stream) (vb : VideoBuffer) (dataSizes : Nat → UInt32) (S : DequeueFlag → Bool)
    (c : Completion) : Prop where
  state : c.state = if S .err then .error else .done
  flags : c.buffer.flags = addMarks vb.flags (S .keyFrame) (S .bframe) (S .pframe) (S .eos)
  stream : c.stream = if S .eos then { s with state := .stopped } else s
  eosEvent : c.eosEvent = S .eos
  payload : S .err = false → S .eos = false →
    ∀ i (hi : i < maxPlanes), i < vb.numPlanes → c.buffer.bytesused[i] = dataSizes i

/-! ## The sizes -/

/-- How many planes `virtio_video_buf_done` writes the sizes of. -/
def capturePlanes (vvd : Device) (stream : Stream) (vb : VideoBuffer) : Nat :=
  match vvd.type with
  | .encoder => vb.numPlanes
  | .camera | .decoder => stream.outInfo.numPlanes.toNat

/-- The sizes the driver takes are those reported: the ones an output buffer
has already; in a capture buffer of an encoder any, if there are places for
them; on a decoder or camera those of the stream's format, and what the buffer
has in the planes behind them. -/
def SizesAgree (vvd : Device) (s : Stream) (vb : VideoBuffer) (dataSizes : Nat → UInt32) : Prop :=
  if vb.isOutput then ∀ i (hi : i < maxPlanes), i < vb.numPlanes → vb.bytesused[i] = dataSizes i
  else
    match vvd.type with
    | .encoder => vb.numPlanes ≤ maxPlanes
    | .camera | .decoder =>
      s.outInfo.numPlanes.toNat ≤ maxPlanes ∧ ∀ i (hi : i < maxPlanes), i < vb.numPlanes →
        (if i < s.outInfo.numPlanes.toNat then s.outInfo.planeFormat[i].planeSize else vb.bytesused[i]) = dataSizes i

/-- A loop that writes the sizes of the planes: there are places for them, and
what is there then is what is asked for. -/
theorem writePlanes_agree {f want : Nat → UInt32} {n m : Nat} {planes : Vector UInt32 maxPlanes} :
    (∃ w, writePlanes f n planes = some w ∧ ∀ i (hi : i < maxPlanes), i < m → w[i] = want i) ↔
      n ≤ maxPlanes ∧ ∀ i (hi : i < maxPlanes), i < m → (if i < n then f i else planes[i]) = want i := by
  constructor
  · intro ⟨w, hw, hwant⟩
    have hn : n ≤ maxPlanes := by
      apply Nat.le_of_not_lt
      intro hlt
      rw [writePlanes_none _ _ hlt] at hw
      cases hw
    obtain ⟨w', hw', hat⟩ := writePlanes_some f planes hn
    cases hw.symm.trans hw'
    exact ⟨hn, fun i hi him => (hat i hi).symm.trans (hwant i hi him)⟩
  · intro ⟨hn, hwant⟩
    obtain ⟨w, hw, hat⟩ := writePlanes_some f planes hn
    exact ⟨w, hw, fun i hi him => (hat i hi).trans (hwant i hi him)⟩

theorem captureBytesused_agree (vvd : Device) (s : Stream) {vb : VideoBuffer} (dataSizes : Nat → UInt32)
    (hout : vb.isOutput = false) :
    (∃ w, captureBytesused vvd s vb dataSizes = some w ∧
      ∀ i (hi : i < maxPlanes), i < vb.numPlanes → w[i] = dataSizes i) ↔ SizesAgree vvd s vb dataSizes := by
  unfold captureBytesused SizesAgree
  rw [if_neg (by simp [hout])]
  -- the size of a plane that has a place
  have hsize (i : Nat) (hi : i < maxPlanes) :
      (s.outInfo.planeFormat[i]?.map (·.planeSize)).getD 0 = s.outInfo.planeFormat[i].planeSize := by simp [hi]
  cases vvd.type with
  | encoder =>
    rw [writePlanes_agree]
    exact and_iff_left_of_imp fun _ i _ hi => if_pos hi
  | decoder | camera =>
    dsimp only
    rw [writePlanes_agree]
    refine and_congr_right fun _ => forall_congr' fun i => forall_congr' fun hi => ?_
    rw [hsize i hi]

/-! ## The response -/

/-- The marks come out as the set says. -/
def MarksRight (flags : UInt32) (S : DequeueFlag → Bool) : Prop :=
  (S .pframe = true → S .keyFrame = true ∨ flags &&& bufFlagKeyframe ≠ 0) ∧
    (S .eos = true ∨ S .keyFrame = true → S .pframe = true ∨ flags &&& bufFlagPframe ≠ 0)

theorem marksRight_iff {flags : UInt32} {S : DequeueFlag → Bool} (hp : S .pframe = true → S .eos = true) :
    addMarks flags (S .keyFrame || S .pframe) (S .bframe) (S .eos || S .keyFrame || S .pframe) (S .eos || S .pframe) =
      addMarks flags (S .keyFrame) (S .bframe) (S .pframe) (S .eos) ↔ MarksRight flags S := by
  have hkey : IsFlag bufFlagKeyframe 3 := by decide
  have hpframe : IsFlag bufFlagPframe 4 := by decide
  rw [addMarks_eq_iff, MarksRight, hkey.and_ne_zero, hpframe.and_ne_zero]
  revert hp
  cases S .eos <;> cases S .keyFrame <;> cases S .pframe <;> simp

/-- For a buffer without marks `EOS`, `KEY_FRAME` and `PFRAME` have to come together. -/
theorem marksRight_unmarked {flags : UInt32} (hkey : flags &&& bufFlagKeyframe = 0) (hp : flags &&& bufFlagPframe = 0)
    {S : DequeueFlag → Bool} :
    (S .pframe = true → S .eos = true) ∧ MarksRight flags S ↔ S .eos = S .pframe ∧ S .keyFrame = S .pframe := by
  unfold MarksRight
  rw [hkey, hp]
  cases S .eos <;> cases S .keyFrame <;> cases S .pframe <;> simp

/-- A stream in error stays there. -/
theorem stateUpdate_stopped_iff {s : Stream} :
    s.stateUpdate .stopped = { s with state := .stopped } ↔ s.state ≠ .error := by
  unfold Stream.stateUpdate
  split
  · next h =>
    refine iff_of_false (fun heq => ?_) fun hne => hne h
    have hstate := congrArg Stream.state heq
    rw [h] at hstate
    cases hstate
  · next h => exact iff_of_true rfl h

theorem done_eq_iff {err : Bool} : BufState.done = (if err then .error else .done) ↔ err = false := by
  cases err <;> simp

/-- **A response is decoded as its set of flags says** exactly when the set
has no `ERR`, has `PFRAME` only with `EOS` and `KEY_FRAME` and either of these
only with `PFRAME` (marks aside that the buffer had before), an `EOS` does not
find the stream in error, and without one the sizes reported are those the
driver takes. -/
theorem resourceQueueCb_decoded {vvd : Device} {s : Stream} {vb : VideoBuffer} {m : Mem} {S : DequeueFlag → Bool}
    (hflags : m.le32 8 = flagsWord S) :
    (∃ c, resourceQueueCb vvd s vb m = some c ∧ Decoded s vb (fun i => m.le32 (24 + 4 * i)) S c) ↔
      S .err = false ∧ (S .pframe = true → S .eos = true) ∧ MarksRight vb.flags S ∧
        (S .eos = true → s.state ≠ .error) ∧
        (S .eos = false → SizesAgree vvd s vb fun i => m.le32 (24 + 4 * i)) := by
  obtain ⟨heos, hkey, hp, hb⟩ := isIn_flagsWord S
  unfold resourceQueueCb
  rw [bufDone_eq, hflags, heos, hkey, hp, hb]
  dsimp only
  by_cases hends : (S .eos || S .pframe) = true
  · rw [if_pos hends]
    constructor
    · rintro ⟨_, ⟨⟩, h⟩
      have hlast : S .eos = true := h.eosEvent.symm
      have hstream := h.stream
      rw [hlast, if_pos rfl, stateUpdate_stopped_iff] at hstream
      exact ⟨done_eq_iff.1 h.state, fun _ => hlast, (marksRight_iff fun _ => hlast).1 h.flags, fun _ => hstream,
        fun hno => by cases hlast.symm.trans hno⟩
    · rintro ⟨herr, hpe, hmarks, hstate, -⟩
      have hlast : S .eos = true := by
        rw [Bool.or_eq_true] at hends
        exact hends.elim id hpe
      refine ⟨_, rfl, ⟨done_eq_iff.2 herr, (marksRight_iff hpe).2 hmarks, ?_, hlast.symm, ?_⟩⟩
      · rw [if_pos hlast]
        exact stateUpdate_stopped_iff.2 (hstate hlast)
      · intro _ hno
        cases hlast.symm.trans hno
  · rw [if_neg hends]
    simp only [Bool.or_eq_true, not_or, Bool.not_eq_true] at hends
    obtain ⟨hlast, hpframe⟩ := hends
    have hpe : S .pframe = true → S .eos = true := fun h => by cases hpframe.symm.trans h
    have hno : S .eos = true → s.state ≠ .error := fun h => by cases hlast.symm.trans h
    have hstay : s = if S .eos then { s with state := .stopped } else s :=
      (if_neg (by rw [hlast]; exact Bool.false_ne_true)).symm
    by_cases hout : vb.isOutput = true
    · have hsizes : SizesAgree vvd s vb (fun i => m.le32 (24 + 4 * i)) ↔
          ∀ i (hi : i < maxPlanes), i < vb.numPlanes → vb.bytesused[i] = m.le32 (24 + 4 * i) := by
        rw [SizesAgree, if_pos hout]
      rw [if_pos hout]
      constructor
      · rintro ⟨_, ⟨⟩, h⟩
        have herr := done_eq_iff.1 h.state
        exact ⟨herr, hpe, (marksRight_iff hpe).1 h.flags, hno, fun _ => hsizes.2 (h.payload herr hlast)⟩
      · rintro ⟨herr, -, hmarks, -, hpayload⟩
        exact ⟨_, rfl, done_eq_iff.2 herr, (marksRight_iff hpe).2 hmarks, hstay, hlast.symm,
          fun _ _ => hsizes.1 (hpayload hlast)⟩
    · have hsizes := captureBytesused_agree vvd s (fun i => m.le32 (24 + 4 * i))
        (Bool.not_eq_true _ ▸ hout)
      rw [if_neg hout]
      constructor
      · rintro ⟨c, hc, h⟩
        obtain ⟨w, hw, rfl⟩ := Option.map_eq_some_iff.1 hc
        have herr := done_eq_iff.1 h.state
        exact ⟨herr, hpe, (marksRight_iff hpe).1 h.flags, hno, fun _ => hsizes.1 ⟨w, hw, h.payload herr hlast⟩⟩
      · rintro ⟨herr, -, hmarks, -, hpayload⟩
        obtain ⟨w, hw, hwant⟩ := hsizes.2 (hpayload hlast)
        exact ⟨_, by rw [hw]; rfl, done_eq_iff.2 herr, (marksRight_iff hpe).2 hmarks, hstay, hlast.symm,
          fun _ _ => hwant⟩

/-- A response of zeros, but for its flags. -/
def flagged (flags : UInt8) : Mem := fun i => if i = 8 then flags else 0

theorem resourceQueueCb_decoded_bframe :
    ∃ c, resourceQueueCb encoder openedStream captureBuffer (flagged 4) = some c ∧
      Decoded openedStream captureBuffer (fun i => (flagged 4).le32 (24 + 4 * i)) (fun f => f = .bframe) c :=
  (resourceQueueCb_decoded (by decide)).2
    ⟨by decide, by decide, by unfold MarksRight; decide, by decide, fun _ => (show 1 ≤ maxPlanes by decide)⟩

/-- An error alone is the word 0: the buffer is handed back as done. -/
theorem resourceQueueCb_error_done : ¬ ∀ (vvd : Device) (s : Stream) (vb : VideoBuffer) (m : Mem)
    (S : DequeueFlag → Bool), m.le32 8 = flagsWord S →
    ∃ c, resourceQueueCb vvd s vb m = some c ∧ Decoded s vb (fun i => m.le32 (24 + 4 * i)) S c := by
  intro h
  obtain ⟨c, hc, hd⟩ := h encoder openedStream captureBuffer (flagged 0) (fun f => f = .err) (by decide)
  have hstate : (resourceQueueCb encoder openedStream captureBuffer (flagged 0)).map (·.state) = some .done := by decide
  rw [hc, Option.map_some, hd.state] at hstate
  cases hstate

end Agl.VirtioVideo
