/-
The enumeration of the formats that go with the current one
(`virtio_video_dec_enum_fmt_vid_cap`, `virtio_video_enc_enum_fmt_vid_out`).

In a capability reply the mask of a format says which formats of the other
queue go with it: bit `i` stands for the `i`-th format the device has listed
there. The driver counts the bits along its own list, which is in reverse
order. Whether the right formats are enumerated is then a matter of the mask
being the same in both directions.
-/
import Mathlib.Data.List.Nodup
import Mathlib.Data.List.Perm.Basic
import Agl.Video.Capability
import Agl.Video.Cmd

namespace Agl.VirtioVideo

open Access

/-! ## The enumerators -/

/-- The mask of the first format of the list with this pixel format; 0 if
there is none. -/
def currentMask (fmtList : List VideoFormat) (fourcc : UInt32) : UInt64 :=
  match fmtList.find? fun fmt => fourcc = fmt.format with
  | some fmt => fmt.mask
  | none => 0

/-- The loop over the list: `bitNum` counts its entries, `idx` those whose
bit is set. None when `test_bit` leaves the mask. -/
def scanMask (mask : UInt64) (index : UInt32) : Nat → Nat → List VideoFormat → Option (Except Errno UInt32)
  | _, _, [] => some (.error .einval)
  | idx, bitNum, fmt :: rest =>
    if bitNum < 64 then
      if mask.toNat.testBit bitNum then
        if index.toNat = idx then some (.ok fmt.format) else scanMask mask index (idx + 1) (bitNum + 1) rest
      else scanMask mask index idx (bitNum + 1) rest
    else none

/-- The formats of `fmtList` that go with the current one, whose mask is
looked up in `maskList`. -/
def enumMasked (expected : BufType) (maskList : List VideoFormat) (fourcc : UInt32) (fmtList : List VideoFormat)
    (numFmts : UInt32) (state : StreamState) (type : BufType) (index : UInt32) : Option (Except Errno UInt32) :=
  if state = .error then some (.error .eio)
  else if type ≠ expected then some (.error .einval)
  else if index.toNat ≥ numFmts.toNat then some (.error .einval)
  else if currentMask maskList fourcc = 0 then some (.error .einval)
  else scanMask (currentMask maskList fourcc) index 0 0 fmtList

/-- `virtio_video_dec_enum_fmt_vid_cap` -/
def decEnumFmtVidCap (vvd : FormatLists) (s : Stream) : BufType → UInt32 → Option (Except Errno UInt32) :=
  enumMasked .captureMplane vvd.inputFmtList s.inInfo.fourccFormat vvd.outputFmtList vvd.numOutputFmts s.state

/-- `virtio_video_enc_enum_fmt_vid_out` -/
def encEnumFmtVidOut (vvd : FormatLists) (s : Stream) : BufType → UInt32 → Option (Except Errno UInt32) :=
  enumMasked .outputMplane vvd.outputFmtList s.outInfo.fourccFormat vvd.inputFmtList vvd.numInputFmts s.state

/-! ## Positions -/

section

variable {α : Type}

/-- The elements at the positions `b` has, counted from `k`. -/
def picked (b : Nat → Bool) : Nat → List α → List α
  | _, [] => []
  | k, a :: l => if b k then a :: picked b (k + 1) l else picked b (k + 1) l

theorem picked_nil (b : Nat → Bool) (k : Nat) : picked b k ([] : List α) = [] := rfl

theorem picked_cons (b : Nat → Bool) (k : Nat) (a : α) (l : List α) :
    picked b k (a :: l) = if b k then a :: picked b (k + 1) l else picked b (k + 1) l := rfl

theorem length_picked_le (b : Nat → Bool) (k : Nat) (l : List α) : (picked b k l).length ≤ l.length := by
  induction l generalizing k with
  | nil => exact Nat.le_refl _
  | cons a l ih =>
    have := ih (k + 1)
    unfold picked
    split
    · exact Nat.succ_le_succ this
    · exact Nat.le_succ_of_le this

theorem picked_append (b : Nat → Bool) (k : Nat) (l l' : List α) :
    picked b k (l ++ l') = picked b k l ++ picked b (k + l.length) l' := by
  induction l generalizing k with
  | nil => rfl
  | cons a l ih =>
    have he : k + 1 + l.length = k + (a :: l).length := by simp only [List.length_cons]; omega
    simp only [List.cons_append, picked, ih, he]
    split <;> rfl

theorem picked_congr {b b' : Nat → Bool} {k k' : Nat} {l : List α} (h : ∀ i < l.length, b (k + i) = b' (k' + i)) :
    picked b k l = picked b' k' l := by
  induction l generalizing k k' with
  | nil => rfl
  | cons a l ih =>
    have h0 : b k = b' k' := h 0 (Nat.succ_pos _)
    have hrest : picked b (k + 1) l = picked b' (k' + 1) l := by
      apply ih
      intro i hi
      have := h (i + 1) (Nat.succ_lt_succ hi)
      rwa [Nat.add_comm i 1, ← Nat.add_assoc, ← Nat.add_assoc] at this
    simp only [picked, h0, hrest]

/-- Counting along the reversed list is counting the mirrored positions. -/
theorem picked_reverse (b : Nat → Bool) (l : List α) :
    picked b 0 l.reverse = (picked (fun i => b (l.length - 1 - i)) 0 l).reverse := by
  induction l with
  | nil => rfl
  | cons a l ih =>
    have hrest : picked (fun i => b (l.length - i)) 1 l = picked (fun i => b (l.length - 1 - i)) 0 l := by
      apply picked_congr
      intro i hi
      have he : l.length - (1 + i) = l.length - 1 - (0 + i) := by omega
      rw [he]
    rw [List.reverse_cons, picked_append, ih, List.length_reverse, Nat.zero_add]
    simp only [picked_cons, picked_nil, Nat.zero_add, List.length_cons, Nat.add_sub_cancel, Nat.sub_zero, hrest]
    split
    · rw [List.reverse_cons]
    · rw [List.append_nil]

theorem mem_picked {b : Nat → Bool} {k : Nat} {l : List α} {a : α} :
    a ∈ picked b k l ↔ ∃ i, ∃ hi : i < l.length, b (k + i) = true ∧ l[i] = a := by
  induction l generalizing k with
  | nil => simp [picked]
  | cons c l ih =>
    have hcons : a ∈ picked b k (c :: l) ↔ (b k = true ∧ c = a) ∨ a ∈ picked b (k + 1) l := by
      rw [picked_cons]
      split
      · next h => simp only [List.mem_cons, h, true_and, eq_comm]
      · next h => simp only [h, Bool.false_eq_true, false_and, false_or]
    rw [hcons, ih]
    constructor
    · rintro (⟨hb, rfl⟩ | ⟨i, hi, hb, rfl⟩)
      · exact ⟨0, Nat.succ_pos _, hb, rfl⟩
      · exact ⟨i + 1, Nat.succ_lt_succ hi, by rw [Nat.add_comm i 1, ← Nat.add_assoc]; exact hb, rfl⟩
    · rintro ⟨i, hi, hb, he⟩
      cases i with
      | zero => exact .inl ⟨hb, he⟩
      | succ i => exact .inr ⟨i, Nat.lt_of_succ_lt_succ hi, by rw [Nat.add_assoc, Nat.add_comm 1 i]; exact hb, he⟩

end

/-! ## What is enumerated -/

/-- Over increasing index until `-EINVAL`, these pixel formats come out. -/
def Enumerates (enum : UInt32 → Option (Except Errno UInt32)) (l : List UInt32) : Prop :=
  (∀ i (hi : i < l.length), enum (UInt32.ofNat i) = some (.ok l[i])) ∧
    enum (UInt32.ofNat l.length) = some (.error .einval)

theorem scanMask_eq (mask : UInt64) (index : UInt32) {l : List VideoFormat} {idx k : Nat} (hk : k + l.length ≤ 64)
    (hidx : idx ≤ index.toNat) : scanMask mask index idx k l = some (
      match (picked mask.toNat.testBit k (l.map (·.format)))[index.toNat - idx]? with
      | some p => .ok p
      | none => .error .einval) := by
  induction l generalizing idx k with
  | nil => rfl
  | cons fmt l ih =>
    rw [List.length_cons] at hk
    have hk' : k + 1 + l.length ≤ 64 := by omega
    unfold scanMask
    rw [if_pos (by omega : k < 64)]
    simp only [List.map_cons, picked]
    split
    · split
      · next he => simp [he]
      · next hne =>
        obtain ⟨n, hn⟩ : ∃ n, index.toNat - idx = n + 1 := ⟨index.toNat - idx - 1, by omega⟩
        have hn' : index.toNat - (idx + 1) = n := by omega
        rw [ih hk' (by omega), hn, hn', List.getElem?_cons_succ]
    · exact ih hk' hidx

theorem picked_zero {α : Type} (k : Nat) (l : List α) : picked (0 : UInt64).toNat.testBit k l = [] := by
  induction l generalizing k with
  | nil => rfl
  | cons a l ih =>
    have h0 : (0 : UInt64).toNat.testBit k = false := Nat.zero_testBit k
    rw [picked_cons, h0]
    exact ih (k + 1)

/-- The enumerator gives the formats of its list whose bits are set. -/
theorem enumMasked_enumerates (expected : BufType) (maskList : List VideoFormat) (fourcc : UInt32)
    {fmtList : List VideoFormat} (h64 : fmtList.length ≤ 64) {numFmts : UInt32} (hnum : numFmts.toNat = fmtList.length)
    {state : StreamState} (hstate : state ≠ .error) :
    Enumerates (enumMasked expected maskList fourcc fmtList numFmts state expected)
      (picked (currentMask maskList fourcc).toNat.testBit 0 (fmtList.map (·.format))) := by
  have hle := length_picked_le (currentMask maskList fourcc).toNat.testBit 0 (fmtList.map (·.format))
  rw [List.length_map] at hle
  by_cases h0 : currentMask maskList fourcc = 0
  · rw [h0, picked_zero]
    refine ⟨fun i hi => (by cases hi), ?_⟩
    unfold enumMasked
    rw [if_neg hstate, if_neg (by simp), if_pos h0, ite_self]
  · have hscan : ∀ i, i < fmtList.length → enumMasked expected maskList fourcc fmtList numFmts state expected
        (UInt32.ofNat i) = scanMask (currentMask maskList fourcc) (UInt32.ofNat i) 0 0 fmtList := by
      intro i hi
      have hi' : (UInt32.ofNat i).toNat = i := toNat_ofNat_count (by omega)
      unfold enumMasked
      rw [if_neg hstate, if_neg (by simp), if_neg (by rw [hi', hnum]; omega), if_neg h0]
    refine ⟨fun i hi => ?_, ?_⟩
    · have hi' : (UInt32.ofNat i).toNat = i := toNat_ofNat_count (by omega)
      rw [hscan i (by omega), scanMask_eq _ _ (by omega) (Nat.zero_le _), hi', Nat.sub_zero,
        List.getElem?_eq_getElem hi]
    · generalize hn : (picked (currentMask maskList fourcc).toNat.testBit 0 (fmtList.map (·.format))).length = n at hle
      have hn' : (UInt32.ofNat n).toNat = n := toNat_ofNat_count (by omega)
      by_cases hlt : n < fmtList.length
      · rw [hscan n hlt, scanMask_eq _ _ (by omega) (Nat.zero_le _), hn', Nat.sub_zero,
          List.getElem?_eq_none (by omega)]
      · unfold enumMasked
        rw [if_neg hstate, if_neg (by simp), if_pos (by rw [hn', hnum]; omega)]

/-! ## In the numbering of the device -/

/-- The pixel formats the device has listed. -/
def WireCapability.pixelFormats (c : WireCapability) : List UInt32 := c.descs.map fun d => formatToV4l2 d.format

/-- The enumeration gives the formats at the positions of the device's list
whose bits are set, each once. -/
def DeviceNumbered (enum : UInt32 → Option (Except Errno UInt32)) (mask : UInt64) (fmts : List UInt32) : Prop :=
  ∃ l, Enumerates enum l ∧ l.Perm (picked mask.toNat.testBit 0 fmts)

/-- Every pixel format is listed as often at a position whose bit is set as
at a position whose mirror image is. -/
def Mirrored (mask : UInt64) (fmts : List UInt32) : Prop :=
  ∀ p, (picked mask.toNat.testBit 0 fmts).count p =
    (picked (fun i => mask.toNat.testBit (fmts.length - 1 - i)) 0 fmts).count p

/-- What is enumerated is determined. -/
theorem Enumerates.unique {enum : UInt32 → Option (Except Errno UInt32)} {l l' : List UInt32} (h : Enumerates enum l)
    (h' : Enumerates enum l') : l = l' := by
  have key : ∀ {l l' : List UInt32}, Enumerates enum l → Enumerates enum l' → l'.length ≤ l.length := by
    intro l l' h h'
    apply Nat.le_of_not_lt
    intro hlt
    have he := (h'.1 l.length hlt).symm.trans h.2
    cases he
  have hlen := Nat.le_antisymm (key h' h) (key h h')
  apply List.ext_getElem hlen
  intro i hi hi'
  have he := (h.1 i hi).symm.trans (h'.1 i hi')
  simpa using he

/-- The formats of a list that is the device's, reversed. -/
theorem deviceNumbered_iff {enum : UInt32 → Option (Except Errno UInt32)} {mask : UInt64} {fmts : List UInt32}
    (h : Enumerates enum (picked mask.toNat.testBit 0 fmts.reverse)) :
    DeviceNumbered enum mask fmts ↔ Mirrored mask fmts := by
  have hperm : DeviceNumbered enum mask fmts ↔
      (picked mask.toNat.testBit 0 fmts.reverse).Perm (picked mask.toNat.testBit 0 fmts) := by
    constructor
    · rintro ⟨l, hl, hp⟩
      rw [← hl.unique h]
      exact hp
    · exact fun hp => ⟨_, h, hp⟩
  rw [hperm, picked_reverse, (List.reverse_perm _).congr_left, List.perm_iff_count, Mirrored]
  exact forall_congr' fun _ => eq_comm

/-- When the device lists no pixel format twice, the mask has to be the same
in both directions. -/
theorem mirrored_iff {mask : UInt64} {fmts : List UInt32} (hd : fmts.Nodup) :
    Mirrored mask fmts ↔ ∀ i < fmts.length, mask.toNat.testBit i = mask.toNat.testBit (fmts.length - 1 - i) := by
  constructor
  · intro h i hi
    have hmem : ∀ b : Nat → Bool, fmts[i] ∈ picked b 0 fmts ↔ b i = true := by
      intro b
      rw [mem_picked]
      constructor
      · rintro ⟨j, hj, hb, he⟩
        have hij := (List.Nodup.getElem_inj_iff hd).mp he
        rw [Nat.zero_add, hij] at hb
        exact hb
      · intro hb
        exact ⟨i, hi, by rw [Nat.zero_add]; exact hb, rfl⟩
    have hcount := h fmts[i]
    rw [Bool.eq_iff_iff, ← hmem mask.toNat.testBit, ← hmem fun i => mask.toNat.testBit (fmts.length - 1 - i)]
    rw [← List.count_pos_iff, ← List.count_pos_iff, hcount]
  · intro h p
    have he : picked mask.toNat.testBit 0 fmts = picked (fun i => mask.toNat.testBit (fmts.length - 1 - i)) 0 fmts := by
      apply picked_congr
      intro i hi
      rw [Nat.zero_add]
      exact h i hi
    rw [he]

/-- The lists after both replies are parsed. -/
def FormatLists.parsed (input output : WireCapability) : FormatLists where
  inputFmtList := (input.descs.map WireFormat.meaning).reverse
  numInputFmts := UInt32.ofNat input.descs.length
  outputFmtList := (output.descs.map WireFormat.meaning).reverse
  numOutputFmts := UInt32.ofNat output.descs.length

theorem parseVirtioCapabilities_eq (input output : WireCapability) (restIn restOut : Mem) (n : Nat) :
    (parseVirtioCapabilities .empty (some (Mem.ofList input.bytes restIn)) (some (Mem.ofList output.bytes restOut))
      (fun _ => true) n).val = some (.ok (.parsed input output)) := by
  have hin := parseVirtioCapability_consumes (Mem.holds_ofList input.bytes restIn) n
  have hout := parseVirtioCapability_consumes (Mem.holds_ofList output.bytes restOut)
    (parseVirtioCapability (Mem.ofList input.bytes restIn) (fun _ => true) n).allocs
  simp only [parseVirtioCapabilities, bind, Access.andThen, hin.1, hout.1]
  rfl

theorem pixelFormats_reverse (c : WireCapability) :
    ((c.descs.map WireFormat.meaning).reverse).map (·.format) = c.pixelFormats.reverse := by
  simp only [WireCapability.pixelFormats, List.map_reverse, List.map_map]
  rfl

/-- An enumerator over the parsed list of a reply. -/
theorem enumMasked_numbered (expected : BufType) (maskList : List VideoFormat) (fourcc : UInt32) {c : WireCapability}
    (h64 : c.descs.length ≤ 64) {state : StreamState} (hstate : state ≠ .error) :
    DeviceNumbered (enumMasked expected maskList fourcc (c.descs.map WireFormat.meaning).reverse
      (UInt32.ofNat c.descs.length) state expected) (currentMask maskList fourcc) c.pixelFormats ↔
      Mirrored (currentMask maskList fourcc) c.pixelFormats := by
  apply deviceNumbered_iff
  rw [← pixelFormats_reverse]
  have hlen : (c.descs.map WireFormat.meaning).reverse.length = c.descs.length := by
    rw [List.length_reverse, List.length_map]
  exact enumMasked_enumerates expected maskList fourcc (by omega)
    (by rw [hlen, toNat_ofNat_count c.countable]) hstate

/-- **Format masks and the device's numbering.** The decoder and the encoder
enumerate the formats the mask stands for exactly when, in the list of the
other queue, the mask selects the same pixel formats read from the end. -/
theorem enum_numbering {input output : WireCapability} (hin : input.descs.length ≤ 64) (hout : output.descs.length ≤ 64)
    (restIn restOut : Mem) (n : Nat) {s : Stream} (hs : s.state ≠ .error) :
    let vvd := FormatLists.parsed input output
    let inputMask := currentMask vvd.inputFmtList s.inInfo.fourccFormat
    let outputMask := currentMask vvd.outputFmtList s.outInfo.fourccFormat
    (parseVirtioCapabilities .empty (some (Mem.ofList input.bytes restIn)) (some (Mem.ofList output.bytes restOut))
        (fun _ => true) n).val = some (.ok vvd) ∧
      (DeviceNumbered (decEnumFmtVidCap vvd s .captureMplane) inputMask output.pixelFormats ↔
        Mirrored inputMask output.pixelFormats) ∧
      (DeviceNumbered (encEnumFmtVidOut vvd s .outputMplane) outputMask input.pixelFormats ↔
        Mirrored outputMask input.pixelFormats) :=
  ⟨parseVirtioCapabilities_eq input output restIn restOut n, enumMasked_numbered _ _ _ hout hs,
    enumMasked_numbered _ _ _ hin hs⟩

/-- A decoder that takes H.264 only, with this mask. -/
def h264Capability (mask : UInt64) : WireCapability where
  type := 0x201
  streamId := 0
  padding := 0
  descs := [⟨mask, 0x1002, 1, 0, [], by decide⟩]
  nonempty := List.cons_ne_nil _ _
  countable := by simp

/-- It gives NV12 (position 0) and YUV420 (position 1). -/
def rawCapability : WireCapability where
  type := 0x201
  streamId := 0
  padding := 0
  descs := [⟨1, 4, 1, 0, [], by decide⟩, ⟨1, 5, 1, 0, [], by decide⟩]
  nonempty := by decide
  countable := by decide

/-- A decoding stream with H.264 on its input. -/
def h264Stream : Stream :=
  let info : FormatInfo := ⟨formatToV4l2 0x1002, 0, 0, 0, 0, 0, ⟨0, 0, 0, 0⟩, 1, Vector.replicate 8 ⟨0, 0⟩⟩
  ⟨1, .init, info, info, ⟨0, 0, 0⟩⟩

theorem enum_numbering_both : DeviceNumbered
    (decEnumFmtVidCap (.parsed (h264Capability 3) rawCapability) h264Stream .captureMplane) 3
    rawCapability.pixelFormats := by
  have h := enum_numbering (by decide : (h264Capability 3).descs.length ≤ 64)
    (by decide : rawCapability.descs.length ≤ 64) (fun _ => 0) (fun _ => 0) 0 (by decide : h264Stream.state ≠ .error)
  have hmask : currentMask (FormatLists.parsed (h264Capability 3) rawCapability).inputFmtList
      h264Stream.inInfo.fourccFormat = 3 := by decide
  dsimp only at h
  rw [hmask] at h
  exact h.2.1.mpr ((mirrored_iff (by decide)).mpr (by decide))

/-- With bit 0 alone set, the first format enumerated is the device's second. -/
theorem enum_reversed :
    (parseVirtioCapabilities .empty (some (Mem.ofList (h264Capability 1).bytes fun _ => 0))
        (some (Mem.ofList rawCapability.bytes fun _ => 0)) (fun _ => true) 0).val =
        some (.ok (.parsed (h264Capability 1) rawCapability)) ∧
      decEnumFmtVidCap (.parsed (h264Capability 1) rawCapability) h264Stream .captureMplane 0 =
        some (.ok (formatToV4l2 5)) ∧
      ¬DeviceNumbered (decEnumFmtVidCap (.parsed (h264Capability 1) rawCapability) h264Stream .captureMplane) 1
        rawCapability.pixelFormats := by
  refine ⟨parseVirtioCapabilities_eq _ _ _ _ _, by decide, fun h => ?_⟩
  have hm : Mirrored 1 rawCapability.pixelFormats :=
    (enumMasked_numbered .captureMplane (FormatLists.parsed (h264Capability 1) rawCapability).inputFmtList
      h264Stream.inInfo.fourccFormat (by decide : rawCapability.descs.length ≤ 64)
      (by decide : h264Stream.state ≠ .error)).mp h
  exact absurd ((mirrored_iff (by decide)).mp hm 0 (by decide)) (by decide)

end Agl.VirtioVideo
