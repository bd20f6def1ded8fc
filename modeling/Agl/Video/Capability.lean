/-
The capability reply as the device sends it, and what the driver makes of it.

The device lists its formats, each followed by its frame sizes, each of
these followed by its frame rates; the counts stand in front. Every level of
the parser finds the next entry by adding up the sizes it has been told.
-/
import Agl.Lib.Words
import Agl.Video.Caps

namespace Agl.VirtioVideo

open Access

/-! ## The reply on the wire -/

/-- `struct virtio_video_format_range` -/
structure WireRange where
  range : FormatRange
  padding : UInt32
  deriving DecidableEq, Repr

/-- `struct virtio_video_format_frame` with its rates, which a 32-bit number counts. -/
structure WireFrame where
  width : WireRange
  height : WireRange
  padding : UInt32
  frameRates : List WireRange
  countable : frameRates.length < 0x100000000
  deriving DecidableEq, Repr

/-- `struct virtio_video_format_desc` with its frames -/
structure WireFormat where
  mask : UInt64
  format : UInt32
  planesLayout : UInt32
  planeAlign : UInt32
  frames : List WireFrame
  countable : frames.length < 0x100000000
  deriving DecidableEq, Repr

/-- `struct virtio_video_query_capability_resp` with its formats, at least one -/
structure WireCapability where
  type : UInt32
  streamId : UInt32
  padding : UInt32
  descs : List WireFormat
  nonempty : descs ≠ []
  countable : descs.length < 0x100000000
  deriving DecidableEq, Repr

def WireRange.bytes (r : WireRange) : List UInt8 :=
  le32Bytes r.range.min ++ (le32Bytes r.range.max ++ (le32Bytes r.range.step ++ le32Bytes r.padding))

def WireFrame.header (f : WireFrame) : List UInt8 :=
  f.width.bytes ++ (f.height.bytes ++ (le32Bytes (UInt32.ofNat f.frameRates.length) ++ le32Bytes f.padding))

def WireFrame.bytes (f : WireFrame) : List UInt8 := f.header ++ f.frameRates.flatMap WireRange.bytes

def WireFormat.header (d : WireFormat) : List UInt8 :=
  le64Bytes d.mask ++ (le32Bytes d.format ++ (le32Bytes d.planesLayout ++ (le32Bytes d.planeAlign ++
    le32Bytes (UInt32.ofNat d.frames.length))))

def WireFormat.bytes (d : WireFormat) : List UInt8 := d.header ++ d.frames.flatMap WireFrame.bytes

def WireCapability.header (c : WireCapability) : List UInt8 :=
  le32Bytes c.type ++ (le32Bytes c.streamId ++ (le32Bytes (UInt32.ofNat c.descs.length) ++ le32Bytes c.padding))

def WireCapability.bytes (c : WireCapability) : List UInt8 := c.header ++ c.descs.flatMap WireFormat.bytes

/-! ## What it means -/

/-- The frame the driver is to keep. -/
def WireFrame.meaning (f : WireFrame) : FormatFrame :=
  ⟨f.width.range, f.height.range, f.frameRates.map WireRange.range⟩

/-- The format the driver is to keep: the pixel format is V4L2's. -/
def WireFormat.meaning (d : WireFormat) : VideoFormat :=
  ⟨formatToV4l2 d.format, d.mask, d.planesLayout, d.frames.map WireFrame.meaning⟩

/-! ## Sizes -/

@[simp] theorem WireRange.length_bytes (r : WireRange) : r.bytes.length = formatRangeSize := rfl

@[simp] theorem WireFrame.length_header (f : WireFrame) : f.header.length = formatFrameSize := rfl

@[simp] theorem WireFormat.length_header (d : WireFormat) : d.header.length = formatDescSize := rfl

@[simp] theorem WireCapability.length_header (c : WireCapability) : c.header.length = capabilityRespSize := rfl

theorem toNat_ofNat_count {n : Nat} (h : n < 0x100000000) : (UInt32.ofNat n).toNat = n := by
  rw [UInt32.toNat_ofNat']
  omega

/-! ## Reading the entries -/

variable {m : Mem}

theorem copyFmtRange_eq {pos : Nat} {r : WireRange} (h : m.Holds pos r.bytes) : copyFmtRange m pos = r.range := by
  have hmin := h.left.le32
  have hmax := h.right.left.le32
  have hstep := h.right.right.left.le32
  simp only [length_le32Bytes, Nat.add_assoc, Nat.reduceAdd] at hmax hstep
  simp only [copyFmtRange, hmin, hmax, hstep]

theorem parseVirtioFrameRate_consumes {pos : Nat} {r : WireRange} (h : m.Holds pos r.bytes) :
    Consumes (parseVirtioFrameRate m true pos) pos (pos + r.bytes.length) (r.bytes.length, r.range) := by
  unfold parseVirtioFrameRate
  rw [copyFmtRange_eq h]
  exact Consumes.bind Consumes.read (Consumes.bind Consumes.deref Consumes.ret)

/-- The loop over entries, given the parser of one. -/
theorem parseEntries_consumes {α γ : Type} {parse : Nat → Access (Nat × α)} {bytes : γ → List UInt8} {meaning : γ → α}
    {buf : Nat} (hpos : ∀ c, 0 < (bytes c).length)
    (h : ∀ pos c, m.Holds pos (bytes c) →
      Consumes (parse pos) pos (pos + (bytes c).length) ((bytes c).length, meaning c))
    (cs : List γ) (offset : Nat) (hold : m.Holds (buf + offset) (cs.flatMap bytes)) :
    Consumes (parseEntries parse buf cs.length offset) (buf + offset) (buf + (offset + (cs.flatMap bytes).length))
      (some (offset + (cs.flatMap bytes).length, cs.map meaning)) := by
  induction cs generalizing offset with
  | nil => exact Consumes.ret
  | cons c cs ih =>
    rw [List.flatMap_cons] at hold
    have hone := h _ c hold.left
    have hrest := ih (offset + (bytes c).length) (by rw [← Nat.add_assoc]; exact hold.right)
    simp only [List.flatMap_cons, List.length_append, ← Nat.add_assoc] at hrest ⊢
    refine Consumes.bind hone ?_
    dsimp only
    rw [if_neg (Nat.ne_of_gt (hpos c))]
    exact Consumes.bind hrest Consumes.ret

theorem WireRange.bytes_pos (r : WireRange) : 0 < r.bytes.length := by
  rw [r.length_bytes]
  decide

theorem WireFrame.bytes_pos (f : WireFrame) : 0 < f.bytes.length := by
  rw [WireFrame.bytes, List.length_append, f.length_header]
  exact Nat.lt_of_lt_of_le (by decide) (Nat.le_add_right ..)

theorem WireFormat.bytes_pos (d : WireFormat) : 0 < d.bytes.length := by
  rw [WireFormat.bytes, List.length_append, d.length_header]
  exact Nat.lt_of_lt_of_le (by decide) (Nat.le_add_right ..)

theorem parseVirtioFrame_consumes {pos : Nat} {f : WireFrame} (h : m.Holds pos f.bytes) :
    Consumes (parseVirtioFrame m true pos) pos (pos + f.bytes.length) (f.bytes.length, f.meaning) := by
  have hwidth := copyFmtRange_eq h.left.left
  have hheight := copyFmtRange_eq h.left.right.left
  have hnum := h.left.right.right.left.le32
  have hrates := parseEntries_consumes WireRange.bytes_pos (fun _ _ => parseVirtioFrameRate_consumes) f.frameRates
    formatFrameSize h.right
  simp only [WireRange.length_bytes, formatRangeSize, Nat.add_assoc, Nat.reduceAdd] at hheight hnum
  have hlen : f.bytes.length = formatFrameSize + (f.frameRates.flatMap WireRange.bytes).length := by
    rw [WireFrame.bytes, List.length_append, f.length_header]
  unfold parseVirtioFrame
  rw [hwidth, hheight, hnum, toNat_ofNat_count f.countable, hlen]
  refine Consumes.bind Consumes.read (Consumes.bind Consumes.deref (Consumes.bind Consumes.alloc ?_))
  exact Consumes.bind hrates Consumes.ret

theorem parseVirtioFmt_consumes {pos : Nat} {d : WireFormat} (h : m.Holds pos d.bytes) :
    Consumes (parseVirtioFmt m pos) pos (pos + d.bytes.length) (d.bytes.length, d.meaning) := by
  have hmask := h.left.left.le64
  have hformat := h.left.right.left.le32
  have hlayout := h.left.right.right.left.le32
  have hnum := h.left.right.right.right.right.le32
  have hframes := parseEntries_consumes WireFrame.bytes_pos (fun _ _ => parseVirtioFrame_consumes) d.frames
    formatDescSize h.right
  simp only [length_le64Bytes, length_le32Bytes, Nat.add_assoc, Nat.reduceAdd] at hformat hlayout hnum
  have hlen : d.bytes.length = formatDescSize + (d.frames.flatMap WireFrame.bytes).length := by
    rw [WireFormat.bytes, List.length_append, d.length_header]
  unfold parseVirtioFmt
  rw [hmask, hformat, hlayout, hnum, toNat_ofNat_count d.countable, hlen]
  refine Consumes.bind Consumes.read (Consumes.bind Consumes.alloc ?_)
  exact Consumes.bind hframes Consumes.ret

/-- Every format is put in front of those before it. -/
theorem parseVirtioFmts_consumes (ds : List WireFormat) (offset : Nat) (acc : List VideoFormat)
    (hold : m.Holds offset (ds.flatMap WireFormat.bytes)) :
    Consumes (parseVirtioFmts m ds.length offset acc) offset (offset + (ds.flatMap WireFormat.bytes).length)
      (.ok ((ds.map WireFormat.meaning).reverse ++ acc)) := by
  induction ds generalizing offset acc with
  | nil => exact Consumes.ret
  | cons d ds ih =>
    rw [List.flatMap_cons] at hold
    have hone := parseVirtioFmt_consumes hold.left
    have hrest := ih (offset + d.bytes.length) (d.meaning :: acc) hold.right
    simp only [List.flatMap_cons, List.length_append, ← Nat.add_assoc, List.map_cons, List.reverse_cons,
      List.append_assoc, List.singleton_append] at hrest ⊢
    refine Consumes.bind Consumes.alloc ?_
    rw [if_pos rfl]
    refine Consumes.bind hone ?_
    dsimp only
    rw [if_neg (Nat.ne_of_gt d.bytes_pos)]
    exact hrest

theorem parseVirtioCapability_consumes {c : WireCapability} (h : m.Holds 0 c.bytes) :
    Consumes (parseVirtioCapability m) 0 c.bytes.length
      (.ok ((c.descs.map WireFormat.meaning).reverse, UInt32.ofNat c.descs.length)) := by
  have hnum := h.left.right.right.left.le32
  have hfmts := parseVirtioFmts_consumes c.descs _ [] h.right
  have hlen : c.bytes.length = capabilityRespSize + (c.descs.flatMap WireFormat.bytes).length := by
    rw [WireCapability.bytes, List.length_append, c.length_header]
  have hcount : UInt32.ofNat c.descs.length ≠ 0 := by
    intro h0
    have := congrArg UInt32.toNat h0
    rw [toNat_ofNat_count c.countable] at this
    exact c.nonempty (List.length_eq_zero_iff.mp this)
  simp only [length_le32Bytes, Nat.zero_add, Nat.reduceAdd] at hnum
  rw [c.length_header, Nat.zero_add, List.append_nil] at hfmts
  unfold parseVirtioCapability
  refine Consumes.bind Consumes.read ?_
  dsimp only
  rw [hnum, if_neg hcount, toNat_ofNat_count c.countable, hlen, Nat.zero_add]
  exact Consumes.bind hfmts Consumes.ret

/-- An unknown pixel format of the device becomes 0. -/
theorem formatToV4l2_unknown {format : UInt32} (h : ∀ e ∈ formatTable, e.virtioValue ≠ format) :
    formatToV4l2 format = 0 := by
  have hnone : formatTable.find? (fun e => e.virtioValue = format) = none :=
    List.find?_eq_none.mpr fun e he => by simpa using h e he
  simp only [formatToV4l2, toV4l2, hnone]

/-- **Capability parsing is faithful.** With every allocation granted,
`virtio_video_parse_virtio_capability` reads the reply of the device piece by
piece from its first byte to its last and leaves the formats the device has
listed, in reverse order, each with its frames and their rates. -/
theorem parseVirtioCapability_faithful (c : WireCapability) (rest : Mem) (n : Nat) :
    (parseVirtioCapability (Mem.ofList c.bytes rest) (fun _ => true) n).val =
        some (.ok ((c.descs.map WireFormat.meaning).reverse, UInt32.ofNat c.descs.length)) ∧
      Tile 0 (parseVirtioCapability (Mem.ofList c.bytes rest) (fun _ => true) n).reads c.bytes.length ∧
      ∀ d ∈ c.descs, (∀ e ∈ formatTable, e.virtioValue ≠ d.format) → d.meaning.format = 0 :=
  have h := parseVirtioCapability_consumes (Mem.holds_ofList c.bytes rest) n
  ⟨h.1, h.2, fun _ _ => formatToV4l2_unknown⟩

end Agl.VirtioVideo
