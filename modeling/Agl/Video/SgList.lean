/-
The scatter-gather lists of a buffer (`virtio_video_buf_init` up to its
`RESOURCE_ATTACH`): the size of the buffer they are written to, the stores
that write them, and the payload that the device reads.

The offset is a running `unsigned int`, the size a `size_t` (no 8 planes of
an `unsigned int` of segments overflow it). `num_entries` is stored as it
is, here in little-endian order. Memory is modelled beyond the buffer's end
too: stores there are made, and the payload leaves them out.
-/
import Agl.Lib.Stores
import Agl.Video.Helpers

namespace Agl.VirtioVideo

/-! ## The driver -/

/-- `struct scatterlist` -/
structure Segment where
  /-- `sg_dma_address` -/
  dmaAddress : UInt64
  /-- `sg_phys` -/
  phys : UInt64
  length : UInt32
  deriving DecidableEq, Repr

/-- A plane of a `struct vb2_buffer`. -/
structure SgPlane where
  /-- `vb2_dma_contig_plane_dma_addr` -/
  dmaAddr : UInt64
  length : UInt32
  /-- `vb2_dma_sg_plane_desc`: its `nents` segments -/
  sgt : List Segment
  countable : sgt.length < 0x100000000
  deriving DecidableEq, Repr

/-- `struct virtio_video_resource_sg_entry` -/
structure SgEntry where
  addr : UInt64
  length : UInt32
  deriving DecidableEq, Repr

/-- `VIRTIO_VIDEO_RESOURCE_SG_SIZE` -/
def sgSize (n : Nat) : Nat := 8 + 16 * n

/-- `build_virtio_video_sglist_contig` at `sgl`: its stores, and the size. -/
def buildSglistContig (sgl : Nat) (plane : SgPlane) : List Store × UInt32 :=
  ([⟨sgl + sgSize 0, le64Bytes plane.dmaAddr⟩, ⟨sgl + sgSize 0 + 8, le32Bytes plane.length⟩, ⟨sgl, le32Bytes 1⟩],
    UInt32.ofNat (sgSize 1))

/-- The address of a segment that the device is told. -/
def Segment.addr (hasIommu : Bool) (sg : Segment) : UInt64 := if hasIommu then sg.dmaAddress else sg.phys

/-- The loop of `build_virtio_video_sglist` over the segments from `i` on. -/
def sgEntries (hasIommu : Bool) (sgl : Nat) : Nat → List Segment → List Store
  | _, [] => []
  | i, sg :: rest =>
    ⟨sgl + sgSize i, le64Bytes (sg.addr hasIommu)⟩ :: ⟨sgl + sgSize i + 8, le32Bytes sg.length⟩ ::
      sgEntries hasIommu sgl (i + 1) rest

/-- `build_virtio_video_sglist` at `sgl` -/
def buildSglist (hasIommu : Bool) (sgl : Nat) (plane : SgPlane) : List Store × UInt32 :=
  (sgEntries hasIommu sgl 0 plane.sgt ++ [⟨sgl, le32Bytes (UInt32.ofNat plane.sgt.length)⟩],
    UInt32.ofNat (sgSize plane.sgt.length))

/-- One list: where it is written, its size, the stores. -/
structure SgWritten where
  offset : UInt32
  size : UInt32
  stores : List Store
  deriving DecidableEq, Repr

/-- The loop over the planes that writes the lists. -/
def buildLists (build : Nat → SgPlane → List Store × UInt32) : UInt32 → List SgPlane → List SgWritten
  | _, [] => []
  | offset, plane :: rest =>
    let (stores, size) := build offset.toNat plane
    ⟨offset, size, stores⟩ :: buildLists build (offset + size) rest

/-- The loop over the planes that adds up `buf_size`. -/
def sgBufSize : List SgPlane → Nat
  | [] => 0
  | plane :: rest => sgSize plane.sgt.length + sgBufSize rest

/-- The buffer for `RESOURCE_ATTACH`. -/
structure SgBuf where
  bufSize : Nat
  lists : List SgWritten
  deriving DecidableEq, Repr

/-- `virtio_video_buf_init` up to `virtio_video_resource_id_get`; `kcalloc`
gives `KMALLOC_MAX_SIZE` bytes at most, and none when there is no memory. -/
def bufInitSg (kmallocMaxSize : Nat) (memory suppNonContig hasIommu : Bool) (planes : List SgPlane) :
    Except Errno SgBuf :=
  if suppNonContig then
    let bufSize := sgBufSize planes
    if memory ∧ bufSize ≤ kmallocMaxSize then .ok ⟨bufSize, buildLists (buildSglist hasIommu) 0 planes⟩
    else .error .enomem
  else
    let nents := 0
    let bufSize := planes.length * sgSize nents
    if memory ∧ bufSize ≤ kmallocMaxSize then .ok ⟨bufSize, buildLists buildSglistContig 0 planes⟩
    else .error .enomem

/-- The memory after the stores; `kcalloc` has cleared it. -/
def SgBuf.mem (b : SgBuf) : Mem := Mem.stores (fun _ => 0) (b.lists.flatMap (·.stores))

/-- What is sent. -/
def SgBuf.payload (b : SgBuf) : List UInt8 := (List.range b.bufSize).map b.mem

/-! ## The device -/

/-- One list, and where the next one begins. -/
def readSgList (m : Mem) (off : Nat) : List SgEntry × Nat :=
  let n := (m.le32 off).toNat
  ((List.range n).map fun i => ⟨m.le64 (off + sgSize i), m.le32 (off + sgSize i + 8)⟩, off + sgSize n)

/-- So many consecutive lists, and where they end. -/
def readSgLists (m : Mem) : Nat → Nat → List (List SgEntry) × Nat
  | 0, off => ([], off)
  | n + 1, off =>
    let (entries, next) := readSgList m off
    let (rest, stop) := readSgLists m n next
    (entries :: rest, stop)

/-! ## What is asked for -/

/-- The segments of a plane. -/
def SgPlane.segments (suppNonContig hasIommu : Bool) (plane : SgPlane) : List SgEntry :=
  if suppNonContig then plane.sgt.map fun sg => ⟨sg.addr hasIommu, sg.length⟩ else [⟨plane.dmaAddr, plane.length⟩]

/-- The offset behind a list. -/
def SgWritten.stop (l : SgWritten) : Nat := l.offset.toNat + l.size.toNat

/-- The bytes the build functions say they have written. -/
def SgBuf.written (b : SgBuf) : Nat := b.lists.foldr (fun l n => l.size.toNat + n) 0

/-- The lists fill the buffer. -/
structure SgBuf.Fits (b : SgBuf) (segments : List (List SgEntry)) : Prop where
  size : b.written = b.bufSize
  inBounds : ∀ l ∈ b.lists, l.stop ≤ b.bufSize ∧ ∀ st ∈ l.stores, l.offset.toNat ≤ st.off ∧ st.stop ≤ l.stop
  apart : b.lists.Pairwise fun l l' => l.stop ≤ l'.offset.toNat
  readBack : ∀ rest, readSgLists (Mem.ofList b.payload rest) segments.length 0 = (segments, b.bufSize)

/-! ## Bytes -/

def SgEntry.bytes (e : SgEntry) : List UInt8 := le64Bytes e.addr ++ (le32Bytes e.length ++ List.replicate 4 0)

def sgListBytes (entries : List SgEntry) : List UInt8 :=
  le32Bytes (UInt32.ofNat entries.length) ++ (List.replicate 4 0 ++ entries.flatMap SgEntry.bytes)

@[simp] theorem SgEntry.length_bytes (e : SgEntry) : e.bytes.length = 16 := rfl

theorem length_flatMap_bytes (entries : List SgEntry) :
    (entries.flatMap SgEntry.bytes).length = 16 * entries.length := by
  induction entries with
  | nil => rfl
  | cons e rest ih =>
    rw [List.flatMap_cons, List.length_append, ih, SgEntry.length_bytes, List.length_cons]
    omega

@[simp] theorem length_sgListBytes (entries : List SgEntry) : (sgListBytes entries).length = sgSize entries.length := by
  simp only [sgListBytes, List.length_append, length_le32Bytes, List.length_replicate, length_flatMap_bytes, sgSize]
  omega

/-! ## Reading -/

section

variable {m : Mem} {off : Nat}

/-- Entry `i` of a list of entries. -/
theorem holds_entry {entries : List SgEntry} (h : m.Holds off (entries.flatMap SgEntry.bytes)) {i : Nat}
    (hi : i < entries.length) : m.Holds (off + 16 * i) entries[i].bytes := by
  induction entries generalizing off i with
  | nil => cases hi
  | cons e rest ih =>
    rw [List.flatMap_cons] at h
    cases i with
    | zero => exact h.left
    | succ i =>
      have hi := ih h.right (Nat.lt_of_succ_lt_succ hi)
      rw [SgEntry.length_bytes] at hi
      rw [show off + 16 * (i + 1) = off + 16 + 16 * i by omega]
      exact hi

theorem readSgList_eq {entries : List SgEntry} (hn : entries.length < 0x100000000)
    (h : m.Holds off (sgListBytes entries)) : readSgList m off = (entries, off + sgSize entries.length) := by
  have hcount : (m.le32 off).toNat = entries.length := by
    rw [h.left.le32, UInt32.toNat_ofNat']
    exact Nat.mod_eq_of_lt hn
  have hentries := h.right.right
  simp only [length_le32Bytes, List.length_replicate] at hentries
  simp only [readSgList, hcount, Prod.mk.injEq, and_true]
  apply List.ext_getElem
  · simp
  · intro i hi hi'
    have he := holds_entry hentries hi'
    rw [show off + 4 + 4 + 16 * i = off + sgSize i by simp only [sgSize]; omega] at he
    have hlength := he.right.left.le32
    rw [length_le64Bytes] at hlength
    rw [List.getElem_map, List.getElem_range, he.left.le64, hlength]

theorem readSgLists_eq {segments : List (List SgEntry)} (hn : ∀ entries ∈ segments, entries.length < 0x100000000)
    (h : m.Holds off (segments.flatMap sgListBytes)) :
    readSgLists m segments.length off = (segments, off + (segments.flatMap sgListBytes).length) := by
  induction segments generalizing off with
  | nil => rfl
  | cons entries rest ih =>
    rw [List.flatMap_cons] at h
    have hrest := h.right
    rw [length_sgListBytes] at hrest
    have ih := ih (fun e he => hn e (List.mem_cons_of_mem entries he)) hrest
    simp only [List.length_cons, readSgLists, readSgList_eq (hn entries List.mem_cons_self) h.left, ih,
      List.flatMap_cons, List.length_append, length_sgListBytes, Nat.add_assoc]

end

/-! ## Writing -/

section

variable {m : Mem} {off : Nat} {hasIommu : Bool}

theorem sgEntries_within {sgt : List Segment} {sgl i : Nat} :
    ∀ st ∈ sgEntries hasIommu sgl i sgt, sgl + sgSize i ≤ st.off ∧ st.stop ≤ sgl + sgSize (i + sgt.length) := by
  induction sgt generalizing i with
  | nil =>
    intro st hst
    cases hst
  | cons sg rest ih =>
    intro st hst
    simp only [sgEntries, List.mem_cons] at hst
    simp only [sgSize, List.length_cons] at ih ⊢
    rcases hst with rfl | rfl | hst
    · simp only [Store.stop, length_le64Bytes, sgSize]
      omega
    · simp only [Store.stop, length_le32Bytes, sgSize]
      omega
    · have := ih st hst
      omega

/-- The entries are written one behind the other. -/
theorem sgEntries_appends (hasIommu : Bool) (sgt : List Segment) {sgl i : Nat} (hz : m.ZeroFrom (sgl + sgSize i)) :
    Mem.Appends m (m.stores (sgEntries hasIommu sgl i sgt)) (sgl + sgSize i)
      ((sgt.map fun sg => (⟨sg.addr hasIommu, sg.length⟩ : SgEntry)).flatMap SgEntry.bytes) := by
  induction sgt generalizing m i with
  | nil => exact hz.append_nil
  | cons sg rest ih =>
    have haddr := hz.append_store (le64Bytes (sg.addr hasIommu))
    have hlength := haddr.rest.append_store (le32Bytes sg.length)
    have hentry : Mem.Appends m _ (sgl + sgSize i) (SgEntry.bytes ⟨sg.addr hasIommu, sg.length⟩) :=
      haddr.trans (hlength.trans (hlength.rest.append_zeros 4))
    have hnext : sgl + sgSize i + 16 = sgl + sgSize (i + 1) := by
      simp only [sgSize]
      omega
    have hrest := hentry.rest
    rw [SgEntry.length_bytes, hnext] at hrest
    refine hentry.trans ?_
    rw [SgEntry.length_bytes, hnext]
    exact ih hrest

/-- `build_virtio_video_sglist` writes the list of the plane's segments. -/
theorem buildSglist_appends (hasIommu : Bool) (plane : SgPlane) (hz : m.ZeroFrom off) :
    Mem.Appends m (m.stores (buildSglist hasIommu off plane).1) off
      (sgListBytes (plane.segments true hasIommu)) := by
  have hentries := sgEntries_appends (i := 0) hasIommu plane.sgt
    (hz.mono (Nat.le_add_right off _))
  have hlist := Mem.Appends.header (l := le32Bytes (UInt32.ofNat plane.sgt.length)) (k := 4) hentries hz
  simp only [buildSglist, Mem.stores_append, sgListBytes, SgPlane.segments, if_true, List.length_map]
  exact hlist

theorem buildSglist_within (plane : SgPlane) :
    ∀ st ∈ (buildSglist hasIommu off plane).1, off ≤ st.off ∧ st.stop ≤ off + sgSize plane.sgt.length := by
  intro st hst
  rcases List.mem_append.mp hst with hst | hst
  · have := sgEntries_within st hst
    rw [Nat.zero_add] at this
    exact ⟨Nat.le_trans (Nat.le_add_right off _) this.1, this.2⟩
  · rw [List.mem_singleton.mp hst]
    simp only [Store.stop, length_le32Bytes, sgSize]
    omega

/-- The size it returns, if that fits. -/
theorem buildSglist_size (hasIommu : Bool) (off : Nat) {plane : SgPlane} (h : sgSize plane.sgt.length < 0x100000000) :
    (buildSglist hasIommu off plane).2.toNat = sgSize plane.sgt.length := by
  simp only [buildSglist, UInt32.toNat_ofNat']
  exact Nat.mod_eq_of_lt h

theorem length_segments (plane : SgPlane) : (plane.segments true hasIommu).length = plane.sgt.length := by
  simp [SgPlane.segments]

end

/-! ## The loop over the planes -/

section

variable {m : Mem} {hasIommu : Bool} {offset : UInt32} {plane : SgPlane} {planes : List SgPlane}

/-- The offset goes on behind the list, as long as the sum fits an `unsigned int`. -/
theorem next_offset (hasIommu : Bool) (h : offset.toNat + sgBufSize (plane :: planes) < 0x100000000) :
    (buildSglist hasIommu offset.toNat plane).2.toNat = sgSize plane.sgt.length ∧
      (offset + (buildSglist hasIommu offset.toNat plane).2).toNat = offset.toNat + sgSize plane.sgt.length := by
  simp only [sgBufSize] at h
  have hsize := buildSglist_size hasIommu offset.toNat (by omega : sgSize plane.sgt.length < 0x100000000)
  refine ⟨hsize, ?_⟩
  rw [UInt32.toNat_add, hsize]
  exact Nat.mod_eq_of_lt (by omega)

theorem buildLists_sizes (h : offset.toNat + sgBufSize planes < 0x100000000) :
    (buildLists (buildSglist hasIommu) offset planes).foldr (fun l n => l.size.toNat + n) 0 = sgBufSize planes := by
  induction planes generalizing offset with
  | nil => rfl
  | cons plane rest ih =>
    obtain ⟨hsize, hnext⟩ := next_offset hasIommu h
    simp only [sgBufSize] at h
    simp only [buildLists, List.foldr_cons, sgBufSize, hsize]
    rw [ih (by rw [hnext]; omega)]

theorem buildLists_appends (hasIommu : Bool) (h : offset.toNat + sgBufSize planes < 0x100000000)
    (hz : m.ZeroFrom offset.toNat) :
    Mem.Appends m (m.stores ((buildLists (buildSglist hasIommu) offset planes).flatMap (·.stores))) offset.toNat
      ((planes.map (·.segments true hasIommu)).flatMap sgListBytes) := by
  induction planes generalizing m offset with
  | nil => exact hz.append_nil
  | cons plane rest ih =>
    obtain ⟨hsize, hnext⟩ := next_offset hasIommu h
    simp only [sgBufSize] at h
    have hplane := buildSglist_appends hasIommu plane hz
    have hlen : offset.toNat + (sgListBytes (plane.segments true hasIommu)).length =
        (offset + (buildSglist hasIommu offset.toNat plane).2).toNat := by
      rw [length_sgListBytes, length_segments, hnext]
    have hrest := hplane.rest
    rw [hlen] at hrest
    have ih := ih (by rw [hnext]; omega) hrest
    simp only [buildLists, List.map_cons, List.flatMap_cons, Mem.stores_append]
    refine hplane.trans ?_
    rw [hlen]
    exact ih

theorem buildLists_within (h : offset.toNat + sgBufSize planes < 0x100000000) :
    ∀ l ∈ buildLists (buildSglist hasIommu) offset planes, offset.toNat ≤ l.offset.toNat ∧
      l.stop ≤ offset.toNat + sgBufSize planes ∧ ∀ st ∈ l.stores, l.offset.toNat ≤ st.off ∧ st.stop ≤ l.stop := by
  induction planes generalizing offset with
  | nil =>
    intro l hl
    cases hl
  | cons plane rest ih =>
    intro l hl
    obtain ⟨hsize, hnext⟩ := next_offset hasIommu h
    simp only [sgBufSize] at h ⊢
    simp only [buildLists, List.mem_cons] at hl
    rcases hl with rfl | hl
    · simp only [SgWritten.stop, hsize]
      refine ⟨Nat.le_refl _, by omega, fun st hst => ?_⟩
      exact buildSglist_within plane st hst
    · obtain ⟨hge, hle, hst⟩ := ih (by rw [hnext]; omega) l hl
      rw [hnext] at hge hle
      exact ⟨by omega, by omega, hst⟩

theorem buildLists_apart (h : offset.toNat + sgBufSize planes < 0x100000000) :
    (buildLists (buildSglist hasIommu) offset planes).Pairwise fun l l' => l.stop ≤ l'.offset.toNat := by
  induction planes generalizing offset with
  | nil => exact List.Pairwise.nil
  | cons plane rest ih =>
    obtain ⟨hsize, hnext⟩ := next_offset hasIommu h
    simp only [sgBufSize] at h
    have hrest : (offset + (buildSglist hasIommu offset.toNat plane).2).toNat + sgBufSize rest < 0x100000000 := by
      rw [hnext]
      omega
    simp only [buildLists]
    refine List.Pairwise.cons (fun l hl => ?_) (ih hrest)
    have hge := (buildLists_within hrest l hl).1
    rw [hnext] at hge
    simp only [SgWritten.stop, hsize]
    exact hge

/-- The two passes over the planes agree. -/
theorem length_lists (planes : List SgPlane) :
    ((planes.map (·.segments true hasIommu)).flatMap sgListBytes).length = sgBufSize planes := by
  induction planes with
  | nil => rfl
  | cons plane rest ih =>
    rw [List.map_cons, List.flatMap_cons, List.length_append, ih, length_sgListBytes, length_segments, sgBufSize]

theorem nonContig_fits (h : sgBufSize planes < 0x100000000) :
    SgBuf.Fits ⟨sgBufSize planes, buildLists (buildSglist hasIommu) 0 planes⟩
      (planes.map (·.segments true hasIommu)) := by
  have h0 : (0 : UInt32).toNat + sgBufSize planes < 0x100000000 := by
    rw [UInt32.toNat_zero]
    omega
  refine ⟨buildLists_sizes h0, fun l hl => ?_, buildLists_apart h0, fun rest => ?_⟩
  · obtain ⟨-, hle, hst⟩ := buildLists_within h0 l hl
    rw [UInt32.toNat_zero, Nat.zero_add] at hle
    exact ⟨hle, hst⟩
  · have happ := buildLists_appends (m := fun _ => 0) hasIommu h0 fun _ _ => rfl
    have hbytes := happ.holds.map_range
    simp only [UInt32.toNat_zero, Nat.zero_add, length_lists] at hbytes
    have hread := readSgLists_eq (fun entries he => ?_)
      (Mem.holds_ofList ((planes.map (·.segments true hasIommu)).flatMap sgListBytes) rest)
    · rw [length_lists, Nat.zero_add] at hread
      simp only [SgBuf.payload, SgBuf.mem, hbytes]
      exact hread
    · obtain ⟨plane, -, rfl⟩ := List.mem_map.mp he
      rw [length_segments]
      exact plane.countable

theorem contig_sizes (offset : UInt32) (planes : List SgPlane) :
    (buildLists buildSglistContig offset planes).foldr (fun l n => l.size.toNat + n) 0 = planes.length * sgSize 1 := by
  induction planes generalizing offset with
  | nil => rfl
  | cons plane rest ih =>
    simp only [buildLists, List.foldr_cons, List.length_cons, ih, Nat.succ_mul]
    exact Nat.add_comm _ _

end

/-- **The scatter-gather lists fit their buffer** when the device takes
non-contiguous memory, or there is no plane; for contiguous planes the
buffer is too small. -/
theorem sgLists_fit {kmallocMaxSize : Nat} (hmax : kmallocMaxSize < 0x100000000) {memory suppNonContig hasIommu : Bool}
    {planes : List SgPlane} {b : SgBuf} (hb : bufInitSg kmallocMaxSize memory suppNonContig hasIommu planes = .ok b) :
    b.Fits (planes.map (·.segments suppNonContig hasIommu)) ↔ suppNonContig = true ∨ planes = [] := by
  unfold bufInitSg at hb
  cases suppNonContig with
  | true =>
    simp only [↓reduceIte] at hb
    split at hb
    · next hc =>
      cases hb
      exact ⟨fun _ => .inl rfl, fun _ => nonContig_fits (by omega)⟩
    · cases hb
  | false =>
    simp only [Bool.false_eq_true, ↓reduceIte] at hb
    split at hb
    · cases hb
      constructor
      · intro hf
        have hsize := hf.size
        simp only [SgBuf.written, contig_sizes, sgSize] at hsize
        exact .inr (List.length_eq_zero_iff.mp (by omega))
      · rintro (h | rfl)
        · cases h
        · refine ⟨rfl, fun l hl => ?_, List.Pairwise.nil, fun rest => rfl⟩
          cases hl
    · cases hb

/-- A plane of one page, or of two that do not follow each other. -/
def onePage : SgPlane := ⟨0x10000, 4096, [⟨0x10000, 0x90000, 4096⟩], by decide⟩
def twoPages : SgPlane := ⟨0, 8192, [⟨0x20000, 0xa0000, 4096⟩, ⟨0x40000, 0xb0000, 4096⟩], by decide⟩

theorem sgLists_fit_twoPages : ∃ b, bufInitSg 0x400000 true true true [twoPages, onePage] = .ok b ∧ b.bufSize = 64 ∧
    b.Fits [[⟨0x20000, 4096⟩, ⟨0x40000, 4096⟩], [⟨0x10000, 4096⟩]] := by
  have hb : bufInitSg 0x400000 true true true [twoPages, onePage] =
      .ok ⟨64, buildLists (buildSglist true) 0 [twoPages, onePage]⟩ := rfl
  exact ⟨_, hb, rfl, (sgLists_fit (by decide) hb).mpr (.inl rfl)⟩

/-- Eight bytes for a list of one contiguous plane, which takes 24. -/
theorem contig_overflow : ∃ b, bufInitSg 0x400000 true false false [onePage] = .ok b ∧
    (b.bufSize = 8 ∧ b.written = 24 ∧ ∃ l ∈ b.lists, ∃ st ∈ l.stores, b.bufSize < st.stop) ∧
    ¬b.Fits [onePage.segments false false] := by
  refine ⟨⟨8, buildLists buildSglistContig 0 [onePage]⟩, rfl, by decide, fun hf => ?_⟩
  have hsize := hf.size
  revert hsize
  decide

end Agl.VirtioVideo
