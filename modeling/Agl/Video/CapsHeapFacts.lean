/-
What the parse of the capability replies leaves on the heap.

The formats on the heap are those the reply lists, in reverse order. The run
goes through exactly if every array of frames or rates that is not empty was
allocated, and frees all it allocated, once, with one exception: an output
reply without a format ends the initialisation with the input formats left.
-/
import Agl.Video.CapsHeap

namespace Agl.VirtioVideo.CapsHeap

open Heap HeapM

/-! ## What a reply lists -/

/-- `n` entries that follow one another, each as long as `len` says. -/
def entriesAt {α : Type} (len : Nat → Nat) (entry : Nat → α) (pos : Nat) : Nat → List α
  | 0 => []
  | n + 1 => entry pos :: entriesAt len entry (pos + len pos) n

/-- Their length together. -/
def entriesLen (len : Nat → Nat) (pos : Nat) : Nat → Nat
  | 0 => 0
  | n + 1 => len pos + entriesLen len (pos + len pos) n

theorem length_entriesAt {α : Type} (len : Nat → Nat) (entry : Nat → α) (pos n : Nat) :
    (entriesAt len entry pos n).length = n := by
  induction n generalizing pos with
  | zero => rfl
  | succ n ih => simp only [entriesAt, List.length_cons, ih]

section

variable (m : Mem)

abbrev rangesAt (pos n : Nat) : List FormatRange := entriesAt (fun _ => formatRangeSize) (copyFmtRange m) pos n

def numRates (pos : Nat) : Nat := (m.le32 (pos + 32)).toNat

def frameAt (pos : Nat) : FormatFrame :=
  ⟨copyFmtRange m pos, copyFmtRange m (pos + 16), rangesAt m (pos + formatFrameSize) (numRates m pos)⟩

def frameLen (pos : Nat) : Nat := formatFrameSize + formatRangeSize * numRates m pos

abbrev framesAt (pos n : Nat) : List FormatFrame := entriesAt (frameLen m) (frameAt m) pos n

def numFrames (pos : Nat) : Nat := (m.le32 (pos + 20)).toNat

def fmtAt (pos : Nat) : VideoFormat :=
  ⟨formatToV4l2 (m.le32 (pos + 8)), m.le64 pos, m.le32 (pos + 12), framesAt m (pos + formatDescSize) (numFrames m pos)⟩

def fmtLen (pos : Nat) : Nat := formatDescSize + entriesLen (frameLen m) (pos + formatDescSize) (numFrames m pos)

abbrev fmtsAt (pos n : Nat) : List VideoFormat := entriesAt (fmtLen m) (fmtAt m) pos n

/-- The formats of a reply. -/
def listed : List VideoFormat := fmtsAt m capabilityRespSize (m.le32 8).toNat

/-- The array of rates of every frame that has one is allocated. -/
def FramesGranted (rates : Nat → Bool) (pos : Nat) : Nat → Nat → Prop
  | 0, _ => True
  | n + 1, idx => (numRates m pos ≠ 0 → rates idx = true) ∧ FramesGranted rates (pos + frameLen m pos) n (idx + 1)

def FmtGranted (env : FormatEnv) (pos : Nat) : Prop :=
  (numFrames m pos ≠ 0 → env.frames = true) ∧ FramesGranted m env.rates (pos + formatDescSize) (numFrames m pos) 0

/-- The parse ends at the first format it gets no memory for. -/
def FmtsGranted (env : Nat → FormatEnv) (pos : Nat) : Nat → Nat → Prop
  | 0, _ => True
  | n + 1, idx => (env idx).alloc = true →
      FmtGranted m (env idx) pos ∧ FmtsGranted env (pos + fmtLen m pos) n (idx + 1)

/-- Every format gets its memory. -/
def AllAlloc (env : Nat → FormatEnv) : Nat → Nat → Prop
  | 0, _ => True
  | n + 1, idx => (env idx).alloc = true ∧ AllAlloc env n (idx + 1)

end

/-- The arrays of the reply that are asked for are allocated. -/
def Reply.Granted (r : Reply) : Prop := FmtsGranted r.mem r.env capabilityRespSize (r.mem.le32 8).toNat 0

/-- The parse of the reply returns 0. -/
def Reply.Parses (r : Reply) : Prop := r.mem.le32 8 ≠ 0 ∧ AllAlloc r.env (r.mem.le32 8).toNat 0

theorem frameLen_ne (m : Mem) (pos : Nat) : frameLen m pos ≠ 0 := by
  simp only [frameLen, formatFrameSize]
  omega

theorem fmtLen_ne (m : Mem) (pos : Nat) : fmtLen m pos ≠ 0 := by
  simp only [fmtLen, formatDescSize]
  omega

/-! ## What is on the heap -/

/-- A frame with its array of rates. -/
structure HFrame where
  frame : FormatFrame
  rates : Ptr

def HFrame.entry (h : HFrame) : Frame :=
  ⟨h.frame.width, h.frame.height, UInt32.ofNat h.frame.frameRates.length, h.rates⟩

def HFrame.cells (h : HFrame) : List (Cell Object) := ptrCells h.rates (.rates h.frame.frameRates)

def frameCells (hs : List HFrame) : List (Cell Object) := hs.flatMap HFrame.cells

/-- A format with its array of frames; there is none only for no frames. -/
structure HFormat where
  addr : Addr
  format : UInt32
  mask : UInt64
  planesLayout : UInt32
  frames : Ptr
  hframes : List HFrame
  null : frames = none → hframes = []
  countable : hframes.length < 4294967296

def HFormat.entry (h : HFormat) : Format := ⟨h.format, h.mask, h.planesLayout, UInt32.ofNat h.hframes.length, h.frames⟩

/-- The format it stands for. -/
def HFormat.meaning (h : HFormat) : VideoFormat := ⟨h.format, h.mask, h.planesLayout, h.hframes.map HFrame.frame⟩

def HFormat.cells (h : HFormat) : List (Cell Object) :=
  ⟨h.addr, .format h.entry⟩ :: (ptrCells h.frames (.frames (h.hframes.map HFrame.entry)) ++ frameCells h.hframes)

def fmtCells (hs : List HFormat) : List (Cell Object) := hs.flatMap HFormat.cells

theorem HFormat.toNat_numFrames (h : HFormat) : h.entry.numFrames.toNat = h.hframes.length := by
  have hlt := h.countable
  simp only [entry, UInt32.toNat_ofNat']
  omega

variable {l : List (Cell Object)} {m : Mem} {a : Addr} {buf : Nat}

/-! ## Freeing -/

theorem freeFrameRates_runs (done rest : List HFrame) :
    Runs False (⟨a, .frames ((done ++ rest).map HFrame.entry)⟩ :: (frameCells rest ++ l))
      (freeFrameRates (some a) rest.length done.length) fun _ l' =>
        l' = ⟨a, .frames ((done ++ rest).map HFrame.entry)⟩ :: l := by
  induction rest generalizing done with
  | nil => exact Runs.ret rfl
  | cons h rest ih =>
    have hget : ((done ++ h :: rest).map HFrame.entry)[done.length]? = some h.entry := by
      rw [List.getElem?_map, List.getElem?_append_right (Nat.le_refl _), Nat.sub_self]
      rfl
    have hrest := ih (done ++ [h])
    rw [List.append_assoc, List.singleton_append, List.length_append, List.length_singleton] at hrest
    refine Runs.deref_some (Runs.load (Runs.lift_some ?_))
    rw [hget]
    refine Runs.lift_some (Runs.perm ?_ (Runs.freePtr (v := .rates h.frame.frameRates) hrest))
    simp only [frameCells, List.flatMap_cons, HFrame.cells, HFrame.entry, List.append_assoc]
    exact List.perm_middle.symm

theorem freeFrames_runs (h : HFormat) :
    Runs False (ptrCells h.frames (.frames (h.hframes.map HFrame.entry)) ++ (frameCells h.hframes ++ l))
      (freeFrames h.entry) fun _ l' => l' = l := by
  unfold freeFrames
  rw [h.toNat_numFrames]
  cases hf : h.frames with
  | none =>
    have hnil := h.null hf
    simp only [HFormat.entry, hf, hnil]
    exact Runs.ret rfl
  | some a =>
    simp only [HFormat.entry, hf]
    refine Runs.bind (freeFrameRates_runs [] h.hframes) ?_
    intro _ l' hl
    subst hl
    exact Runs.last (Runs.free (Runs.ret rfl))

theorem freeFmt_runs (hs : List HFormat) :
    Runs False (fmtCells hs ++ l) (freeFmt (hs.map HFormat.addr)) fun _ l' => l' = l := by
  induction hs with
  | nil => exact Runs.ret rfl
  | cons h hs ih =>
    have hcells : fmtCells (h :: hs) ++ l = ⟨h.addr, .format h.entry⟩ ::
        (ptrCells h.frames (.frames (h.hframes.map HFrame.entry)) ++ (frameCells h.hframes ++ (fmtCells hs ++ l))) := by
      simp only [fmtCells, HFormat.cells, List.flatMap_cons, List.cons_append, List.append_assoc]
    rw [hcells]
    have hframes := freeFrames_runs (l := ⟨h.addr, .format h.entry⟩ :: (fmtCells hs ++ l)) h
    refine Runs.load (Runs.lift_some (Runs.perm ?_ (Runs.bind hframes ?_)))
    · exact List.perm_middle.symm.trans (List.Perm.append_left _ List.perm_middle.symm)
    · intro _ l' hl
      subst hl
      exact Runs.free ih

/-! ## Arrays -/

theorem Runs.kcalloc {F : Prop} {α : Type} {granted : Bool} {n : Nat} {v : Object} {k : Ptr → HeapM Object α}
    {R : α → List (Cell Object) → Prop} (hsome : n ≠ 0 → granted = true → ∀ a, Runs F (⟨a, v⟩ :: l) (k (some a)) R)
    (hnone : n = 0 ∨ granted = false → Runs F l (k none) R) : Runs F l (kcalloc granted n v >>= k) R := by
  unfold CapsHeap.kcalloc
  split
  · next hn => exact hnone (.inl hn)
  · next hn => exact Runs.tryAlloc (hsome hn) fun hg => hnone (.inr hg)

/-- An entry in the middle of an array. -/
theorem set_middle {α : Type} (done : List α) (x y : α) (rest : List α) :
    (done ++ x :: rest).set done.length y = done ++ y :: rest := by
  rw [List.set_append_right _ _ (Nat.le_refl _), Nat.sub_self]
  rfl

/-! ## Parsing -/

theorem parseVirtioFrameRate_runs (done : List FormatRange) (x : FormatRange) (rest : List FormatRange) :
    Runs False (⟨a, .rates (done ++ x :: rest)⟩ :: l) (parseVirtioFrameRate m (some a) done.length buf) fun r l' =>
      r = formatRangeSize ∧ l' = ⟨a, .rates (done ++ copyFmtRange m buf :: rest)⟩ :: l := by
  refine Runs.deref_some (Runs.load (Runs.lift_some (Runs.store ?_)))
  rw [set_middle]
  exact Runs.ret ⟨rfl, rfl⟩

/-- The rates fill their array. -/
theorem parseFrameRates_runs (m : Mem) (a : Addr) (buf : Nat) (done rest : List FormatRange) (offset : Nat) :
    Runs False (⟨a, .rates (done ++ rest)⟩ :: l) (parseFrameRates m (some a) buf rest.length done.length offset)
      fun r l' => r = offset + formatRangeSize * rest.length ∧
        l' = ⟨a, .rates (done ++ rangesAt m (buf + offset) rest.length)⟩ :: l := by
  induction rest generalizing done offset with
  | nil => exact Runs.ret ⟨rfl, rfl⟩
  | cons x rest ih =>
    have hrest := ih (done ++ [copyFmtRange m (buf + offset)]) (offset + formatRangeSize)
    simp only [List.append_assoc, List.singleton_append, List.length_append, List.length_singleton] at hrest
    refine Runs.bind (parseVirtioFrameRate_runs done x rest) ?_
    rintro _ _ ⟨rfl, rfl⟩
    refine Runs.mono hrest id ?_
    rintro r l' ⟨rfl, rfl⟩
    rw [List.length_cons, ← Nat.add_assoc buf]
    exact ⟨by rw [Nat.mul_succ]; omega, rfl⟩

/-- A frame fills its entry; rates it gets no memory for are written to a
null pointer. -/
theorem parseVirtioFrame_runs (m : Mem) (a : Addr) (buf : Nat) (granted : Bool) (done : List Frame) (x : Frame)
    (rest : List Frame) :
    Runs (¬(numRates m buf ≠ 0 → granted = true)) (⟨a, .frames (done ++ x :: rest)⟩ :: l)
      (parseVirtioFrame m granted (some a) done.length buf) fun r l' =>
        (numRates m buf ≠ 0 → granted = true) ∧ r = frameLen m buf ∧ ∃ h : HFrame, h.frame = frameAt m buf ∧
          l'.Perm (⟨a, .frames (done ++ h.entry :: rest)⟩ :: (h.cells ++ l)) := by
  have hofNat : UInt32.ofNat (numRates m buf) = m.le32 (buf + 32) := UInt32.ofNat_toNat
  refine Runs.deref_some (Runs.kcalloc (fun hn hg b => ?_) fun hnone => ?_)
  · refine Runs.perm (.swap _ _ _) (Runs.load (Runs.lift_some (Runs.store (Runs.perm (.swap _ _ _) ?_))))
    rw [set_middle]
    have hrates := parseFrameRates_runs (l := ⟨a, .frames (done ++
      ⟨copyFmtRange m buf, copyFmtRange m (buf + 16), m.le32 (buf + 32), some b⟩ :: rest)⟩ :: l) m b buf []
      (List.replicate (numRates m buf) noRange) formatFrameSize
    simp only [List.nil_append, List.length_nil, List.length_replicate] at hrates
    refine Runs.mono hrates False.elim ?_
    rintro r l' ⟨rfl, rfl⟩
    refine ⟨fun _ => hg, rfl, ⟨frameAt m buf, some b⟩, rfl, ?_⟩
    simp only [HFrame.entry, HFrame.cells, frameAt, length_entriesAt, hofNat]
    exact .swap _ _ _
  · refine Runs.load (Runs.lift_some (Runs.store ?_))
    rw [set_middle]
    by_cases hn : numRates m buf = 0
    · have hn' : (m.le32 (buf + 32)).toNat = 0 := hn
      rw [hn']
      refine Runs.ret ⟨fun h => absurd hn h, by simp only [frameLen, hn, Nat.mul_zero, Nat.add_zero],
        ⟨frameAt m buf, none⟩, rfl, ?_⟩
      simp only [HFrame.entry, HFrame.cells, frameAt, length_entriesAt, hofNat]
      exact .refl _
    · have hg := hnone.resolve_left hn
      obtain ⟨n, hn'⟩ := Nat.exists_eq_succ_of_ne_zero hn
      have hn'' : (m.le32 (buf + 32)).toNat = n + 1 := hn'
      rw [hn'']
      refine Runs.deref_none fun h => ?_
      exact absurd (hg.symm.trans (h hn)) (by decide)

theorem parseVirtioFrame_null {F : Prop} {granted : Bool} {idx : Nat} (hF : F) :
    Runs F l (parseVirtioFrame m granted none idx buf) fun _ _ => False := Runs.deref_none hF

/-- The frames fill their array, each with its rates. -/
theorem parseFrames_runs (m : Mem) (a : Addr) (buf : Nat) (rates : Nat → Bool) (done : List HFrame)
    (rest : List Frame) (offset : Nat) :
    Runs (¬FramesGranted m rates (buf + offset) rest.length done.length)
      (⟨a, .frames (done.map HFrame.entry ++ rest)⟩ :: (frameCells done ++ l))
      (parseFrames m rates (some a) buf rest.length done.length offset) fun r l' =>
        FramesGranted m rates (buf + offset) rest.length done.length ∧
        r = offset + entriesLen (frameLen m) (buf + offset) rest.length ∧
        ∃ hs : List HFrame, hs.map HFrame.frame = framesAt m (buf + offset) rest.length ∧
          l'.Perm (⟨a, .frames ((done ++ hs).map HFrame.entry)⟩ :: (frameCells (done ++ hs) ++ l)) := by
  induction rest generalizing done offset with
  | nil => exact Runs.ret ⟨trivial, rfl, [], rfl, by simp⟩
  | cons x rest ih =>
    have hframe := parseVirtioFrame_runs (l := frameCells done ++ l) m a (buf + offset) (rates done.length)
      (done.map HFrame.entry) x rest
    rw [List.length_map] at hframe
    simp only [List.length_cons, FramesGranted, parseFrames, entriesLen, entriesAt]
    refine Runs.bind (Runs.mono hframe (fun h hc => h hc.1) fun _ _ hq => hq) ?_
    rintro r l' ⟨hg, rfl, h, hh, hperm⟩
    have hlen := frameLen_ne m (buf + offset)
    have hrest := ih (done ++ [h]) (offset + frameLen m (buf + offset))
    rw [if_neg hlen]
    simp only [List.map_append, List.map_cons, List.map_nil, List.append_assoc, List.singleton_append,
      List.length_append, List.length_singleton, ← Nat.add_assoc] at hrest
    refine Runs.perm (hperm.trans ?_) (Runs.mono hrest (fun hf hc => hf hc.2) ?_)
    · simp only [frameCells, List.flatMap_append, List.flatMap_cons, List.flatMap_nil, List.append_nil]
      refine List.Perm.cons _ ?_
      rw [← List.append_assoc]
      exact List.perm_append_comm.append_right l
    · rintro r l' ⟨hgs, rfl, hs, hhs, hperm⟩
      refine ⟨⟨hg, hgs⟩, by omega, h :: hs, by rw [List.map_cons, hh, hhs], ?_⟩
      simpa only [List.map_append, List.map_cons, List.append_assoc, List.cons_append, List.nil_append] using hperm

/-- A format is filled in, with its frames; frames it gets no memory for are
written to a null pointer. -/
theorem parseVirtioFmt_runs (m : Mem) (env : FormatEnv) (fmt : Addr) (buf : Nat) :
    Runs (¬FmtGranted m env buf) (⟨fmt, .format noFormat⟩ :: l) (parseVirtioFmt m env fmt buf) fun r l' =>
      FmtGranted m env buf ∧ r = fmtLen m buf ∧
        ∃ h : HFormat, h.addr = fmt ∧ h.meaning = fmtAt m buf ∧ l'.Perm (h.cells ++ l) := by
  have hofNat : UInt32.ofNat (numFrames m buf) = m.le32 (buf + 20) := UInt32.ofNat_toNat
  have hlt : numFrames m buf < 4294967296 := UInt32.toNat_lt _
  refine Runs.kcalloc (fun hn hg a => ?_) fun hnone => ?_
  · refine Runs.perm (.swap _ _ _) (Runs.store ?_)
    have hframes := parseFrames_runs (l := ⟨fmt, .format ⟨formatToV4l2 (m.le32 (buf + 8)), m.le64 buf,
      m.le32 (buf + 12), m.le32 (buf + 20), some a⟩⟩ :: l) m a buf env.rates []
      (List.replicate (numFrames m buf) noFrame) formatDescSize
    simp only [List.length_replicate, List.length_nil, List.map_nil, List.nil_append, frameCells,
      List.flatMap_nil] at hframes
    refine Runs.perm (.swap _ _ _) (Runs.mono hframes (fun hf hc => hf hc.2) ?_)
    rintro r l' ⟨hgs, rfl, hs, hhs, hperm⟩
    have hlen : hs.length = numFrames m buf := by
      have hlen := congrArg List.length hhs
      rwa [List.length_map, length_entriesAt] at hlen
    refine ⟨⟨fun _ => hg, hgs⟩, rfl, ⟨fmt, formatToV4l2 (m.le32 (buf + 8)), m.le64 buf, m.le32 (buf + 12), some a, hs,
      (fun h => by cases h), hlen ▸ hlt⟩, rfl, by simp only [HFormat.meaning, fmtAt, hhs], hperm.trans ?_⟩
    simp only [HFormat.cells, HFormat.entry, hlen, hofNat, frameCells]
    exact (List.perm_middle.cons _).trans (.swap _ _ _)
  · refine Runs.store ?_
    by_cases hn : numFrames m buf = 0
    · have hn' : (m.le32 (buf + 20)).toNat = 0 := hn
      rw [hn']
      refine Runs.ret ⟨⟨fun h => absurd hn h, by rw [hn]; trivial⟩, by simp only [fmtLen, hn, entriesLen]; rfl,
        ⟨fmt, formatToV4l2 (m.le32 (buf + 8)), m.le64 buf, m.le32 (buf + 12), none, [], fun _ => rfl, by decide⟩, rfl,
        by simp only [HFormat.meaning, fmtAt, hn, entriesAt, List.map_nil], ?_⟩
      have hzero : m.le32 (buf + 20) = 0 := by rw [← hofNat, hn]; rfl
      rw [hzero]
      exact .refl _
    · have hg := hnone.resolve_left hn
      obtain ⟨n, hn'⟩ := Nat.exists_eq_succ_of_ne_zero hn
      have hn'' : (m.le32 (buf + 20)).toNat = n + 1 := hn'
      rw [hn'']
      refine Runs.bind (parseVirtioFrame_null fun h => ?_) fun _ _ hf => hf.elim
      exact absurd (hg.symm.trans (h.1 hn)) (by decide)

/-! ## The lists -/

/-- The lists in the device structure, with the formats on them. -/
structure HLists where
  input : List HFormat
  output : List HFormat

def HLists.lists (vvd : HLists) : Lists := ⟨vvd.input.map HFormat.addr, vvd.output.map HFormat.addr⟩

def HLists.cells (vvd : HLists) : List (Cell Object) := fmtCells vvd.input ++ fmtCells vvd.output

def HLists.get (vvd : HLists) : Queue → List HFormat
  | .input => vvd.input
  | .output => vvd.output

def HLists.set (vvd : HLists) (hs : List HFormat) : Queue → HLists
  | .input => { vvd with input := hs }
  | .output => { vvd with output := hs }

theorem HLists.lists_set_cons (vvd : HLists) (h : HFormat) (q : Queue) :
    (vvd.set (h :: vvd.get q) q).lists = vvd.lists.add h.addr q := by
  cases q <;> rfl

theorem HLists.cells_set_cons (vvd : HLists) (h : HFormat) (q : Queue) :
    (vvd.set (h :: vvd.get q) q).cells.Perm (h.cells ++ vvd.cells) := by
  cases q with
  | input =>
    simp only [set, get, cells, fmtCells, List.flatMap_cons, List.append_assoc]
    exact .refl _
  | output =>
    simp only [set, get, cells, fmtCells, List.flatMap_cons]
    exact List.perm_append_comm_assoc _ _ _

theorem freeFmts_runs (vvd : HLists) : Runs False (vvd.cells ++ l) (freeFmts vvd.lists) fun r l' =>
    r = .empty ∧ l' = l := by
  have hinput := freeFmt_runs (l := fmtCells vvd.output ++ l) vvd.input
  rw [← List.append_assoc] at hinput
  refine Runs.bind hinput ?_
  rintro _ _ rfl
  refine Runs.bind (freeFmt_runs vvd.output) ?_
  rintro _ _ rfl
  exact Runs.ret ⟨rfl, rfl⟩

/-- What the parse of `n` formats comes to: they are put in front of a list
one by one, or nothing is left of either list. -/
def Parsed (fmts : List VideoFormat) (all : Prop) (q : Queue) (vvd : HLists) (l : List (Cell Object)) :
    Except Errno Unit × Lists → List (Cell Object) → Prop
  | (.ok _, lists), l' => all ∧ ∃ hs : List HFormat, hs.map HFormat.meaning = fmts.reverse ∧
      lists = (vvd.set (hs ++ vvd.get q) q).lists ∧ l'.Perm ((vvd.set (hs ++ vvd.get q) q).cells ++ l)
  | (.error _, lists), l' => ¬all ∧ lists = .empty ∧ l' = l

/-- The formats after the first. -/
theorem Parsed.cons {fmts : List VideoFormat} {fmt : VideoFormat} {first all : Prop} {q : Queue} {vvd : HLists}
    {h : HFormat} (hh : h.meaning = fmt) (hfirst : first) {r : Except Errno Unit × Lists} {l' : List (Cell Object)}
    (hp : Parsed fmts all q (vvd.set (h :: vvd.get q) q) l r l') : Parsed (fmt :: fmts) (first ∧ all) q vvd l r l' := by
  obtain ⟨e | u, lists⟩ := r
  · exact ⟨fun ha => hp.1 ha.2, hp.2⟩
  · obtain ⟨hall, hs, hhs, hlists, hperm⟩ := hp
    have hset : (vvd.set (h :: vvd.get q) q).set (hs ++ (vvd.set (h :: vvd.get q) q).get q) q =
        vvd.set ((hs ++ [h]) ++ vvd.get q) q := by
      rw [List.append_assoc, List.singleton_append]
      cases q <;> rfl
    rw [hset] at hlists hperm
    exact ⟨⟨hfirst, hall⟩, hs ++ [h], by simp [hhs, hh], hlists, hperm⟩

theorem parseVirtioFmts_runs (m : Mem) (env : Nat → FormatEnv) (q : Queue) (n idx offset : Nat) (vvd : HLists) :
    Runs (¬FmtsGranted m env offset n idx) (vvd.cells ++ l) (parseVirtioFmts m env q n idx offset vvd.lists)
      fun r l' => FmtsGranted m env offset n idx ∧ Parsed (fmtsAt m offset n) (AllAlloc env n idx) q vvd l r l' := by
  induction n generalizing idx offset vvd with
  | zero =>
    have hset : vvd.set ([] ++ vvd.get q) q = vvd := by cases q <;> rfl
    exact Runs.ret ⟨trivial, trivial, [], rfl, by rw [hset], by rw [hset]⟩
  | succ n ih =>
    refine Runs.tryAlloc (fun halloc fmt => ?_) fun halloc => ?_
    · simp only [FmtsGranted, halloc, true_implies]
      refine Runs.bind (Runs.mono (parseVirtioFmt_runs m (env idx) fmt offset) (fun h hc => h hc.1) fun _ _ hq => hq) ?_
      rintro _ l' ⟨hg, rfl, h, rfl, hh, hperm⟩
      have hlen := fmtLen_ne m offset
      have hrest := ih (idx + 1) (offset + fmtLen m offset) (vvd.set (h :: vvd.get q) q)
      rw [HLists.lists_set_cons] at hrest
      rw [if_neg hlen]
      refine Runs.perm (hperm.trans ?_) (Runs.mono hrest (fun hf hc => hf hc.2) ?_)
      · rw [← List.append_assoc]
        exact (vvd.cells_set_cons h q).symm.append_right l
      · rintro r l' ⟨hgs, hp⟩
        have hcons : Parsed (fmtAt m offset :: _) ((env idx).alloc = true ∧ _) q vvd l r l' := .cons hh halloc hp
        exact ⟨⟨hg, hgs⟩, hcons⟩
    · have hno : ¬(env idx).alloc = true := by simp [halloc]
      refine Runs.bind (Runs.mono (freeFmts_runs vvd) False.elim fun _ _ hq => hq) ?_
      rintro _ _ ⟨rfl, rfl⟩
      exact Runs.ret ⟨fun h => absurd h hno, fun h => hno h.1, rfl, rfl⟩

theorem parseVirtioCapability_runs (r : Reply) (q : Queue) (vvd : HLists) :
    Runs (¬r.Granted) (vvd.cells ++ l) (parseVirtioCapability r.mem r.env q vvd.lists) fun res l' =>
      r.Granted ∧ (r.mem.le32 8 = 0 → res = (.error .einval, vvd.lists) ∧ l' = vvd.cells ++ l) ∧
        (r.mem.le32 8 ≠ 0 → Parsed (listed r.mem) r.Parses q vvd l res l') := by
  unfold parseVirtioCapability
  split
  · next h0 =>
    have hg : r.Granted := by
      unfold Reply.Granted
      rw [h0]
      trivial
    exact Runs.ret ⟨hg, fun _ => ⟨rfl, rfl⟩, fun h => absurd h0 h⟩
  · next h0 =>
    refine Runs.mono (parseVirtioFmts_runs r.mem r.env q _ 0 capabilityRespSize vvd) id ?_
    rintro res l' ⟨hg, hp⟩
    refine ⟨hg, fun h => absurd h h0, fun _ => ?_⟩
    have hiff : r.Parses ↔ AllAlloc r.env (r.mem.le32 8).toNat 0 := and_iff_right h0
    rw [hiff]
    exact hp

/-! ## The whole run -/

/-- The arrays that are asked for are allocated, in both replies. -/
def Granted (input : Option Reply) (output : Reply) : Prop :=
  (∀ i ∈ input, i.Granted) ∧ ((∀ i ∈ input, i.Parses) → output.Granted)

/-- The input formats are there, and the output reply has none. -/
def Leaks (input : Option Reply) (output : Reply) : Prop := (∃ i ∈ input, i.Parses) ∧ output.mem.le32 8 = 0

/-- The formats that are left after an error. -/
def leftover (input : Option Reply) : List VideoFormat := input.elim [] fun i => (listed i.mem).reverse

/-- The outputs are parsed after the inputs, whose list goes with theirs on a
failure unless the reply was refused. -/
theorem parseOutputs_runs (r : Reply) (vvd : HLists) (hout : vvd.output = []) :
    Runs (¬r.Granted) (vvd.cells ++ l) (parseVirtioCapability r.mem r.env .output vvd.lists) fun res l' =>
      r.Granted ∧ ∃ vvd' : HLists, res.2 = vvd'.lists ∧ l'.Perm (vvd'.cells ++ l) ∧
        (res.1 = .ok () → r.Parses ∧ vvd'.input = vvd.input ∧
          vvd'.output.map HFormat.meaning = (listed r.mem).reverse) ∧
        (res.1 ≠ .ok () → ¬r.Parses ∧ vvd'.output = [] ∧ vvd'.input = if r.mem.le32 8 = 0 then vvd.input else []) := by
  refine Runs.mono (parseVirtioCapability_runs r .output vvd) id ?_
  rintro ⟨res, lists⟩ l' ⟨hg, hnone, hsome⟩
  refine ⟨hg, ?_⟩
  by_cases h0 : r.mem.le32 8 = 0
  · obtain ⟨heq, rfl⟩ := hnone h0
    cases heq
    exact ⟨vvd, rfl, .refl _, (fun h => by cases h), fun _ => ⟨fun h => h.1 h0, hout, by rw [if_pos h0]⟩⟩
  · have hp := hsome h0
    cases res with
    | error e =>
      obtain ⟨hno, rfl, rfl⟩ := hp
      exact ⟨⟨[], []⟩, rfl, .refl _, (fun h => by cases h), fun _ => ⟨hno, rfl, by rw [if_neg h0]⟩⟩
    | ok u =>
      obtain ⟨hall, hs, hhs, hlists, hperm⟩ := hp
      rw [HLists.get, hout, List.append_nil] at hlists hperm
      exact ⟨vvd.set hs .output, hlists, hperm, fun _ => ⟨hall, rfl, hhs⟩, fun h => absurd rfl h⟩

/-- The formats on the heap after both replies are those they list; after an
error none, or the input formats. -/
theorem parseVirtioCapabilities_runs (input : Option Reply) (output : Reply) :
    Runs (¬Granted input output) l (parseVirtioCapabilities input output) fun r l' => Granted input output ∧
      ∃ vvd : HLists, r.2 = vvd.lists ∧ l'.Perm (vvd.cells ++ l) ∧
        (r.1 = .ok () → (∀ i ∈ input, i.Parses) ∧ output.Parses ∧ vvd.input.map HFormat.meaning = leftover input ∧
          vvd.output.map HFormat.meaning = (listed output.mem).reverse) ∧
        (r.1 ≠ .ok () → ¬((∀ i ∈ input, i.Parses) ∧ output.Parses) ∧ vvd.output = [] ∧
          (Leaks input output → vvd.input.map HFormat.meaning = leftover input) ∧
          (¬Leaks input output → vvd.input = [])) := by
  cases input with
  | none =>
    have hgranted : Granted none output ↔ output.Granted := by simp [Granted]
    rw [hgranted]
    have hret : Runs (¬output.Granted) l (pure (Except.ok (), Lists.empty) : HeapM Object (Except Errno Unit × Lists))
        fun r l' => r = (.ok (), .empty) ∧ l' = l := Runs.ret ⟨rfl, rfl⟩
    refine Runs.bind hret ?_
    rintro _ _ ⟨rfl, rfl⟩
    refine Runs.mono (parseOutputs_runs output ⟨[], []⟩ rfl) id ?_
    rintro r l' ⟨hg, vvd, hlists, hperm, hok, herr⟩
    refine ⟨hg, vvd, hlists, hperm, fun h => ?_, fun h => ?_⟩
    · obtain ⟨hp, hin, hout⟩ := hok h
      exact ⟨by simp, hp, by rw [hin]; rfl, hout⟩
    · obtain ⟨hno, hout, hin⟩ := herr h
      have hnil : vvd.input = [] := by rw [hin]; split <;> rfl
      exact ⟨fun hp => hno hp.2, hout, fun _ => by rw [hnil]; rfl, fun _ => hnil⟩
  | some i =>
    have hgranted : Granted (some i) output ↔ i.Granted ∧ (i.Parses → output.Granted) := by simp [Granted]
    have hleaks : Leaks (some i) output ↔ i.Parses ∧ output.mem.le32 8 = 0 := by simp [Leaks]
    have hall : (∀ j ∈ some i, j.Parses) ↔ i.Parses := by simp
    rw [hgranted, hleaks, hall]
    refine Runs.bind (Runs.mono (parseVirtioCapability_runs i .input ⟨[], []⟩) (fun h hc => h hc.1) fun _ _ hq => hq) ?_
    rintro ⟨res, lists⟩ l' ⟨hg, hnone, hsome⟩
    have hfailed : ∀ e, res = .error e → ¬i.Parses ∧ lists = .empty ∧ l' = l := by
      intro e he
      by_cases h0 : i.mem.le32 8 = 0
      · obtain ⟨heq, rfl⟩ := hnone h0
        cases heq
        exact ⟨fun h => h.1 h0, rfl, rfl⟩
      · have hp := hsome h0
        rw [he] at hp
        exact hp
    cases res with
    | error e =>
      obtain ⟨hno, rfl, rfl⟩ := hfailed e rfl
      exact Runs.ret ⟨⟨hg, fun h => absurd h hno⟩, ⟨[], []⟩, rfl, .refl _, (fun h => by cases h),
        fun _ => ⟨fun h => hno h.1, rfl, fun h => absurd h.1 hno, fun _ => rfl⟩⟩
    | ok u =>
      have h0 : i.mem.le32 8 ≠ 0 := by
        intro h0
        cases (hnone h0).1
      obtain ⟨hparses, hs, hhs, hlists, hperm⟩ := hsome h0
      have hset : (⟨[], []⟩ : HLists).set (hs ++ (⟨[], []⟩ : HLists).get .input) .input = ⟨hs, []⟩ := by
        simp only [HLists.set, HLists.get, List.append_nil]
      rw [hset] at hlists hperm
      subst hlists
      refine Runs.perm hperm (Runs.mono (parseOutputs_runs output ⟨hs, []⟩ rfl) (fun h hc => h (hc.2 hparses)) ?_)
      rintro r l'' ⟨hgo, vvd, hlists, hperm, hok, herr⟩
      refine ⟨⟨hg, fun _ => hgo⟩, vvd, hlists, hperm, fun h => ?_, fun h => ?_⟩
      · obtain ⟨hp, hin, hout⟩ := hok h
        exact ⟨hparses, hp, by rw [hin]; exact hhs, hout⟩
      · obtain ⟨hno, hout, hin⟩ := herr h
        refine ⟨fun hp => hno hp.2, hout, fun hl => ?_, fun hl => ?_⟩
        · rw [hin, if_pos hl.2]
          exact hhs
        · rw [hin, if_neg fun h0 => hl ⟨hparses, h0⟩]

/-- The run ends without a fault, and what is live then was so before: all
that it allocated is freed, once. -/
def CleansUp (input : Option Reply) (output : Reply) (h : Heap Object) : Prop :=
  ∃ r h', parseThenClean input output h = some (r, h') ∧ h'.Owns h.cells.entries

theorem parseThenClean_runs (input : Option Reply) (output : Reply) :
    Runs (¬Granted input output) l (parseThenClean input output) fun _ l' => Granted input output ∧
      ∃ hs : List HFormat, l'.Perm (fmtCells hs ++ l) ∧ (Leaks input output → hs.map HFormat.meaning = leftover input) ∧
        (¬Leaks input output → hs = []) := by
  refine Runs.bind (Runs.mono (parseVirtioCapabilities_runs input output) id fun _ _ hq => hq) ?_
  rintro ⟨res, lists⟩ l' ⟨hg, vvd, rfl, hperm, hok, herr⟩
  cases res with
  | error e =>
    obtain ⟨-, hout, hleak, hno⟩ := herr fun h => by cases h
    refine Runs.ret ⟨hg, vvd.input, ?_, hleak, hno⟩
    simpa only [HLists.cells, hout, fmtCells, List.flatMap_nil, List.append_nil] using hperm
  | ok u =>
    obtain ⟨-, hparses, -, -⟩ := hok rfl
    refine Runs.perm hperm (Runs.bind (Runs.mono (freeFmts_runs vvd) False.elim fun _ _ hq => hq) ?_)
    rintro _ _ ⟨rfl, rfl⟩
    exact Runs.ret ⟨hg, [], .refl _, fun h => absurd h.2 hparses.1, fun _ => rfl⟩

theorem listed_ne_nil {m : Mem} (h : m.le32 8 ≠ 0) : listed m ≠ [] := by
  have hn : (m.le32 8).toNat ≠ 0 := fun h0 => h (UInt32.toNat_inj.mp h0)
  obtain ⟨n, hn⟩ := Nat.exists_eq_succ_of_ne_zero hn
  rw [listed, hn]
  exact List.cons_ne_nil _ _

/-- **The cleanup of the formats.** A device's formats are all freed, each
once, without a fault, exactly when every array of frames or rates that is
asked for and not empty is allocated, and it is not the case that the input
formats are there and the output reply lists none. -/
theorem capabilities_cleanUp (input : Option Reply) (output : Reply) (h : Heap Object) :
    CleansUp input output h ↔ Granted input output ∧ ¬Leaks input output := by
  have hrun : Runs (¬Granted input output) h.cells.entries _ _ := parseThenClean_runs input output
  have hrun := hrun h (.refl _)
  constructor
  · rintro ⟨r, h', he, howns⟩
    rw [he] at hrun
    obtain ⟨l', ho, hg, hs, hperm, hleak, -⟩ := hrun
    refine ⟨hg, fun hl => ?_⟩
    have hlen := ((howns.symm.trans ho).trans hperm).length_eq
    have hmean := congrArg List.length (hleak hl)
    obtain ⟨⟨i, rfl, hp⟩, -⟩ := hl
    have hpos := List.length_pos_of_ne_nil (listed_ne_nil hp.1)
    simp only [leftover, Option.elim_some, List.length_map, List.length_reverse] at hmean
    obtain ⟨x, rest, rfl⟩ := List.exists_cons_of_length_pos (hmean ▸ hpos)
    simp only [fmtCells, List.flatMap_cons, HFormat.cells, List.length_append, List.length_cons] at hlen
    omega
  · rintro ⟨hg, hl⟩
    cases he : parseThenClean input output h with
    | none =>
      rw [he] at hrun
      exact (hrun hg).elim
    | some r =>
      rw [he] at hrun
      obtain ⟨l', ho, -, hs, hperm, -, hno⟩ := hrun
      obtain rfl := hno hl
      exact ⟨r.1, r.2, he, ho.trans hperm⟩

/-- A format without frames, from a device that has no more to say. -/
def bareReply (numDescs : UInt8) : Reply :=
  ⟨fun i => if i = 8 then numDescs else 0, fun _ => ⟨true, true, fun _ => true⟩⟩

/-- One input format, which is left when the output reply lists none. -/
example : (parseThenClean (some (bareReply 1)) (bareReply 0) (.empty _)).map (fun r => r.2.cells.entries.length) =
    some 1 := by decide +kernel

/-! ## The formats as values -/

section

open Access

variable {n : Nat}

/-- Every allocation is granted. -/
abbrev granted : Nat → Bool := fun _ => true

/-- The loop over entries, given the parser of one. -/
theorem parseEntries_gives {α : Type} {parse : Nat → Access (Nat × α)} {len : Nat → Nat} {entry : Nat → α}
    (hlen : ∀ pos, len pos ≠ 0) (h : ∀ pos n, Gives granted (parse pos) n fun r _ => r = (len pos, entry pos))
    (buf k offset : Nat) : Gives granted (parseEntries parse buf k offset) n fun r _ =>
      r = some (offset + entriesLen len (buf + offset) k, entriesAt len entry (buf + offset) k) := by
  induction k generalizing offset n with
  | zero => exact Gives.ret rfl
  | succ k ih =>
    refine Gives.bind ?_
    obtain ⟨r, hv, rfl⟩ := h (buf + offset) n
    refine ⟨_, hv, ?_⟩
    dsimp only
    rw [if_neg (hlen _)]
    refine Gives.bind ?_
    obtain ⟨r, hv, rfl⟩ := ih (n := (parse (buf + offset) granted n).allocs) (offset + len (buf + offset))
    refine ⟨_, hv, Gives.ret ?_⟩
    simp only [Option.map_some, entriesLen, entriesAt, Nat.add_assoc]

theorem entriesLen_const (k pos n : Nat) : entriesLen (fun _ => k) pos n = k * n := by
  induction n generalizing pos with
  | zero => rfl
  | succ n ih => rw [entriesLen, ih, Nat.mul_succ, Nat.add_comm]

theorem parseVirtioFrame_gives (m : Mem) (pos n : Nat) :
    Gives granted (VirtioVideo.parseVirtioFrame m true pos) n fun r _ => r = (frameLen m pos, frameAt m pos) := by
  refine Gives.bind (Gives.read (Gives.bind (Gives.ret (Gives.bind (Gives.alloc (Gives.bind ?_))))))
  obtain ⟨r, hv, rfl⟩ := parseEntries_gives (n := n + 1) (fun _ => by decide) (fun pos n =>
    (Gives.bind (Gives.read (Gives.bind (Gives.ret (Gives.ret rfl)))) :
      Gives granted (VirtioVideo.parseVirtioFrameRate m true pos) n
        fun r _ => r = (formatRangeSize, copyFmtRange m pos)))
    pos (numRates m pos) formatFrameSize
  refine ⟨_, hv, Gives.ret ?_⟩
  rw [entriesLen_const]
  rfl

theorem parseVirtioFmt_gives (m : Mem) (pos n : Nat) :
    Gives granted (VirtioVideo.parseVirtioFmt m pos) n fun r _ => r = (fmtLen m pos, fmtAt m pos) := by
  refine Gives.bind (Gives.read (Gives.bind (Gives.alloc (Gives.bind ?_))))
  obtain ⟨r, hv, rfl⟩ := parseEntries_gives (n := n + 1) (frameLen_ne m) (parseVirtioFrame_gives m) pos
    (numFrames m pos) formatDescSize
  exact ⟨_, hv, Gives.ret rfl⟩

theorem parseVirtioFmts_gives (m : Mem) (k offset : Nat) (fmtList : List VideoFormat) :
    Gives granted (VirtioVideo.parseVirtioFmts m k offset fmtList) n fun r _ =>
      r = .ok ((fmtsAt m offset k).reverse ++ fmtList) := by
  induction k generalizing offset fmtList n with
  | zero => exact Gives.ret rfl
  | succ k ih =>
    refine Gives.bind (Gives.alloc ?_)
    rw [if_pos rfl]
    refine Gives.bind ?_
    obtain ⟨r, hv, rfl⟩ := parseVirtioFmt_gives m offset (n + 1)
    refine ⟨_, hv, ?_⟩
    dsimp only
    rw [if_neg (fmtLen_ne m offset)]
    obtain ⟨r, hv, rfl⟩ := ih (n := _) (offset + fmtLen m offset) (fmtAt m offset :: fmtList)
    exact ⟨_, hv, by simp [entriesAt]⟩

/-- The value of a reply that lists formats. -/
theorem parseVirtioCapability_gives {m : Mem} (h : m.le32 8 ≠ 0) :
    Gives granted (VirtioVideo.parseVirtioCapability m) n fun r _ => r = .ok ((listed m).reverse, m.le32 8) := by
  refine Gives.bind (Gives.read ?_)
  rw [if_neg h]
  refine Gives.bind ?_
  obtain ⟨r, hv, rfl⟩ := parseVirtioFmts_gives (n := n) m (m.le32 8).toNat capabilityRespSize []
  refine ⟨_, hv, Gives.ret ?_⟩
  rw [List.append_nil]
  rfl

/-- **The heap holds what the parser computes.** When the parse of the
replies succeeds on the heap, whatever was allocated before, the formats in
its lists are the ones the parser on values gives for the same replies, and
their cells are all that it has added. -/
theorem capabilities_refine {input : Option Reply} {output : Reply} {h h' : Heap Object} {lists : Lists}
    (hrun : parseVirtioCapabilities input output h = some ((.ok (), lists), h')) :
    ∃ vvd : HLists, lists = vvd.lists ∧ h'.Owns (vvd.cells ++ h.cells.entries) ∧
      ∃ numInputFmts numOutputFmts, (VirtioVideo.parseVirtioCapabilities .empty (input.map Reply.mem) (some output.mem)
        (fun _ => true) 0).val = some (.ok ⟨vvd.input.map HFormat.meaning, numInputFmts,
          vvd.output.map HFormat.meaning, numOutputFmts⟩) := by
  have hruns : Runs (¬Granted input output) h.cells.entries _ _ := parseVirtioCapabilities_runs input output
  have hruns := hruns h (.refl _)
  rw [hrun] at hruns
  obtain ⟨l', ho, -, vvd, hlists, hperm, hok, -⟩ := hruns
  obtain ⟨hin, hout, hinputs, houtputs⟩ := hok rfl
  refine ⟨vvd, hlists, ho.trans hperm, ?_⟩
  rw [hinputs, houtputs]
  suffices hg : ∃ numInputFmts numOutputFmts, Gives granted (VirtioVideo.parseVirtioCapabilities .empty
      (input.map Reply.mem) (some output.mem)) 0 fun r _ =>
        r = .ok ⟨leftover input, numInputFmts, (listed output.mem).reverse, numOutputFmts⟩ by
    obtain ⟨numInputFmts, numOutputFmts, hg⟩ := hg
    exact ⟨numInputFmts, numOutputFmts, hg.val⟩
  cases input with
  | none =>
    refine ⟨0, output.mem.le32 8, Gives.bind (Gives.ret (Gives.bind ?_))⟩
    obtain ⟨r, hv, rfl⟩ := parseVirtioCapability_gives (n := 0) hout.1
    exact ⟨_, hv, Gives.ret rfl⟩
  | some i =>
    refine ⟨i.mem.le32 8, output.mem.le32 8, Gives.bind ?_⟩
    obtain ⟨r, hv, rfl⟩ := parseVirtioCapability_gives (n := 0) (hin i rfl).1
    refine ⟨_, hv, Gives.bind ?_⟩
    obtain ⟨r, hv, rfl⟩ := parseVirtioCapability_gives (n := _) hout.1
    exact ⟨_, hv, Gives.ret rfl⟩

/-- A format with a frame that has a rate, from a device that has no more to say. -/
def frameReply : Reply :=
  ⟨fun i => if i = 8 ∨ i = 36 ∨ i = 72 then 1 else 0, fun _ => ⟨true, true, fun _ => true⟩⟩

/-- The format, its frames and its rates are three cells. -/
theorem capabilities_refine_frame : ∃ (vvd : HLists) (h' : Heap Object), vvd.lists = ⟨[], [0]⟩ ∧
    h'.cells.entries.length = 3 ∧ h'.Owns (vvd.cells ++ (Heap.empty Object).cells.entries) := by
  have hrun : (parseVirtioCapabilities none frameReply (.empty _)).map
      (fun r => (r.1, r.2.cells.entries.length)) = some ((.ok (), ⟨[], [0]⟩), 3) := by
    decide +kernel
  obtain ⟨⟨r, h'⟩, hr, hrest⟩ := Option.map_eq_some_iff.mp hrun
  obtain ⟨rfl, hlen⟩ := Prod.mk.inj hrest
  obtain ⟨vvd, hlists, howns, -⟩ := capabilities_refine hr
  exact ⟨vvd, h', hlists.symm, hlen, howns⟩

end

end Agl.VirtioVideo.CapsHeap
