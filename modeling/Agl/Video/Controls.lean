/-
The records of the menu controls (`virtio_video_parse_virtio_control` and
`virtio_video_clean_control`), from their allocation until they are freed.

A coded format whose profiles or levels the device answers with none is left
with a null pointer, which every later cleanup goes through
(`parseThenClean_cleansUp`). The parse of one reply is that of `Caps`, with
its records on a heap (`parseControl_runs`).
-/
import Agl.Lib.Heap
import Agl.Video.CmdFacts
import Agl.Video.Menu
import Mathlib.Tactic.Tauto

namespace Agl.VirtioVideo.Controls

open Heap HeapM

/-! ## Objects -/

/-- The controls a format has a record for. -/
inductive Control
  | profile | level
  deriving DecidableEq, Repr

def Control.toV4l2 : Control → UInt32 → UInt32
  | .profile => profileToV4l2
  | .level => levelToV4l2

/-- `struct video_control_format` -/
structure ControlFormat where
  format : UInt32
  profile : Ptr
  level : Ptr
  deriving DecidableEq, Repr

def ControlFormat.get (f : ControlFormat) : Control → Ptr
  | .profile => f.profile
  | .level => f.level

def ControlFormat.set (f : ControlFormat) (p : Ptr) : Control → ControlFormat
  | .profile => { f with profile := p }
  | .level => { f with level := p }

/-- `struct video_control_fmt_data`, its entries elsewhere -/
structure FmtData where
  min : UInt32
  max : UInt32
  num : UInt32
  skipMask : UInt32
  entries : Ptr
  deriving DecidableEq, Repr

/-- What is allocated. -/
inductive Object
  | format (f : ControlFormat)
  | fmtData (d : FmtData)
  | entries (l : List UInt32)
  | respBuf (m : Mem)

def Object.asFormat : Object → Option ControlFormat
  | .format f => some f
  | _ => none

def Object.asFmtData : Object → Option FmtData
  | .fmtData d => some d
  | _ => none

def Object.asRespBuf : Object → Option Mem
  | .respBuf m => some m
  | _ => none

/-- What the parse of a control meets: its allocations, in order, and its
query between the first and the second. -/
structure Query where
  respAlloc : Bool
  exchange : Exchange
  recordAlloc : Bool
  entriesAlloc : Bool

/-- What the parse of a coded format meets. -/
structure FormatEnv where
  alloc : Bool
  profile : Query
  level : Query

/-! ## Parsing -/

/-- `MAX_INLINE_RESP_SIZE` -/
def maxInlineRespSize : Nat := 298

/-- `virtio_video_query_control_profile`, `virtio_video_query_control_level`.
A reply without a buffer goes into the vbuf, if it is small. -/
def queryControl (respSize : Nat) (respBuf : Ptr) (x : Exchange) : HeapM Object (Except Errno Unit) := do
  -- `BUG_ON(!vbuf->resp_buf)`
  if x.hasVbuf ∧ respBuf = none ∧ maxInlineRespSize < respSize then fault
  else
    match respBuf, x.reply with
    | some buf, some m =>
      store buf (.respBuf m)
      return x.result
    | _, _ => return x.result

/-- The record and the entries of a reply that reports `num` values. -/
def parseValues (c : Control) (q : Query) (fmt : Addr) (m : Mem) (num : UInt32) : HeapM Object (Except Errno Unit) := do
  let record ← tryAlloc q.recordAlloc (.fmtData ⟨0, 0, 0, 0, none⟩)
  let f ← lift (← load fmt).asFormat
  store fmt (.format (f.set record c))
  match record with
  | none => return .error .enomem
  | some data =>
    match ← tryAlloc q.entriesAlloc (.entries (List.replicate num.toNat 0)) with
    | none =>
      -- the pointer in the format stays
      free data
      return .error .enomem
    | some entries =>
      let acc ← lift (parseControlEntries c.toV4l2 m num.toNat (controlRespSize + controlRespNumSize)
        { entries := [], mask := 0, max := 0, min := 0xffffffff } (fun _ => true) 0).val
      store entries (.entries acc.entries)
      store data (.fmtData ⟨acc.min, acc.max, num, ~~~acc.mask, some entries⟩)
      return .ok ()

/-- From the query up to the label `prf_err`, `lvl_err`. -/
def parseReply (c : Control) (respSize : Nat) (q : Query) (fmt : Addr) (respBuf : Ptr) :
    HeapM Object (Except Errno Unit) := do
  match ← queryControl respSize respBuf q.exchange with
  | .error e => return .error e
  | .ok () =>
    let m ← lift (← load (← deref respBuf)).asRespBuf
    if m.le32 controlRespSize = 0 then return .ok () else parseValues c q fmt m (m.le32 controlRespSize)

/-- `virtio_video_parse_control_profiles` and `virtio_video_parse_control_levels`;
`resp_size` is `vvd->max_resp_len`. -/
def parseControl (c : Control) (respSize : Nat) (q : Query) (fmt : Addr) : HeapM Object (Except Errno Unit) := do
  -- `IS_ERR` does not see a null pointer
  let respBuf ← tryAlloc q.respAlloc (.respBuf fun _ => 0)
  let ret ← parseReply c respSize q fmt respBuf
  freePtr respBuf
  return ret

/-- `virtio_video_parse_control_profiles` -/
def parseControlProfiles : Nat → Query → Addr → HeapM Object (Except Errno Unit) := parseControl .profile

/-- `virtio_video_parse_control_levels` -/
def parseControlLevels : Nat → Query → Addr → HeapM Object (Except Errno Unit) := parseControl .level

/-! ## Cleaning up -/

/-- `virtio_video_free_control_fmt_data` -/
def freeControlFmtData (data : Ptr) : HeapM Object Unit := do
  let a ← deref data
  let d ← lift (← load a).asFmtData
  freePtr d.entries
  free a

/-- `virtio_video_free_control_formats`, over `vvd->controls_fmt_list` -/
def freeControlFormats : List Addr → HeapM Object Unit
  | [] => return ()
  | cFmt :: rest => do
    let f ← lift (← load cFmt).asFormat
    freeControlFmtData f.profile
    freeControlFmtData f.level
    free cFmt
    freeControlFormats rest

/-- `virtio_video_clean_control` -/
def cleanControl : List Addr → HeapM Object Unit := freeControlFormats

/-- A format between `VIRTIO_VIDEO_FORMAT_CODED_MIN` and `_MAX` -/
def IsCoded (fmt : VideoFormat) : Prop :=
  ¬(v4l2FormatToVirtio fmt.format < 0x1000 ∨ v4l2FormatToVirtio fmt.format > 0x1005)

instance (fmt : VideoFormat) : Decidable (IsCoded fmt) := inferInstanceAs (Decidable (¬_))

/-- The loop of `virtio_video_parse_virtio_control` over the output formats,
with the list so far; the list after it, or its error, with everything freed. -/
def parseVirtioControl (respSize : Nat) :
    List (VideoFormat × FormatEnv) → List Addr → HeapM Object (Except Errno (List Addr))
  | [], list => return .ok list
  | (fmt, env) :: fmts, list =>
    if IsCoded fmt then do
      match ← tryAlloc env.alloc (.format ⟨fmt.format, none, none⟩) with
      | none =>
        freeControlFormats list
        return .error .enomem
      | some cFmt =>
        match ← parseControlProfiles respSize env.profile cFmt with
        | .error e =>
          free cFmt
          freeControlFormats list
          return .error e
        | .ok () =>
          match ← parseControlLevels respSize env.level cFmt with
          | .error e =>
            let f ← lift (← load cFmt).asFormat
            freeControlFmtData f.profile
            free cFmt
            freeControlFormats list
            return .error e
          | .ok () => parseVirtioControl respSize fmts (cFmt :: list)
    else parseVirtioControl respSize fmts list

/-- A device's controls from its initialisation to its end; there is nothing
to clean after an error. -/
def parseThenClean (respSize : Nat) (fmts : List (VideoFormat × FormatEnv)) : HeapM Object Unit := do
  match ← parseVirtioControl respSize fmts [] with
  | .error _ => return ()
  | .ok list => cleanControl list

/-! ## What a query comes to -/

/-- The response is put somewhere. -/
def Query.HasRoom (q : Query) (respSize : Nat) : Prop :=
  q.respAlloc = true ∨ q.exchange.hasVbuf = false ∨ respSize ≤ maxInlineRespSize ∧ q.exchange.result ≠ .ok ()

/-- What the allocator says to the parser of the reply. -/
def Query.grant (q : Query) : Nat → Bool
  | 0 => q.recordAlloc
  | _ => q.entriesAlloc

/-- The result, and the record, as the parser of the reply has them. -/
def Query.parsed (c : Control) (q : Query) : Option (Except Errno Unit × ControlPtr) :=
  match q.exchange with
  | .answered m => (VirtioVideo.parseControl c.toV4l2 m q.grant 0).val
  | x => some (x.result, .null)

/-- A record on the heap. -/
structure Record where
  addr : Addr
  entries : Addr
  data : ControlFmtData

def Record.cells (r : Record) : List (Cell Object) :=
  [⟨r.addr, .fmtData ⟨r.data.min, r.data.max, r.data.num, r.data.skipMask, some r.entries⟩⟩,
    ⟨r.entries, .entries r.data.entries⟩]

/-- The cells that are left of a parse: the format with a pointer, and what
that points to. -/
inductive Holds (c : Control) (fmt : Addr) (f : ControlFormat) (l : List (Cell Object)) :
    ControlPtr → List (Cell Object) → Prop
  | null : Holds c fmt f l .null (⟨fmt, .format (f.set none c)⟩ :: l)
  | dangling (a : Addr) : Holds c fmt f l .dangling (⟨fmt, .format (f.set (some a) c)⟩ :: l)
  | data (r : Record) {d : ControlFmtData} (hd : r.data = d) :
    Holds c fmt f l (.data d) (⟨fmt, .format (f.set (some r.addr) c)⟩ :: (r.cells ++ l))

variable {l : List (Cell Object)} {c : Control} {fmt : Addr} {f : ControlFormat} {respSize : Nat} {q : Query}

theorem Holds.null_of (hf : f.get c = none) : Holds c fmt f l .null (⟨fmt, .format f⟩ :: l) := by
  have hset : f.set none c = f := by
    obtain ⟨_, _, _⟩ := f
    cases c <;> (cases hf; rfl)
  have hnull : Holds c fmt f l .null (⟨fmt, .format (f.set none c)⟩ :: l) := .null
  rwa [hset] at hnull

theorem Holds.uncons {x : Cell Object} {ptr : ControlPtr} {l' : List (Cell Object)}
    (h : Holds c fmt f (x :: l) ptr l') : ∃ l₁, l'.Perm (x :: l₁) ∧ Holds c fmt f l ptr l₁ := by
  cases h with
  | null => exact ⟨_, .swap _ _ _, .null⟩
  | dangling a => exact ⟨_, .swap _ _ _, .dangling a⟩
  | data r hd => exact ⟨_, (List.Perm.cons _ List.perm_middle).trans (.swap _ _ _), .data r hd⟩

/-- The query functions return what becomes of the exchange, whatever the
stream they are not given. -/
theorem query_result (respSize : Nat) (format : UInt32) (s : Stream) (x : Exchange) :
    (queryControlLevel respSize format s x).map (·.result) = some x.result ∧
      (queryControlProfile respSize format s x).map (·.result) = some x.result := by
  cases x <;> exact ⟨rfl, rfl⟩

theorem parseValues_runs {m : Mem} (h0 : m.le32 controlRespSize ≠ 0) :
    Runs False (⟨fmt, .format f⟩ :: l) (parseValues c q fmt m (m.le32 controlRespSize)) fun r l' =>
      ∃ ptr, (VirtioVideo.parseControl c.toV4l2 m q.grant 0).val = some (r, ptr) ∧ Holds c fmt f l ptr l' := by
  rw [parseControl_val, if_neg h0]
  refine Runs.tryAlloc (fun hrec a => ?_) fun hrec => ?_
  · rw [show q.grant 0 = true from hrec, if_pos rfl]
    refine Runs.perm (.swap _ _ _) (Runs.load (Runs.lift_some (Runs.store (.perm (.swap _ _ _) ?_))))
    refine Runs.tryAlloc (fun hent e => ?_) fun hent => ?_
    · rw [show q.grant 1 = true from hent, if_pos rfl]
      have hacc := parseControlEntries_reported c.toV4l2 m (fun _ => true) 0
      simp only [ControlAcc.init] at hacc
      dsimp only
      rw [hacc]
      refine Runs.lift_some (Runs.store (.perm (.swap _ _ _) (Runs.store ?_)))
      rw [← ofNat_length_reported]
      refine Runs.perm ((List.Perm.cons _ (.swap _ _ _)).trans (.swap _ _ _)) ?_
      exact Runs.ret ⟨_, rfl, .data ⟨a, e, menuOf c.toV4l2 (reported m)⟩ rfl⟩
    · rw [show q.grant 1 = false from hent]
      exact Runs.free (Runs.ret ⟨_, rfl, .dangling a⟩)
  · rw [show q.grant 0 = false from hrec]
    exact Runs.load (Runs.lift_some (Runs.store (Runs.ret ⟨_, rfl, .null⟩)))

theorem queryControl_some {a : Addr} {m : Mem} (x : Exchange) :
    Runs False (⟨a, .respBuf m⟩ :: l) (queryControl respSize (some a) x) fun r l' =>
      r = x.result ∧ ∃ m', l' = ⟨a, .respBuf m'⟩ :: l ∧ ∀ reply, x = .answered reply → m' = reply := by
  unfold queryControl
  rw [if_neg fun h => Option.some_ne_none a h.2.1]
  cases x with
  | answered reply => exact Runs.store (Runs.ret ⟨rfl, reply, rfl, fun _ he => by cases he; rfl⟩)
  | answeredLate reply => exact Runs.store (Runs.ret ⟨rfl, reply, rfl, fun _ he => by cases he⟩)
  | _ => exact Runs.ret ⟨rfl, m, rfl, fun _ he => by cases he⟩

theorem queryControl_none (x : Exchange) :
    Runs (x.hasVbuf = true ∧ maxInlineRespSize < respSize) l (queryControl respSize none x) fun r l' =>
      ¬(x.hasVbuf = true ∧ maxInlineRespSize < respSize) ∧ r = x.result ∧ l' = l := by
  unfold queryControl
  split
  · next h => exact Runs.fault ⟨h.1, h.2.2⟩
  · next h => exact Runs.ret ⟨fun hb => h ⟨hb.1, rfl, hb.2⟩, rfl, rfl⟩

/-- With a buffer the parse of a reply goes through, and leaves what the
parser of the reply says. -/
theorem parseReply_some {a : Addr} {m : Mem} (hf : f.get c = none) :
    Runs False (⟨a, .respBuf m⟩ :: ⟨fmt, .format f⟩ :: l) (parseReply c respSize q fmt (some a)) fun r l' =>
      ∃ ptr l₁ m', q.parsed c = some (r, ptr) ∧ Holds c fmt f l ptr l₁ ∧ l'.Perm (⟨a, .respBuf m'⟩ :: l₁) := by
  have hnull : Holds c fmt f l .null (⟨fmt, .format f⟩ :: l) := .null_of hf
  refine Runs.bind (queryControl_some q.exchange) ?_
  rintro _ _ ⟨rfl, m', rfl, hm'⟩
  cases hx : q.exchange with
  | answered reply =>
    obtain rfl := hm' reply hx
    refine Runs.deref_some (Runs.load (Runs.lift_some ?_))
    have hp : q.parsed c = (VirtioVideo.parseControl c.toV4l2 m' q.grant 0).val := by rw [Query.parsed, hx]
    split
    · next h0 =>
      rw [parseControl_val, if_pos h0] at hp
      exact Runs.ret ⟨_, _, _, hp, hnull, .refl _⟩
    · next h0 =>
      refine Runs.perm (.swap _ _ _) (Runs.mono (parseValues_runs h0) id ?_)
      rintro r l' ⟨ptr, hv, hh⟩
      obtain ⟨l₁, hperm, hh⟩ := hh.uncons
      exact ⟨ptr, l₁, _, hp.trans hv, hh, hperm⟩
  | noVbuf | refused e | answeredLate reply | unanswered =>
    exact Runs.ret ⟨_, _, _, by rw [Query.parsed, hx]; rfl, hnull, .refl _⟩

/-- Without a buffer a reply that was taken is looked for at a null pointer. -/
theorem parseReply_none (hf : f.get c = none) (hr : q.respAlloc = false) :
    Runs (¬q.HasRoom respSize) (⟨fmt, .format f⟩ :: l) (parseReply c respSize q fmt none) fun r l' =>
      q.HasRoom respSize ∧ ∃ ptr, q.parsed c = some (r, ptr) ∧ Holds c fmt f l ptr l' := by
  have hnull : Holds c fmt f l .null (⟨fmt, .format f⟩ :: l) := .null_of hf
  refine Runs.bind (Runs.mono (queryControl_none q.exchange) ?_ fun _ _ h => h) ?_
  · rintro ⟨hv, hlt⟩ (h | h | h)
    · rw [hr] at h
      cases h
    · rw [hv] at h
      cases h
    · exact Nat.lt_irrefl _ (Nat.lt_of_lt_of_le hlt h.1)
  rintro _ _ ⟨hroom, rfl, rfl⟩
  cases hx : q.exchange with
  | answered reply =>
    refine Runs.deref_none ?_
    rintro (h | h | h)
    · rw [hr] at h
      cases h
    · rw [hx] at h
      cases h
    · rw [hx] at h
      exact h.2 rfl
  | noVbuf => exact Runs.ret ⟨.inr (.inl (by rw [hx]; rfl)), _, by rw [Query.parsed, hx]; rfl, hnull⟩
  | refused e | answeredLate reply | unanswered =>
    rw [hx] at hroom
    refine Runs.ret ⟨.inr (.inr ⟨Nat.not_lt.mp fun h => hroom ⟨rfl, h⟩, ?_⟩), _, by rw [Query.parsed, hx]; rfl, hnull⟩
    rw [hx]
    exact fun h => by cases h

/-- The parse of a control leaves what the parser of the reply says, and
goes through exactly if there is room for the reply. -/
theorem parseControl_runs (hf : f.get c = none) :
    Runs (¬q.HasRoom respSize) (⟨fmt, .format f⟩ :: l) (parseControl c respSize q fmt) fun r l' =>
      q.HasRoom respSize ∧ ∃ ptr, q.parsed c = some (r, ptr) ∧ Holds c fmt f l ptr l' := by
  refine Runs.tryAlloc (fun hr a => ?_) fun hr => ?_
  · refine Runs.bind (Runs.mono (parseReply_some hf) False.elim fun _ _ h => h) ?_
    rintro r l' ⟨ptr, l₁, m, hp, hh, hperm⟩
    exact Runs.perm hperm (Runs.free (Runs.ret ⟨.inl hr, ptr, hp, hh⟩))
  · refine Runs.bind (parseReply_none hf hr) ?_
    exact fun r l' h => Runs.ret h

/-! ## Which queries are sound -/

/-- The device knows no value. -/
def Query.ReportsNone (q : Query) : Prop := ∃ m, q.exchange = .answered m ∧ m.le32 controlRespSize = 0

/-- The parse of the control returns 0. -/
def Query.Succeeds (q : Query) : Prop :=
  q.ReportsNone ∨ (∃ m, q.exchange = .answered m) ∧ q.recordAlloc = true ∧ q.entriesAlloc = true

def Query.Sound (respSize : Nat) (q : Query) : Prop := q.HasRoom respSize ∧ ¬q.ReportsNone

/-- The cells of a record, if there is one. -/
def recordCells (o : Option Record) : List (Cell Object) := o.elim [] Record.cells

/-- A parse that succeeds leaves a record unless there are no values; one that
fails leaves none. -/
def Query.Leaves (q : Query) (c : Control) (fmt : Addr) (f : ControlFormat) (l : List (Cell Object)) :
    Except Errno Unit → List (Cell Object) → Prop
  | .ok _, l' => q.Succeeds ∧ ∃ o : Option Record, (o = none ↔ q.ReportsNone) ∧
      l' = ⟨fmt, .format (f.set (o.map Record.addr) c)⟩ :: (recordCells o ++ l)
  | .error _, l' => ¬q.Succeeds ∧ ∃ p, l' = ⟨fmt, .format (f.set p c)⟩ :: l

theorem Query.reportsNone_iff {m : Mem} (hx : q.exchange = .answered m) :
    q.ReportsNone ↔ m.le32 controlRespSize = 0 := by
  simp only [ReportsNone, hx, Exchange.answered.injEq, exists_eq_left']

theorem Query.succeeds_iff {m : Mem} (hx : q.exchange = .answered m) :
    q.Succeeds ↔ m.le32 controlRespSize = 0 ∨ q.recordAlloc = true ∧ q.entriesAlloc = true := by
  rw [Succeeds, reportsNone_iff hx, hx]
  simp only [Exchange.answered.injEq, exists_eq', true_and]

theorem Query.not_succeeds (hx : ∀ m, q.exchange ≠ .answered m) : ¬q.Succeeds := by
  rintro (⟨m, hm, -⟩ | ⟨⟨m, hm⟩, -⟩) <;> exact hx m hm

theorem Query.leaves_of_parsed {r : Except Errno Unit} {ptr : ControlPtr} {l' : List (Cell Object)}
    (hp : q.parsed c = some (r, ptr)) (hh : Holds c fmt f l ptr l') : q.Leaves c fmt f l r l' := by
  cases hx : q.exchange with
  | answered m =>
    have hnone := Query.reportsNone_iff hx
    have hok := Query.succeeds_iff hx
    rw [parsed, hx] at hp
    dsimp only at hp
    rw [parseControl_val] at hp
    by_cases h0 : m.le32 controlRespSize = 0
    · rw [if_pos h0] at hp
      cases hp
      cases hh
      exact ⟨hok.mpr (.inl h0), none, ⟨fun _ => hnone.mpr h0, fun _ => rfl⟩, rfl⟩
    · rw [if_neg h0] at hp
      cases hrec : q.recordAlloc with
      | false =>
        rw [show q.grant 0 = false from hrec] at hp
        cases hp
        cases hh
        exact ⟨by simp [hok, h0, hrec], _, rfl⟩
      | true =>
        rw [show q.grant 0 = true from hrec] at hp
        cases hent : q.entriesAlloc with
        | false =>
          rw [show q.grant (0 + 1) = false from hent] at hp
          cases hp
          cases hh
          exact ⟨by simp [hok, h0, hent], _, rfl⟩
        | true =>
          rw [show q.grant (0 + 1) = true from hent] at hp
          cases hp
          cases hh with
          | data r hd => exact ⟨hok.mpr (.inr ⟨hrec, hent⟩), some r, by simp [hnone, h0], rfl⟩
  | noVbuf | refused e | answeredLate m | unanswered =>
    rw [parsed, hx] at hp
    cases hp
    cases hh
    exact ⟨Query.not_succeeds fun m hm => (by rw [hx] at hm; cases hm), _, rfl⟩

theorem parseControl_leaves (hf : f.get c = none) :
    Runs (¬q.HasRoom respSize) (⟨fmt, .format f⟩ :: l) (parseControl c respSize q fmt) fun r l' =>
      q.HasRoom respSize ∧ q.Leaves c fmt f l r l' := by
  refine Runs.mono (parseControl_runs hf) id ?_
  rintro r l' ⟨hroom, ptr, hp, hh⟩
  exact ⟨hroom, Query.leaves_of_parsed hp hh⟩

/-! ## The list of formats -/

/-- A format of the list on the heap. -/
structure Listed where
  addr : Addr
  format : UInt32
  profile : Option Record
  level : Option Record

def Listed.cells (x : Listed) : List (Cell Object) :=
  ⟨x.addr, .format ⟨x.format, x.profile.map Record.addr, x.level.map Record.addr⟩⟩ ::
    (recordCells x.level ++ recordCells x.profile)

def listCells (ls : List Listed) : List (Cell Object) := ls.flatMap Listed.cells

/-- Both records are there. -/
def Listed.Complete (x : Listed) : Prop := x.profile ≠ none ∧ x.level ≠ none

/-- A record is freed with its entries; no record is a fault. -/
theorem freeControlFmtData_runs (o : Option Record) :
    Runs (o = none) (recordCells o ++ l) (freeControlFmtData (o.map Record.addr)) fun _ l' => o ≠ none ∧ l' = l := by
  cases o with
  | none => exact Runs.deref_none rfl
  | some r =>
    refine Runs.deref_some (Runs.load (Runs.lift_some (Runs.perm (.swap _ _ _) (Runs.free ?_))))
    exact Runs.last (Runs.free (Runs.ret ⟨fun h => (by cases h), rfl⟩))

theorem freeControlFormats_runs (ls : List Listed) :
    Runs (¬∀ x ∈ ls, x.Complete) (listCells ls ++ l) (freeControlFormats (ls.map Listed.addr)) fun _ l' =>
      (∀ x ∈ ls, x.Complete) ∧ l' = l := by
  induction ls with
  | nil => exact Runs.ret ⟨fun x hx => (by cases hx), rfl⟩
  | cons x ls ih =>
    rw [List.forall_mem_cons]
    have hcells : listCells (x :: ls) ++ l = ⟨x.addr, .format ⟨x.format, x.profile.map Record.addr,
        x.level.map Record.addr⟩⟩ :: (recordCells x.level ++ (recordCells x.profile ++ (listCells ls ++ l))) := by
      simp only [listCells, Listed.cells, List.flatMap_cons, List.cons_append, List.append_assoc]
    rw [hcells]
    refine Runs.load (Runs.lift_some ?_)
    refine Runs.perm ((List.perm_append_comm_assoc _ _ _).cons _ |>.trans List.perm_middle.symm) ?_
    refine Runs.bind (Runs.mono (freeControlFmtData_runs x.profile) (fun h hc => hc.1.1 h) fun _ _ hq => hq) ?_
    rintro - _ ⟨hprofile, rfl⟩
    refine Runs.perm List.perm_middle.symm ?_
    refine Runs.bind (Runs.mono (freeControlFmtData_runs x.level) (fun h hc => hc.1.2 h) fun _ _ hq => hq) ?_
    rintro - _ ⟨hlevel, rfl⟩
    refine Runs.free (Runs.mono ih (fun h hc => h hc.2) ?_)
    rintro - l' ⟨hrest, rfl⟩
    exact ⟨⟨⟨hprofile, hlevel⟩, hrest⟩, rfl⟩

/-! ## The whole run -/

/-- Each coded format that is reached has both controls queried soundly; the
first failure ends it. -/
def Sound (respSize : Nat) : List (VideoFormat × FormatEnv) → Prop
  | [] => True
  | (fmt, env) :: fmts =>
    if IsCoded fmt then
      env.alloc = true → env.profile.Sound respSize ∧
        (env.profile.Succeeds → env.level.Sound respSize ∧ (env.level.Succeeds → Sound respSize fmts))
    else Sound respSize fmts

/-- The error paths, from `parse_ctrl_alloc_err` on. -/
theorem fail_runs {C : Prop} {ls : List Listed} {e : Errno} {Q : Except Errno (List Addr) → List (Cell Object) → Prop}
    (hC : (∀ x ∈ ls, x.Complete) ↔ C) (hQ : C → Q (.error e) l) :
    Runs (¬C) (listCells ls ++ l) (freeControlFormats (ls.map Listed.addr) >>= fun _ => pure (.error e)) Q := by
  refine Runs.bind (Runs.mono (freeControlFormats_runs ls) (mt hC.mpr) fun _ _ hq => hq) ?_
  rintro - _ ⟨hall, rfl⟩
  exact Runs.ret (hQ (hC.mp hall))

/-- Every format on the list is complete when the parse is over exactly if the
run was sound and they were before; an error leaves nothing. -/
theorem parseVirtioControl_runs (fmts : List (VideoFormat × FormatEnv)) (ls : List Listed) :
    Runs (¬((∀ x ∈ ls, x.Complete) ∧ Sound respSize fmts)) (listCells ls ++ l)
      (parseVirtioControl respSize fmts (ls.map Listed.addr)) fun r l' =>
      match r with
      | .error _ => ((∀ x ∈ ls, x.Complete) ∧ Sound respSize fmts) ∧ l' = l
      | .ok list => ∃ ls' : List Listed, list = ls'.map Listed.addr ∧ l' = listCells ls' ++ l ∧
          ((∀ x ∈ ls', x.Complete) ↔ (∀ x ∈ ls, x.Complete) ∧ Sound respSize fmts) := by
  induction fmts generalizing ls with
  | nil => exact Runs.ret ⟨ls, rfl, rfl, (and_true _).symm ▸ Iff.rfl⟩
  | cons p fmts ih =>
    obtain ⟨fmt, env⟩ := p
    unfold parseVirtioControl Sound
    by_cases hcoded : IsCoded fmt
    · simp only [if_pos hcoded]
      refine Runs.tryAlloc (fun halloc cFmt => ?_) fun halloc => ?_
      · simp only [halloc, true_implies]
        refine Runs.bind (Runs.mono (parseControl_leaves rfl) (fun h hc => h hc.2.1.1) fun _ _ hq => hq) ?_
        rintro (e | _) l' ⟨hroom, hleaves⟩
        · obtain ⟨hfail, p, rfl⟩ := hleaves
          have hsound : env.profile.Sound respSize := ⟨hroom, fun h => hfail (.inl h)⟩
          refine Runs.free (fail_runs ?_ fun hc => ⟨hc, rfl⟩)
          simp [hsound, hfail]
        obtain ⟨hok, profile, hprofile, rfl⟩ := hleaves
        refine Runs.bind (Runs.mono (parseControl_leaves rfl) (fun h hc => h (hc.2.2 hok).1.1) fun _ _ hq => hq) ?_
        rintro (e | _) l' ⟨hroom', hleaves⟩
        · obtain ⟨hfail, p, rfl⟩ := hleaves
          have hsound : env.level.Sound respSize := ⟨hroom', fun h => hfail (.inl h)⟩
          refine Runs.load (Runs.lift_some (Runs.perm List.perm_middle.symm ?_))
          refine Runs.bind (Runs.mono (freeControlFmtData_runs profile) ?_ fun _ _ hq => hq) ?_
          · exact fun h hc => hc.2.1.2 (hprofile.mp h)
          rintro - _ ⟨hne, rfl⟩
          have hsound' : env.profile.Sound respSize := ⟨hroom, fun h => hne (hprofile.mpr h)⟩
          refine Runs.free (fail_runs ?_ fun hc => ⟨hc, rfl⟩)
          simp [hsound, hsound', hfail, hok]
        obtain ⟨hok', level, hlevel, rfl⟩ := hleaves
        have hcomplete : (∀ x ∈ (⟨cFmt, fmt.format, profile, level⟩ :: ls : List Listed), x.Complete) ∧
              Sound respSize fmts ↔
            (∀ x ∈ ls, x.Complete) ∧ env.profile.Sound respSize ∧
              (env.profile.Succeeds → env.level.Sound respSize ∧ (env.level.Succeeds → Sound respSize fmts)) := by
          simp only [List.forall_mem_cons, Listed.Complete, Query.Sound, hprofile, hlevel, hroom, hroom', hok, hok',
            ne_eq, true_and, true_implies]
          tauto
        have hrec := ih (⟨cFmt, fmt.format, profile, level⟩ :: ls)
        rw [hcomplete] at hrec
        refine Runs.perm ?_ hrec
        simp only [listCells, Listed.cells, List.flatMap_cons, List.cons_append, List.append_assoc]
        exact .refl _
      · simp only [halloc, Bool.false_eq_true, false_implies, and_true]
        exact fail_runs .rfl fun hc => ⟨hc, rfl⟩
    · simp only [if_neg hcoded]
      exact ih ls

theorem parseThenClean_runs (fmts : List (VideoFormat × FormatEnv)) :
    Runs (¬Sound respSize fmts) l (parseThenClean respSize fmts) fun _ l' => Sound respSize fmts ∧ l' = l := by
  have hnil : (∀ x ∈ ([] : List Listed), x.Complete) ∧ Sound respSize fmts ↔ Sound respSize fmts :=
    and_iff_right fun x hx => by cases hx
  refine Runs.bind (Runs.mono (parseVirtioControl_runs (l := l) fmts []) (mt hnil.mpr) fun _ _ hq => hq) ?_
  rintro (e | list) l' hq
  · exact Runs.ret ⟨hnil.mp hq.1, hq.2⟩
  · obtain ⟨ls, rfl, rfl, hc⟩ := hq
    rw [hnil] at hc
    refine Runs.mono (freeControlFormats_runs ls) (mt hc.mpr) ?_
    rintro - l' ⟨hall, rfl⟩
    exact ⟨hc.mp hall, rfl⟩

/-- The run ends without a fault, and what is live then was so before: all
that it allocated is freed, once, and it reached nothing else. -/
def CleansUp (respSize : Nat) (fmts : List (VideoFormat × FormatEnv)) (h : Heap Object) : Prop :=
  ∃ h', parseThenClean respSize fmts h = some ((), h') ∧ h'.Owns h.cells.entries

/-- A device with one format, H.264, that reports these profiles and levels. -/
def h264Only (profiles levels : List UInt32) : List (VideoFormat × FormatEnv) :=
  [(⟨v4l2Fourcc 'H' '2' '6' '4', 0, 0, []⟩,
    { alloc := true
      profile := ⟨true, .answered (controlReply profiles), true, true⟩
      level := ⟨true, .answered (controlReply levels), true, true⟩ })]

/-- Seven allocations, none of which is left. -/
example : (parseThenClean 1024 (h264Only [0x100, 0x101] [0x10e]) (.empty _)).map
    (fun r => (r.2.next, r.2.cells.entries.length)) = some (7, 0) := by decide +kernel

end Agl.VirtioVideo.Controls
