/-
What a device reads of the driver's requests: the message each call is
about, whole, and nothing behind it.
-/
import Mathlib.Data.List.GetD
import Agl.Video.Wire

namespace Agl.VirtioVideo.Wire

/-! ## The device reads what is encoded -/

theorem QueueType.ofCode_code (q : QueueType) : QueueType.ofCode q.code = some q := by cases q <;> rfl

theorem ControlType.ofCode_code (c : ControlType) : ControlType.ofCode c.code = some c := by cases c <;> rfl

section

variable {m : Mem}

theorem planesAt_of_holds {off : Nat} {planes : Vector PlaneFormat maxPlanes}
    (h : m.Holds off (words (planeWords planes))) : planesAt m off = planes := by
  apply Vector.ext
  intro i hi
  have hget : planes.toList[i]? = some planes[i] := by simp [hi]
  obtain ⟨hsize, hstride⟩ := planeWords_get hget
  have hs := h.words hsize
  have ht := h.words hstride
  rw [show off + 4 * (2 * i) = off + 8 * i by omega] at hs
  rw [show off + 4 * (2 * i + 1) = off + 8 * i + 4 by omega] at ht
  simp only [planesAt, Vector.getElem_ofFn, hs, ht]

theorem bytesAt_of_holds {n off : Nat} {l : Vector UInt8 n} (h : m.Holds off l.toList) :
    (Vector.ofFn fun i => m (off + i)) = l := by
  apply Vector.ext
  intro i hi
  rw [Vector.getElem_ofFn, h.get (by rw [Vector.length_toList]; exact hi), Vector.getElem_toList]

theorem wordsAt_of_holds {n off : Nat} {l : Vector UInt32 n} (h : m.Holds off (words l.toList)) :
    (Vector.ofFn fun i => m.le32 (off + 4 * i)) = l := by
  apply Vector.ext
  intro i hi
  rw [Vector.getElem_ofFn]
  exact h.words (by simp [hi])

/-- Four words, the third of them a queue's. -/
theorem queueAt_of_holds {code streamId last : UInt32} {q : QueueType}
    (h : m.Holds 0 (words [code, streamId, q.code, last])) :
    m.le32 0 = code ∧ m.le32 4 = streamId ∧ QueueType.ofCode (m.le32 8) = some q ∧ m.le32 12 = last := by
  have hq : m.le32 8 = q.code := h.words (i := 2) rfl
  refine ⟨h.words (i := 0) rfl, h.words (i := 1) rfl, ?_, h.words (i := 3) rfl⟩
  rw [hq, QueueType.ofCode_code]

/-- The third of some words is a control's. -/
theorem controlAt_of_holds {code streamId : UInt32} {c : ControlType} {rest : List UInt32}
    (h : m.Holds 0 (words (code :: streamId :: c.code :: rest))) :
    m.le32 0 = code ∧ m.le32 4 = streamId ∧ ControlType.ofCode (m.le32 8) = some c := by
  have hc : m.le32 8 = c.code := h.words (i := 2) rfl
  refine ⟨h.words (i := 0) rfl, h.words (i := 1) rfl, ?_⟩
  rw [hc, ControlType.ofCode_code]

theorem paramsAt_of_holds {streamId : UInt32} {p : VideoParams} (h : m.Holds 0 (Message.setParams streamId p).encode) :
    paramsAt m = some p := by
  have hword {i : Nat} {v : UInt32} := h.words (i := i) (v := v)
  have hq : m.le32 8 = p.queueType.code := hword (i := 2) rfl
  have hplanes : planesAt m 56 = p.planeFormats := by
    simp only [Message.encode, words, List.flatMap_append] at h
    exact planesAt_of_holds h.right
  rw [paramsAt, hq, QueueType.ofCode_code, hplanes, show m.le32 12 = _ from hword (i := 3) rfl,
    show m.le32 16 = _ from hword (i := 4) rfl, show m.le32 20 = _ from hword (i := 5) rfl,
    show m.le32 24 = _ from hword (i := 6) rfl, show m.le32 28 = _ from hword (i := 7) rfl,
    show m.le32 32 = _ from hword (i := 8) rfl, show m.le32 36 = _ from hword (i := 9) rfl,
    show m.le32 40 = _ from hword (i := 10) rfl, show m.le32 44 = _ from hword (i := 11) rfl,
    show m.le32 48 = _ from hword (i := 12) rfl, show m.le32 52 = _ from hword (i := 13) rfl]
  rfl

theorem length_encode (msg : Message) : msg.encode.length = msg.size := by
  cases msg with
  | streamCreate | resourceQueue | setParams =>
    simp only [Message.encode, words, planeWords, List.length_append, length_flatMap_le32Bytes, length_planeWords,
      Vector.length_toList, length_le64Bytes, List.length_cons, List.length_nil, maxPlanes, tagSize, Message.size]
  | _ => rfl

/-- A struct is read as the message it encodes. -/
theorem readAs_encode {msg : Message} (h : m.Holds 0 msg.encode) :
    readAs m msg.encode.length (m.le32 0) = some msg := by
  rw [length_encode]
  cases msg with
  | streamCreate streamId inMemType outMemType codedFormat tag =>
    have hw := h.left
    have htag : (Vector.ofFn fun i : Fin tagSize => m (24 + i)) = tag := bytesAt_of_holds h.right
    rw [show m.le32 0 = cmdStreamCreateCode from hw.words (i := 0) rfl]
    change some (Message.streamCreate (m.le32 4) (m.le32 8) (m.le32 12) (m.le32 16) _) = _
    rw [htag, show m.le32 4 = _ from hw.words (i := 1) rfl, show m.le32 8 = _ from hw.words (i := 2) rfl,
      show m.le32 12 = _ from hw.words (i := 3) rfl, show m.le32 16 = _ from hw.words (i := 4) rfl]
  | streamDestroy streamId =>
    rw [show m.le32 0 = cmdStreamDestroyCode from h.words (i := 0) rfl]
    change some (Message.streamDestroy (m.le32 4)) = _
    rw [show m.le32 4 = _ from h.words (i := 1) rfl]
  | streamDrain streamId =>
    rw [show m.le32 0 = cmdStreamDrainCode from h.words (i := 0) rfl]
    change some (Message.streamDrain (m.le32 4)) = _
    rw [show m.le32 4 = _ from h.words (i := 1) rfl]
  | resourceAttach streamId queueType resourceId =>
    obtain ⟨htype, hstream, hqueue, hresource⟩ := queueAt_of_holds h
    rw [htype]
    change (QueueType.ofCode (m.le32 8)).map (fun q => Message.resourceAttach (m.le32 4) q (m.le32 12)) = _
    rw [hstream, hqueue, hresource]
    rfl
  | resourceQueue streamId queueType resourceId flags timestamp dataSizes =>
    have hw := h.left
    have hq : m.le32 8 = queueType.code := hw.words (i := 2) rfl
    have htime : m.le64 24 = timestamp := h.right.left.le64
    have hsizes : (Vector.ofFn fun i : Fin maxPlanes => m.le32 (32 + 4 * i)) = dataSizes :=
      wordsAt_of_holds h.right.right
    rw [show m.le32 0 = CmdType.resourceQueue.code from hw.words (i := 0) rfl]
    change (QueueType.ofCode (m.le32 8)).map (fun q =>
      Message.resourceQueue (m.le32 4) q (m.le32 12) (m.le32 16) (m.le64 24) _) = _
    rw [htime, hsizes, hq, QueueType.ofCode_code, show m.le32 4 = _ from hw.words (i := 1) rfl,
      show m.le32 12 = _ from hw.words (i := 3) rfl, show m.le32 16 = _ from hw.words (i := 4) rfl]
    rfl
  | queueDetachResources streamId queueType =>
    obtain ⟨htype, hstream, hqueue, -⟩ := queueAt_of_holds h
    rw [htype]
    change (QueueType.ofCode (m.le32 8)).map (fun q => Message.queueDetachResources (m.le32 4) q) = _
    rw [hstream, hqueue]
    rfl
  | queueClear streamId queueType =>
    obtain ⟨htype, hstream, hqueue, -⟩ := queueAt_of_holds h
    rw [htype]
    change (QueueType.ofCode (m.le32 8)).map (fun q => Message.queueClear (m.le32 4) q) = _
    rw [hstream, hqueue]
    rfl
  | queryCapability streamId queueType =>
    obtain ⟨htype, hstream, hqueue, -⟩ := queueAt_of_holds h
    rw [htype]
    change (QueueType.ofCode (m.le32 8)).map (fun q => Message.queryCapability (m.le32 4) q) = _
    rw [hstream, hqueue]
    rfl
  | queryLevel streamId format =>
    obtain ⟨htype, hstream, hcontrol⟩ := controlAt_of_holds (c := .level) h
    rw [htype]
    change queryAt m = _
    rw [queryAt, hcontrol, hstream, show m.le32 16 = _ from h.words (i := 4) rfl]
    rfl
  | queryProfile streamId format =>
    obtain ⟨htype, hstream, hcontrol⟩ := controlAt_of_holds (c := .profile) h
    rw [htype]
    change queryAt m = _
    rw [queryAt, hcontrol, hstream, show m.le32 16 = _ from h.words (i := 4) rfl]
    rfl
  | getParams streamId queueType =>
    obtain ⟨htype, hstream, hqueue, -⟩ := queueAt_of_holds h
    rw [htype]
    change (QueueType.ofCode (m.le32 8)).map (fun q => Message.getParams (m.le32 4) q) = _
    rw [hstream, hqueue]
    rfl
  | setParams streamId p =>
    rw [show m.le32 0 = cmdSetParamsCode from h.words (i := 0) rfl]
    change (paramsAt m).map (fun p => Message.setParams (m.le32 4) p) = _
    rw [paramsAt_of_holds h, show m.le32 4 = _ from h.words (i := 1) rfl]
    rfl
  | getControl streamId control =>
    obtain ⟨htype, hstream, hcontrol⟩ := controlAt_of_holds h
    rw [htype]
    change (ControlType.ofCode (m.le32 8)).map (fun c => Message.getControl (m.le32 4) c) = _
    rw [hstream, hcontrol]
    rfl
  | setControl streamId control value =>
    obtain ⟨htype, hstream, hcontrol⟩ := controlAt_of_holds h
    rw [htype]
    change (ControlType.ofCode (m.le32 8)).map (fun c => Message.setControl (m.le32 4) c (m.le32 16)) = _
    rw [hstream, hcontrol, show m.le32 16 = _ from h.words (i := 4) rfl]
    rfl

end

theorem decode_encode (msg : Message) : decode msg.encode = some msg :=
  readAs_encode (Mem.holds_ofList msg.encode fun _ => 0)

/-! ## The vbuf -/

theorem fitsInline_iff (n : UInt32) : fitsInline n = true ↔ n.toNat ≤ maxInlineRespSize ∨ 0x80000000 ≤ n.toNat := by
  have hlt := n.toNat_lt
  have hint : n.toInt32.toInt = if 2 * n.toNat < 2 ^ 32 then (n.toNat : Int) else (n.toNat : Int) - (2 ^ 32 : Nat) :=
    BitVec.toInt_eq_toNat_cond n.toBitVec
  unfold fitsInline maxInlineRespSize
  rw [decide_eq_true_iff, hint]
  split <;> omega

theorem size_le (msg : Message) : msg.size ≤ maxInlineCmdSize := by cases msg <;> simp [Message.size, maxInlineCmdSize]

/-- A vbuf is refused, or a `BUG_ON` stops it, or it is there, cleared. -/
theorem getVbuf_cases {granted : Bool} {size : Nat} (n : UInt32) (b : Bool) (hsize : size ≤ maxInlineCmdSize) :
    granted = false ∧ getVbuf granted size n b = .error (.errno .enomem) ∨
    granted = true ∧ b = false ∧ fitsInline n = false ∧ getVbuf granted size n b = .error .bug ∨
    granted = true ∧ (b = true ∨ fitsInline n = true) ∧
      getVbuf granted size n b = .ok ⟨size, n, fitsInline n && !b, [], [], []⟩ := by
  unfold getVbuf
  rw [if_neg (Nat.not_lt.mpr hsize)]
  cases granted <;> cases b <;> cases fitsInline n <;> simp

theorem bytes_eq {v : Vbuf} {msg : Message} (hsize : v.size = msg.size) (h : v.mem.Holds 0 msg.encode) :
    v.bytes = msg.encode := by
  have hmap := h.map_range
  simp only [Nat.zero_add] at hmap
  rw [Vbuf.bytes, hsize, ← length_encode, hmap]

theorem contained {v : Vbuf} (hsize : v.size ≤ maxInlineCmdSize) (hin : ∀ st ∈ v.stores, st.stop ≤ v.size) :
    v.Contained where
  size := hsize
  stores := hin
  clear _ hi := Mem.stores_outside fun st hst => .inr (Nat.le_trans (hin st hst) hi)

/-! ## The calls -/

/-- The room for the reply is the caller's, or small. -/
def Reply (c : Request) (n : UInt32) (b : Bool) : Prop :=
  c.replyBuf = some (n, b) ∨ c.replyBuf = none ∧ b = false ∧ n.toNat ≤ maxInlineRespSize

section

variable {c : Request} {granted : Bool} {n : UInt32} {b : Bool}

theorem Reply.noRoom (h : Reply c n b) (hb : b = false) (hn : fitsInline n = false) : c.NoRoom := by
  subst hb
  rw [Bool.eq_false_iff, Ne, fitsInline_iff, not_or, Nat.not_le, Nat.not_le] at hn
  rcases h with h | ⟨-, -, hle⟩
  · exact ⟨n, h, hn.1, hn.2⟩
  · omega

theorem Reply.not_noRoom (h : Reply c n b) (hn : b = true ∨ fitsInline n = true) : ¬c.NoRoom := by
  rintro ⟨n', he, hlo, hhi⟩
  rcases h with h | ⟨h, -, -⟩
  · rw [h] at he
    cases he
    rcases hn with hb | hn
    · cases hb
    · have := (fitsInline_iff n).mp hn
      omega
  · rw [h] at he
    cases he

/-- A reply inline fits unless its length is negative. -/
theorem Reply.fits (h : Reply c n b) {size : Nat} (hsize : size ≤ maxInlineCmdSize) :
    ((fitsInline n && !b) = true → size + n.toNat ≤ inlineSize) ↔ ¬c.Negative := by
  rw [Bool.and_eq_true, fitsInline_iff]
  unfold inlineSize maxInlineCmdSize maxInlineRespSize at *
  constructor
  · rintro hfits ⟨n', he, hlo⟩
    rcases h with h | ⟨h, -, -⟩
    · rw [h] at he
      cases he
      have := hfits ⟨.inr hlo, rfl⟩
      omega
    · rw [h] at he
      cases he
  · rintro hneg ⟨hn, hb⟩
    rcases h with h | ⟨-, -, hle⟩
    · have hlt : ¬0x80000000 ≤ n.toNat := fun hlo => hneg ⟨n, by rw [h]; simpa using hb, hlo⟩
      omega
    · rw [show maxInlineRespSize = 298 from rfl] at hle
      omega

theorem onWire_einval (h : c.build granted = .error (.errno .einval)) (hmsg : c.message = none)
    (hreply : c.replyBuf = none) (hmany : ¬c.TooManyPlanes) : OnWire c granted where
  sent v hv := by
    rw [h] at hv
    cases hv
  errno e := by
    rw [h, hmsg]
    simp [eq_comm]
  bug := by
    rw [h]
    refine ⟨fun hb => (by cases hb), fun hb => ?_⟩
    obtain ⟨-, n, he, -⟩ := hb
    rw [hreply] at he
    cases he
  pastArray := by
    rw [h]
    exact ⟨fun hp => (by cases hp), fun hp => absurd hp.2 hmany⟩

/-- A call that runs past an array, when it has a vbuf. -/
theorem onWire_pastArray (size : Nat)
    (hbuild : c.build granted = getVbuf granted size n false >>= fun _ => .error .pastArray)
    (hsize : size ≤ maxInlineCmdSize) (hmsg : c.message ≠ none) (hreply : Reply c n false) (hown : c.replyBuf = none)
    (hmany : c.TooManyPlanes) : OnWire c granted := by
  rcases getVbuf_cases n false hsize with ⟨hg, hget⟩ | ⟨-, -, hn, -⟩ | ⟨hg, -, hget⟩
  · rw [hget] at hbuild
    change c.build granted = .error (.errno .enomem) at hbuild
    exact {
      sent := fun v hv => by rw [hbuild] at hv; cases hv
      errno := fun e => by rw [hbuild, hg]; simp [hmsg, eq_comm]
      bug := by rw [hbuild, hg]; simp
      pastArray := by rw [hbuild, hg]; simp }
  · obtain ⟨n', he, -⟩ := hreply.noRoom rfl hn
    rw [hown] at he
    cases he
  · rw [hget] at hbuild
    change c.build granted = .error .pastArray at hbuild
    exact {
      sent := fun v hv => by rw [hbuild] at hv; cases hv
      errno := fun e => by rw [hbuild, hg]; simp [hmsg]
      bug := by
        rw [hbuild]
        refine ⟨fun hb => (by cases hb), fun hb => ?_⟩
        obtain ⟨-, n', he, -⟩ := hb
        rw [hown] at he
        cases he
      pastArray := by rw [hbuild]; exact ⟨fun _ => ⟨hg, hmany⟩, fun _ => rfl⟩ }

/-- A call that fills a vbuf by the stores `sts` sends what they leave. -/
theorem onWire_of_stores {size : Nat} {f : Vbuf → Vbuf} {sts : List Store} {msg : Message}
    (hbuild : c.build granted = getVbuf granted size n b >>= fun v => .ok (f v))
    (hf : ∀ v : Vbuf, v.stores = [] → (f v).stores = sts ∧ (f v).size = v.size ∧ (f v).respSize = v.respSize ∧
      (f v).respInline = v.respInline)
    (hmsg : c.message = some msg) (hsize : size = msg.size)
    (hholds : (Mem.stores (fun _ => 0) sts).Holds 0 msg.encode) (hin : ∀ st ∈ sts, st.stop ≤ size)
    (hreply : Reply c n b) (hmany : ¬c.TooManyPlanes) : OnWire c granted := by
  have hle : size ≤ maxInlineCmdSize := hsize ▸ size_le msg
  rcases getVbuf_cases n b hle with ⟨hg, hget⟩ | ⟨hg, hb, hn, hget⟩ | ⟨hg, hn, hget⟩
  · rw [hget] at hbuild
    change c.build granted = .error (.errno .enomem) at hbuild
    exact {
      sent := fun v hv => by rw [hbuild] at hv; cases hv
      errno := fun e => by rw [hbuild, hmsg, hg]; simp [eq_comm]
      bug := by rw [hbuild, hg]; simp
      pastArray := by rw [hbuild, hg]; simp }
  · rw [hget] at hbuild
    change c.build granted = .error .bug at hbuild
    exact {
      sent := fun v hv => by rw [hbuild] at hv; cases hv
      errno := fun e => by rw [hbuild, hmsg, hg]; simp
      bug := by rw [hbuild]; exact ⟨fun _ => ⟨hg, hreply.noRoom hb hn⟩, fun _ => rfl⟩
      pastArray := by rw [hbuild]; exact ⟨fun hp => (by cases hp), fun hp => absurd hp.2 hmany⟩ }
  · rw [hget] at hbuild
    change c.build granted = .ok (f _) at hbuild
    obtain ⟨hstores, hs, hrs, hri⟩ := hf ⟨size, n, fitsInline n && !b, [], [], []⟩ rfl
    exact {
      sent := fun v hv => by
        rw [hbuild] at hv
        cases hv
        have hbytes : (f ⟨size, n, fitsInline n && !b, [], [], []⟩).bytes = msg.encode :=
          bytes_eq (hs.trans hsize) (by rw [Vbuf.mem, hstores]; exact hholds)
        refine ⟨msg, hmsg, hbytes, by rw [hbytes, decode_encode], contained (by rw [hs]; exact hle) ?_, ?_⟩
        · rw [hstores, hs]
          exact hin
        · unfold Vbuf.ReplyFits
          rw [hs, hrs, hri]
          exact hreply.fits hle
      errno := fun e => by rw [hbuild, hmsg, hg]; simp
      bug := by rw [hbuild]; exact ⟨fun hb => (by cases hb), fun hb => absurd hb.2 (hreply.not_noRoom hn)⟩
      pastArray := by rw [hbuild]; exact ⟨fun hp => (by cases hp), fun hp => absurd hp.2 hmany⟩ }

/-! ## Of fixed length -/

/-- The function that stores `sts` and no more. -/
theorem put_stores (sts : List Store) (v : Vbuf) (hv : v.stores = []) :
    (v.put sts).stores = sts ∧ (v.put sts).size = v.size ∧ (v.put sts).respSize = v.respSize ∧
      (v.put sts).respInline = v.respInline :=
  ⟨by rw [Vbuf.put, hv]; rfl, rfl, rfl, rfl⟩

theorem ownReply {c : Request} (h : c.replyBuf = none) {n : Nat} (hn : n ≤ maxInlineRespSize) :
    Reply c (UInt32.ofNat n) false := by
  refine .inr ⟨h, rfl, ?_⟩
  rw [UInt32.toNat_ofNat']
  exact Nat.le_trans (Nat.mod_le _ _) hn

variable (granted : Bool) (streamId : UInt32)

theorem isControl_cases (control : UInt32) :
    isControl control = false ∧ ControlType.ofCode control = none ∨
      isControl control = true ∧ ∃ c : ControlType, control = c.code := by
  unfold isControl ControlType.ofCode
  by_cases hb : control = controlBitrate
  · exact .inr ⟨by simp [hb], .bitrate, hb⟩
  by_cases hp : control = controlProfile
  · exact .inr ⟨by simp [hp], .profile, hp⟩
  by_cases hl : control = controlLevel
  · exact .inr ⟨by simp [hl], .level, hl⟩
  exact .inl ⟨by simp [hb, hp, hl], by simp [hb, hp, hl]⟩

theorem onWire_getControl (control : UInt32) : OnWire (.getControl streamId control) granted := by
  rcases isControl_cases control with ⟨hno, hcode⟩ | ⟨hyes, c, rfl⟩
  · refine onWire_einval ?_ ?_ rfl id
    · simp [Request.build, cmdGetControl, hno]
    · simp [Request.message, hcode]
  · have hbuild : (Request.getControl streamId c.code).build granted =
        getVbuf granted 16 (UInt32.ofNat getControlRespSize) false >>= fun v =>
          .ok (v.put [put32 0 CmdType.getControl.code, put32 4 streamId, put32 8 c.code]) := by
      simp only [Request.build, cmdGetControl, hyes, if_true]
      rfl
    have hmsg : (Request.getControl streamId c.code).message = some (.getControl streamId c) := by
      simp [Request.message, ControlType.ofCode_code]
    exact onWire_of_stores hbuild (put_stores _) hmsg rfl (Mem.holds_of_map_range rfl)
      (by simp [put32, Store.stop]) (ownReply rfl (by decide)) id

theorem onWire_setControl (control value : UInt32) : OnWire (.setControl streamId control value) granted := by
  by_cases hv : value = 0
  · refine onWire_einval ?_ ?_ rfl id
    · simp [Request.build, cmdSetControl, hv]
    · simp [Request.message, hv]
  rcases isControl_cases control with ⟨hno, hcode⟩ | ⟨hyes, c, rfl⟩
  · refine onWire_einval ?_ ?_ rfl id
    · simp [Request.build, cmdSetControl, hno, hv]
    · simp [Request.message, hcode, hv]
  · have hbuild : (Request.setControl streamId c.code value).build granted =
        getVbuf granted 24 (UInt32.ofNat cmdHdrSize) false >>= fun v =>
          .ok (v.put [put32 0 cmdSetControlCode, put32 4 streamId, put32 8 c.code, put32 16 value]) := by
      simp only [Request.build, cmdSetControl, hyes, if_true, if_neg hv]
      rfl
    have hmsg : (Request.setControl streamId c.code value).message = some (.setControl streamId c value) := by
      simp [Request.message, ControlType.ofCode_code, hv]
    exact onWire_of_stores hbuild (put_stores _) hmsg rfl (Mem.holds_of_map_range rfl)
      (by simp [put32, Store.stop]) (ownReply rfl (by decide)) id

/-! ## The tag -/

theorem strscpy_fst (tag : List UInt8) {count : Nat} (h : 0 < count) :
    (strscpy tag count).1 = (tag.takeWhile (· ≠ 0)).take (count - 1) ++ [0] := by
  unfold strscpy
  dsimp only
  split
  · next hlt =>
    rw [List.take_of_length_le (by omega)]
  · rfl

theorem sentTag_toList (tag : List UInt8) : (sentTag tag).toList =
    (tag.takeWhile (· ≠ 0)).take (tagSize - 2) ++
      List.replicate (tagSize - ((tag.takeWhile (· ≠ 0)).take (tagSize - 2)).length) 0 := by
  have hle : ((tag.takeWhile (· ≠ 0)).take (tagSize - 2)).length ≤ tagSize - 2 := List.length_take_le _ _
  unfold sentTag
  generalize (tag.takeWhile (· ≠ 0)).take (tagSize - 2) = l at hle
  unfold tagSize at *
  apply List.ext_getElem
  · rw [Vector.length_toList, List.length_append, List.length_replicate]
    omega
  · intro i hi hi'
    rw [Vector.getElem_toList, Vector.getElem_ofFn]
    by_cases hlt : i < l.length
    · rw [List.getElem_append_left hlt, List.getD_eq_getElem _ _ hlt]
    · rw [List.getElem_append_right (Nat.not_lt.mp hlt), List.getElem_replicate,
        List.getD_eq_default _ _ (Nat.not_lt.mp hlt)]

/-- The stores of `virtio_video_cmd_stream_create`. -/
def createStores (format : UInt32) (copied : List UInt8) : List Store :=
  [put32 0 cmdStreamCreateCode, put32 4 streamId, put32 8 memTypeGuestPages, put32 12 memTypeGuestPages,
    put32 16 format, ⟨24, copied⟩, ⟨24 + (tagSize - 1), [0]⟩]

section

variable {streamId} {format : UInt32} {l : List UInt8} (hl : l.length ≤ tagSize - 2)
include hl

theorem createStores_apart : (createStores streamId format (l ++ [0])).Pairwise Store.Apart := by
  unfold tagSize at hl
  simp [createStores, Store.Apart, Store.stop, put32]
  omega

/-- The tag ends in zeros, stored or not. -/
theorem createStores_zero {i : Nat} (h : 24 + l.length ≤ i) :
    Mem.stores (fun _ => 0) (createStores streamId format (l ++ [0])) i = 0 := by
  have hapart : (createStores streamId format (l ++ [0])).Pairwise Store.Apart := createStores_apart hl
  by_cases hend : i = 24 + l.length
  · rw [hend]
    exact (Mem.stores_holds hapart ⟨24, l ++ [0]⟩ (by simp [createStores])).right.1
  by_cases hlast : i = 24 + (tagSize - 1)
  · rw [hlast]
    exact (Mem.stores_holds hapart ⟨24 + (tagSize - 1), [0]⟩ (by simp [createStores])).1
  refine Mem.stores_outside fun st hst => ?_
  simp only [createStores, put32, List.mem_cons, List.not_mem_nil, or_false] at hst
  rcases hst with rfl | rfl | rfl | rfl | rfl | rfl | rfl <;>
  · simp only [Store.stop, length_le32Bytes, List.length_append, List.length_singleton]
    omega

theorem createStores_holds : (Mem.stores (fun _ => 0) (createStores streamId format (l ++ [0]))).Holds 0
    (words [cmdStreamCreateCode, streamId, memTypeGuestPages, memTypeGuestPages, format, 0] ++
      (l ++ List.replicate (tagSize - l.length) 0)) := by
  have hapart : (createStores streamId format (l ++ [0])).Pairwise Store.Apart := createStores_apart hl
  refine Mem.holds_append.mpr ⟨Mem.holds_flatMap length_le32Bytes fun i v hv => ?_,
    Mem.holds_append.mpr ⟨?_, ?_⟩⟩
  · rcases i with _ | _ | _ | _ | _ | _ | i
    · cases hv
      exact Mem.stores_holds hapart (put32 0 _) (by simp [createStores])
    · cases hv
      exact Mem.stores_holds hapart (put32 4 _) (by simp [createStores])
    · cases hv
      exact Mem.stores_holds hapart (put32 8 _) (by simp [createStores])
    · cases hv
      exact Mem.stores_holds hapart (put32 12 _) (by simp [createStores])
    · cases hv
      exact Mem.stores_holds hapart (put32 16 _) (by simp [createStores])
    · -- the padding in front of the tag
      cases hv
      refine Mem.holds_zeros (n := 4) fun i hlo hhi => Mem.stores_outside fun st hst => ?_
      simp only [createStores, put32, List.mem_cons, List.not_mem_nil, or_false] at hst
      rcases hst with rfl | rfl | rfl | rfl | rfl | rfl | rfl <;>
      · simp only [Store.stop, length_le32Bytes, List.length_append, List.length_singleton]
        omega
    · cases hv
  · exact (Mem.stores_holds hapart ⟨24, l ++ [0]⟩ (by simp [createStores])).left
  · exact Mem.holds_zeros fun i hlo _ => createStores_zero hl hlo

end

theorem onWire_streamCreate (format : UInt32) (tag : List UInt8) :
    OnWire (.streamCreate streamId format tag) granted := by
  have hl : ((tag.takeWhile (· ≠ 0)).take (tagSize - 2)).length ≤ tagSize - 2 := List.length_take_le _ _
  have hbuild : (Request.streamCreate streamId format tag).build granted =
      getVbuf granted 88 (UInt32.ofNat cmdHdrSize) false >>= fun v =>
        .ok { v.put (createStores streamId format (strscpy tag (tagSize - 1)).1) with
          log := if (strscpy tag (tagSize - 1)).2 then [] else ["failed to copy stream tag\n"] } := rfl
  have hcopied : (strscpy tag (tagSize - 1)).1 = (tag.takeWhile (· ≠ 0)).take (tagSize - 2) ++ [0] :=
    strscpy_fst tag (by decide)
  rw [hcopied] at hbuild
  refine onWire_of_stores hbuild (fun v hv => put_stores _ v hv) rfl rfl ?_ ?_ (ownReply rfl (by decide)) id
  · rw [Message.encode, sentTag_toList]
    exact createStores_holds hl
  · intro st hst
    simp only [createStores, put32, List.mem_cons, List.not_mem_nil, or_false] at hst
    rcases hst with rfl | rfl | rfl | rfl | rfl | rfl | rfl <;>
    · simp only [Store.stop, length_le32Bytes, List.length_append, List.length_singleton, tagSize] at hl ⊢
      omega

/-! ## The arrays -/

/-- The store of element `i` of `data_sizes`. -/
def sizeStore (dataSize : List UInt32) (i : Nat) : List Store := [put32 (32 + 4 * i) (dataSize.getD i 0)]

theorem sizeStore_in (dataSize : List UInt32) (i : Nat) :
    ∀ st ∈ sizeStore dataSize i, 32 + 4 * i ≤ st.off ∧ st.stop ≤ 32 + 4 * (i + 1) := by
  simp only [sizeStore, List.mem_singleton, forall_eq, put32, Store.stop, length_le32Bytes]
  omega

/-- The stores of the other fields. -/
def queueHeader (resourceId : UInt32) (timestamp : UInt64) (queueType : QueueType) : List Store :=
  [put32 0 CmdType.resourceQueue.code, put32 4 streamId, put32 8 queueType.code, put32 12 resourceId, put32 16 0,
    put64 24 timestamp]

theorem queueHeader_stop (resourceId : UInt32) (timestamp : UInt64) (queueType : QueueType) :
    ∀ st ∈ queueHeader streamId resourceId timestamp queueType, st.stop ≤ 32 := by
  simp [queueHeader, put32, put64, Store.stop]

theorem onWire_resourceQueue (resourceId : UInt32) (timestamp : UInt64) (dataSize : List UInt32)
    (queueType : QueueType) : OnWire (.resourceQueue streamId resourceId timestamp dataSize queueType) granted := by
  by_cases hmany : dataSize.length ≤ maxPlanes
  · have hbuild : (Request.resourceQueue streamId resourceId timestamp dataSize queueType).build granted =
        getVbuf granted 64 resourceQueueRespSize false >>= fun v =>
          .ok (v.put (queueHeader streamId resourceId timestamp queueType ++
            (List.range dataSize.length).flatMap (sizeStore dataSize))) := by
      simp only [Request.build, cmdResourceQueue, putEach, if_pos hmany]
      rfl
    have hin := sizeStore_in dataSize
    have hstop := queueHeader_stop streamId resourceId timestamp queueType
    refine onWire_of_stores hbuild (put_stores _) rfl rfl ?_ ?_ (ownReply rfl (by decide)) (Nat.not_lt.mpr hmany)
    · rw [Message.encode, ← List.append_assoc]
      refine Mem.holds_append.mpr ⟨?_, Mem.holds_flatMap length_le32Bytes fun i v hv => ?_⟩
      · exact (Mem.holds_of_map_range (m := Mem.stores (fun _ => 0)
          (queueHeader streamId resourceId timestamp queueType)) rfl).congr fun j _ hj => Mem.stores_header hin _ hj
      · have hi : i < maxPlanes := by simpa using (List.getElem?_eq_some_iff.mp hv).1
        have hval : dataSize.getD i 0 = v := by simpa [hi] using hv
        show Mem.Holds _ (32 + 4 * i) _
        by_cases hlt : i < dataSize.length
        · exact Mem.stores_element hin (fun i => List.pairwise_singleton _ _) hlt (put32 (32 + 4 * i) v)
            (by rw [sizeStore, hval]; exact List.mem_singleton_self _)
        · rw [← hval, List.getD_eq_default _ _ (Nat.not_lt.mp hlt)]
          exact Mem.holds_zeros (n := 4) fun j hj _ => Mem.stores_behind hin hstop (by omega)
    · intro st hst
      rcases List.mem_append.mp hst with hst | hst
      · exact Nat.le_trans (hstop st hst) (by decide)
      · have := flatMap_stop hin hst
        unfold maxPlanes at hmany
        omega
  · refine onWire_pastArray (n := resourceQueueRespSize) 64 ?_ (by decide) (by simp [Request.message])
      (ownReply rfl (by decide)) rfl (Nat.not_le.mp hmany)
    simp only [Request.build, cmdResourceQueue, putEach, if_neg hmany]
    rfl

theorem length_planeEntry (p : PlaneFormat) : ([p.planeSize, p.stride].flatMap le32Bytes).length = 8 := rfl

/-- The stores of element `i` of `plane_formats`. -/
def planeStores (info : FormatInfo) (i : Nat) : List Store :=
  [put32 (56 + 8 * i) (planeAt ⟨0, 0⟩ info.planeFormat i).planeSize,
    put32 (56 + 8 * i + 4) (planeAt ⟨0, 0⟩ info.planeFormat i).stride]

theorem planeStores_in (info : FormatInfo) (i : Nat) :
    ∀ st ∈ planeStores info i, 56 + 8 * i ≤ st.off ∧ st.stop ≤ 56 + 8 * (i + 1) := by
  simp only [planeStores, List.mem_cons, List.not_mem_nil, or_false, forall_eq_or_imp, forall_eq, put32, Store.stop,
    length_le32Bytes]
  omega

/-- The stores of the other fields, in the order of the code. -/
def paramsHeader (info : FormatInfo) (queueType : QueueType) : List Store :=
  [put32 0 cmdSetParamsCode, put32 4 streamId, put32 8 queueType.code, put32 48 info.frameRate,
    put32 16 info.frameWidth, put32 20 info.frameHeight, put32 12 (v4l2FormatToVirtio info.fourccFormat),
    put32 24 info.minBuffers, put32 28 info.maxBuffers, put32 52 info.numPlanes]

theorem paramsHeader_stop (info : FormatInfo) (queueType : QueueType) :
    ∀ st ∈ paramsHeader streamId info queueType, st.stop ≤ 56 := by
  simp [paramsHeader, put32, Store.stop]

theorem planeStores_apart (info : FormatInfo) (i : Nat) : (planeStores info i).Pairwise Store.Apart := by
  simp [planeStores, Store.Apart, Store.stop, put32]

theorem onWire_setParams (info : FormatInfo) (queueType : QueueType) :
    OnWire (.setParams streamId info queueType) granted := by
  by_cases hmany : info.numPlanes.toNat ≤ maxPlanes
  · have hbuild : (Request.setParams streamId info queueType).build granted =
        getVbuf granted 120 (UInt32.ofNat cmdHdrSize) false >>= fun v =>
          .ok (v.put (paramsHeader streamId info queueType ++
            (List.range info.numPlanes.toNat).flatMap (planeStores info))) := by
      simp only [Request.build, cmdSetParams, putEach, if_pos hmany]
      rfl
    have hin := planeStores_in info
    have hstop := paramsHeader_stop streamId info queueType
    refine onWire_of_stores hbuild (put_stores _) rfl rfl ?_ ?_ (ownReply rfl (by decide)) (Nat.not_lt.mpr hmany)
    · simp only [Message.encode, words, planeWords, List.flatMap_append, List.flatMap_assoc]
      refine Mem.holds_append.mpr ⟨?_, Mem.holds_flatMap length_planeEntry fun i p hp => ?_⟩
      · exact (Mem.holds_of_map_range (m := Mem.stores (fun _ => 0) (paramsHeader streamId info queueType)) rfl).congr
          fun j _ hj => Mem.stores_header hin _ hj
      · have hi : i < maxPlanes := by simpa using (List.getElem?_eq_some_iff.mp hp).1
        have hval : (if i < info.numPlanes.toNat then info.planeFormat[i] else ⟨0, 0⟩) = p := by
          simpa [sentPlanes, hi] using hp
        show Mem.Holds _ (56 + 8 * i) (le32Bytes p.planeSize ++ (le32Bytes p.stride ++ []))
        rw [List.append_nil]
        by_cases hlt : i < info.numPlanes.toNat
        · have hplane : planeAt ⟨0, 0⟩ info.planeFormat i = p := by
            rw [← hval, if_pos hlt, planeAt, Vector.getElem?_eq_getElem hi]
            rfl
          refine Mem.holds_append.mpr ⟨?_, ?_⟩
          · exact Mem.stores_element hin (planeStores_apart info) hlt (put32 (56 + 8 * i) p.planeSize)
              (by simp [planeStores, hplane])
          · exact Mem.stores_element hin (planeStores_apart info) hlt (put32 (56 + 8 * i + 4) p.stride)
              (by simp [planeStores, hplane])
        · rw [← hval, if_neg hlt]
          exact Mem.holds_zeros (n := 8) fun j hj _ => Mem.stores_behind hin hstop (by omega)
    · intro st hst
      rcases List.mem_append.mp hst with hst | hst
      · exact Nat.le_trans (hstop st hst) (by decide)
      · have := flatMap_stop hin hst
        unfold maxPlanes at hmany
        omega
  · refine onWire_pastArray (n := UInt32.ofNat cmdHdrSize) 120 ?_ (by decide) (by simp [Request.message])
      (ownReply rfl (by decide)) rfl (Nat.not_le.mp hmany)
    simp only [Request.build, cmdSetParams, putEach, if_neg hmany]
    rfl

/-- **The device reads the message a call is about.** -/
theorem request_onWire (c : Request) (granted : Bool) : OnWire c granted := by
  cases c with
  | streamCreate streamId format tag => exact onWire_streamCreate granted streamId format tag
  | resourceQueue streamId resourceId timestamp dataSize queueType =>
    exact onWire_resourceQueue granted streamId resourceId timestamp dataSize queueType
  | setParams streamId info queueType => exact onWire_setParams granted streamId info queueType
  | getControl streamId control => exact onWire_getControl granted streamId control
  | setControl streamId control value => exact onWire_setControl granted streamId control value
  | resourceAttach =>
    exact onWire_of_stores rfl (fun v hv => put_stores _ v hv) rfl rfl (Mem.holds_of_map_range rfl)
      (by simp [put32, Store.stop]) (ownReply rfl (by decide)) id
  | queryCapability | queryControlLevel | queryControlProfile =>
    exact onWire_of_stores rfl (put_stores _) rfl rfl (Mem.holds_of_map_range rfl) (by simp [put32, Store.stop])
      (.inl rfl) id
  | streamDestroy | streamDrain | queueDetachResources | queueClear | getParams =>
    exact onWire_of_stores rfl (put_stores _) rfl rfl (Mem.holds_of_map_range rfl) (by simp [put32, Store.stop])
      (ownReply rfl (by decide)) id

end

/-! ## The words of the other models -/

/-- The call behind a synchronous command, for which the caller has a buffer. -/
def ofSyncCmd (s : Stream) : SyncCmd → Request
  | .queueDetachResources queueType => .queueDetachResources s.streamId queueType
  | .queueClear queueType => .queueClear s.streamId queueType
  | .queryCapability respSize queueType => .queryCapability (UInt32.ofNat respSize) true queueType
  | .queryControlLevel respSize format => .queryControlLevel (UInt32.ofNat respSize) true format
  | .queryControlProfile respSize format => .queryControlProfile (UInt32.ofNat respSize) true format
  | .getParams queueType => .getParams s.streamId queueType
  | .getControl control => .getControl s.streamId control

theorem syncCmd_request {request ws : List UInt32} {respSize : Nat} {cb : RespCb} {what : String} {s : Stream}
    {x : Exchange} {o : Outcome} (h : syncCmd request respSize cb what s x = some o) (hws : o.request = some ws) :
    ws = request := by
  unfold syncCmd at h
  obtain ⟨⟨t, r⟩, -, ho⟩ := Option.bind_eq_some_iff.1 h
  cases ho
  dsimp only at hws
  split at hws
  · cases hws
    rfl
  · cases hws

/-- The words a synchronous command is modelled by are its bytes in the vbuf. -/
theorem syncCmd_words {s : Stream} {c : SyncCmd} {x : Exchange} {o : Outcome} {ws : List UInt32}
    (h : c.run s x = some o) (hws : o.request = some ws) :
    ∃ msg, (ofSyncCmd s c).message = some msg ∧ words ws = msg.encode := by
  cases c with
  | getControl control =>
    change VirtioVideo.cmdGetControl s control x = some o at h
    unfold VirtioVideo.cmdGetControl at h
    rcases isControl_cases control with ⟨hno, -⟩ | ⟨-, c, rfl⟩
    · have hcb : getCtrlCb control = none := by
        simp only [isControl, decide_eq_false_iff_not, not_or] at hno
        simp [getCtrlCb, hno]
      rw [hcb] at h
      cases h
      cases hws
    · refine ⟨.getControl s.streamId c, by simp [ofSyncCmd, Request.message, ControlType.ofCode_code], ?_⟩
      obtain ⟨cb, hcb⟩ : ∃ cb, getCtrlCb c.code = some cb := by cases c <;> exact ⟨_, rfl⟩
      rw [hcb] at h
      rw [syncCmd_request h hws]
      rfl
  | _ =>
    refine ⟨_, rfl, ?_⟩
    rw [syncCmd_request h hws]
    rfl

/-- So are the words of SET_PARAMS. -/
theorem cmdSetParams_words {info : FormatInfo} {streamId : UInt32} {queueType : QueueType} {q : Queueing}
    {ws : List UInt32} {r : Except Errno Unit}
    (h : VirtioVideo.cmdSetParams streamId info queueType q = .ok (some ws, r)) :
    ∃ msg, (Request.setParams streamId info queueType).message = some msg ∧ words ws = msg.encode := by
  have hn : info.numPlanes.toNat ≤ maxPlanes := by
    by_cases hq : q = .noVbuf ∨ info.numPlanes.toNat ≤ maxPlanes
    · rcases hq with rfl | hle
      · cases h
      · exact hle
    · rw [cmdSetParams_faults hq] at h
      cases h
  obtain ⟨planes, hw, hat⟩ := writePlanes_some (planeAt ⟨0, 0⟩ info.planeFormat)
    (Vector.replicate maxPlanes ⟨0, 0⟩) hn
  have hplanes : planes = sentPlanes info := by
    apply Vector.ext
    intro i hi
    rw [hat i hi, sentPlanes, Vector.getElem_ofFn, planeAt, Vector.getElem?_eq_getElem hi]
    by_cases hlt : i < info.numPlanes.toNat
    · rw [if_pos hlt, if_pos hlt]
      rfl
    · rw [if_neg hlt, if_neg hlt, Vector.getElem_replicate]
  refine ⟨_, rfl, ?_⟩
  cases q with
  | noVbuf => cases h
  | refused _ | queued =>
    simp only [VirtioVideo.cmdSetParams, hw, checkPlanes, hplanes] at h
    cases h
    rfl

end Agl.VirtioVideo.Wire
