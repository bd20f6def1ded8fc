/-
Which messages of the RX queue become frames, what those frames are, and
that a frame sent out and brought back is the same frame.
-/
import Agl.Can.Frame

namespace Agl.VirtioCan

/-! ## The constants, bit by bit -/

theorem canEffFlag_isFlag : IsFlag canEffFlag 31 := by decide
theorem canRtrFlag_isFlag : IsFlag canRtrFlag 30 := by decide
theorem canErrFlag_isFlag : IsFlag canErrFlag 29 := by decide
theorem canEffMask_isMask : IsMask canEffMask 29 := by decide
theorem canSffMask_isMask : IsMask canSffMask 11 := by decide

/-! ## Copies -/

theorem Frame.copyIn_eq (cf : Frame) {src : List UInt8} {n : Nat} (hs : n ≤ src.length) (hd : n ≤ maxDlen cf.fd) :
    ∃ cf', cf.copyIn src n = some cf' ∧ cf'.fd = cf.fd ∧ cf'.canId = cf.canId ∧ cf'.len = cf.len ∧
      cf'.data.take n = src.take n := by
  have hm := memcpy_eq hs (by rw [cf.size]; exact hd : n ≤ cf.data.length)
  unfold Frame.copyIn
  split
  · next h =>
    rw [hm] at h
    cases h
  · next data h =>
    obtain rfl : src.take n ++ cf.data.drop n = data := Option.some.inj (hm.symm.trans h)
    refine ⟨_, rfl, rfl, rfl, rfl, ?_⟩
    rw [List.take_append_of_le_length (by rw [List.length_take]; omega), List.take_take, Nat.min_self]

theorem length_rxSdu (m : Mem) : (rxSdu m).length = 64 := by
  simp [rxSdu]

/-! ## The branches of `virtio_can_read_rx_queue` -/

/-- `if (len > k) len = k;` -/
theorem clamp_toNat {len k : UInt32} : (if len > k then k else len).toNat = min len.toNat k.toNat := by
  split
  · next h => exact (Nat.min_eq_right (Nat.le_of_lt (UInt32.lt_iff_toNat_lt.mp h))).symm
  · next h => exact (Nat.min_eq_left (Nat.le_of_not_lt fun hlt => h (UInt32.lt_iff_toNat_lt.mpr hlt))).symm

theorem rxRtr_ok {env : RxEnv} {flags canId len : UInt32} {r : UInt32 × UInt32}
    (h : rxRtr env flags canId len = .ok r) (hr : flags &&& flagsRtr ≠ 0) :
    env.features fRtrFrames = true ∧ flags &&& flagsFd = 0 ∧ len.toNat ≤ 15 := by
  unfold rxRtr at h
  rw [if_pos hr] at h
  split at h
  · cases h
  · next hf =>
    split at h
    · cases h
    · next hfd =>
      split at h
      · cases h
      · next hl =>
        have hl : ¬(15 : UInt32).toNat < len.toNat := fun hlt => hl (UInt32.lt_iff_toNat_lt.mpr hlt)
        exact ⟨by simpa using hf, by simpa using hfd, Nat.le_of_not_lt hl⟩

theorem rxRtr_eq {env : RxEnv} {flags len : UInt32} (canId : UInt32)
    (h : flags &&& flagsRtr ≠ 0 → env.features fRtrFrames = true ∧ flags &&& flagsFd = 0 ∧ len.toNat ≤ 15) :
    ∃ len', rxRtr env flags canId len = .ok (canId ||| (if flags &&& flagsRtr ≠ 0 then canRtrFlag else 0), len') ∧
      len'.toNat = if flags &&& flagsRtr ≠ 0 then min len.toNat 8 else len.toNat := by
  unfold rxRtr
  by_cases hr : flags &&& flagsRtr ≠ 0
  · obtain ⟨hf, hfd, hl⟩ := h hr
    have hl : ¬len > 0xF := fun hlt => absurd (UInt32.lt_iff_toNat_lt.mp hlt) (Nat.not_lt.mpr hl)
    exact ⟨if len > 0x8 then 0x8 else len, by simp [hr, hf, hfd, hl], by rw [if_pos hr, clamp_toNat]; rfl⟩
  · have hor : canId ||| 0 = canId := UInt32.or_zero
    exact ⟨len, by simp [hr, hor], by rw [if_neg hr]⟩

theorem rxAlloc_ok {env : RxEnv} {flags canId len : UInt32} {r : UInt32 × Frame}
    (h : rxAlloc env flags canId len = .ok r) :
    (flags &&& flagsFd ≠ 0 → env.features fCanFd = true) ∧
      (flags &&& flagsFd = 0 → env.features fCanClassic = true) ∧ env.skb = true := by
  unfold rxAlloc at h
  by_cases hfd : flags &&& flagsFd = 0
  · rw [if_neg (by simpa using hfd)] at h
    split at h
    · cases h
    · next hf =>
      split at h
      · cases h
      · next hs => exact ⟨fun h => absurd hfd h, fun _ => by simpa using hf, by simpa using hs⟩
  · rw [if_pos hfd] at h
    split at h
    · cases h
    · next hf =>
      split at h
      · cases h
      · next hs => exact ⟨fun _ => by simpa using hf, fun h => absurd h hfd, by simpa using hs⟩

theorem rxAlloc_eq {env : RxEnv} {flags : UInt32} (canId len : UInt32)
    (hfd : flags &&& flagsFd ≠ 0 → env.features fCanFd = true)
    (hcl : flags &&& flagsFd = 0 → env.features fCanClassic = true) (hs : env.skb = true) :
    ∃ len', rxAlloc env flags canId len = .ok (len', .alloc (decide (flags &&& flagsFd ≠ 0))) ∧
      len'.toNat = min len.toNat (maxDlen (decide (flags &&& flagsFd ≠ 0))) := by
  unfold rxAlloc
  by_cases h : flags &&& flagsFd = 0
  · exact ⟨if len > 8 then 8 else len, by simp [h, hcl h, hs], by rw [clamp_toNat]; simp [h, maxDlen]⟩
  · exact ⟨if len > 64 then 64 else len, by simp [h, hfd h, hs], by rw [clamp_toNat]; simp [h, maxDlen]⟩

/-! ## What is accepted -/

/-- The message is long enough, of the right type, with known flags that the
negotiated features and its length allow, the controller is active, and
there is an skb. -/
structure Accepts (env : RxEnv) (m : Mem) (len : UInt32) : Prop where
  header : headerSize ≤ len.toNat
  active : env.canState.val < CanState.errorPassive.val
  msgType : m.le16 0 = virtioCanRx
  known : m.le32 4 &&& ~~~canKnownFlags = 0
  rtr : m.le32 4 &&& flagsRtr ≠ 0 →
    env.features fRtrFrames = true ∧ m.le32 4 &&& flagsFd = 0 ∧ len.toNat - headerSize ≤ 15
  fd : m.le32 4 &&& flagsFd ≠ 0 → env.features fCanFd = true
  classic : m.le32 4 &&& flagsFd = 0 → env.features fCanClassic = true
  skb : env.skb = true

/-- What the frame taken from a message is. -/
structure Decoded (m : Mem) (len : UInt32) (cf : Frame) : Prop where
  fd : cf.fd = decide (m.le32 4 &&& flagsFd ≠ 0)
  canId : cf.canId = rxId (m.le32 4) (m.le32 8) ||| if m.le32 4 &&& flagsRtr ≠ 0 then canRtrFlag else 0
  len : cf.len.toNat = min (len.toNat - headerSize) (maxDlen cf.fd)
  payload : m.le32 4 &&& flagsRtr = 0 → cf.data.take cf.len.toNat = (rxSdu m).take cf.len.toNat

theorem maxDlen_le (fd : Bool) : maxDlen fd ≤ 64 := by
  cases fd <;> decide

/-- The used length without the header. -/
theorem payload_toNat {len : UInt32} (h : headerSize ≤ len.toNat) : (len - 12).toNat = len.toNat - headerSize :=
  UInt32.toNat_sub_of_le _ _ (UInt32.le_iff_toNat_le.mpr h)

theorem accepts_of_ok {env : RxEnv} {m : Mem} {len : UInt32} {r : Option Frame} (h : rxFrame env m len = .ok r) :
    Accepts env m len := by
  unfold rxFrame at h
  dsimp only at h
  split at h
  · cases h
  · next hlen =>
    have hlen : headerSize ≤ len.toNat := Nat.le_of_not_lt hlen
    split at h
    · cases h
    · next hstate =>
      split at h
      · cases h
      · next htype =>
        split at h
        · cases h
        · next hknown =>
          cases hr : rxRtr env (m.le32 4) (rxId (m.le32 4) (m.le32 8)) (len - 12) with
          | error d =>
            rw [hr] at h
            cases h
          | ok r =>
            rw [hr] at h
            cases ha : rxAlloc env (m.le32 4) r.1 r.2 with
            | error d =>
              simp only [bind, Except.bind, ha] at h
              cases h
            | ok =>
              obtain ⟨hfd, hcl, hs⟩ := rxAlloc_ok ha
              exact {
                header := hlen
                active := Nat.lt_of_not_le hstate
                msgType := by simpa using htype
                known := by simpa using hknown
                rtr := fun h => by
                  have := rxRtr_ok hr h
                  rwa [payload_toNat hlen] at this
                fd := hfd
                classic := hcl
                skb := hs }

/-- The skb filled in with a length that fits it. -/
theorem rxFill_eq (m : Mem) (flags canId : UInt32) {len : UInt32} (cf : Frame) (hl : len.toNat ≤ maxDlen cf.fd) :
    ∃ cf', rxFill m flags canId len cf = some cf' ∧ cf'.fd = cf.fd ∧ cf'.canId = canId ∧
      cf'.len.toNat = len.toNat ∧ (flags &&& flagsRtr = 0 → cf'.data.take len.toNat = (rxSdu m).take len.toNat) := by
  have h64 : len.toNat ≤ 64 := Nat.le_trans hl (maxDlen_le _)
  have hbyte : len.toUInt8.toNat = len.toNat := by
    rw [UInt32.toNat_toUInt8]
    omega
  unfold rxFill
  by_cases hr : flags &&& flagsRtr = 0
  · obtain ⟨cf', hc, hfd, hid, hlen, hd⟩ :=
      Frame.copyIn_eq { cf with canId, len := len.toUInt8 } (by rw [length_rxSdu]; exact h64 :
        len.toNat ≤ (rxSdu m).length) hl
    exact ⟨cf', by simpa only [if_pos hr] using hc, hfd, hid, by rw [hlen]; exact hbyte, fun _ => hd⟩
  · exact ⟨_, if_neg hr, rfl, rfl, hbyte, fun h => absurd h hr⟩

theorem Accepts.decoded {env : RxEnv} {m : Mem} {len : UInt32} (h : Accepts env m len) :
    ∃ cf, rxFrame env m len = .ok (some cf) ∧ Decoded m len cf := by
  have hlen := payload_toNat h.header
  have hrtr : m.le32 4 &&& flagsRtr ≠ 0 →
      env.features fRtrFrames = true ∧ m.le32 4 &&& flagsFd = 0 ∧ (len - 12).toNat ≤ 15 := by
    rw [hlen]
    exact h.rtr
  obtain ⟨len₁, hr, hl₁⟩ := rxRtr_eq (rxId (m.le32 4) (m.le32 8)) hrtr
  obtain ⟨len₂, ha, hl₂⟩ := rxAlloc_eq (rxId (m.le32 4) (m.le32 8) |||
    if m.le32 4 &&& flagsRtr ≠ 0 then canRtrFlag else 0) len₁ h.fd h.classic h.skb
  have hfit : len₂.toNat ≤ maxDlen (decide (m.le32 4 &&& flagsFd ≠ 0)) := by
    rw [hl₂]
    exact Nat.min_le_right _ _
  obtain ⟨cf, hf, hfd, hid, hl, hd⟩ := rxFill_eq m (m.le32 4) (rxId (m.le32 4) (m.le32 8) |||
    if m.le32 4 &&& flagsRtr ≠ 0 then canRtrFlag else 0) (.alloc (decide (m.le32 4 &&& flagsFd ≠ 0))) hfit
  have hfd : cf.fd = decide (m.le32 4 &&& flagsFd ≠ 0) := hfd
  refine ⟨cf, ?_, hfd, hid, ?_, fun hr => by rw [hl]; exact hd hr⟩
  · have hheader : ¬len.toNat < headerSize := Nat.not_lt.mpr h.header
    have hstate : ¬env.canState.val ≥ CanState.errorPassive.val := Nat.not_le.mpr h.active
    unfold rxFrame
    rw [if_neg hheader, if_neg hstate, if_neg (by simpa using h.msgType), if_neg (by simpa using h.known), hr]
    simp only [bind, Except.bind, ha, hf]
  · -- an RTR length is clamped twice, to the same bound
    rw [hl, hl₂, hl₁, hlen, hfd]
    by_cases hr : m.le32 4 &&& flagsRtr ≠ 0
    · have hnfd := (h.rtr hr).2.1
      rw [if_pos hr, hnfd, Nat.min_assoc]
      rfl
    · rw [if_neg hr]

/-- What is promised of every frame handed to the stack: an 11-bit
identifier, or a 29-bit one with `CAN_EFF_FLAG`; a length that its kind
allows; a payload from within `sdu`. -/
structure WellFormed (m : Mem) (cf : Frame) : Prop where
  id : ∃ id rtr, (rtr = 0 ∨ rtr = canRtrFlag) ∧
    ((id ≤ canSffMask ∧ cf.canId = id ||| rtr) ∨ (id ≤ canEffMask ∧ cf.canId = id ||| canEffFlag ||| rtr))
  len : cf.len.toNat ≤ maxDlen cf.fd
  rtr : cf.canId &&& canRtrFlag ≠ 0 → cf.fd = false
  payload : cf.canId &&& canRtrFlag = 0 → cf.len.toNat ≤ (rxSdu m).length ∧
    cf.data.take cf.len.toNat = (rxSdu m).take cf.len.toNat

/-- The RTR flag comes from the message's flags, not from its identifier. -/
theorem bit_rxId_rtr (flags canId : UInt32) : bit (rxId flags canId) 30 = false := by
  have h : bit canEffMask 30 = false ∧ bit canEffFlag 30 = false ∧ bit canSffMask 30 = false := by decide
  unfold rxId
  split <;> simp [bit_and, bit_or, h]

theorem Decoded.rtr_iff {m : Mem} {len : UInt32} {cf : Frame} (h : Decoded m len cf) :
    cf.canId &&& canRtrFlag = 0 ↔ m.le32 4 &&& flagsRtr = 0 := by
  have hflag : bit canRtrFlag 30 = true := by decide
  rw [canRtrFlag_isFlag.and_eq_zero, h.canId, bit_or, bit_rxId_rtr, Bool.false_or]
  by_cases hr : m.le32 4 &&& flagsRtr = 0 <;> simp [hr, hflag]

theorem Decoded.wellFormed {env : RxEnv} {m : Mem} {len : UInt32} {cf : Frame} (h : Decoded m len cf)
    (ha : Accepts env m len) : WellFormed m cf where
  id := by
    have hrtr := ite_eq_or_eq (m.le32 4 &&& flagsRtr ≠ 0) canRtrFlag 0
    rw [h.canId]
    unfold rxId
    split
    · exact ⟨_, _, hrtr.symm, .inr ⟨and_le _ _, rfl⟩⟩
    · exact ⟨_, _, hrtr.symm, .inl ⟨and_le _ _, rfl⟩⟩
  len := by
    rw [h.len]
    exact Nat.min_le_right _ _
  rtr hr := by
    rw [h.fd, (ha.rtr fun h0 => hr (h.rtr_iff.mpr h0)).2.1]
    rfl
  payload hr := by
    refine ⟨?_, h.payload (h.rtr_iff.mp hr)⟩
    rw [length_rxSdu, h.len]
    exact Nat.le_trans (Nat.min_le_right _ _) (maxDlen_le _)

/-! ## The reception theorem -/

/-- **What `virtio_can_read_rx_queue` delivers.** For every message, used
length, feature set and controller state: it stays within the message and
the frame, delivers a frame exactly when the message is accepted, and the
frame is well formed and the one that the message says. -/
theorem readRxQueue_delivers (env : RxEnv) (taken : Bool) (stats : RxStats) (m : Mem) (len : UInt32) :
    ∃ r, readRxQueue env taken stats (some (m, len)) = some r ∧
      (r.delivered.isSome = true ↔ Accepts env m len) ∧
      ∀ cf, r.delivered = some cf → WellFormed m cf ∧ Decoded m len cf := by
  by_cases h : Accepts env m len
  · obtain ⟨cf, hf, hd⟩ := h.decoded
    refine ⟨⟨1, countRx (m.le32 4) cf taken stats, some cf, none, true⟩, by simp only [readRxQueue, hf], ?_, ?_⟩
    · exact ⟨fun _ => h, fun _ => rfl⟩
    · intro cf' he
      cases he
      exact ⟨hd.wellFormed h, hd⟩
  · cases hf : rxFrame env m len with
    | ok r => exact absurd (accepts_of_ok hf) h
    | error d =>
      refine ⟨_, by simp only [readRxQueue, hf]; rfl, ?_, ?_⟩
      · exact ⟨fun hs => (by cases hs), fun ha => absurd ha h⟩
      · intro cf he
        cases he

/-! ## The message made of a frame -/

/-- What `virtio_can_start_xmit` puts into a message it makes. -/
structure Encoded (cf : Frame) (out : TxOut) (n : Nat) : Prop where
  noErr : cf.canId &&& canErrFlag = 0
  len : n = min cf.len.toNat 64
  msgType : out.msgType = virtioCanTx
  flags : out.flags = txFlags cf
  canId : out.canId = cf.canId &&& canEffMask
  size : out.sdu.length = 64
  payload : cf.canId &&& canRtrFlag = 0 → out.sdu.take n = cf.data.take n

/-- The flags say what kind of frame it is, and nothing else. -/
theorem txFlags_spec (cf : Frame) :
    (txFlags cf &&& flagsExtended ≠ 0 ↔ cf.canId &&& canEffFlag ≠ 0) ∧
      (txFlags cf &&& flagsRtr ≠ 0 ↔ cf.canId &&& canRtrFlag ≠ 0) ∧
      (txFlags cf &&& flagsFd ≠ 0 ↔ cf.fd = true) ∧ txFlags cf &&& ~~~canKnownFlags = 0 := by
  unfold txFlags
  by_cases he : cf.canId &&& canEffFlag = 0 <;> by_cases hr : cf.canId &&& canRtrFlag = 0 <;> cases cf.fd <;>
    simp only [he, hr, ne_eq, not_true, not_false_eq_true, ↓reduceIte, Bool.false_eq_true] <;> decide

theorem buildTx_message {dropped : Frame → Bool} {mem : Bool} {cf : Frame} {out : TxOut} {n : Nat}
    (h : buildTx dropped mem cf = .message out n) : dropped cf = false ∧ Encoded cf out n := by
  unfold buildTx at h
  split at h
  · cases h
  · next hd =>
    split at h
    · cases h
    · next he =>
      split at h
      · cases h
      · have hd : dropped cf = false := by simpa using hd
        have he : cf.canId &&& canErrFlag = 0 := by simpa using he
        dsimp only at h
        split at h
        · split at h
          · cases h
          · next sdu hm =>
            cases h
            have hlen := memcpy_length hm
            unfold memcpy at hm
            split at hm
            · next hn =>
              cases hm
              exact ⟨hd, he, rfl, rfl, rfl, rfl, by rw [hlen]; rfl, fun _ => by
                rw [List.take_append_of_le_length (by rw [List.length_take]; omega), List.take_take, Nat.min_self]⟩
            · cases hm
        · next hr =>
          cases h
          exact ⟨hd, he, rfl, rfl, rfl, rfl, rfl, fun hr' => absurd hr' ((txFlags_spec cf).2.1.mp hr)⟩

/-! ## There and back -/

/-- What was sent, with the type of a received message. -/
def TxOut.returned (t : TxOut) (n : Nat) : List UInt8 := le16Bytes virtioCanRx ++ (t.sent n).drop 2

theorem TxOut.returned_eq (t : TxOut) (n : Nat) :
    t.returned n = le16Bytes virtioCanRx ++ (le16Bytes t.reserved ++ (le32Bytes t.flags ++
      (le32Bytes t.canId ++ t.sdu.take n))) := by
  have hs : t.sent n = le16Bytes t.msgType ++ (le16Bytes t.reserved ++ (le32Bytes t.flags ++
      (le32Bytes t.canId ++ t.sdu.take n))) := by
    simp only [TxOut.sent, TxOut.bytes, List.append_assoc, headerSize]
    rw [Nat.add_comm]
    rfl
  rw [TxOut.returned, hs]
  rfl

/-- The fields of the message, read from memory that holds it. -/
structure Carries (m : Mem) (out : TxOut) (n : Nat) : Prop where
  msgType : m.le16 0 = virtioCanRx
  flags : m.le32 4 = out.flags
  canId : m.le32 8 = out.canId
  sdu : (rxSdu m).take n = out.sdu.take n

theorem Carries.of_holds {m : Mem} {out : TxOut} {n : Nat} (hn : n ≤ out.sdu.length) (h64 : out.sdu.length = 64)
    (h : m.Holds 0 (out.returned n)) : Carries m out n := by
  rw [TxOut.returned_eq] at h
  have hflags := h.right.right
  refine ⟨h.left.le16, hflags.left.le32, hflags.right.left.le32, ?_⟩
  have hsdu := hflags.right.right.map_range
  have hlen : (out.sdu.take n).length = n := by rw [List.length_take]; omega
  rw [hlen] at hsdu
  rw [← hsdu, rxSdu, ← List.map_take, List.take_range, Nat.min_eq_left (by omega)]
  rfl

/-- The RTR flag, put back. -/
theorem bit_rtr (cf : Frame) {i : Nat} (hi : i < 32) :
    bit (if txFlags cf &&& flagsRtr ≠ 0 then canRtrFlag else 0) i = (decide (i = 30) && bit cf.canId 30) := by
  have hrtr := (txFlags_spec cf).2.1.trans canRtrFlag_isFlag.and_ne_zero
  cases h : bit cf.canId 30
  · rw [if_neg fun hr => by rw [hrtr.mp hr] at h; cases h]
    simp
  · rw [if_pos (hrtr.mpr h), canRtrFlag_isFlag.2 i hi, Bool.and_true]

/-- The identifier survives being taken apart and put together. -/
theorem rxId_txFlags {cf : Frame} (herr : cf.canId &&& canErrFlag = 0)
    (hid : cf.canId &&& canEffFlag = 0 → cf.canId &&& canEffMask ≤ canSffMask) :
    rxId (txFlags cf) (cf.canId &&& canEffMask) ||| (if txFlags cf &&& flagsRtr ≠ 0 then canRtrFlag else 0) =
      cf.canId := by
  have h29 : bit cf.canId 29 = false := canErrFlag_isFlag.and_eq_zero.mp herr
  have hext := (txFlags_spec cf).1
  apply eq_of_bit
  intro i hi
  rw [bit_or, bit_rtr cf hi]
  unfold rxId
  -- bits 0 to 28 are the identifier, then the error, RTR and extended flags
  have hi : i < 29 ∨ i = 29 ∨ i = 30 ∨ i = 31 := by omega
  by_cases heff : cf.canId &&& canEffFlag = 0
  · have h31 : bit cf.canId 31 = false := canEffFlag_isFlag.and_eq_zero.mp heff
    rw [if_neg fun h => hext.mp h heff, bit_and, bit_and]
    rcases hi with hi | rfl | rfl | rfl
    · have h32 : i < 32 := by omega
      have hne : i ≠ 30 := by omega
      have hmask := canEffMask_isMask.2 i h32
      rw [decide_eq_true hi] at hmask
      by_cases h11 : i < 11
      · simp [hmask, canSffMask_isMask.2 i h32, h11, hne]
      · have hzero := canSffMask_isMask.bit_of_le (hid heff) (Nat.le_of_not_lt h11)
        rw [bit_and, hmask, Bool.and_true] at hzero
        simp [hzero, hne]
    · simp [h29]
    · simp [canSffMask_isMask.2 30 (by decide)]
    · simp [h31]
  · have h31 : bit cf.canId 31 = true := canEffFlag_isFlag.and_ne_zero.mp heff
    rw [if_pos (hext.mpr heff), bit_or, bit_and, bit_and]
    rcases hi with hi | rfl | rfl | rfl
    · have h32 : i < 32 := by omega
      have hne : i ≠ 30 ∧ i ≠ 31 := by omega
      simp [canEffMask_isMask.2 i h32, canEffFlag_isFlag.2 i h32, hi, hne]
    · simp [canEffFlag_isFlag.2 29 (by decide), h29]
    · simp [canEffMask_isMask.2 30 (by decide), canEffFlag_isFlag.2 30 (by decide)]
    · simp [canEffFlag_isFlag.2 31 (by decide), h31]

theorem txFlags_rtr_eq_zero {cf : Frame} : txFlags cf &&& flagsRtr = 0 ↔ cf.canId &&& canRtrFlag = 0 :=
  not_iff_not.mp (txFlags_spec cf).2.1

theorem txFlags_fd_eq_zero {cf : Frame} : txFlags cf &&& flagsFd = 0 ↔ cf.fd = false := by
  rw [← Bool.not_eq_true, ← (txFlags_spec cf).2.2.1, not_not]

/-- The used length of the message brought back: the header and the payload. -/
theorem Encoded.used_toNat {cf : Frame} {out : TxOut} {n : Nat} (he : Encoded cf out n) :
    (UInt32.ofNat (out.sent n).length).toNat = headerSize + n := by
  have hn := he.len
  have hlen : (out.sent n).length = headerSize + n := by
    simp only [TxOut.sent, TxOut.bytes, List.length_take, List.length_append, length_le16Bytes, length_le32Bytes,
      he.size, headerSize]
    omega
  rw [hlen, UInt32.toNat_ofNat']
  simp only [headerSize]
  omega

/-- The message brought back is accepted where the features of its kind are negotiated. -/
theorem Encoded.accepts {cf : Frame} {out : TxOut} {n : Nat} (he : Encoded cf out n)
    (hmax : cf.len.toNat ≤ maxDlen cf.fd) (hrtr : cf.canId &&& canRtrFlag ≠ 0 → cf.fd = false) {env : RxEnv}
    (hrtrFeature : cf.canId &&& canRtrFlag ≠ 0 → env.features fRtrFrames = true)
    (hkind : env.features (if cf.fd then fCanFd else fCanClassic) = true) (hskb : env.skb = true)
    (hstate : env.canState.val < CanState.errorPassive.val) {m : Mem} (hc : Carries m out n) :
    Accepts env m (UInt32.ofNat (out.sent n).length) := by
  have hflags : m.le32 4 = txFlags cf := hc.flags.trans he.flags
  obtain ⟨-, hfrtr, hffd, hknown⟩ := txFlags_spec cf
  exact {
    header := by rw [he.used_toNat]; omega
    active := hstate
    msgType := hc.msgType
    known := by rw [hflags]; exact hknown
    rtr := by
      intro hr
      rw [hflags] at hr ⊢
      have hr := hfrtr.mp hr
      have hcl := hrtr hr
      rw [hcl] at hmax
      have h8 : cf.len.toNat ≤ 8 := hmax
      have hn := he.len
      rw [he.used_toNat]
      exact ⟨hrtrFeature hr, txFlags_fd_eq_zero.mpr hcl, by omega⟩
    fd := by
      intro hf
      rw [hflags] at hf
      rw [hffd.mp hf] at hkind
      exact hkind
    classic := by
      intro hf
      rw [hflags] at hf
      rw [txFlags_fd_eq_zero.mp hf] at hkind
      exact hkind
    skb := hskb }

/-- **CAN frame round trip.** A frame that `virtio_can_start_xmit` puts into
a message comes out of `virtio_can_read_rx_queue` unchanged when the message
is brought back as a received one. -/
theorem frame_roundTrip {dropped : Frame → Bool} (hdrop : ∀ cf, dropped cf = false → cf.len.toNat ≤ maxDlen cf.fd)
    {mem : Bool} {cf : Frame} {out : TxOut} {n : Nat} (hsent : buildTx dropped mem cf = .message out n)
    (hrtr : cf.canId &&& canRtrFlag ≠ 0 → cf.fd = false)
    (hid : cf.canId &&& canEffFlag = 0 → cf.canId &&& canEffMask ≤ canSffMask)
    {env : RxEnv} (hrtrFeature : cf.canId &&& canRtrFlag ≠ 0 → env.features fRtrFrames = true)
    (hkind : env.features (if cf.fd then fCanFd else fCanClassic) = true) (hskb : env.skb = true)
    (hstate : env.canState.val < CanState.errorPassive.val) {m : Mem} (hm : m.Holds 0 (out.returned n))
    (taken : Bool) (stats : RxStats) :
    ∃ r cf', readRxQueue env taken stats (some (m, UInt32.ofNat (out.sent n).length)) = some r ∧
      r.delivered = some cf' ∧ cf'.fd = cf.fd ∧ cf'.canId = cf.canId ∧ cf'.len = cf.len ∧
      (cf.canId &&& canRtrFlag = 0 → cf'.data.take cf'.len.toNat = cf.data.take cf.len.toNat) := by
  obtain ⟨hd, he⟩ := buildTx_message hsent
  have hmax := hdrop cf hd
  have h64 := maxDlen_le cf.fd
  have hn : n = cf.len.toNat := by rw [he.len]; omega
  have hc := Carries.of_holds (by rw [he.size]; omega) he.size hm
  have hflags : m.le32 4 = txFlags cf := hc.flags.trans he.flags
  obtain ⟨cf', hf, hdec⟩ := (he.accepts hmax hrtr hrtrFeature hkind hskb hstate hc).decoded
  refine ⟨_, cf', by simp only [readRxQueue, hf]; rfl, rfl, ?_⟩
  have hfd : cf'.fd = cf.fd := by
    rw [hdec.fd, hflags, Bool.eq_iff_iff, decide_eq_true_iff]
    exact (txFlags_spec cf).2.2.1
  have hlen : cf'.len = cf.len := by
    apply UInt8.toNat_inj.mp
    rw [hdec.len, he.used_toNat, hfd]
    omega
  refine ⟨hfd, ?_, hlen, fun hr => ?_⟩
  · rw [hdec.canId, hflags, hc.canId, he.canId]
    exact rxId_txFlags he.noErr hid
  · have hr' : m.le32 4 &&& flagsRtr = 0 := by
      rw [hflags]
      exact txFlags_rtr_eq_zero.mpr hr
    rw [hdec.payload hr', hlen, ← hn, hc.sdu, he.payload hr]

/-- The length check of `can_dropped_invalid_skb`. -/
def tooLong (cf : Frame) : Bool := decide (cf.len.toNat > maxDlen cf.fd)

/-- A CAN FD frame with an extended identifier, and its message. -/
def fdFrame : Frame where
  fd := true
  canId := 0x92345678
  len := 12
  data := List.replicate 64 0xC3
  size := rfl

def fdOut : TxOut :=
  ⟨virtioCanTx, 0, 0xC000, 0x12345678, List.replicate 12 0xC3 ++ List.replicate 52 0⟩

theorem frame_roundTrip_fdFrame : ∃ r cf',
    readRxQueue ⟨fun _ => true, .errorActive, true⟩ true ⟨0, 0, 0⟩
      (some (Mem.ofList (fdOut.returned 12) fun _ => 0x55, UInt32.ofNat (fdOut.sent 12).length)) = some r ∧
      r.delivered = some cf' ∧ cf'.fd = true ∧ cf'.canId = 0x92345678 ∧ cf'.len = 12 ∧
      (fdFrame.canId &&& canRtrFlag = 0 → cf'.data.take cf'.len.toNat = fdFrame.data.take 12) := by
  have hdrop : ∀ cf, tooLong cf = false → cf.len.toNat ≤ maxDlen cf.fd := fun cf h =>
    Nat.le_of_not_lt (of_decide_eq_false h)
  have hsent : buildTx tooLong true fdFrame = .message fdOut 12 := by decide
  exact frame_roundTrip hdrop hsent (fun h => absurd rfl h) (fun h => absurd h (by decide)) (fun h => absurd rfl h)
    rfl rfl (by decide) (Mem.holds_ofList _ _) true ⟨0, 0, 0⟩

end Agl.VirtioCan
