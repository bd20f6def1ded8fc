/-
What an encoder stream asks of its device: each profile and level that it
sets is one that the device reports, unless the device reports a value that
the driver does not know.

Such a value is taken for the first item of its menu, which is then the
default, and sent as soon as the stream is opened (`setControl_reported_iff`).

What the application reads is what was last sent, with one exception: a
default that could not be sent when the stream was opened is not sent when
the application asks for it either (`controls_readBack`).
-/
import Agl.Video.EncControls

namespace Agl.VirtioVideo.EncControls

open Controls (Control)

/-! ## The tables -/

def Control.table : Control → List ConvertEntry
  | .profile => profileTable
  | .level => levelTable

def cid : Control → UInt32
  | .profile => cidProfile
  | .level => cidLevel

/-- The conversion of `virtio_video_enc_s_ctrl`. -/
def itemToVirtio : Control → UInt32 → UInt32
  | .profile => v4l2ProfileToVirtio
  | .level => v4l2LevelToVirtio

theorem toV4l2_eq (c : Control) (v : UInt32) : c.toV4l2 v = (translation (Control.table c) v).getD 0 := by
  cases c with
  | profile => exact profileTable_isMenuTable.toV4l2 v
  | level => exact levelTable_isMenuTable.toV4l2 v

theorem toV4l2_lt (c : Control) (v : UInt32) : c.toV4l2 v < 32 := by
  cases c with
  | profile => exact profileTable_isMenuTable.toV4l2_lt v
  | level => exact levelTable_isMenuTable.toV4l2_lt v

theorem itemToVirtio_zero (c : Control) : itemToVirtio c 0 = 0x100 := by
  cases c <;> decide

theorem itemToVirtio_entry (c : Control) :
    ∀ e ∈ (Control.table c).dropLast, itemToVirtio c e.v4l2Value = e.virtioValue := by
  cases c <;> decide

/-- Converted there and back, a value that is not in the table becomes the
first one. -/
theorem itemToVirtio_toV4l2 (c : Control) (v : UInt32) :
    itemToVirtio c (c.toV4l2 v) = if (translation (Control.table c) v).isSome then v else 0x100 := by
  rw [toV4l2_eq]
  cases ht : translation (Control.table c) v with
  | none => exact itemToVirtio_zero c
  | some item =>
    obtain ⟨e, he, rfl⟩ := Option.map_eq_some_iff.mp ht
    have hv : e.virtioValue = v := by simpa using List.find?_some he
    rw [Option.getD_some, itemToVirtio_entry c e (List.mem_of_find?_eq_some he), hv]
    rfl

/-! ## Menus -/

/-- An item that the mask lets through, up to the maximum. -/
theorem menuOf_unmasked {toV4l2 : UInt32 → UInt32} (hlt : ∀ v, toV4l2 v < 32) (vs : List UInt32) {item : UInt32}
    (hmax : item ≤ (menuOf toV4l2 vs).max) (hskip : bit (menuOf toV4l2 vs).skipMask item.toNat = false) :
    item ∈ vs.map toV4l2 := by
  have hs := foldl_sums hlt vs .init
  have he := foldl_entries toV4l2 vs .init
  rw [show ControlAcc.init.entries = [] from rfl, List.nil_append] at he
  have hi : item.toNat < 32 := UInt32.lt_of_le_of_lt hmax hs.max_lt
  rw [menuOf, bit_not _ hi, Bool.not_eq_false', hs.mask _ hi] at hskip
  obtain ⟨e, hmem, heq⟩ := hskip
  rw [← he, ← UInt32.toNat_inj.mp heq]
  exact hmem

theorem recordOf_eq (c : Control) (m : Mem) :
    recordOf c m = if reported m = [] then none else some (menuOf c.toV4l2 (reported m)) := by
  unfold recordOf
  rw [parseControl_val]
  by_cases h : reported m = []
  · have h0 : m.le32 controlRespSize = 0 := not_not.mp fun hn => reported_ne_nil.mpr hn h
    simp [h, h0]
  · simp [h, reported_ne_nil.mp h]

/-- The control that is made of a record. -/
def menuCtrl (c : Control) (d : ControlFmtData) : Ctrl := ⟨cid c, .menu d.max d.skipMask, false, d.min.toNat⟩

/-- The menu of a reply. -/
def replyMenu (c : Control) (m : Mem) : List Ctrl :=
  if reported m = [] then [] else [menuCtrl c (menuOf c.toV4l2 (reported m))]

/-- The menus of a format. -/
def CodedFormat.menus (f : CodedFormat) : List Ctrl :=
  if f.format = pixFmtH264 then replyMenu .profile f.profileReply ++ replyMenu .level f.levelReply else []

theorem mod_256 {x : UInt32} (h : x < 32) : x % 256 = x := by
  apply UInt32.toNat_inj.mp
  rw [UInt32.toNat_mod]
  exact Nat.mod_eq_of_lt (Nat.lt_trans h (by decide))

/-- The default of a menu is one of its items, so that V4L2 takes it. -/
theorem newMenu_eq {hdl : Handler} (hok : hdl.error = none) (c : Control) (m : Mem) :
    newMenu hdl (cid c) (recordOf c m) = ⟨hdl.ctrls ++ replyMenu c m, none⟩ := by
  obtain ⟨ctrls, error⟩ := hdl
  cases hok
  rw [recordOf_eq, replyMenu]
  by_cases h : reported m = []
  · simp [h, newMenu]
  · have hmin := menuOf_min_mem (toV4l2_lt c) h
    obtain ⟨-, hle, hskip⟩ := (menuOf_admits (toV4l2_lt c) _ _).mpr hmin
    have hmax : (menuOf c.toV4l2 (reported m)).max < 32 := (foldl_sums (toV4l2_lt c) (reported m) .init).max_lt
    rw [if_neg h, if_neg h]
    generalize menuOf c.toV4l2 (reported m) = d at hmin hle hskip hmax
    have hrange : ¬((d.min.toNat : Int) < 0 ∨ (d.min.toNat : Int) > d.max.toNat) := by
      have := UInt32.le_iff_toNat_le.mp hle
      omega
    simp only [newMenu, v4l2CtrlNewStdMenu, v4l2CtrlNew, mod_256 hmax, mod_256 (UInt32.lt_of_le_of_lt hle hmax),
      checkRange, if_neg hrange, Int.toNat_natCast, hskip, menuCtrl]
    rfl

theorem addMenus_eq {hdl : Handler} (hok : hdl.error = none) (f : CodedFormat) :
    addMenus hdl f.parsed = ⟨hdl.ctrls ++ f.menus, none⟩ := by
  unfold addMenus CodedFormat.menus
  by_cases hf : f.format = pixFmtH264
  · have hprofile := newMenu_eq hok .profile f.profileReply
    have hok' : (⟨hdl.ctrls ++ replyMenu .profile f.profileReply, none⟩ : Handler).error = none := rfl
    have hlevel := newMenu_eq hok' .level f.levelReply
    rw [if_pos hf, if_pos (show f.parsed.format = _ from hf)]
    rw [List.append_assoc] at hlevel
    exact (congrArg (newMenu · cidLevel _) hprofile).trans hlevel
  · rw [if_neg hf, if_neg (show f.parsed.format ≠ _ from hf), List.append_nil, ← hok]

theorem foldl_addMenus (device : List CodedFormat) (ctrls : List Ctrl) :
    (device.map CodedFormat.parsed).foldl addMenus ⟨ctrls, none⟩ =
      ⟨ctrls ++ device.flatMap CodedFormat.menus, none⟩ := by
  induction device generalizing ctrls with
  | nil => rw [List.flatMap_nil, List.append_nil]; rfl
  | cons f device ih => rw [List.map_cons, List.foldl_cons, addMenus_eq rfl, ih, List.flatMap_cons, List.append_assoc]

def minBuffersCtrl : Ctrl := ⟨cidMinBuffers, .integer minBufsMin minBufsMax, true, minBufsDef⟩

def bitrateCtrl (bitrate : UInt32) : List Ctrl :=
  if bitrate = 0 then [] else [⟨cidBitrate, .integer 1 0x7fffffff, false, bitrate.toNat⟩]

/-- Only a bitrate that does not fit an `s32` is refused. -/
theorem encInitCtrls_eq (device : List CodedFormat) (bitrate : UInt32) :
    ((encInitCtrls (device.map CodedFormat.parsed) bitrate).error = none ↔ bitrate.toNat ≤ 0x7fffffff) ∧
      (bitrate.toNat ≤ 0x7fffffff → (encInitCtrls (device.map CodedFormat.parsed) bitrate).ctrls =
        minBuffersCtrl :: device.flatMap CodedFormat.menus ++ bitrateCtrl bitrate) := by
  have hfirst :
      v4l2CtrlNewStd ⟨[], none⟩ cidMinBuffers minBufsMin minBufsMax minBufsDef = ⟨[minBuffersCtrl], none⟩ := by
    decide
  unfold encInitCtrls bitrateCtrl
  rw [hfirst]
  dsimp only
  rw [foldl_addMenus]
  by_cases h0 : bitrate = 0
  · simp [h0]
  · have hpos : 1 ≤ bitrate.toNat := Nat.pos_of_ne_zero fun hz => h0 (UInt32.toNat_inj.mp hz)
    simp only [h0, ne_eq, not_false_eq_true, if_true, if_false, v4l2CtrlNewStd, v4l2CtrlNew, checkRange,
      Option.isSome_none, Bool.false_eq_true]
    by_cases hle : bitrate.toNat ≤ 0x7fffffff
    · rw [if_neg (by omega)]
      simp [hle]
      decide
    · rw [if_pos (by omega)]
      simp [hle]

/-! ## Commands -/

/-- What `virtio_video_enc_s_ctrl` makes of a value. -/
def wireValue (id : UInt32) (val : Int) : UInt32 :=
  if id = cidBitrate then UInt32.ofInt val
  else if id = cidLevel then v4l2LevelToVirtio (UInt32.ofInt val)
  else v4l2ProfileToVirtio (UInt32.ofInt val)

theorem setControl_cases (env : Env) (streamId control value : UInt32) (sent : Sent) :
    (∃ e, setControl env streamId control value sent = (.error e, sent)) ∨
      setControl env streamId control value sent = (.ok (), (control, value) :: sent) := by
  unfold setControl
  split
  · next e _ => exact .inl ⟨e, rfl⟩
  · split
    · next e _ => exact .inl ⟨.errno e, rfl⟩
    · exact .inr rfl

/-- A call sends one command, or fails. -/
theorem encSCtrl_cases (env : Env) (streamId id : UInt32) (val : Int) (sent : Sent) :
    (∃ e, encSCtrl env streamId id val sent = (.error e, sent)) ∨
      encSCtrl env streamId id val sent = (.ok (), (v4l2ControlToVirtio id, wireValue id val) :: sent) := by
  unfold encSCtrl wireValue
  split
  · exact .inl ⟨.errno .eio, rfl⟩
  · dsimp only
    split
    · exact setControl_cases ..
    · split
      · exact setControl_cases ..
      · split
        · exact setControl_cases ..
        · exact .inl ⟨.errno .einval, rfl⟩

theorem control_cid (c : Control) : v4l2ControlToVirtio (cid c) = controlCode c := by
  cases c <;> decide

theorem wireValue_cid (c : Control) (item : UInt32) : wireValue (cid c) item.toNat = itemToVirtio c item := by
  have hof : UInt32.ofInt (item.toNat : Int) = item := by
    have hlt := item.toNat_lt
    have hmod : ((item.toNat : Int) % 2 ^ 32).toNat = item.toNat := by omega
    rw [UInt32.ofInt, hmod, UInt32.ofNat_toNat]
  cases c with
  | profile => rw [wireValue, hof]; rfl
  | level => rw [wireValue, hof]; rfl

/-! ## The runs -/

section

variable {device : List CodedFormat} {s s' : State} {a : Act}

/-- A control of an encoder stream: a menu has the value of an item of its
reply. -/
inductive Listed (device : List CodedFormat) (x : Ctrl) : Prop
  | readOnly : x.readOnly = true → Listed device x
  | bitrate : x.id = cidBitrate → Listed device x
  | menu {c f item} : f ∈ device → f.format = pixFmtH264 → item ∈ (reported (f.reply c)).map c.toV4l2 → x.id = cid c →
    x.range = .menu (menuOf c.toV4l2 (reported (f.reply c))).max (menuOf c.toV4l2 (reported (f.reply c))).skipMask →
    x.cur = item.toNat → Listed device x

theorem replyMenu_listed {f : CodedFormat} (hf : f ∈ device) (h264 : f.format = pixFmtH264) (c : Control) :
    ∀ x ∈ replyMenu c (f.reply c), Listed device x := by
  intro x hx
  unfold replyMenu at hx
  split at hx
  · cases hx
  · next hne =>
    rw [List.mem_singleton.mp hx]
    exact .menu hf h264 (menuOf_min_mem (toV4l2_lt c) hne) rfl rfl rfl

theorem initial_listed (bitrate : UInt32) :
    ∀ x ∈ minBuffersCtrl :: device.flatMap CodedFormat.menus ++ bitrateCtrl bitrate, Listed device x := by
  intro x hx
  rcases List.mem_append.mp hx with hx | hx
  · rcases List.mem_cons.mp hx with rfl | hx
    · exact .readOnly rfl
    · obtain ⟨f, hf, hx⟩ := List.mem_flatMap.mp hx
      unfold CodedFormat.menus at hx
      split at hx
      · next h264 =>
        rcases List.mem_append.mp hx with hx | hx
        · exact replyMenu_listed hf h264 .profile x hx
        · exact replyMenu_listed hf h264 .level x hx
      · cases hx
  · unfold bitrateCtrl at hx
    split at hx
    · cases hx
    · rw [List.mem_singleton.mp hx]
      exact .bitrate rfl

/-- A value that V4L2 lets through keeps a control as it is. -/
theorem Listed.validate {x : Ctrl} (h : Listed device x) {val cur : Int} (hv : x.range.validate val = .ok cur) :
    Listed device { x with cur } := by
  cases h with
  | readOnly h => exact .readOnly h
  | bitrate h => exact .bitrate h
  | @menu c f item hf h264 _ hid hrange _ =>
    rw [hrange, Range.validate] at hv
    split at hv
    · cases hv
    · next hle =>
      split at hv
      · cases hv
      · next hskip =>
        cases hv
        obtain ⟨item, hitem⟩ : ∃ item : UInt32, val = item.toNat := by
          have hmax := (menuOf c.toV4l2 (reported (f.reply c))).max.toNat_lt
          have hlt : val.toNat < 2 ^ 32 := by omega
          refine ⟨.ofNat val.toNat, ?_⟩
          rw [UInt32.toNat_ofNat_of_lt' hlt]
          omega
        subst hitem
        have hbit : bit (menuOf c.toV4l2 (reported (f.reply c))).skipMask item.toNat = false := by simpa using hskip
        refine .menu hf h264 (menuOf_unmasked (toV4l2_lt c) _ ?_ hbit) hid hrange rfl
        exact UInt32.le_iff_toNat_le.mpr (by omega)

/-- The device reports the first value beside any that the driver does not
know. -/
def KnownValues (device : List CodedFormat) (c : Control) : Prop :=
  (∃ f ∈ device, f.format = pixFmtH264 ∧ ∃ v ∈ reported (f.reply c), translation (Control.table c) v = none) →
    Reports device c 0x100

/-- Its value is sent as one that the device reports. -/
theorem Listed.sent {x : Ctrl} (h : Listed device x) (hw : x.readOnly = false)
    (hknown : ∀ c, KnownValues device c) :
    v4l2ControlToVirtio x.id = controlBitrate ∨
      ∃ c, v4l2ControlToVirtio x.id = controlCode c ∧ Reports device c (wireValue x.id x.cur) := by
  cases h with
  | readOnly h => cases hw.symm.trans h
  | bitrate h =>
    rw [h]
    exact .inl (by decide)
  | @menu c f item hf h264 hitem hid _ hcur =>
    refine .inr ⟨c, by rw [hid, control_cid], ?_⟩
    obtain ⟨v, hv, rfl⟩ := List.mem_map.mp hitem
    rw [hid, hcur, wireValue_cid, itemToVirtio_toV4l2]
    split
    · exact ⟨f, hf, h264, hv⟩
    · next hnone => exact hknown c ⟨f, hf, h264, v, hv, Option.not_isSome_iff_eq_none.mp hnone⟩

/-- Every profile and level that has been sent is one that the device reports. -/
def SentReported (device : List CodedFormat) (sent : Sent) : Prop :=
  ∀ p ∈ sent, p.1 = controlBitrate ∨ ∃ c, p.1 = controlCode c ∧ Reports device c p.2

/-- The controls that are left to set up. -/
def Pc.rest : Pc → List Ctrl
  | .setup rest => rest
  | .ready => []

structure Inv (device : List CodedFormat) (s : State) : Prop where
  ctrls : ∀ x ∈ s.ctrls, Listed device x
  rest : ∀ x ∈ s.pc.rest, Listed device x
  sent : SentReported device s.sent

theorem setCur_listed {x : Ctrl} {ctrls : List Ctrl} (h : ∀ y ∈ ctrls, Listed device y) {id : UInt32} {val : Int}
    (hx : ctrls.find? (·.id = id) = some x) (hl : Listed device { x with cur := val }) :
    ∀ y ∈ setCur id val ctrls, Listed device y := by
  induction ctrls with
  | nil => exact h
  | cons c cs ih =>
    obtain ⟨hc, hcs⟩ := List.forall_mem_cons.mp h
    unfold setCur
    by_cases hid : c.id = id
    · rw [List.find?_cons_of_pos (by simpa using hid)] at hx
      cases hx
      rw [if_pos hid]
      exact List.forall_mem_cons.mpr ⟨hl, hcs⟩
    · rw [List.find?_cons_of_neg (by simpa using hid)] at hx
      rw [if_neg hid]
      exact List.forall_mem_cons.mpr ⟨hc, ih hcs hx⟩

theorem SentReported.encSCtrl (hk : ∀ c, KnownValues device c) {sent : Sent} (h : SentReported device sent) {x : Ctrl}
    (hx : Listed device x) (hw : x.readOnly = false) (env : Env) (streamId : UInt32) :
    SentReported device (encSCtrl env streamId x.id x.cur sent).2 := by
  obtain ⟨e, he⟩ | he := encSCtrl_cases env streamId x.id x.cur sent
  · rw [he]
    exact h
  · rw [he]
    exact List.forall_mem_cons.mpr ⟨hx.sent hw hk, h⟩

theorem Inv.setupStep (hk : ∀ c, KnownValues device c) (h : Inv device s) {env : Env}
    (hs : setupStep s env = some s') : Inv device s' := by
  unfold EncControls.setupStep at hs
  split at hs
  · cases hs
  · cases hs
    exact ⟨h.ctrls, fun x hx => (by cases hx), h.sent⟩
  · next c rest hpc =>
    have hrest := h.rest
    rw [hpc] at hrest
    obtain ⟨hc, hrest⟩ := List.forall_mem_cons.mp hrest
    split at hs
    · cases hs
      exact ⟨h.ctrls, hrest, h.sent⟩
    · next hw =>
      have hsent := h.sent.encSCtrl hk hc (by simpa using hw) env s.streamId
      split at hs
      · next sent he =>
        cases hs
        rw [he] at hsent
        exact ⟨h.ctrls, hrest, hsent⟩
      · next sent he =>
        cases hs
        rw [he] at hsent
        exact ⟨h.ctrls, fun x hx => (by cases hx), hsent⟩

theorem Inv.sCtrl (hk : ∀ c, KnownValues device c) (h : Inv device s) (id : UInt32) (val : Int) (env : Env) :
    Inv device (sCtrl s id val env).2 := by
  unfold EncControls.sCtrl
  split
  · exact h
  · next x hx =>
    obtain rfl : x.id = id := by simpa using List.find?_some hx
    split
    · exact h
    · next hw =>
      split
      · exact h
      · next cur hv =>
        have hl := (h.ctrls x (List.mem_of_find?_eq_some hx)).validate hv
        split
        · exact h
        · have hsent := h.sent.encSCtrl hk hl (by simpa using hw) env s.streamId
          split
          · next e sent he =>
            rw [he] at hsent
            exact ⟨h.ctrls, h.rest, hsent⟩
          · next sent he =>
            rw [he] at hsent
            exact ⟨setCur_listed h.ctrls hx hl, h.rest, hsent⟩

theorem inv_inductive (hk : ∀ c, KnownValues device c) : (machine device).Inductive (fun _ _ => True) (Inv device) where
  init s hs := by
    obtain ⟨streamId, bitrate, hok, rfl⟩ := hs
    obtain ⟨hiff, heq⟩ := encInitCtrls_eq device bitrate
    have hl : ∀ x ∈ _, Listed device x := initial_listed bitrate
    rw [← heq (hiff.mp hok)] at hl
    exact ⟨hl, hl, fun p hp => (by cases hp)⟩
  step s a s' h _ hs := by
    cases a with
    | setup env => exact h.setupStep hk hs
    | sCtrl id val env =>
      simp only [machine, step] at hs
      split at hs
      · cases hs
        exact h.sCtrl hk id val env
      · cases hs

/-! ## Opening a stream -/

/-- Nothing fails. -/
def Env.good : Env := ⟨.idle, true, .ok ()⟩

theorem setControl_good (streamId value : UInt32) (c : Control) (hv : value ≠ 0) (sent : Sent) :
    setControl .good streamId (controlCode c) value sent = (.ok (), (controlCode c, value) :: sent) := by
  have hcmd : ∃ v, Wire.cmdSetControl true streamId (controlCode c) value = .ok v := by
    cases c <;> exact ⟨_, by simp only [Wire.cmdSetControl, if_neg hv]; rfl⟩
  obtain ⟨v, hcmd⟩ := hcmd
  simp only [setControl, Env.good, hcmd]

theorem encSCtrl_good (streamId : UInt32) (c : Control) {item : UInt32} (hv : itemToVirtio c item ≠ 0) (sent : Sent) :
    encSCtrl .good streamId (cid c) item.toNat sent = (.ok (), (controlCode c, itemToVirtio c item) :: sent) := by
  have hgood := setControl_good streamId _ c hv sent
  rw [← wireValue_cid] at hgood ⊢
  cases c with
  | profile => exact hgood
  | level => exact hgood

/-- Not set up, or a menu whose value can be sent. -/
def Settable (x : Ctrl) : Prop :=
  x.readOnly = true ∨ ∃ c item, x.id = cid c ∧ x.cur = UInt32.toNat item ∧ itemToVirtio c item ≠ 0

/-- The setup of such controls sends the value of each menu. -/
theorem setup_reach {rest : List Ctrl} (hs : (machine device).Reachable s) (hpc : s.pc = .setup rest)
    (hrest : ∀ x ∈ rest, Settable x) : ∃ t, (machine device).Reachable t ∧ s.sent ⊆ t.sent ∧
      ∀ x ∈ rest, x.readOnly = false → (v4l2ControlToVirtio x.id, wireValue x.id x.cur) ∈ t.sent := by
  induction rest generalizing s with
  | nil => exact ⟨s, hs, List.Subset.refl _, fun x hx => by cases hx⟩
  | cons x rest ih =>
    obtain ⟨hx, hrest⟩ := List.forall_mem_cons.mp hrest
    by_cases hw : x.readOnly = true
    · have hstep : (machine device).step s (.setup .good) = some { s with pc := .setup rest } := by
        simp [machine, step, setupStep, hpc, hw]
      obtain ⟨t, ht, hsub, hall⟩ := ih (.step hs trivial hstep) rfl hrest
      refine ⟨t, ht, hsub, List.forall_mem_cons.mpr ⟨fun hn => ?_, hall⟩⟩
      cases hw.symm.trans hn
    · obtain ⟨c, item, hid, hcur, hv⟩ := hx.resolve_left hw
      have hctrl := encSCtrl_good s.streamId c hv s.sent
      rw [← hid, ← hcur] at hctrl
      have hstep : (machine device).step s (.setup .good) =
          some { s with pc := .setup rest, sent := (controlCode c, itemToVirtio c item) :: s.sent } := by
        simp [machine, step, setupStep, hpc, hw, hctrl]
      obtain ⟨t, ht, hsub, hall⟩ := ih (.step hs trivial hstep) rfl hrest
      refine ⟨t, ht, fun p hp => hsub (List.mem_cons_of_mem _ hp), List.forall_mem_cons.mpr ⟨fun _ => ?_, hall⟩⟩
      rw [hid, hcur, wireValue_cid, control_cid]
      exact hsub List.mem_cons_self

theorem itemToVirtio_ne (c : Control) (v : UInt32) : itemToVirtio c (c.toV4l2 v) ≠ 0 := by
  rw [itemToVirtio_toV4l2]
  split
  · next hsome =>
    rintro rfl
    cases c <;> exact absurd hsome (by decide)
  · decide

theorem replyMenu_settable {c : Control} {m : Mem} : ∀ x ∈ replyMenu c m, Settable x := by
  intro x hx
  unfold replyMenu at hx
  split at hx
  · cases hx
  · next hne =>
    obtain ⟨v, -, hmin⟩ := List.mem_map.mp (menuOf_min_mem (toV4l2_lt c) hne)
    rw [List.mem_singleton.mp hx]
    exact .inr ⟨c, _, rfl, rfl, hmin ▸ itemToVirtio_ne c v⟩

theorem menus_settable (f : CodedFormat) : ∀ x ∈ f.menus, Settable x := by
  intro x hx
  unfold CodedFormat.menus at hx
  split at hx
  · exact (List.mem_append.mp hx).elim (replyMenu_settable x) (replyMenu_settable x)
  · cases hx

theorem mem_menus {f : CodedFormat} (h264 : f.format = pixFmtH264) {c : Control} (hne : reported (f.reply c) ≠ []) :
    menuCtrl c (menuOf c.toV4l2 (reported (f.reply c))) ∈ f.menus := by
  have hmem : menuCtrl c (menuOf c.toV4l2 (reported (f.reply c))) ∈ replyMenu c (f.reply c) := by
    rw [replyMenu, if_neg hne]
    exact List.mem_singleton_self _
  rw [CodedFormat.menus, if_pos h264]
  cases c with
  | profile => exact List.mem_append_left _ hmem
  | level => exact List.mem_append_right _ hmem

/-- A stream without a bitrate is opened, and the default of every menu sent. -/
theorem opened_reach (device : List CodedFormat) : ∃ t, (machine device).Reachable t ∧
    ∀ f ∈ device, f.format = pixFmtH264 → ∀ c, reported (f.reply c) ≠ [] →
      (controlCode c, itemToVirtio c (menuOf c.toV4l2 (reported (f.reply c))).min) ∈ t.sent := by
  obtain ⟨hiff, heq⟩ := encInitCtrls_eq device 0
  have hle : (0 : UInt32).toNat ≤ 0x7fffffff := by decide
  have hinit : (machine device).init _ := ⟨0, 0, hiff.mpr hle, rfl⟩
  rw [heq hle] at hinit
  obtain ⟨t, ht, -, hall⟩ := setup_reach (.init hinit) rfl fun x hx => by
    rw [bitrateCtrl, if_pos rfl, List.append_nil] at hx
    rcases List.mem_cons.mp hx with rfl | hx
    · exact .inl rfl
    · obtain ⟨f, -, hx⟩ := List.mem_flatMap.mp hx
      exact menus_settable f x hx
  refine ⟨t, ht, fun f hf h264 c hne => ?_⟩
  have hmem := List.mem_flatMap.mpr ⟨f, hf, mem_menus h264 hne⟩
  have hsent := hall _ (List.mem_append_left _ (List.mem_cons_of_mem _ hmem)) rfl
  rwa [menuCtrl, wireValue_cid, control_cid] at hsent

/-- **What an encoder stream sets.** In every run of its controls, whatever
fails in it and whatever values the application asks for: each profile and
level that is sent to the device is one that it reports, exactly if it
reports the first one beside any that the driver does not know. -/
theorem setControl_reported_iff (device : List CodedFormat) :
    (∀ s, (machine device).Reachable s → SentReported device s.sent) ↔ ∀ c, KnownValues device c := by
  constructor
  · intro h c hunknown
    obtain ⟨f, hf, h264, v, hv, hnone⟩ := hunknown
    obtain ⟨t, ht, hsent⟩ := opened_reach device
    have hmem := hsent f hf h264 c (List.ne_nil_of_mem hv)
    have hzero : (menuOf c.toV4l2 (reported (f.reply c))).min = 0 := by
      have hs := foldl_sums (toV4l2_lt c) (reported (f.reply c)) .init
      have hitem : c.toV4l2 v = 0 := by rw [toV4l2_eq, hnone]; rfl
      have hmin := hs.min_le _ (by rw [foldl_entries]; exact List.mem_append_right _ (List.mem_map_of_mem hv))
      rw [hitem] at hmin
      exact UInt32.le_antisymm hmin (UInt32.zero_le)
    rw [hzero, itemToVirtio_zero] at hmem
    rcases h t ht _ hmem with hcode | ⟨c', hcode, hr⟩
    · cases c <;> exact absurd hcode (by decide)
    · obtain rfl : c = c' := by
        cases c <;> cases c' <;> first | rfl | exact absurd hcode (by decide)
      exact hr
  · intro hk s hs
    exact ((inv_inductive hk).reach hs).sent

/-! ## Reading back -/

/-- The value that was last sent for a control. -/
def lastSent (id : UInt32) (sent : Sent) : Option UInt32 :=
  (sent.find? fun p => p.1 = v4l2ControlToVirtio id).map Prod.snd

/-- A control that `virtio_video_enc_s_ctrl` knows. -/
def IsSet (id : UInt32) : Prop := id = cidBitrate ∨ ∃ c, id = cid c

theorem IsSet.inj {id id' : UInt32} (h : IsSet id) (h' : IsSet id')
    (he : v4l2ControlToVirtio id = v4l2ControlToVirtio id') : id = id' := by
  rcases h with rfl | ⟨c, rfl⟩ <;> rcases h' with rfl | ⟨c', rfl⟩
  · rfl
  · cases c' <;> exact absurd he (by decide)
  · cases c <;> exact absurd he (by decide)
  · cases c <;> cases c' <;> first | rfl | exact absurd he (by decide)

theorem Listed.isSet {x : Ctrl} (h : Listed device x) (hw : x.readOnly = false) : IsSet x.id := by
  cases h with
  | readOnly h => cases hw.symm.trans h
  | bitrate h => exact .inl h
  | menu _ _ _ hid => exact .inr ⟨_, hid⟩

theorem lastSent_self (id value : UInt32) (sent : Sent) :
    lastSent id ((v4l2ControlToVirtio id, value) :: sent) = some value := by
  simp [lastSent]

theorem lastSent_other {id id' : UInt32} (h : IsSet id) (h' : IsSet id') (hne : id ≠ id') (value : UInt32)
    (sent : Sent) : lastSent id ((v4l2ControlToVirtio id', value) :: sent) = lastSent id sent := by
  have hcode : v4l2ControlToVirtio id' ≠ v4l2ControlToVirtio id := fun he => hne (IsSet.inj h h' he.symm)
  simp [lastSent, hcode]

/-- The controls as the stream was opened with them. -/
def initialCtrls (device : List CodedFormat) (bitrate : UInt32) : List Ctrl :=
  minBuffersCtrl :: device.flatMap CodedFormat.menus ++ bitrateCtrl bitrate

/-- The device was last sent the value that the application reads, or never
one, and then it reads the default. -/
def InStep (initial : List Ctrl) (sent : Sent) (x : Ctrl) : Prop :=
  lastSent x.id sent = some (wireValue x.id x.cur) ∨ lastSent x.id sent = none ∧ x ∈ initial

structure Tracked (device : List CodedFormat) (initial : List Ctrl) (s : State) : Prop where
  listed : ∀ x ∈ s.ctrls, Listed device x
  nodup : (s.ctrls.map Ctrl.id).Nodup
  setup : s.pc.rest ⊆ s.ctrls ∧ (s.pc.rest.map Ctrl.id).Nodup
  unsent : ∀ x ∈ s.pc.rest, x.readOnly = false → lastSent x.id s.sent = none
  inStep : ∀ x ∈ s.ctrls, x.readOnly = false → InStep initial s.sent x

theorem eq_of_id {ctrls : List Ctrl} (h : (ctrls.map Ctrl.id).Nodup) {x y : Ctrl} (hx : x ∈ ctrls) (hy : y ∈ ctrls)
    (he : x.id = y.id) : x = y := List.inj_on_of_nodup_map h hx hy he

theorem map_id_setCur (id : UInt32) (val : Int) (ctrls : List Ctrl) :
    (setCur id val ctrls).map Ctrl.id = ctrls.map Ctrl.id := by
  induction ctrls with
  | nil => rfl
  | cons c cs ih =>
    unfold setCur
    split
    · rfl
    · rw [List.map_cons, List.map_cons, ih]

theorem mem_setCur {ctrls : List Ctrl} (h : (ctrls.map Ctrl.id).Nodup) {id : UInt32} {val : Int} {y : Ctrl}
    (hy : y ∈ setCur id val ctrls) : y ∈ ctrls ∧ y.id ≠ id ∨ ∃ x ∈ ctrls, x.id = id ∧ y = { x with cur := val } := by
  induction ctrls with
  | nil => cases hy
  | cons c cs ih =>
    obtain ⟨hnew, hcs⟩ := List.nodup_cons.mp h
    unfold setCur at hy
    split at hy
    · next hid =>
      rcases List.mem_cons.mp hy with rfl | hy
      · exact .inr ⟨c, List.mem_cons_self, hid, rfl⟩
      · refine .inl ⟨List.mem_cons_of_mem _ hy, fun he => hnew ?_⟩
        rw [hid, ← he]
        exact List.mem_map_of_mem hy
    · next hid =>
      rcases List.mem_cons.mp hy with rfl | hy
      · exact .inl ⟨List.mem_cons_self, hid⟩
      · rcases ih hcs hy with ⟨hy, hne⟩ | ⟨x, hx, hx'⟩
        · exact .inl ⟨List.mem_cons_of_mem _ hy, hne⟩
        · exact .inr ⟨x, List.mem_cons_of_mem _ hx, hx'⟩

theorem Tracked.setupStep {initial : List Ctrl} (h : Tracked device initial s) {env : Env}
    (hs : setupStep s env = some s') : Tracked device initial s' := by
  unfold EncControls.setupStep at hs
  split at hs
  · cases hs
  · cases hs
    exact ⟨h.listed, h.nodup, ⟨List.nil_subset _, List.nodup_nil⟩, fun x hx => (by cases hx), h.inStep⟩
  · next c rest hpc =>
    obtain ⟨⟨hsub, hnodup⟩, hunsent⟩ := And.intro h.setup h.unsent
    rw [hpc] at hsub hnodup hunsent
    obtain ⟨hnew, hrest⟩ := List.nodup_cons.mp hnodup
    have hmem : c ∈ s.ctrls := hsub List.mem_cons_self
    have hsub' : rest ⊆ s.ctrls := fun x hx => hsub (List.mem_cons_of_mem _ hx)
    split at hs
    · cases hs
      exact ⟨h.listed, h.nodup, ⟨hsub', hrest⟩, fun x hx => hunsent x (List.mem_cons_of_mem _ hx), h.inStep⟩
    · next hw =>
      have hset := (h.listed c hmem).isSet (by simpa using hw)
      obtain ⟨e, he⟩ | he := encSCtrl_cases env s.streamId c.id c.cur s.sent
      · rw [he] at hs
        cases hs
        exact ⟨h.listed, h.nodup, ⟨List.nil_subset _, List.nodup_nil⟩, fun x hx => (by cases hx), h.inStep⟩
      · rw [he] at hs
        cases hs
        refine ⟨h.listed, h.nodup, ⟨hsub', hrest⟩, fun x hx hxw => ?_, fun x hx hxw => ?_⟩
        · have hne : x.id ≠ c.id := fun hid => hnew (hid ▸ List.mem_map_of_mem hx)
          rw [lastSent_other ((h.listed x (hsub' hx)).isSet hxw) hset hne]
          exact hunsent x (List.mem_cons_of_mem _ hx) hxw
        · by_cases hid : x.id = c.id
          · obtain rfl := eq_of_id h.nodup hx hmem hid
            exact .inl (lastSent_self _ _ _)
          · rw [InStep, lastSent_other ((h.listed x hx).isSet hxw) hset hid]
            exact h.inStep x hx hxw

theorem Tracked.sCtrl {initial : List Ctrl} (h : Tracked device initial s) (hpc : s.pc = .ready) (id : UInt32)
    (val : Int) (env : Env) : Tracked device initial (sCtrl s id val env).2 := by
  unfold EncControls.sCtrl
  split
  · exact h
  · next c hc =>
    obtain rfl : c.id = id := by simpa using List.find?_some hc
    have hmem := List.mem_of_find?_eq_some hc
    split
    · exact h
    · next hw =>
      have hset := (h.listed c hmem).isSet (by simpa using hw)
      split
      · exact h
      · next cur hv =>
        split
        · exact h
        · obtain ⟨e, he⟩ | he := encSCtrl_cases env s.streamId c.id cur s.sent
          · rw [he]
            exact h
          · rw [he]
            have hnone : s.pc.rest = [] := by rw [hpc]; rfl
            refine ⟨setCur_listed h.listed hc ((h.listed c hmem).validate hv), ?_, ?_, ?_, fun x hx hxw => ?_⟩
            · rw [map_id_setCur]
              exact h.nodup
            · dsimp only
              rw [hnone]
              exact ⟨List.nil_subset _, List.nodup_nil⟩
            · dsimp only
              rw [hnone]
              exact fun x hx => by cases hx
            · obtain ⟨hx, hne⟩ | ⟨y, -, hid, rfl⟩ := mem_setCur h.nodup hx
              · rw [InStep, lastSent_other ((h.listed x hx).isSet hxw) hset hne]
                exact h.inStep x hx hxw
              · left
                rw [hid]
                exact lastSent_self _ _ _

theorem flatMap_menus_filter (device : List CodedFormat) :
    device.flatMap CodedFormat.menus = (device.filter (·.format = pixFmtH264)).flatMap CodedFormat.menus := by
  induction device with
  | nil => rfl
  | cons f device ih =>
    by_cases h264 : f.format = pixFmtH264
    · rw [List.filter_cons_of_pos (by simpa using h264), List.flatMap_cons, List.flatMap_cons, ih]
    · rw [List.filter_cons_of_neg (by simpa using h264), List.flatMap_cons, ih, CodedFormat.menus, if_neg h264,
        List.nil_append]

theorem map_id_replyMenu (c : Control) (m : Mem) :
    (replyMenu c m).map Ctrl.id = [] ∨ (replyMenu c m).map Ctrl.id = [cid c] := by
  unfold replyMenu
  split
  · exact .inl rfl
  · exact .inr rfl

theorem map_id_menus (f : CodedFormat) :
    f.menus.map Ctrl.id ∈ [[], [cidProfile], [cidLevel], [cidProfile, cidLevel]] := by
  unfold CodedFormat.menus
  split
  · rw [List.map_append]
    rcases map_id_replyMenu .profile f.profileReply with hp | hp <;>
      rcases map_id_replyMenu .level f.levelReply with hl | hl <;> rw [hp, hl] <;> simp [cid]
  · simp

/-- With one H264 format no control is made twice. -/
theorem initialCtrls_nodup (hone : (device.filter (·.format = pixFmtH264)).length ≤ 1) (bitrate : UInt32) :
    ((initialCtrls device bitrate).map Ctrl.id).Nodup := by
  have hmenus :
      (device.flatMap CodedFormat.menus).map Ctrl.id ∈ [[], [cidProfile], [cidLevel], [cidProfile, cidLevel]] := by
    rw [flatMap_menus_filter]
    rcases Nat.le_one_iff_eq_zero_or_eq_one.mp hone with hlen | hlen
    · rw [List.length_eq_zero_iff.mp hlen]
      exact List.mem_cons_self
    · obtain ⟨f, hf⟩ := List.length_eq_one_iff.mp hlen
      rw [hf, List.flatMap_cons, List.flatMap_nil, List.append_nil]
      exact map_id_menus f
  have hbitrate : (bitrateCtrl bitrate).map Ctrl.id ∈ [[], [cidBitrate]] := by
    unfold bitrateCtrl
    split <;> simp
  rw [initialCtrls, List.map_append, List.map_cons]
  generalize (device.flatMap CodedFormat.menus).map Ctrl.id = menus at hmenus
  generalize (bitrateCtrl bitrate).map Ctrl.id = last at hbitrate
  revert menus last
  decide

theorem tracked_reach (hone : (device.filter (·.format = pixFmtH264)).length ≤ 1) (hs : (machine device).Reachable s) :
    ∃ bitrate, Tracked device (initialCtrls device bitrate) s := by
  induction hs with
  | init hs =>
    obtain ⟨streamId, bitrate, hok, rfl⟩ := hs
    obtain ⟨hiff, heq⟩ := encInitCtrls_eq device bitrate
    have hctrls : _ = initialCtrls device bitrate := heq (hiff.mp hok)
    rw [hctrls]
    have hnodup := initialCtrls_nodup hone bitrate
    exact ⟨bitrate, initial_listed bitrate, hnodup, ⟨List.Subset.refl _, hnodup⟩, fun _ _ _ => rfl,
      fun x hx _ => .inr ⟨rfl, hx⟩⟩
  | @step s a s' _ _ hs ih =>
    obtain ⟨bitrate, h⟩ := ih
    cases a with
    | setup env => exact ⟨bitrate, h.setupStep hs⟩
    | sCtrl id val env =>
      simp only [machine, step] at hs
      split at hs
      · next hpc =>
        cases hs
        exact ⟨bitrate, h.sCtrl hpc id val env⟩
      · cases hs

/-- **The controls and the device agree.** With one H264 format, in every
run, whatever fails in it: the value of a control that the application reads
is the one that the device was last sent for it, or the device has never been
sent one and the application reads the default. -/
theorem controls_readBack (hone : (device.filter (·.format = pixFmtH264)).length ≤ 1)
    (hs : (machine device).Reachable s) :
    ∃ bitrate, ∀ x ∈ s.ctrls, x.readOnly = false → InStep (initialCtrls device bitrate) s.sent x := by
  obtain ⟨bitrate, h⟩ := tracked_reach hone hs
  exact ⟨bitrate, h.inStep⟩

end

/-- An encoder with the main profile and level 1.1. -/
def mainOnly : List CodedFormat := [⟨pixFmtH264, controlReply [0x101], controlReply [0x101]⟩]

/-- The queue does not take the command for the profile; the application
sets the profile to what it reads, and nothing is sent. -/
theorem controls_readBack_unsent : ∃ s : State, (s.pc = .ready ∧ s.sent = [] ∧ cidProfile ∈ s.ctrls.map Ctrl.id) ∧
    ∃ bitrate, ∀ x ∈ s.ctrls, x.readOnly = false → InStep (initialCtrls mainOnly bitrate) s.sent x := by
  have hinit : (machine mainOnly).init ⟨0, _, .setup _, []⟩ := ⟨0, 0, by decide +kernel, rfl⟩
  obtain ⟨s, hs, hp⟩ := Machine.exists_reach (fun _ _ => True) hinit
    [.setup .good, .setup { Env.good with queued := .error .enodev }, .sCtrl cidProfile 2 .good]
    (fun s => s.pc = .ready ∧ s.sent = [] ∧ cidProfile ∈ s.ctrls.map Ctrl.id) (by decide +kernel)
  exact ⟨s, hp, controls_readBack (by decide) hs⟩

end Agl.VirtioVideo.EncControls
