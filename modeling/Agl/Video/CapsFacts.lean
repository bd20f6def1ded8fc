/-
How far the parsers of device replies read.

The counts in a reply announce its extent: a header, descriptors, frames,
rates. The parsers read that extent and nothing beyond it, whatever the
length of the buffer, which they never look at: so they stay inside the
buffer exactly when the announced extent fits (`replies_inside`).
-/
import Agl.Video.Caps

namespace Agl.VirtioVideo

open Access

/-! ## What a reply announces -/

/-- The sizes of entries that follow one another, together. -/
def totalSize {γ : Type} (size : γ → Nat) : List γ → Nat
  | [] => 0
  | c :: cs => size c + totalSize size cs

/-- A frame, by its number of rates. -/
def frameExtent (rates : Nat) : Nat := formatFrameSize + formatRangeSize * rates

/-- A format, by its frames. -/
def fmtExtent (frames : List Nat) : Nat := formatDescSize + totalSize frameExtent frames

/-- A capability reply, by its formats. -/
def capabilityExtent (fmts : List (List Nat)) : Nat := capabilityRespSize + totalSize fmtExtent fmts

/-- A control reply, by its number of values. -/
def controlExtent (num : Nat) : Nat := controlRespSize + controlRespNumSize + 4 * num

/-- Entries of these sizes follow one another. -/
def EntriesAt {γ : Type} (At : Nat → γ → Prop) (size : γ → Nat) : Nat → List γ → Prop
  | _, [] => True
  | pos, c :: cs => At pos c ∧ EntriesAt At size (pos + size c) cs

/-- The frame at `pos` announces this many rates. -/
def FrameAt (m : Mem) (pos : Nat) (rates : Nat) : Prop := (m.le32 (pos + 32)).toNat = rates

/-- The format at `pos` announces these frames. -/
def FmtAt (m : Mem) (pos : Nat) (frames : List Nat) : Prop :=
  (m.le32 (pos + 20)).toNat = frames.length ∧ EntriesAt (FrameAt m) frameExtent (pos + formatDescSize) frames

/-- The reply announces these formats. -/
def Announces (m : Mem) (fmts : List (List Nat)) : Prop :=
  (m.le32 8).toNat = fmts.length ∧ EntriesAt (FmtAt m) fmtExtent capabilityRespSize fmts

/-- Memory always announces something at a place, when each entry does. -/
theorem exists_entries {γ : Type} (At : Nat → γ → Prop) (size : γ → Nat) (h : ∀ pos, ∃ c, At pos c) (n pos : Nat) :
    ∃ cs : List γ, cs.length = n ∧ EntriesAt At size pos cs := by
  induction n generalizing pos with
  | zero => exact ⟨[], rfl, trivial⟩
  | succ n ih =>
    obtain ⟨c, hc⟩ := h pos
    obtain ⟨cs, hlen, hcs⟩ := ih (pos + size c)
    exact ⟨c :: cs, by simp [hlen], hc, hcs⟩

theorem exists_announces (m : Mem) : ∃ fmts, Announces m fmts := by
  have hfmt : ∀ pos, ∃ frames, FmtAt m pos frames := fun pos => by
    obtain ⟨frames, hlen, hat⟩ := exists_entries (FrameAt m) frameExtent (fun _ => ⟨_, rfl⟩)
      (m.le32 (pos + 20)).toNat (pos + formatDescSize)
    exact ⟨frames, hlen.symm, hat⟩
  obtain ⟨fmts, hlen, hat⟩ := exists_entries (FmtAt m) fmtExtent hfmt (m.le32 8).toNat capabilityRespSize
  exact ⟨fmts, hlen.symm, hat⟩

/-! ## The loops over entries -/

section

variable {α γ : Type} {At : Nat → γ → Prop} {size : γ → Nat} {parse : Nat → Access (Nat × α)} {buf : Nat}

theorem parseEntries_meets (hpos : ∀ c, 0 < size c)
    (h : ∀ pos c, At pos c → Meets (parse pos) (pos + size c) fun r => r.1 = size c)
    (cs : List γ) (offset : Nat) (hat : EntriesAt At size (buf + offset) cs) :
    Meets (parseEntries parse buf cs.length offset) (buf + (offset + totalSize size cs))
      fun r => ∃ p, r = some p ∧ p.1 = offset + totalSize size cs := by
  induction cs generalizing offset with
  | nil => exact Meets.ret ⟨_, rfl, rfl⟩
  | cons c cs ih =>
    have hparse := h (buf + offset) c hat.1
    have hrest := ih (offset + size c) (by rw [← Nat.add_assoc]; exact hat.2)
    simp only [totalSize, ← Nat.add_assoc] at hrest ⊢
    refine Meets.bind (hparse.mono (by omega) fun _ hr => hr) ?_
    intro r hr
    obtain ⟨extra, entry⟩ := r
    dsimp only at hr
    subst hr
    dsimp only
    rw [if_neg (Nat.ne_of_gt (hpos c))]
    refine Meets.bind hrest ?_
    intro r hr
    obtain ⟨p, rfl, hp⟩ := hr
    exact Meets.ret ⟨_, rfl, hp⟩

theorem parseEntries_reaches (hpos : ∀ c, 0 < size c)
    (h : ∀ pos c lo, At pos c → Reaches (parse pos) lo (pos + size c) fun r => r.1 = size c)
    (cs : List γ) (offset : Nat) (hat : EntriesAt At size (buf + offset) cs) :
    Reaches (parseEntries parse buf cs.length offset) (buf + offset) (buf + (offset + totalSize size cs))
      fun r => ∃ p, r = some p ∧ p.1 = offset + totalSize size cs := by
  induction cs generalizing offset with
  | nil =>
    simp only [totalSize, Nat.add_zero]
    exact Reaches.ret ⟨_, rfl, rfl⟩
  | cons c cs ih =>
    have hparse := h (buf + offset) c (buf + offset) hat.1
    have hrest := ih (offset + size c) (by rw [← Nat.add_assoc]; exact hat.2)
    simp only [totalSize, ← Nat.add_assoc] at hrest ⊢
    refine Reaches.bind hparse ?_
    intro r hr
    obtain ⟨extra, entry⟩ := r
    dsimp only at hr
    subst hr
    dsimp only
    rw [if_neg (Nat.ne_of_gt (hpos c))]
    refine Reaches.bind hrest ?_
    intro r hr
    obtain ⟨p, rfl, hp⟩ := hr
    exact Reaches.ret ⟨_, rfl, hp⟩

end

/-! ## The parsers -/

/-- Rates all look alike: `n` of them take `16 n` bytes. -/
theorem ratesAt (n pos : Nat) :
    EntriesAt (fun _ (_ : Unit) => True) (fun _ => formatRangeSize) pos (List.replicate n ()) := by
  induction n generalizing pos with
  | zero => trivial
  | succ n ih => exact ⟨trivial, ih _⟩

theorem totalSize_rates (n : Nat) :
    totalSize (fun _ => formatRangeSize) (List.replicate n ()) = formatRangeSize * n := by
  induction n with
  | zero => rfl
  | succ n ih => rw [List.replicate_succ, totalSize, ih, Nat.mul_succ, Nat.add_comm]

theorem parseVirtioFrameRate_meets (m : Mem) (ptr : Bool) (pos : Nat) :
    Meets (parseVirtioFrameRate m ptr pos) (pos + formatRangeSize) fun r => r.1 = formatRangeSize :=
  Meets.bind (Meets.read (Nat.le_refl _)) fun _ _ => Meets.bind Meets.deref fun _ _ => Meets.ret rfl

theorem parseVirtioFrameRate_reaches (m : Mem) (pos lo : Nat) :
    Reaches (parseVirtioFrameRate m true pos) lo (pos + formatRangeSize) fun r => r.1 = formatRangeSize :=
  Reaches.bind Reaches.read fun _ _ => Reaches.bind Reaches.deref fun _ _ => Reaches.ret rfl

theorem frameExtent_pos (rates : Nat) : 0 < frameExtent rates := Nat.lt_of_lt_of_le (by decide) (Nat.le_add_right ..)

theorem fmtExtent_pos (frames : List Nat) : 0 < fmtExtent frames := Nat.lt_of_lt_of_le (by decide) (Nat.le_add_right ..)

theorem parseVirtioFrame_meets (m : Mem) (ptr : Bool) (pos rates : Nat) (h : FrameAt m pos rates) :
    Meets (parseVirtioFrame m ptr pos) (pos + frameExtent rates) fun r => r.1 = frameExtent rates := by
  have hrates := fun ptr => parseEntries_meets (fun _ => by decide)
    (fun pos _ _ => parseVirtioFrameRate_meets m ptr pos)
    (List.replicate rates ()) formatFrameSize (ratesAt rates (pos + formatFrameSize))
  simp only [totalSize_rates, List.length_replicate] at hrates
  unfold parseVirtioFrame
  rw [show (m.le32 (pos + 32)).toNat = rates from h]
  refine Meets.bind (Meets.read (Nat.add_le_add_left (Nat.le_add_right ..) pos)) fun _ _ => ?_
  refine Meets.bind Meets.deref fun _ _ => Meets.bind Meets.alloc fun frameRates _ => ?_
  refine Meets.bind (hrates frameRates) ?_
  intro r hr
  obtain ⟨p, rfl, hp⟩ := hr
  exact Meets.ret hp

theorem parseVirtioFrame_reaches (m : Mem) (pos rates lo : Nat) (h : FrameAt m pos rates) :
    Reaches (parseVirtioFrame m true pos) lo (pos + frameExtent rates) fun r => r.1 = frameExtent rates := by
  have hrates := parseEntries_reaches (fun _ => by decide) (fun pos _ lo _ => parseVirtioFrameRate_reaches m pos lo)
    (List.replicate rates ()) formatFrameSize (ratesAt rates (pos + formatFrameSize))
  simp only [totalSize_rates, List.length_replicate] at hrates
  unfold parseVirtioFrame
  rw [show (m.le32 (pos + 32)).toNat = rates from h]
  refine Reaches.bind Reaches.read fun _ _ => Reaches.bind Reaches.deref fun _ _ => Reaches.bind Reaches.alloc ?_
  intro _ hgranted
  subst hgranted
  refine Reaches.bind hrates ?_
  intro r hr
  obtain ⟨p, rfl, hp⟩ := hr
  exact Reaches.ret hp

theorem parseVirtioFmt_meets (m : Mem) (pos : Nat) (frames : List Nat) (h : FmtAt m pos frames) :
    Meets (parseVirtioFmt m pos) (pos + fmtExtent frames) fun r => r.1 = fmtExtent frames := by
  have hframes := fun ptr => parseEntries_meets frameExtent_pos (fun pos c hc => parseVirtioFrame_meets m ptr pos c hc)
    frames formatDescSize h.2
  unfold parseVirtioFmt
  rw [h.1]
  refine Meets.bind (Meets.read (Nat.add_le_add_left (Nat.le_add_right ..) pos)) fun _ _ => ?_
  refine Meets.bind Meets.alloc fun ptr _ => Meets.bind (hframes ptr) ?_
  intro r hr
  obtain ⟨p, rfl, hp⟩ := hr
  exact Meets.ret hp

theorem parseVirtioFmt_reaches (m : Mem) (pos : Nat) (frames : List Nat) (lo : Nat) (h : FmtAt m pos frames) :
    Reaches (parseVirtioFmt m pos) lo (pos + fmtExtent frames) fun r => r.1 = fmtExtent frames := by
  have hframes := parseEntries_reaches frameExtent_pos (fun pos c lo hc => parseVirtioFrame_reaches m pos c lo hc)
    frames formatDescSize h.2
  unfold parseVirtioFmt
  rw [h.1]
  refine Reaches.bind Reaches.read fun _ _ => Reaches.bind Reaches.alloc ?_
  intro _ hgranted
  subst hgranted
  refine Reaches.bind hframes ?_
  intro r hr
  obtain ⟨p, rfl, hp⟩ := hr
  exact Reaches.ret hp

theorem parseVirtioFmts_meets (m : Mem) (fmts : List (List Nat)) (offset : Nat) (acc : List VideoFormat)
    (hat : EntriesAt (FmtAt m) fmtExtent offset fmts) :
    Meets (parseVirtioFmts m fmts.length offset acc) (offset + totalSize fmtExtent fmts) fun _ => True := by
  induction fmts generalizing offset acc with
  | nil => exact Meets.ret trivial
  | cons c cs ih =>
    have hparse := parseVirtioFmt_meets m offset c hat.1
    have hrest := fun acc => ih (offset + fmtExtent c) acc hat.2
    simp only [totalSize, ← Nat.add_assoc] at hrest ⊢
    refine Meets.bind Meets.alloc fun fmt _ => ?_
    split
    · refine Meets.bind (hparse.mono (by omega) fun _ hr => hr) ?_
      intro r hr
      obtain ⟨fmtSize, fmt⟩ := r
      dsimp only at hr
      subst hr
      dsimp only
      rw [if_neg (Nat.ne_of_gt (fmtExtent_pos c))]
      exact hrest _
    · exact Meets.ret trivial

theorem parseVirtioFmts_reaches (m : Mem) (fmts : List (List Nat)) (offset : Nat) (acc : List VideoFormat)
    (hat : EntriesAt (FmtAt m) fmtExtent offset fmts) :
    Reaches (parseVirtioFmts m fmts.length offset acc) offset (offset + totalSize fmtExtent fmts) fun _ => True := by
  induction fmts generalizing offset acc with
  | nil => exact Reaches.ret trivial
  | cons c cs ih =>
    have hparse := parseVirtioFmt_reaches m offset c offset hat.1
    have hrest := fun acc => ih (offset + fmtExtent c) acc hat.2
    simp only [totalSize, ← Nat.add_assoc] at hrest ⊢
    refine Reaches.bind Reaches.alloc ?_
    intro _ hgranted
    subst hgranted
    rw [if_pos rfl]
    refine Reaches.bind hparse ?_
    intro r hr
    obtain ⟨fmtSize, fmt⟩ := r
    dsimp only at hr
    subst hr
    dsimp only
    rw [if_neg (Nat.ne_of_gt (fmtExtent_pos c))]
    exact hrest _

theorem parseVirtioCapability_meets (m : Mem) (fmts : List (List Nat)) (h : Announces m fmts) :
    Meets (parseVirtioCapability m) (capabilityExtent fmts) fun _ => True := by
  have hfmts := parseVirtioFmts_meets m fmts capabilityRespSize [] h.2
  unfold parseVirtioCapability
  refine Meets.bind (Meets.read (by rw [Nat.zero_add]; exact Nat.le_add_right ..)) fun _ _ => ?_
  dsimp only
  rw [h.1]
  split
  · exact Meets.ret trivial
  · exact Meets.bind hfmts fun _ _ => Meets.ret trivial

theorem parseVirtioCapability_reaches (m : Mem) (fmts : List (List Nat)) (h : Announces m fmts) :
    Reaches (parseVirtioCapability m) 0 (capabilityExtent fmts) fun _ => True := by
  have hfmts := parseVirtioFmts_reaches m fmts capabilityRespSize [] h.2
  unfold parseVirtioCapability
  refine Reaches.bind Reaches.read fun _ _ => ?_
  rw [Nat.zero_add]
  dsimp only
  split
  · next h0 =>
    have hnil : fmts = [] := by simpa [h0] using h.1.symm
    subst hnil
    exact Reaches.ret trivial
  · rw [h.1]
    exact Reaches.bind hfmts fun _ _ => Reaches.ret trivial

/-- The capability parser reads what the reply announces, and no more. -/
theorem parseVirtioCapability_inside (m : Mem) (len : Nat) :
    (parseVirtioCapability m).Inside len ↔ ∃ fmts, Announces m fmts ∧ capabilityExtent fmts ≤ len := by
  constructor
  · intro h
    obtain ⟨fmts, hf⟩ := exists_announces m
    exact ⟨fmts, hf, (parseVirtioCapability_reaches m fmts hf).inside h⟩
  · intro h
    obtain ⟨fmts, hf, hlen⟩ := h
    exact (parseVirtioCapability_meets m fmts hf).inside hlen

section

variable (toV4l2 : UInt32 → UInt32) (m : Mem)

theorem parseControlEntries_meets (n pos : Nat) (acc : ControlAcc) :
    Meets (parseControlEntries toV4l2 m n pos acc) (pos + 4 * n) fun _ => True := by
  induction n generalizing pos acc with
  | zero => exact Meets.ret trivial
  | succ n ih =>
    have hrest := fun acc => ih (pos + 4) acc
    rw [show pos + 4 * (n + 1) = pos + 4 + 4 * n by omega]
    exact Meets.bind (Meets.read (Nat.le_add_right ..)) fun _ _ => hrest _

theorem parseControlEntries_reaches (n pos : Nat) (acc : ControlAcc) :
    Reaches (parseControlEntries toV4l2 m n pos acc) pos (pos + 4 * n) fun _ => True := by
  induction n generalizing pos acc with
  | zero => exact Reaches.ret trivial
  | succ n ih =>
    have hrest := fun acc => ih (pos + 4) acc
    rw [show pos + 4 * (n + 1) = pos + 4 + 4 * n by omega]
    exact Reaches.bind Reaches.read fun _ _ => hrest _

/-- The control parsers read what the reply announces, and no more. -/
theorem parseControl_inside (len : Nat) :
    (parseControl toV4l2 m).Inside len ↔ controlExtent (m.le32 controlRespSize).toNat ≤ len := by
  constructor
  · intro h
    refine Reaches.inside (Q := fun _ => True) ?_ h
    unfold parseControl controlExtent
    refine Reaches.bind Reaches.read fun _ _ => ?_
    dsimp only
    split
    · next h0 =>
      rw [h0]
      exact Reaches.ret trivial
    · refine Reaches.bind Reaches.alloc ?_
      intro _ hgranted
      subst hgranted
      rw [if_pos rfl]
      refine Reaches.bind Reaches.alloc ?_
      intro _ hgranted
      subst hgranted
      rw [if_pos rfl]
      exact Reaches.bind (parseControlEntries_reaches toV4l2 m _ _ _) fun _ _ => Reaches.ret trivial
  · intro h
    refine Meets.inside (Q := fun _ => True) ?_ h
    unfold parseControl controlExtent
    refine Meets.bind (Meets.read (Nat.le_add_right ..)) fun _ _ => ?_
    dsimp only
    split
    · exact Meets.ret trivial
    · refine Meets.bind Meets.alloc fun _ _ => ?_
      split
      · refine Meets.bind Meets.alloc fun _ _ => ?_
        split
        · exact Meets.bind (parseControlEntries_meets toV4l2 m _ _ _) fun _ _ => Meets.ret trivial
        · exact Meets.ret trivial
      · exact Meets.ret trivial

end

/-- **Device replies and the parsers.** For every content of a reply and
every length of its buffer: in every run, whichever allocations fail, the
parsers read inside the buffer if and only if the extent that the counts of
the reply announce is within it. -/
theorem replies_inside (m : Mem) (len : Nat) :
    ((parseVirtioCapability m).Inside len ↔ ∃ fmts, Announces m fmts ∧ capabilityExtent fmts ≤ len) ∧
    ((parseControlLevels m).Inside len ↔ controlExtent (m.le32 controlRespSize).toNat ≤ len) ∧
    ((parseControlProfiles m).Inside len ↔ controlExtent (m.le32 controlRespSize).toNat ≤ len) :=
  ⟨parseVirtioCapability_inside m len, parseControl_inside levelToV4l2 m len, parseControl_inside profileToV4l2 m len⟩

/-- A reply of 16 bytes that announces one entry. -/
def oneEntry : Mem := fun i => if i = 8 then 1 else 0

/-- Its entry is read behind the end of the buffer. -/
theorem oneEntry_outside : ¬ (parseVirtioCapability oneEntry).Inside 16 ∧ ¬ (parseControlLevels oneEntry).Inside 16 ∧
    ¬ (parseControlProfiles oneEntry).Inside 16 := by
  refine ⟨fun h => ?_, fun h => ?_, fun h => ?_⟩
  · exact absurd (h (fun _ => true) 0 ⟨16, 24⟩ (by decide +kernel)) (by decide)
  · exact absurd (h (fun _ => true) 0 ⟨16, 4⟩ (by decide +kernel)) (by decide)
  · exact absurd (h (fun _ => true) 0 ⟨16, 4⟩ (by decide +kernel)) (by decide)

end Agl.VirtioVideo
