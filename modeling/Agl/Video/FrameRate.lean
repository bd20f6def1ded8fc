/-
The frame rate of an encoder (`virtio_video_enc_g_parm`,
`virtio_video_enc_s_parm`).

The rate is worked out of the time per frame by two divisions with `do_div`,
which takes 64 bits apart by 32: the second divides by an interval of up to
52 bits, cut to its lower 32.
-/
import Agl.Video.FrameIntervals
import Agl.Video.Params

namespace Agl.VirtioVideo

/-- `USEC_PER_SEC` -/
def usecPerSec : UInt64 := 1000000

/-- `do_div`: the divisor is an `uint32_t`; none is a division by zero. -/
def doDiv (n base : UInt64) : Option UInt64 :=
  if base.toUInt32 = 0 then none else some (n / base.toUInt32.toUInt64)

/-- The arithmetic of `virtio_video_enc_s_parm`. -/
def parmFrameRate (timeperframe : Fract) : Option (Except Errno UInt64) := do
  let frameInterval ← doDiv (timeperframe.numerator.toUInt64 * usecPerSec) timeperframe.denominator.toUInt64
  if frameInterval = 0 then return .error .einval
  else
    let frameRate ← doDiv usecPerSec frameInterval
    return .ok frameRate

/-- `virtio_video_enc_try_framerate` -/
def encTryFramerate (currentFrame : Option FormatFrame) (fps : UInt32) : Except Errno Unit :=
  match currentFrame with
  | none => .error .einval
  | some frame => if frame.frameRates.any fun r => withinRange r.min fps r.max then .ok () else .error .einval

/-- `virtio_video_timeperframe_from_info` -/
def timeperframeFromInfo (info : FormatInfo) : Fract := ⟨1, info.frameRate⟩

/-- `virtio_video_enc_g_parm`: the time per frame, or the error and its message. -/
def encGParm (s : Stream) (type : BufType) : Except (Errno × Option String) Fract :=
  if s.state = .error then .error (.eio, none)
  else if type.isOutput then .ok (timeperframeFromInfo s.inInfo)
  else .error (.einval, some "getting FPS is only possible for the output queue\n")

/-- What S_PARM comes to. -/
inductive SParmOutcome
  | divByZero
  | fails (e : Errno) (log : Option String)
  /-- what SET_PARAMS comes to; the stream and the time per frame after the call -/
  | sets (set : Checked (Option (List UInt32) × Except Errno Unit)) (left : Checked (ParamsOutcome × Fract))

/-- `virtio_video_enc_s_parm`; the results of its commands are not looked at. -/
def encSParm (isM2mDev : Bool) (s : Stream) (currentFrame : Option FormatFrame) (type : BufType)
    (timeperframe : Fract) (q : Queueing) (xIn xOut : Exchange) : SParmOutcome :=
  if s.state = .error then .fails .eio none
  else if type.isOutput then
    match parmFrameRate timeperframe with
    | none => .divByZero
    | some (.error e) => .fails e none
    | some (.ok frameRate) =>
      match encTryFramerate currentFrame frameRate.toUInt32 with
      | .error e => .fails e none
      | .ok () =>
        let set := cmdSetParams s.streamId { s.inInfo with frameRate := frameRate.toUInt32 } .input q
        .sets set do
          let _ ← set
          let o ← streamGetParams isM2mDev s xIn xOut
          return (o, timeperframeFromInfo o.stream.inInfo)
  else .fails .einval (some "setting FPS is only possible for the output queue\n")

/-! ## The arithmetic -/

/-- `floor(numerator * 10^6 / denominator)` -/
def Fract.interval (t : Fract) : Nat := t.numerator.toNat * 1000000 / t.denominator.toNat

theorem doDiv_eq {n base : UInt64} (h : base.toNat % 4294967296 ≠ 0) :
    doDiv n base = some (UInt64.ofNat (n.toNat / (base.toNat % 4294967296))) := by
  have hbase : base.toUInt32.toNat = base.toNat % 4294967296 := UInt64.toNat_toUInt32 base
  have hne : base.toUInt32 ≠ 0 := fun h0 => h (by rw [← hbase, h0]; rfl)
  rw [doDiv, if_neg hne]
  congr 1
  apply UInt64.toNat_inj.1
  rw [UInt64.toNat_div, UInt32.toNat_toUInt64, hbase, UInt64.toNat_ofNat_of_lt']
  exact Nat.lt_of_le_of_lt (Nat.div_le_self _ _) n.toNat_lt

theorem doDiv_none {n base : UInt64} (h : base.toNat % 4294967296 = 0) : doDiv n base = none := by
  have h0 : base.toUInt32 = 0 := UInt32.toNat_inj.1 ((UInt64.toNat_toUInt32 base).trans h)
  rw [doDiv, if_pos h0]

theorem toNat_usecPerSec : usecPerSec.toNat = 1000000 := rfl

theorem toNat_mul_usec (x : UInt32) : (x.toUInt64 * usecPerSec).toNat = x.toNat * 1000000 := by
  have hlt := x.toNat_lt
  rw [UInt64.toNat_mul, UInt32.toNat_toUInt64, toNat_usecPerSec]
  exact Nat.mod_eq_of_lt (by omega)

theorem Fract.interval_lt (t : Fract) : t.interval < 18446744073709551616 := by
  have hnum := t.numerator.toNat_lt
  exact Nat.lt_of_le_of_lt (Nat.div_le_self _ _) (by omega)

theorem doDiv_interval {t : Fract} (h : t.denominator ≠ 0) :
    doDiv (t.numerator.toUInt64 * usecPerSec) t.denominator.toUInt64 = some (.ofNat t.interval) := by
  have hden : t.denominator.toUInt64.toNat % 4294967296 = t.denominator.toNat := by
    rw [UInt32.toNat_toUInt64]
    exact Nat.mod_eq_of_lt t.denominator.toNat_lt
  have hpos : t.denominator.toNat ≠ 0 := fun h0 => h (UInt32.toNat_inj.1 h0)
  rw [doDiv_eq (by rw [hden]; exact hpos), hden, toNat_mul_usec, Fract.interval]

theorem parmFrameRate_zero {t : Fract} (h : t.denominator = 0) : parmFrameRate t = none := by
  unfold parmFrameRate
  rw [doDiv_none (by rw [h]; rfl)]
  rfl

/-- The interval is exact; the rate is that of its lower 32 bits. -/
theorem parmFrameRate_eq {t : Fract} (h : t.denominator ≠ 0) :
    parmFrameRate t =
      if t.interval = 0 then some (.error .einval)
      else if t.interval % 4294967296 = 0 then none
      else some (.ok (.ofNat (1000000 / (t.interval % 4294967296)))) := by
  have hnat : (UInt64.ofNat t.interval).toNat = t.interval := UInt64.toNat_ofNat_of_lt' t.interval_lt
  unfold parmFrameRate
  rw [doDiv_interval h]
  rw [Option.bind_eq_bind, Option.bind_some]
  by_cases h0 : t.interval = 0
  · rw [if_pos h0, h0]
    rfl
  have hne : UInt64.ofNat t.interval ≠ 0 := fun hz => h0 (by rw [← hnat, hz]; rfl)
  rw [if_neg h0, if_neg hne]
  split
  · next hcut =>
    rw [doDiv_none (by rw [hnat]; exact hcut)]
    rfl
  · next hcut =>
    rw [doDiv_eq (by rw [hnat]; exact hcut), hnat, toNat_usecPerSec]
    rfl

/-! ## What is sent -/

/-- No division by zero, and `-EINVAL` or the exact rate sent to the device. -/
def ExactRate (t : Fract) : SParmOutcome → Prop
  | .divByZero => False
  | .fails e _ => e = .einval
  | .sets (.ok (some request, .ok ())) _ => request[12]?.map (·.toNat) = some (1000000 / t.interval)
  | .sets _ _ => False

/-- The rate the code works out of an interval. -/
def cutRate (interval : Nat) : UInt32 := .ofNat (1000000 / (interval % 4294967296))

/-- Cutting the interval to 32 bits changes its rate unless what is left is
beyond a second, as the interval is. -/
theorem cutRate_eq {interval : Nat} (h : interval % 4294967296 ≠ 0) :
    (cutRate interval).toNat = 1000000 / interval ↔ interval < 4294967296 ∨ 1000000 < interval % 4294967296 := by
  have hle : 1000000 / (interval % 4294967296) ≤ 1000000 := Nat.div_le_self _ _
  rw [cutRate, UInt32.toNat_ofNat_of_lt' (Nat.lt_of_le_of_lt hle (by decide))]
  by_cases hlt : interval < 4294967296
  · rw [Nat.mod_eq_of_lt hlt]
    exact iff_of_true rfl (.inl hlt)
  · have hzero : 1000000 / interval = 0 := Nat.div_eq_of_lt (by omega)
    rw [hzero, Nat.div_eq_zero_iff]
    omega

theorem encSParm_arith {isM2mDev : Bool} {s : Stream} (hstate : s.state ≠ .error) {t : Fract}
    (hden : t.denominator ≠ 0) (h0 : t.interval ≠ 0) (hcut : t.interval % 4294967296 ≠ 0)
    (currentFrame : Option FormatFrame) (q : Queueing) (xIn xOut : Exchange) :
    encSParm isM2mDev s currentFrame .outputMplane t q xIn xOut =
      match encTryFramerate currentFrame (cutRate t.interval) with
      | .error e => .fails e none
      | .ok () =>
        .sets (cmdSetParams s.streamId { s.inInfo with frameRate := cutRate t.interval } .input q) (do
          let _ ← cmdSetParams s.streamId { s.inInfo with frameRate := cutRate t.interval } .input q
          let o ← streamGetParams isM2mDev s xIn xOut
          return (o, timeperframeFromInfo o.stream.inInfo)) := by
  have hrate : (UInt64.ofNat (1000000 / (t.interval % 4294967296))).toUInt32 = cutRate t.interval := by
    apply UInt32.toNat_inj.1
    rw [cutRate, UInt64.toNat_toUInt32, UInt64.toNat_ofNat', UInt32.toNat_ofNat']
    exact Nat.mod_mod_of_dvd _ (by decide)
  unfold encSParm
  rw [if_neg hstate, parmFrameRate_eq hden, if_neg h0, if_neg hcut]
  dsimp only
  have hout : BufType.outputMplane.isOutput = true := rfl
  rw [if_pos hout, hrate]

/-- The request carries the rate when it is queued at all. -/
theorem cmdSetParams_rate (streamId : UInt32) (info : FormatInfo) (queueType : QueueType) (q : Queueing) :
    (∃ request, cmdSetParams streamId info queueType q = .ok (some request, .ok ()) ∧
        request[12]? = some info.frameRate ∧ q = .queued ∧ info.numPlanes.toNat ≤ maxPlanes) ∨
      (∀ request, cmdSetParams streamId info queueType q ≠ .ok (some request, .ok ())) ∧
        ¬(q = .queued ∧ info.numPlanes.toNat ≤ maxPlanes) := by
  by_cases hret : q = .noVbuf ∨ info.numPlanes.toNat ≤ maxPlanes
  · obtain ⟨request, hset⟩ := cmdSetParams_returns hret streamId queueType
    cases q with
    | noVbuf | refused e =>
      rw [hset]
      exact .inr ⟨fun _ h => (by cases h), fun h => (by cases h.1)⟩
    | queued =>
      have hplanes := hret.resolve_left fun h => by cases h
      obtain ⟨planes, hset, -⟩ := cmdSetParams_queued hplanes streamId queueType
      exact .inl ⟨_, hset, rfl, rfl, hplanes⟩
  · rw [cmdSetParams_faults hret]
    exact .inr ⟨fun _ h => (by cases h), fun h => hret (.inr h.2)⟩

theorem exactRate_sets (t : Fract) (streamId : UInt32) (info : FormatInfo) (queueType : QueueType) (q : Queueing)
    (left : Checked (ParamsOutcome × Fract)) :
    ExactRate t (.sets (cmdSetParams streamId info queueType q) left) ↔
      info.frameRate.toNat = 1000000 / t.interval ∧ q = .queued ∧ info.numPlanes.toNat ≤ maxPlanes := by
  rcases cmdSetParams_rate streamId info queueType q with ⟨request, hset, hword, hsent⟩ | ⟨hset, hsent⟩
  · rw [hset]
    simp only [ExactRate, hword, Option.map_some, Option.some.injEq]
    exact ⟨fun h => ⟨h, hsent⟩, fun h => h.1⟩
  · refine iff_of_false (fun h => ?_) fun h => hsent h.2
    unfold ExactRate at h
    split at h
    · next he => cases he
    · next he => cases he
    · next request _ he =>
      rw [SParmOutcome.sets.injEq] at he
      exact hset request he.1
    · exact h

theorem encTryFramerate_cases (currentFrame : Option FormatFrame) (fps : UInt32) :
    encTryFramerate currentFrame fps = .error .einval ∨ encTryFramerate currentFrame fps = .ok () := by
  unfold encTryFramerate
  cases currentFrame with
  | none => exact .inl rfl
  | some frame =>
    dsimp only
    split
    · exact .inr rfl
    · exact .inl rfl

/-- **S_PARM on the output queue is exact** when the interval is not that of a
denominator 0 and, cut to 32 bits, is not 0 and gives the rate it gave before
or one that is refused; and what is accepted can be sent. -/
theorem encSParm_exact_iff (isM2mDev : Bool) (s : Stream) (currentFrame : Option FormatFrame) (t : Fract)
    (q : Queueing) (xIn xOut : Exchange) :
    ExactRate t (encSParm isM2mDev s currentFrame .outputMplane t q xIn xOut) ↔
      s.state ≠ .error ∧ t.denominator ≠ 0 ∧ (t.interval = 0 ∨ t.interval % 4294967296 ≠ 0 ∧
        (encTryFramerate currentFrame (cutRate t.interval) = .error .einval ∨
          (t.interval < 4294967296 ∨ 1000000 < t.interval % 4294967296) ∧
            q = .queued ∧ s.inInfo.numPlanes.toNat ≤ maxPlanes)) := by
  by_cases hstate : s.state = .error
  · unfold encSParm
    rw [if_pos hstate]
    exact iff_of_false (by simp [ExactRate]) fun h => h.1 hstate
  have hout : BufType.outputMplane.isOutput = true := rfl
  by_cases hden : t.denominator = 0
  · unfold encSParm
    rw [if_neg hstate, if_pos hout, parmFrameRate_zero hden]
    exact iff_of_false (by simp [ExactRate]) fun h => h.2.1 hden
  simp only [hstate, hden, ne_eq, not_false_eq_true, true_and]
  by_cases h0 : t.interval = 0
  · unfold encSParm
    rw [if_neg hstate, if_pos hout, parmFrameRate_eq hden, if_pos h0]
    exact iff_of_true rfl (.inl h0)
  by_cases hcut : t.interval % 4294967296 = 0
  · unfold encSParm
    rw [if_neg hstate, if_pos hout, parmFrameRate_eq hden, if_neg h0, if_pos hcut]
    exact iff_of_false (by simp [ExactRate]) (by simp [h0, hcut])
  rw [encSParm_arith hstate hden h0 hcut]
  simp only [h0, hcut, not_false_eq_true, true_and, false_or]
  rcases encTryFramerate_cases currentFrame (cutRate t.interval) with htry | htry
  · rw [htry]
    exact iff_of_true rfl (.inl rfl)
  · rw [htry]
    dsimp only
    rw [exactRate_sets, cutRate_eq hcut]
    simp only [reduceCtorEq, false_or]

/-- A denominator of 0 is divided by. -/
theorem encSParm_divByZero : ¬ ∀ (isM2mDev : Bool) (s : Stream) (currentFrame : Option FormatFrame) (t : Fract)
    (q : Queueing) (xIn xOut : Exchange),
    ExactRate t (encSParm isM2mDev s currentFrame .outputMplane t q xIn xOut) :=
  fun h => h true openedStream none ⟨1, 0⟩ .queued .unanswered .unanswered

/-- An interval of 2^32 + 32704 microseconds passes for 30 frames a second. -/
example : ((parmFrameRate ⟨4295, 1⟩).bind (·.toOption)) = some 30 := by decide

/-! ## What is reported -/

/-- What S_PARM hands back is what G_PARM reports from then on. -/
theorem encSParm_encGParm {isM2mDev : Bool} {s : Stream} {currentFrame : Option FormatFrame} {type : BufType}
    {t u : Fract} {q : Queueing} {xIn xOut : Exchange} {set : Checked (Option (List UInt32) × Except Errno Unit)}
    {o : ParamsOutcome} (h : encSParm isM2mDev s currentFrame type t q xIn xOut = .sets set (.ok (o, u))) :
    encGParm o.stream type = .ok u := by
  unfold encSParm at h
  split at h
  · cases h
  next hstate =>
  split at h
  · next hout =>
    split at h
    · cases h
    · cases h
    · split at h
      · cases h
      · injection h with hset hleft
        obtain ⟨_, -, hget⟩ := bind_eq_ok.1 hleft
        obtain ⟨p, hp, hlast⟩ := bind_eq_ok.1 hget
        cases hlast
        unfold encGParm
        rw [if_neg (by rw [streamGetParams_state hp]; exact hstate), if_pos hout]
  · cases h

end Agl.VirtioVideo
