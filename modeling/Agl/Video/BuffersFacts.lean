/-
Response callbacks run on live objects (`callbacks_safe`), in every run in
which no buffer is taken back while the device still owes its answer. The
stop paths allow that: the encoder returns when `QUEUE_CLEAR` fails and vb2
takes everything back, as it does after a failed `start_streaming`
(`clearTimeout_late`, `failedStart_late`); on a camera the loop over
`pending_buf_list` completes what it finds. Any such buffer can be answered
afterwards (`earlyReturn_unsafe`).
-/
import Agl.Video.Buffers

namespace Agl.VirtioVideo.Buffers

/-! ## The invariant -/

/-- The buffers that the device owes an answer for are with the driver, and
none of these is in a queue whose buffers are freed. -/
structure Handed (bufs : Table Nat VBuf) (queues : Table QKey VQueue) (nextBuf : Nat) (listed : List Priv) : Prop where
  fresh : Table.All (fun b _ => b < nextBuf) bufs
  live : ∀ b, .buf b ∈ listed → ∃ v, bufs.lookup b = some v ∧ v.st = .active
  once : ∀ b, listed.count (.buf b) ≤ 1
  kept : ∀ b v q, bufs.lookup b = some v → v.st = .active → queues.lookup v.queue = some q → q.pc ≠ .free

namespace Handed

variable {bufs : Table Nat VBuf} {queues : Table QKey VQueue} {nextBuf b : Nat} {listed : List Priv} {v : VBuf}
  {k : QKey} {q : VQueue}

theorem active_of_listed (h : Handed bufs queues nextBuf listed) (hb : .buf b ∈ listed)
    (hv : bufs.lookup b = some v) : v.st = .active := by
  obtain ⟨w, hw, hact⟩ := h.live b hb
  cases hv.symm.trans hw
  exact hact

theorem alloc (h : Handed bufs queues nextBuf listed) :
    Handed (bufs.insert nextBuf { queue := k, st := .dequeued }) queues (nextBuf + 1) listed := by
  have hnew : ∀ v, bufs.lookup nextBuf ≠ some v := by
    intro v hv
    exact absurd (h.fresh _ _ hv) (Nat.lt_irrefl _)
  refine ⟨?_, ?_, h.once, ?_⟩
  · exact Table.All.insert (fun b v hb => Nat.lt_succ_of_lt (h.fresh b v hb)) (Nat.lt_succ_self _)
  · intro b hb
    obtain ⟨v, hv, hst⟩ := h.live b hb
    have hne : b ≠ nextBuf := by
      rintro rfl
      exact hnew v hv
    exact ⟨v, Table.lookup_insert_some.mpr (.inr ⟨hne, hv⟩), hst⟩
  · intro b v q hb hst hq
    obtain ⟨-, rfl⟩ | ⟨-, hb⟩ := Table.lookup_insert_some.mp hb
    · cases hst
    · exact h.kept b v q hb hst hq

/-- A buffer changes hands; away from the driver if the device owes nothing. -/
theorem setBuf (h : Handed bufs queues nextBuf listed) (st : BufState) (hv : bufs.lookup b = some v)
    (hst : st = .active ∨ .buf b ∉ listed)
    (hpc : st = .active → ∀ q, queues.lookup v.queue = some q → q.pc ≠ .free) :
    Handed (bufs.insert b { v with st }) queues nextBuf listed := by
  refine ⟨h.fresh.insert (h.fresh b v hv), ?_, h.once, ?_⟩
  · intro c hc
    by_cases hcb : c = b
    · subst c
      exact ⟨{ v with st }, AList.lookup_insert _, hst.resolve_right fun hn => hn hc⟩
    · obtain ⟨w, hw, hact⟩ := h.live c hc
      exact ⟨w, Table.lookup_insert_some.mpr (.inr ⟨hcb, hw⟩), hact⟩
  · intro c w q hc hact hq
    obtain ⟨-, rfl⟩ | ⟨-, hc⟩ := Table.lookup_insert_some.mp hc
    · exact hpc hact q hq
    · exact h.kept c w q hc hact hq

theorem erase (h : Handed bufs queues nextBuf listed) (hb : .buf b ∉ listed) :
    Handed (bufs.erase b) queues nextBuf listed := by
  refine ⟨h.fresh.erase, ?_, h.once, ?_⟩
  · intro c hc
    obtain ⟨w, hw, hact⟩ := h.live c hc
    have hne : c ≠ b := by
      rintro rfl
      exact hb hc
    exact ⟨w, Table.lookup_erase_some.mpr ⟨hne, hw⟩, hact⟩
  · intro c w q hc
    exact h.kept c w q (Table.lookup_erase_some.mp hc).2

theorem setQueue (h : Handed bufs queues nextBuf listed)
    (hq : q.pc = .free → ∀ b v, bufs.lookup b = some v → v.queue = k → v.st ≠ .active) :
    Handed bufs (queues.insert k q) nextBuf listed := by
  refine ⟨h.fresh, h.live, h.once, ?_⟩
  intro b v q' hb hact hl
  obtain ⟨hk, rfl⟩ | ⟨-, hl⟩ := Table.lookup_insert_some.mp hl
  · exact fun hpc => hq hpc b v hb hk hact
  · exact h.kept b v q' hb hact hl

/-- A `RESOURCE_QUEUE` for it is sent. -/
theorem send (h : Handed bufs queues nextBuf listed) (hv : bufs.lookup b = some v) (hact : v.st = .active)
    (hb : .buf b ∉ listed) : Handed bufs queues nextBuf (.buf b :: listed) := by
  refine ⟨h.fresh, ?_, ?_, h.kept⟩
  · intro c hc
    obtain hcb | hc := List.mem_cons.mp hc
    · cases hcb
      exact ⟨v, hv, hact⟩
    · exact h.live c hc
  · intro c
    by_cases hcb : c = b
    · subst c
      simp [List.count_eq_zero.mpr hb]
    · have hne : Priv.buf b ≠ .buf c := by simpa using Ne.symm hcb
      simpa [hne] using h.once c

theorem sendStream (h : Handed bufs queues nextBuf listed) (stream : Nat) :
    Handed bufs queues nextBuf (.stream stream :: listed) :=
  ⟨h.fresh, fun b hb => h.live b (by simpa using hb), fun b => by simpa using h.once b, h.kept⟩

theorem unlist (h : Handed bufs queues nextBuf listed) (p : Priv) :
    Handed bufs queues nextBuf (listed.erase p) := by
  refine ⟨h.fresh, ?_, ?_, h.kept⟩
  · intro b hb
    exact h.live b (List.mem_of_mem_erase hb)
  · intro b
    exact le_trans (List.erase_sublist.count_le _) (h.once b)

theorem not_mem_erase (h : Handed bufs queues nextBuf listed) : .buf b ∉ listed.erase (.buf b) := by
  have := h.once b
  rw [← List.count_eq_zero, List.count_erase_self]
  omega

end Handed

/-- The streams that the device owes an answer for are waited for, in calls
that keep the stream from being released. -/
structure Waits (streams : Table Nat Bool) (lock : Option Holder) (listed : List Priv)
    (waiting : List (Nat × Bool)) : Prop where
  listed : ∀ stream, listed.count (.stream stream) = waiting.countP fun w => w.1 = stream
  alive : ∀ w ∈ waiting, streams.lookup w.1 = some false
  worker : ∀ w ∈ waiting, w.2 = true → lock = some (.worker w.1)
  handled : ∀ stream, lock = some (.worker stream) → streams.lookup stream = some false
  releasing : ∀ stream, streams.lookup stream = some true → lock = some (.release stream)

namespace Waits

variable {streams : Table Nat Bool} {lock : Option Holder} {listed : List Priv} {waiting : List (Nat × Bool)}
  {stream : Nat} {w : Bool}

/-- A call waits for each listed vbuf of the stream. -/
theorem alive_of_listed (h : Waits streams lock listed waiting) (hp : .stream stream ∈ listed) :
    streams.lookup stream = some false := by
  have hpos : 0 < waiting.countP fun w => w.1 = stream := by
    rw [← h.listed stream]
    exact List.count_pos_iff.mpr hp
  obtain ⟨w, hw, he⟩ := List.countP_pos_iff.mp hpos
  exact of_decide_eq_true he ▸ h.alive w hw

theorem opened (h : Waits streams lock listed waiting) (n : Nat) :
    Waits (streams.insert n false) lock listed waiting := by
  have hfalse : ∀ stream, streams.lookup stream = some false → (streams.insert n false).lookup stream = some false := by
    intro stream hl
    by_cases hn : stream = n
    · exact Table.lookup_insert_some.mpr (.inl ⟨hn, rfl⟩)
    · exact Table.lookup_insert_some.mpr (.inr ⟨hn, hl⟩)
  refine ⟨h.listed, fun w hw => hfalse _ (h.alive w hw), h.worker, fun st hl => hfalse _ (h.handled st hl), ?_⟩
  intro stream hl
  obtain ⟨-, hl⟩ | ⟨-, hl⟩ := Table.lookup_insert_some.mp hl
  · cases hl
  · exact h.releasing stream hl

theorem release (h : Waits streams none listed waiting) (hw : (stream, false) ∉ waiting) :
    Waits (streams.insert stream true) (some (.release stream)) listed waiting := by
  have hfalse : ∀ w ∈ waiting, w.2 = false := by
    intro w hw
    by_contra hne
    cases h.worker w hw (by simpa using hne)
  refine ⟨h.listed, ?_, ?_, ?_, ?_⟩
  · intro x hx
    have hne : x.1 ≠ stream := by
      rintro rfl
      exact hw (hfalse x hx ▸ hx)
    exact Table.lookup_insert_some.mpr (.inr ⟨hne, h.alive x hx⟩)
  · intro x hx ht
    cases (hfalse x hx).symm.trans ht
  · intro st hl
    cases hl
  · intro st hl
    obtain ⟨rfl, -⟩ | ⟨-, hl⟩ := Table.lookup_insert_some.mp hl
    · rfl
    · cases h.releasing st hl

theorem freed (h : Waits streams lock listed waiting) (hs : streams.lookup stream = some true) :
    Waits (streams.erase stream) none listed waiting := by
  have hlock := h.releasing stream hs
  refine ⟨h.listed, ?_, ?_, ?_, ?_⟩
  · intro x hx
    have hl := h.alive x hx
    have hne : x.1 ≠ stream := by
      rintro rfl
      cases hs.symm.trans hl
    exact Table.lookup_erase_some.mpr ⟨hne, hl⟩
  · intro x hx ht
    cases hlock.symm.trans (h.worker x hx ht)
  · intro st hl
    cases hl
  · intro st hl
    obtain ⟨hne, hl⟩ := Table.lookup_erase_some.mp hl
    cases hlock.symm.trans (h.releasing st hl)
    exact absurd rfl hne

theorem event (h : Waits streams none listed waiting) (hs : streams.lookup stream = some false) :
    Waits streams (some (.worker stream)) listed waiting := by
  refine ⟨h.listed, h.alive, ?_, ?_, ?_⟩
  · intro x hx ht
    cases h.worker x hx ht
  · intro st hl
    cases hl
    exact hs
  · intro st hl
    cases h.releasing st hl

theorem eventDone (h : Waits streams (some (.worker stream)) listed waiting) (hw : (stream, true) ∉ waiting) :
    Waits streams none listed waiting := by
  refine ⟨h.listed, h.alive, ?_, ?_, ?_⟩
  · intro x hx ht
    cases h.worker x hx ht
    exact absurd (ht ▸ hx) hw
  · intro st hl
    cases hl
  · intro st hl
    cases h.releasing st hl

theorem send (h : Waits streams lock listed waiting) (hs : streams.lookup stream = some false)
    (hw : w = true → lock = some (.worker stream)) :
    Waits streams lock (.stream stream :: listed) ((stream, w) :: waiting) := by
  refine ⟨?_, ?_, ?_, h.handled, h.releasing⟩
  · intro st
    by_cases hst : stream = st
    · subst st
      simp [h.listed stream]
    · simp [hst, h.listed st]
  · intro x hx
    obtain rfl | hx := List.mem_cons.mp hx
    · exact hs
    · exact h.alive x hx
  · intro x hx
    obtain rfl | hx := List.mem_cons.mp hx
    · exact hw
    · exact h.worker x hx

theorem done (h : Waits streams lock listed waiting) (hw : (stream, w) ∈ waiting) :
    Waits streams lock (listed.erase (.stream stream)) (waiting.erase (stream, w)) := by
  refine ⟨?_, ?_, ?_, h.handled, h.releasing⟩
  · intro st
    have hwait := (List.perm_cons_erase hw).countP_eq fun x => x.1 = st
    rw [List.count_erase, h.listed st, hwait]
    by_cases hst : stream = st <;> simp [hst]
  · intro x hx
    exact h.alive x (List.mem_of_mem_erase hx)
  · intro x hx
    exact h.worker x (List.mem_of_mem_erase hx)

theorem sendBuf (h : Waits streams lock listed waiting) (b : Nat) : Waits streams lock (.buf b :: listed) waiting :=
  ⟨fun st => by simpa using h.listed st, h.alive, h.worker, h.handled, h.releasing⟩

theorem unlistBuf (h : Waits streams lock listed waiting) (b : Nat) :
    Waits streams lock (listed.erase (.buf b)) waiting :=
  ⟨fun st => by simpa [List.count_erase] using h.listed st, h.alive, h.worker, h.handled, h.releasing⟩

end Waits

structure Safe (s : State) : Prop where
  handed : Handed s.bufs s.queues s.nextBuf s.listed
  waits : Waits s.streams s.lock s.listed s.waiting
  ran : CallbacksSafe s

theorem Safe.probe (type : DeviceType) : Safe (probe type) := by
  refine ⟨⟨?_, ?_, ?_, ?_⟩, ⟨?_, ?_, ?_, ?_, ?_⟩, ?_⟩
  · intro b v hb
    cases hb
  · intro b hb
    cases hb
  · intro b
    exact Nat.zero_le 1
  · intro b v q hb
    cases hb
  · intro stream
    rfl
  · intro w hw
    cases hw
  · intro w hw
    cases hw
  · intro stream hl
    cases hl
  · intro stream hl
    cases hl
  · intro there ht
    cases ht

/-! ## What a step does -/

def QPc.loops : QPc → Bool
  | .loop _ => true
  | _ => false

theorem QPc.loops_iff {pc : QPc} : pc.loops = true ↔ ∃ free, pc = .loop free := by
  cases pc <;> simp [loops]

/-- The buffer that vb2, or a loop over `pending_buf_list`, takes back. -/
def takesBack (s : State) : Act → Option Nat
  | .takeBack b => some b
  | .stopStep k _ => if (s.queues.lookup k).any (·.pc.loops) then s.pendingBufList.head? else none
  | .handleError _ => if s.workerLoop then s.pendingBufList.head? else none
  | _ => none

def Act.isLate : Act → Bool
  | .answerLate _ => true
  | _ => false

/-- No buffer is taken back for which the device owes an answer, and no
answer is taken for a vbuf that the virtqueue has refused. -/
def KeepsOutstanding (s : State) (a : Act) : Prop :=
  (∀ b ∈ takesBack s a, .buf b ∉ s.listed) ∧ a.isLate = false

instance (s : State) (a : Act) : Decidable (KeepsOutstanding s a) :=
  inferInstanceAs (Decidable ((∀ b ∈ takesBack s a, _) ∧ _))

/-- The effects of the steps that keep what is outstanding. -/
inductive Effect (s : State) : State → Prop
  | opened {q q' : VQueue} : q.pc ≠ .free → q'.pc ≠ .free →
    Effect s { s with
      streams := s.streams.insert s.nextStream false
      queues := (s.queues.insert (s.nextStream, .input) q).insert (s.nextStream, .output) q'
      nextStream := s.nextStream + 1 }
  | alloc (k) : Effect s { s.setBuf s.nextBuf { queue := k, st := .dequeued } with nextBuf := s.nextBuf + 1 }
  | queue {k q} : (q.pc = .free → ¬ s.has k .active) → Effect s (s.setQueue k q)
  /-- the buffer goes to the driver -/
  | hand {b v q r} : s.bufs.lookup b = some v → v.st ≠ .active → s.queues.lookup v.queue = some q → q.pc ≠ .free →
    Effect s (bufQueue s b v r)
  /-- or elsewhere -/
  | take {b v st} : s.bufs.lookup b = some v → st ≠ .active → (v.st = .active → .buf b ∉ s.listed) →
    Effect s (s.setBuf b { v with st })
  | free {b v q} : s.bufs.lookup b = some v → s.queues.lookup v.queue = some q → q.pc = .free →
    Effect s { s with bufs := s.bufs.erase b }
  | send {stream w} : s.mayCall stream w →
    Effect s { s with listed := .stream stream :: s.listed, waiting := (stream, w) :: s.waiting }
  | done {stream w} : (stream, w) ∈ s.waiting →
    Effect s { s with waiting := s.waiting.erase (stream, w), listed := s.listed.erase (.stream stream) }
  | release {stream} : s.lock = none → (stream, false) ∉ s.waiting →
    Effect s { s with lock := some (.release stream), streams := s.streams.insert stream true }
  | streamFreed {stream} : s.streams.lookup stream = some true →
    Effect s { s with lock := none, streams := s.streams.erase stream }
  | event {stream} : s.lock = none → s.streams.lookup stream = some false →
    Effect s { s with lock := some (.worker stream) }
  | eventDone {stream} : s.lock = some (.worker stream) → (stream, true) ∉ s.waiting → Effect s { s with lock := none }
  | answerBuf {b} : .buf b ∈ s.listed → Effect s { callback s (.buf b) with listed := s.listed.erase (.buf b) }
  | answerStream {stream} : .stream stream ∈ s.listed → Effect s (callback s (.stream stream))
  /-- a refused vbuf, the worker's loop -/
  | other (refused workerLoop) : Effect s { s with refused, workerLoop }

theorem State.ready_some {s : State} {k : QKey} {q : VQueue} (h : s.ready k = some q) :
    s.queues.lookup k = some q ∧ q.pc = .idle := by
  simp only [State.ready, Option.bind_eq_bind, Option.bind_eq_some_iff] at h
  obtain ⟨releasing, -, q', hq, h⟩ := h
  split at h
  · cases h
  · next hidle =>
    cases h
    exact ⟨hq, not_not.mp fun hne => hidle (.inr hne)⟩

theorem bufDone_effect {s : State} {b : Nat} (hb : .buf b ∉ s.listed) : Effect s (bufDone s b) := by
  unfold bufDone
  split
  · next v hv =>
    split
    · exact .take hv (by simp) fun _ => hb
    · exact .other s.refused s.workerLoop
  · exact .other s.refused s.workerLoop

theorem VQueue.cancelled_pc (q : VQueue) (free : Bool) : (q.cancelled free).pc ≠ .free := by
  unfold cancelled
  split <;> simp

theorem stopStreaming_ne (type : DeviceType) (ok free : Bool) : stopStreaming type ok free ≠ .free := by
  cases type <;> cases ok <;> simp [stopStreaming]

variable {s s' : State} {a : Act}

theorem opened_effect (hs : opened s = some s') : Effect s s' := by
  unfold opened at hs
  split at hs
  · cases hs
  · cases hs
    exact .opened (by simp) (by simp)

theorem alloc_effect {k : QKey} (hs : alloc s k = some s') : Effect s s' := by
  simp only [alloc, Option.bind_eq_bind, Option.bind_eq_some_iff] at hs
  obtain ⟨q, hq, hs⟩ := hs
  cases hs
  exact .alloc k

theorem qbuf_effect {b : Nat} {r : Submit} (hs : qbuf s b r = some s') : Effect s s' := by
  simp only [qbuf, Option.bind_eq_bind, Option.bind_eq_some_iff] at hs
  obtain ⟨v, hv, q, hr, hs⟩ := hs
  obtain ⟨hq, hidle⟩ := State.ready_some hr
  split at hs
  · cases hs
  · next hst =>
    have hst : v.st = .dequeued := not_not.mp hst
    split at hs
    · cases hs
      exact .hand hv (by simp [hst]) hq (by simp [hidle])
    · cases hs
      exact .take hv (by simp) (by simp [hst])

theorem streamOn_effect {k : QKey} (hs : streamOn s k = some s') : Effect s s' := by
  simp only [streamOn, Option.bind_eq_bind, Option.bind_eq_some_iff] at hs
  obtain ⟨q, hr, hs⟩ := hs
  cases hs
  exact .queue (by simp [(State.ready_some hr).2])

theorem vb2Start_effect {k : QKey} (hs : vb2Start s k = some s') : Effect s s' := by
  simp only [vb2Start, Option.bind_eq_bind, Option.bind_eq_some_iff] at hs
  obtain ⟨q, hr, hs⟩ := hs
  split at hs
  · cases hs
    exact .queue (by simp)
  · cases hs

theorem enqueue_effect {b : Nat} {r : Submit} (hs : enqueue s b r = some s') : Effect s s' := by
  simp only [enqueue, Option.bind_eq_bind, Option.bind_eq_some_iff] at hs
  obtain ⟨v, hv, q, hq, hs⟩ := hs
  split at hs
  · next hg =>
    cases hs
    exact .hand hv (by simp [hg.2]) hq (by simp [hg.1])
  · cases hs

theorem startStreaming_effect {k : QKey} {ok : Bool} (hs : startStreaming s k ok = some s') : Effect s s' := by
  simp only [startStreaming, Option.bind_eq_bind, Option.bind_eq_some_iff] at hs
  obtain ⟨q, hq, hs⟩ := hs
  split at hs
  · split at hs
    · cases hs
    · cases hs
      exact .queue (by simp)
  · cases hs
    exact .queue (by cases ok <;> simp)
  · cases hs

theorem takeBack_effect {b : Nat} (hb : .buf b ∉ s.listed) (hs : takeBack s b = some s') : Effect s s' := by
  simp only [takeBack, Option.bind_eq_bind, Option.bind_eq_some_iff] at hs
  obtain ⟨v, hv, q, hq, hs⟩ := hs
  split at hs
  · cases hs
    exact .take hv (by simp) fun _ => hb
  · cases hs
    exact .take hv (by simp) fun _ => hb
  · cases hs
    exact .take hv (by simp) fun _ => hb
  · cases hs

theorem takenBack_effect {k : QKey} (hs : takenBack s k = some s') : Effect s s' := by
  simp only [takenBack, Option.bind_eq_bind, Option.bind_eq_some_iff] at hs
  obtain ⟨q, hq, hs⟩ := hs
  split at hs
  · cases hs
  · next hact =>
    split at hs
    · cases hs
      exact .queue (by simp)
    · split at hs
      · cases hs
      · cases hs
        exact .queue fun _ => hact
    · cases hs

theorem stopStep_effect {k : QKey} {ok : Bool} (hb : ∀ b ∈ takesBack s (.stopStep k ok), .buf b ∉ s.listed)
    (hs : stopStep s k ok = some s') : Effect s s' := by
  simp only [stopStep, Option.bind_eq_bind, Option.bind_eq_some_iff] at hs
  obtain ⟨q, hq, hs⟩ := hs
  split at hs
  · cases hs
    exact .queue fun hpc => absurd hpc (stopStreaming_ne _ _ _)
  · next free hpc =>
    cases hs
    simp only [takesBack, hq, hpc, QPc.loops, Option.any_some, if_true] at hb
    cases hh : s.pendingBufList.head? with
    | none =>
      simp only [releaseFirst, hh, Option.map_none, Option.getD_none]
      exact .queue (by simp)
    | some b =>
      simp only [releaseFirst, hh, Option.map_some, Option.getD_some]
      exact bufDone_effect (hb b hh)
  · split at hs
    · cases hs
    · cases hs
      exact .queue (by simp)
  · cases hs

theorem syncCmd_effect {stream : Nat} {worker : Bool} {r : Submit} (hs : syncCmd s stream worker r = some s') :
    Effect s s' := by
  unfold syncCmd at hs
  split at hs
  · next hg =>
    cases hs
    cases r with
    | queued => exact .send hg
    | refused => exact .other (.stream stream :: s.refused) s.workerLoop
    | failed => exact .other s.refused s.workerLoop
  · cases hs

theorem handleError_effect {ok : Bool} (hb : ∀ b ∈ takesBack s (.handleError ok), .buf b ∉ s.listed)
    (hs : handleError s ok = some s') : Effect s s' := by
  unfold handleError at hs
  split at hs
  · split at hs
    · next hl =>
      cases hs
      simp only [takesBack, hl, if_true] at hb
      cases hh : s.pendingBufList.head? with
      | none =>
        simp only [releaseFirst, hh, Option.map_none, Option.getD_none]
        exact .other s.refused false
      | some b =>
        simp only [releaseFirst, hh, Option.map_some, Option.getD_some]
        exact bufDone_effect (hb b hh)
    · cases hs
      exact .other s.refused _
  · cases hs

/-- A queue begins to be cancelled. -/
theorem cancelled_effect (k : QKey) (q : VQueue) (free : Bool) : Effect s (s.setQueue k (q.cancelled free)) :=
  .queue fun hpc => absurd hpc (q.cancelled_pc free)

theorem streamOff_effect {k : QKey} (hs : streamOff s k = some s') : Effect s s' := by
  simp only [streamOff, Option.bind_eq_bind, Option.bind_eq_some_iff] at hs
  obtain ⟨q, hr, hs⟩ := hs
  cases hs
  exact cancelled_effect k q false

theorem reqbufs_effect {k : QKey} (hs : reqbufs s k = some s') : Effect s s' := by
  simp only [reqbufs, Option.bind_eq_bind, Option.bind_eq_some_iff] at hs
  obtain ⟨q, hr, hs⟩ := hs
  split at hs
  · cases hs
  · cases hs
    exact cancelled_effect k q true

theorem releaseQueue_effect {k : QKey} (hs : releaseQueue s k = some s') : Effect s s' := by
  simp only [releaseQueue, Option.bind_eq_bind, Option.bind_eq_some_iff] at hs
  obtain ⟨q, hq, hs⟩ := hs
  split at hs
  · cases hs
    exact cancelled_effect k q true
  · cases hs

theorem freeBuf_effect {b : Nat} (hs : freeBuf s b = some s') : Effect s s' := by
  simp only [freeBuf, Option.bind_eq_bind, Option.bind_eq_some_iff] at hs
  obtain ⟨v, hv, q, hq, hs⟩ := hs
  split at hs
  · cases hs
    exact .free hv hq ‹_›
  · cases hs

theorem freedBufs_effect {k : QKey} (hs : freedBufs s k = some s') : Effect s s' := by
  simp only [freedBufs, Option.bind_eq_bind, Option.bind_eq_some_iff] at hs
  obtain ⟨q, hq, hs⟩ := hs
  split at hs
  · cases hs
    exact .queue (by simp)
  · cases hs

theorem syncDone_effect {stream : Nat} {worker : Bool} (hs : syncDone s stream worker = some s') : Effect s s' := by
  unfold syncDone at hs
  split at hs
  · cases hs
    exact .done ‹_›
  · cases hs

theorem deviceRelease_effect {stream : Nat} (hs : deviceRelease s stream = some s') : Effect s s' := by
  unfold deviceRelease at hs
  split at hs
  · next hg =>
    cases hs
    exact .release hg.1 hg.2.2.1
  · cases hs

theorem streamFreed_effect {stream : Nat} (hs : streamFreed s stream = some s') : Effect s s' := by
  unfold streamFreed at hs
  split at hs
  · next hg =>
    cases hs
    exact .streamFreed hg.1
  · cases hs

theorem handleEvent_effect {stream : Nat} (hs : handleEvent s stream = some s') : Effect s s' := by
  unfold handleEvent at hs
  split at hs
  · next hg =>
    cases hs
    exact .event hg.1 hg.2
  · cases hs

theorem eventDone_effect (hs : eventDone s = some s') : Effect s s' := by
  unfold eventDone at hs
  split at hs
  · next hl =>
    split at hs
    · cases hs
    · next hn =>
      cases hs
      exact .eventDone hl fun hw => hn (.inr hw)
  · cases hs

theorem answer_effect {p : Priv} (hs : answer s p = some s') : Effect s s' := by
  unfold answer at hs
  split at hs
  · next hp =>
    cases p with
    | buf b =>
      cases hs
      exact .answerBuf hp
    | stream stream =>
      cases hs
      exact .answerStream hp
  · cases hs

theorem step_effect (ha : KeepsOutstanding s a) (hs : step s a = some s') : Effect s s' := by
  obtain ⟨hb, hlate⟩ := ha
  cases a with
  | opened => exact opened_effect hs
  | alloc => exact alloc_effect hs
  | qbuf => exact qbuf_effect hs
  | streamOn => exact streamOn_effect hs
  | vb2Start => exact vb2Start_effect hs
  | enqueue => exact enqueue_effect hs
  | startStreaming => exact startStreaming_effect hs
  | takeBack b => exact takeBack_effect (hb b rfl) hs
  | takenBack => exact takenBack_effect hs
  | streamOff => exact streamOff_effect hs
  | reqbufs => exact reqbufs_effect hs
  | stopStep => exact stopStep_effect hb hs
  | freeBuf => exact freeBuf_effect hs
  | freedBufs => exact freedBufs_effect hs
  | syncCmd => exact syncCmd_effect hs
  | syncDone => exact syncDone_effect hs
  | deviceRelease => exact deviceRelease_effect hs
  | releaseQueue => exact releaseQueue_effect hs
  | streamFreed => exact streamFreed_effect hs
  | handleEvent => exact handleEvent_effect hs
  | handleError => exact handleError_effect hb hs
  | eventDone => exact eventDone_effect hs
  | answer => exact answer_effect hs
  | answerLate => cases hlate

/-! ## The invariant is kept -/

theorem bufQueue_frame (s : State) (b : Nat) (v : VBuf) (r : Submit) :
    ∃ listed refused pendingBufList, (listed = s.listed ∨ listed = .buf b :: s.listed) ∧
      bufQueue s b v r = { s.setBuf b { v with st := .active } with listed, refused, pendingBufList } := by
  cases r with
  | queued => exact ⟨_, _, _, .inr rfl, rfl⟩
  | refused | failed => exact ⟨_, _, _, .inl rfl, rfl⟩

theorem callback_frame {b : Nat} {v : VBuf} (hv : s.bufs.lookup b = some v) (hact : v.st = .active) :
    callback s (.buf b) =
      { (s.pendingDel b).setBuf b { v with st := .dequeued } with ran := true :: s.ran } := by
  have hdel : (s.pendingDel b).bufs.lookup b = some v := hv
  simp [callback, bufDone, hdel, hv, hact]

theorem CallbacksSafe.cons {there : Bool} (h : ∀ t ∈ s.ran, t = true) (ht : there = true) :
    ∀ t ∈ there :: s.ran, t = true := by
  intro t hmem
  obtain rfl | hmem := List.mem_cons.mp hmem
  · exact ht
  · exact h t hmem

theorem Safe.effect (h : Safe s) (he : Effect s s') : Safe s' := by
  obtain ⟨handed, waits, ran⟩ := h
  cases he with
  | opened hq hq' =>
    refine ⟨?_, waits.opened _, ran⟩
    exact (handed.setQueue fun hpc => absurd hpc hq).setQueue fun hpc => absurd hpc hq'
  | alloc k => exact ⟨handed.alloc, waits, ran⟩
  | queue hact =>
    refine ⟨handed.setQueue ?_, waits, ran⟩
    intro hpc b v hb hk hst
    exact hact hpc ⟨⟨b, v⟩, AList.mem_lookup_iff.mp hb, hk, hst⟩
  | @hand b v q r hv hst hq hpc =>
    have hb : .buf b ∉ s.listed := fun hl => hst (handed.active_of_listed hl hv)
    have hset := handed.setBuf .active hv (.inl rfl) fun _ q' hq' => by
      cases hq.symm.trans hq'
      exact hpc
    obtain ⟨listed, refused, pendingBufList, hl, hf⟩ := bufQueue_frame s b v r
    rw [hf]
    obtain rfl | rfl := hl
    · exact ⟨hset, waits, ran⟩
    · exact ⟨hset.send (AList.lookup_insert _) rfl hb, waits.sendBuf b, ran⟩
  | take hv hst hb =>
    refine ⟨handed.setBuf _ hv (.inr ?_) fun hact => absurd hact hst, waits, ran⟩
    intro hl
    exact hb (handed.active_of_listed hl hv) hl
  | free hv hq hpc =>
    refine ⟨handed.erase ?_, waits, ran⟩
    intro hl
    exact handed.kept _ _ _ hv (handed.active_of_listed hl hv) hq hpc
  | @send stream w hg =>
    refine ⟨handed.sendStream stream, ?_, ran⟩
    cases w with
    | false => exact waits.send hg (by simp)
    | true => exact waits.send (waits.handled stream hg) fun _ => hg
  | done hw => exact ⟨handed.unlist _, waits.done hw, ran⟩
  | release hl hw => exact ⟨handed, (hl ▸ waits).release hw, ran⟩
  | streamFreed hl => exact ⟨handed, waits.freed hl, ran⟩
  | event hl hs => exact ⟨handed, (hl ▸ waits).event hs, ran⟩
  | eventDone hl hw => exact ⟨handed, (hl ▸ waits).eventDone hw, ran⟩
  | @answerBuf b hl =>
    obtain ⟨v, hv, hact⟩ := handed.live b hl
    rw [callback_frame hv hact]
    refine ⟨?_, waits.unlistBuf b, CallbacksSafe.cons ran rfl⟩
    exact (handed.unlist (.buf b)).setBuf .dequeued hv (.inr handed.not_mem_erase) (by simp)
  | @answerStream stream hl =>
    refine ⟨handed, waits, CallbacksSafe.cons ran ?_⟩
    rw [waits.alive_of_listed hl]
    rfl
  | other => exact ⟨handed, waits, ran⟩

theorem safe_inductive : machine.Inductive KeepsOutstanding Safe where
  init s hs := by
    obtain ⟨type, rfl⟩ := hs
    exact Safe.probe type
  step _ _ _ h ha hs := h.effect (step_effect ha hs)

/-- **Callbacks run on live objects.** In every run in which no buffer is
taken back that the device owes an answer for, and no late answer is taken
for a refused vbuf: a `RESOURCE_QUEUE` callback runs on a buffer that the
driver has, a `GET_PARAMS` or `GET_CONTROL` callback on a stream that is not
freed. -/
theorem callbacks_safe {s : State} (hs : machine.Reach KeepsOutstanding s) : CallbacksSafe s :=
  (safe_inductive.reach hs).ran

theorem probe_init (type : DeviceType) : machine.init (probe type) := ⟨type, rfl⟩

/-- A stream whose input queue starts with one buffer queued, by the result
of `start_streaming`. -/
def startInput (ok : Bool) : List Act :=
  [.opened, .alloc (0, .input), .qbuf 0 .queued, .streamOn (0, .input), .vb2Start (0, .input), .enqueue 0 .queued,
    .startStreaming (0, .input) true, .startStreaming (0, .input) ok]

/-- What follows `stop_streaming` when no buffer is left, then REQBUFS(0). -/
def cancelAndFree : List Act :=
  [.takenBack (0, .input), .reqbufs (0, .input), .takenBack (0, .input), .freeBuf 0, .freedBufs (0, .input)]

/-- The encoder's STREAMOFF waits for an answer before the buffer is freed;
the stream is released after an event whose `GET_PARAMS` is answered. -/
theorem callbacks_safe_released : ∃ s, machine.Reach KeepsOutstanding s ∧
    (s.streams.keys = [] ∧ s.bufs.keys = [] ∧ s.ran = [true, true]) ∧ CallbacksSafe s := by
  obtain ⟨s, hs, hp⟩ := Machine.exists_reach KeepsOutstanding (probe_init .encoder)
    (startInput true ++
      [.streamOff (0, .input), .stopStep (0, .input) true, .answer (.buf 0), .stopStep (0, .input) true] ++
      cancelAndFree ++
      [.handleEvent 0, .syncCmd 0 true .queued, .answer (.stream 0), .syncDone 0 true, .eventDone, .deviceRelease 0,
        .streamFreed 0])
    (fun s => s.streams.keys = [] ∧ s.bufs.keys = [] ∧ s.ran = [true, true]) (by decide +kernel)
  exact ⟨s, hs, hp, callbacks_safe hs⟩

/-- `QUEUE_CLEAR` times out in the encoder's STREAMOFF, vb2 takes the buffer
back and REQBUFS(0) frees it; then it is answered. -/
theorem clearTimeout_late : ∃ s, machine.Reachable s ∧ (s.bufs.keys = [] ∧ s.ran = [false]) ∧ ¬ CallbacksSafe s := by
  obtain ⟨s, hs, hp⟩ := Machine.exists_reach (fun _ _ => True) (probe_init .encoder)
    (startInput true ++ [.streamOff (0, .input), .stopStep (0, .input) false, .takeBack 0] ++ cancelAndFree ++
      [.answer (.buf 0)])
    (fun s => s.bufs.keys = [] ∧ s.ran = [false]) (by decide +kernel)
  refine ⟨s, hs, hp, ?_⟩
  simp [CallbacksSafe, hp.2]

/-- So after a failed `start_streaming`, on any device. -/
theorem failedStart_late (type : DeviceType) : ∃ s, machine.Reachable s ∧ s.type = type ∧ ¬ CallbacksSafe s := by
  obtain ⟨s, hs, hp⟩ := Machine.exists_reach (fun _ _ => True) (probe_init type)
    (startInput false ++ [.takeBack 0, .takenBack (0, .input), .answer (.buf 0)])
    (fun s => s.type = type ∧ s.ran = [false]) (by cases type <;> decide +kernel)
  refine ⟨s, hs, hp.1, ?_⟩
  simp [CallbacksSafe, hp.2]

/-! ## Buffers taken back too early -/

theorem bufDone_inactive (s : State) (b : Nat) :
    (bufDone s b).listed = s.listed ∧ ∀ v, (bufDone s b).bufs.lookup b = some v → v.st ≠ .active := by
  unfold bufDone
  split
  · next v hv =>
    split
    · refine ⟨rfl, fun w hw => ?_⟩
      rw [State.setBuf, AList.lookup_insert] at hw
      cases hw
      simp
    · next hst =>
      refine ⟨rfl, fun w hw => ?_⟩
      cases hv.symm.trans hw
      exact hst
  · next hv =>
    refine ⟨rfl, fun w hw => ?_⟩
    cases hv.symm.trans hw

theorem takeBack_inactive {b : Nat} (hs : takeBack s b = some s') :
    s'.listed = s.listed ∧ ∀ v, s'.bufs.lookup b = some v → v.st ≠ .active := by
  simp only [takeBack, Option.bind_eq_bind, Option.bind_eq_some_iff] at hs
  obtain ⟨v, hv, q, hq, hs⟩ := hs
  have hset (st : BufState) (hst : st ≠ .active) (w : VBuf)
      (hw : (s.setBuf b { v with st }).bufs.lookup b = some w) : w.st ≠ .active := by
    rw [State.setBuf, AList.lookup_insert] at hw
    cases hw
    exact hst
  split at hs
  · cases hs
    exact ⟨rfl, hset .queued (by simp)⟩
  · cases hs
    exact ⟨rfl, hset .dequeued (by simp)⟩
  · cases hs
    exact ⟨rfl, hset .dequeued (by simp)⟩
  · cases hs

theorem takesBack_inactive {b : Nat} (hb : b ∈ takesBack s a) (hs : step s a = some s') :
    s'.listed = s.listed ∧ ∀ v, s'.bufs.lookup b = some v → v.st ≠ .active := by
  cases a with
  | takeBack c =>
    cases hb
    exact takeBack_inactive hs
  | stopStep k ok =>
    simp only [takesBack] at hb
    split at hb
    · next hl =>
      simp only [step, stopStep, Option.bind_eq_bind, Option.bind_eq_some_iff] at hs
      obtain ⟨q, hq, hs⟩ := hs
      simp only [hq, Option.any_some] at hl
      obtain ⟨free, hpc⟩ := QPc.loops_iff.mp hl
      simp only [hpc, releaseFirst, Option.mem_def.mp hb, Option.map_some, Option.getD_some, Option.some.injEq] at hs
      rw [← hs]
      exact bufDone_inactive s b
    · cases hb
  | handleError ok =>
    simp only [takesBack] at hb
    split at hb
    · next hl =>
      simp only [step, handleError, hl, if_true] at hs
      split at hs
      · simp only [releaseFirst, Option.mem_def.mp hb, Option.map_some, Option.getD_some, Option.some.injEq] at hs
        rw [← hs]
        exact bufDone_inactive s b
      · cases hs
    · cases hb
  | _ => cases hb

theorem lateAnswer_unsafe {b : Nat} (hl : .buf b ∈ s.listed) (hb : ∀ v, s.bufs.lookup b = some v → v.st ≠ .active) :
    ∃ t, machine.step s (.answer (.buf b)) = some t ∧ ¬ CallbacksSafe t := by
  refine ⟨{ callback s (.buf b) with listed := s.listed.erase (.buf b) }, if_pos hl, fun h => ?_⟩
  have hran := h false (by simpa [callback] using .inl hb)
  cases hran

/-- A buffer that is taken back before it is answered can be answered then. -/
theorem earlyReturn_unsafe {b : Nat} (hb : b ∈ takesBack s a) (hl : .buf b ∈ s.listed)
    (hs : machine.step s a = some s') : ∃ t, machine.step s' (.answer (.buf b)) = some t ∧ ¬ CallbacksSafe t := by
  obtain ⟨hl', hb'⟩ := takesBack_inactive hb hs
  exact lateAnswer_unsafe (hl' ▸ hl) hb'

end Agl.VirtioVideo.Buffers
