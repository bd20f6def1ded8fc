/-
What holds of the event queue in every run: no event buffer is lost or in
two places, each event is handled once and in order, and none waits with
nobody to look.
-/
import Agl.Video.Events

namespace Agl.VirtioVideo.Events

/-- The removal has not begun to take buffers out of the queue. -/
def Main.up : Main → Bool
  | .alloc | .deviceReady | .setReady | .deviceInit | .running | .unready => true
  | .detach | .freeEvts | .delVqs | .freeVvd | .gone => false

/-! ## Where the buffers are -/

/-- Each buffer has one place, and the events written are the events handled
and those in the buffers, in order. The buffers in `extra` have no place yet. -/
structure Inv (extra : List Nat) (s : State) : Prop where
  parts : (extra ++ s.avail ++ s.used ++ s.pc.hand ++ s.out).Perm (List.range s.num)
  one : ∀ e ∈ s.ring.held, e.2 = 1
  sized : s.ring.Sized s.num
  room : s.ring.bufs.length ≤ s.avail.length + s.used.length
  inside : s.main.up = true → s.ring.bufs.Perm (s.avail ++ s.used)
  zero : ∀ evt ∈ s.avail, s.mem evt = zeros
  events : s.handled ++ (s.pc.unhandled ++ s.used).map (fun evt => .read (s.mem evt)) = s.posted.map .ofBytes
  out : s.out ≠ [] → s.main = .alloc ∨ s.broken = true ∨ s.mapFailed = true

theorem Pc.unhandled_subset (pc : Pc) : pc.unhandled ⊆ pc.hand := by
  cases pc <;> simp [unhandled, hand]

/-- Events in other buffers stay as they are. -/
theorem map_read_update (mem : Nat → Mem) {evt : Nat} (m : Mem) {l : List Nat} (h : evt ∉ l) :
    l.map (fun e => Event.read (Function.update mem evt m e)) = l.map fun e => .read (mem e) := by
  apply List.map_congr_left
  intro e he
  rw [Function.update_of_ne]
  intro hee
  exact h (hee ▸ he)

namespace Inv

variable {s : State} {evt : Nat} {extra : List Nat}

theorem nodup (h : Inv extra s) : (extra ++ s.avail ++ s.used ++ s.pc.hand ++ s.out).Nodup :=
  h.parts.nodup_iff.mpr List.nodup_range

/-- A buffer on its own is nowhere else. -/
theorem only (h : Inv [evt] s) : evt ∉ s.avail ∧ evt ∉ s.used ∧ evt ∉ s.pc.hand ∧ evt ∉ s.out := by
  have hnd : (evt :: (s.avail ++ s.used ++ s.pc.hand ++ s.out)).Nodup := h.nodup
  have hnot := (List.nodup_cons.mp hnd).1
  simp only [List.mem_append, not_or] at hnot
  exact ⟨hnot.1.1.1, hnot.1.1.2, hnot.1.2, hnot.2⟩

/-- With a buffer outside the queue there is room in it. -/
theorem numFree_pos (h : Inv [evt] s) : 0 < s.ring.numFree := by
  have hlen := h.parts.length_eq
  have hfree := h.sized.numFree_of_one h.one
  have hroom := h.room
  simp only [List.length_append, List.length_singleton, List.length_range] at hlen
  omega

/-- The buffer is in the queue, or outside for a reason. -/
theorem queueEventBuffer (h : Inv [evt] s) (mapped : Bool) :
    Inv [] (queueEventBuffer s evt mapped).2 ∧ ((queueEventBuffer s evt mapped).1 = false →
      (queueEventBuffer s evt mapped).2.broken = true ∨ (queueEventBuffer s evt mapped).2.mapFailed = true) := by
  obtain ⟨havail, hused, hhand, -⟩ := h.only
  have hnot : evt ∉ s.pc.unhandled ++ s.used := by
    rw [List.mem_append, not_or]
    exact ⟨fun hm => hhand (s.pc.unhandled_subset hm), hused⟩
  have hevents := h.events
  rw [← map_read_update s.mem zeros hnot] at hevents
  have hzero : ∀ e ∈ s.avail, Function.update s.mem evt zeros e = zeros := by
    intro e he
    rw [Function.update_of_ne (by rintro rfl; exact havail he), h.zero e he]
  rcases queueEventBuffer_cases s evt mapped with ⟨ring, hadd, heq⟩ | ⟨failed, hwhy, heq⟩
  · rw [heq]
    refine ⟨?_, fun hf => by cases hf⟩
    obtain ⟨-, hring⟩ := Ring.add_cases hadd
    exact { h with
      parts := by
        refine List.Perm.trans ?_ h.parts
        simp only [List.nil_append, List.append_assoc]
        exact List.perm_middle
      one := by
        intro e he
        rw [hring] at he
        rcases List.mem_append.mp he with he | he
        · exact h.one e he
        · rw [List.mem_singleton.mp he]
      sized := h.sized.add hadd
      room := by
        have := h.room
        simp only [Ring.bufs_add hadd, List.length_append, List.length_singleton]
        omega
      inside := by
        intro hup
        rw [Ring.bufs_add hadd, List.append_assoc]
        refine ((h.inside hup).append_right [evt]).trans ?_
        rw [List.append_assoc]
        exact (List.perm_append_comm).append_left s.avail
      zero := by
        intro e he
        rcases List.mem_append.mp he with he | he
        · exact hzero e he
        · rw [List.mem_singleton.mp he]
          exact Function.update_self _ _ _
      events := hevents }
  · have hwhy' : s.broken = true ∨ (s.mapFailed || failed) = true := by
      have hroom := h.numFree_pos
      rcases hwhy with hb | hfull | hf
      · exact .inl hb
      · omega
      · exact .inr (by rw [hf, Bool.or_true])
    rw [heq]
    refine ⟨?_, fun _ => hwhy'⟩
    exact { h with
      parts := by
        refine List.Perm.trans ?_ h.parts
        simp only [List.nil_append, ← List.append_assoc]
        exact List.perm_append_comm
      zero := hzero
      events := hevents
      out := fun _ => .inr hwhy' }

end Inv

theorem queueEventBuffer_pc (s : State) (evt : Nat) (mapped : Bool) (pc : Pc) :
    { (queueEventBuffer s evt mapped).2 with pc } = (queueEventBuffer { s with pc } evt mapped).2 := by
  unfold queueEventBuffer
  dsimp only
  split
  · rfl
  · split
    · rfl
    · split <;> rfl

namespace Inv

variable {s s' : State}

/-- A buffer taken out of the queue and cleared goes back. -/
theorem queue (h : Inv [] s) {evt : Nat} (hp : s.pc = .queue evt) (mapped : Bool) :
    Inv [] { (Events.queueEventBuffer s evt mapped).2 with pc := .getBuf } := by
  have hhand : Inv [evt] { s with pc := .getBuf } :=
    { h with
      parts := by
        refine List.Perm.trans ?_ h.parts
        simp only [hp, Pc.hand, List.append_nil, List.nil_append, List.append_assoc, List.singleton_append]
        rw [← List.append_assoc, ← List.append_assoc s.avail]
        exact List.perm_middle.symm
      events := by
        have hevents := h.events
        rwa [hp] at hevents }
  rw [queueEventBuffer_pc]
  exact (hhand.queueEventBuffer mapped).1

/-- The worker moves on, with the same buffers. -/
theorem setPc (h : Inv [] s) (pc : Pc) (hh : pc.hand = s.pc.hand) (hu : pc.unhandled = s.pc.unhandled) :
    Inv [] { s with pc } :=
  { h with
    parts := by
      rw [hh]
      exact h.parts
    events := by
      rw [hu]
      exact h.events }

theorem work (h : Inv [] s) {mapped : Bool} (hs : workStep s mapped = some s') : Inv [] s' := by
  cases workStep_cases hs with
  | go hp | stop hp | empty hp | leave hp | stay hp | done hp | more hp =>
    exact h.setPc _ (by rw [hp]; rfl) (by rw [hp]; rfl)
  | disable hp =>
    have h := h.setPc .getBuf (by rw [hp]; rfl) (by rw [hp]; rfl)
    exact { h with }
  | enable hp =>
    have h := h.setPc .poll (by rw [hp]; rfl) (by rw [hp]; rfl)
    exact { h with }
  | badRing hp =>
    have h := h.setPc .isBroken (by rw [hp]; rfl) (by rw [hp]; rfl)
    exact { h with out := fun _ => .inr (.inl rfl) }
  | queue hp => exact h.queue hp mapped
  | @handle evt hp =>
    have hevents := h.events
    have hparts := h.parts
    rw [hp] at hevents hparts
    exact { h with
      parts := hparts
      events := by
        rw [← hevents, List.append_assoc]
        rfl }
  | @take evt rest hp _ hu hin =>
    have hevents := h.events
    have hparts := h.parts
    have hbufs := Ring.bufs_get hin
    have hlen := hbufs.length_eq
    have hroom := h.room
    simp only [List.length_cons] at hlen
    rw [hu, List.length_cons] at hroom
    rw [hp, hu] at hevents hparts
    exact { h with
      parts := by
        refine List.Perm.trans ?_ hparts
        simp only [Pc.hand, List.nil_append, List.append_nil, List.append_assoc, List.cons_append]
        exact (List.perm_middle).append_left s.avail
      one := fun e he => h.one e (Ring.mem_held_get he)
      sized := h.sized.get evt
      room := by
        show (s.ring.get evt).bufs.length ≤ s.avail.length + rest.length
        omega
      inside := fun hup => by
        have hall := h.inside hup
        rw [hu] at hall
        exact (hbufs.symm.trans (hall.trans List.perm_middle)).cons_inv
      events := hevents }

/-- The probe or the removal moves on. -/
theorem setMain (h : Inv [] s) (main : Main) (hup : main.up = true → s.main.up = true)
    (hout : s.out ≠ [] → s.broken = true ∨ s.mapFailed = true) : Inv [] { s with main } :=
  { h with
    inside := fun hm => h.inside (hup hm)
    out := fun ho => .inr (hout ho) }

theorem main (h : Inv [] s) {ok : Bool} (hs : mainStep s ok = some s') : Inv [] s' := by
  have hout : s.main ≠ .alloc → s.out ≠ [] → s.broken = true ∨ s.mapFailed = true := fun hm ho =>
    (h.out ho).resolve_left hm
  unfold mainStep at hs
  split at hs
  · next hm =>
    split at hs
    · next hnil =>
      cases hs
      exact h.setMain _ (fun _ => by rw [hm]; rfl) fun ho => absurd hnil ho
    · next evt rest hcons =>
      have hevt : Inv [evt] { s with out := rest } :=
        { h with
          parts := by
            have hparts := h.parts
            rw [hcons] at hparts
            refine List.Perm.trans ?_ hparts
            exact (@List.perm_middle _ evt (s.avail ++ s.used ++ s.pc.hand) rest).symm
          out := fun _ => .inl hm }
      obtain ⟨hq, hwhy⟩ := hevt.queueEventBuffer ok
      cases hs
      split
      · exact hq
      · next hf => exact hq.setMain _ (fun hup => by cases hup) fun _ => hwhy (by simpa using hf)
  · next hm =>
    cases hs
    have h := h.setMain .setReady (fun _ => by rw [hm]; rfl) (hout (by rw [hm]; decide))
    exact { h with }
  · next hm =>
    cases hs
    have h := h.setMain .deviceInit (fun _ => by rw [hm]; rfl) (hout (by rw [hm]; decide))
    exact { h with }
  · next hm =>
    cases hs
    exact h.setMain _ (fun _ => by rw [hm]; rfl) (hout (by rw [hm]; decide))
  · next hm =>
    cases hs
    exact h.setMain _ (fun _ => by rw [hm]; rfl) (hout (by rw [hm]; decide))
  · next hm =>
    cases hs
    have h := h.setMain .detach (fun hup => by cases hup) (hout (by rw [hm]; decide))
    exact { h with }
  · next hm =>
    split at hs
    · next r hr =>
      cases hs
      have hr : s.ring.detach = some (r.1, r.2) := hr
      obtain ⟨n, hheld, -⟩ := Ring.detach_cases hr
      have hlen := congrArg List.length (Ring.bufs_detach hr)
      have hroom := h.room
      rw [List.length_cons] at hlen
      exact { h with
        one := fun e he => h.one e (by rw [hheld]; exact List.mem_cons_of_mem _ he)
        sized := h.sized.detach hr
        room := by
          show r.2.bufs.length ≤ s.avail.length + s.used.length
          omega
        inside := fun hup => by
          have hup : s.main.up = true := hup
          rw [hm] at hup
          cases hup }
    · cases hs
      exact h.setMain _ (fun hup => by cases hup) (hout (by rw [hm]; decide))
  · next hm =>
    cases hs
    exact h.setMain _ (fun hup => by cases hup) (hout (by rw [hm]; decide))
  · next hm =>
    cases hs
    have h := h.setMain .freeVvd (fun hup => by cases hup) (hout (by rw [hm]; decide))
    exact { h with }
  · next hm =>
    cases hs
    exact h.setMain _ (fun hup => by cases hup) (hout (by rw [hm]; decide))
  · cases hs

/-- The device writes an event to a buffer of zeros. -/
theorem post (h : Inv [] s) {evt : Nat} {bytes : List UInt8} (ha : evt ∈ s.avail) : Inv [] { s with
    avail := s.avail.erase evt
    used := s.used ++ [evt]
    mem := Function.update s.mem evt (Mem.ofList bytes (s.mem evt))
    look := true
    posted := s.posted ++ [bytes] } := by
  have hcons := List.perm_cons_erase ha
  have hnd : (s.avail ++ (s.used ++ s.pc.hand ++ s.out)).Nodup := by
    have hnd := h.nodup
    simpa only [List.nil_append, List.append_assoc] using hnd
  have hnot : evt ∉ s.pc.unhandled ++ s.used := by
    have hdis := List.disjoint_of_nodup_append hnd ha
    intro hm
    rcases List.mem_append.mp hm with hm | hm
    · exact hdis (List.mem_append_left _ (List.mem_append_right _ (s.pc.unhandled_subset hm)))
    · exact hdis (List.mem_append_left _ (List.mem_append_left _ hm))
  have hlen := List.length_erase_of_mem ha
  have hpos := List.length_pos_of_mem ha
  exact { h with
    parts := by
      refine List.Perm.trans ?_ h.parts
      simp only [List.nil_append, List.append_assoc, List.singleton_append]
      refine List.Perm.trans ?_ (hcons.symm.append_right _)
      rw [List.cons_append, ← List.append_assoc]
      refine List.perm_middle.trans ?_
      rw [List.append_assoc, List.cons_append]
    room := by
      have := h.room
      simp only [List.length_append, List.length_singleton]
      omega
    inside := fun hup => by
      refine (h.inside hup).trans ((hcons.append_right _).trans ?_)
      rw [List.cons_append, ← List.append_assoc]
      exact (List.perm_append_singleton evt _).symm
    zero := fun e he => by
      have hne : e ≠ evt := by
        rintro rfl
        exact (List.Nodup.mem_erase_iff (List.nodup_append.mp hnd).1).mp he |>.1 rfl
      show Function.update s.mem evt (Mem.ofList bytes (s.mem evt)) e = zeros
      rw [Function.update_of_ne hne, h.zero e (List.mem_of_mem_erase he)]
    events := by
      have hevents := h.events
      rw [← map_read_update s.mem (Mem.ofList bytes (s.mem evt)) hnot] at hevents
      have hlast : Event.read (Function.update s.mem evt (Mem.ofList bytes (s.mem evt)) evt) = .ofBytes bytes := by
        rw [Function.update_self, h.zero evt ha, Event.ofBytes]
      have hposted : (s.posted ++ [bytes]).map Event.ofBytes = s.posted.map .ofBytes ++ [.ofBytes bytes] :=
        List.map_append
      show _ = (s.posted ++ [bytes]).map Event.ofBytes
      rw [hposted, ← hevents, ← List.append_assoc s.pc.unhandled, List.map_append]
      simp only [List.map_cons, List.map_nil, hlast, List.append_assoc] }

end Inv

theorem inv_probe (num : Nat) : Inv [] (probe num) where
  parts := List.Perm.refl _
  one := fun e he => by cases he
  sized := rfl
  room := Nat.le_refl _
  inside := fun _ => List.Perm.refl _
  zero := fun _ _ => rfl
  events := rfl
  out := fun _ => .inl rfl

theorem inv_inductive : machine.Inductive (fun _ _ => True) (Inv []) where
  init := by
    rintro s ⟨num, rfl⟩
    exact inv_probe num
  step := by
    intro s a s' h _ hs
    cases a with
    | main ok => exact h.main hs
    | work mapped => exact h.work hs
    | post evt bytes =>
      simp only [machine, step] at hs
      split at hs
      · next hc =>
        cases hs
        exact h.post hc.2.1
      · cases hs
    | look | spurious | eventCb =>
      simp only [machine, step] at hs
      split at hs <;> cases hs
      exact { h with }
    | breakVq =>
      simp only [machine, step] at hs
      split at hs <;> cases hs
      exact { h with out := fun _ => .inr (.inl rfl) }
    | begin =>
      simp only [machine, step] at hs
      split at hs
      · next hc =>
        cases hs
        have h := h.setPc .test (by rw [hc.2]; rfl) (by rw [hc.2]; rfl)
        exact { h with }
      · cases hs

/-- **No event is lost, repeated or mixed up with another.** In every
reachable state each event buffer has one place: with the device, used, in
the worker's hand, or outside the queue, the last only because the queue was
broken or the buffer could not be mapped. What was handled and what is still
in the buffers is what the device has written, in its order, with zeros where
it wrote less than an event. -/
theorem events_conserved {s : State} (h : machine.Reachable s) :
    (s.avail ++ s.used ++ s.pc.hand ++ s.out).Perm (List.range s.num) ∧
      (s.main.up = true → s.ring.bufs.Perm (s.avail ++ s.used)) ∧
      (s.main ≠ .alloc → s.out ≠ [] → s.broken = true ∨ s.mapFailed = true) ∧
      s.handled ++ (s.pc.unhandled ++ s.used).map (fun evt => .read (s.mem evt)) = s.posted.map .ofBytes := by
  have h := inv_inductive.reach h
  exact ⟨h.parts, h.inside, fun hm ho => (h.out ho).resolve_left hm, h.events⟩

/-- Two buffers; the second is used before the first, with a short event. -/
def outOfOrder : List Act :=
  [.main true, .main true, .main true, .main true, .main true, .main true, .post 1 [0, 1], .look,
    .post 0 [0, 2, 0, 0, 7], .eventCb, .begin, .work true, .work true, .work true, .work true, .work true, .work true,
    .work true]

theorem events_conserved_outOfOrder : ∃ s : State, s.handled = [⟨0x100, 0⟩, ⟨0x200, 7⟩] ∧ s.avail = [1] ∧
    (s.avail ++ s.used ++ s.pc.hand ++ s.out).Perm (List.range s.num) := by
  obtain ⟨s, hs, hp⟩ := Machine.exists_reach (fun _ _ => True) (show machine.init (probe 2) from ⟨2, rfl⟩) outOfOrder
    (fun s => s.handled = [⟨0x100, 0⟩, ⟨0x200, 7⟩] ∧ s.avail = [1]) (by decide +kernel)
  exact ⟨s, hp.1, hp.2, (events_conserved hs).1⟩

/-! ## Who looks at the used buffers -/

/-- The device writes no event before the driver has set `ready`. -/
def PostsWhenReady (s : State) : Act → Prop
  | .post _ _ => s.ready = true
  | _ => True

instance (s : State) (a : Act) : Decidable (PostsWhenReady s a) :=
  match a with
  | .post _ _ => inferInstanceAs (Decidable (s.ready = true))
  | .main _ | .look | .spurious | .eventCb | .breakVq | .begin | .work _ => .isTrue trivial

/-- `ready` is not set yet. -/
def Main.early : Main → Bool
  | .alloc | .deviceReady | .setReady => true
  | .deviceInit | .running | .unready | .detach | .freeEvts | .delVqs | .freeVvd | .gone => false

/-- The virtqueues exist. -/
def Main.hasVqs : Main → Bool
  | .freeVvd | .gone => false
  | .alloc | .deviceReady | .setReady | .deviceInit | .running | .unready | .detach | .freeEvts | .delVqs => true

/-- Here the worker has the callback enabled. -/
def Pc.cbOn : Pc → Bool
  | .idle | .test | .disableCb | .poll => true
  | .getBuf | .handle _ | .queue _ | .isBroken | .enableCb => false

/-- Somebody is going to look at the used buffers: the worker runs, or is
going to, or the interrupt that starts it is pending, or will be raised. -/
def State.Attended (s : State) : Prop :=
  s.pc ≠ .idle ∨ s.pending = true ∨ s.irq = true ∨ (s.look = true ∧ s.cbEnabled = true)

structure Wake (s : State) : Prop where
  early : s.main.early = true → s.ready = false ∧ s.used = []
  on : s.pc.cbOn = true → s.broken = false → s.cbEnabled = true
  event : s.main.hasVqs = true → s.ready = true → s.broken = false → s.used ≠ [] → s.Attended

theorem Pc.ne_idle_of_cbOn {pc : Pc} (h : pc.cbOn = false) : pc ≠ .idle := by
  rintro rfl
  cases h

namespace Wake

variable {s s' : State}

theorem queueEventBuffer (h : Wake s) (evt : Nat) (mapped : Bool) : Wake (queueEventBuffer s evt mapped).2 := by
  rcases queueEventBuffer_cases s evt mapped with ⟨ring, -, heq⟩ | ⟨failed, -, heq⟩
  · rw [heq]
    exact { h with }
  · rw [heq]
    exact { h with }

/-- The worker goes on. -/
theorem setPc (h : Wake s) {pc : Pc} (hon : pc.cbOn = true → s.broken = false → s.cbEnabled = true)
    (hidle : pc ≠ .idle) : Wake { s with pc } :=
  { h with
    on := hon
    event := fun _ _ _ _ => .inl hidle }

theorem work (h : Wake s) {mapped : Bool} (hs : workStep s mapped = some s') : Wake s' := by
  have hon : s.pc.cbOn = true → s.broken = false → s.cbEnabled = true := h.on
  cases workStep_cases hs with
  | go hp | more hp =>
    rw [hp] at hon
    exact h.setPc (fun _ => hon rfl) (by decide)
  | stop hp hr =>
    rw [hp] at hon
    exact { h with
      on := fun _ => hon rfl
      event := fun _ hr' => absurd (hr.symm.trans hr') (by decide) }
  | leave hp hb =>
    exact { h with
      on := fun _ hb' => absurd (hb.symm.trans hb') (by decide)
      event := fun _ _ hb' => absurd (hb.symm.trans hb') (by decide) }
  | done hp hu =>
    rw [hp] at hon
    exact { h with
      on := fun _ => hon rfl
      event := fun _ _ hb hu' => by
        rcases hu with hu | hb'
        · exact absurd hu hu'
        · exact absurd (hb.symm.trans hb') (by decide) }
  | empty hp | stay hp =>
    exact h.setPc (fun hon => by cases hon) (by decide)
  | handle hp =>
    exact { h with
      on := fun hon => by cases hon
      event := fun _ _ _ _ => .inl fun he => by cases he }
  | disable hp =>
    exact { h with
      on := fun hon => by cases hon
      event := fun _ _ _ _ => .inl fun he => by cases he }
  | enable hp =>
    exact { h with
      on := fun _ _ => rfl
      event := fun _ _ _ _ => .inl fun he => by cases he }
  | badRing hp =>
    exact { h with
      on := fun hon => by cases hon
      event := fun _ _ _ _ => .inl fun he => by cases he }
  | take hp _ hu =>
    exact { h with
      early := fun he => by
        have := (h.early he).2
        rw [hu] at this
        cases this
      on := fun hon => by cases hon
      event := fun _ _ _ _ => .inl fun he => by cases he }
  | @queue evt hp =>
    exact (h.queueEventBuffer evt mapped).setPc (fun hon => by cases hon) (by decide)

theorem setMain (h : Wake s) (main : Main) (he : main.early = true → s.main.early = true)
    (hv : main.hasVqs = true → s.main.hasVqs = true) : Wake { s with main } :=
  { h with
    early := fun hm => h.early (he hm)
    event := fun hm => h.event (hv hm) }

theorem main (h : Wake s) {ok : Bool} (hs : mainStep s ok = some s') : Wake s' := by
  unfold mainStep at hs
  split at hs
  · next hm =>
    have he : s.main.early = true := by rw [hm]; rfl
    have hv : s.main.hasVqs = true := by rw [hm]; rfl
    split at hs
    · cases hs
      exact h.setMain _ (fun _ => he) fun _ => hv
    · next evt rest _ =>
      have hq : Wake { s with out := rest } := { h with }
      have hq := hq.queueEventBuffer evt ok
      cases hs
      split
      · exact hq
      · have hkeep : (Events.queueEventBuffer { s with out := rest } evt ok).2.ready = false := by
          rcases queueEventBuffer_cases { s with out := rest } evt ok with ⟨_, -, heq⟩ | ⟨_, -, heq⟩ <;> rw [heq] <;>
            exact (h.early he).1
        exact { hq with
          early := fun hup => by cases hup
          event := fun _ hr => absurd (hkeep.symm.trans hr) (by decide) }
  · next hm =>
    cases hs
    have h := h.setMain .setReady (fun _ => by rw [hm]; rfl) (fun _ => by rw [hm]; rfl)
    exact { h with }
  · next hm =>
    -- nothing was written before
    have hu := (h.early (by rw [hm]; rfl)).2
    cases hs
    exact { h with
      early := fun he => by cases he
      event := fun _ _ _ hne => absurd hu hne }
  · next hm =>
    cases hs
    cases ok <;> exact h.setMain _ (fun he => by cases he) fun _ => by rw [hm]; rfl
  · next hm =>
    cases hs
    exact h.setMain _ (fun he => by cases he) fun _ => by rw [hm]; rfl
  · next hm =>
    cases hs
    exact { h with
      early := fun he => by cases he
      event := fun _ hr => by cases hr }
  · next hm =>
    split at hs
    · cases hs
      exact { h with }
    · cases hs
      exact h.setMain _ (fun he => by cases he) fun _ => by rw [hm]; rfl
  · next hm =>
    cases hs
    exact h.setMain _ (fun he => by cases he) fun _ => by rw [hm]; rfl
  · next hm =>
    cases hs
    exact { h with
      early := fun he => by cases he
      event := fun hv => by cases hv }
  · next hm =>
    cases hs
    exact h.setMain _ (fun he => by cases he) fun hv => by cases hv
  · cases hs

end Wake

theorem wake_inductive : machine.Inductive PostsWhenReady Wake where
  init := by
    rintro s ⟨num, rfl⟩
    exact ⟨fun _ => ⟨rfl, rfl⟩, fun _ _ => rfl, fun _ hr => by cases hr⟩
  step := by
    intro s a s' h ha hs
    cases a with
    | main ok => exact h.main hs
    | work mapped => exact h.work hs
    | post evt bytes =>
      simp only [machine, step] at hs
      split at hs
      · cases hs
        exact { h with
          early := fun he => absurd ((h.early he).1.symm.trans ha) (by decide)
          event := fun _ _ hb _ => by
            cases hon : s.pc.cbOn
            · exact .inl (Pc.ne_idle_of_cbOn hon)
            · exact .inr (.inr (.inr ⟨rfl, h.on hon hb⟩)) }
      · cases hs
    | look =>
      simp only [machine, step] at hs
      split at hs <;> cases hs
      exact { h with
        event := fun hv hr hb hu => by
          rcases h.event hv hr hb hu with hp | hp | hi | ⟨-, hcb⟩
          · exact .inl hp
          · exact .inr (.inl hp)
          · exact .inr (.inr (.inl (by simp only [hi, Bool.true_or])))
          · exact .inr (.inr (.inl (by simp only [hcb, Bool.or_true]))) }
    | spurious =>
      simp only [machine, step] at hs
      split at hs <;> cases hs
      exact { h with event := fun _ _ _ _ => .inr (.inr (.inl rfl)) }
    | eventCb =>
      simp only [machine, step] at hs
      split at hs <;> cases hs
      exact { h with event := fun _ _ _ _ => .inr (.inl rfl) }
    | breakVq =>
      simp only [machine, step] at hs
      split at hs <;> cases hs
      exact { h with
        on := fun _ hb => by cases hb
        event := fun _ _ hb => by cases hb }
    | begin =>
      simp only [machine, step] at hs
      split at hs
      · next hc =>
        cases hs
        exact { h with
          on := fun _ => h.on (by rw [hc.2]; rfl)
          event := fun _ _ _ _ => .inl fun he => by cases he }
      · cases hs

/-- **No event is left waiting.** While `ready` is set and the queue works, a
used buffer is one somebody is going to look at, and the worker goes to sleep
only with none left and the callback enabled: in every run in which the
device writes no event before `ready` is set, which is after the driver tells
it to start. -/
theorem events_noLostWakeup {s : State} (h : machine.Reach PostsWhenReady s) (hvqs : s.main.hasVqs = true)
    (hready : s.ready = true) (hbroken : s.broken = false) :
    (s.used ≠ [] → s.Attended) ∧
      ∀ mapped s', workStep s mapped = some s' → s'.pc = .idle → s'.used = [] ∧ s'.cbEnabled = true := by
  have h := wake_inductive.reach h
  refine ⟨h.event hvqs hready hbroken, fun mapped s' hs hidle => ?_⟩
  cases workStep_cases hs with
  | stop _ hr => exact absurd (hr.symm.trans hready) (by decide)
  | leave _ hb => exact absurd (hb.symm.trans hbroken) (by decide)
  | done hp hu => exact ⟨hu.resolve_right (by rw [hbroken]; decide), h.on (by rw [hp]; rfl) hbroken⟩
  | go | disable | empty | take | badRing | handle | queue | stay | enable | more => cases hidle

/-- An event that arrives while the worker is on its way out. -/
def lateEvent : List Act :=
  [.main true, .main true, .main true, .main true, .main true, .main true, .main true, .post 0 [0, 1], .look, .eventCb,
    .begin, .work true, .work true, .work true, .work true, .work true, .work true, .post 1 [0, 2], .look, .work true,
    .work true]

theorem events_noLostWakeup_lateEvent : ∃ s : State, s.used = [1] ∧ s.irq = false ∧ s.pending = false ∧ s.Attended := by
  obtain ⟨s, hs, hp⟩ := Machine.exists_reach PostsWhenReady (show machine.init (probe 2) from ⟨2, rfl⟩) lateEvent
    (fun s => (s.main.hasVqs = true ∧ s.ready = true ∧ s.broken = false) ∧ s.used = [1] ∧ s.irq = false ∧
      s.pending = false) (by decide +kernel)
  exact ⟨s, hp.2.1, hp.2.2.1, hp.2.2.2,
    (events_noLostWakeup hs hp.1.1 hp.1.2.1 hp.1.2.2).1 (by rw [hp.2.1]; decide)⟩

/-- Between `virtio_device_ready` and `ready = true` an event is missed: the
worker finds the queue not ready, and nobody comes again. -/
theorem posted_early : ∃ s : State, machine.Reachable s ∧ s.main = .running ∧ s.ready = true ∧ s.used = [0] ∧
    s.pc = .idle ∧ s.pending = false ∧ s.irq = false ∧ s.look = false := by
  obtain ⟨s, hs, hp⟩ := Machine.exists_reach (fun _ _ => True) (show machine.init (probe 1) from ⟨1, rfl⟩)
    [.main true, .main true, .main true, .post 0 [0, 1], .look, .eventCb, .begin, .work true, .main true, .main true]
    (fun s => s.main = .running ∧ s.ready = true ∧ s.used = [0] ∧ s.pc = .idle ∧ s.pending = false ∧ s.irq = false ∧
      s.look = false) (by decide +kernel)
  exact ⟨s, hs, hp⟩

end Agl.VirtioVideo.Events
