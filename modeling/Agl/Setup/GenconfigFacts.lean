/-
What a sequence of setup runs leaves in the build directory.

A run generates the configuration only if neither file exists, and writes
the manifest anyway: the two agree as long as a run that leaves the files as
they are finds those of its own machine and features, complete and with
their setup done (`config_agrees`). A setup script that fails leaves the
files behind (`failedSetup_skipped`).
-/
import Agl.Setup.Genconfig

namespace Agl.Setup

variable {t : Templates} {d d' : BuildDir} {m : String} {features : List String} {os : List Bool} {stop : Option Nat}

/-! ## Copies -/

theorem wholeCopies_iff {copies : List Copy} {sources : List Source} (h : copies.map (·.source) = sources) :
    copies = wholeCopies sources ↔ ∀ c ∈ copies, c.whole = true := by
  subst h
  constructor
  · intro h c hc
    rw [h] at hc
    obtain ⟨source, -, rfl⟩ := List.mem_map.mp hc
    rfl
  · intro h
    induction copies with
    | nil => rfl
    | cons c rest ih =>
      have hc : c = ⟨c.source, true⟩ := by
        rw [← h c List.mem_cons_self]
      rw [List.map_cons, wholeCopies, List.map_cons, ← hc]
      exact congrArg (c :: ·) (ih fun c' hc' => h c' (List.mem_cons_of_mem c hc'))

/-- What is lost shows in the copies. -/
theorem not_lost_iff {copies : List Copy} (h : copies.map (·.whole) = os) :
    false ∉ os ↔ ∀ c ∈ copies, c.whole = true := by
  subst h
  simp only [List.mem_map, not_exists, not_and, Bool.not_eq_false]

theorem intact_some {l : List Copy} : Intact (some l) ↔ ∀ c ∈ l, c.whole = true := by
  simp [Intact]

theorem intact_wholeCopies (sources : List Source) : Intact (some (wholeCopies sources)) := by
  rw [intact_some]
  intro c hc
  obtain ⟨source, -, rfl⟩ := List.mem_map.mp hc
  rfl

/-! ## Appending fragments -/

theorem BuildDir.file_append (d : BuildDir) (target : Target) (copies : List Copy) :
    (d.append target copies).file target = some ((d.file target).getD [] ++ copies) := by
  cases target <;> rfl

theorem BuildDir.append_append (d : BuildDir) (target : Target) (a b : List Copy) :
    (d.append target a).append target b = d.append target (a ++ b) := by
  cases target <;> simp [BuildDir.append, BuildDir.file]

theorem BuildDir.append_nil {target : Target} {l : List Copy} (h : d.file target = some l) :
    d.append target [] = d := by
  cases d
  cases target <;> simp_all [BuildDir.append, BuildDir.file]

theorem append_passed {target : Target} {source : Source} {o : Bool}
    (h : shell.passed (.append target source) o d = some d') : d' = d.append target [⟨source, o⟩] := by
  cases o with
  | true =>
    cases h
    rfl
  | false =>
    simp only [shell, Bool.false_eq_true, ↓reduceIte, Cmd.hidden] at h
    split at h <;> cases h
    rfl

/-- A loop of `append_fragment` over a file that exists. -/
theorem exec_appends {target : Target} {sources : List Source} {l : List Copy} (hl : d.file target = some l)
    (h : shell.exec (sources.map (.append target)) os none d = some d') :
    ∃ copies : List Copy, copies.map (·.source) = sources ∧ copies.map (·.whole) = os ∧
      d' = d.append target copies := by
  induction sources generalizing d l os with
  | nil =>
    obtain ⟨rfl, -, rfl⟩ := Shell.exec_nil h
    exact ⟨[], rfl, rfl, (BuildDir.append_nil hl).symm⟩
  | cons source rest ih =>
    rw [List.map_cons] at h
    obtain ⟨n, -, hn, -⟩ | ⟨o, os', d₁, rfl, h₁, h⟩ := Shell.exec_cons h
    · cases hn
    · rw [append_passed h₁] at h
      obtain ⟨copies, hsrc, hwhole, hd⟩ := ih (d.file_append target _) h
      refine ⟨⟨source, o⟩ :: copies, ?_, ?_, ?_⟩
      · rw [List.map_cons, hsrc]
      · rw [List.map_cons, hwhole]
      · rw [hd, BuildDir.append_append, List.singleton_append]

/-! ## genconfig -/

/-- The files of the machine with the features, but for what is lost, and
the setup script that has run. -/
structure Generated (t : Templates) (d : BuildDir) (m : String) (features : List String) : Prop where
  bblayersConf : ∃ b, d.bblayersConf = some b ∧ b.map (·.source) = bblayersSources t m features
  localConf : ∃ l, d.localConf = some l ∧ l.map (·.source) = localConfSources t m features
  setup : ∃ s, d.setupRun = some (⟨.header m features, true⟩ :: s) ∧ s.map (·.source) = setupSources t m features

theorem Generated.complete_iff (h : Generated t d m features) :
    Complete t d m features ↔ Intact d.bblayersConf ∧ Intact d.localConf ∧ Intact d.setupRun := by
  obtain ⟨⟨b, hb, hbs⟩, ⟨l, hl, hls⟩, ⟨s, hs, hss⟩⟩ := h
  have hscript : (⟨.header m features, true⟩ :: s : List Copy).map (·.source) =
      .header m features :: setupSources t m features := by
    rw [List.map_cons, hss]
  rw [hb, hl, hs, intact_some, intact_some, intact_some, ← wholeCopies_iff hbs, ← wholeCopies_iff hls,
    ← wholeCopies_iff hscript]
  constructor
  · intro hc
    exact ⟨Option.some.inj (hb ▸ hc.bblayersConf), Option.some.inj (hl ▸ hc.localConf), Option.some.inj (hs ▸ hc.setup)⟩
  · rintro ⟨rfl, rfl, hscript⟩
    exact ⟨hb, hl, by rw [hs, hscript]⟩

theorem passed_true {c : Cmd} {o : Bool} (hc : ∀ d, c.hidden d = none) (h : shell.passed c o d = some d') :
    o = true ∧ c.passed d = some d' := by
  cases o with
  | true => exact ⟨rfl, h⟩
  | false =>
    simp only [shell, Bool.false_eq_true, ↓reduceIte, hc] at h
    cases h

/-- A command of a script that comes to its end, one that hides no failure. -/
theorem exec_cons_true {c : Cmd} {cs : List Cmd} (hc : ∀ d, c.hidden d = none)
    (h : shell.exec (c :: cs) os none d = some d') :
    ∃ os' d₁, os = true :: os' ∧ c.passed d = some d₁ ∧ shell.exec cs os' none d₁ = some d' := by
  obtain ⟨n, -, hn, -⟩ | ⟨o, os', d₁, rfl, h₁, hrest⟩ := Shell.exec_cons h
  · cases hn
  · obtain ⟨rfl, h₁⟩ := passed_true hc h₁
    exact ⟨os', d₁, rfl, h₁, hrest⟩

/-- The three files, when none of the commands ends the script. -/
theorem genconfigFiles_eq (h : shell.exec (genconfigFiles t m features) os none d = some d') :
    ∃ b l s : List Copy, b.map (·.source) = bblayersSources t m features ∧
      l.map (·.source) = localConfSources t m features ∧ s.map (·.source) = setupSources t m features ∧
      (false ∉ os ↔ (∀ c ∈ b, c.whole = true) ∧ (∀ c ∈ l, c.whole = true) ∧ ∀ c ∈ s, c.whole = true) ∧
      d' = ⟨some b, some l, some (⟨.header m features, true⟩ :: s), none, d.manifest⟩ := by
  obtain ⟨os₀, d₀, rfl, h₀, h⟩ := exec_cons_true (fun _ => rfl) h
  cases h₀
  obtain ⟨ob, os₁, d₁, rfl, hb, h⟩ := Shell.exec_append_none h
  obtain ⟨b, hbs, hbw, rfl⟩ := exec_appends rfl hb
  obtain ⟨ol, os₂, d₂, rfl, hl, h⟩ := Shell.exec_append_none h
  obtain ⟨l, hls, hlw, rfl⟩ := exec_appends rfl hl
  obtain ⟨os₃, d₃, rfl, h₃, h⟩ := exec_cons_true (fun _ => rfl) h
  cases h₃
  obtain ⟨s, hss, hsw, rfl⟩ := exec_appends rfl h
  refine ⟨b, l, s, hbs, hls, hss, ?_, rfl⟩
  rw [← not_lost_iff hbw, ← not_lost_iff hlw, ← not_lost_iff hsw]
  simp only [List.mem_cons, List.mem_append, Bool.false_eq_true, false_or, not_or]

/-- Wherever it ends, no setup script has run on these files. -/
theorem genconfigFiles_setupRun (h : shell.exec (genconfigFiles t m features) os stop d = some d') :
    d'.setupRun = none := by
  have happend : ∀ target source, shell.Keeps (fun d => d.setupRun = none) (.append target source) := by
    intro target source
    have hkeep : ∀ (d : BuildDir) (copies : List Copy), (d.append target copies).setupRun = d.setupRun := by
      intro d copies
      cases target <;> rfl
    refine ⟨fun o d d' hd hp => ?_, fun n d hd => ?_⟩
    · rw [append_passed hp, hkeep]
      exact hd
    · rcases n with _ | _ | n
      · exact hd
      · exact (hkeep d _).trans hd
      · exact (hkeep d _).trans hd
  have hrest : ∀ c ∈ (bblayersSources t m features).map (Cmd.append .bblayersConf) ++
      ((localConfSources t m features).map (Cmd.append .localConf) ++
        .setupHeader m features :: (setupSources t m features).map (Cmd.append .setupSh)),
      shell.Keeps (fun d => d.setupRun = none) c := by
    intro c hc
    simp only [List.mem_append, List.mem_cons, List.mem_map] at hc
    rcases hc with ⟨source, -, rfl⟩ | ⟨source, -, rfl⟩ | rfl | ⟨source, -, rfl⟩
    · exact happend _ source
    · exact happend _ source
    · refine ⟨fun o d d' hd hp => ?_, fun n d hd => ?_⟩
      · cases o <;> cases hp
        exact hd
      · cases n <;> exact hd
    · exact happend _ source
  obtain ⟨n, -, -, rfl⟩ | ⟨o, os', d₁, -, h₁, h⟩ := Shell.exec_cons h
  · rcases n with _ | _ | n <;> rfl
  · have hnone : d₁.setupRun = none := by
      cases o <;> cases h₁
      rfl
    exact Shell.exec_keeps (P := fun d => d.setupRun = none) hrest hnone h

/-! ## Runs -/

/-- The setup script that has run goes with the files there are. -/
def Inv (t : Templates) (d : BuildDir) : Prop := d.setupRun ≠ none → ∃ m features, Generated t d m features

theorem inv_of_none (h : d.setupRun = none) : Inv t d := fun hne => absurd h hne

theorem Inv.congr (h : Inv t d) (hb : d'.bblayersConf = d.bblayersConf) (hl : d'.localConf = d.localConf)
    (hs : d'.setupRun = d.setupRun) : Inv t d' := by
  intro hne
  rw [hs] at hne
  obtain ⟨m, features, hg⟩ := h hne
  exact ⟨m, features, hb ▸ hg.bblayersConf, hl ▸ hg.localConf, hs ▸ hg.setup⟩

theorem inv_rm : shell.Keeps (Inv t) .rm := by
  refine ⟨fun o d d' hd hp => ?_, fun n d hd => ?_⟩
  · cases o <;> cases hp
    exact inv_of_none rfl
  · rcases n with _ | _ | _ | n
    · exact hd
    · exact inv_of_none rfl
    · exact inv_of_none rfl
    · exact inv_of_none rfl

/-- What comes after `execute_setup` changes none of it. -/
theorem inv_tail {r : Run} : ∀ c ∈ .rmSetup :: manifestAndScripts r, shell.Keeps (Inv t) c := by
  intro c hc
  simp only [manifestAndScripts, List.mem_cons, List.not_mem_nil, or_false] at hc
  rcases hc with rfl | rfl | rfl | rfl
  · refine ⟨fun o d d' hd hp => ?_, fun n d hd => hd⟩
    cases o <;> cases hp
    exact hd.congr rfl rfl rfl
  · refine ⟨fun o d d' hd hp => ?_, fun n d hd => ?_⟩
    · cases o <;> cases hp
      exact hd.congr rfl rfl rfl
    · cases n
      · exact hd
      · exact hd.congr rfl rfl rfl
  · refine ⟨fun o d d' hd hp => ?_, fun n d hd => hd⟩
    cases o <;> cases hp
    exact hd
  · refine ⟨fun o d d' hd hp => ?_, fun n d hd => hd⟩
    cases o <;> cases hp
    exact hd

/-- Generating, and what follows, wherever the run ends. -/
theorem inv_generate {r : Run} (h : shell.exec (genconfig t m features ++ manifestAndScripts r) os stop d = some d') :
    Inv t d' := by
  rw [genconfig, List.append_assoc] at h
  obtain ⟨-, h⟩ | ⟨os₁, os₂, d₁, rfl, h₁, h⟩ := Shell.exec_append h
  · exact inv_of_none (genconfigFiles_setupRun h)
  · obtain ⟨b, l, s, hb, hl, hs, -, rfl⟩ := genconfigFiles_eq h₁
    -- the script may have run on these files though `tee` failed
    have hran : Inv t ⟨some b, some l, some (⟨.header m features, true⟩ :: s), some (⟨.header m features, true⟩ :: s),
        d.manifest⟩ := fun _ => ⟨m, features, ⟨b, rfl, hb⟩, ⟨l, rfl, hl⟩, ⟨s, rfl, hs⟩⟩
    obtain ⟨n, -, -, rfl⟩ | ⟨o, os', d₂, -, h₂, h⟩ := Shell.exec_cons h
    · cases n
      · exact inv_of_none rfl
      · exact hran
    · cases o <;> cases h₂
      exact Shell.exec_keeps inv_tail hran h

theorem inv_step {s s' : State} {r : Run} (hi : Inv t s.dir) (h : (machine t).step s r = some s') : Inv t s'.dir := by
  simp only [machine, step] at h
  split at h
  · obtain ⟨dir, hexec, rfl⟩ := Option.map_eq_some_iff.mp h
    rw [commands] at hexec
    have hforce : ∀ c ∈ (if r.force then [Cmd.rm] else []), shell.Keeps (Inv t) c := by
      intro c hc
      split at hc
      · rw [List.mem_singleton.mp hc]
        exact inv_rm
      · cases hc
    obtain ⟨-, hrm⟩ | ⟨os₁, os₂, d₁, -, hrm, hrest⟩ := Shell.exec_append hexec
    · exact Shell.exec_keeps hforce hi hrm
    · have hi₁ := Shell.exec_keeps hforce hi hrm
      split at hrest
      · exact Shell.exec_keeps (fun c hc => inv_tail c (List.mem_cons_of_mem _ hc)) hi₁ hrest
      · exact inv_generate hrest
  · cases h
    exact hi

theorem inv_reach {ok : State → Run → Prop} {s : State} (h : (machine t).Reach ok s) : Inv t s.dir := by
  have hind : (machine t).Inductive ok fun s => Inv t s.dir := by
    refine ⟨fun s hs => ?_, fun s r s' hi _ hs => inv_step hi hs⟩
    rw [hs]
    exact inv_of_none rfl
  exact hind.reach h

/-! ## Runs that come to their end -/

theorem manifestAndScripts_eq {r : Run} (h : shell.exec (manifestAndScripts r) os none d = some d') :
    false ∉ os ∧ d' = { d with manifest := some (r.machine, r.features) } := by
  obtain ⟨os₁, d₁, rfl, h₁, h⟩ := exec_cons_true (fun _ => rfl) h
  cases h₁
  obtain ⟨os₂, d₂, rfl, h₂, h⟩ := exec_cons_true (fun _ => rfl) h
  cases h₂
  obtain ⟨os₃, d₃, rfl, h₃, h⟩ := exec_cons_true (fun _ => rfl) h
  cases h₃
  obtain ⟨rfl, -, rfl⟩ := Shell.exec_nil h
  exact ⟨by decide, rfl⟩

/-- A run that generates leaves a complete configuration unless it has lost
a fragment. -/
theorem generate_complete_iff {r : Run}
    (h : shell.exec (genconfig t r.machine r.features ++ manifestAndScripts r) os none d = some d') :
    d'.manifest = some (r.machine, r.features) ∧ (Complete t d' r.machine r.features ↔ false ∉ os) := by
  rw [genconfig, List.append_assoc] at h
  obtain ⟨os₁, os₂, d₁, rfl, h₁, h⟩ := Shell.exec_append_none h
  obtain ⟨b, l, s, hb, hl, hs, hlost, rfl⟩ := genconfigFiles_eq h₁
  obtain ⟨os₃, d₃, rfl, h₃, h⟩ := exec_cons_true (fun _ => rfl) h
  cases h₃
  obtain ⟨os₄, d₄, rfl, h₄, h⟩ := exec_cons_true (fun _ => rfl) h
  cases h₄
  obtain ⟨htail, rfl⟩ := manifestAndScripts_eq h
  refine ⟨rfl, ?_⟩
  have hgen : Generated t ⟨some b, some l, none, some (⟨.header r.machine r.features, true⟩ :: s),
      some (r.machine, r.features)⟩ r.machine r.features := ⟨⟨b, rfl, hb⟩, ⟨l, rfl, hl⟩, ⟨s, rfl, hs⟩⟩
  rw [hgen.complete_iff, intact_some, intact_some, intact_some, List.forall_mem_cons]
  simp only [List.mem_append, List.mem_cons, Bool.false_eq_true, false_or, not_or, hlost, htail, not_false_eq_true,
    and_true, true_and]

/-- Files that a run finds are complete for a machine with its features when
they were generated for them. -/
theorem complete_iff_generatedFor (hi : Inv t d) : Complete t d m features ↔ d.GeneratedFor m features := by
  constructor
  · intro h
    refine ⟨⟨_, h.setup⟩, ?_, ?_, ?_⟩
    · rw [h.bblayersConf]
      exact intact_wholeCopies _
    · rw [h.localConf]
      exact intact_wholeCopies _
    · rw [h.setup]
      exact intact_wholeCopies _
  · intro h
    obtain ⟨l, hl⟩ := h.setup
    obtain ⟨m', features', hg⟩ := hi (by rw [hl]; exact Option.some_ne_none _)
    obtain ⟨s, hs, -⟩ := hg.setup
    -- the header of the script names the machine and the features
    have hhead := Option.some.inj (hl.symm.trans hs)
    simp only [List.cons.injEq, Copy.mk.injEq, Source.header.injEq, and_true] at hhead
    obtain ⟨⟨rfl, rfl⟩, -⟩ := hhead
    exact hg.complete_iff.mpr ⟨h.bblayersConf, h.localConf, h.setupRun⟩

theorem rm_eq {force : Bool} (h : shell.exec (if force then [.rm] else []) os none d = some d') :
    false ∉ os ∧ (force = false → d' = d) := by
  cases force with
  | false =>
    obtain ⟨rfl, -, rfl⟩ := Shell.exec_nil h
    exact ⟨by decide, fun _ => rfl⟩
  | true =>
    obtain ⟨os₁, d₁, rfl, h₁, h⟩ := exec_cons_true (fun _ => rfl) h
    cases h₁
    obtain ⟨rfl, -, rfl⟩ := Shell.exec_nil h
    exact ⟨by decide, fun hf => by cases hf⟩

/-- A run that comes to its end. -/
theorem commands_complete_iff {r : Run} (hi : Inv t d) (h : shell.exec (commands t d r) os none d = some d') :
    d'.manifest = some (r.machine, r.features) ∧ (Complete t d' r.machine r.features ↔
      false ∉ os ∧ ((!r.force && d.configured) = true → d.GeneratedFor r.machine r.features)) := by
  obtain ⟨os₁, os₂, d₁, rfl, h₁, h⟩ := Shell.exec_append_none h
  obtain ⟨hrm, hsame⟩ := rm_eq h₁
  simp only [List.mem_append, not_or, hrm, not_false_eq_true, true_and]
  split at h
  · next hskip =>
    rw [Bool.and_eq_true, Bool.not_eq_true'] at hskip
    obtain ⟨htail, rfl⟩ := manifestAndScripts_eq h
    rw [hsame hskip.1]
    have hiff : Complete t { d with manifest := some (r.machine, r.features) } r.machine r.features ↔
        Complete t d r.machine r.features := ⟨fun h => ⟨h.1, h.2, h.3⟩, fun h => ⟨h.1, h.2, h.3⟩⟩
    rw [hiff, complete_iff_generatedFor hi]
    simp only [htail, not_false_eq_true, true_and, hskip.1, hskip.2, Bool.not_false, Bool.and_self, forall_const]
  · next hskip =>
    obtain ⟨hman, hiff⟩ := generate_complete_iff h
    refine ⟨hman, hiff.trans ⟨fun hlost => ⟨hlost, fun hs => absurd hs hskip⟩, fun hlost => hlost.1⟩⟩

theorem step_agrees_iff {s s' : State} {r : Run} (hi : Inv t s.dir) (h : (machine t).step s r = some s') :
    Agrees t s' ↔ Orderly t s r := by
  simp only [machine, step] at h
  split at h
  · next hfound =>
    obtain ⟨dir, hexec, rfl⟩ := Option.map_eq_some_iff.mp h
    simp only [Agrees, Orderly, decide_eq_true_eq, hfound, true_implies]
    refine forall_congr' fun hstop => ?_
    rw [hstop] at hexec
    obtain ⟨hman, hiff⟩ := commands_complete_iff hi hexec
    rw [← hiff, hman]
    constructor
    · rintro ⟨m, features, hm, hc⟩
      cases hm
      exact hc
    · exact fun hc => ⟨_, _, rfl, hc⟩
  · next hfound =>
    cases h
    exact ⟨fun _ hf => absurd hf hfound, fun _ he => by cases he⟩

/-- **The stored configuration agrees with the manifest** after every run
that exits with 0, in every sequence of runs in which no fragment is lost
unnoticed and a run that leaves the configuration files as they are finds
those generated for its machine with its features; the first run that exits
with 0 and does otherwise breaks it. -/
theorem config_agrees {s : State} (h : (machine t).Reach (Orderly t) s) :
    Agrees t s ∧ ∀ r s', (machine t).step s r = some s' → (Agrees t s' ↔ Orderly t s r) := by
  refine ⟨?_, fun r s' hs => step_agrees_iff (inv_reach h) hs⟩
  cases h with
  | init hs =>
    rw [hs]
    exact fun he => by cases he
  | step hr ho hs => exact (step_agrees_iff (inv_reach hr) hs).mpr ho

/-- A fragment of each kind in the base directory. -/
def oneOfEach : Templates where
  base := ⟨[⟨"50_bblayers.conf.inc", "base/50_bblayers.conf.inc"⟩], [⟨"50_local.conf.inc", "base/50_local.conf.inc"⟩],
    [⟨"50_setup.sh", "base/50_setup.sh"⟩]⟩
  machineDir _ := some ⟨[], [], []⟩
  featureDir _ := none

/-- The setup script fails, the next run is forced, and a third one finds
its files. -/
theorem config_agrees_forced :
    ∃ s, (machine oneOfEach).Reach (Orderly oneOfEach) s ∧ s.exited0 = true ∧ Agrees oneOfEach s := by
  obtain ⟨s, hs, h0⟩ := Machine.exists_reach (M := machine oneOfEach) (Orderly oneOfEach) (s := emptyDir) rfl
    [⟨"qemux86-64", [], false, List.replicate 7 true, some 0⟩,
      ⟨"qemux86-64", [], true, List.replicate 13 true, none⟩,
      ⟨"qemux86-64", [], false, List.replicate 3 true, none⟩]
    (fun s => s.exited0 = true) (by decide +kernel)
  exact ⟨s, hs, h0, (config_agrees hs).1⟩

/-- The setup script fails, and the same call again skips the configuration
and exits with 0. -/
theorem failedSetup_skipped : ∃ s, (machine oneOfEach).Reachable s ∧ ¬Agrees oneOfEach s := by
  obtain ⟨s, hs, h0, hrun⟩ := Machine.exists_reach (M := machine oneOfEach) (fun _ _ => True) (s := emptyDir) rfl
    [⟨"qemux86-64", [], false, List.replicate 7 true, some 0⟩,
      ⟨"qemux86-64", [], false, List.replicate 3 true, none⟩]
    (fun s => s.exited0 = true ∧ s.dir.setupRun = none) (by decide +kernel)
  refine ⟨s, hs, fun h => ?_⟩
  obtain ⟨m, features, -, hc⟩ := h h0
  cases hrun.symm.trans hc.setup

end Agl.Setup
