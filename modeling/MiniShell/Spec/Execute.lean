import MiniShell.Spec.Builtins

/-!
# Executing a command

`execute_single` and `execute_pipeline` from end to end.  The wait of `execute_single` is that of a pipeline of
one command, `waitSingle_eq`, so both are one theorem about `waitPipeline`.

* `Event.KillSound` — a signal to a single process goes to a child that has not been collected;
* `FailsAfterCollecting ps as` — a foreground wait with the answers `as` fails after it has collected one of the
  children `ps`;
* `After K w w'` — between `w` and `w'` everything stays accounted for, and the log satisfies `K`.
-/

namespace MiniShell

open MiniShell.Lib MiniShellError

/-! ### Signals to single processes -/

/-- A signal to a single process goes to a child that has not been collected. -/
def Event.KillSound : Event → Prop
  | .call (.kill target _ _) k _ => 0 < target → target ∈ k.pids
  | _ => True

theorem killSound_of_sound {e : Event} (h : e.Sound) : e.KillSound := by
  cases e with
  | env e => trivial
  | call c k js => cases c <;> first | exact h | trivial

theorem killSound_of_tame {e : Event} (h : e.Of Call.Tame) : e.KillSound := by
  cases e with
  | env e => trivial
  | call c k js =>
    cases c with
    | kill target sig r => exact fun hpos => absurd hpos (not_lt.mpr h)
    | _ => trivial

/-- A foreground wait that got the answers `as` has failed after it had collected one of the children `ps`: the
last answer was `ECHILD` or was about a process that is not among them. -/
def FailsAfterCollecting (ps : List Int) (as : List WaitRes) : Prop :=
  ∃ as' a, as = as' ++ [a] ∧ (a = .err .ECHILD ∨ ∃ pid status, a = .report pid status ∧ pid ∉ ps) ∧
    ∃ p ∈ ps, p ∈ collected as'

theorem processFind_eq_none {job : Job} (hpos : ∀ p ∈ job.pids, 0 < p) {pid : Int} :
    processFind job pid = none ↔ pid ∉ job.pids := by
  unfold processFind
  split
  · rename_i hle
    simp only [true_iff]
    exact fun hm => absurd (hpos pid hm) (by omega)
  · rw [List.find?_eq_none]
    simp [Job.pids]

/-- The wait has ended well, or it has failed for a reason that its last answer shows. -/
theorem Waits.result {job job' : Job} {as : List WaitRes} {r : Int} (h : Waits job as r job') :
    (r = 0 ∧ Pends job as job' ∧ job'.status ≠ .running) ∨
    (r = -1 ∧ ∃ as' a, as = as' ++ [a] ∧ Pends job as' job' ∧ job'.status = .running ∧
      (a = .err .ECHILD ∨ ∃ pid status, a = .report pid status ∧ processFind job' pid = none)) := by
  cases h with
  | settled h hs => exact Or.inl ⟨rfl, h, hs⟩
  | failed h hr => exact Or.inr ⟨rfl, _, _, rfl, h, hr, Or.inl rfl⟩
  | stray h hr hf => exact Or.inr ⟨rfl, _, _, rfl, h, hr, Or.inr ⟨_, _, rfl, hf⟩⟩

/-- While the wait goes on it has not failed. -/
theorem Pends.not_fails {job job' : Job} {as : List WaitRes} (h : Pends job as job')
    (hpos : ∀ p ∈ job.pids, 0 < p) : ¬ FailsAfterCollecting job.pids as := by
  rintro ⟨as', a, heq, ha, -⟩
  cases h with
  | start => simp at heq
  | interrupted h hr =>
    obtain ⟨-, heq'⟩ := List.append_inj' heq rfl
    cases heq'
    rcases ha with ha | ⟨pid, status, ha, -⟩ <;> cases ha
  | stored h hr hf =>
    obtain ⟨-, heq'⟩ := List.append_inj' heq rfl
    cases heq'
    rcases ha with ha | ⟨pid, status, ha, hn⟩
    · cases ha
    · cases ha
      refine hf ((processFind_eq_none fun p hp => hpos p (h.pids ▸ hp)).mpr ?_)
      rwa [h.pids]

/-- A wait for ever has not failed either. -/
theorem not_fails_nothing {ps : List Int} {as : List WaitRes} : ¬ FailsAfterCollecting ps (as ++ [.nothing]) := by
  rintro ⟨as', a, heq, ha, -⟩
  obtain ⟨-, heq'⟩ := List.append_inj' heq rfl
  cases heq'
  rcases ha with ha | ⟨pid, status, ha, -⟩ <;> cases ha

/-- A wait for a job with one child that goes on has not collected it. -/
theorem Pends.alone {job job' : Job} {as : List WaitRes} (h : Pends job as job') {pid : Int}
    (hjob : job.pids = [pid]) (hr : job'.status = .running) : pid ∉ collected as := by
  induction h with
  | start => simp [collected]
  | interrupted _ hr' ih => simpa [collected] using ih hr'
  | @stored as job' q status h hr' hf ih =>
    intro hm
    rw [collected_append, collected_report, List.mem_append] at hm
    rcases hm with hm | hm
    · exact ih hr' hm
    · split at hm
      · rename_i hended
        obtain rfl : pid = q := by simpa using hm
        -- the only entry is done, and so is the job
        obtain ⟨e, he⟩ : ∃ e, job'.processes = [e] := by
          have hlen : job'.processes.length = 1 := by
            have := congrArg List.length (h.pids.trans hjob)
            simpa [Job.pids] using this
          exact List.length_eq_one_iff.mp hlen
        have hpid : e.pid = pid := by
          have := h.pids.trans hjob
          simpa [Job.pids, he] using this
        have hl : applyToFirst status pid job'.processes = [processApplyWaitStatus e status] := by
          rw [he, applyToFirst, if_pos hpid]
        have hd : (processApplyWaitStatus e status).status = .done := by
          simp only [processApplyWaitStatus, hended, if_true]
        have hdone : (job'.store pid status).status = .done := by
          unfold Job.store
          rw [hl]
          exact (jobUpdateStatus_done (by simp)).mpr (by simpa using hd)
        rw [hdone] at hr
        cases hr
      · simp at hm

/-! ### The wait of a command -/

/-- No child was forked, and a fork is fresh for the table there was. -/
def ForksFresh (seg : List Event) : Prop :=
  ∀ p k js, .call (.fork p) k js ∈ seg → 0 < p → p ∉ js.flatMap Job.pids

/-- No pid has two entries in the table. -/
def Distinct (jobs : List Job) : Prop := (jobs.flatMap Job.pids).Nodup

/-- Between `w` and `w'` everything stays accounted for, and the log satisfies `K`. -/
structure After (K : List Event → Prop) (w w' : World) : Prop where
  accounted : Accounted w.kernel.pids w.jobs → Accounted w'.kernel.pids w'.jobs
  log : ∃ seg, w'.log = w.log ++ seg ∧ K seg ∧ (Distinct w.jobs → ForksFresh seg → Distinct w'.jobs)

/-- The log of a command that has forked the children `ps` and waited for them. -/
structure Kills (ps : List Int) (seg : List Event) : Prop where
  forks : forks seg = ps
  iff : (∀ e ∈ seg, e.KillSound) ↔ ¬ FailsAfterCollecting ps (answers seg)
  alone : ∀ pid, ps = [pid] → ¬ FailsAfterCollecting ps (answers seg)

/-- `execute_single` waits as a pipeline of one command does. -/
theorem waitSingle_eq (com : Command) {pid : Int} (hpid : 0 < pid) (terminalActive : Bool) :
    waitSingle com pid terminalActive =
      waitPipeline com { pipeFd := -1, pgid := pid, pids := [pid] } terminalActive := by
  unfold waitSingle waitPipeline
  rw [rollbackSingle_eq hpid]

theorem answers_of_tame {l : List Event} (h : ∀ e ∈ l, e.Of Call.Neutral) : answers l = [] :=
  answers_eq_nil fun _ _ _ _ hm => h _ hm rfl

section Wait

variable {com : Command} {w₀ w w' : World} {l : Launch} {R : World → Prop}

/-- The log of a launch: its signals are sound, there were none, and nobody has waited. -/
theorem Launched.segment {pgid : Int} {ps : List Int} (h : Launched com w₀ pgid ps w) :
    ∃ seg, w.log = w₀.log ++ seg ∧ (∀ e ∈ seg, e.KillSound) ∧ forks seg = ps ∧ answers seg = [] ∧
      ∀ p ∈ ps, ∃ k, .call (.fork p) k w₀.jobs ∈ seg := by
  obtain ⟨seg, hseg, hev, hf, -, -, hforks⟩ := h.log
  refine ⟨seg, hseg, fun e he => ?_, hf, answers_eq_nil fun _ _ _ _ hm => ?_, hforks⟩
  · rcases hev e he with he | he
    · exact killSound_of_sound (sound_of_ofLaunch he)
    · exact killSound_of_sound (sound_of_ofOpening he)
  · rcases hev _ hm with he | he
    · exact he rfl
    · exact he

theorem Launched.accounted {pgid : Int} {ps : List Int} (h : Launched com w₀ pgid ps w)
    (ha : Accounted w₀.kernel.pids w₀.jobs) : Accounted w.kernel.pids w.jobs := by
  obtain ⟨n, m, c, -, hw⟩ := h.ctx
  have hjobs : w.jobs = { Job.new n pgid c with processes := ps.map Process.new } :: w₀.jobs := by
    simp [World.jobs, hw]
  have hmem : pgid ∈ ps := List.mem_of_head? h.leader
  rw [hjobs, h.pids]
  exact ha.launched (List.ne_nil_of_mem hmem) h.pos h.fresh h.nodup (h.pos pgid hmem)

theorem Launched.distinct {pgid : Int} {ps : List Int} (h : Launched com w₀ pgid ps w) {seg : List Event}
    (hforks : ∀ p ∈ ps, ∃ k, .call (.fork p) k w₀.jobs ∈ seg) (hd : Distinct w₀.jobs)
    (hfresh : ForksFresh seg) : Distinct w.jobs := by
  obtain ⟨n, m, c, -, hw⟩ := h.ctx
  have hjobs : w.jobs.flatMap Job.pids = ps ++ w₀.jobs.flatMap Job.pids := by
    simp [World.jobs, hw, Job.pids, Function.comp_def, Process.new]
  unfold Distinct
  rw [hjobs]
  apply h.nodup.append hd
  intro p hp hm
  obtain ⟨k, hk⟩ := hforks p hp
  exact hfresh p k w₀.jobs hk (h.pos p hp) hm

theorem kills_of_sound {ps : List Int} {seg : List Event} (hf : forks seg = ps) (h : ∀ e ∈ seg, e.KillSound)
    (hn : ¬ FailsAfterCollecting ps (answers seg)) : Kills ps seg :=
  ⟨hf, ⟨fun _ => hn, fun _ => h⟩, fun _ _ => hn⟩

theorem not_fails_nil (ps : List Int) : ¬ FailsAfterCollecting ps [] := by
  rintro ⟨as', a, heq, -⟩
  simp at heq

/-- After a launch only upkeep, with a wait that has not failed. -/
theorem After.of_upkeep {pgid : Int} {ps : List Int} (h : Launched com w₀ pgid ps w)
    (hu : Upkeep Call.Tame w w') {as : List WaitRes}
    (has : ∃ seg, w'.log = w.log ++ seg ∧ answers seg = as) (hn : ¬ FailsAfterCollecting ps as) :
    After (Kills ps) w₀ w' where
  accounted ha := hu.accounted (h.accounted ha)
  log := by
    obtain ⟨seg₁, h₁, hsound, hf, hans, hforks⟩ := h.segment
    obtain ⟨seg₂, h₂, hev⟩ := hu.log
    obtain ⟨seg, hseg, rfl⟩ := has
    obtain rfl : seg = seg₂ := List.append_cancel_left (hseg.symm.trans h₂)
    have hf₂ : forks seg = [] := forks_of (fun _ => id) hev
    refine ⟨seg₁ ++ seg, by rw [h₂, h₁, List.append_assoc], ?_, fun hd hfresh => ?_⟩
    · refine kills_of_sound (by simp [hf, hf₂]) ?_ (by simpa [hans] using hn)
      intro e he
      rcases List.mem_append.mp he with he | he
      · exact hsound e he
      · exact killSound_of_tame (hev e he)
    · have hd₁ : Distinct w.jobs :=
        h.distinct hforks hd fun p k js hm => hfresh p k js (List.mem_append_left _ hm)
      exact List.Nodup.sublist hu.table hd₁

/-- A wait that goes on for ever after a launch. -/
theorem LogOf.of_unanswered {pgid : Int} {ps : List Int} (h : Launched com w₀ pgid ps w) {w₁ : World}
    {as : List WaitRes} (hw : WaitedFor pgid as w w₁) (hu : Unanswered (-pgid) WUNTRACED w₁ w') :
    LogOf (Kills ps) w₀ w' := by
  obtain ⟨seg₁, h₁, hsound, hf, hans, -⟩ := h.segment
  obtain ⟨seg₂, h₂, hans₂, -⟩ := hw.log
  obtain ⟨seg₂', h₂', hev₂⟩ := hw.watched.log
  obtain rfl : seg₂' = seg₂ := List.append_cancel_left (h₂'.symm.trans h₂)
  obtain ⟨es, -, h₃⟩ := hu.log
  obtain ⟨seg₃, h₃', hev₃⟩ : LogExt (Event.Of Call.Tame) w₁ w' := hu.logExt trivial fun _ => trivial
  obtain rfl := List.append_cancel_left (h₃'.symm.trans h₃)
  refine ⟨seg₁ ++ (seg₂' ++ _), by rw [h₃, h₂, h₁, List.append_assoc, List.append_assoc], ?_⟩
  refine kills_of_sound (by simp [hf, forks_of (fun _ => id) hev₂, forks_of (fun _ => id) hev₃])
    (fun e he => ?_) ?_
  · rcases List.mem_append.mp he with he | he
    · exact hsound e he
    · rcases List.mem_append.mp he with he | he
      · exact killSound_of_tame (hev₂ e he)
      · exact killSound_of_tame (hev₃ e he)
  · have hans₃ : answers (.call (.waitpid (-pgid) WUNTRACED) w₁.kernel w₁.jobs ::
        (es.map Event.env ++ [.call (.waited (-pgid) WUNTRACED .nothing) w'.kernel w₁.jobs])) = [.nothing] := by
      simp [answers]
    rw [answers_append, answers_append, hans, hans₂, hans₃, List.nil_append]
    exact not_fails_nothing

/-- **A failed wait**: the children of the job are rolled back, and the rollback signals a child that has been
collected if and only if the wait had collected one. -/
theorem After.of_rollback {pgid : Int} {ps : List Int} (h : Launched com w₀ pgid ps w) {w₁ v w₂ w₃ : World}
    {as' : List WaitRes} {a : WaitRes} (hw : WaitedFor pgid (as' ++ [a]) w w₁)
    (ha : a = .err .ECHILD ∨ ∃ pid status, a = .report pid status ∧ pid ∉ ps)
    (halone : ∀ pid, ps = [pid] → pid ∉ collected as')
    (hr : Rolled ps v w₂) (hvk : v.kernel = w₁.kernel) (hvl : v.log = w₁.log)
    (hq : Quiet Call.Neutral w₂ w₃) {w₄ : World} (hk : w₄.kernel = w₃.kernel)
    (hl : w₄.log = w₃.log) (hj : w₄.jobs = w₀.jobs) : After (Kills ps) w₀ w₄ where
  accounted hacc := by
    rw [hj, hk]
    apply hacc.mono
    intro p hp
    rw [hq.pids, hr.pids, hvk] at hp
    obtain ⟨hp, hps⟩ := List.mem_filter.mp hp
    have hp := hw.watched.live p hp
    rw [h.pids] at hp
    exact (List.mem_append.mp hp).resolve_right (by simpa using hps)
  log := by
    obtain ⟨seg₁, h₁, hsound, hf, hans, -⟩ := h.segment
    obtain ⟨seg₂, h₂, hans₂, -⟩ := hw.log
    obtain ⟨seg₂', h₂', hev₂⟩ := hw.watched.log
    obtain rfl : seg₂' = seg₂ := List.append_cancel_left (h₂'.symm.trans h₂)
    obtain ⟨seg₃, h₃, hev₃, hkill⟩ := hr.log
    obtain ⟨seg₄, h₄, hev₄⟩ := hq.logExt
    refine ⟨seg₁ ++ (seg₂' ++ (seg₃ ++ seg₄)), ?_, ?_, fun hd _ => hj ▸ hd⟩
    · rw [hl, h₄, h₃, hvl, h₂, h₁]
      simp only [List.append_assoc]
    have hforks : forks (seg₁ ++ (seg₂' ++ (seg₃ ++ seg₄))) = ps := by
      simp [hf, forks_of (fun _ => id) hev₂, forks_of_rollback hev₃, forks_of (fun _ => id) hev₄]
    have hanswers : answers (seg₁ ++ (seg₂' ++ (seg₃ ++ seg₄))) = as' ++ [a] := by
      simp [hans, hans₂, answers_of_rollback hev₃, answers_of_tame hev₄]
    -- which of the children were there when the rollback started
    have hlive : ∀ p ∈ ps, p ∈ w₁.kernel.pids ↔ p ∉ collected as' := by
      intro p hp
      have hlast : p ∉ collected [a] := by
        rcases ha with rfl | ⟨pid, status, rfl, hn⟩
        · simp [collected]
        · rw [collected_report]
          split
          · simp only [List.mem_singleton]
            rintro rfl
            exact hn hp
          · simp
      rw [hw.pids, List.mem_filter, collected_append, h.pids]
      simp [hp, hlast]
    refine ⟨hforks, ?_, ?_⟩
    all_goals rw [hanswers]
    rotate_left
    · rintro pid rfl ⟨as₀, a₀, heq, -, p, hp, hcoll⟩
      obtain ⟨rfl, -⟩ := List.append_inj' heq rfl
      exact halone pid rfl (List.mem_singleton.mp hp ▸ hcoll)
    constructor
    · rintro hall ⟨as₀, a₀, heq, -, p, hp, hcoll⟩
      obtain ⟨rfl, -⟩ := List.append_inj' heq rfl
      obtain ⟨⟨r, k, js, hm, hkp⟩, -⟩ := hkill p hp
      have hs : (Event.call (.kill p SIGKILL r) k js).KillSound := hall _ (by simp [hm])
      have hmem := hs (h.pos p hp)
      rw [hkp, hvk] at hmem
      exact (hlive p hp).mp hmem hcoll
    · intro hn e he
      rcases List.mem_append.mp he with he | he
      · exact hsound e he
      rcases List.mem_append.mp he with he | he
      · exact killSound_of_tame (hev₂ e he)
      rcases List.mem_append.mp he with he | he
      · cases hev₃ e he with
        | neutral hne => exact killSound_of_sound (sound_of_neutral hne)
        | kill hkp ht =>
          intro hpos
          rw [hkp, hvk, hlive _ (ht hpos)]
          exact fun hc => hn ⟨as', a, rfl, ha, _, ht hpos, hc⟩
      · exact killSound_of_tame (Event.Of.mono (fun _ => tame_of_neutral) (hev₄ e he))

/-- **`execute_pipeline` from the opened gate on.** -/
theorem wp_waitPipeline (h : Launched com w₀ l.pgid l.pids w) (terminalActive : Bool) :
    Prog.wp (waitPipeline com l terminalActive)
      (fun _ w' => After (Kills l.pids) w₀ w') (LogOf (Kills l.pids) w₀) w := by
  obtain ⟨n, m, c, -, hw⟩ := h.ctx
  let job : Job := { Job.new n l.pgid c with processes := l.pids.map Process.new }
  have hjobs : w.jobs = job :: w₀.jobs := by simp [World.jobs, hw, job]
  have hpids : job.pids = l.pids := by simp [job, Job.pids, Function.comp_def, Process.new]
  have hget : w.jobs[0]? = some job := by simp [hjobs]
  have hpgid : 0 < l.pgid := h.pos _ (List.mem_of_head? h.leader)
  have hpos : ∀ p ∈ job.pids, 0 < p := hpids ▸ h.pos
  unfold waitPipeline
  split
  · exact After.of_upkeep h (.refl w) ⟨[], by simp, rfl⟩ (not_fails_nil _)
  rw [Prog.wp_get_bind, hget]
  dsimp only
  rw [Prog.wp_bind]
  refine wp_jobWaitForeground hpgid ?_
    fun as job' w₁ w₂ _ _ hf hu => LogOf.of_unanswered h hf hu
  intro as r job' w₁ hwait hf
  dsimp only
  rw [Prog.wp_modify_bind]
  rcases hwait.result with ⟨rfl, hp, hs⟩ | ⟨rfl, as', a, rfl, hp, hr, ha⟩
  · -- the wait has ended well
    rw [if_neg (by decide)]
    have hk : Keeps w₁.kernel.pids job job' := hp.keeps fun p hm => by
      rw [hf.pids] at hm
      simpa using (List.mem_filter.mp hm).2
    have hu : Upkeep Call.Tame w (w₁.updateJob 0 fun _ => job') := hf.watched.updateJob hget hk
    refine Prog.wp_mono (wp_finishForegroundJob (updateJob_get (hf.watched.jobs ▸ hget) _) (fun j hj => by omega)
      terminalActive) (fun _ w₂ h₂ => ?_) (fun _ h => h)
    refine After.of_upkeep h (hu.trans (h₂.mono fun _ => tame_of_neutral)) ?_ (hpids ▸ hp.not_fails hpos)
    obtain ⟨seg, hseg, hans, -⟩ := hf.log
    obtain ⟨seg', hseg', hev⟩ := h₂.log
    exact ⟨seg ++ seg', by rw [hseg', ← List.append_assoc, ← hseg]; rfl, by simp [hans, answers_of_tame hev]⟩
  · -- the wait has failed
    have ha' : a = .err .ECHILD ∨ ∃ pid status, a = .report pid status ∧ pid ∉ l.pids := by
      rcases ha with ha | ⟨pid, status, ha, hn⟩
      · exact Or.inl ha
      · refine Or.inr ⟨pid, status, ha, ?_⟩
        rw [← hpids, ← hp.pids]
        exact (processFind_eq_none fun p hq => hpos p (hp.pids ▸ hq)).mp hn
    have hv : (w₁.updateJob 0 fun _ => job').jobs = job' :: w₀.jobs := by
      have : (w₁.updateJob 0 fun _ => job').jobs = w₁.jobs.modify 0 fun _ => job' := rfl
      simp [this, hf.watched.jobs, hjobs]
    have remove : ∀ w₂ w₃, Rolled l.pids (w₁.updateJob 0 fun _ => job') w₂ →
      Quiet Call.Neutral w₂ w₃ →
        Prog.wp (do
          jobRemoveM l.pgid
          pure errUnknown : Sh Int) (fun _ w' => After (Kills l.pids) w₀ w')
            (LogOf (Kills l.pids) w₀) w₃ := by
      intro w₂ w₃ hr₂ hq
      have hctx : w₃.ctx.jobs.head = job' :: w₀.jobs := by
        rw [hq.ctx, hr₂.ctx]
        exact hv
      refine After.of_rollback h hf ha' (fun pid hpid => hp.alone (hpids.trans hpid) hr) hr₂ rfl rfl hq rfl rfl ?_
      simp [World.jobs, World.updateManager, jobRemove, hctx, hp.pgid, job, Job.new, show ¬ l.pgid ≤ 0 by omega]
    rw [if_pos (by decide), Prog.wp_bind]
    apply wp_rollbackPipeline h.pos
    intro w₂ hr₂
    split
    · rw [Prog.wp_bind]
      exact wp_terminalRestore fun r w₃ hq => remove w₂ w₃ hr₂ hq
    · exact remove w₂ w₂ hr₂ (Quiet.refl w₂)

end Wait

/-! ### Whole commands -/

/-- The signals in a log are sound if and only if no foreground wait has failed after it had collected one of
the children that were forked in it. -/
def KillsIff (seg : List Event) : Prop :=
  (∀ e ∈ seg, e.KillSound) ↔ ¬ FailsAfterCollecting (forks seg) (answers seg)

section Commands

variable {K K' : List Event → Prop} {w w' w₁ : World} {com : Command}

theorem After.mono (h : After K w w') (hK : ∀ seg, K seg → K' seg) : After K' w w' := by
  obtain ⟨seg, hseg, hk, hd⟩ := h.log
  exact ⟨h.accounted, seg, hseg, hK seg hk, hd⟩

theorem Kills.killsIff {ps : List Int} {seg : List Event} (h : Kills ps seg) : KillsIff seg := by
  unfold KillsIff
  rw [h.forks]
  exact h.iff

theorem killsIff_of_sound {seg : List Event} (h : ∀ e ∈ seg, e.KillSound)
    (hn : ¬ FailsAfterCollecting (forks seg) (answers seg)) : KillsIff seg := ⟨fun _ => hn, fun _ => h⟩

theorem not_fails_of_no_children (as : List WaitRes) : ¬ FailsAfterCollecting [] as := by
  rintro ⟨as', a, -, -, p, hp, -⟩
  simp at hp

/-- A launch that fails and is undone. -/
theorem Undone.after (h : Undone com w w.jobs w') :
    After (fun seg => (∀ e ∈ seg, e.KillSound) ∧ answers seg = []) w w' where
  accounted ha := by
    obtain ⟨n, -, hw⟩ := h.ctx
    have hj : w'.jobs = w.jobs := by simp [World.jobs, hw]
    rw [hj, h.pids]
    exact ha
  log := by
    obtain ⟨n, -, hw⟩ := h.ctx
    have hj : w'.jobs = w.jobs := by simp [World.jobs, hw]
    obtain ⟨seg, hseg, hsound, -, hans, -⟩ := h.log
    exact ⟨seg, hseg, ⟨fun e he => killSound_of_sound (hsound e he), hans⟩, fun hd _ => hj ▸ hd⟩

/-- **`execute_pipeline`.** -/
theorem wp_executePipeline (com : Command) (next : List Command) (w : World) :
    Prog.wp (executePipeline com next) (fun _ w' => After KillsIff w w') (LogOf KillsIff w) w := by
  unfold executePipeline
  rw [Prog.wp_bind]
  refine Prog.wp_mono (wp_launchPipeline com next w) ?_ (fun _ h => h)
  intro r w₁ h₁
  cases r with
  | error e =>
    refine h₁.2.after.mono fun seg h => killsIff_of_sound h.1 ?_
    rw [h.2]
    exact not_fails_nil _
  | ok x =>
    obtain ⟨l, terminalActive⟩ := x
    exact Prog.wp_mono (wp_waitPipeline h₁.2.2.2 terminalActive) (fun _ _ h => h.mono fun _ => Kills.killsIff)
      (fun _ h => h.mono fun _ => Kills.killsIff)

/-- **`execute_single`**: its signals are always sound. -/
theorem wp_executeSingle (com : Command) (w : World) :
    Prog.wp (executeSingle com) (fun _ w' => After (fun seg => (∀ e ∈ seg, e.KillSound) ∧ KillsIff seg) w w')
      (LogOf (fun seg => (∀ e ∈ seg, e.KillSound) ∧ KillsIff seg) w) w := by
  unfold executeSingle
  rw [Prog.wp_bind]
  refine Prog.wp_mono (wp_launchSingle com w) ?_ (fun _ h => h)
  intro r w₁ h₁
  cases r with
  | error e =>
    refine h₁.2.after.mono fun seg h => ⟨h.1, killsIff_of_sound h.1 ?_⟩
    rw [h.2]
    exact not_fails_nil _
  | ok x =>
    obtain ⟨pid, terminalActive⟩ := x
    have hl : Launched com w pid [pid] w₁ := h₁.2
    have hk : ∀ seg, Kills [pid] seg → (∀ e ∈ seg, e.KillSound) ∧ KillsIff seg :=
      fun seg h => ⟨h.iff.mpr (h.alone pid rfl), h.killsIff⟩
    dsimp only
    rw [waitSingle_eq com (hl.pos pid (by simp))]
    exact Prog.wp_mono (wp_waitPipeline hl terminalActive) (fun _ _ h => h.mono hk) (fun _ h => h.mono hk)

theorem tame_killsIff {l : List Event} (h : ∀ e ∈ l, e.Of Call.Tame) : KillsIff l := by
  refine killsIff_of_sound (fun e he => killSound_of_tame (h e he)) ?_
  rw [forks_of (fun _ => id) h]
  exact not_fails_of_no_children _

theorem Upkeep.after (h : Upkeep Call.Tame w w') : After KillsIff w w' where
  accounted := h.accounted
  log := by
    obtain ⟨seg, hseg, hev⟩ := h.log
    exact ⟨seg, hseg, tame_killsIff hev, fun hd _ => List.Nodup.sublist h.table hd⟩

theorem LogExt.logOf (h : LogExt (Event.Of Call.Tame) w w') : LogOf KillsIff w w' := by
  obtain ⟨seg, hseg, hev⟩ := h
  exact ⟨seg, hseg, tame_killsIff hev⟩

/-- What only looks after the jobs. -/
theorem Upkeeps.after {α : Type} {m : Sh α} (h : Upkeeps m) (w : World) :
    Prog.wp m (fun _ w' => After KillsIff w w') (LogOf KillsIff w) w :=
  Prog.wp_mono (h w) (fun _ _ h => h.after) (fun _ h => h.logOf)

/-- **`dispatcher_command`**, on any chain. -/
theorem wp_dispatcherCommand (cmd : Command) (next : List Command) (w : World) :
    Prog.wp (dispatcherCommand cmd next) (fun _ w' => After KillsIff w w') (LogOf KillsIff w) w := by
  unfold dispatcherCommand
  split
  · exact (Upkeeps.pure _).after w
  · split
    · exact (Upkeeps.pure _).after w
    · split
      · split
        · exact (Upkeeps.pure _).after w
        · exact (upkeeps_dispatchBuiltin cmd _).after w
      · unfold executeCommand checkJobLimit
        rw [Prog.wp_bind, Prog.wp_get_bind]
        have run : Prog.wp (if next ≠ [] then executePipeline cmd next else executeSingle cmd)
            (fun _ w' => After KillsIff w w') (LogOf KillsIff w) w := by
          split
          · exact wp_executePipeline cmd next w
          · exact Prog.wp_mono (wp_executeSingle cmd w) (fun _ _ h => h.mono fun _ h => h.2)
              (fun _ h => h.mono fun _ h => h.2)
        split
        · rw [Prog.wp_pure, if_pos (by decide)]
          exact (Upkeeps.pure errJob).after w
        · exact run

end Commands

end MiniShell
