import MiniShell.Spec.Account

/-!
# What `JOB_STOPPED` says after a foreground wait

* `Phase` — a child runs, is stopped or has ended; `phaseAfter` follows it through the events outside the shell;
* `LeftRunning` — the child was stopped, is continued, and neither stops nor ends after that;
* `Seen` — what the entry of a child says of it, as an invariant of the wait;
* **`stopped_iff`** — a job that the wait leaves stopped has no running process exactly when none was left running.
-/

namespace MiniShell

open MiniShell.Lib

/-! ### Phases -/

/-- What a child is doing, whatever has been reported of it. -/
inductive Phase where
  | running | stopped | ended
  deriving DecidableEq

def ChildState.phase : ChildState → Phase
  | running _ => .running
  | stopped _ _ => .stopped
  | zombie _ => .ended

namespace Phase

def terminate : Termination → Phase → Phase
  | _, running => ended
  | .signaled _ _, stopped => ended
  | .exited _, stopped => stopped
  | _, ended => ended

def stop : Phase → Phase
  | running => stopped
  | phase => phase

def resume : Phase → Phase
  | stopped => running
  | phase => phase

end Phase

/-- What an event makes of the child `pid`. -/
def Env.phase (pid : Int) (e : Env) (phase : Phase) : Phase :=
  match e with
  | .terminate p t => if p = pid then phase.terminate t else phase
  | .stop p _ => if p = pid then phase.stop else phase
  | .resume p => if p = pid then phase.resume else phase
  | _ => phase

def phaseAfter (pid : Int) (es : List Env) (phase : Phase) : Phase :=
  es.foldl (fun phase e => e.phase pid phase) phase

/-- The event stops or ends the child when it runs. -/
def Env.Halts (pid : Int) : Env → Prop
  | .terminate p _ => p = pid
  | .stop p _ => p = pid
  | _ => False

/-- The child is left running: its entry is stopped and it runs although it does not stop or end in `es`, or it is
stopped, is continued, and neither stops nor ends after that. -/
inductive LeftRunning (pid : Int) (entryStopped : Prop) (phase : Phase) (es : List Env) : Prop
  | before (hentry : entryStopped) (hphase : phase = .running) (hes : ∀ e ∈ es, ¬ e.Halts pid)
  | during (pre post : List Env) (hes : es = pre ++ .resume pid :: post)
    (hpre : phaseAfter pid pre phase = .stopped)
      (hpost : ∀ e ∈ post, ¬ e.Halts pid)

section

variable {pid : Int} {phase : Phase} {es pre post : List Env} {e : Env}

attribute [local simp] Env.phase Env.Halts Phase.terminate Phase.stop Phase.resume

theorem phaseAfter_append (pid : Int) (es es' : List Env) (phase : Phase) :
    phaseAfter pid (es ++ es') phase = phaseAfter pid es' (phaseAfter pid es phase) := List.foldl_append

theorem phaseAfter_snoc (pid : Int) (es : List Env) (e : Env) (phase : Phase) :
    phaseAfter pid (es ++ [e]) phase = e.phase pid (phaseAfter pid es phase) := phaseAfter_append pid es [e] phase

@[simp] theorem terminate_phase (t : Termination) (s : ChildState) :
    (s.terminate t).phase = s.phase.terminate t := by
  cases s with
  | running r => cases t <;> rfl
  | stopped sig r => cases t <;> rfl
  | zombie t' => cases t <;> rfl

@[simp] theorem stop_phase (sig : Sig) (s : ChildState) : (s.stop sig).phase = s.phase.stop := by
  cases s <;> rfl

@[simp] theorem resume_phase (s : ChildState) : s.resume.phase = s.phase.resume := by
  cases s <;> rfl

/-- A running child that is neither stopped nor ended runs on. -/
theorem phase_running_iff : e.phase pid .running = .running ↔ ¬ e.Halts pid := by
  cases e with
  | terminate p t =>
    by_cases h : p = pid
    · cases t <;> simp [h]
    · simp [h]
  | stop p sig => by_cases h : p = pid <;> simp [h]
  | resume p => simp
  | _ => simp

/-- Only a continuation sets a stopped child running. -/
theorem phase_stopped_running (h : e.phase pid .stopped = .running) : e = .resume pid := by
  cases e with
  | terminate p t =>
    by_cases hp : p = pid
    · cases t <;> simp [hp] at h
    · simp [hp] at h
  | stop p sig => by_cases hp : p = pid <;> simp [hp] at h
  | resume p =>
    by_cases hp : p = pid
    · rw [hp]
    · simp [hp] at h
  | _ => simp at h

theorem phase_ended (e : Env) : e.phase pid .ended = .ended := by
  cases e with
  | terminate p t => simp
  | stop p sig => simp
  | resume p => simp
  | _ => rfl

theorem phaseAfter_running (h : ∀ e ∈ es, ¬ e.Halts pid) : phaseAfter pid es .running = .running := by
  induction es using List.reverseRecOn with
  | nil => rfl
  | append_singleton es e ih =>
    rw [phaseAfter_snoc, ih fun e' he' => h e' (List.mem_append_left _ he')]
    exact phase_running_iff.mpr (h e (by simp))

/-- **A child that is left running runs.** -/
theorem LeftRunning.runs {entryStopped : Prop} (h : LeftRunning pid entryStopped phase es) :
    phaseAfter pid es phase = .running := by
  cases h with
  | before _ hphase hes =>
    rw [hphase]
    exact phaseAfter_running hes
  | during pre post hes hpre hpost =>
    have hresume : phaseAfter pid (.resume pid :: post) .stopped = phaseAfter pid post .running := by
      unfold phaseAfter
      rw [List.foldl_cons]
      simp
    rw [hes, phaseAfter_append, hpre, hresume]
    exact phaseAfter_running hpost

/-- **How a child comes to run**: it has run all the time, or it was continued. -/
theorem running_cases (hruns : phaseAfter pid es phase = .running) :
    (phase = .running ∧ ∀ e ∈ es, ¬ e.Halts pid) ∨ ∃ pre post, es = pre ++ .resume pid :: post ∧
      phaseAfter pid pre phase = .stopped ∧ ∀ e ∈ post, ¬ e.Halts pid := by
  induction es using List.reverseRecOn with
  | nil => exact Or.inl ⟨hruns, by simp⟩
  | append_singleton es e ih =>
    rw [phaseAfter_snoc] at hruns
    cases hes : phaseAfter pid es phase with
    | running =>
      rw [hes] at hruns
      have hlast : ¬ e.Halts pid := phase_running_iff.mp hruns
      have hsnoc : ∀ l : List Env, (∀ e' ∈ l, ¬ e'.Halts pid) → ∀ e' ∈ l ++ [e], ¬ e'.Halts pid := by
        intro l hl e' he'
        rcases List.mem_append.mp he' with he' | he'
        · exact hl e' he'
        · rwa [List.mem_singleton.mp he']
      rcases ih hes with ⟨hphase, hall⟩ | ⟨pre, post, rfl, hpre, hpost⟩
      · exact Or.inl ⟨hphase, hsnoc es hall⟩
      · exact Or.inr ⟨pre, post ++ [e], by simp, hpre, hsnoc post hpost⟩
    | stopped =>
      rw [hes] at hruns
      obtain rfl := phase_stopped_running hruns
      exact Or.inr ⟨es, [], rfl, hes, by simp⟩
    | ended =>
      rw [hes, phase_ended] at hruns
      cases hruns

/-- **A child that was stopped and runs has been left running.** -/
theorem leftRunning_of_stopped {entryStopped : Prop} (hstopped : phaseAfter pid pre phase = .stopped)
    (hruns : phaseAfter pid (pre ++ post) phase = .running) : LeftRunning pid entryStopped phase (pre ++ post) := by
  rw [phaseAfter_append] at hruns
  rcases running_cases hruns with ⟨hphase, -⟩ | ⟨mid, rest, rfl, hmid, hrest⟩
  · rw [hstopped] at hphase
    cases hphase
  · refine .during (pre ++ mid) rest (List.append_assoc ..).symm ?_ hrest
    rwa [phaseAfter_append]

/-- A child whose entry is stopped from the start and which runs has been left running. -/
theorem leftRunning_of_entry {entryStopped : Prop} (hentry : entryStopped)
    (hruns : phaseAfter pid es phase = .running) : LeftRunning pid entryStopped phase es := by
  rcases running_cases hruns with ⟨hphase, hes⟩ | ⟨pre, post, hes, hpre, hpost⟩
  · exact .before hentry hphase hes
  · exact .during pre post hes hpre hpost

end

/-! ### The children of the kernel -/

/-- The child `c` of the start is in the state the events have put it in, or it has ended and is collected. -/
def Child.Follows (c : Child) (es : List Env) (k : Kernel) : Prop :=
  (c.pid ∉ k.pids ∧ phaseAfter c.pid es c.state.phase = .ended) ∨
    ∃ c' ∈ k.children, c'.pid = c.pid ∧ c'.state.phase = phaseAfter c.pid es c.state.phase

section

variable {k k' : Kernel} {es : List Env} {c : Child}

theorem Child.Follows.refl (hc : c ∈ k.children) : c.Follows [] k := Or.inr ⟨c, hc, rfl, rfl⟩

/-- What an event does to one child. -/
theorem happen_child (e : Env) (h : c ∈ k.children) :
    ∃ c' ∈ (k.happen e).children, c'.pid = c.pid ∧ c'.state.phase = e.phase c.pid c.state.phase := by
  have update : ∀ (p : Int) (f : ChildState → ChildState) (g : Phase → Phase),
    (∀ s, (f s).phase = g s.phase) →
      ∃ c' ∈ (k.updateChildren (fun c => c.pid = p) f).children, c'.pid = c.pid ∧
        c'.state.phase = if p = c.pid then g c.state.phase else c.state.phase := by
    intro p f g hfg
    refine ⟨_, Kernel.mem_updateChildren.mpr ⟨c, h, rfl⟩, ?_⟩
    by_cases hp : c.pid = p
    · simp [hp, hfg]
    · simp [hp, Ne.symm hp]
  cases e with
  | terminate p t => exact update p _ _ (terminate_phase t)
  | stop p sig => exact update p _ _ (stop_phase sig)
  | resume p => exact update p _ _ resume_phase
  | regroup p g => exact ⟨_, Kernel.mem_moveChild.mpr ⟨c, h, rfl⟩, by split <;> rfl, by split <;> rfl⟩
  | ttyModes m => exact ⟨c, h, rfl, rfl⟩
  | ttyPgrp g => exact ⟨c, h, rfl, rfl⟩

theorem Child.Follows.happen (h : c.Follows es k) (e : Env) : c.Follows (es ++ [e]) (k.happen e) := by
  unfold Child.Follows
  rw [phaseAfter_snoc]
  rcases h with ⟨hgone, hended⟩ | ⟨c', hc', hpid, hphase⟩
  · exact Or.inl ⟨by rwa [Kernel.happen_pids], by rw [hended, phase_ended]⟩
  · obtain ⟨c'', hc'', hpid', hphase'⟩ := happen_child e hc'
    exact Or.inr ⟨c'', hc'', hpid'.trans hpid, by rw [hphase', hphase, hpid]⟩

/-- Children with one pid are one child. -/
theorem eq_of_pid (hnodup : k.pids.Nodup) {c c' : Child} (hc : c ∈ k.children) (hc' : c' ∈ k.children)
    (hpid : c.pid = c'.pid) : c = c' :=
  List.inj_on_of_nodup_map hnodup hc hc' hpid

/-- Collecting a report leaves every child in the phase it is in. -/
theorem Child.Follows.collect (h : c.Follows es k) (hnodup : k.pids.Nodup) {x : Child} {change : Change}
    (hx : x ∈ k.children) (hreport : x.state.report WUNTRACED = some change) :
    c.Follows es (k.collect x.pid change) := by
  rcases h with ⟨hgone, hended⟩ | ⟨c', hc', hpid, hphase⟩
  · refine Or.inl ⟨fun hmem => hgone ?_, hended⟩
    rw [Kernel.collect_pids] at hmem
    cases change with
    | ended t => exact (List.mem_filter.mp hmem).1
    | stopped sig => exact hmem
    | continued => exact hmem
  · cases hs : x.state with
    | running r => simp [hs, ChildState.report, WUNTRACED] at hreport
    | stopped sig r =>
      obtain rfl : change = .stopped sig := by
        simp only [hs, ChildState.report] at hreport
        split at hreport
        · exact (Option.some.inj hreport).symm
        · cases hreport
      refine Or.inr ⟨_, Kernel.mem_updateChildren.mpr ⟨c', hc', rfl⟩, by split <;> exact hpid, ?_⟩
      split
      · rename_i hp
        obtain rfl := eq_of_pid hnodup hc' hx (by simpa using hp)
        rw [← hphase, hs]
        rfl
      · exact hphase
    | zombie t =>
      obtain rfl : change = .ended t := by
        simpa [hs, ChildState.report] using hreport.symm
      by_cases hp : c'.pid = x.pid
      · obtain rfl := eq_of_pid hnodup hc' hx hp
        refine Or.inl ⟨?_, by rw [← hphase, hs]; rfl⟩
        rw [Kernel.collect_pids, ← hpid]
        simp
      · exact Or.inr ⟨c', List.mem_filter.mpr ⟨hc', by simpa using hp⟩, hpid, hphase⟩

end

/-! ### The entries of the job -/

/-- The child `c` of the start follows the events, and as long as it is not collected its one entry is not done, and is
stopped only if the child was stopped at some moment or its entry was from the start. -/
structure Child.Seen (c : Child) (entryStopped : Prop) (es : List Env) (job : Job) (k : Kernel) : Prop where
  follows : c.Follows es k
  entry : c.pid ∈ k.pids → ∃ process, job.processes.filter (·.pid == c.pid) = [process] ∧
    process.status ≠ .done ∧
    (process.status = .stopped → entryStopped ∨
      ∃ pre post, es = pre ++ post ∧ phaseAfter c.pid pre c.state.phase = .stopped)

section

variable {k k' : Kernel} {es : List Env} {c : Child} {entryStopped : Prop} {job : Job}

theorem Child.Seen.happen (h : c.Seen entryStopped es job k) (e : Env) :
    c.Seen entryStopped (es ++ [e]) job (k.happen e) where
  follows := h.follows.happen e
  entry hc := by
    rw [Kernel.happen_pids] at hc
    obtain ⟨process, hfilter, hdone, hstopped⟩ := h.entry hc
    refine ⟨process, hfilter, hdone, fun hs => ?_⟩
    rcases hstopped hs with hentry | ⟨pre, post, rfl, hpre⟩
    · exact Or.inl hentry
    · exact Or.inr ⟨pre, post ++ [e], List.append_assoc .., hpre⟩

theorem Child.Seen.happens (h : c.Seen entryStopped es job k) (es' : List Env) :
    c.Seen entryStopped (es ++ es') job (es'.foldl Kernel.happen k) := by
  induction es' generalizing es k with
  | nil => simpa using h
  | cons e es' ih => simpa using ih (h.happen e)

/-- The one entry of a pid after a report has been stored. -/
theorem applyToFirst_filter {process : Process} {p pid : Int} (status : ℕ) {l : List Process}
    (h : l.filter (·.pid == p) = [process]) : (applyToFirst status pid l).filter (·.pid == p) =
      [if pid = p then processApplyWaitStatus process status else process] := by
  induction l with
  | nil => cases h
  | cons e l ih =>
    unfold applyToFirst
    by_cases he : e.pid = pid
    · rw [if_pos he]
      by_cases hp : e.pid = p
      · rw [List.filter_cons_of_pos (by simpa using hp)] at h
        obtain ⟨rfl, hl⟩ := List.cons.inj h
        rw [List.filter_cons_of_pos (by simpa using hp), hl, if_pos (he.symm.trans hp)]
      · rw [List.filter_cons_of_neg (by simpa using hp)] at h
        rw [List.filter_cons_of_neg (by simpa using hp), h, if_neg fun hpid => hp (he.trans hpid)]
    · rw [if_neg he]
      by_cases hp : e.pid = p
      · rw [List.filter_cons_of_pos (by simpa using hp)] at h
        obtain ⟨rfl, hl⟩ := List.cons.inj h
        have hrest : (applyToFirst status pid l).filter (·.pid == p) = [] := by
          rw [List.filter_eq_nil_iff] at hl ⊢
          intro e' he'
          have hmem : e'.pid ∈ (applyToFirst status pid l).map Process.pid := List.mem_map_of_mem he'
          rw [applyToFirst_pids] at hmem
          obtain ⟨e₀, he₀, heq⟩ := List.mem_map.mp hmem
          rw [← heq]
          exact hl e₀ he₀
        rw [List.filter_cons_of_pos (by simpa using hp), hrest, if_neg fun hpid => he (hp.trans hpid.symm)]
      · rw [List.filter_cons_of_neg (by simpa using hp)] at h
        rw [List.filter_cons_of_neg (by simpa using hp)]
        exact ih h

/-- **A report that is stored.** -/
theorem Child.Seen.store (h : c.Seen entryStopped es job k) (hnodup : k.pids.Nodup) {x : Child} {change : Change}
    (hx : x ∈ k.children) (hreport : x.state.report WUNTRACED = some change) :
    c.Seen entryStopped es (job.store x.pid change.status) (k.collect x.pid change) where
  follows := h.follows.collect hnodup hx hreport
  entry hc := by
    have hmem : c.pid ∈ k.pids := by
      rw [Kernel.collect_pids] at hc
      cases change with
      | ended t => exact (List.mem_filter.mp hc).1
      | stopped sig => exact hc
      | continued => exact hc
    obtain ⟨process, hfilter, hdone, hstopped⟩ := h.entry hmem
    unfold Job.store
    rw [jobUpdateStatus_processes]
    refine ⟨_, applyToFirst_filter change.status hfilter, ?_⟩
    split
    · rename_i hpid
      cases change with
      | ended t =>
        rw [Kernel.collect_pids] at hc
        exact absurd hpid.symm (by simpa using (List.mem_filter.mp hc).2)
      | continued => cases hs : x.state <;> simp [hs, ChildState.report, WUNTRACED] at hreport
      | stopped sig =>
        rw [processApplyWaitStatus_stopped]
        refine ⟨by simp, fun _ => Or.inr ⟨es, [], by simp, ?_⟩⟩
        -- the child that reports is stopped at this moment
        rcases h.follows with ⟨hgone, -⟩ | ⟨c', hc', hpid', hphase⟩
        · exact absurd hmem hgone
        · obtain rfl := eq_of_pid hnodup hc' hx (hpid'.trans hpid.symm)
          rw [← hphase]
          cases hs : c'.state <;> simp [hs, ChildState.report, WUNTRACED] at hreport
          rfl
    · exact ⟨hdone, hstopped⟩

end

/-! ### The wait -/

/-- What happened outside the shell in a log. -/
def happenings (l : List Event) : List Env :=
  l.filterMap fun e => match e with
    | .env e => some e
    | .call _ _ _ => none

/-- The entry of the child `pid` is stopped. -/
def Job.StoppedEntry (job : Job) (pid : Int) : Prop :=
  ∃ process ∈ job.processes, process.pid = pid ∧ process.status = .stopped

/-- What the wait that started with `job` in `w` knows when it has come to `job'` and `w'`. -/
structure Informed (job : Job) (w : World) (job' : Job) (w' : World) : Prop where
  nodup : w'.kernel.pids.Nodup
  pids : ∀ p ∈ w'.kernel.pids, p ∈ w.kernel.pids
  kept : Keeps [] job job'
  seen : LogOf (fun seg => ∀ c ∈ w.kernel.children, job.Opens c.pid →
    c.Seen (job.StoppedEntry c.pid) (happenings seg) job' w'.kernel) w w'

section

variable {job job' : Job} {w w₁ w₂ : World}

theorem Informed.start (hnodup : w.kernel.pids.Nodup) : Informed job w job w where
  nodup := hnodup
  pids := fun _ hp => hp
  kept := Keeps.refl [] job
  seen := by
    refine ⟨[], by simp, fun c hc hopens => ⟨Child.Follows.refl hc, fun _ => ?_⟩⟩
    obtain ⟨process, hfilter, hdone⟩ := hopens
    refine ⟨process, hfilter, hdone, fun hs => Or.inl ?_⟩
    have hmem : process ∈ job.processes.filter (·.pid == c.pid) := by simp [hfilter]
    obtain ⟨hmem, hpid⟩ := List.mem_filter.mp hmem
    exact ⟨process, hmem, by simpa using hpid, hs⟩

/-- **One round of the wait.** -/
theorem Informed.answered {r : WaitRes} (h : Informed job w job' w₁)
    (ha : Answered (-job.pgid) WUNTRACED r w₁ w₂) :
    ((∀ pid status, r ≠ .report pid status) → Informed job w job' w₂) ∧
      ∀ pid status, r = .report pid status → Informed job w (job'.store pid status) w₂ := by
  obtain ⟨es, k, choice, rfl, hpoll, hlog⟩ := ha.answer
  obtain ⟨seg, hseg, hseen⟩ := h.seen
  have hnodup : (es.foldl Kernel.happen w₁.kernel).pids.Nodup := by
    rw [World.foldl_happen_pids]
    exact h.nodup
  have hhappened : ∀ c ∈ w.kernel.children, job.Opens c.pid →
      c.Seen (job.StoppedEntry c.pid) (happenings seg ++ es) job' (es.foldl Kernel.happen w₁.kernel) :=
    fun c hc hopens => (hseen c hc hopens).happens es
  have hlogged : ∀ {job'' : Job}, (∀ c ∈ w.kernel.children, job.Opens c.pid →
      c.Seen (job.StoppedEntry c.pid) (happenings seg ++ es) job'' w₂.kernel) →
      LogOf (fun seg => ∀ c ∈ w.kernel.children, job.Opens c.pid →
        c.Seen (job.StoppedEntry c.pid) (happenings seg) job'' w₂.kernel) w w₂ := by
    intro job'' hall
    refine ⟨_, by rw [hlog, hseg, List.append_assoc], ?_⟩
    simpa [happenings] using hall
  have hpids : ∀ p ∈ (es.foldl Kernel.happen w₁.kernel).pids, p ∈ w.kernel.pids := by
    rw [World.foldl_happen_pids]
    exact h.pids
  rcases Kernel.poll_cases hpoll with ⟨-, rfl, hk⟩ | ⟨-, rfl, hk⟩ | ⟨x, change, hx, -, hreport, rfl, hk⟩
  · exact ⟨fun _ => ⟨by rwa [hk], by rwa [hk], h.kept, hlogged (by rwa [hk])⟩, fun _ _ he => by cases he⟩
  · exact ⟨fun _ => ⟨by rwa [hk], by rwa [hk], h.kept, hlogged (by rwa [hk])⟩, fun _ _ he => by cases he⟩
  · refine ⟨fun hno => absurd rfl (hno x.pid change.status), fun pid status he => ?_⟩
    obtain ⟨rfl, rfl⟩ := WaitRes.report.inj he
    have hsub : w₂.kernel.pids.Sublist (es.foldl Kernel.happen w₁.kernel).pids := by
      rw [hk, Kernel.collect_pids]
      cases change with
      | ended t => exact List.filter_sublist
      | stopped sig => exact List.Sublist.refl _
      | continued => exact List.Sublist.refl _
    refine ⟨hnodup.sublist hsub, fun p hp => hpids p (hsub.subset hp), ?_, hlogged ?_⟩
    · exact h.kept.trans (keeps_store fun hp => absurd hp List.not_mem_nil) fun p hp => hp
    · rw [hk]
      exact fun c hc hopens => (hhappened c hc hopens).store hnodup hx hreport

/-- **`job_wait_foreground` keeps informed.** -/
theorem wp_jobWaitForeground_informed (hpgid : 0 < job.pgid) (hnodup : w.kernel.pids.Nodup) :
    Prog.wp (jobWaitForeground job) (fun r w' => r.1 = 0 → Informed job w r.2 w' ∧ r.2.status ≠ .running)
      (fun _ => True) w := by
  unfold jobWaitForeground jobWaitForegroundWith
  rw [if_neg (by omega)]
  refine Prog.wp_loop (fun job' w' => Informed job w job' w') ?_ job w (.start hnodup)
  intro job' w' h
  unfold waitRoundWith
  split
  · rename_i hs
    exact fun _ => ⟨h, hs⟩
  · rw [Prog.wp_bind, show -job'.pgid = -job.pgid by rw [h.kept.pgid]]
    refine wp_wait rfl ?_ fun _ _ => trivial
    intro r w'' ha _ hlt
    have hans := h.answered ha
    obtain ⟨es, k, choice, -, hpoll, -⟩ := ha.answer
    rcases Kernel.poll_cases hpoll with ⟨-, rfl, -⟩ | ⟨-, rfl, -⟩ | ⟨x, change, -, -, -, rfl, -⟩
    · exact ⟨hans.1 (by simp), hlt (by simp) rfl⟩
    · exact fun h0 => absurd h0 (show ¬ (-1 : Int) = 0 by decide)
    · dsimp only
      cases processFind job' x.pid with
      | none => exact fun h0 => absurd h0 (show ¬ (-1 : Int) = 0 by decide)
      | some process => exact ⟨hans.2 _ _ rfl, hlt (by simp) rfl⟩

/-- No process of the job is running in the kernel. -/
def Job.NoneRunning (job : Job) (k : Kernel) : Prop :=
  ∀ c ∈ k.children, job.Opens c.pid → c.state.phase ≠ .running

/-- **When a job that the wait leaves stopped has no running process**: exactly when none of its processes has been
continued after it was stopped, without stopping or ending again. -/
theorem stopped_iff (htidy : job.Tidy) (hnodup : w.kernel.pids.Nodup)
    (hrun : jobWaitForeground job w = .done (0, job') w₁) (hstopped : job'.status = .stopped) :
    job.NoneRunning w₁.kernel ↔ ∀ c ∈ w.kernel.children, job.Opens c.pid → ¬ LeftRunning c.pid
      (job.StoppedEntry c.pid) c.state.phase (happenings (logOf (jobWaitForeground job) w)) := by
  have hinformed : Informed job w job' w₁ :=
    (Prog.wp_done (wp_jobWaitForeground_informed htidy.pgid hnodup) hrun rfl).1
  obtain ⟨seg, hseg, hseen⟩ := hinformed.seen
  have hlog : logOf (jobWaitForeground job) w = seg := by
    unfold logOf
    rw [hrun, Outcome.state_done, hseg, List.drop_left]
  rw [hlog]
  constructor
  · intro hnone c hc hopens hleft
    have hruns := hleft.runs
    rcases (hseen c hc hopens).follows with ⟨-, hended⟩ | ⟨c', hc', hpid, hphase⟩
    · rw [hruns] at hended
      cases hended
    · exact hnone c' hc' (hpid ▸ hopens) (hphase.trans hruns)
  · intro hleft c' hc' hopens hruns
    have hpid' : c'.pid ∈ w₁.kernel.pids := List.mem_map_of_mem hc'
    obtain ⟨c, hc, hpid⟩ := List.mem_map.mp (hinformed.pids c'.pid hpid')
    rw [← hpid] at hopens hpid'
    have hc_seen := hseen c hc hopens
    refine hleft c hc hopens ?_
    -- the child runs, as the events have it, and its entry is stopped
    have hphase : phaseAfter c.pid (happenings seg) c.state.phase = .running := by
      rcases hc_seen.follows with ⟨hgone, -⟩ | ⟨c'', hc'', hpid'', hphase⟩
      · exact absurd hpid' hgone
      · obtain rfl := eq_of_pid hinformed.nodup hc'' hc' (hpid''.trans hpid)
        rw [← hphase, hruns]
    obtain ⟨process, hfilter, hdone, hentry⟩ := hc_seen.entry hpid'
    have hmem : process ∈ job'.processes.filter (·.pid == c.pid) := by simp [hfilter]
    have htidy' := hinformed.kept.tidy htidy
    have hnone := ((jobUpdateStatus_stopped htidy'.nonempty).mp (htidy'.status.trans hstopped)).1
    have hprocess : process.status = .stopped := by
      cases hs : process.status with
      | running => exact absurd hs (hnone process (List.mem_filter.mp hmem).1)
      | stopped => rfl
      | done => exact absurd hs hdone
    rcases hentry hprocess with hentry | ⟨pre, post, hsplit, hpre⟩
    · exact leftRunning_of_entry hentry hphase
    · rw [hsplit] at hphase ⊢
      exact leftRunning_of_stopped hpre hphase

end

/-! ### A process that is continued while another one is waited for -/

/-- A job of two processes, launched. -/
def twoProcesses : Job := { Job.new 1 2 [] with processes := [Process.new 2, Process.new 3] }

/-- The world in which it is waited for. -/
def waitingWorld (script : List Item) : World where
  kernel := { shellPgrp := 100, children := [⟨2, 2, .running false⟩, ⟨3, 2, .running false⟩], fds := [], created := 0
              ttyPgrp := 2, ttyModes := 0 }
  ctx := { running := true, jobs := ⟨[twoProcesses], 2⟩, lastExitStatus := 0, config := ⟨[], 16, 0⟩ }
  term := ⟨100, true, true, 0⟩
  script := script
  log := []

/-- The first process stops, is continued by somebody else, and the second one stops. -/
def continuedBetween : World :=
  waitingWorld [.env (.stop 2 SIGTSTP), .res .ok, .env (.resume 2), .env (.stop 3 SIGTSTP), .res .ok]

/-- Both processes stop. -/
def bothStop : World := waitingWorld [.env (.stop 2 SIGTSTP), .res .ok, .env (.stop 3 SIGTSTP), .res .ok]

theorem twoProcesses_tidy : twoProcesses.Tidy :=
  ⟨by decide, by decide, by decide, by decide⟩

/-- **A job that is stopped, and a process of it that runs.** -/
theorem continued_runs : ∃ job job' w w', job.Tidy ∧ w.kernel.pids.Nodup ∧
    jobWaitForeground job w = .done (0, job') w' ∧ job'.status = .stopped ∧ ¬ job.NoneRunning w'.kernel := by
  refine ⟨twoProcesses, _, continuedBetween, _, twoProcesses_tidy,
    by decide, rfl, by decide +kernel, fun hnone => ?_⟩
  exact hnone ⟨2, 2, .running true⟩ (by decide +kernel) ⟨Process.new 2, by decide, by decide⟩ rfl

/-- Nothing is continued, and nothing runs. -/
theorem bothStop_noneRunning : ∃ job' w', jobWaitForeground twoProcesses bothStop = .done (0, job') w' ∧
    job'.status = .stopped ∧ twoProcesses.NoneRunning w'.kernel := by
  refine ⟨_, _, rfl, by decide +kernel, ?_⟩
  refine (@stopped_iff twoProcesses _ bothStop _ twoProcesses_tidy (by decide) rfl (by decide +kernel)).mpr
    ?_
  intro c _ _ hleft
  have hevents : happenings (logOf (jobWaitForeground twoProcesses) bothStop) =
      [.stop 2 SIGTSTP, .stop 3 SIGTSTP] := by
    decide +kernel
  rw [hevents] at hleft
  cases hleft with
  | before hentry _ _ =>
    obtain ⟨process, hmem, -, hs⟩ := hentry
    have hnew : ∀ process ∈ twoProcesses.processes, process.status ≠ .stopped := by decide
    exact hnew process hmem hs
  | during pre post hes _ _ =>
    have hmem : Env.resume c.pid ∈ [Env.stop 2 SIGTSTP, .stop 3 SIGTSTP] := by
      rw [hes]
      simp
    simp at hmem

end MiniShell
