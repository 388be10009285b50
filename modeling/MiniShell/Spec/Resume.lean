import MiniShell.Spec.Run

/-!
# Resuming stopped jobs

`builtin_fg` and `job_shutdown` decide by the status of a job whether it is continued, and a job with a running
process is `JOB_RUNNING` whatever its other processes are.  So a `SIGCONT` is sent to the jobs that have stopped
processes and no running one.
-/

namespace MiniShell

open MiniShell.Lib MiniShellError

/-- A process of the job is stopped. -/
def Job.HasStopped (job : Job) : Prop := ∃ process ∈ job.processes, process.status = .stopped

/-- A process of the job is running. -/
def Job.HasRunning (job : Job) : Prop := ∃ process ∈ job.processes, process.status = .running

/-- `SIGCONT` has been sent to the group. -/
def Continues (pgid : Int) (seg : List Event) : Prop := ∃ r k js, .call (.kill (-pgid) SIGCONT r) k js ∈ seg

/-- A `SIGTERM` for the group is only sent after a `SIGCONT`. -/
def ContinuesFirst (pgid : Int) (seg : List Event) : Prop :=
  ∀ front rest r k js, seg = front ++ .call (.kill (-pgid) SIGTERM r) k js :: rest → Continues pgid front

section

variable {w : World}

/-- A job with stopped processes and no running one has the status `JOB_STOPPED`. -/
theorem Job.Tidy.stopped {job : Job} (h : job.Tidy) (hs : job.HasStopped) (hr : ¬ job.HasRunning) :
    job.status = .stopped := by
  rw [← h.status, jobUpdateStatus_stopped h.nonempty]
  exact ⟨fun p hp hps => hr ⟨p, hp, hps⟩, hs⟩

theorem Continues.append_right {pgid : Int} {seg seg' : List Event} (h : Continues pgid seg) :
    Continues pgid (seg ++ seg') := by
  obtain ⟨r, k, js, hm⟩ := h
  exact ⟨r, k, js, List.mem_append_left _ hm⟩

theorem Continues.append_left {pgid : Int} {seg seg' : List Event} (h : Continues pgid seg') :
    Continues pgid (seg ++ seg') := by
  obtain ⟨r, k, js, hm⟩ := h
  exact ⟨r, k, js, List.mem_append_right _ hm⟩

/-! ### `builtin_fg` -/

/-- `job_continue` of a stopped job sends a `SIGCONT`, unless it fails. -/
theorem wp_jobContinue_continues {job : Job} (hs : job.status = .stopped) {R : World → Prop} :
    Prog.wp (jobContinue job) (fun x w' => 0 ≤ x.1 → LogOf (Continues job.pgid) w w') R w := by
  unfold jobContinue jobContinueWith
  split
  · exact fun h => absurd h (by simp)
  · rw [if_neg (by simp [hs]), Prog.wp_bind]
    apply wp_retry_quiet (quietRes_kill (by omega) SIGCONT)
    intro r w' n _ hi _
    obtain ⟨seg, hseg, hcalls⟩ := hi
    have hm : .kill (-job.pgid) SIGCONT r ∈ calls seg := by simp [hcalls]
    obtain ⟨k, js, hm⟩ := mem_calls.mp hm
    have hc : LogOf (Continues job.pgid) w w' := ⟨seg, hseg, r, k, js, hm⟩
    split <;> exact fun _ => hc

/-- When `builtin_fg` goes on with the job at `i`, and it was stopped, a `SIGCONT` has been sent to it. -/
def FgContinued (w : World) (x : Except Int (ℕ × Job)) (w' : World) : Prop :=
  ∀ i job', x = .ok (i, job') → ∀ job, w.jobs[i]? = some job → job.status = .stopped →
    LogOf (Continues job.pgid) w w'

theorem wp_fgPrepare_continues (w : World) : Prog.wp fgPrepare (FgContinued w) (fun _ => True) w := by
  have error : ∀ {m : Sh Int} (w' : World) {e : Int}, Upkeeps m →
      Prog.wp (m >>= fun _ => pure (Except.error e)) (FgContinued w) (fun _ => True) w' := by
    intro m w' e hm
    rw [Prog.wp_bind]
    exact Prog.wp_mono (hm w') (fun _ _ _ i job' hx => by cases hx) (fun _ _ => trivial)
  unfold fgPrepare
  rw [Prog.wp_get_bind]
  cases hf : findJob Job.isActive w.jobs with
  | none => exact fun i job' hx => by cases hx
  | some x =>
    obtain ⟨i, job⟩ := x
    dsimp only
    rw [Prog.wp_bind]
    apply wp_terminalSetForeground
    intro r w₁ h₁ _
    split
    · exact fun i job' hx => by cases hx
    rw [Prog.wp_bind]
    refine Prog.wp_mono (upkeeps_fgSetModes job w₁) ?_ (fun _ _ => trivial)
    intro r w₂ h₂
    split
    · exact error w₂ upkeeps_terminalRestore
    rw [Prog.wp_bind]
    obtain ⟨seg₁, hseg₁, -⟩ := h₁.log
    obtain ⟨seg₂, hseg₂, -⟩ := h₂.log
    have hcont : Prog.wp (fgContinue job) (fun x w' => 0 ≤ x.1 → job.status = .stopped →
        LogOf (Continues job.pgid) w w') (fun _ => True) w₂ := by
      unfold fgContinue
      split
      · rename_i hs
        refine Prog.wp_mono (wp_jobContinue_continues hs) ?_ (fun _ h => h)
        intro x w' hc hx _
        obtain ⟨seg, hseg, hk⟩ := hc hx
        exact ⟨seg₁ ++ (seg₂ ++ seg), by rw [hseg, hseg₂, hseg₁]; simp only [List.append_assoc],
          hk.append_left.append_left⟩
      · rename_i hs
        exact fun _ h => absurd h hs
    refine Prog.wp_mono hcont ?_ (fun _ h => h)
    intro x w₃ h₃
    obtain ⟨r, job₃⟩ := x
    dsimp only
    split
    · exact error w₃ upkeeps_terminalRestore
    · rename_i hr
      intro i' job' hx job₀ hget hs
      cases hx
      obtain rfl : job = job₀ := by
        rw [(findJob_spec hf).1] at hget
        exact Option.some.inj hget
      obtain ⟨seg, hseg, hk⟩ := h₃ (not_lt.mp hr) hs
      exact ⟨seg, hseg, hk⟩

/-! ### `job_shutdown` -/

/-- A log of `SIGCONT`s that has one for each stopped job of a list. -/
def ContinuesAll (jobs : List Job) (seg : List Event) : Prop :=
  (∀ e ∈ seg, e.Of (Call.ToGroup SIGCONT)) ∧
    ∀ job ∈ jobs, job.status = .stopped → 0 < job.pgid → Continues job.pgid seg

theorem ContinuesAll.append {jobs jobs' : List Job} {seg seg' : List Event} (h : ContinuesAll jobs seg)
    (h' : ContinuesAll jobs' seg') : ContinuesAll (jobs ++ jobs') (seg ++ seg') := by
  refine ⟨fun e he => (List.mem_append.mp he).elim (h.1 e) (h'.1 e), fun job hj hs hp => ?_⟩
  rcases List.mem_append.mp hj with hj | hj
  · exact (h.2 job hj hs hp).append_right
  · exact (h'.2 job hj hs hp).append_left

/-- `continue_stopped_job`, on a stopped job or not. -/
theorem wp_continueStopped_continues (job : Job) (w : World) {R : World → Prop} :
    Prog.wp (if job.status = .stopped then continueStoppedJob job else pure job)
      (fun _ w' => LogOf (ContinuesAll [job]) w w') R w := by
  split
  · unfold continueStoppedJob
    split
    · dsimp only
      rw [Prog.wp_bind]
      apply wp_syscall_quiet (quietRes_kill (by omega) SIGCONT).toQuietCall
      intro c k w' hq hi _ _
      obtain ⟨seg, hseg, hcalls⟩ := hi
      obtain ⟨seg', hseg', hev, -⟩ := hq.log
      obtain rfl : seg' = seg := List.append_cancel_left (hseg'.symm.trans hseg)
      have hm : .kill (-job.pgid) SIGCONT (Kernel.kill (-job.pgid) SIGCONT c k).1 ∈ calls seg' := by simp [hcalls]
      obtain ⟨k', js, hm⟩ := mem_calls.mp hm
      refine ⟨seg', hseg, hev, fun job' hj _ _ => ?_⟩
      obtain rfl := List.mem_singleton.mp hj
      exact ⟨_, k', js, hm⟩
    · rename_i hpgid
      refine ⟨[], by simp, by simp, fun job' hj _ hp => ?_⟩
      obtain rfl := List.mem_singleton.mp hj
      exact absurd hp hpgid
  · rename_i hs
    refine ⟨[], by simp, by simp, fun job' hj h _ => ?_⟩
    obtain rfl := List.mem_singleton.mp hj
    exact absurd h hs

/-- The first loop of `job_shutdown` sends a `SIGCONT` to every stopped job. -/
theorem wp_continueStoppedJobs_continues (w : World) {R : World → Prop} :
    Prog.wp continueStoppedJobs (fun _ w' => LogOf (ContinuesAll w.jobs) w w') R w := by
  unfold continueStoppedJobs
  rw [Prog.wp_get_bind, Prog.wp_bind]
  refine Prog.wp_mono (Prog.wp_mapList (fun _ rest w' => ∃ front, w.jobs = front ++ rest ∧
    LogOf (ContinuesAll front) w w') ?_ w.jobs w ⟨[], rfl, [], by simp, by simp, by simp⟩) ?_ (fun _ h => h)
  · rintro bs job rest w₁ ⟨front, hsplit, seg, hseg, hc⟩
    refine Prog.wp_mono (wp_continueStopped_continues job w₁) ?_
      (fun _ h => h)
    rintro _ w₂ ⟨seg', hseg', hc'⟩
    exact ⟨front ++ [job], by simp [hsplit], seg ++ seg', by rw [hseg', hseg, List.append_assoc], hc.append hc'⟩
  · rintro bs w₁ ⟨front, hsplit, hc⟩
    obtain rfl : w.jobs = front := by simpa using hsplit
    exact hc

/-- What follows the first loop adds to the log. -/
theorem wp_afterContinue (w : World) :
    Prog.wp (do
      terminateJobs
      tryReapRounds JOB_SHUTDOWN_RETRY_COUNT
      killJobs
      forceReapJobs
      Prog.modify (World.updateManager jobDestroy) : Sh Unit)
      (fun _ w' => LogExt (Event.Of Call.Tame) w w') (LogExt (Event.Of Call.Tame) w) w := by
  rw [Prog.wp_bind]
  refine Prog.wp_mono (wp_terminateJobs w) ?_ (fun _ h => h)
  intro _ w₁ h₁
  have l₁ : LogExt (Event.Of Call.Tame) w w₁ := (h₁.mono fun _ => tame_of_toGroup).log
  rw [Prog.wp_bind]
  refine Prog.wp_mono (wp_tryReapRounds _ w₁) ?_ (fun _ h => h)
  intro _ w₂ h₂
  have l₂ : LogExt (Event.Of Call.Tame) w w₂ := l₁.trans (h₂.mono fun _ => tame_of_asking).log
  rw [Prog.wp_bind]
  refine Prog.wp_mono (wp_killJobs w₂) ?_ (fun _ h => h)
  intro _ w₃ h₃
  have l₃ : LogExt (Event.Of Call.Tame) w w₃ := l₂.trans (h₃.mono fun _ => tame_of_toGroup).log
  rw [Prog.wp_bind]
  refine Prog.wp_mono (wp_forceReapJobs w₃) ?_
    (fun _ h => l₃.trans (h.mono fun _ => Event.Of.mono fun _ => tame_of_asking))
  rintro _ w₄ ⟨h₄, _⟩
  exact l₃.trans (h₄.mono fun _ => tame_of_asking).log

/-- **`job_shutdown`** sends a `SIGCONT` to every stopped job before it sends any `SIGTERM`. -/
theorem continuesFirst_of_stopped {job : Job} (hj : job ∈ w.jobs) (hs : job.status = .stopped)
    (hpgid : 0 < job.pgid) : ContinuesFirst job.pgid (logOf jobShutdown w) := by
  refine @logOf_of_wp _ _ (ContinuesFirst job.pgid) w ?_
  unfold jobShutdown
  rw [Prog.wp_get_bind, if_neg (List.ne_nil_of_mem hj), Prog.wp_bind]
  refine Prog.wp_mono (wp_continueStoppedJobs_continues w) ?_
    (fun _ h => h)
  rintro _ w₁ ⟨seg, hseg, hev, hall⟩
  have ext : ∀ w₂, LogExt (Event.Of Call.Tame) w₁ w₂ → LogOf (ContinuesFirst job.pgid) w w₂ := by
    rintro w₂ ⟨seg', hseg', -⟩
    refine ⟨seg ++ seg', by rw [hseg', hseg, List.append_assoc], fun front rest r k js heq => ?_⟩
    have hnot : Event.call (.kill (-job.pgid) SIGTERM r) k js ∉ seg := fun hm =>
      absurd (show Call.ToGroup SIGCONT (.kill (-job.pgid) SIGTERM r) from hev _ hm).2 (by decide)
    obtain ⟨front', rfl, -⟩ := split_after hnot heq
    exact (hall job hj hs hpgid).append_right
  exact Prog.wp_mono (wp_afterContinue w₁) (fun _ => ext) ext

end

/-! ### Both -/

/-- **Stopped jobs are resumed.**  In every reachable table: when `builtin_fg` goes on to wait for a job that had
stopped processes and no running one, it has sent a `SIGCONT` to the group; and `job_shutdown` sends a `SIGTERM` to
the group of such a job only after a `SIGCONT`. -/
theorem stopped_jobs_resumed {w : World} (h : Reachable w) (script : List Item) :
    (∀ i job' w', fgPrepare { w with script := script } = .done (.ok (i, job')) w' →
      ∀ job, w.jobs[i]? = some job → job.HasStopped → ¬ job.HasRunning →
        Continues job.pgid (logOf fgPrepare { w with script := script })) ∧
    ∀ job ∈ w.jobs, job.HasStopped → ¬ job.HasRunning →
      ContinuesFirst job.pgid (logOf jobShutdown { w with script := script }) := by
  have tidy := h.inv.accounted.tidy
  constructor
  · intro i job' w' hrun job hget hs hr
    have ht := tidy job (List.mem_of_getElem? hget)
    obtain ⟨seg, hseg, hc⟩ :=
      Prog.wp_done (wp_fgPrepare_continues { w with script := script }) hrun i job' rfl job
      hget (ht.stopped hs hr)
    unfold logOf
    rw [hrun, Outcome.state_done, hseg, List.drop_left]
    exact hc
  · intro job hj hs hr
    have ht := tidy job hj
    exact @continuesFirst_of_stopped { w with script := script } job hj (ht.stopped hs hr) ht.pgid

/-! A pipeline of two runs in the background; its second process, or both of them, are stopped. -/

def stopScript (first : Bool) : List Item :=
  List.replicate 13 (.res .ok) ++ (if first then [.env (.stop 101 SIGTTIN)] else []) ++
    [.env (.stop 102 SIGTTIN)] ++ List.replicate 2 (.res .ok)

def stopSteps : List Step := [backgroundPipeline, .child]

def stoppedWorld (first : Bool) : World := (runSteps stopSteps (freshShell (stopScript first))).state

theorem stoppedWorld_reachable (first : Bool) : Reachable (stoppedWorld first) := by
  cases first with
  | false => exact ⟨freshShell (stopScript false), stopSteps, ⟨rfl, rfl, rfl⟩, by decide +kernel⟩
  | true => exact ⟨freshShell (stopScript true), stopSteps, ⟨rfl, rfl, rfl⟩, by decide +kernel⟩

/-- The job when both are stopped. -/
def stoppedJob : Job where
  id := 1
  pgid := 101
  status := .stopped
  command := [97]
  processes := [⟨101, .stopped, (Change.stopped SIGTTIN).status, true⟩,
    ⟨102, .stopped, (Change.stopped SIGTTIN).status, true⟩]
  terminalModes := 0
  terminalModesValid := false

/-- When both are stopped, `builtin_fg` sends a `SIGCONT` before it waits, and `job_shutdown` sends one first. -/
theorem stoppedWorld_resumed :
    Continues 101 (logOf fgPrepare { stoppedWorld true with script := [] }) ∧
      ContinuesFirst 101 (logOf jobShutdown { stoppedWorld true with script := [] }) := by
  have hjobs : (stoppedWorld true).jobs = [stoppedJob] := by decide +kernel
  have hfg : (match fgPrepare { stoppedWorld true with script := [] } with
      | .done (.ok (i, _)) _ => i == 0
      | _ => false) = true := by decide +kernel
  have hs : stoppedJob.HasStopped := ⟨_, List.mem_cons_self .., rfl⟩
  have hr : ¬ stoppedJob.HasRunning := by simp [Job.HasRunning, stoppedJob]
  obtain ⟨hprepare, hshutdown⟩ := stopped_jobs_resumed (stoppedWorld_reachable true) []
  refine ⟨?_, hshutdown stoppedJob (by simp [hjobs]) hs hr⟩
  split at hfg
  · rename_i i job' w' hrun
    obtain rfl : i = 0 := by simpa using hfg
    exact hprepare 0 job' w' hrun stoppedJob (by simp [hjobs]) hs hr
  · cases hfg

/-- The job when one of them is. -/
def mixedJob : Job :=
  { stoppedJob with
    status := .running
    processes := [Process.new 101, ⟨102, .stopped, (Change.stopped SIGTTIN).status, true⟩] }

/-- No `SIGCONT` is in the log. -/
def noContinue (seg : List Event) : Bool :=
  seg.all fun e => match e with
    | .call (.kill _ sig _) _ _ => sig != SIGCONT
    | _ => true

theorem not_continues {seg : List Event} (h : noContinue seg = true) (pgid : Int) : ¬ Continues pgid seg := by
  rintro ⟨r, k, js, hm⟩
  simpa using List.all_eq_true.mp h _ hm

/-- When only one of them is, `builtin_fg` waits for the job, and `job_shutdown` sends its `SIGTERM`, and no `SIGCONT`
has been sent. -/
theorem stopped_member_not_resumed : ∃ w, Reachable w ∧
    (∃ i job' w', fgPrepare { w with script := [] } = .done (.ok (i, job')) w' ∧
      ∃ job, w.jobs[i]? = some job ∧ job.HasStopped ∧
        ¬ Continues job.pgid (logOf fgPrepare { w with script := [] })) ∧
    ∃ job ∈ w.jobs, job.HasStopped ∧ ¬ ContinuesFirst job.pgid
      (logOf jobShutdown { w with script := [] }) := by
  have hjobs : (stoppedWorld false).jobs = [mixedJob] := by decide +kernel
  have hs : mixedJob.HasStopped := ⟨_, List.mem_cons_of_mem _ (List.mem_cons_self ..), rfl⟩
  refine ⟨stoppedWorld false, stoppedWorld_reachable false, ?_, mixedJob, by simp [hjobs], hs, ?_⟩
  · have hfg : (match fgPrepare { stoppedWorld false with script := [] } with
        | .done (.ok (i, _)) _ => i == 0
        | _ => false) = true := by decide +kernel
    split at hfg
    · rename_i i job' w' hrun
      obtain rfl : i = 0 := by simpa using hfg
      exact ⟨0, job', w', hrun, mixedJob, by simp [hjobs], hs, not_continues (by decide +kernel) _⟩
    · cases hfg
  · have hterm : ((logOf jobShutdown { stoppedWorld false with script := [] }).any fun e => match e with
        | .call (.kill target sig _) _ _ => target == -101 && sig == SIGTERM
        | _ => false) = true := by decide +kernel
    have hnone : noContinue (logOf jobShutdown { stoppedWorld false with script := [] }) = true := by decide +kernel
    intro h
    obtain ⟨e, he, hk⟩ := List.any_eq_true.mp hterm
    obtain ⟨front, rest, hsplit⟩ := List.append_of_mem he
    obtain ⟨r, k, js, rfl⟩ : ∃ r k js, e = .call (.kill (-101) SIGTERM r) k js := by
      cases e with
      | env e => cases hk
      | call c k js =>
        cases c with
        | kill target sig r =>
          simp only [Bool.and_eq_true, beq_iff_eq] at hk
          exact ⟨r, k, js, by rw [hk.1, hk.2]⟩
        | _ => cases hk
    have hc : Continues mixedJob.pgid front := h front rest r k js hsplit
    exact not_continues hnone _ (hsplit ▸ hc.append_right)

end MiniShell
