import MiniShell.Spec.Calm
import MiniShell.Spec.Record
import MiniShell.Spec.Reload

/-!
# The limit on the active jobs

`active_jobs_limited`: `execute_command` looks at the number of active jobs once, when it begins, and only it adds to
them; so they never get more than the largest `max_job` of the run allows.
-/

namespace MiniShell

open MiniShell.Lib MiniShellError

section

variable {n : ℕ} {w w' w₁ w₂ w₃ : World} {α β : Type}

/-! ### The error of the limit -/

/-- A child was forked between `w` and `w'`. -/
def Forked (w w' : World) : Prop := ∃ seg, w'.log = w.log ++ seg ∧ forks seg ≠ []

theorem Forked.after (h : Forked w₂ w₃) (hlog : w₁.log <+: w₂.log) : Forked w₁ w₃ := by
  obtain ⟨s, hs⟩ := hlog
  obtain ⟨s', hs', hf⟩ := h
  refine ⟨s ++ s', by rw [hs', ← hs, List.append_assoc], fun hnil => hf ?_⟩
  rw [forks_append] at hnil
  exact (List.append_eq_nil_iff.mp hnil).2

theorem Forked.then (h : Forked w₁ w₂) (hlog : w₂.log <+: w₃.log) : Forked w₁ w₃ := by
  obtain ⟨s, hs, hf⟩ := h
  obtain ⟨s', hs'⟩ := hlog
  refine ⟨s ++ s', by rw [← hs', hs, List.append_assoc], fun hnil => hf ?_⟩
  rw [forks_append] at hnil
  exact (List.append_eq_nil_iff.mp hnil).1

/-- The launch has failed for another reason than the limit. -/
def FailsOtherwise : Except Int α → Prop
  | .error e => e ≠ errJob
  | .ok _ => False

/-- `fork`, and then whatever comes. -/
theorem wp_fork_then {f : Int → Sh (Except Int α)} (hfail : ∀ w, Prog.wp (f (-1)) (fun r _ => FailsOtherwise r)
    (fun _ => True) w) (hf : ∀ pid, LogGrows (f pid)) (w : World) :
    Prog.wp (fork >>= f) (fun r w' => Forked w w' ∨ FailsOtherwise r) (fun _ => True) w := by
  rw [Prog.wp_bind]
  apply wp_syscall
  intro used c rest _
  have success : 0 < ((w.drift used rest).kernel.fork c).1 →
      Forked w { (w.drift used rest).record (.fork ((w.drift used rest).kernel.fork c).1) with
        kernel := ((w.drift used rest).kernel.fork c).2 } := by
    intro hpos
    refine ⟨_, List.append_assoc .., ?_⟩
    rw [forks_append, forks_envs, List.nil_append]
    simp [forks, hpos]
  have later : ∀ {w₁ : World} (pid : Int), Forked w w₁ →
      Prog.wp (f pid) (fun r w' => Forked w w' ∨ FailsOtherwise r) (fun _ => True) w₁ := by
    intro w₁ pid hw₁
    have hgrows := hf pid w₁
    unfold Prog.wp
    cases hr : f pid w₁ with
    | done r w' =>
      rw [hr] at hgrows
      exact Or.inl (hw₁.then hgrows)
    | blocked w' => trivial
  cases c with
  | fail e => exact Prog.wp_mono (hfail _) (fun _ _ h => Or.inr h) fun _ h => h
  | ok => exact later _ (success (lt_trans one_pos ((w.drift used rest).kernel.forkPid_spec .ok).1))
  | pick p => exact later _ (success (lt_trans one_pos ((w.drift used rest).kernel.forkPid_spec (.pick p)).1))

/-- What comes first only adds to the log. -/
theorem wp_grows_then {m : Sh β} {f : β → Sh (Except Int α)} (hm : LogGrows m)
    (hf : ∀ b w, Prog.wp (f b) (fun r w' => Forked w w' ∨ FailsOtherwise r) (fun _ => True) w) (w : World) :
    Prog.wp (m >>= f) (fun r w' => Forked w w' ∨ FailsOtherwise r) (fun _ => True) w := by
  have hgrows := hm w
  apply Prog.wp_bind_done
  intro b w₁ hb
  rw [hb] at hgrows
  exact Prog.wp_mono (hf b w₁) (fun r w' h => h.imp (fun hfork => hfork.after hgrows) id) fun _ h => h

/-- **`execute_single` says that there are too many jobs only after a fork.** -/
theorem wp_launchSingle_forks (com : Command) (w : World) :
    Prog.wp (launchSingle com) (fun r w' => Forked w w' ∨ FailsOtherwise r) (fun _ => True) w := by
  have h := logGrows_vars.table
  have close : ∀ fd, LogGrows (close fd) := h.close
  refine wp_grows_then (closed_startupGateCreate h.toClosed) ?_ w
  intro gate w
  cases gate with
  | none => exact Or.inr (show errPipe ≠ errJob by decide)
  | some gate =>
    obtain ⟨gate0, gate1⟩ := gate
    refine wp_grows_then (m := terminalIsInitialized) (fun _ => List.prefix_rfl) ?_ w
    intro terminalActive w
    refine wp_fork_then (fun w => ?_) (fun pid => h.ite (fun _ => ?_) fun _ => ?_) w
    · exact show errFork ≠ errJob by decide
    · exact (close _).bind fun _ => (close _).bind fun _ => h.pure _
    · refine (close _).bind fun _ => (closed_setpgidParent h.toClosed _ _).bind fun r =>
        h.ite (fun _ => ?_) fun _ => ?_
      · exact (close _).bind fun _ => (closed_rollbackSingle h.toClosed _).bind fun _ => h.pure _
      · refine (closed_jobAdd h _ _).bind fun job => h.ite (fun _ => ?_) fun _ => ?_
        · exact (close _).bind fun _ => (closed_rollbackSingle h.toClosed _).bind fun _ => h.pure _
        · refine (closed_processAdd h _ _).bind fun r => h.ite (fun _ => ?_) fun _ => ?_
          · exact (close _).bind fun _ => (closed_rollbackSingle h.toClosed _).bind fun _ =>
              (h.remove _).bind fun _ => h.pure _
          · have release : ∀ r : Int, LogGrows (if r < 0 then do
                MiniShell.close gate1
                rollbackSingle pid
                jobRemoveM pid
                let _ ← terminalRestore
                pure (.error errUnknown)
              else releaseSingle com gate1 pid terminalActive) := fun r => h.ite
                (fun _ => (close _).bind fun _ => (closed_rollbackSingle h.toClosed _).bind fun _ =>
                  (h.remove _).bind fun _ => (closed_terminalRestore logGrows_tty).bind fun _ => h.pure _)
                fun _ => closed_releaseSingle (K := fun _ m => LogGrows m) h (fun _ => logGrows_tty) _ _ _
            exact h.ite (fun _ => (closed_terminalSetForeground logGrows_tty _).bind release) fun _ =>
              (h.pure 0).bind release

/-- A program that goes on with what another has launched. -/
theorem wp_launched_then {m : Sh (Except Int α)} {f : Except Int α → Sh (Except Int β)}
    (herror : ∀ e, f (.error e) = pure (.error e)) (hf : ∀ a, LogGrows (f (.ok a)))
    (hm : Prog.wp m (fun r w' => Forked w w' ∨ FailsOtherwise r) (fun _ => True) w) :
    Prog.wp (m >>= f) (fun r w' => Forked w w' ∨ FailsOtherwise r) (fun _ => True) w := by
  rw [Prog.wp_bind]
  refine Prog.wp_mono hm ?_ fun _ h => h
  intro r w₁ h
  cases r with
  | error e =>
    rw [herror e]
    exact h
  | ok a =>
    have hforked : Forked w w₁ := h.resolve_right id
    have hgrows := hf a w₁
    unfold Prog.wp
    cases hr : f (.ok a) w₁ with
    | done r w' =>
      rw [hr] at hgrows
      exact Or.inl (hforked.then hgrows)
    | blocked w' => trivial

theorem wp_launchStage_forks (gate0 gate1 : ℕ) (next : List Command) (pipefd0 pipefd1 : Int)
    (l : Launch) (w : World) :
    Prog.wp (launchStage gate0 gate1 next pipefd0 pipefd1 l) (fun r w' => Forked w w' ∨ FailsOtherwise r)
      (fun _ => True) w := by
  have h := logGrows_vars.table
  have closeIf : ∀ fd, LogGrows (closeIf fd) := closed_closeIf h.toClosed
  have undo : ∀ pgid pids e, LogGrows (do
      MiniShell.closeIf pipefd0
      MiniShell.closeIf pipefd1
      MiniShell.closeIf l.pipeFd
      close gate0
      close gate1
      rollbackPipeline pgid pids
      pure (.error e) : Sh (Except Int Launch)) := fun _ _ _ =>
    (closeIf _).bind fun _ => (closeIf _).bind fun _ => (closeIf _).bind fun _ => (h.close _).bind fun _ =>
      (h.close _).bind fun _ => (closed_rollbackPipeline h.toClosed _ _).bind fun _ => h.pure _
  refine wp_fork_then (fun w => ?_) (fun pid => h.ite (fun _ => undo _ _ _) fun _ => ?_) w
  · rw [if_pos (by decide)]
    iterate 6 refine Prog.wp_bind_done fun _ _ _ => ?_
    exact show errFork ≠ errJob by decide
  · refine (closed_setpgidParent h.toClosed _ _).bind fun r => h.ite (fun _ => undo _ _ _) fun _ => ?_
    exact (closeIf _).bind fun _ => h.ite (fun _ => (h.close _).bind fun _ => h.pure _) fun _ => h.pure _

theorem wp_launchLoop_forks (gate0 gate1 : ℕ) (com : Command) (next : List Command) (w : World) :
    Prog.wp (launchLoop gate0 gate1 (com :: next) { pipeFd := -1, pgid := 0, pids := [] })
      (fun r w' => Forked w w' ∨ FailsOtherwise r) (fun _ => True) w := by
  unfold launchLoop
  rw [if_neg (by decide)]
  refine wp_grows_then (closed_stagePipe logGrows_tty.toClosed next) ?_ w
  intro ends w
  cases ends with
  | none =>
    iterate 4 refine Prog.wp_bind_done fun _ _ _ => ?_
    exact Or.inr (show errPipe ≠ errJob by decide)
  | some ends =>
    refine wp_launched_then (fun _ => rfl) ?_ (wp_launchStage_forks gate0 gate1 next ends.1 ends.2 _ w)
    intro l
    exact closed_launchLoop (K := fun _ m => LogGrows m) logGrows_tty.toClosed _ _ _ _

/-- **`execute_pipeline` says that there are too many jobs only after a fork.** -/
theorem wp_launchPipeline_forks (com : Command) (next : List Command) (w : World) :
    Prog.wp (launchPipeline com next) (fun r w' => Forked w w' ∨ FailsOtherwise r) (fun _ => True) w := by
  refine wp_grows_then (closed_startupGateCreate logGrows_tty.toClosed) ?_ w
  intro gate w
  cases gate with
  | none => exact Or.inr (show errPipe ≠ errJob by decide)
  | some gate =>
    refine wp_grows_then (m := terminalIsInitialized) (fun _ => List.prefix_rfl) ?_ w
    intro terminalActive w
    refine wp_launched_then (fun _ => rfl) ?_ (wp_launchLoop_forks gate.1 gate.2 com next w)
    intro l
    exact closed_registerPipeline (K := fun _ m => LogGrows m) logGrows_vars.table (fun _ => logGrows_tty) _ _ _ _

/-- Below the limit `execute_command` returns `MiniShell_ERR_JOB` only when it has forked. -/
theorem execute_forks (com : Command) (next : List Command) {w w' : World}
    (h : (if next ≠ [] then executePipeline com next else executeSingle com) w = .done errJob w') :
    Forked w w' := by
  -- what follows a launch that went well only adds to the log
  have run : ∀ {γ : Type} {m : Sh (Except Int γ)} {f : Except Int γ → Sh Int},
    (∀ e, f (.error e) = pure e) →
      (∀ a, LogGrows (f (.ok a))) → Prog.wp m (fun r w' => Forked w w' ∨ FailsOtherwise r)
        (fun _ => True) w →
      (m >>= f) w = .done errJob w' → Forked w w' := by
    intro γ m f herror hf hm hrun
    rw [Prog.bind_apply] at hrun
    cases hr : m w with
    | blocked w₁ => rw [hr] at hrun; cases hrun
    | done r w₁ =>
      rw [hr] at hrun
      have hpost := Prog.wp_done hm hr
      cases r with
      | error e =>
        dsimp only at hrun
        rw [herror e] at hrun
        cases hrun
        exact hpost.resolve_right fun hne => hne rfl
      | ok a =>
        have hgrows := hf a w₁
        dsimp only at hrun
        rw [hrun] at hgrows
        exact (hpost.resolve_right id).then hgrows
  have hclosed := logGrows_vars.table
  split at h
  · refine run (fun _ => rfl) ?_ (wp_launchPipeline_forks com next w) h
    intro a
    exact closed_waitPipeline (K := fun _ m => LogGrows m) hclosed (fun _ => logGrows_tty) logGrows_vars _ _
  · refine run (fun _ => rfl) ?_ (wp_launchSingle_forks com w) h
    intro a
    exact closed_waitSingle (K := fun _ m => LogGrows m) hclosed (fun _ => logGrows_tty) logGrows_vars _ _

/-! ### Steps of the shell -/

/-- `job_count_active` has reached `max_job`. -/
def World.LimitReached (w : World) : Prop := (jobCountActive w.ctx.jobs : Int) ≥ w.ctx.config.maxJob

theorem executeCommand_limit (h : w.LimitReached) (com : Command) (next : List Command) :
    executeCommand com next w = .done errJob w := by
  have hcheck : checkJobLimit w = .done errJob w := by
    exact congrFun (if_pos h : (if (jobCountActive w.ctx.jobs : Int) ≥ w.ctx.config.maxJob then pure errJob
      else pure ok : Sh Int) = pure errJob) w
  exact Prog.bind_done hcheck

theorem executeCommand_below (h : ¬ w.LimitReached) (com : Command) (next : List Command) :
    executeCommand com next w = (if next ≠ [] then executePipeline com next else executeSingle com) w := by
  have hcheck : checkJobLimit w = .done ok w := by
    exact congrFun (if_neg h : (if (jobCountActive w.ctx.jobs : Int) ≥ w.ctx.config.maxJob then pure errJob
      else pure ok : Sh Int) = pure ok) w
  exact Prog.bind_done hcheck

theorem within_executeCommand (com : Command) (next : List Command) (hn : activeCount w.jobs ≤ n)
    (hroom : ¬ w.LimitReached → activeCount w.jobs < n) : Within n w (executeCommand com next w).state := by
  by_cases h : w.LimitReached
  · rw [executeCommand_limit h]
    exact .refl hn
  · rw [executeCommand_below h]
    exact spares_execute com next w (hroom h)

theorem within_dispatcherCommand (cmd : Command) (next : List Command) (hn : activeCount w.jobs ≤ n)
    (hroom : ¬ w.LimitReached → activeCount w.jobs < n) : Within n w (dispatcherCommand cmd next w).state := by
  unfold dispatcherCommand
  cases cmd.argv0 with
  | none => exact .refl hn
  | some name =>
    apply within_ite (fun _ => .refl hn)
    intro _
    cases builtinLookup name with
    | none => exact within_executeCommand cmd next hn hroom
    | some entry => exact Calm.ite (fun _ => .pure _) (fun _ => calm_dispatchBuiltin _ _) w hn

/-- **One step of the shell.** -/
theorem Step.within (step : Step) (hi : RunInv w) (hn : activeCount w.jobs ≤ n)
    (hroom : ¬ w.LimitReached → activeCount w.jobs < n) : Within n w (step.run w).state := by
  cases step with
  | command cmd next =>
    apply within_bind (within_dispatcherCommand cmd next hn hroom)
    intro status w' _ hn'
    exact calm_modify (f := World.setExitStatus _) (fun _ => rfl) (fun _ => le_rfl) w' hn'
  | child => exact within_shellChild hi.accounted.settled hn
  | exitStatus status => exact calm_modify (f := World.setExitStatus _) (fun _ => rfl) (fun _ => le_rfl) w hn

/-- A run has reached `w`, and `b` is the largest `max_job` that has been in force.  A shell starts with a valid
configuration, `shellContextConfig_valid`. -/
inductive RunTo : World → Int → Prop
  | start {w : World} (h : w.Initial) (hc : ValidConfig w.ctx.config) : RunTo w w.ctx.config.maxJob
  | step {w w' : World} {b : Int} (h : RunTo w b) (step : Step) (hrun : step.run w = .done () w') :
      RunTo w' (max b w'.ctx.config.maxJob)

theorem RunTo.inv {b : Int} (h : RunTo w b) :
    RunInv w ∧ (activeCount w.jobs : Int) ≤ b ∧ w.ctx.config.maxJob ≤ b := by
  induction h with
  | @start w h hc =>
    have hjobs : activeCount w.jobs = 0 := by
      rw [World.jobs, h.jobs]
      rfl
    have hmax := hc.maxJob.1
    exact ⟨h.inv, by rw [hjobs]; omega, le_rfl⟩
  | @step w w' b h step hrun ih =>
    obtain ⟨hi, hactive, hmax⟩ := ih
    refine ⟨Prog.wp_done (step.inv hi) hrun, le_max_of_le_left ?_, le_max_right _ _⟩
    have hwithin := @Step.within b.toNat w step hi (by omega) fun hlimit => by
      have hbelow : ¬ ((activeCount w.jobs : Int) ≥ w.ctx.config.maxJob) := hlimit
      omega
    rw [hrun] at hwithin
    have hnow : activeCount w'.jobs ≤ b.toNat := hwithin.now
    omega

/-- The operations on the table other than starting a command. -/
inductive TableOperation where
  | jobReap
  | jobCleanupDone
  | jobContinue (i : ℕ)
  | jobWaitForeground (i : ℕ)
  | builtin (cmd : Command) (b : Builtin)
  | jobShutdown

/-- A function is called on the job at position `i`. -/
def onJob (f : Job → Sh (Int × Job)) (i : ℕ) : Sh Unit := do
  let w ← Prog.get
  match w.jobs[i]? with
  | none => pure ()
  | some job =>
    let x ← f job
    Prog.modify (World.updateJob i fun _ => x.2)
    pure ()

def TableOperation.run : TableOperation → Sh Unit
  | jobReap => MiniShell.jobReap
  | jobCleanupDone => jobCleanup
  | jobContinue i => onJob MiniShell.jobContinue i
  | jobWaitForeground i => onJob MiniShell.jobWaitForeground i
  | builtin cmd b => do
    let _ ← dispatchBuiltin cmd b
  | jobShutdown => MiniShell.jobShutdown

theorem TableOperation.within (op : TableOperation) (hi : RunInv w) :
    Within (activeCount w.jobs) w (op.run w).state := by
  have job : ∀ (f : Job → Sh (Int × Job)) i, (∀ job, Idles (f job)) → (∀ job, Prog.wp (f job)
      (fun x _ => x.2.isActive = true → job.isActive = true) (fun _ => True) w) →
      Within (activeCount w.jobs) w (onJob f i w).state := by
    intro f i hidle hact
    refine within_get_bind ?_
    cases hget : w.jobs[i]? with
    | none => exact .refl le_rfl
    | some job => exact within_writeBack hget (hidle job) (hact job) le_rfl fun x w' _ hn' => .refl hn'
  cases op with
  | jobReap => exact (mends_jobReap w hi.accounted.settled le_rfl).1
  | jobCleanupDone => exact calm_jobCleanup w le_rfl
  | jobContinue i => exact job _ i (closed_jobContinue idles_closed.toClosed) fun job => wp_jobContinue_active job w
  | jobWaitForeground i =>
    exact job _ i (closed_jobWaitForeground idles_closed.toClosed) fun job => wp_jobWait_active job w
  | builtin cmd b => exact (calm_dispatchBuiltin cmd b).bind (fun _ => .pure _) w le_rfl
  | jobShutdown => exact (mends_jobShutdown w hi.accounted.settled le_rfl).1

/-- **The limit on the active jobs.**  `execute_command` refuses a command, and does nothing, exactly when the limit is
reached; when it returns the same error below the limit it has forked.  Otherwise it adds at most one active job, and
nothing else adds any.  So in a run no more jobs are ever active than the largest `max_job` so far allows, at every
system call, and as long as the limit is reached their number does not grow. -/
theorem active_jobs_limited :
    (∀ (w : World) (com : Command) (next : List Command),
      (w.LimitReached → executeCommand com next w = .done errJob w) ∧
      (¬ w.LimitReached → (∀ w', executeCommand com next w = .done errJob w' → Forked w w') ∧
        Within (activeCount w.jobs + 1) w (executeCommand com next w).state)) ∧
    (∀ (w : World) (b : Int), RunTo w b → ∀ op :
      TableOperation, Within (activeCount w.jobs) w (op.run w).state) ∧
    ∀ (w : World) (b : Int), RunTo w b → (activeCount w.jobs : Int) ≤ b ∧ ∀ step : Step,
      Within b.toNat w (step.run w).state ∧
      (w.LimitReached → Within (activeCount w.jobs) w (step.run w).state) := by
  refine ⟨fun w com next => ⟨fun h => executeCommand_limit h com next, fun h => ⟨fun w' hrun => ?_, ?_⟩⟩,
    fun w b hrun op => op.within hrun.inv.1, fun w b hrun => ?_⟩
  · rw [executeCommand_below h] at hrun
    exact execute_forks com next hrun
  · exact within_executeCommand com next (Nat.le_succ _) fun _ => Nat.lt_succ_self _
  · obtain ⟨hi, hactive, hmax⟩ := hrun.inv
    refine ⟨hactive, fun step => ⟨step.within hi (by omega) fun hlimit => ?_, fun hlimit => ?_⟩⟩
    · have hbelow : ¬ ((activeCount w.jobs : Int) ≥ w.ctx.config.maxJob) := hlimit
      omega
    · exact step.within hi le_rfl fun h => absurd hlimit h

end

/-- A shell that allows one job. -/
def limitedShell : World :=
  let w := freshShell []
  { w with ctx := { w.ctx with config := { configInit with maxJob := 1 } } }

/-- A shell that allows one job has started a pipeline in the background. -/
def limitedWorld : World := (backgroundPipeline.run limitedShell).state

/-- The next command is refused, and nothing that happens makes more than one job active. -/
theorem limitedWorld_refuses :
    executeCommand (wordCommand false [99]) [] limitedWorld = .done errJob limitedWorld ∧
      Within 1 limitedWorld (TableOperation.jobReap.run limitedWorld).state ∧
      ∀ step : Step, Within 1 limitedWorld (step.run limitedWorld).state := by
  have hstart : RunTo limitedShell 1 := .start ⟨rfl, rfl, rfl⟩ ⟨by decide, by decide, Or.inl rfl⟩
  have hrun : RunTo limitedWorld (max 1 limitedWorld.ctx.config.maxJob) :=
    hstart.step backgroundPipeline (by decide +kernel)
  have hactive : activeCount limitedWorld.jobs = 1 := by decide +kernel
  have hmax : limitedWorld.ctx.config.maxJob = 1 := by decide +kernel
  have hlimit : limitedWorld.LimitReached := by
    have hcount : jobCountActive limitedWorld.ctx.jobs = 1 := hactive
    unfold World.LimitReached
    rw [hcount, hmax]
    decide
  have hsteps := (active_jobs_limited.2.2 limitedWorld _ hrun).2
  have hops := active_jobs_limited.2.1 limitedWorld _ hrun .jobReap
  rw [hactive] at hops
  refine ⟨(active_jobs_limited.1 limitedWorld _ _).1 hlimit, hops, fun step => ?_⟩
  have hstep := (hsteps step).2 hlimit
  rw [hactive] at hstep
  exact hstep

end MiniShell
