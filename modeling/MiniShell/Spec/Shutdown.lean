import MiniShell.Lib.Pointwise
import MiniShell.Spec.Execute

/-!
# Shutting down

The phases of `job_shutdown`.  The first ones only look after the jobs; the last one waits for every entry that
is not done, so that when it returns all entries are done and no child is left.
-/

namespace MiniShell

open MiniShell.Lib

variable {w : World}

/-! ### The two ways to collect one process -/

/-- `process_try_reap`; it always returns. -/
theorem wp_processTryReap {R : World → Prop} (process : Process) (w : World) :
    Prog.wp (processTryReap process) (fun x w' => Watched (Call.Asking WNOHANG) w w' ∧
      KeepsEntry w'.kernel.pids process x.2) R w := by
  unfold processTryReap
  split
  · exact ⟨.refl w, keepsEntry_refl ..⟩
  refine Prog.wp_loop (fun _ w' => Watched (Call.Asking WNOHANG) w w') ?_ () w (.refl w)
  rintro - w₁ h₁
  rw [Prog.wp_bind]
  refine wp_ask ?_ fun hn => absurd hn (by decide)
  intro r w₂ ha hlt _
  have h₂ : Watched (Call.Asking WNOHANG) w w₂ := h₁.trans (ha.watched rfl fun _ => rfl)
  cases r with
  | nothing => exact ⟨h₂, keepsEntry_refl ..⟩
  | report pid status =>
    dsimp only
    split
    · exact ⟨h₂, ha.keepsEntry rfl⟩
    · exact ⟨h₂, keepsEntry_refl ..⟩
  | err e =>
    cases e with
    | EINTR => exact ⟨h₂, hlt rfl⟩
    | ECHILD => exact ⟨h₂, ha.keepsEntry_gone⟩
    | _ => exact ⟨h₂, keepsEntry_refl ..⟩

/-- `process_force_reap`: when it returns, the entry is done. -/
theorem wp_processForceReap (process : Process) (w : World) :
    Prog.wp (processForceReap process) (fun process' w' => Watched (Call.Asking noOpts) w w' ∧
      KeepsEntry w'.kernel.pids process process' ∧ (0 < process.pid → process'.status = .done))
      (LogExt (Event.Of (Call.Asking noOpts)) w) w := by
  unfold processForceReap
  split
  · rename_i hd
    exact ⟨.refl w, keepsEntry_refl .., fun _ => hd⟩
  refine Prog.wp_loop (fun _ w' => Watched (Call.Asking noOpts) w w') ?_ () w (.refl w)
  rintro - w₁ h₁
  rw [Prog.wp_bind]
  refine wp_ask ?_ fun _ w₂ h => h₁.log.trans (h.logExt rfl fun _ => rfl)
  intro r w₂ ha hlt hnh
  have h₂ : Watched (Call.Asking noOpts) w w₂ := h₁.trans (ha.watched rfl fun _ => rfl)
  rcases ha.known with rfl | rfl | ⟨rfl, -⟩ | ⟨pid, change, rfl, hpid, state, hrep⟩
  · exact ⟨h₂, hlt rfl⟩
  · cases hnh rfl
  · exact ⟨h₂, ha.keepsEntry_gone, fun _ => rfl⟩
  · dsimp only
    split
    · obtain ⟨t, rfl⟩ := report_noOpts hrep
      exact ⟨h₂, ha.keepsEntry rfl, fun _ => by simp [Change.status]⟩
    · rename_i hne
      exact ⟨h₂, keepsEntry_refl .., fun hpos => absurd (hpid hpos) hne⟩

/-! ### The phases that only look after the jobs -/

section Grace

variable {R : World → Prop}

/-- The calls before the `SIGKILL` loop: signals other than `SIGKILL`, and questions that do not wait. -/
def Call.Gentle : Call → Prop
  | .kill target sig _ => target ≤ 0 ∧ sig ≠ SIGKILL
  | .waitpid _ opts => opts = WNOHANG
  | .waited _ opts _ => opts = WNOHANG
  | .nanosleep => True
  | _ => False

theorem gentle_of_asking {c : Call} (h : c.Asking WNOHANG) : c.Gentle := by
  cases c <;> first | exact absurd h id | exact h

theorem gentle_of_toGroup {sig : Sig} (hsig : sig ≠ SIGKILL) {c : Call} (h : c.ToGroup sig) : c.Gentle := by
  cases c <;> first | exact absurd h id | exact ⟨h.1, h.2 ▸ hsig⟩

theorem tame_of_gentle {c : Call} (h : c.Gentle) : c.Tame := by
  cases c <;> first | exact absurd h id | exact h.1 | trivial

/-- `jobmanager_try_reap_all`. -/
theorem wp_jobmanagerTryReapAll (w : World) :
    Prog.wp jobmanagerTryReapAll (fun _ w' => Upkeep (Call.Asking WNOHANG) w w') R w := by
  have hjob : ∀ job w, Prog.wp (tryReapJob job) (fun x w' => Watched (Call.Asking WNOHANG) w w' ∧
      Keeps w'.kernel.pids job x.2) R w := by
    intro job w
    unfold tryReapJob
    rw [Prog.wp_bind]
    refine Prog.wp_mono (@wp_mapList_watched _ (fun _ => R) (fun _ _ _ _ h => h) _ _ _
      (fun live a (b : Bool × Process) => KeepsEntry live a b.2)
      (fun _ _ _ _ => keepsEntry_mono) wp_processTryReap job.processes w) ?_
        (fun _ h => h)
    rintro l w' ⟨hw, hr⟩
    exact ⟨hw, keeps_of_entries (List.forall₂_map_right_iff.mpr hr)⟩
  unfold jobmanagerTryReapAll
  rw [Prog.wp_get_bind, Prog.wp_bind]
  refine Prog.wp_mono (@wp_mapList_watched _ (fun _ => R) (fun _ _ _ _ h => h) _ _ _
    (fun live a (b : Bool × Job) => Keeps live a b.2)
    (fun _ _ _ _ hl h => Keeps.mono h hl) hjob w.jobs w) ?_ (fun _ h => h)
  rintro l w' ⟨hw, hr⟩
  exact hw.setJobs (List.forall₂_map_right_iff.mpr hr)

theorem quietCall_nanosleep :
    QuietCall (Call.Asking WNOHANG) (fun (_ : Choice) k => ((), k)) (fun _ => .nanosleep) :=
  ⟨fun _ _ => rfl, fun _ _ => rfl, fun _ => trivial⟩

/-- The rounds that give the jobs time to terminate. -/
theorem wp_tryReapRounds (n : ℕ) (w : World) :
    Prog.wp (tryReapRounds n) (fun _ w' => Upkeep (Call.Asking WNOHANG) w w') R w := by
  induction n generalizing w with
  | zero => exact Upkeep.refl w
  | succ n ih =>
    unfold tryReapRounds
    rw [Prog.wp_bind]
    refine Prog.wp_mono (wp_jobmanagerTryReapAll w) ?_ (fun _ h => h)
    intro all w₁ h₁
    split
    · exact h₁
    · rw [Prog.wp_bind]
      apply wp_syscall_quiet quietCall_nanosleep
      intro _ _ w₂ hq _ _ _
      have h₂ : Upkeep (Call.Asking WNOHANG) w w₂ := h₁.trans (hq.watched fun _ h => h).upkeep
      exact Prog.wp_mono (ih w₂) (fun _ w₃ h₃ => h₂.trans h₃) (fun _ h => h)

/-- `continue_stopped_job`. -/
theorem wp_continueStoppedJob (job : Job) (w : World) :
    Prog.wp (continueStoppedJob job) (fun job' w' => Watched (Call.ToGroup SIGCONT) w w' ∧
      Keeps w'.kernel.pids job job') R w := by
  have hk : ∀ live, Keeps live job (jobUpdateStatus { job with processes := resumeProcesses job.processes }) :=
    fun live => keeps_of_entries (keepsEntry_resume _)
  unfold continueStoppedJob
  split
  · dsimp only
    rw [Prog.wp_bind]
    exact wp_killGroup (by omega) fun _ w' h => ⟨h, hk _⟩
  · exact ⟨.refl w, hk _⟩

theorem wp_continueStoppedJobs (w : World) :
    Prog.wp continueStoppedJobs (fun _ w' => Upkeep (Call.ToGroup SIGCONT) w w') R w := by
  refine @wp_jobs _ (fun _ => R) (fun _ _ _ _ h => h) _ ?_ w
  intro job w
  split
  · exact wp_continueStoppedJob job w
  · exact ⟨.refl w, Keeps.refl ..⟩

/-- A signal to the groups of some of the jobs. -/
theorem wp_signalGroups {p : Job → Prop} [DecidablePred p] (hp : ∀ job, p job → 0 < job.pgid) (sig : Sig)
    (l : List Job) (w : World) :
    Prog.wp (Prog.forList (fun job => do
      if p job then
        let _ ← kill (-job.pgid) sig) l : Sh Unit) (fun _ w' => Watched (Call.ToGroup sig) w w') R w := by
  refine Prog.wp_forList (fun _ w' => Watched (Call.ToGroup sig) w w') ?_ l w (.refl w)
  intro job l w₁ h₁
  split
  · rename_i h
    have := hp job h
    rw [Prog.wp_bind]
    exact wp_killGroup (by omega) fun _ w₂ h₂ => h₁.trans h₂
  · exact h₁

theorem wp_terminateJobs (w : World) :
    Prog.wp terminateJobs (fun _ w' => Watched (Call.ToGroup SIGTERM) w w') R w :=
  wp_signalGroups (fun _ h => h.2) SIGTERM w.jobs w

theorem wp_killJobs (w : World) :
    Prog.wp killJobs (fun _ w' => Watched (Call.ToGroup SIGKILL) w w') R w :=
  wp_signalGroups (fun _ h => h) SIGKILL w.jobs w

/-- `job_shutdown` up to its `SIGKILL` loop. -/
def shutdownGrace : Sh Unit := do
  continueStoppedJobs
  terminateJobs
  tryReapRounds JOB_SHUTDOWN_RETRY_COUNT

/-- **The grace period**; it always ends. -/
theorem wp_shutdownGrace (w : World) :
    Prog.wp shutdownGrace (fun _ w' => Upkeep Call.Gentle w w') R w := by
  unfold shutdownGrace
  rw [Prog.wp_bind]
  refine Prog.wp_mono (wp_continueStoppedJobs w) ?_ (fun _ h => h)
  intro _ w₁ h₁
  rw [Prog.wp_bind]
  refine Prog.wp_mono (wp_terminateJobs w₁) ?_ (fun _ h => h)
  intro _ w₂ h₂
  have u₂ : Upkeep Call.Gentle w w₂ := (h₁.mono fun _ => gentle_of_toGroup (by decide)).trans
    (h₂.mono fun _ => gentle_of_toGroup (by decide)).upkeep
  exact Prog.wp_mono (wp_tryReapRounds _ w₂) (fun _ w₃ h₃ => u₂.trans (h₃.mono fun _ => gentle_of_asking))
    (fun _ h => h)

end Grace

/-! ### The last phase -/

/-- When every entry is done, no child is accounted for, so there is none. -/
theorem Accounted.all_done {pids : List Int} {jobs : List Job} (h : Accounted pids jobs)
    (hd : ∀ job ∈ jobs, ∀ process ∈ job.processes, process.status = .done) : pids = [] := by
  apply List.eq_nil_iff_forall_not_mem.mpr
  intro p hp
  obtain ⟨job, hj, -, process, hf, hs⟩ := (h.covered p hp).exists_open
  have hm : process ∈ job.processes.filter (·.pid == p) := by simp [hf]
  exact hs (hd job hj process (List.mem_filter.mp hm).1)

/-- The last loop of `job_shutdown` leaves only entries that are done. -/
theorem wp_forceReapJobs (w : World) :
    Prog.wp forceReapJobs (fun _ w' => Upkeep (Call.Asking noOpts) w w' ∧ ((∀ job ∈ w.jobs, job.Tidy) →
      ∀ job ∈ w'.jobs, ∀ process ∈ job.processes, process.status = .done))
      (LogExt (Event.Of (Call.Asking noOpts)) w) w := by
  let Rel (live : List Int) (a b : Process) : Prop := KeepsEntry live a b ∧ (0 < a.pid → b.status = .done)
  let Rel' (live : List Int) (job job' : Job) : Prop :=
    Keeps live job job' ∧ (job.Tidy → ∀ process ∈ job'.processes, process.status = .done)
  have hjob : ∀ job w, Prog.wp (forceReapJob job) (fun job' w' => Watched (Call.Asking noOpts) w w' ∧
      Rel' w'.kernel.pids job job') (LogExt (Event.Of (Call.Asking noOpts)) w) w := by
    intro job w
    unfold forceReapJob
    rw [Prog.wp_bind]
    refine Prog.wp_mono (@wp_mapList_watched _ (LogExt (Event.Of (Call.Asking noOpts)))
      (fun _ _ _ hw h => hw.log.trans h) _ _ _ Rel (fun _ _ _ _ hl h => ⟨keepsEntry_mono hl h.1, h.2⟩)
      wp_processForceReap job.processes w)
        (fun l w' ⟨hw, hr⟩ => ⟨hw, keeps_of_entries (hr.imp fun _ _ h => h.1), ?_⟩)
      (fun _ h => h)
    intro ht process hm
    rw [jobUpdateStatus_processes] at hm
    obtain ⟨a, ha, hrel⟩ := forall₂_mem_right hr hm
    exact hrel.2 (ht.pos a ha)
  unfold forceReapJobs
  rw [Prog.wp_get_bind, Prog.wp_bind]
  refine Prog.wp_mono (@wp_mapList_watched _ (LogExt (Event.Of (Call.Asking noOpts)))
      (fun _ _ _ hw h => hw.log.trans h) _ _ _ Rel'
        (fun _ _ _ _ hl h => ⟨Keeps.mono h.1 hl, h.2⟩) hjob w.jobs w)
    (fun l w' ⟨hw, hr⟩ => ⟨hw.setJobs (hr.imp fun _ _ h => h.1), ?_⟩) (fun _ h => h)
  intro ht job hm
  obtain ⟨a, ha, hrel⟩ := forall₂_mem_right hr hm
  exact hrel.2 (ht a ha)

/-! ### `job_shutdown` -/

/-- What is left when `job_shutdown` has returned. -/
structure ShutDown (w w' : World) : Prop where
  log : LogExt (Event.Of Call.Tame) w w'
  jobs : w'.jobs = []
  children : Accounted w.kernel.pids w.jobs → w'.kernel.pids = []

/-- `job_shutdown` is its grace period, and then the `SIGKILL` loop and the last loop. -/
theorem jobShutdown_eq (w : World) (hne : w.jobs ≠ []) : jobShutdown w = (do
    shutdownGrace
    killJobs
    forceReapJobs
    Prog.modify (World.updateManager jobDestroy) : Sh Unit) w := by
  unfold jobShutdown shutdownGrace
  simp only [bind_assoc]
  rw [Prog.bind_apply]
  simp only [Prog.get, if_neg hne]

/-- **`job_shutdown`**: when it returns, no child that was accounted for is left. -/
theorem wp_jobShutdown (w : World) :
    Prog.wp jobShutdown (fun _ w' => ShutDown w w') (LogExt (Event.Of Call.Tame) w) w := by
  by_cases hnil : w.jobs = []
  · unfold jobShutdown
    rw [Prog.wp_get_bind, if_pos hnil]
    exact ⟨⟨[], by simp [World.updateManager], by simp⟩, hnil, fun ha => ha.all_done (by simp [hnil])⟩
  unfold Prog.wp
  rw [jobShutdown_eq w hnil]
  change Prog.wp _ _ _ w
  rw [Prog.wp_bind]
  refine Prog.wp_mono (wp_shutdownGrace w) ?_ (fun _ h => h)
  intro _ w₁ h₁
  have u₁ : Upkeep Call.Tame w w₁ := h₁.mono fun _ => tame_of_gentle
  rw [Prog.wp_bind]
  refine Prog.wp_mono (wp_killJobs w₁) ?_ (fun _ h => h)
  intro _ w₂ h₂
  have u₂ : Upkeep Call.Tame w w₂ := u₁.trans (h₂.mono fun _ => tame_of_toGroup).upkeep
  rw [Prog.wp_bind]
  refine Prog.wp_mono (wp_forceReapJobs w₂) ?_
    (fun _ h => u₂.log.trans (h.mono fun _ => Event.Of.mono fun _ => tame_of_asking))
  intro _ w₃ h₃
  obtain ⟨h₃, hd⟩ := h₃
  have u₃ : Upkeep Call.Tame w w₃ := u₂.trans (h₃.mono fun _ => tame_of_asking)
  exact ⟨u₃.log, rfl, fun ha => (u₃.accounted ha).all_done (hd (u₂.accounted ha).tidy)⟩

end MiniShell
