import MiniShell.Spec.Closed
import MiniShell.Spec.Run

/-!
# The number of active jobs

`Within n w w'` — from `w` to `w'` at most `n` jobs are active, at every system call and in the end.  A program is
`Calm n` when it keeps this as long as it holds, and `Spares n` when it does if there is room for one more: the launch
of a command is of this kind, since it adds one job, and everything else is calm.  What goes through the whole table
needs it to be settled, and `Mends n`.
-/

namespace MiniShell

open MiniShell.Lib MiniShellError

/-- The number of jobs that are running or stopped. -/
def activeCount (jobs : List Job) : ℕ := jobs.countP Job.isActive

/-- At most `n` jobs are active at a call. -/
def Event.AtMost (n : ℕ) : Event → Prop
  | .env _ => True
  | .call _ _ js => activeCount js ≤ n

/-- Between `w` and `w'` the table was left alone. -/
structure Idle (w w' : World) : Prop where
  ctx : w'.ctx = w.ctx
  log : LogExt (Event.At w.jobs) w w'

/-- Between `w` and `w'` at most `n` jobs were active, and so in `w'`. -/
structure Within (n : ℕ) (w w' : World) : Prop where
  log : LogExt (Event.AtMost n) w w'
  now : activeCount w'.jobs ≤ n

section

variable {n : ℕ} {w w' w₁ w₂ w₃ : World} {α β : Type}

theorem Idle.refl (w : World) : Idle w w := ⟨rfl, .refl w⟩

theorem Idle.jobs (h : Idle w w') : w'.jobs = w.jobs := by simp [World.jobs, h.ctx]

theorem Idle.trans (h : Idle w₁ w₂) (h' : Idle w₂ w₃) : Idle w₁ w₃ :=
  ⟨h'.ctx.trans h.ctx, h.log.trans (h.jobs ▸ h'.log)⟩

theorem Within.refl (h : activeCount w.jobs ≤ n) : Within n w w := ⟨.refl w, h⟩

theorem Within.trans (h : Within n w₁ w₂) (h' : Within n w₂ w₃) : Within n w₁ w₃ :=
  ⟨h.log.trans h'.log, h'.now⟩

theorem Idle.within (h : Idle w w') (hn : activeCount w.jobs ≤ n) : Within n w w' := by
  refine ⟨h.log.mono fun e he => ?_, by rw [h.jobs]; exact hn⟩
  cases e with
  | env e => trivial
  | call c k js =>
    obtain rfl : js = w.jobs := he
    exact hn

/-! ### Programs -/

/-- `m` leaves the table alone. -/
def Idles (m : Sh α) : Prop := ∀ w, Idle w (m w).state

/-- `m` keeps to `n` active jobs. -/
def Calm (n : ℕ) (m : Sh α) : Prop := ∀ w, activeCount w.jobs ≤ n → Within n w (m w).state

/-- `m` keeps to `n` active jobs if there is room for one more. -/
def Spares (n : ℕ) (m : Sh α) : Prop := ∀ w, activeCount w.jobs < n → Within n w (m w).state

theorem Idles.calm {m : Sh α} (h : Idles m) : Calm n m := fun w hn => (h w).within hn

theorem Calm.spares {m : Sh α} (h : Calm n m) : Spares n m := fun w hn => h w hn.le

/-- **Composition**, when it matters what the first program has returned. -/
theorem within_bind {m : Sh α} {f : α → Sh β} (hm : Within n w (m w).state)
    (hf : ∀ a w', m w = .done a w' → activeCount w'.jobs ≤ n → Within n w' (f a w').state) :
    Within n w ((m >>= f) w).state := by
  rw [Prog.bind_apply]
  cases hw : m w with
  | done a w' =>
    rw [hw] at hm
    exact hm.trans (hf a w' hw hm.now)
  | blocked w' => rwa [hw] at hm

theorem within_get_bind {f : World → Sh α} (h : Within n w (f w w).state) :
    Within n w ((Prog.get >>= f) w).state := h

theorem within_ite {p : Prop} [Decidable p] {m m' : Sh α} (hm : p → Within n w (m w).state)
    (hm' : ¬p → Within n w (m' w).state) : Within n w ((if p then m else m') w).state := by
  split
  · exact hm (by assumption)
  · exact hm' (by assumption)

theorem Calm.bind {m : Sh α} {f : α → Sh β} (hm : Calm n m) (hf : ∀ a, Calm n (f a)) :
    Calm n (m >>= f) := fun w hn =>
  within_bind (hm w hn) fun a w' _ => hf a w'

theorem Spares.bind {m : Sh α} {f : α → Sh β} (hm : Spares n m) (hf : ∀ a, Calm n (f a)) :
    Spares n (m >>= f) :=
  fun w hn => within_bind (hm w hn) fun a w' _ => hf a w'

theorem Idles.bind {m : Sh α} {f : α → Sh β} (hm : Idles m) (hf : ∀ a, Idles (f a)) :
    Idles (m >>= f) := by
  intro w
  have hmid := hm w
  rw [Prog.bind_apply]
  cases hw : m w with
  | done a w' =>
    rw [hw] at hmid
    exact hmid.trans (hf a w')
  | blocked w' => rwa [hw] at hmid

theorem Idles.done {m : Sh α} {a : α} (hm : Idles m) (h : m w = .done a w') : Idle w w' := by
  have hstate := hm w
  rwa [h] at hstate

theorem Idles.bind_spares {m : Sh α} {f : α → Sh β} (hm : Idles m) (hf : ∀ a, Spares n (f a)) :
    Spares n (m >>= f) :=
  fun w hn => within_bind ((hm w).within hn.le) fun a w' hw _ => hf a w' (by rw [(hm.done hw).jobs]; exact hn)

theorem Calm.get {f : World → Sh α} (hf : ∀ w, Calm n (f w)) : Calm n (Prog.get >>= f) := fun w hn => hf w w hn

theorem Calm.ite {p : Prop} [Decidable p] {m m' : Sh α} (hm : p → Calm n m) (hm' : ¬p → Calm n m') :
    Calm n (if p then m else m') := by
  split
  · exact hm (by assumption)
  · exact hm' (by assumption)

theorem Calm.pure (a : α) : Calm n (Pure.pure a : Sh α) := fun _ hn => .refl hn

/-- A change to the variables that makes no job active. -/
theorem calm_modify {f : World → World} (hlog : ∀ w, (f w).log = w.log)
    (hjobs : ∀ w, activeCount (f w).jobs ≤ activeCount w.jobs) : Calm n (Prog.modify f) := fun w hn =>
  ⟨⟨[], (hlog w).trans (List.append_nil _).symm, by simp⟩, (hjobs w).trans hn⟩

/-! ### System calls -/

theorem idle_drift (used rest : List Item) (w : World) : Idle w (w.drift used rest) := by
  refine ⟨rfl, _, rfl, fun e he => ?_⟩
  obtain ⟨x, -, rfl⟩ := List.mem_map.mp he
  trivial

theorem idle_record (c : Call) (k : Kernel) (w : World) : Idle w { w.record c with kernel := k } :=
  ⟨rfl, [.call c w.kernel w.jobs], rfl, fun e he => by rw [List.mem_singleton.mp he]; rfl⟩

theorem idles_syscall (f : Choice → Kernel → α × Kernel) (call : α → Call) :
    Idles (syscall f call) := fun w =>
  Prog.wp_state (wp_syscall fun used _ rest _ => (idle_drift used rest w).trans (idle_record ..))

theorem idles_waitpid (target : Int) (opts : WaitOpts) : Idles (waitpid target opts) := by
  intro w
  have asked : ∀ used rest, Idle w ((w.record (.waitpid target opts)).drift used rest) := fun used rest =>
    (idle_record _ w.kernel w).trans (idle_drift used rest _)
  cases ho : opts.nohang with
  | false =>
    exact Prog.wp_state (wp_waitpid ho (fun used c rest r k _ _ => (asked used rest).trans (idle_record ..))
      fun _ =>
      (asked _ _).trans (idle_record _ _ ((w.record (.waitpid target opts)).drift w.script [])))
  | true =>
    exact Prog.wp_state (wp_waitpid_nohang ho fun used c rest r k _ _ => (asked used rest).trans (idle_record ..))

/-- **Every system call leaves the table alone.** -/
theorem idles_closed : ClosedTty fun _ m => Idles m where
  pure := fun _ w => .refl w
  block := fun w => .refl w
  bind := Idles.bind
  get_bind := fun hf w => hf w w
  pipe := idles_syscall _ _
  close := fun fd w => idle_record (.close fd) (w.kernel.close fd) w
  setCloexec := fun _ => idles_syscall _ _
  openFile := fun _ _ => idles_syscall _ _
  dupfd := fun _ => idles_syscall _ _
  dup2 := fun _ _ => idles_syscall _ _
  fflush := idles_syscall _ _
  fork := idles_syscall _ _
  setpgid := fun _ _ => idles_syscall _ _
  kill := fun _ _ => idles_syscall _ _
  waitpid := idles_waitpid
  malloc := fun _ => idles_syscall _ _
  nanosleep := idles_syscall _ _
  writeGate := fun _ => idles_syscall _ _
  tcgetattr := idles_syscall _ _
  service := fun _ => idles_syscall _ _
  tcsetpgrp := fun _ => idles_syscall _ _
  tcsetattr := fun _ => idles_syscall _ _

/-! ### Changes to the table -/

theorem activeCount_modify_le {jobs : List Job} {i : ℕ} {f : Job → Job}
    (h : ∀ job, jobs[i]? = some job → (f job).isActive = true → job.isActive = true) :
    activeCount (jobs.modify i f) ≤ activeCount jobs := by
  unfold activeCount
  induction jobs generalizing i with
  | nil => simp
  | cons job jobs ih =>
    cases i with
    | zero =>
      have hjob := h job rfl
      rw [List.modify_zero_cons, List.countP_cons, List.countP_cons]
      split
      · rw [if_pos (hjob (by assumption))]
      · omega
    | succ i =>
      rw [List.modify_succ_cons, List.countP_cons, List.countP_cons]
      have := @ih i fun job hget => h job (by simpa using hget)
      omega

/-- Changes to jobs that make none of them active. -/
theorem activeCount_forall₂ {jobs jobs' : List Job}
    (h : List.Forall₂ (fun job job' => job'.isActive = true → job.isActive = true) jobs jobs') :
    activeCount jobs' ≤ activeCount jobs := by
  unfold activeCount
  induction h with
  | nil => exact le_rfl
  | @cons job job' jobs jobs' hr _ ih =>
    rw [List.countP_cons, List.countP_cons]
    split
    · rw [if_pos (hr (by assumption))]
      omega
    · omega

/-- The job at `i` is replaced by one that is active only if it was. -/
theorem calm_updateJob (i : ℕ) {f : Job → Job} (hf : ∀ job, (f job).isActive = job.isActive) :
    Calm n (Prog.modify (World.updateJob i f)) :=
  calm_modify (fun _ => rfl) fun _ => activeCount_modify_le fun job _ h => hf job ▸ h

theorem calm_jobRemove (pgid : Int) : Calm n (jobRemoveM pgid) :=
  calm_modify (fun _ => rfl) fun w => by
    have hsub : (w.updateManager (jobRemove pgid)).jobs.Sublist w.jobs := by
      unfold World.jobs World.updateManager jobRemove
      dsimp only
      split
      · exact .refl _
      · exact List.eraseP_sublist
    exact hsub.countP_le

theorem calm_jobCleanup : Calm n jobCleanup := calm_modify (fun _ => rfl) fun _ => List.filter_sublist.countP_le

theorem calm_stopRunning : Calm n stopRunning := calm_modify (fun _ => rfl) fun _ => le_rfl

theorem calm_processAdd (i : ℕ) (pid : Int) : Calm n (processAdd i pid) :=
  .ite (fun _ => .pure _) fun _ => (idles_closed.malloc _).calm.bind fun r => by
    cases r with
    | err e => exact .pure _
    | ok => exact Calm.bind (calm_updateJob i fun _ => rfl) fun _ => .pure _

theorem calm_processAddAll (pids : List Int) : Calm n (processAddAll pids) := by
  induction pids with
  | nil => exact .pure _
  | cons pid pids ih => exact (calm_processAdd _ _).bind fun _ => .ite (fun _ => .pure _) fun _ => ih

/-- **A new job is one more.** -/
theorem spares_jobAdd (pgid : Int) (command : Option Bytes) : Spares n (jobAdd pgid command) := by
  unfold jobAdd
  cases command with
  | none => exact (Calm.pure _).spares
  | some command =>
    dsimp only
    split
    · exact (Calm.pure _).spares
    · apply (idles_closed.malloc _).bind_spares
      intro r
      cases r with
      | err e => exact (Calm.pure _).spares
      | ok =>
        intro w hn
        refine ⟨⟨[], (List.append_nil _).symm, by simp⟩, ?_⟩
        show activeCount (Job.new w.ctx.jobs.nextid pgid command :: w.jobs) ≤ n
        exact le_trans (List.countP_cons_of_pos rfl).le hn

/-! ### Jobs that are continued and waited for -/

/-- If the job is done, all its entries are, so it can no longer become active. -/
def Job.Settled (job : Job) : Prop := job.status = .done → ∀ process ∈ job.processes, process.status = .done

def Settled (jobs : List Job) : Prop := ∀ job ∈ jobs, job.Settled

theorem isActive_iff {job : Job} : job.isActive = true ↔ job.status ≠ .done := by
  unfold Job.isActive
  cases job.status <;> decide

theorem active_of_status {job : Job} (h : job.status = .running ∨ job.status = .stopped) :
    job.isActive = true := by
  rcases h with h | h <;> simp [Job.isActive, h]

/-- A job is waited for while it is running. -/
theorem Pends.active {job job' : Job} {as : List WaitRes} (h : Pends job as job') :
    job' = job ∨ job.isActive = true := by
  induction h with
  | start => exact Or.inl rfl
  | interrupted _ _ ih => exact ih
  | stored _ hr _ ih =>
    rcases ih with rfl | ih
    · exact Or.inr (active_of_status (Or.inl hr))
    · exact Or.inr ih

/-- **`job_wait_foreground` makes no job active.** -/
theorem wp_jobWait_active (job : Job) (w : World) :
    Prog.wp (jobWaitForeground job) (fun x _ => x.2.isActive = true → job.isActive = true) (fun _ => True) w := by
  by_cases hpgid : 0 < job.pgid
  · refine wp_jobWaitForeground hpgid ?_ fun _ _ _ _ _ _ _ _ => trivial
    intro as r job' w' hw _ h
    have hp : ∃ as, Pends job as job' := by
      cases hw with
      | settled h _ => exact ⟨_, h⟩
      | failed h _ => exact ⟨_, h⟩
      | stray h _ _ => exact ⟨_, h⟩
    obtain ⟨as, hp⟩ := hp
    rcases hp.active with rfl | hact
    · exact h
    · exact hact
  · unfold jobWaitForeground jobWaitForegroundWith
    rw [if_pos (by omega)]
    exact fun h => h

/-- **`job_continue` makes no job active**: it only does something with a stopped one. -/
theorem wp_jobContinue_active (job : Job) (w : World) :
    Prog.wp (jobContinue job) (fun x _ => x.2.isActive = true → job.isActive = true) (fun _ => True) w := by
  unfold jobContinue jobContinueWith
  split
  · exact fun h => h
  · split
    · exact fun h => h
    · rename_i hstopped
      have hact : job.isActive = true := active_of_status (Or.inr (not_not.mp hstopped))
      rw [Prog.wp_bind]
      refine Prog.wp_mono (Q := fun _ _ => True) (R := fun _ => True) ?_ (fun r w' _ => ?_) fun _ _ => trivial
      · unfold Prog.wp
        split <;> trivial
      · split <;> exact fun _ => hact

/-- **A job of the table is worked on and written back.** -/
theorem within_writeBack {m : Sh (Int × Job)} {k : Int × Job → Sh β} {i : ℕ} {job : Job}
    (hi : w.jobs[i]? = some job) (hm : Idles m)
    (hact : Prog.wp m (fun x _ => x.2.isActive = true → job.isActive = true) (fun _ => True) w)
    (hn : activeCount w.jobs ≤ n) (hk : ∀ x w', w'.jobs[i]? = some x.2 → activeCount w'.jobs ≤ n →
      Within n w' (k x w').state) :
    Within n w ((m >>= fun x => Prog.modify (World.updateJob i fun _ => x.2) >>= fun _ => k x) w).state := by
  refine within_bind ((hm w).within hn) fun x w₁ hx hn₁ => ?_
  have hidle := hm.done hx
  have hi₁ : w₁.jobs[i]? = some job := by rw [hidle.jobs, hi]
  have hn₂ : activeCount (w₁.updateJob i fun _ => x.2).jobs ≤ n := by
    refine (activeCount_modify_le fun job' hget h => ?_).trans hn₁
    rw [Option.some.inj (hget.symm.trans hi₁)]
    exact Prog.wp_done hact hx h
  have hkeep : Within n w₁ (w₁.updateJob i fun _ => x.2) :=
    ⟨⟨[], (List.append_nil _).symm, by simp⟩, hn₂⟩
  exact hkeep.trans (hk x _ (updateJob_get hi₁ fun _ => x.2) hn₂)

/-! ### The launch of a command -/

theorem calm_saveTerminalModes (i : ℕ) (job : Job) : Calm n (saveTerminalModes i job) :=
  (closed_terminalGetModes idles_closed.toClosed _).calm.bind fun _ =>
    .ite (fun _ => calm_updateJob i fun _ => rfl) fun _ => .pure _

theorem calm_terminalRestore : Calm n terminalRestore := (closed_terminalRestore idles_closed).calm

theorem calm_finishRestored (job : Job) (restored : Int) : Calm n (finishRestored job restored) :=
  .ite (fun _ => calm_stopRunning.bind fun _ => .pure _) fun _ => .ite (fun _ => .pure _) fun _ =>
    .ite (fun _ => .pure _) fun _ => (calm_jobRemove _).bind fun _ => .pure _

theorem calm_finishForegroundJob (i : ℕ) (terminalActive : Bool) :
    Calm n (finishForegroundJob i terminalActive) := by
  refine .get fun w => ?_
  split
  · exact .pure _
  · rename_i job _
    have rest : Calm n (do
        let restored ← if terminalActive then terminalRestore else pure 0
        finishRestored job restored) :=
      .ite (fun _ => calm_terminalRestore.bind fun _ => calm_finishRestored _ _) fun _ =>
        (Calm.pure 0).bind fun _ => calm_finishRestored _ _
    exact .ite (fun _ => (calm_saveTerminalModes _ _).bind fun _ => rest) fun _ => rest

/-- The terminal is taken back when it is in use. -/
theorem calm_restoreIf {m : Sh α} (hm : Calm n m) (p : Prop) [Decidable p] : Calm n (do
    if p then
      let _ ← terminalRestore
    m) :=
  .ite (fun _ => calm_terminalRestore.bind fun _ => hm) fun _ => hm

theorem calm_close (fd : ℕ) : Calm n (close fd) := (idles_closed.close fd).calm

theorem calm_rollbackSingle (pid : Int) : Calm n (rollbackSingle pid) :=
  (closed_rollbackSingle idles_closed.toClosed pid).calm

theorem calm_rollbackPipeline (pgid : Int) (pids : List Int) : Calm n (rollbackPipeline pgid pids) :=
  (closed_rollbackPipeline idles_closed.toClosed pgid pids).calm

theorem calm_releaseSingle (com : Command) (gate1 : ℕ) (pid : Int) (terminalActive : Bool) :
    Calm n (releaseSingle com gate1 pid terminalActive) :=
  (closed_startupGateRelease idles_closed.toClosed _ _).calm.bind fun _ => .ite
    (fun _ => (calm_close _).bind fun _ => (calm_rollbackSingle _).bind fun _ => (calm_jobRemove _).bind fun _ =>
      calm_restoreIf (.pure _) _)
    fun _ => (calm_close _).bind fun _ => .pure _

/-- The terminal is given to the new job. -/
theorem calm_handOver {m : Int → Sh α} (hm : ∀ r, Calm n (m r)) (p : Prop) [Decidable p] (pgid : Int) :
    Calm n (do
    let r ← if p then terminalSetForeground pgid else pure 0
    m r) :=
  .ite (fun _ => (closed_terminalSetForeground idles_closed pgid).calm.bind hm) fun _ => (Calm.pure 0).bind hm

theorem spares_launchSingle (com : Command) : Spares n (launchSingle com) := by
  apply (closed_startupGateCreate idles_closed.toClosed).bind_spares
  intro gate
  cases gate with
  | none => exact (Calm.pure _).spares
  | some gate =>
    apply Idles.bind_spares (m := terminalIsInitialized) (fun w => .refl w)
    intro terminalActive
    apply idles_closed.fork.bind_spares
    intro pid
    split
    · exact ((calm_close _).bind fun _ => (calm_close _).bind fun _ => .pure _).spares
    · refine (idles_closed.close _).bind_spares fun _ =>
        (closed_setpgidParent idles_closed.toClosed _ _).bind_spares ?_
      intro r
      split
      · exact ((calm_close _).bind fun _ => (calm_rollbackSingle _).bind fun _ => .pure _).spares
      · refine (spares_jobAdd _ _).bind fun job => .ite (fun _ => ?_) fun _ => ?_
        · exact (calm_close _).bind fun _ => (calm_rollbackSingle _).bind fun _ => .pure _
        · refine (calm_processAdd _ _).bind fun r => .ite (fun _ => ?_) fun _ => ?_
          · exact (calm_close _).bind fun _ => (calm_rollbackSingle _).bind fun _ =>
              (calm_jobRemove _).bind fun _ =>
              .pure _
          · refine calm_handOver (fun r => .ite ?_ fun _ => calm_releaseSingle _ _ _ _) _ _
            intro _
            exact (calm_close _).bind fun _ => (calm_rollbackSingle _).bind fun _ =>
              (calm_jobRemove _).bind fun _ =>
              calm_terminalRestore.bind fun _ => .pure _

theorem calm_releasePipeline (com : Command) (gate1 : ℕ) (l : Launch) (terminalActive : Bool) :
    Calm n (releasePipeline com gate1 l terminalActive) :=
  (closed_startupGateRelease idles_closed.toClosed _ _).calm.bind fun _ => .ite
    (fun _ => (calm_close _).bind fun _ => (calm_rollbackPipeline _ _).bind
      fun _ => (calm_jobRemove _).bind fun _ =>
      calm_restoreIf (.pure _) _)
    fun _ => (calm_close _).bind fun _ => .pure _

theorem spares_registerPipeline (com : Command) (terminalActive : Bool) (gate0 gate1 : ℕ) (l : Launch) :
    Spares n (registerPipeline com terminalActive gate0 gate1 l) := by
  refine (closed_closeIf idles_closed.toClosed _).bind_spares fun _ => (idles_closed.close _).bind_spares fun _ =>
    (spares_jobAdd _ _).bind fun job => .ite (fun _ => ?_) fun _ => ?_
  · exact (calm_close _).bind fun _ => (calm_rollbackPipeline _ _).bind fun _ => .pure _
  · refine (calm_processAddAll _).bind fun r => .ite (fun _ => ?_) fun _ => ?_
    · exact (calm_close _).bind fun _ => (calm_rollbackPipeline _ _).bind fun _ => (calm_jobRemove _).bind fun _ =>
        .pure _
    · refine calm_handOver (fun r => .ite ?_ fun _ => calm_releasePipeline _ _ _ _) _ _
      intro _
      exact (calm_close _).bind fun _ => (calm_rollbackPipeline _ _).bind fun _ => (calm_jobRemove _).bind fun _ =>
        calm_terminalRestore.bind fun _ => .pure _

theorem spares_launchPipeline (com : Command) (next : List Command) : Spares n (launchPipeline com next) := by
  apply (closed_startupGateCreate idles_closed.toClosed).bind_spares
  intro gate
  cases gate with
  | none => exact (Calm.pure _).spares
  | some gate =>
    apply Idles.bind_spares (m := terminalIsInitialized) (fun w => .refl w)
    intro terminalActive
    apply (closed_launchLoop idles_closed.toClosed _ _ _ _).bind_spares
    intro r
    cases r with
    | error e => exact (Calm.pure _).spares
    | ok l => exact spares_registerPipeline _ _ _ _ _

/-! ### The wait of a command -/

theorem calm_waitSingle (com : Command) (pid : Int) (terminalActive : Bool) :
    Calm n (waitSingle com pid terminalActive) := by
  refine .ite (fun _ => .pure _) fun _ w hn => within_get_bind ?_
  cases hi : w.jobs[0]? with
  | none => exact .refl hn
  | some job =>
    refine within_writeBack hi (closed_jobWaitForeground idles_closed.toClosed job) (wp_jobWait_active job w) hn ?_
    refine fun x w' _ hn' => Calm.ite ?_ (fun _ => calm_finishForegroundJob _ _) w' hn'
    intro _
    exact (calm_rollbackSingle _).bind fun _ => calm_restoreIf ((calm_jobRemove _).bind fun _ => .pure _) _

theorem calm_waitPipeline (com : Command) (l : Launch) (terminalActive : Bool) :
    Calm n (waitPipeline com l terminalActive) := by
  refine .ite (fun _ => .pure _) fun _ w hn => within_get_bind ?_
  cases hi : w.jobs[0]? with
  | none => exact .refl hn
  | some job =>
    refine within_writeBack hi (closed_jobWaitForeground idles_closed.toClosed job) (wp_jobWait_active job w) hn ?_
    refine fun x w' _ hn' => Calm.ite ?_ (fun _ => calm_finishForegroundJob _ _) w' hn'
    intro _
    exact (calm_rollbackPipeline _ _).bind fun _ => calm_restoreIf ((calm_jobRemove _).bind fun _ => .pure _) _

/-- **The execution of a command adds at most one active job.** -/
theorem spares_execute (com : Command) (next : List Command) :
    Spares n (if next ≠ [] then executePipeline com next else executeSingle com) := by
  split
  · apply (spares_launchPipeline com next).bind
    intro r
    cases r with
    | error e => exact .pure _
    | ok x => exact calm_waitPipeline _ _ _
  · apply (spares_launchSingle com).bind
    intro r
    cases r with
    | error e => exact .pure _
    | ok x => exact calm_waitSingle _ _ _

/-! ### The builtins -/

/-- The table is the same when the first program has run. -/
theorem Idles.within_then {m : Sh α} {f : α → Sh β} (hm : Idles m) (hn : activeCount w.jobs ≤ n)
    (hf : ∀ a w', m w = .done a w' → w'.jobs = w.jobs → Within n w' (f a w').state) :
    Within n w ((m >>= f) w).state :=
  within_bind ((hm w).within hn) fun a w' hw _ => hf a w' hw (hm.done hw).jobs

theorem calm_fgPrepare : Calm n fgPrepare := fun w hn => within_get_bind <| by
  cases hf : findJob Job.isActive w.jobs with
  | none => exact .refl hn
  | some x =>
    obtain ⟨i, job⟩ := x
    have hi := (findJob_spec hf).1
    have undo : ∀ e : Int, Calm n (do
        let _ ← terminalRestore
        pure (.error e) : Sh (Except Int (ℕ × Job))) := fun e => calm_terminalRestore.bind fun _ => .pure _
    have modes : Idles (fgSetModes job) :=
      idles_closed.ite (fun _ => closed_terminalSetModes idles_closed _) fun _ =>
      idles_closed.pure _
    have continued : Idles (fgContinue job) :=
      idles_closed.ite (fun _ => closed_jobContinue idles_closed.toClosed _) fun _ => idles_closed.pure _
    have hact : ∀ w, Prog.wp (fgContinue job) (fun x _ => x.2.isActive = true → job.isActive = true)
        (fun _ => True) w := by
      intro w
      unfold fgContinue
      split
      · exact wp_jobContinue_active job w
      · exact fun h => h
    apply (closed_terminalSetForeground idles_closed job.pgid).within_then hn
    intro r w₁ _ h₁
    split
    · exact .refl (h₁ ▸ hn)
    · apply modes.within_then (h₁ ▸ hn)
      intro r w₂ _ h₂
      have hn₂ : activeCount w₂.jobs ≤ n := by rw [h₂, h₁]; exact hn
      split
      · exact undo _ w₂ hn₂
      · apply continued.within_then hn₂
        intro x w₃ hx h₃
        dsimp only
        split
        · exact undo _ w₃ (h₃ ▸ hn₂)
        · refine ⟨⟨[], (List.append_nil _).symm, by simp⟩, ?_⟩
          refine (activeCount_modify_le fun job' hget h => ?_).trans (h₃ ▸ hn₂)
          have hjob : w₃.jobs[i]? = some job := by rw [h₃, h₂, h₁]; exact hi
          rw [Option.some.inj (hget.symm.trans hjob)]
          exact Prog.wp_done (hact w₂) hx h

theorem calm_fgFinish (i : ℕ) (job : Job) : Calm n (fgFinish i job) :=
  .ite (fun _ => (calm_saveTerminalModes _ _).bind fun _ => calm_terminalRestore.bind
    fun _ => calm_finishRestored _ _)
    fun _ => calm_terminalRestore.bind fun _ => calm_finishRestored _ _

/-- **`fg` makes no job active.** -/
theorem calm_builtinFg : Calm n builtinFg := fun w hn => within_bind (calm_fgPrepare w hn) fun r w₁ hr hn₁ => by
  cases r with
  | error e => exact .refl hn₁
  | ok x =>
    obtain ⟨i, job⟩ := x
    have hi : w₁.jobs[i]? = some job := (Prog.wp_done (wp_fgPrepare (R := fun _ => True) w) hr).2.1
    refine within_writeBack hi (closed_jobWaitForeground idles_closed.toClosed job)
      (wp_jobWait_active job w₁) hn₁ ?_
    exact fun x w₂ _ hn₂ => Calm.ite (fun _ => calm_terminalRestore.bind fun _ => .pure _)
      (fun _ => calm_fgFinish _ _) w₂ hn₂

/-- **`bg` makes no job active.** -/
theorem calm_builtinBg : Calm n builtinBg := fun w hn => within_get_bind <| by
  cases hf : findJob Job.isStopped w.jobs with
  | none => exact .refl hn
  | some x =>
    obtain ⟨i, job⟩ := x
    refine within_writeBack (findJob_spec hf).1 (closed_jobContinue idles_closed.toClosed job)
      (wp_jobContinue_active job w) hn ?_
    exact fun x w₂ _ hn₂ => Calm.ite (fun _ => .pure _) (fun _ => .pure _) w₂ hn₂

theorem calm_builtinReload : Calm n builtinReload :=
  (idles_closed.service _).calm.bind fun _ => .ite (fun _ => .pure _) fun _ => .ite
    (fun _ => Calm.bind (calm_modify (fun _ => rfl) fun _ => le_rfl) fun _ => .pure _) fun _ => .pure _

theorem calm_handler (b : Builtin) : Calm n b.handler := by
  cases b with
  | fg => exact calm_builtinFg
  | bg => exact calm_builtinBg
  | exit => exact .get fun _ => Calm.bind (calm_modify (fun _ => rfl) fun _ => le_rfl) fun _ => .pure _
  | reload => exact calm_builtinReload
  | jobs | help | status => exact .pure _
  | cd | pwd | sysinfo | monitor | psinfo | dtinfo | hwinfo | led =>
    exact (closed_service idles_closed.toClosed).calm

/-- **A builtin with its redirections makes no job active.** -/
theorem calm_dispatchBuiltin (cmd : Command) (b : Builtin) : Calm n (dispatchBuiltin cmd b) := by
  have restore : ∀ savedOut savedIn, Calm n (builtinRestoreRedirect savedOut savedIn) := fun _ _ =>
    (closed_builtinRestoreRedirect idles_closed.toClosed _ _).calm
  refine (closed_builtinApplyRedirect idles_closed.toClosed cmd).calm.bind fun r => .ite (fun _ => ?_) fun _ => ?_
  · exact (restore _ _).bind fun _ => .ite (fun _ => calm_stopRunning.bind fun _ => .pure _) fun _ => .pure _
  · exact (calm_handler b).bind fun _ => idles_closed.fflush.calm.bind fun _ => (restore _ _).bind fun _ =>
      .ite (fun _ => calm_stopRunning.bind fun _ => .pure _) fun _ => .pure _

/-! ### Reaping -/

/-- `m` keeps to `n` active jobs and keeps the table settled, when it is. -/
def Mends (n : ℕ) (m : Sh α) : Prop :=
  ∀ w, Settled w.jobs → activeCount w.jobs ≤ n → Within n w (m w).state ∧ Settled (m w).state.jobs

theorem Mends.bind {m : Sh α} {f : α → Sh β} (hm : Mends n m) (hf : ∀ a, Mends n (f a)) :
    Mends n (m >>= f) := by
  intro w hs hn
  have hmid := hm w hs hn
  rw [Prog.bind_apply]
  cases hw : m w with
  | done a w' =>
    rw [hw] at hmid
    obtain ⟨hwithin, hs'⟩ := hmid
    obtain ⟨hwithin', hs''⟩ := hf a w' hs' hwithin.now
    exact ⟨hwithin.trans hwithin', hs''⟩
  | blocked w' => rwa [hw] at hmid

theorem Idles.mends {m : Sh α} (h : Idles m) : Mends n m := fun w hs hn =>
  ⟨(h w).within hn, by rw [(h w).jobs]; exact hs⟩

/-- A function on entries that leaves those that are done alone leaves a done job alone. -/
theorem mapList_done {γ : Type} {f : Process → Sh γ} {pick : γ → Process}
    (hf : ∀ process, process.status = .done → ∃ x, f process = pure x ∧ pick x = process) {l : List Process}
    (hl : ∀ process ∈ l, process.status = .done) : ∃ xs, Prog.mapList f l = pure xs ∧ xs.map pick = l := by
  induction l with
  | nil => exact ⟨[], rfl, rfl⟩
  | cons process l ih =>
    obtain ⟨x, hx, hpick⟩ := hf process (hl _ List.mem_cons_self)
    obtain ⟨xs, hxs, hmap⟩ := ih fun p hp => hl p (List.mem_cons_of_mem _ hp)
    refine ⟨x :: xs, ?_, by rw [List.map_cons, hpick, hmap]⟩
    rw [Prog.mapList, hx, hxs]
    rfl

/-- Aggregating makes a job settled. -/
theorem settled_jobUpdateStatus (job : Job) : (jobUpdateStatus job).Settled := by
  intro hdone process hp
  rw [jobUpdateStatus_processes] at hp
  exact (jobUpdateStatus_done (List.ne_nil_of_mem hp)).mp hdone process hp

theorem jobUpdateStatus_of_done {job : Job} (hdone : job.status = .done)
    (h : ∀ process ∈ job.processes, process.status = .done) : (jobUpdateStatus job).status = .done := by
  by_cases hne : job.processes = []
  · unfold jobUpdateStatus
    rw [if_pos hne]
    exact hdone
  · exact (jobUpdateStatus_done hne).mpr h

/-- What a function that looks after the entries one by one makes of a job. -/
def Calmed (job job' : Job) : Prop := (job'.isActive = true → job.isActive = true) ∧ job'.Settled

/-- **Looking after the entries of a settled job, and aggregating, makes it active only if it was.** -/
theorem wp_entries_calmed {γ δ : Type} {f : Process → Sh γ} {p : γ → Process}
    {g : List γ → Job → δ} {o : δ → Job}
    (hf : ∀ process, process.status = .done → ∃ x, f process = pure x ∧ p x = process)
    (hg : ∀ xs job, o (g xs job) = job) {job : Job} (hs : job.Settled) (w : World) :
    Prog.wp (do
      let xs ← Prog.mapList f job.processes
      pure (g xs (jobUpdateStatus { job with processes := xs.map p })) : Sh δ)
      (fun x _ => Calmed job (o x)) (fun _ => True) w := by
  by_cases hdone : job.status = .done
  · obtain ⟨xs, hxs, hmap⟩ := mapList_done hf (hs hdone)
    rw [hxs, pure_bind, hmap]
    refine ⟨fun hact => ?_, by rw [hg]; exact settled_jobUpdateStatus _⟩
    rw [hg] at hact
    exact absurd (jobUpdateStatus_of_done hdone (hs hdone)) (isActive_iff.mp hact)
  · refine Prog.wp_bind_done fun xs _ _ => ⟨fun _ => isActive_iff.mpr hdone, ?_⟩
    rw [hg]
    exact settled_jobUpdateStatus _

/-- **Looking after the jobs of a settled table one by one, and writing them back.** -/
theorem mends_jobs {γ : Type} {f : Job → Sh γ} {p : γ → Job} {g : List γ → α}
    (hidle : ∀ job, Idles (f job))
    (hf : ∀ job w, job.Settled → Prog.wp (f job) (fun x _ => Calmed job (p x)) (fun _ => True) w) : Mends n (do
      let w ← Prog.get
      let xs ← Prog.mapList f w.jobs
      Prog.modify (World.setJobs (xs.map p))
      pure (g xs) : Sh α) := by
  intro w hs hn
  have hmap : Idles (Prog.mapList f w.jobs) := idles_closed.mapList hidle w.jobs
  have hrel : ∀ (l : List Job) (w : World), Settled l → Prog.wp (Prog.mapList f l)
      (fun xs _ => List.Forall₂ Calmed l (xs.map p)) (fun _ => True) w := by
    intro l
    induction l with
    | nil => exact fun _ _ => .nil
    | cons job l ih =>
      intro w hl
      simp only [Prog.mapList, Prog.wp_bind, Prog.wp_pure]
      refine Prog.wp_mono (hf job w (hl job List.mem_cons_self)) ?_ fun _ h => h
      intro x w₁ hjob
      refine Prog.wp_mono (ih w₁ fun j hj => hl j (List.mem_cons_of_mem _ hj)) ?_ fun _ h => h
      intro l' _ hl'
      exact .cons hjob hl'
  have settled : ∀ {l l' : List Job}, List.Forall₂ Calmed l l' → Settled l' := by
    intro l l' h
    induction h with
    | nil => exact fun job hj => absurd hj List.not_mem_nil
    | cons hr _ ih => exact List.forall_mem_cons.mpr ⟨hr.2, ih⟩
  have hidlew := hmap w
  show Within n w ((Prog.mapList f w.jobs >>= _) w).state ∧ Settled ((Prog.mapList f w.jobs >>= _) w).state.jobs
  rw [Prog.bind_apply]
  cases hxs : Prog.mapList f w.jobs w with
  | blocked w₁ =>
    rw [hxs] at hidlew
    have hjobs : w₁.jobs = w.jobs := hidlew.jobs
    exact ⟨hidlew.within hn, show Settled w₁.jobs by rw [hjobs]; exact hs⟩
  | done xs w₁ =>
    rw [hxs] at hidlew
    have hjobs := Prog.wp_done (hrel w.jobs w hs) hxs
    have hn' : activeCount (w₁.setJobs (xs.map p)).jobs ≤ n :=
      (activeCount_forall₂ (hjobs.imp fun _ _ h => h.1)).trans hn
    have hstored : Within n w₁ (w₁.setJobs (xs.map p)) := ⟨⟨[], (List.append_nil _).symm, by simp⟩, hn'⟩
    exact ⟨(hidlew.within hn).trans hstored, settled hjobs⟩

theorem reapProcess_done (process : Process) (h : process.status = .done) :
    ∃ x, reapProcess process = pure x ∧ id x = process := ⟨process, if_pos h, rfl⟩

theorem idles_reapJob (job : Job) : Idles (reapJob job) :=
  (idles_closed.mapList (closed_reapProcess idles_closed.toClosed) _).bind fun _ => idles_closed.pure _

/-- **`job_reap` makes no job active.** -/
theorem mends_jobReap : Mends n jobReap := by
  have hjob : ∀ job w, job.Settled → Prog.wp (reapJob job) (fun x _ => Calmed job (id x))
      (fun _ => True) w := by
    intro job w hj
    have h := wp_entries_calmed (g := fun _ job => job) (o := id) reapProcess_done (fun _ _ => rfl) hj w
    simp only [List.map_id] at h
    exact h
  have h := @mends_jobs n _ _ reapJob id (fun _ => ()) idles_reapJob hjob
  simp only [List.map_id, bind_pure_unit] at h
  exact h

theorem within_shellChild (hs : Settled w.jobs) (hn : activeCount w.jobs ≤ n) : Within n w (shellChild w).state :=
  within_bind (mends_jobReap w hs hn).1 fun _ w' _ hn' => calm_jobCleanup w' hn'

/-- The jobs of an accounted table are settled. -/
theorem Accounted.settled {pids : List Int} {jobs : List Job} (h : Accounted pids jobs) : Settled jobs :=
  fun job hj hdone => (jobUpdateStatus_done (h.tidy job hj).nonempty).mp ((h.tidy job hj).status.trans hdone)

/-! ### Shutting down -/

theorem idles_processTryReap (process : Process) : Idles (processTryReap process) := by
  have h := idles_closed.toClosed
  refine h.ite (fun _ => h.pure _) fun _ => h.loop (fun _ => (h.waitpid _ _).bind fun r => ?_) ()
  split
  · exact h.ite (fun _ => h.pure _) fun _ => h.pure _
  all_goals exact h.pure _

theorem idles_processForceReap (process : Process) : Idles (processForceReap process) := by
  have h := idles_closed.toClosed
  refine h.ite (fun _ => h.pure _) fun _ => h.loop (fun _ => (h.waitpid _ _).bind fun r => ?_) ()
  split
  · exact h.ite (fun _ => h.pure _) fun _ => h.pure _
  all_goals exact h.pure _

theorem mends_jobmanagerTryReapAll : Mends n jobmanagerTryReapAll := by
  have h := idles_closed.toClosed
  apply mends_jobs (fun job => (h.mapList idles_processTryReap _).bind fun _ => h.pure _)
  intro job w hs
  exact wp_entries_calmed (g := fun results job => (results.all Prod.fst, job)) (o := Prod.snd) (p := Prod.snd)
    (fun process h => ⟨(true, process), if_pos h, rfl⟩) (fun _ _ => rfl) hs w

theorem mends_tryReapRounds (rounds : ℕ) : Mends n (tryReapRounds rounds) := by
  induction rounds with
  | zero => exact (idles_closed.pure ()).mends
  | succ rounds ih =>
    apply mends_jobmanagerTryReapAll.bind
    intro all
    split
    · exact (idles_closed.pure ()).mends
    · exact idles_closed.nanosleep.mends.bind fun _ => ih

theorem mends_continueStoppedJobs : Mends n continueStoppedJobs := by
  have h := idles_closed.toClosed
  have hcontinue : ∀ job, Idles (continueStoppedJob job) := fun job =>
    h.ite (fun _ => (h.kill _ _).bind fun _ => h.pure _) fun _ => h.pure _
  have hjob : ∀ job w, job.Settled → Prog.wp
    (if job.status = .stopped then continueStoppedJob job else pure job)
      (fun x _ => Calmed job (id x)) (fun _ => True) w := by
    intro job w hs
    split
    · rename_i hstopped
      have hact := active_of_status (Or.inr hstopped)
      have hupdate : Calmed job (jobUpdateStatus { job with processes := resumeProcesses job.processes }) :=
        ⟨fun _ => hact, settled_jobUpdateStatus _⟩
      unfold continueStoppedJob
      split
      · exact Prog.wp_bind_done fun _ _ _ => hupdate
      · exact hupdate
    · exact ⟨fun h => h, hs⟩
  have hjobs := @mends_jobs n _ _ (fun job => if job.status = .stopped then continueStoppedJob job else pure job) id
    (fun _ => ()) (fun job => h.ite (fun _ => hcontinue job) fun _ => h.pure _) hjob
  simp only [List.map_id, bind_pure_unit] at hjobs
  exact hjobs

theorem mends_forceReapJobs : Mends n forceReapJobs := by
  have h := idles_closed.toClosed
  have hjob : ∀ job w, job.Settled → Prog.wp (forceReapJob job) (fun x _ => Calmed job (id x))
      (fun _ => True) w := by
    intro job w hj
    have h := wp_entries_calmed (g := fun _ job => job) (o := id) (p := id) (f := processForceReap)
      (fun process h => ⟨process, if_pos h, rfl⟩) (fun _ _ => rfl) hj w
    simp only [List.map_id] at h
    exact h
  have hjobs := @mends_jobs n _ _ forceReapJob id (fun _ => ())
    (fun job => (h.mapList idles_processForceReap _).bind fun _ => h.pure _) hjob
  simp only [List.map_id, bind_pure_unit] at hjobs
  exact hjobs

/-- **`job_shutdown` makes no job active.** -/
theorem mends_jobShutdown : Mends n jobShutdown := by
  have h := idles_closed.toClosed
  have signal : ∀ (p : Job → Prop) [DecidablePred p] (sig : Sig), Mends n (do
      let w ← Prog.get
      Prog.forList (fun job => do
        if p job then
          let _ ← kill (-job.pgid) sig) w.jobs) := fun p _ sig => Idles.mends <| h.get_bind fun w =>
    h.forList (fun job => h.ite (fun _ => (h.kill _ _).bind fun _ => h.pure _) fun _ => h.pure _) w.jobs
  have destroy : Mends n (Prog.modify (World.updateManager jobDestroy)) := fun w _ _ =>
    ⟨⟨⟨[], (List.append_nil _).symm, by simp⟩, Nat.zero_le _⟩, fun job hj => absurd hj List.not_mem_nil⟩
  intro w hs hn
  show Within n w ((if w.jobs = [] then _ else _ : Sh Unit) w).state ∧
    Settled ((if w.jobs = [] then _ else _ : Sh Unit) w).state.jobs
  split
  · exact ⟨⟨⟨[], (List.append_nil _).symm, by simp⟩, hn⟩, hs⟩
  · exact (mends_continueStoppedJobs.bind fun _ => (signal _ _).bind fun _ => (mends_tryReapRounds _).bind fun _ =>
      (signal _ _).bind fun _ => mends_forceReapJobs.bind fun _ => destroy) w hs hn

end

end MiniShell
