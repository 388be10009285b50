import MiniShell.Lib.Pointwise
import MiniShell.Spec.Builtins
import MiniShell.Spec.Closed

/-!
# The saved modes of the jobs

`Recorded left t` says of a job table that the ids are pairwise different and that every job holds the terminal modes
`left` gives for its id, if any.  Only `saveTerminalModes` changes the modes of a job; everything else keeps what is
recorded, and the wait for a job and its continuation return the job with the modes it had.
-/

namespace MiniShell

open MiniShell.Lib MiniShellError

/-- The terminal modes that are saved in a job. -/
def Job.savedModes (job : Job) : Option Termios := if job.terminalModesValid then some job.terminalModes else none

/-- The modes saved in the jobs are the ones that `left` gives for their ids. -/
structure Recorded (left : ℕ → Option Termios) (t : JobManager) : Prop where
  nodup : (t.head.map Job.id).Nodup
  below : ∀ job ∈ t.head, job.id < t.nextid
  modes : ∀ job ∈ t.head, job.savedModes = left job.id
  fresh : ∀ id ≥ t.nextid, left id = none

/-- The id and the saved modes are the same. -/
structure SameRecord (job job' : Job) : Prop where
  id : job'.id = job.id
  modes : job'.savedModes = job.savedModes

theorem SameRecord.refl (job : Job) : SameRecord job job := ⟨rfl, rfl⟩

theorem SameRecord.trans {job₁ job₂ job₃ : Job} (h : SameRecord job₁ job₂)
    (h' : SameRecord job₂ job₃) :
    SameRecord job₁ job₃ :=
  ⟨h'.id.trans h.id, h'.modes.trans h.modes⟩

theorem sameRecord_updateStatus (job : Job) : SameRecord job (jobUpdateStatus job) := by
  unfold jobUpdateStatus
  split
  · exact .refl job
  · split
    · exact ⟨rfl, rfl⟩
    · split <;> exact ⟨rfl, rfl⟩

/-- The entries of a job have nothing to do with its modes. -/
theorem sameRecord_entries (job : Job) (processes : List Process) :
    SameRecord job (jobUpdateStatus { job with processes := processes }) :=
  have h : SameRecord job { job with processes := processes } := ⟨rfl, rfl⟩
  h.trans (sameRecord_updateStatus _)

section Recorded

variable {left : ℕ → Option Termios} {t : JobManager} {job job' : Job} {i : ℕ}

theorem Recorded.sublist (h : Recorded left t) {jobs : List Job} (hs : jobs.Sublist t.head) :
    Recorded left { t with head := jobs } where
  nodup := h.nodup.sublist (hs.map _)
  below := fun job hj => h.below job (hs.subset hj)
  modes := fun job hj => h.modes job (hs.subset hj)
  fresh := h.fresh

/-- Jobs with the same ids and modes in the same places. -/
theorem Recorded.same (h : Recorded left t) {jobs : List Job} (hs : List.Forall₂ SameRecord t.head jobs) :
    Recorded left { t with head := jobs } := by
  have hids : jobs.map Job.id = t.head.map Job.id := forall₂_map_eq (fun _ _ h => h.id) hs
  have hmem : ∀ job' ∈ jobs, ∃ job ∈ t.head, SameRecord job job' := fun job' hj => forall₂_mem_right hs hj
  refine ⟨hids ▸ h.nodup, fun job' hj => ?_, fun job' hj => ?_, h.fresh⟩
  · obtain ⟨job, hm, hsame⟩ := hmem job' hj
    exact hsame.id ▸ h.below job hm
  · obtain ⟨job, hm, hsame⟩ := hmem job' hj
    rw [hsame.modes, hsame.id, h.modes job hm]

/-- A job that is added has no modes and an id that was never used. -/
theorem Recorded.add (h : Recorded left t) (pgid : Int) (command : Bytes) :
    Recorded left { head := Job.new t.nextid pgid command :: t.head, nextid := t.nextid + 1 } where
  nodup := by
    refine List.nodup_cons.mpr ⟨fun hm => ?_, h.nodup⟩
    obtain ⟨job, hj, hid⟩ := List.mem_map.mp hm
    have hlt : job.id < t.nextid := h.below job hj
    have hid : job.id = t.nextid := hid
    omega
  below := by
    intro job hj
    rcases List.mem_cons.mp hj with rfl | hj
    · exact Nat.lt_succ_self _
    · exact Nat.lt_succ_of_lt (h.below job hj)
  modes := by
    intro job hj
    rcases List.mem_cons.mp hj with rfl | hj
    · exact (h.fresh _ (le_refl _)).symm
    · exact h.modes job hj
  fresh := fun id hid => h.fresh id (Nat.le_of_succ_le hid)

end Recorded

/-! ### The log grows -/

/-- `m` only adds to the log. -/
def LogGrows {α : Type} (m : Sh α) : Prop := ∀ w, w.log <+: (m w).state.log

section LogGrows

variable {α β : Type}

theorem LogGrows.bind {m : Sh α} {f : α → Sh β} (hm : LogGrows m) (hf : ∀ a, LogGrows (f a)) :
    LogGrows (m >>= f) :=
  Prog.state_bind (T := fun w w' : World => w.log <+: w'.log) List.IsPrefix.trans hm hf

theorem logGrows_syscall (f : Choice → Kernel → α × Kernel) (call : α → Call) :
    LogGrows (syscall f call) := by
  intro w
  refine Prog.wp_state (P := fun w' => w.log <+: w'.log) (wp_syscall fun used c rest _ => ?_)
  exact (List.prefix_append _ _).trans (List.prefix_append _ _)

theorem logGrows_waitpid (target : Int) (opts : WaitOpts) : LogGrows (waitpid target opts) := fun w =>
  Prog.wp_state (wp_ask (R := fun w' => w.log <+: w'.log)
    (fun r w' h _ _ => by
      obtain ⟨seg, hseg, -⟩ := h.logExt (P := fun _ => True) trivial fun _ => trivial
      exact ⟨seg, hseg.symm⟩)
    fun _ w' h => by
      obtain ⟨seg, hseg, -⟩ := h.logExt (P := fun _ => True) trivial fun _ => trivial
      exact ⟨seg, hseg.symm⟩)

theorem logGrows_tty : ClosedTty fun _ m => LogGrows m where
  pure := fun _ _ => List.prefix_rfl
  block := fun _ => List.prefix_rfl
  bind := LogGrows.bind
  get_bind := fun hf w => hf w w
  pipe := logGrows_syscall _ _
  close := fun _ _ => List.prefix_append _ _
  setCloexec := fun _ => logGrows_syscall _ _
  openFile := fun _ _ => logGrows_syscall _ _
  dupfd := fun _ => logGrows_syscall _ _
  dup2 := fun _ _ => logGrows_syscall _ _
  fflush := logGrows_syscall _ _
  fork := logGrows_syscall _ _
  setpgid := fun _ _ => logGrows_syscall _ _
  kill := fun _ _ => logGrows_syscall _ _
  waitpid := logGrows_waitpid
  malloc := fun _ => logGrows_syscall _ _
  nanosleep := logGrows_syscall _ _
  writeGate := fun _ => logGrows_syscall _ _
  tcgetattr := logGrows_syscall _ _
  service := fun _ => logGrows_syscall _ _
  tcsetpgrp := fun _ => logGrows_syscall _ _
  tcsetattr := fun _ => logGrows_syscall _ _

theorem logGrows_vars : ClosedVars fun _ m => LogGrows m where
  toClosed := logGrows_tty.toClosed
  modify := fun hf w => by
    obtain ⟨ctx, hw, -⟩ := hf w
    exact List.prefix_rfl.trans (congrArg World.log hw ▸ List.prefix_rfl)

end LogGrows

/-! ### Programs that make calls only -/

theorem sameCtx_waitpid (target : Int) (opts : WaitOpts) : Prog.Keeps World.ctx (waitpid target opts) := fun _ =>
  Prog.wp_state (wp_ask (fun _ _ h _ _ => h.ctx) fun _ _ h => h.ctx)

/-- Calls leave the context alone. -/
theorem sameCtx_tty : ClosedTty fun _ m => Prog.Keeps World.ctx m where
  pure := Prog.keeps_pure
  block := fun _ => rfl
  bind := fun hm hf => hm.bind hf
  get_bind := Prog.keeps_get_bind
  pipe := fun _ => rfl
  close := fun _ _ => rfl
  setCloexec := fun _ _ => rfl
  openFile := fun _ _ _ => rfl
  dupfd := fun _ _ => rfl
  dup2 := fun _ _ _ => rfl
  fflush := fun _ => rfl
  fork := fun _ => rfl
  setpgid := fun _ _ _ => rfl
  kill := fun _ _ _ => rfl
  waitpid := sameCtx_waitpid
  malloc := fun _ _ => rfl
  nanosleep := fun _ => rfl
  writeGate := fun _ _ => rfl
  tcgetattr := fun _ => rfl
  service := fun _ _ => rfl
  tcsetpgrp := fun _ _ => rfl
  tcsetattr := fun _ _ => rfl

theorem sameTerm_waitpid (target : Int) (opts : WaitOpts) : Prog.Keeps World.term (waitpid target opts) :=
  Prog.keeps_of_wp fun w => by
    cases ho : opts.nohang with
    | false => exact wp_waitpid ho (fun _ _ _ _ _ _ _ => rfl) fun _ => rfl
    | true => exact wp_waitpid_nohang ho fun _ _ _ _ _ _ _ => rfl

/-- Nothing changes what `terminal_init` has found. -/
theorem sameTerm_vars : ClosedVars fun _ m => Prog.Keeps World.term m where
  pure := Prog.keeps_pure
  block := fun _ => rfl
  bind := fun hm hf => hm.bind hf
  get_bind := Prog.keeps_get_bind
  pipe := fun _ => rfl
  close := fun _ _ => rfl
  setCloexec := fun _ _ => rfl
  openFile := fun _ _ _ => rfl
  dupfd := fun _ _ => rfl
  dup2 := fun _ _ _ => rfl
  fflush := fun _ => rfl
  fork := fun _ => rfl
  setpgid := fun _ _ _ => rfl
  kill := fun _ _ _ => rfl
  waitpid := sameTerm_waitpid
  malloc := fun _ _ => rfl
  nanosleep := fun _ => rfl
  writeGate := fun _ _ => rfl
  tcgetattr := fun _ => rfl
  service := fun _ _ => rfl
  modify := fun {f} hf w => by
    obtain ⟨ctx, hw, -⟩ := hf w
    show (f w).term = w.term
    rw [hw]

theorem sameTerm_tty : ClosedTty fun _ m => Prog.Keeps World.term m where
  toClosed := sameTerm_vars.toClosed
  tcsetpgrp := fun _ _ => rfl
  tcsetattr := fun _ _ => rfl

/-! ### Programs that keep what is recorded -/

/-- What is recorded of the jobs stays true. -/
def KeepsRecord {α : Type} (m : Sh α) : Prop :=
  ∀ left w, Recorded left w.ctx.jobs → Recorded left (m w).state.ctx.jobs

section KeepsRecord

variable {α β : Type}

theorem keepsRecord_of_ctx {m : Sh α} (h : Prog.Keeps World.ctx m) : KeepsRecord m := fun _ w hr =>
  (congrArg ShellContext.jobs (h w)) ▸ hr

theorem KeepsRecord.bind {m : Sh α} {f : α → Sh β} (hm : KeepsRecord m) (hf : ∀ a, KeepsRecord (f a)) :
    KeepsRecord (m >>= f) := by
  intro left w hr
  have hmid := hm left w hr
  rw [Prog.bind_apply]
  cases hw : m w with
  | done a w' =>
    rw [hw] at hmid
    exact hf a left w' hmid
  | blocked w' => rwa [hw] at hmid

theorem sameRecord_modify {f : Job → Job} (hf : ∀ job, SameRecord job (f job)) (jobs : List Job) (i : ℕ) :
    List.Forall₂ SameRecord jobs (jobs.modify i f) := by
  induction jobs generalizing i with
  | nil => simp
  | cons job jobs ih =>
    cases i with
    | zero => exact .cons (hf job) (List.forall₂_same.mpr fun job _ => .refl job)
    | succ i => exact .cons (.refl job) (ih i)

theorem keepsRecord_tty : ClosedTty fun _ m => KeepsRecord m where
  pure := fun _ _ _ hr => hr
  block := fun _ _ hr => hr
  bind := KeepsRecord.bind
  get_bind := fun hf left w => hf w left w
  pipe := keepsRecord_of_ctx sameCtx_tty.pipe
  close := fun _ => keepsRecord_of_ctx (sameCtx_tty.close _)
  setCloexec := fun _ => keepsRecord_of_ctx (sameCtx_tty.setCloexec _)
  openFile := fun _ _ => keepsRecord_of_ctx (sameCtx_tty.openFile _ _)
  dupfd := fun _ => keepsRecord_of_ctx (sameCtx_tty.dupfd _)
  dup2 := fun _ _ => keepsRecord_of_ctx (sameCtx_tty.dup2 _ _)
  fflush := keepsRecord_of_ctx sameCtx_tty.fflush
  fork := keepsRecord_of_ctx sameCtx_tty.fork
  setpgid := fun _ _ => keepsRecord_of_ctx (sameCtx_tty.setpgid _ _)
  kill := fun _ _ => keepsRecord_of_ctx (sameCtx_tty.kill _ _)
  waitpid := fun _ _ => keepsRecord_of_ctx (sameCtx_tty.waitpid _ _)
  malloc := fun _ => keepsRecord_of_ctx (sameCtx_tty.malloc _)
  nanosleep := keepsRecord_of_ctx sameCtx_tty.nanosleep
  writeGate := fun _ => keepsRecord_of_ctx (sameCtx_tty.writeGate _)
  tcgetattr := keepsRecord_of_ctx sameCtx_tty.tcgetattr
  service := fun _ => keepsRecord_of_ctx (sameCtx_tty.service _)
  tcsetpgrp := fun _ => keepsRecord_of_ctx (sameCtx_tty.tcsetpgrp _)
  tcsetattr := fun _ => keepsRecord_of_ctx (sameCtx_tty.tcsetattr _)

/-- Adding and removing jobs keeps what is recorded. -/
theorem keepsRecord_table : ClosedTable fun _ m => KeepsRecord m where
  toClosed := keepsRecord_tty.toClosed
  addJob := fun _ _ _ _ hr => hr.add _ _
  addProcess := fun i pid _ w hr => hr.same
    (sameRecord_modify (f := fun job => { job with processes := job.processes ++ [Process.new pid] })
      (fun _ => ⟨rfl, rfl⟩) w.jobs i)
  remove := by
    intro pgid left w hr
    show Recorded left (jobRemove pgid w.ctx.jobs)
    unfold jobRemove
    split
    · exact hr
    · exact hr.sublist List.eraseP_sublist
  cleanup := fun _ _ hr => hr.sublist List.filter_sublist
  stopRunning := fun _ _ hr => hr
  maxJob := fun _ _ _ hr => hr

/-! ### Waiting for a job and continuing it -/

/-- A job that is continued or waited for is returned with its id and its modes. -/
def ReturnsRecord (job : Job) (m : Sh (Int × Job)) : Prop :=
  ∀ w, Prog.wp m (fun x _ => SameRecord job x.2) (fun _ => True) w

theorem returnsRecord_jobContinue (job : Job) : ReturnsRecord job (jobContinue job) := by
  intro w
  unfold jobContinue jobContinueWith
  split
  · exact .refl job
  · split
    · exact .refl job
    · apply Prog.wp_bind_done
      intro r w' _
      split
      · exact .refl job
      · exact sameRecord_entries job _

theorem returnsRecord_fgContinue (job : Job) : ReturnsRecord job (fgContinue job) := by
  intro w
  unfold fgContinue
  split
  · exact returnsRecord_jobContinue job w
  · exact .refl job

theorem returnsRecord_jobWaitForeground (job : Job) : ReturnsRecord job (jobWaitForeground job) := by
  intro w
  unfold jobWaitForeground jobWaitForegroundWith
  split
  · exact .refl job
  · refine Prog.wp_loop_partial (fun job' _ => SameRecord job job') ?_ job w (.refl job)
    intro job' w' h
    unfold waitRoundWith
    split
    · exact h
    · apply Prog.wp_bind_done
      intro r w'' _
      split
      · exact h
      · exact h
      · exact h
      · split
        · exact h
        · exact h.trans (sameRecord_entries job' _)

theorem updateJob_jobs {w w' : World} (hctx : w'.ctx = w.ctx) {i : ℕ} {job : Job} (hi : w.jobs[i]? = some job)
    (job' : Job) : (w'.updateJob i fun _ => job').ctx.jobs = { w.ctx.jobs with head := w.jobs.set i job' } := by
  have hj : w'.jobs = w.jobs := congrArg (fun ctx => ctx.jobs.head) hctx
  simp only [World.updateJob, World.setJobs, World.updateManager, hj, hctx, List.modify_eq_set_getElem?, hi]
  rfl

/-- A job of the table is continued or waited for, and put back. -/
theorem ReturnsRecord.put {job : Job} {m : Sh (Int × Job)} (h : ReturnsRecord job m) (hm : Prog.Keeps World.ctx m)
    {w : World} {i : ℕ} (hi : w.jobs[i]? = some job) :
    Prog.wp m (fun x w' => SameRecord job x.2 ∧ w'.ctx = w.ctx ∧ ∀ left, Recorded left w.ctx.jobs →
      Recorded left (w'.updateJob i fun _ => x.2).ctx.jobs) (fun w' => w'.ctx = w.ctx) w := by
  refine Prog.wp_mono (Prog.wp_and (h w) (hm.wp w)) ?_ fun _ h => h.2
  intro x w' hx
  obtain ⟨hsame, hctx⟩ := hx
  refine ⟨hsame, hctx, fun left hr => ?_⟩
  rw [updateJob_jobs hctx hi]
  exact hr.same (forall₂_set SameRecord.refl hi hsame)

/-! ### `SIGCHLD` and `bg` -/

theorem sameCtx_reapJob (job : Job) : Prog.Keeps World.ctx (reapJob job) :=
  have h := sameCtx_tty.toClosed
  h.bind (h.mapList (closed_reapProcess h) _) fun _ => h.pure _

/-- The jobs `job_reap` puts into the table have the ids and modes of the ones that were there. -/
theorem wp_reapJobs_record (jobs : List Job) (w : World) :
    Prog.wp (Prog.mapList reapJob jobs) (fun jobs' w' => List.Forall₂ SameRecord jobs jobs' ∧ w'.ctx = w.ctx)
      (fun w' => w'.ctx = w.ctx) w := by
  have hctx : Prog.Keeps World.ctx (Prog.mapList reapJob jobs) := sameCtx_tty.toClosed.mapList sameCtx_reapJob jobs
  have hsame := Prog.wp_mapList_forall₂ (R := fun _ => True) (f := reapJob) (fun _ _ => True)
    (fun _ _ => SameRecord)
    (fun _ => trivial) (fun _ _ => trivial) (fun _ h => h) (fun h _ => h)
    (fun job w => Prog.wp_bind_done fun processes _ _ => ⟨trivial, sameRecord_entries job processes⟩) jobs w
  exact Prog.wp_mono (Prog.wp_and hsame (hctx.wp w)) (fun _ _ h => ⟨h.1.2, h.2⟩) fun _ h => h.2

theorem keepsRecord_jobReap : KeepsRecord jobReap := by
  intro left w hr
  refine Prog.wp_state (P := fun w' : World => Recorded left w'.ctx.jobs) ?_
  unfold jobReap
  rw [Prog.wp_get_bind, Prog.wp_bind]
  refine Prog.wp_mono (wp_reapJobs_record w.jobs w) (fun jobs w' h => ?_) fun w' h => by rwa [h]
  have hset : (w'.setJobs jobs).ctx.jobs = { w.ctx.jobs with head := jobs } := by
    simp only [World.setJobs, World.updateManager, h.2]
  show Recorded left (w'.setJobs jobs).ctx.jobs
  rw [hset]
  exact hr.same h.1

theorem keepsRecord_shellChild : KeepsRecord shellChild :=
  keepsRecord_jobReap.bind fun _ => keepsRecord_table.cleanup

theorem keepsRecord_builtinBg : KeepsRecord builtinBg := by
  intro left w hr
  refine Prog.wp_state (P := fun w' : World => Recorded left w'.ctx.jobs) ?_
  unfold builtinBg
  rw [Prog.wp_get_bind]
  split
  · exact hr
  · rename_i i job hf
    rw [Prog.wp_bind]
    refine Prog.wp_mono ((returnsRecord_jobContinue job).put (closed_jobContinue sameCtx_tty.toClosed job)
      (findJob_spec hf).1) (fun x w' h => ?_) fun w' h => by rwa [h]
    rw [Prog.wp_bind, Prog.wp_modify]
    split <;> exact h.2.2 left hr

theorem keepsRecord_fgPrepare : KeepsRecord fgPrepare := by
  intro left w hr
  refine Prog.wp_state (P := fun w' : World => Recorded left w'.ctx.jobs) ?_
  unfold fgPrepare
  rw [Prog.wp_get_bind]
  split
  · exact hr
  · rename_i i job hf
    have hi := (findJob_spec hf).1
    have keep : ∀ {w' : World}, w'.ctx = w.ctx → Recorded left w'.ctx.jobs := fun h => by rwa [h]
    have undo : ∀ (e : Int) {w' : World}, w'.ctx = w.ctx → Prog.wp (do
        let _ ← terminalRestore
        pure (.error e) : Sh (Except Int (ℕ × Job))) (fun _ w' => Recorded left w'.ctx.jobs)
        (fun w' => Recorded left w'.ctx.jobs) w' := by
      intro e w' h
      rw [Prog.wp_bind]
      exact Prog.wp_mono ((closed_terminalRestore sameCtx_tty).wp w') (fun _ _ h' => keep (h'.trans h))
        fun _ h' => keep (h'.trans h)
    have modes : Prog.Keeps World.ctx (fgSetModes job) :=
      sameCtx_tty.ite (fun _ => closed_terminalSetModes sameCtx_tty _) fun _ => sameCtx_tty.pure _
    have continued : Prog.Keeps World.ctx (fgContinue job) :=
      sameCtx_tty.ite (fun _ => closed_jobContinue sameCtx_tty.toClosed _) fun _ => sameCtx_tty.pure _
    rw [Prog.wp_bind]
    refine Prog.wp_mono ((closed_terminalSetForeground sameCtx_tty job.pgid).wp w) ?_
      fun _ h => keep h
    intro r w₁ h₁
    split
    · exact keep h₁
    · rw [Prog.wp_bind]
      refine Prog.wp_mono (modes.wp w₁) ?_ fun _ h => keep (h.trans h₁)
      intro r w₂ h₂
      have h₂ := h₂.trans h₁
      split
      · exact undo _ h₂
      · rw [Prog.wp_bind]
        have hi₂ : w₂.jobs[i]? = some job := by
          rw [show w₂.jobs = w.jobs from congrArg (fun ctx => ctx.jobs.head) h₂]
          exact hi
        refine Prog.wp_mono ((returnsRecord_fgContinue job).put continued hi₂) ?_
          fun _ h => keep (h.trans h₂)
        intro x w₃ h₃
        dsimp only
        split
        · exact undo _ (h₃.2.1.trans h₂)
        · exact h₃.2.2 left (keep h₂)

end KeepsRecord

end MiniShell
