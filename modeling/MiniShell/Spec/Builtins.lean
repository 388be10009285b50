import MiniShell.Spec.Upkeep

/-!
# The builtins look after the jobs

`Upkeeps m` says that `m` only looks after the jobs, from every world.  Every builtin is of this kind, and so is
the dispatcher around them.
-/

namespace MiniShell

open MiniShell.Lib MiniShellError

/-- `m` only looks after the jobs, from every world. -/
def Upkeeps {α : Type} (m : Sh α) : Prop :=
  ∀ w, Prog.wp m (fun _ w' => Upkeep Call.Tame w w') (LogExt (Event.Of Call.Tame) w) w

section

variable {α β : Type}

theorem Upkeeps.pure (a : α) : Upkeeps (Pure.pure a : Sh α) := fun w => .refl w

theorem Upkeeps.bind {m : Sh α} {f : α → Sh β} (hm : Upkeeps m) (hf : ∀ a, Upkeeps (f a)) :
    Upkeeps (m >>= f) := by
  intro w
  rw [Prog.wp_bind]
  refine Prog.wp_mono (hm w) ?_ (fun _ h => h)
  intro a w₁ h₁
  exact Prog.wp_mono (hf a w₁) (fun _ w₂ h₂ => h₁.trans h₂) (fun w₂ h₂ => h₁.log.trans h₂)

theorem Upkeeps.get {f : World → Sh α} (hf : ∀ w, Upkeeps (f w)) : Upkeeps (Prog.get >>= f) :=
  fun w => hf w w

theorem Upkeeps.ite {p : Prop} [Decidable p] {m n : Sh α} (hm : p → Upkeeps m) (hn : ¬p → Upkeeps n) :
    Upkeeps (if p then m else n) := by
  split
  · exact hm (by assumption)
  · exact hn (by assumption)

/-- What touches neither the kernel nor the log nor the list of jobs. -/
theorem Upkeeps.modify {f : World → World} (hk : ∀ w, (f w).kernel = w.kernel) (hl : ∀ w, (f w).log = w.log)
    (hj : ∀ w, (f w).jobs = w.jobs) : Upkeeps (Prog.modify f) := fun w =>
  (Upkeep.refl w).ctx (hk w) (hl w) (hj w)

/-- A system call that neither forks nor signals a single process. -/
theorem Upkeeps.syscall {f : Choice → Kernel → α × Kernel} {call : α → Call}
    (hf : ∀ c k, (f c k).2.pids = k.pids) (hc : ∀ a, (call a).Tame) : Upkeeps (syscall f call) := by
  intro w
  apply wp_syscall
  intro used c rest ht
  exact ((watched_drift used rest w).trans (watched_record (hc _) fun p hp => by rwa [← hf c])).upkeep

/-- The quiet functions. -/
theorem Upkeeps.quiet {m : Sh α}
    (h : ∀ w, Prog.wp m (fun _ w' => Quiet Call.Neutral w w') (LogExt (Event.Of Call.Tame) w) w) :
    Upkeeps m := fun w =>
  Prog.wp_mono (h w) (fun _ _ hq => (hq.watched fun _ => tame_of_neutral).upkeep) (fun _ h => h)

end

/-! ### The terminal and the descriptors -/

theorem upkeeps_terminalSetModes (modes : Termios) : Upkeeps (terminalSetModes modes) :=
  .quiet fun _ => wp_terminalSetModes fun _ _ hq => hq

theorem upkeeps_terminalRestore : Upkeeps terminalRestore := .quiet fun _ => wp_terminalRestore fun _ _ hq => hq

theorem upkeeps_close (fd : ℕ) : Upkeeps (close fd) := fun w =>
  (@watched_record Call.Tame w (.close fd) trivial (w.kernel.close fd) fun _ hp => hp).upkeep

theorem dupfd_pids (fd : ℕ) (c : Choice) (k : Kernel) : (k.dupfd fd c).2.pids = k.pids := by
  unfold Kernel.dupfd
  split <;> rfl

theorem openFile_pids (c : Choice) (k : Kernel) : (k.openFile c).2.pids = k.pids := by
  unfold Kernel.openFile
  split <;> rfl

theorem dup2_pids (old new : ℕ) (c : Choice) (k : Kernel) : (k.dup2 old new c).2.pids = k.pids := by
  unfold Kernel.dup2
  split
  · rfl
  · rfl
  · split <;> rfl

/-- An interruption comes from the script. -/
theorem dup2_eintr (old new : ℕ) (k : Kernel) : (k.dup2 old new .ok).1 ≠ .err .EINTR := by
  unfold Kernel.dup2
  cases k.fds.find old with
  | none => simp
  | some d =>
    dsimp only
    split <;> simp

/-- `dup2_retry`: an interrupted `dup2` is made again. -/
theorem upkeeps_dup2 (old new : ℕ) : Upkeeps (retry (dup2 old new)) := by
  intro w
  refine wp_retry (fun w' => Upkeep Call.Tame w w') ?_ (.refl w)
  intro w₁ h₁
  refine wp_syscall fun used c rest ht => ?_
  have hu := h₁.trans ((watched_drift used rest w₁).trans (@watched_record _ _
    (.dup2 old new ((w₁.drift used rest).kernel.dup2 old new c).1) trivial
    ((w₁.drift used rest).kernel.dup2 old new c).2 fun p hp => by rwa [← dup2_pids old new c])).upkeep
  refine ⟨fun hr => ⟨hu, ht.length_lt ?_⟩, fun _ => hu⟩
  rintro rfl
  exact dup2_eintr _ _ _ hr

theorem upkeeps_redirectStream (target : ℕ) (path : Bytes) (flags : OpenFlags) :
    Upkeeps (redirectStream target path flags) := by
  refine .bind (.syscall (dupfd_pids target) fun _ => trivial) fun saved => ?_
  cases saved with
  | none => exact .pure _
  | some saved =>
    refine .bind (.syscall openFile_pids fun _ => trivial) fun fd => ?_
    cases fd with
    | none => exact .pure _
    | some fd =>
      refine .ite (fun _ => .bind (upkeeps_dup2 fd target) fun r => ?_) fun _ => .pure _
      cases r with
      | ok => exact .bind (upkeeps_close fd) fun _ => .pure _
      | err e => exact .bind (upkeeps_close fd) fun _ => .pure _

theorem upkeeps_fflush : Upkeeps fflush := .syscall (fun _ _ => rfl) fun _ => trivial

theorem upkeeps_builtinApplyRedirect (cmd : Command) : Upkeeps (builtinApplyRedirect cmd) := by
  unfold builtinApplyRedirect
  refine .bind ?_ fun out => ?_
  · unfold redirectOutput
    cases cmd.redirect.outputFile with
    | none => exact .pure _
    | some path =>
      refine .bind (upkeeps_fflush) fun r => ?_
      cases r with
      | err e => exact .pure _
      | ok => exact upkeeps_redirectStream 1 path _
  · unfold redirectInput
    refine .ite (fun _ => .pure _) fun _ => ?_
    cases cmd.redirect.inputFile with
    | none => exact .pure _
    | some path => exact .bind (upkeeps_redirectStream 0 path .readOnly) fun _ => .pure _

theorem upkeeps_restoreStream (saved : Int) (target : ℕ) : Upkeeps (restoreStream saved target) :=
  .ite (fun _ => .bind (upkeeps_dup2 _ target) fun _ => .bind (upkeeps_close _) fun _ => .pure _) fun _ => .pure _

theorem upkeeps_builtinRestoreRedirect (savedOut savedIn : Int) :
    Upkeeps (builtinRestoreRedirect savedOut savedIn) :=
  .bind (upkeeps_restoreStream savedOut 1) fun _ => .bind (upkeeps_restoreStream savedIn 0) fun _ => .pure _

/-! ### `fg` and `bg` -/

theorem findJob_spec {p : Job → Bool} {jobs : List Job} {i : ℕ} {job : Job}
    (h : findJob p jobs = some (i, job)) :
    jobs[i]? = some job ∧ p job = true ∧ ∀ j < i, ∀ job', jobs[j]? = some job' → p job' = false := by
  induction jobs generalizing i with
  | nil => cases h
  | cons j js ih =>
    unfold findJob at h
    split at h
    · cases h
      exact ⟨rfl, by assumption, by simp⟩
    · rename_i hp
      obtain ⟨⟨i', job'⟩, hf, heq⟩ := Option.map_eq_some_iff.mp h
      cases heq
      obtain ⟨hget, hpj, hbefore⟩ := ih hf
      refine ⟨hget, hpj, fun k hk job' hget' => ?_⟩
      cases k with
      | zero =>
        obtain rfl : j = job' := by simpa using hget'
        simpa using hp
      | succ k => exact hbefore k (by omega) job' (by simpa using hget')

theorem done_of_not_active {job : Job} (h : job.isActive = false) : job.status = .done := by
  unfold Job.isActive at h
  cases hs : job.status <;> simp_all

theorem upkeeps_fgSetModes (job : Job) : Upkeeps (fgSetModes job) :=
  .ite (fun _ => upkeeps_terminalSetModes _) fun _ => .pure _

theorem wp_fgContinue {w : World} (job : Job) {Q : Int × Job → World → Prop} {R : World → Prop}
    (h : ∀ r job' w', Watched Call.Tame w w' → (∀ live, Keeps live job job') → Q (r, job') w') :
    Prog.wp (fgContinue job) Q R w := by
  unfold fgContinue
  split
  · exact wp_jobContinue job fun r job' w' hw => h r job' w' (hw.mono fun _ => tame_of_toGroup)
  · exact h _ _ _ (.refl w) fun live => Keeps.refl live job

/-- The job `builtin_fg` goes on with is in the table, and all before it are done. -/
def FgReady : Except Int (ℕ × Job) → World → Prop
  | .error _, _ => True
  | .ok (i, job), w => w.jobs[i]? = some job ∧ DoneBefore i w.jobs

/-- `fgPrepare`, once the modes of the terminal are set. -/
def fgResume (i : ℕ) (job : Job) (r : Int) : Sh (Except Int (ℕ × Job)) :=
  if r < 0 then do
    let _ ← terminalRestore
    pure (.error errUnknown)
  else do
    let (r, job) ← fgContinue job
    if r < 0 then
      let _ ← terminalRestore
      pure (.error errJob)
    else
      Prog.modify (World.updateJob i fun _ => job)
      pure (.ok (i, job))

theorem wp_fgPrepare (w : World) {R : World → Prop} :
    Prog.wp fgPrepare (fun r w' => Upkeep Call.Tame w w' ∧ FgReady r w') R w := by
  have tame : ∀ {w₁ w₂}, Quiet Call.Neutral w₁ w₂ → Watched Call.Tame w₁ w₂ := fun hq =>
    hq.watched fun _ => tame_of_neutral
  have restore : ∀ e w₁, Watched Call.Tame w w₁ → Prog.wp (do
      let _ ← terminalRestore
      pure (.error e) : Sh (Except Int (ℕ × Job)))
      (fun r w' => Upkeep Call.Tame w w' ∧ FgReady r w') R w₁ := by
    intro e w₁ h₁
    rw [Prog.wp_bind]
    exact wp_terminalRestore fun _ w₂ hq => ⟨(h₁.trans (tame hq)).upkeep, trivial⟩
  unfold fgPrepare
  rw [Prog.wp_get_bind]
  cases hf : findJob Job.isActive w.jobs with
  | none => exact ⟨.refl w, trivial⟩
  | some x =>
    obtain ⟨i, job⟩ := x
    obtain ⟨hi, -, hb⟩ := findJob_spec hf
    have hb : DoneBefore i w.jobs := fun j hj job' hget => done_of_not_active (hb j hj job' hget)
    dsimp only
    rw [Prog.wp_bind]
    apply wp_terminalSetForeground
    intro r w₁ hq₁ _
    have h₁ := tame hq₁
    split
    · exact ⟨h₁.upkeep, trivial⟩
    rw [Prog.wp_bind]
    have modes : ∀ (r : Int) w₂, Watched Call.Tame w₁ w₂ →
        Prog.wp (fgResume i job r) (fun r w' => Upkeep Call.Tame w w' ∧ FgReady r w') R w₂ := by
      intro r w₂ h₂
      have h₂ := h₁.trans h₂
      unfold fgResume
      split
      · exact restore _ w₂ h₂
      · rw [Prog.wp_bind]
        apply wp_fgContinue job
        intro r job' w₃ h₃ hk
        have h₃ := h₂.trans h₃
        dsimp only
        split
        · exact restore _ w₃ h₃
        · rw [Prog.wp_modify_bind]
          refine ⟨h₃.updateJob hi (hk _), updateJob_get (h₃.jobs ▸ hi) _, ?_⟩
          exact updateJob_doneBefore (h₃.jobs ▸ hb)
    unfold fgSetModes
    split
    · exact wp_terminalSetModes fun r w₂ hq₂ => modes r w₂ (tame hq₂)
    · exact modes 0 w₁ (.refl w₁)

/-- **`builtin_fg`.** -/
theorem upkeeps_builtinFg : Upkeeps builtinFg := by
  intro w
  unfold builtinFg
  rw [Prog.wp_bind]
  refine Prog.wp_mono (wp_fgPrepare w) ?_ (fun _ h => h)
  rintro r w₁ ⟨h₁, hready⟩
  cases r with
  | error e => exact h₁
  | ok x =>
    obtain ⟨i, job⟩ := x
    obtain ⟨hi, hb⟩ := hready
    dsimp only
    rw [Prog.wp_bind]
    refine Prog.wp_mono (wp_jobWait job w₁) ?_ (fun _ h => h₁.log.trans h)
    rintro x w₂ ⟨hw, hk⟩
    obtain ⟨r, job'⟩ := x
    dsimp only at hk ⊢
    rw [Prog.wp_modify_bind]
    have h₂ : Upkeep Call.Tame w (w₂.updateJob i fun _ => job') := h₁.trans (hw.updateJob hi hk)
    have hi₂ := updateJob_get (hw.jobs ▸ hi) (fun _ => job')
    have hb₂ : DoneBefore i (w₂.updateJob i fun _ => job').jobs := updateJob_doneBefore (hw.jobs ▸ hb)
    split
    · exact Prog.wp_mono ((upkeeps_terminalRestore.bind fun _ => .pure errUnknown) _)
        (fun _ _ h₃ => h₂.trans h₃)
        (fun _ h => h₂.log.trans h)
    · exact Prog.wp_mono (wp_fgFinish hi₂ hb₂)
        (fun _ _ h₃ => h₂.trans (h₃.mono fun _ => tame_of_neutral)) (fun _ h => h)

/-- **`builtin_bg`.** -/
theorem upkeeps_builtinBg : Upkeeps builtinBg := by
  intro w
  unfold builtinBg
  rw [Prog.wp_get_bind]
  cases hf : findJob Job.isStopped w.jobs with
  | none => exact .refl w
  | some x =>
    obtain ⟨i, job⟩ := x
    dsimp only
    rw [Prog.wp_bind]
    apply wp_jobContinue job
    intro r job' w₁ h₁ hk
    dsimp only
    rw [Prog.wp_modify_bind]
    have h₂ : Upkeep Call.Tame w (w₁.updateJob i fun _ => job') :=
      (h₁.mono fun _ => tame_of_toGroup).updateJob (findJob_spec hf).1 (hk _)
    split <;> exact h₂

/-! ### The dispatcher -/

theorem upkeeps_service : Upkeeps service := .syscall (fun _ _ => rfl) fun _ => trivial

theorem upkeeps_builtinReload : Upkeeps builtinReload :=
  .bind (.syscall (fun _ _ => rfl) fun _ => trivial) fun _ => .ite (fun _ => .pure _) fun _ =>
    .ite (fun _ => .bind (.modify (fun _ => rfl) (fun _ => rfl) fun _ => rfl) fun _ => .pure _) fun _ => .pure _

theorem upkeeps_stopRunning : Upkeeps stopRunning := .modify (fun _ => rfl) (fun _ => rfl) fun _ => rfl

/-- Every builtin only looks after the jobs. -/
theorem upkeeps_handler (b : Builtin) : Upkeeps b.handler := by
  cases b with
  | fg => exact upkeeps_builtinFg
  | bg => exact upkeeps_builtinBg
  | exit => exact .get fun _ => .bind (.modify (fun _ => rfl) (fun _ => rfl) fun _ => rfl) fun _ => .pure _
  | reload => exact upkeeps_builtinReload
  | jobs | help | status => exact .pure _
  | cd | pwd | sysinfo | monitor | psinfo | dtinfo | hwinfo | led => exact upkeeps_service

/-- **A builtin, with its redirections.** -/
theorem upkeeps_dispatchBuiltin (cmd : Command) (entry : Builtin) : Upkeeps (dispatchBuiltin cmd entry) := by
  refine .bind (upkeeps_builtinApplyRedirect cmd) fun x => ?_
  obtain ⟨ret, savedOut, savedIn⟩ := x
  refine .ite (fun _ => .bind (upkeeps_builtinRestoreRedirect _ _) fun restore => ?_) fun _ => ?_
  · exact .ite (fun _ => .bind upkeeps_stopRunning fun _ => .pure _) fun _ => .pure _
  · refine .bind (upkeeps_handler entry) fun ret => .bind upkeeps_fflush fun flushed => ?_
    refine .bind (upkeeps_builtinRestoreRedirect _ _) fun restore => ?_
    exact .ite (fun _ => .bind upkeeps_stopRunning fun _ => .pure _) fun _ => .pure _

end MiniShell
