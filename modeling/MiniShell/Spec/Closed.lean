import MiniShell.Model.Shell

/-!
# What is true of every program made of certain calls

`Closed K` says that the property `K` of programs holds of the system calls that leave the terminal alone, and goes
through the composition of programs.  `ClosedTable K` adds what is done to the variables whatever they hold: jobs and
entries are added and jobs removed.  `ClosedVars K` adds every change to the context, and `ClosedTty K` the calls that
change the terminal.  A function of the shell has the property when it is made of these parts: it is gone through once
here, and not for every property.
-/

namespace MiniShell

open MiniShell.Lib MiniShellError

/-- The change concerns the context only, and not the exit status. -/
def InContext (f : World → World) : Prop :=
  ∀ w, ∃ ctx : ShellContext, f w = { w with ctx := ctx } ∧ ctx.lastExitStatus = w.ctx.lastExitStatus

/-- The property goes through composition and holds of the calls that do not change the terminal. -/
structure Closed (K : (α : Type) → Sh α → Prop) : Prop where
  pure : ∀ {α : Type} (a : α), K α (Pure.pure a)
  block : ∀ {α : Type}, K α Prog.block
  bind : ∀ {α β : Type} {m : Sh α} {f : α → Sh β}, K α m → (∀ a, K β (f a)) → K β (m >>= f)
  get_bind : ∀ {α : Type} {f : World → Sh α}, (∀ w, K α (f w)) → K α (Prog.get >>= f)
  pipe : K _ pipe
  close : ∀ fd, K _ (close fd)
  setCloexec : ∀ fd, K _ (setCloexec fd)
  openFile : ∀ path flags, K _ (openFile path flags)
  dupfd : ∀ fd, K _ (dupfd fd)
  dup2 : ∀ old new, K _ (dup2 old new)
  fflush : K _ fflush
  fork : K _ fork
  setpgid : ∀ pid pgid, K _ (setpgid pid pgid)
  kill : ∀ target sig, K _ (kill target sig)
  waitpid : ∀ target opts, K _ (waitpid target opts)
  malloc : ∀ what, K _ (malloc what)
  nanosleep : K _ nanosleep
  writeGate : ∀ fd, K _ (writeGate fd)
  tcgetattr : K _ tcgetattr
  service : ∀ f : Choice → Int, K _ (syscall (fun c k => (f c, k)) .service)

/-- The property also holds of what is added to the job table and removed from it, and of the other variables. -/
structure ClosedTable (K : (α : Type) → Sh α → Prop) : Prop extends Closed K where
  addJob : ∀ pgid command, K Unit (Prog.modify (World.updateManager fun manager =>
    { head := Job.new manager.nextid pgid command :: manager.head, nextid := manager.nextid + 1 }))
  addProcess : ∀ i pid, K Unit (Prog.modify (World.updateJob i fun job =>
    { job with processes := job.processes ++ [Process.new pid] }))
  remove : ∀ pgid, K Unit (jobRemoveM pgid)
  cleanup : K Unit jobCleanup
  stopRunning : K Unit stopRunning
  maxJob : ∀ n, K Unit (Prog.modify fun w =>
    { w with ctx := { w.ctx with config := { w.ctx.config with maxJob := n } } })

/-- The property also holds of every change to the context. -/
structure ClosedVars (K : (α : Type) → Sh α → Prop) : Prop extends Closed K where
  modify : ∀ {f : World → World}, InContext f → K Unit (Prog.modify f)

/-- The property also holds of the calls that change the terminal. -/
structure ClosedTty (K : (α : Type) → Sh α → Prop) : Prop extends Closed K where
  tcsetpgrp : ∀ pgid, K _ (tcsetpgrp pgid)
  tcsetattr : ∀ modes, K _ (tcsetattr modes)

variable {K : (α : Type) → Sh α → Prop} {α β : Type}

namespace Closed

theorem ite (_ : Closed K) {p : Prop} [Decidable p] {m n : Sh α} (hm : p → K α m) (hn : ¬p → K α n) :
    K α (if p then m else n) := by
  split
  · exact hm (by assumption)
  · exact hn (by assumption)

theorem loop (h : Closed K) {υ : Type} {μ : World → ℕ} {body : υ → Sh (υ ⊕ α)}
    (hb : ∀ t, K _ (body t)) (t : υ) :
    K α (Prog.loop μ body t) := by
  have key : ∀ n t, K α (Prog.rounds body n t) := by
    intro n
    induction n with
    | zero => exact fun _ => h.block
    | succ n ih =>
      intro t
      apply h.bind (hb t)
      intro x
      cases x with
      | inl t' => exact ih t'
      | inr a => exact h.pure a
  exact h.get_bind fun w => key (μ w + 1) t

theorem mapList (h : Closed K) {f : α → Sh β} (hf : ∀ a, K β (f a)) (l : List α) :
    K _ (Prog.mapList f l) := by
  induction l with
  | nil => exact h.pure _
  | cons a l ih => exact h.bind (hf a) fun _ => h.bind ih fun _ => h.pure _

theorem forList (h : Closed K) {f : α → Sh Unit} (hf : ∀ a, K _ (f a)) (l : List α) :
    K _ (Prog.forList f l) := by
  induction l with
  | nil => exact h.pure _
  | cons a l ih => exact h.bind (hf a) fun _ => ih

theorem retry (h : Closed K) {call : Sh Res} (hc : K _ call) : K _ (retry call) :=
  h.loop (fun _ => h.bind hc fun r => by split <;> exact h.pure _) ()

end Closed

theorem ClosedVars.table (h : ClosedVars K) : ClosedTable K where
  toClosed := h.toClosed
  addJob := fun _ _ => h.modify fun _ => ⟨_, rfl, rfl⟩
  addProcess := fun _ _ => h.modify fun _ => ⟨_, rfl, rfl⟩
  remove := fun _ => h.modify fun _ => ⟨_, rfl, rfl⟩
  cleanup := h.modify fun _ => ⟨_, rfl, rfl⟩
  stopRunning := h.modify fun _ => ⟨_, rfl, rfl⟩
  maxJob := fun _ => h.modify fun _ => ⟨_, rfl, rfl⟩

theorem closed_updateJob (h : ClosedVars K) (i : ℕ) (f : Job → Job) : K _ (Prog.modify (World.updateJob i f)) :=
  h.modify fun _ => ⟨_, rfl, rfl⟩

theorem closed_closeIf (h : Closed K) (fd : Int) : K _ (closeIf fd) := h.ite (fun _ => h.close _) fun _ => h.pure _

/-! `terminal.c` -/

theorem closed_terminalSetPgrp (h : ClosedTty K) (pgid : Int) : K _ (terminalSetPgrp pgid) :=
  h.bind (h.retry (h.tcsetpgrp _)) fun r => by cases r <;> exact h.pure _

theorem closed_terminalSetForeground (h : ClosedTty K) (pgid : Int) : K _ (terminalSetForeground pgid) :=
  h.get_bind fun _ => h.ite (fun _ => h.pure _) fun _ =>
    h.ite (fun _ => h.pure _) fun _ => closed_terminalSetPgrp h pgid

theorem closed_terminalGetModes (h : Closed K) (modes : Termios) : K _ (terminalGetModes modes) :=
  h.get_bind fun _ => h.ite (fun _ => h.pure _) fun _ =>
    h.loop (fun _ => h.bind h.tcgetattr fun r => by split <;> exact h.pure _) ()

theorem closed_terminalSetModes (h : ClosedTty K) (modes : Termios) : K _ (terminalSetModes modes) :=
  h.get_bind fun _ => h.ite (fun _ => h.pure _) fun _ =>
    h.bind (h.retry (h.tcsetattr _)) fun r => by cases r <;> exact h.pure _

theorem closed_terminalRestore (h : ClosedTty K) : K _ terminalRestore :=
  h.get_bind fun _ => h.ite (fun _ => h.pure _) fun _ => h.ite (fun _ => h.pure _) fun _ =>
    h.bind (closed_terminalSetPgrp h _) fun _ => h.ite (fun _ => h.pure _) fun _ =>
      h.ite (fun _ => h.bind (closed_terminalSetModes h _) fun _ => h.ite (fun _ => h.pure _) fun _ =>
        h.pure _) fun _ => h.pure _

/-! `job.c` -/

theorem closed_jobAdd (h : ClosedTable K) (pgid : Int) (command : Option Bytes) : K _ (jobAdd pgid command) := by
  unfold jobAdd
  cases command with
  | none => exact h.pure _
  | some command =>
    refine h.ite (fun _ => h.pure _) fun _ => h.bind (h.malloc _) fun r => ?_
    cases r with
    | err e => exact h.pure _
    | ok => exact h.bind (h.addJob _ _) fun _ => h.pure _

theorem closed_processAdd (h : ClosedTable K) (i : ℕ) (pid : Int) : K _ (processAdd i pid) :=
  h.ite (fun _ => h.pure _) fun _ => h.bind (h.malloc _) fun r => by
    cases r with
    | err e => exact h.pure _
    | ok => exact h.bind (h.addProcess _ _) fun _ => h.pure _

theorem closed_jobContinue (h : Closed K) (job : Job) : K _ (jobContinue job) :=
  h.ite (fun _ => h.pure _) fun _ => h.ite (fun _ => h.pure _) fun _ =>
    h.bind (h.retry (h.kill _ _)) fun r => by cases r <;> exact h.pure _

theorem closed_jobWaitForeground (h : Closed K) (job : Job) : K _ (jobWaitForeground job) :=
  h.ite (fun _ => h.pure _) fun _ => h.loop (fun job => h.ite (fun _ => h.pure _) fun _ =>
    h.bind (h.waitpid _ _) fun r => by
      split
      · exact h.pure _
      · exact h.pure _
      · exact h.pure _
      · split <;> exact h.pure _) job

theorem closed_reapProcess (h : Closed K) (process : Process) : K _ (reapProcess process) :=
  h.ite (fun _ => h.pure _) fun _ => h.bind (h.waitpid _ _) fun r => by split <;> exact h.pure _

theorem closed_jobReap (h : ClosedVars K) : K _ jobReap :=
  have job : ∀ job, K _ (reapJob job) := fun _ =>
    h.bind (h.mapList (closed_reapProcess h.toClosed) _) fun _ => h.pure _
  h.get_bind fun _ => h.bind (h.mapList job _) fun _ => h.modify fun _ => ⟨_, rfl, rfl⟩

theorem closed_shellChild (h : ClosedVars K) : K _ shellChild :=
  h.bind (closed_jobReap h) fun _ => h.table.cleanup

/-! `executor.c` -/

theorem closed_reapPid (h : Closed K) (pid : Int) : K _ (reapPid pid) :=
  h.ite (fun _ => h.pure _) fun _ => h.loop (fun _ => h.bind (h.waitpid _ _) fun r => by
    split <;> exact h.pure _) ()

theorem closed_rollbackSingle (h : Closed K) (pid : Int) : K _ (rollbackSingle pid) :=
  h.ite (fun _ => h.pure _) fun _ => h.bind (h.kill _ _) fun _ => h.bind (h.kill _ _) fun _ => closed_reapPid h pid

theorem closed_rollbackPipeline (h : Closed K) (pgid : Int) (pids : List Int) :
    K _ (rollbackPipeline pgid pids) := by
  have rest : K _ (do
      Prog.forList (fun pid => do
        if ¬ pid ≤ 0 then
          let _ ← kill pid SIGKILL) pids
      Prog.forList reapPid pids) :=
    h.bind (h.forList (fun pid => h.ite (fun _ => h.bind (h.kill _ _) fun _ => h.pure _) fun _ => h.pure _) pids)
      fun _ => h.forList (closed_reapPid h) pids
  exact h.ite (fun _ => h.bind (h.kill _ _) fun _ => rest) fun _ => rest

theorem closed_setpgidParent (h : Closed K) (pid pgid : Int) : K _ (setpgidParent pid pgid) :=
  h.bind (h.retry (h.setpgid _ _)) fun r => by split <;> exact h.pure _

theorem closed_startupGateCreate (h : Closed K) : K _ startupGateCreate :=
  h.bind h.pipe fun r => by
    cases r with
    | none => exact h.pure _
    | some gate =>
      apply h.bind (h.setCloexec _)
      intro r
      cases r with
      | err e => exact h.bind (h.close _) fun _ => h.bind (h.close _) fun _ => h.pure _
      | ok =>
        apply h.bind (h.setCloexec _)
        intro r
        cases r with
        | err e => exact h.bind (h.close _) fun _ => h.bind (h.close _) fun _ => h.pure _
        | ok => exact h.pure _

theorem closed_startupGateRelease (h : Closed K) (fd n : ℕ) : K _ (startupGateRelease fd n) := by
  induction n with
  | zero => exact h.pure _
  | succ n ih =>
    apply h.bind (h.retry (h.writeGate _))
    intro r
    cases r with
    | ok => exact ih
    | err e => exact h.pure _

theorem closed_saveTerminalModes (h : ClosedVars K) (i : ℕ) (job : Job) : K _ (saveTerminalModes i job) :=
  h.bind (closed_terminalGetModes h.toClosed _) fun _ => h.ite (fun _ => closed_updateJob h _ _) fun _ => h.pure _

theorem closed_finishRestored (h : ClosedTable K) (job : Job) (restored : Int) :
    K _ (finishRestored job restored) :=
  h.ite (fun _ => h.bind h.stopRunning fun _ => h.pure _) fun _ =>
    h.ite (fun _ => h.pure _) fun _ => h.ite (fun _ => h.pure _) fun _ =>
      h.bind (h.remove _) fun _ => h.pure _

theorem closed_finishForegroundJob (hv : ClosedVars K) (h : ClosedTty K) (i : ℕ) (terminalActive : Bool) :
    K _ (finishForegroundJob i terminalActive) := by
  apply h.get_bind
  intro w
  split
  · exact h.pure _
  · rename_i job _
    have rest : K _ (do
        let restored ← if terminalActive then terminalRestore else pure 0
        finishRestored job restored) :=
      h.ite (fun _ => h.bind (closed_terminalRestore h) fun _ => closed_finishRestored hv.table _ _) fun _ =>
        h.bind (h.pure 0) fun _ => closed_finishRestored hv.table _ _
    exact h.ite (fun _ => h.bind (closed_saveTerminalModes hv _ _) fun _ => rest) fun _ => rest

/-- The terminal is taken back when it is in use. -/
theorem closed_restoreIf (h : Closed K) {m : Sh α} (hm : K _ m) {p : Prop} [Decidable p] (ht : p → ClosedTty K) :
    K _ (do
      if p then
        let _ ← terminalRestore
      m) :=
  h.ite (fun hp => h.bind (closed_terminalRestore (ht hp)) fun _ => hm) fun _ => hm

/-- The terminal is given to the job when it is in use; only then can this fail. -/
theorem closed_setForegroundIf (h : Closed K) {m : Int → Sh α} (hm : K _ (m 0)) {p : Prop} [Decidable p]
    (ht : p → ClosedTty K) (hp : p → ∀ r, K _ (m r)) (pgid : Int) :
    K _ (do
      let r ← if p then terminalSetForeground pgid else pure 0
      m r) :=
  h.ite (fun ha => h.bind (closed_terminalSetForeground (ht ha) _) (hp ha)) fun _ => hm

section Execute

variable {com : Command} (h : ClosedTable K) (ht : ¬com.background → ClosedTty K)

include h ht

theorem closed_releaseSingle (gate1 : ℕ) (pid : Int) (terminalActive : Bool) :
    K _ (releaseSingle com gate1 pid terminalActive) :=
  h.bind (closed_startupGateRelease h.toClosed _ _) fun _ => h.ite
    (fun _ => h.bind (h.close _) fun _ => h.bind (closed_rollbackSingle h.toClosed _) fun _ =>
      h.bind (h.remove _) fun _ => closed_restoreIf h.toClosed (h.pure _) fun hp => ht hp.1)
    fun _ => h.bind (h.close _) fun _ => h.pure _

theorem closed_launchSingle : K _ (launchSingle com) := by
  apply h.bind (closed_startupGateCreate h.toClosed)
  intro gate
  cases gate with
  | none => exact h.pure _
  | some gate =>
    refine h.get_bind fun w => h.bind h.fork fun pid => h.ite (fun _ => ?_) fun _ => ?_
    · exact h.bind (h.close _) fun _ => h.bind (h.close _) fun _ => h.pure _
    · refine h.bind (h.close _) fun _ => h.bind (closed_setpgidParent h.toClosed _ _) fun r =>
        h.ite (fun _ => ?_) fun _ => ?_
      · exact h.bind (h.close _) fun _ => h.bind (closed_rollbackSingle h.toClosed _) fun _ => h.pure _
      · refine h.bind (closed_jobAdd h _ _) fun job => h.ite (fun _ => ?_) fun _ => ?_
        · exact h.bind (h.close _) fun _ => h.bind (closed_rollbackSingle h.toClosed _) fun _ => h.pure _
        · refine h.bind (closed_processAdd h _ _) fun r => h.ite (fun _ => ?_) fun _ => ?_
          · exact h.bind (h.close _) fun _ => h.bind (closed_rollbackSingle h.toClosed _) fun _ =>
              h.bind (h.remove _) fun _ => h.pure _
          · have release := closed_releaseSingle h ht gate.2 pid w.term.initialized
            refine closed_setForegroundIf h.toClosed (h.ite (fun hr => absurd hr (by decide)) fun _ => release)
              (fun hp => ht hp.1) (fun hp r => h.ite (fun _ => ?_) fun _ => release) _
            exact h.bind (h.close _) fun _ => h.bind (closed_rollbackSingle h.toClosed _) fun _ =>
              h.bind (h.remove _) fun _ => h.bind (closed_terminalRestore (ht hp.1)) fun _ => h.pure _

theorem closed_waitSingle (hv : ClosedVars K) (pid : Int) (terminalActive : Bool) :
    K _ (waitSingle com pid terminalActive) := by
  refine h.ite (fun _ => h.pure _) fun hb => h.get_bind fun w => ?_
  split
  · exact h.pure _
  · refine h.bind (closed_jobWaitForeground h.toClosed _) fun r => h.bind (closed_updateJob hv _ _) fun _ =>
      h.ite ?_ fun _ => closed_finishForegroundJob hv (ht hb) _ _
    intro _
    exact h.bind (closed_rollbackSingle h.toClosed _) fun _ =>
      closed_restoreIf h.toClosed (h.bind (h.remove _) fun _ => h.pure _) fun _ => ht hb

theorem closed_executeSingle (hv : ClosedVars K) : K _ (executeSingle com) :=
  h.bind (closed_launchSingle h ht) fun r => by
    cases r with
    | error e => exact h.pure _
    | ok l => exact closed_waitSingle h ht hv _ _

end Execute

theorem closed_stagePipe (h : Closed K) (next : List Command) : K _ (stagePipe next) :=
  h.ite (fun _ => h.bind h.pipe fun r => by cases r <;> exact h.pure _) fun _ => h.pure _

theorem closed_launchStage (h : Closed K) (gate0 gate1 : ℕ) (next : List Command) (pipefd0 pipefd1 : Int)
    (l : Launch) :
    K _ (launchStage gate0 gate1 next pipefd0 pipefd1 l) := by
  have undo : ∀ pgid pids e, K _ (do
      closeIf pipefd0
      closeIf pipefd1
      closeIf l.pipeFd
      close gate0
      close gate1
      rollbackPipeline pgid pids
      pure (.error e) : Sh (Except Int Launch)) := fun _ _ _ =>
    h.bind (closed_closeIf h _) fun _ => h.bind (closed_closeIf h _) fun _ => h.bind (closed_closeIf h _) fun _ =>
      h.bind (h.close _) fun _ => h.bind (h.close _) fun _ => h.bind (closed_rollbackPipeline h _ _) fun _ =>
        h.pure _
  refine h.bind h.fork fun pid => h.ite (fun _ => undo _ _ _) fun _ => ?_
  refine h.bind (closed_setpgidParent h _ _) fun r => h.ite (fun _ => undo _ _ _) fun _ => ?_
  exact h.bind (closed_closeIf h _) fun _ => h.ite (fun _ => h.bind (h.close _) fun _ => h.pure _) fun _ =>
    h.pure _

theorem closed_launchLoop (h : Closed K) (gate0 gate1 : ℕ) (cmds : List Command) (l : Launch) :
    K _ (launchLoop gate0 gate1 cmds l) := by
  have undo : ∀ (l : Launch) e, K _ (do
      closeIf l.pipeFd
      close gate0
      close gate1
      rollbackPipeline l.pgid l.pids
      pure (.error e) : Sh (Except Int Launch)) := fun _ _ =>
    h.bind (closed_closeIf h _) fun _ => h.bind (h.close _) fun _ => h.bind (h.close _) fun _ =>
      h.bind (closed_rollbackPipeline h _ _) fun _ => h.pure _
  induction cmds generalizing l with
  | nil => exact h.pure _
  | cons cmd next ih =>
    refine h.ite (fun _ => undo _ _) fun _ => h.bind (closed_stagePipe h _) fun r => ?_
    cases r with
    | none => exact undo _ _
    | some ends =>
      apply h.bind (closed_launchStage h _ _ _ _ _ _)
      intro r
      cases r with
      | error e => exact h.pure _
      | ok l => exact ih l

theorem closed_processAddAll (h : ClosedTable K) (pids : List Int) : K _ (processAddAll pids) := by
  induction pids with
  | nil => exact h.pure _
  | cons pid pids ih => exact h.bind (closed_processAdd h _ _) fun _ => h.ite (fun _ => h.pure _) fun _ => ih

section Execute

variable {com : Command} (h : ClosedTable K) (ht : ¬com.background → ClosedTty K)

include h ht

theorem closed_releasePipeline (gate1 : ℕ) (l : Launch) (terminalActive : Bool) :
    K _ (releasePipeline com gate1 l terminalActive) :=
  h.bind (closed_startupGateRelease h.toClosed _ _) fun _ => h.ite
    (fun _ => h.bind (h.close _) fun _ => h.bind (closed_rollbackPipeline h.toClosed _ _) fun _ =>
      h.bind (h.remove _) fun _ => closed_restoreIf h.toClosed (h.pure _) fun hp => ht hp.1)
    fun _ => h.bind (h.close _) fun _ => h.pure _

theorem closed_registerPipeline (terminalActive : Bool) (gate0 gate1 : ℕ) (l : Launch) :
    K _ (registerPipeline com terminalActive gate0 gate1 l) := by
  refine h.bind (closed_closeIf h.toClosed _) fun _ => h.bind (h.close _) fun _ =>
    h.bind (closed_jobAdd h _ _) fun job =>
    h.ite (fun _ => ?_) fun _ => ?_
  · exact h.bind (h.close _) fun _ => h.bind (closed_rollbackPipeline h.toClosed _ _) fun _ => h.pure _
  · refine h.bind (closed_processAddAll h _) fun r => h.ite (fun _ => ?_) fun _ => ?_
    · exact h.bind (h.close _) fun _ => h.bind (closed_rollbackPipeline h.toClosed _ _) fun _ =>
        h.bind (h.remove _) fun _ => h.pure _
    · have release := closed_releasePipeline h ht gate1 l terminalActive
      refine closed_setForegroundIf h.toClosed (h.ite (fun hr => absurd hr (by decide)) fun _ => release)
        (fun hp => ht hp.1) (fun hp r => h.ite ?_ fun _ => release) _
      intro _
      exact h.bind (h.close _) fun _ => h.bind (closed_rollbackPipeline h.toClosed _ _) fun _ =>
        h.bind (h.remove _) fun _ => h.bind (closed_terminalRestore (ht hp.1)) fun _ => h.pure _

theorem closed_launchPipeline (next : List Command) : K _ (launchPipeline com next) := by
  refine h.bind (closed_startupGateCreate h.toClosed) fun gate => ?_
  cases gate with
  | none => exact h.pure _
  | some gate =>
    refine h.get_bind fun w => h.bind (closed_launchLoop h.toClosed _ _ _ _) fun r => ?_
    cases r with
    | error e => exact h.pure _
    | ok l => exact closed_registerPipeline h ht _ _ _ _

theorem closed_waitPipeline (hv : ClosedVars K) (l : Launch) (terminalActive : Bool) :
    K _ (waitPipeline com l terminalActive) := by
  refine h.ite (fun _ => h.pure _) fun hb => h.get_bind fun w => ?_
  split
  · exact h.pure _
  · refine h.bind (closed_jobWaitForeground h.toClosed _) fun r => h.bind (closed_updateJob hv _ _) fun _ =>
      h.ite ?_ fun _ => closed_finishForegroundJob hv (ht hb) _ _
    intro _
    exact h.bind (closed_rollbackPipeline h.toClosed _ _) fun _ =>
      closed_restoreIf h.toClosed (h.bind (h.remove _) fun _ => h.pure _) fun _ => ht hb

/-- A command run in the background has every property of programs that leave the terminal alone. -/
theorem closed_executeCommand (hv : ClosedVars K) (next : List Command) : K _ (executeCommand com next) := by
  have pipeline : K _ (executePipeline com next) := h.bind (closed_launchPipeline h ht next) fun r => by
    cases r with
    | error e => exact h.pure _
    | ok l => exact closed_waitPipeline h ht hv _ _
  have limit : K _ checkJobLimit :=
    h.get_bind fun _ => h.ite (fun _ => h.pure _) fun _ => h.pure _
  exact h.bind limit fun _ => h.ite (fun _ => h.pure _) fun _ => h.ite (fun _ => pipeline) fun _ =>
    closed_executeSingle h ht hv

end Execute

/-! `builtin.c` and `dispatcher.c` -/

theorem closed_fgPrepare (hv : ClosedVars K) (h : ClosedTty K) : K _ fgPrepare := by
  apply h.get_bind
  intro w
  split
  · exact h.pure _
  · rename_i i job _
    have modes : K _ (fgSetModes job) := h.ite (fun _ => closed_terminalSetModes h _) fun _ => h.pure _
    have continued : K _ (fgContinue job) := h.ite (fun _ => closed_jobContinue h.toClosed _) fun _ => h.pure _
    refine h.bind (closed_terminalSetForeground h _) fun _ => h.ite (fun _ => h.pure _) fun _ =>
      h.bind modes fun _ => h.ite (fun _ => h.bind (closed_terminalRestore h) fun _ => h.pure _) fun _ =>
        h.bind continued fun _ => h.ite (fun _ => h.bind (closed_terminalRestore h) fun _ => h.pure _) fun _ =>
          h.bind (closed_updateJob hv _ _) fun _ => h.pure _

theorem closed_builtinFg (hv : ClosedVars K) (h : ClosedTty K) : K _ builtinFg := by
  have finish : ∀ i job, K _ (fgFinish i job) := fun i job =>
    h.ite (fun _ => h.bind (closed_saveTerminalModes hv _ _) fun _ => h.bind (closed_terminalRestore h) fun _ =>
      closed_finishRestored hv.table _ _) fun _ => h.bind (closed_terminalRestore h) fun _ =>
        closed_finishRestored hv.table _ _
  apply h.bind (closed_fgPrepare hv h)
  intro r
  cases r with
  | error e => exact h.pure _
  | ok x =>
    exact h.bind (closed_jobWaitForeground h.toClosed _) fun _ => h.bind (closed_updateJob hv _ _) fun _ => h.ite
      (fun _ => h.bind (closed_terminalRestore h) fun _ => h.pure _) fun _ => finish _ _

theorem closed_builtinBg (h : ClosedVars K) : K _ builtinBg := by
  apply h.get_bind
  intro w
  split
  · exact h.pure _
  · exact h.bind (closed_jobContinue h.toClosed _) fun _ => h.bind (closed_updateJob h _ _) fun _ => h.ite
      (fun _ => h.pure _) fun _ => h.pure _

theorem closed_builtinReload (h : ClosedTable K) : K _ builtinReload :=
  h.bind (h.service _) fun _ => h.ite (fun _ => h.pure _) fun _ => h.ite
    (fun _ => h.bind (h.maxJob _) fun _ => h.pure _) fun _ => h.pure _

theorem closed_service (h : Closed K) : K _ service := h.service _

/-- The builtins other than `fg` and `bg` do nothing with the jobs. -/
theorem closed_handler (h : ClosedTable K) {b : Builtin} (hfg : b ≠ .fg) (hbg : b ≠ .bg) : K _ b.handler := by
  cases b
  case fg => exact absurd rfl hfg
  case bg => exact absurd rfl hbg
  case exit => exact h.get_bind fun _ => h.bind h.stopRunning fun _ => h.pure _
  case reload => exact closed_builtinReload h
  case jobs | help | status => exact h.pure _
  all_goals exact closed_service h.toClosed

theorem closed_redirectStream (h : Closed K) (target : ℕ) (path : Bytes) (flags : OpenFlags) :
    K _ (redirectStream target path flags) := by
  apply h.bind (h.dupfd _)
  intro saved
  cases saved with
  | none => exact h.pure _
  | some saved =>
    apply h.bind (h.openFile _ _)
    intro fd
    cases fd with
    | none => exact h.pure _
    | some fd =>
      refine h.ite (fun _ => h.bind (h.retry (h.dup2 _ _)) fun r => ?_) fun _ => h.pure _
      cases r <;> exact h.bind (h.close _) fun _ => h.pure _

theorem closed_builtinApplyRedirect (h : Closed K) (cmd : Command) : K _ (builtinApplyRedirect cmd) := by
  unfold builtinApplyRedirect
  refine h.bind ?_ fun out => ?_
  · unfold redirectOutput
    split
    · exact h.pure _
    · apply h.bind h.fflush
      intro r
      cases r with
      | err e => exact h.pure _
      | ok => exact closed_redirectStream h _ _ _
  · unfold redirectInput
    apply h.ite (fun _ => h.pure _)
    intro _
    split
    · exact h.pure _
    · exact h.bind (closed_redirectStream h _ _ _) fun _ => h.pure _

theorem closed_builtinRestoreRedirect (h : Closed K) (savedOut savedIn : Int) :
    K _ (builtinRestoreRedirect savedOut savedIn) := by
  have stream : ∀ saved target, K _ (restoreStream saved target) := fun saved target =>
    h.ite (fun _ => h.bind (h.retry (h.dup2 _ _)) fun _ => h.bind (h.close _) fun _ => h.pure _) fun _ =>
      h.pure _
  exact h.bind (stream _ _) fun _ => h.bind (stream _ _) fun _ => h.pure _

theorem closed_dispatchAbandon (h : ClosedTable K) (ret savedOut savedIn : Int) :
    K _ (dispatchAbandon ret savedOut savedIn) :=
  h.bind (closed_builtinRestoreRedirect h.toClosed _ _) fun _ =>
    h.ite (fun _ => h.bind h.stopRunning fun _ => h.pure _) fun _ => h.pure _

theorem closed_dispatchRestore (h : ClosedTable K) (savedOut savedIn ret : Int) :
    K _ (dispatchRestore savedOut savedIn ret) :=
  h.bind (closed_builtinRestoreRedirect h.toClosed _ _) fun _ =>
    h.ite (fun _ => h.bind h.stopRunning fun _ => h.pure _) fun _ => h.pure _

theorem closed_dispatchFinish (h : ClosedTable K) (savedOut savedIn ret : Int) :
    K _ (dispatchFinish savedOut savedIn ret) :=
  h.bind h.fflush fun _ => closed_dispatchRestore h _ _ _

/-- What `dispatcher_command` does around a builtin. -/
theorem closed_dispatchBuiltin (h : ClosedTable K) (cmd : Command) {entry : Builtin} (hb : K _ entry.handler) :
    K _ (dispatchBuiltin cmd entry) :=
  h.bind (closed_builtinApplyRedirect h.toClosed cmd) fun _ =>
    h.ite (fun _ => closed_dispatchAbandon h _ _ _) fun _ =>
    h.bind hb fun _ => closed_dispatchFinish h _ _ _

/-- Every handler has every closed property. -/
theorem closed_anyHandler (hv : ClosedVars K) (ht : ClosedTty K) (b : Builtin) : K _ b.handler := by
  by_cases hfg : b = .fg
  · exact hfg ▸ closed_builtinFg hv ht
  · by_cases hbg : b = .bg
    · exact hbg ▸ closed_builtinBg hv
    · exact closed_handler hv.table hfg hbg

/-- **Running a command has every closed property.** -/
theorem closed_dispatcherCommand (hv : ClosedVars K) (ht : ClosedTty K) (cmd : Command) (next : List Command) :
    K _ (dispatcherCommand cmd next) := by
  unfold dispatcherCommand
  split
  · exact hv.pure _
  · apply hv.ite (fun _ => hv.pure _)
    intro _
    split
    · exact hv.ite (fun _ => hv.pure _) fun _ => closed_dispatchBuiltin hv.table _ (closed_anyHandler hv ht _)
    · exact closed_executeCommand hv.table (fun _ => ht) hv _

end MiniShell
