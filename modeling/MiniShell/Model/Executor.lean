import MiniShell.Model.Job
import MiniShell.Model.Terminal

/-!
# `executor.c`

The parent's side of starting and waiting for external commands.  What a child does after `fork` is part of the
environment here; its prologue up to `execvp` is the subject of `Startup`.

`launchSingle` and `launchPipeline` are `execute_single` and `execute_pipeline` up to the point where the gate has
been opened: they return the error the function returns, or what it goes on with.
-/

namespace MiniShell

open MiniShell.Lib MiniShellError

def MAX_PIPELINE : ℕ := 64

/-- The word `com->argv[0]`, `none` for `NULL`. -/
def Command.argv0 (com : Command) : Option Bytes := com.argv.head?

/-! ### Small steps -/

def setpgidParent (pid pgid : Int) : Sh Int := do
  match ← retry (setpgid pid pgid) with
  | .ok => pure 0
  | .err .EACCES => pure 0
  | .err .ESRCH => pure 0
  | .err _ => pure (-1)

/-- The gate, read end first; `none` when it could not be created.  The two `fcntl` calls of `set_cloexec` are one
call that succeeds or fails. -/
def startupGateCreate : Sh (Option (ℕ × ℕ)) := do
  match ← pipe with
  | none => pure none
  | some (gate0, gate1) =>
    match ← setCloexec gate0 with
    | .err _ =>
      close gate0
      close gate1
      pure none
    | .ok =>
      match ← setCloexec gate1 with
      | .err _ =>
        close gate0
        close gate1
        pure none
      | .ok => pure (some (gate0, gate1))

/-- `startup_gate_release(fd, count)`. -/
def startupGateRelease (fd : ℕ) : ℕ → Sh Int
  | 0 => pure 0
  | count + 1 => do
    match ← retry (writeGate fd) with
    | .ok => startupGateRelease fd count
    | .err _ => pure (-1)

def reapPid (pid : Int) : Sh Unit :=
  if pid ≤ 0 then pure ()
  else Prog.loop (fun w => w.script.length) (fun () => do
    match ← waitpid pid noOpts with
    | .err .EINTR => pure (.inl ())
    | _ => pure (.inr ())) ()

def rollbackSingle (pid : Int) : Sh Unit :=
  if pid ≤ 0 then pure ()
  else do
    let _ ← kill (-pid) SIGKILL
    let _ ← kill pid SIGKILL
    reapPid pid

def rollbackPipeline (pgid : Int) (pids : List Int) : Sh Unit := do
  if pgid > 0 then
    let _ ← kill (-pgid) SIGKILL
  Prog.forList (fun pid => do
    if ¬ pid ≤ 0 then
      let _ ← kill pid SIGKILL) pids
  Prog.forList reapPid pids

/-- `if (fd >= 0) close(fd);` -/
def closeIf (fd : Int) : Sh Unit := if fd ≥ 0 then close fd.toNat else pure ()

def jobRemoveM (pgid : Int) : Sh Unit := Prog.modify (World.updateManager (jobRemove pgid))

def checkJobLimit : Sh Int := do
  let w ← Prog.get
  if (jobCountActive w.ctx.jobs : Int) ≥ w.ctx.config.maxJob then pure errJob else pure ok

/-! ### After the wait -/

/-- The modes of the terminal are saved in the stopped job at position `i`. -/
def saveTerminalModes (i : ℕ) (job : Job) : Sh Unit := do
  let (r, modes) ← terminalGetModes job.terminalModes
  if r = 0 then
    Prog.modify (World.updateJob i fun job =>
      { job with terminalModes := modes, terminalModesValid := true })

/-- What `finish_foreground_job` and `builtin_fg` do with their job when the terminal is the shell's again, or
could not be taken back. -/
def finishRestored (job : Job) (restored : Int) : Sh Int :=
  if restored < 0 then do
    Prog.modify fun w => { w with ctx := { w.ctx with running := false } }
    pure errUnknown
  else if job.status = .stopped then pure ok
  else if job.status ≠ .done then pure errUnknown
  else do
    let status := jobExitStatus job
    jobRemoveM job.pgid
    pure (if status < 0 then errUnknown else status)

/-- `finish_foreground_job` on the job at position `i`. -/
def finishForegroundJob (i : ℕ) (terminalActive : Bool) : Sh Int := do
  let w ← Prog.get
  match w.jobs[i]? with
  | none => pure errUnknown
  | some job =>
    if terminalActive ∧ job.status = .stopped then saveTerminalModes i job
    let restored ← if terminalActive then terminalRestore else pure 0
    finishRestored job restored

/-! ### `execute_single` -/

/-- The opening of the gate in `execute_single`. -/
def releaseSingle (com : Command) (gate1 : ℕ) (pid : Int) (terminalActive : Bool) :
    Sh (Except Int (Int × Bool)) := do
  let r ← startupGateRelease gate1 1
  if r < 0 then
    close gate1
    rollbackSingle pid
    jobRemoveM pid
    if ¬ com.background ∧ terminalActive then
      let _ ← terminalRestore
    pure (.error errUnknown)
  else
    close gate1
    pure (.ok (pid, terminalActive))

/-- `execute_single` up to the opened gate: an error, or the pid and whether the terminal is in use. -/
def launchSingle (com : Command) : Sh (Except Int (Int × Bool)) := do
  match ← startupGateCreate with
  | none => pure (.error errPipe)
  | some (gate0, gate1) =>
    let terminalActive ← terminalIsInitialized
    let pid ← fork
    if pid < 0 then
      close gate0
      close gate1
      pure (.error errFork)
    else
      close gate0
      let r ← setpgidParent pid pid
      if r < 0 then
        close gate1
        rollbackSingle pid
        pure (.error errUnknown)
      else
        let job ← jobAdd pid com.argv0
        if ¬ job then
          close gate1
          rollbackSingle pid
          pure (.error errJob)
        else
          let r ← processAdd 0 pid
          if r < 0 then
            close gate1
            rollbackSingle pid
            jobRemoveM pid
            pure (.error errJob)
          else
            let r ← if ¬ com.background ∧ terminalActive then terminalSetForeground pid else pure 0
            if r < 0 then
              close gate1
              rollbackSingle pid
              jobRemoveM pid
              let _ ← terminalRestore
              pure (.error errUnknown)
            else
              releaseSingle com gate1 pid terminalActive

/-- `execute_single` from the opened gate on. -/
def waitSingle (com : Command) (pid : Int) (terminalActive : Bool) : Sh Int :=
  if com.background then pure ok
  else do
    let w ← Prog.get
    match w.jobs[0]? with
    | none => pure errUnknown
    | some job =>
      let (r, job) ← jobWaitForeground job
      Prog.modify (World.updateJob 0 fun _ => job)
      if r < 0 then
        rollbackSingle pid
        if terminalActive then
          let _ ← terminalRestore
        jobRemoveM pid
        pure errUnknown
      else finishForegroundJob 0 terminalActive

def executeSingle (com : Command) : Sh Int := do
  match ← launchSingle com with
  | .error e => pure e
  | .ok (pid, terminalActive) => waitSingle com pid terminalActive

/-! ### `execute_pipeline` -/

/-- What the loop of `execute_pipeline` carries. -/
structure Launch where
  /-- the read end of the previous pipe, or -1 -/
  pipeFd : Int
  /-- the group of the pipeline, 0 before the first fork -/
  pgid : Int
  /-- the first `count` entries of the array `pids` -/
  pids : List Int
  deriving DecidableEq

/-- `pipe(pipefd)` when there is a next command: the two ends, or two times -1 when there is none; `none`
when `pipe` has failed. -/
def stagePipe (next : List Command) : Sh (Option (Int × Int)) :=
  if next ≠ [] then do
    match ← pipe with
    | some (r, w) => pure (some ((r : Int), (w : Int)))
    | none => pure none
  else pure (some (-1, -1))

/-- One round of the `while (current)` loop of `execute_pipeline`, from `fork` on. -/
def launchStage (gate0 gate1 : ℕ) (next : List Command) (pipefd0 pipefd1 : Int) (l : Launch) :
    Sh (Except Int Launch) := do
  let pid ← fork
  if pid < 0 then
    closeIf pipefd0
    closeIf pipefd1
    closeIf l.pipeFd
    close gate0
    close gate1
    rollbackPipeline l.pgid l.pids
    pure (.error errFork)
  else
    let pids := l.pids ++ [pid]
    let pgid := if l.pgid = 0 then pid else l.pgid
    let r ← setpgidParent pid pgid
    if r < 0 then
      closeIf pipefd0
      closeIf pipefd1
      closeIf l.pipeFd
      close gate0
      close gate1
      rollbackPipeline pgid pids
      pure (.error errUnknown)
    else
      closeIf l.pipeFd
      if next ≠ [] then
        close pipefd1.toNat
        pure (.ok { pipeFd := pipefd0, pgid := pgid, pids := pids })
      else pure (.ok { pipeFd := -1, pgid := pgid, pids := pids })

/-- The `while (current)` loop of `execute_pipeline`. -/
def launchLoop (gate0 gate1 : ℕ) : List Command → Launch → Sh (Except Int Launch)
  | [], l => pure (.ok l)
  | _ :: next, l =>
    if l.pids.length ≥ MAX_PIPELINE then do
      closeIf l.pipeFd
      close gate0
      close gate1
      rollbackPipeline l.pgid l.pids
      pure (.error errUnknown)
    else do
      match ← stagePipe next with
      | none =>
        closeIf l.pipeFd
        close gate0
        close gate1
        rollbackPipeline l.pgid l.pids
        pure (.error errPipe)
      | some (pipefd0, pipefd1) =>
        match ← launchStage gate0 gate1 next pipefd0 pipefd1 l with
        | .error e => pure (.error e)
        | .ok l => launchLoop gate0 gate1 next l

/-- The loop that registers the processes; it stops at the first failure. -/
def processAddAll : List Int → Sh Int
  | [] => pure 0
  | pid :: pids => do
    let r ← processAdd 0 pid
    if r < 0 then pure (-1) else processAddAll pids

/-- The opening of the gate in `execute_pipeline`. -/
def releasePipeline (com : Command) (gate1 : ℕ) (l : Launch) (terminalActive : Bool) :
    Sh (Except Int (Launch × Bool)) := do
  let r ← startupGateRelease gate1 l.pids.length
  if r < 0 then
    close gate1
    rollbackPipeline l.pgid l.pids
    jobRemoveM l.pgid
    if ¬ com.background ∧ terminalActive then
      let _ ← terminalRestore
    pure (.error errUnknown)
  else
    close gate1
    pure (.ok (l, terminalActive))

/-- `execute_pipeline` from the loop to the opened gate. -/
def registerPipeline (com : Command) (terminalActive : Bool) (gate0 gate1 : ℕ) (l : Launch) :
    Sh (Except Int (Launch × Bool)) := do
  closeIf l.pipeFd
  close gate0
  let job ← jobAdd l.pgid com.argv0
  if ¬ job then
    close gate1
    rollbackPipeline l.pgid l.pids
    pure (.error errJob)
  else
    let r ← processAddAll l.pids
    if r < 0 then
      close gate1
      rollbackPipeline l.pgid l.pids
      jobRemoveM l.pgid
      pure (.error errJob)
    else
      let r ← if ¬ com.background ∧ terminalActive then terminalSetForeground l.pgid else pure 0
      if r < 0 then
        close gate1
        rollbackPipeline l.pgid l.pids
        jobRemoveM l.pgid
        let _ ← terminalRestore
        pure (.error errUnknown)
      else
        releasePipeline com gate1 l terminalActive

/-- `execute_pipeline` up to the opened gate; the chain is `com` and the commands after it. -/
def launchPipeline (com : Command) (next : List Command) : Sh (Except Int (Launch × Bool)) := do
  match ← startupGateCreate with
  | none => pure (.error errPipe)
  | some (gate0, gate1) =>
    let terminalActive ← terminalIsInitialized
    match ← launchLoop gate0 gate1 (com :: next) { pipeFd := -1, pgid := 0, pids := [] } with
    | .error e => pure (.error e)
    | .ok l => registerPipeline com terminalActive gate0 gate1 l

/-- `execute_pipeline` from the opened gate on. -/
def waitPipeline (com : Command) (l : Launch) (terminalActive : Bool) : Sh Int :=
  if com.background then pure ok
  else do
    let w ← Prog.get
    match w.jobs[0]? with
    | none => pure errUnknown
    | some job =>
      let (r, job) ← jobWaitForeground job
      Prog.modify (World.updateJob 0 fun _ => job)
      if r < 0 then
        rollbackPipeline l.pgid l.pids
        if terminalActive then
          let _ ← terminalRestore
        jobRemoveM l.pgid
        pure errUnknown
      else finishForegroundJob 0 terminalActive

def executePipeline (com : Command) (next : List Command) : Sh Int := do
  match ← launchPipeline com next with
  | .error e => pure e
  | .ok (l, terminalActive) => waitPipeline com l terminalActive

/-- `execute_command` on the chain of `com` and `next`. -/
def executeCommand (com : Command) (next : List Command) : Sh Int := do
  let r ← checkJobLimit
  if r ≠ ok then pure r
  else if next ≠ [] then executePipeline com next
  else executeSingle com

end MiniShell
