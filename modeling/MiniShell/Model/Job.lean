import MiniShell.Model.World

/-!
# `job.c`

The functions of `job.c` that make system calls.  A function that takes a `Job *` takes the job and
returns it as it leaves it, and its caller puts it back where the pointer points.
-/

namespace MiniShell

open MiniShell.Lib

def JOB_SHUTDOWN_RETRY_COUNT : ℕ := 50

/-- `waitpid(-pgid, &status, WUNTRACED)` in `job_wait_foreground`. -/
def WUNTRACED : WaitOpts := { nohang := false, untraced := true, continued := false }
/-- `WNOHANG | WUNTRACED | WCONTINUED` in `job_reap`. -/
def reapOpts : WaitOpts := { nohang := true, untraced := true, continued := true }
def WNOHANG : WaitOpts := { nohang := true, untraced := false, continued := false }
/-- No options: the call waits for the termination. -/
def noOpts : WaitOpts := { nohang := false, untraced := false, continued := false }

/-! ### Adding -/

/-- `job_add`; `false` is the `NULL` pointer, and a job that is added is the head of the table. -/
def jobAdd (pgid : Int) (command : Option Bytes) : Sh Bool :=
  match command with
  | none => pure false
  | some command =>
    if pgid ≤ 0 then pure false
    else do
      match ← malloc (.job pgid) with
      | .err _ => pure false
      | .ok =>
        Prog.modify (World.updateManager fun manager =>
          { head := Job.new manager.nextid pgid command :: manager.head
            nextid := manager.nextid + 1 })
        pure true

/-- `process_add` to the job at position `i`. -/
def processAdd (i : ℕ) (pid : Int) : Sh Int :=
  if pid ≤ 0 then pure (-1)
  else do
    match ← malloc (.process pid) with
    | .err _ => pure (-1)
    | .ok =>
      Prog.modify (World.updateJob i fun job =>
        { job with processes := job.processes ++ [Process.new pid] })
      pure 0

/-! ### Continuing, waiting and reaping

What these functions do depends on the answers of `waitpid` and `kill` alone, which are parameters here. -/

section Parameters

variable {σ : Type} (wait : Int → WaitOpts → Prog σ WaitRes) (signal : Int → Sig → Prog σ Res)

/-- `job_continue`; the measure bounds how often `kill` is tried again. -/
def jobContinueWith (μ : σ → ℕ) (job : Job) : Prog σ (Int × Job) :=
  if job.pgid ≤ 0 then pure (-1, job)
  else if job.status ≠ .stopped then pure (-1, job)
  else do
    match ← retryWith μ (signal (-job.pgid) SIGCONT) with
    | .err _ => pure (-1, job)
    | .ok => pure (0, jobUpdateStatus { job with processes := resumeProcesses job.processes })

/-- One round of the loop of `job_wait_foreground`. -/
def waitRoundWith (job : Job) : Prog σ (Job ⊕ (Int × Job)) :=
  if job.status ≠ .running then pure (.inr (0, job))
  else do
    match ← wait (-job.pgid) WUNTRACED with
    | .err .EINTR => pure (.inl job)
    | .err _ => pure (.inr (-1, job))
    | .nothing => pure (.inr (-1, job))
    | .report pid status =>
      match processFind job pid with
      | none => pure (.inr (-1, job))
      | some _ => pure (.inl
          (jobUpdateStatus { job with processes := applyToFirst status pid job.processes }))

/-- `job_wait_foreground`; the measure bounds the number of its rounds. -/
def jobWaitForegroundWith (μ : σ → ℕ) (job : Job) : Prog σ (Int × Job) :=
  if job.pgid ≤ 0 then pure (-1, job)
  else Prog.loop μ (waitRoundWith wait) job

/-- The body of the inner loop of `job_reap`. -/
def reapProcessWith (process : Process) : Prog σ Process :=
  if process.status = .done then pure process
  else do
    match ← wait process.pid reapOpts with
    | .err .ECHILD => pure { process with status := .done }
    | .err _ => pure process
    | .nothing => pure process
    | .report pid status =>
      pure (if pid = process.pid then processApplyWaitStatus process status else process)

def reapJobWith (job : Job) : Prog σ Job := do
  let processes ← Prog.mapList (reapProcessWith wait) job.processes
  pure (jobUpdateStatus { job with processes := processes })

/-- The outer loop of `job_reap`. -/
def reapJobsWith (jobs : List Job) : Prog σ (List Job) := Prog.mapList (reapJobWith wait) jobs

end Parameters

def jobContinue (job : Job) : Sh (Int × Job) := jobContinueWith kill (fun w => w.script.length) job

/-- The number of reports that wait to be collected under `WUNTRACED`. -/
def Kernel.pending (k : Kernel) : ℕ := k.children.countP fun c => (c.state.report WUNTRACED).isSome

/-- A bound on how often `waitpid` can still answer: every answer uses up a piece of the script or, when
that has run out, one of the reports. -/
def waitMeasure (w : World) : ℕ :=
  w.script.length * (w.kernel.children.length + 1) + w.kernel.pending

def jobWaitForeground (job : Job) : Sh (Int × Job) := jobWaitForegroundWith waitpid waitMeasure job

def reapProcess (process : Process) : Sh Process := reapProcessWith waitpid process

def reapJob (job : Job) : Sh Job := reapJobWith waitpid job

def jobReap : Sh Unit := do
  let w ← Prog.get
  let jobs ← reapJobsWith waitpid w.jobs
  Prog.modify (World.setJobs jobs)

def jobCleanup : Sh Unit := Prog.modify (World.updateManager jobCleanupDone)

/-! ### Shutdown -/

/-- `process_try_reap`, with the entry it leaves.  `waitpid(pid, ..)` reports no other pid, so the case
of another one, in which C reads an old `errno`, does not occur. -/
def processTryReap (process : Process) : Sh (Bool × Process) :=
  if process.status = .done then pure (true, process)
  else Prog.loop (fun w => w.script.length) (fun () => do
    match ← waitpid process.pid WNOHANG with
    | .report pid status =>
      if pid = process.pid then pure (.inr (true, processApplyWaitStatus process status))
      else pure (.inr (false, process))
    | .nothing => pure (.inr (false, process))
    | .err .EINTR => pure (.inl ())
    | .err .ECHILD => pure (.inr (true, { process with status := .done }))
    | .err _ => pure (.inr (false, process))) ()

/-- `process_force_reap`, with the entry it leaves. -/
def processForceReap (process : Process) : Sh Process :=
  if process.status = .done then pure process
  else Prog.loop (fun w => w.script.length) (fun () => do
    match ← waitpid process.pid noOpts with
    | .report pid status =>
      if pid = process.pid then pure (.inr (processApplyWaitStatus process status))
      else pure (.inr process)
    | .nothing => pure (.inr process)
    | .err .EINTR => pure (.inl ())
    | .err .ECHILD => pure (.inr { process with status := .done })
    | .err _ => pure (.inr process)) ()

/-- The inner loop of `jobmanager_try_reap_all`. -/
def tryReapJob (job : Job) : Sh (Bool × Job) := do
  let results ← Prog.mapList processTryReap job.processes
  pure (results.all Prod.fst, jobUpdateStatus { job with processes := results.map Prod.snd })

def jobmanagerTryReapAll : Sh Bool := do
  let w ← Prog.get
  let results ← Prog.mapList tryReapJob w.jobs
  Prog.modify (World.setJobs (results.map Prod.snd))
  pure (results.all Prod.fst)

def continueStoppedJob (job : Job) : Sh Job := do
  if job.pgid > 0 then
    let _ ← kill (-job.pgid) SIGCONT
  pure (jobUpdateStatus { job with processes := resumeProcesses job.processes })

/-- The first loop of `job_shutdown`. -/
def continueStoppedJobs : Sh Unit := do
  let w ← Prog.get
  let jobs ← Prog.mapList
    (fun job => if job.status = .stopped then continueStoppedJob job else pure job) w.jobs
  Prog.modify (World.setJobs jobs)

/-- The second loop of `job_shutdown`. -/
def terminateJobs : Sh Unit := do
  let w ← Prog.get
  Prog.forList (fun job => do
    if job.status ≠ .done ∧ job.pgid > 0 then
      let _ ← kill (-job.pgid) SIGTERM) w.jobs

/-- The loop that gives the jobs time to terminate. -/
def tryReapRounds : ℕ → Sh Unit
  | 0 => pure ()
  | n + 1 => do
    if ← jobmanagerTryReapAll then pure ()
    else
      nanosleep
      tryReapRounds n

/-- The fourth loop of `job_shutdown`. -/
def killJobs : Sh Unit := do
  let w ← Prog.get
  Prog.forList (fun job => do
    if job.pgid > 0 then
      let _ ← kill (-job.pgid) SIGKILL) w.jobs

def forceReapJob (job : Job) : Sh Job := do
  let processes ← Prog.mapList processForceReap job.processes
  pure (jobUpdateStatus { job with processes := processes })

/-- The last loop of `job_shutdown`. -/
def forceReapJobs : Sh Unit := do
  let w ← Prog.get
  let jobs ← Prog.mapList forceReapJob w.jobs
  Prog.modify (World.setJobs jobs)

def jobShutdown : Sh Unit := do
  let w ← Prog.get
  if w.jobs = [] then
    Prog.modify (World.updateManager fun manager => { manager with nextid := 1 })
  else
    continueStoppedJobs
    terminateJobs
    tryReapRounds JOB_SHUTDOWN_RETRY_COUNT
    killJobs
    forceReapJobs
    Prog.modify (World.updateManager jobDestroy)

end MiniShell
