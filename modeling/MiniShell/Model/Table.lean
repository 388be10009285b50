import MiniShell.Kernel.Kernel

/-!
# Commands, jobs and the shell context

The data of `command.h`, `job.h`, `error.h`, `config.h` and `shell_context.h`, and the functions of
`job.c` that only read or change a job or the table.  A linked list is a list in the order of its
`next` pointers, so a pointer to a list is the list and `NULL` is `[]`; a C string is the list of its
bytes without the final NUL.
-/

namespace MiniShell

/-- The bytes of a C string. -/
abbrev Bytes : Type := List UInt8

/-- The C string at the start of an array. -/
def cString (buffer : Bytes) : Bytes := buffer.takeWhile (· ≠ 0)

/-- The largest `int`. -/
def INT_MAX : ℕ := 2147483647

/-- The decimal representation `snprintf` writes for `%d`; its buffer has room for every `int`. -/
def decimal (n : Int) : Bytes :=
  (if n < 0 then [45] else []) ++ (Nat.toDigits 10 n.natAbs).map fun c => UInt8.ofNat c.toNat

/-! ### `error.h` -/

namespace MiniShellError

def ok : Int := 0
def errUnknown : Int := -1
def errMemory : Int := -2
def errFork : Int := -3
def errPipe : Int := -4
def errExec : Int := -5
def errOpen : Int := -6
def errParse : Int := -7
def errJob : Int := -8
def errDup2 : Int := -9

/-- The error codes of the shell. -/
def errors : List Int :=
  [errUnknown, errMemory, errFork, errPipe, errExec, errOpen, errParse, errJob, errDup2]

theorem errors_neg : ∀ e ∈ errors, e < 0 := by decide

end MiniShellError

/-! ### `command.h` -/

structure Redirection where
  inputFile : Option Bytes
  outputFile : Option Bytes
  append : Bool
  deriving DecidableEq

/-- One command of a chain; the chain itself is a list of commands. -/
structure Command where
  argc : ℕ
  argv : List Bytes
  background : Bool
  redirect : Redirection
  deriving DecidableEq

/-! ### `job.h` -/

inductive JobStatus where
  | running | stopped | done
  deriving DecidableEq

inductive ProcessStatus where
  | running | stopped | done
  deriving DecidableEq

structure Process where
  pid : Int
  status : ProcessStatus
  waitStatus : ℕ
  waitStatusValid : Bool
  deriving DecidableEq

structure Job where
  id : ℕ
  pgid : Int
  status : JobStatus
  command : Bytes
  processes : List Process
  terminalModes : Termios
  terminalModesValid : Bool
  deriving DecidableEq

structure JobManager where
  head : List Job
  nextid : ℕ
  deriving DecidableEq

/-! ### `config.h` and `shell_context.h` -/

structure MiniShellConfig where
  prompts : Bytes
  maxJob : Int
  debug : Int
  deriving DecidableEq

/-- The fields of the context that the job control works with; the input line is kept apart. -/
structure ShellContext where
  running : Bool
  jobs : JobManager
  lastExitStatus : Int
  config : MiniShellConfig
  deriving DecidableEq

/-- The static variables of `terminal.c`. -/
structure Terminal where
  shellPgid : Int
  initialized : Bool
  shellModesValid : Bool
  shellModes : Termios
  deriving DecidableEq

/-! ### `job.c`, on one job -/

/-- The state a new process entry starts with. -/
def Process.new (pid : Int) : Process :=
  { pid := pid, status := .running, waitStatus := 0, waitStatusValid := false }

/-- The pids of the entries of a job. -/
def Job.pids (job : Job) : List Int := job.processes.map Process.pid

def processFind (job : Job) (pid : Int) : Option Process :=
  if pid ≤ 0 then none else job.processes.find? fun process => process.pid == pid

/-- The status of a job is aggregated from its entries; a job without entries keeps the one it has. -/
def jobUpdateStatus (job : Job) : Job :=
  if job.processes = [] then job
  else if job.processes.any fun process => process.status == .running then
    { job with status := .running }
  else if job.processes.any fun process => process.status == .stopped then
    { job with status := .stopped }
  else
    { job with status := .done }

def processApplyWaitStatus (process : Process) (status : ℕ) : Process :=
  let process := { process with waitStatus := status, waitStatusValid := true }
  if WIFEXITED status || WIFSIGNALED status then { process with status := .done }
  else if WIFSTOPPED status then { process with status := .stopped }
  else if WIFCONTINUED status then { process with status := .running }
  else process

/-- Store the status in the first entry for `pid`, the one `process_find` returns. -/
def applyToFirst (status : ℕ) (pid : Int) : List Process → List Process
  | [] => []
  | process :: rest =>
    if process.pid = pid then processApplyWaitStatus process status :: rest
    else process :: applyToFirst status pid rest

def jobLastProcess (job : Job) : Option Process := job.processes.getLast?

def jobExitStatus (job : Job) : Int :=
  match jobLastProcess job with
  | none => -1
  | some process =>
    if process.waitStatusValid then
      if WIFEXITED process.waitStatus then WEXITSTATUS process.waitStatus
      else if WIFSIGNALED process.waitStatus then 128 + WTERMSIG process.waitStatus
      else -1
    else -1

/-- The entries `job_continue` and `continue_stopped_job` leave behind. -/
def resumeProcesses (processes : List Process) : List Process :=
  processes.map fun process =>
    if process.status = .stopped then { process with status := .running } else process

/-- `job_init`, then the fields `job_add` fills in; 127 bytes of the command fit its buffer. -/
def Job.new (id : ℕ) (pgid : Int) (command : Bytes) : Job :=
  { id := id, pgid := pgid, status := .running, command := command.take 127, processes := []
    terminalModes := 0, terminalModesValid := false }

/-! ### `job.c`, on the table -/

def jobmanagerInit : JobManager := { head := [], nextid := 1 }

def jobCountActive (manager : JobManager) : ℕ :=
  manager.head.countP fun job => job.status == .running || job.status == .stopped

/-- `job_remove`: the first job with this group is unlinked. -/
def jobRemove (pgid : Int) (manager : JobManager) : JobManager :=
  if pgid ≤ 0 then manager
  else { manager with head := manager.head.eraseP fun job => job.pgid == pgid }

def jobCleanupDone (manager : JobManager) : JobManager :=
  { manager with head := manager.head.filter fun job => job.status != .done }

def jobDestroy (_ : JobManager) : JobManager := { head := [], nextid := 1 }

/-! ### Small facts about the entries of a job -/

@[simp] theorem jobUpdateStatus_processes (job : Job) :
    (jobUpdateStatus job).processes = job.processes := by
  unfold jobUpdateStatus
  repeat' split
  all_goals rfl

@[simp] theorem jobUpdateStatus_pgid (job : Job) : (jobUpdateStatus job).pgid = job.pgid := by
  unfold jobUpdateStatus
  repeat' split
  all_goals rfl

@[simp] theorem jobUpdateStatus_id (job : Job) : (jobUpdateStatus job).id = job.id := by
  unfold jobUpdateStatus
  repeat' split
  all_goals rfl

@[simp] theorem processApplyWaitStatus_pid (process : Process) (status : ℕ) :
    (processApplyWaitStatus process status).pid = process.pid := by
  unfold processApplyWaitStatus
  dsimp only
  repeat' split
  all_goals rfl

/-- A termination makes an entry `PROCESS_DONE` with a valid status. -/
@[simp] theorem processApplyWaitStatus_ended (process : Process) (t : Termination) :
    processApplyWaitStatus process t.status =
      { process with status := .done, waitStatus := t.status, waitStatusValid := true } := by
  simp [processApplyWaitStatus]

@[simp] theorem processApplyWaitStatus_stopped (process : Process) (sig : Sig) :
    processApplyWaitStatus process (Change.stopped sig).status =
      { process with
        status := .stopped, waitStatus := (Change.stopped sig).status, waitStatusValid := true } := by
  simp [processApplyWaitStatus]

@[simp] theorem processApplyWaitStatus_continued (process : Process) :
    processApplyWaitStatus process Change.continued.status =
      { process with
        status := .running, waitStatus := Change.continued.status, waitStatusValid := true } := by
  simp [processApplyWaitStatus]

@[simp] theorem applyToFirst_pids (status : ℕ) (pid : Int) (l : List Process) :
    (applyToFirst status pid l).map Process.pid = l.map Process.pid := by
  induction l with
  | nil => rfl
  | cons process rest ih =>
    unfold applyToFirst
    split <;> simp [ih]

@[simp] theorem resumeProcesses_pids (l : List Process) :
    (resumeProcesses l).map Process.pid = l.map Process.pid := by
  unfold resumeProcesses
  rw [List.map_map]
  apply List.map_congr_left
  intro process _
  simp only [Function.comp]
  split <;> rfl

/-- The status of a job with entries after `job_update_status`. -/
theorem jobUpdateStatus_running {job : Job} :
    (jobUpdateStatus job).status = .running ↔
      (job.processes = [] ∧ job.status = .running) ∨ ∃ p ∈ job.processes, p.status = .running := by
  unfold jobUpdateStatus
  split
  · simp_all
  · split
    · simp_all
    · split <;> simp_all

theorem jobUpdateStatus_stopped {job : Job} (h : job.processes ≠ []) :
    (jobUpdateStatus job).status = .stopped ↔
      (∀ p ∈ job.processes, p.status ≠ .running) ∧ ∃ p ∈ job.processes, p.status = .stopped := by
  unfold jobUpdateStatus
  rw [if_neg h]
  split
  · simp_all
  · split <;> simp_all

theorem jobUpdateStatus_done {job : Job} (h : job.processes ≠ []) :
    (jobUpdateStatus job).status = .done ↔ ∀ p ∈ job.processes, p.status = .done := by
  unfold jobUpdateStatus
  rw [if_neg h]
  split
  · rename_i hr
    simp only [List.any_eq_true, beq_iff_eq] at hr
    obtain ⟨p, hp, hs⟩ := hr
    simp only [reduceCtorEq, false_iff, not_forall]
    exact ⟨p, hp, by simp [hs]⟩
  · rename_i hr
    split
    · rename_i hs
      simp only [List.any_eq_true, beq_iff_eq] at hs
      obtain ⟨p, hp, hs⟩ := hs
      simp only [reduceCtorEq, false_iff, not_forall]
      exact ⟨p, hp, by simp [hs]⟩
    · rename_i hs
      simp only [true_iff]
      intro p hp
      simp only [List.any_eq_true, beq_iff_eq, not_exists, not_and] at hr hs
      have h1 := hr p hp
      have h2 := hs p hp
      cases hps : p.status <;> simp_all

end MiniShell
