import MiniShell.Lib.Trace
import MiniShell.Model.Job

/-!
# The job table under any kernel

The machine whose steps are the calls of the functions of `job.c` on one `JobManager`, with `waitpid`, `kill` and
`malloc` answering whatever they like.
-/

namespace MiniShell

open MiniShell.Lib

/-! ### The machine -/

/-- An answer of `waitpid`, with what it was asked for. -/
structure Told where
  target : Int
  answer : WaitRes
  deriving DecidableEq

/-- A job table among system calls that answer what the lists say.  `told` records the answers of `waitpid`, `added`
the entries that `process_add` has made, with the id of their job. -/
structure Desk where
  manager : JobManager
  waits : List WaitRes
  kills : List Res
  told : List Told
  added : List (ℕ × Int)
  deriving DecidableEq

namespace Desk

/-- `jobmanager_init`. -/
def init (waits : List WaitRes) (kills : List Res) : Desk := ⟨jobmanagerInit, waits, kills, [], []⟩

def wait (target : Int) (_ : WaitOpts) : Prog Desk WaitRes := fun d =>
  match d.waits with
  | [] => .blocked d
  | r :: rs => .done r { d with waits := rs, told := d.told ++ [⟨target, r⟩] }

def signal (_ : Int) (_ : Sig) : Prog Desk Res := fun d =>
  match d.kills with
  | [] => .blocked d
  | r :: rs => .done r { d with kills := rs }

def setJobs (jobs : List Job) (d : Desk) : Desk := { d with manager := { d.manager with head := jobs } }

end Desk

/-- A call of a function of `job.c`.  A pointer into the table is a position in its list; a position outside stands
for the `NULL` pointer. -/
inductive TableOp
  | jobAdd (pgid : Int) (command : Option Bytes) (malloc : Res)
  /-- To the newest job. -/
  | processAdd (pid : Int) (malloc : Res)
  | reap
  | waitForeground (i : ℕ)
  | continue (i : ℕ)
  | cleanupDone
  | remove (pgid : Int)
  deriving DecidableEq

namespace TableOp

def runJobAdd (pgid : Int) (command : Option Bytes) (malloc : Res) (d : Desk) : Desk :=
  match command, malloc with
  | some command, .ok =>
    if pgid ≤ 0 then d
    else { d with manager :=
      { head := Job.new d.manager.nextid pgid command :: d.manager.head, nextid := d.manager.nextid + 1 } }
  | _, _ => d

def runProcessAdd (pid : Int) (malloc : Res) (d : Desk) : Desk :=
  match d.manager.head, malloc with
  | job :: jobs, .ok =>
    if pid ≤ 0 then d
    else { d.setJobs ({ job with processes := job.processes ++ [Process.new pid] } :: jobs) with
      added := d.added ++ [(job.id, pid)] }
  | _, _ => d

/-- A function that gets the job at position `i` and changes it in place. -/
def runOnJob (f : Job → Prog Desk (Int × Job)) (i : ℕ) : Prog Desk Unit := do
  let d ← Prog.get
  match d.manager.head[i]? with
  | none => pure ()
  | some job =>
    let (_, job) ← f job
    Prog.modify fun d => d.setJobs (d.manager.head.set i job)

def run : TableOp → Prog Desk Unit
  | .jobAdd pgid command malloc => Prog.modify (runJobAdd pgid command malloc)
  | .processAdd pid malloc => Prog.modify (runProcessAdd pid malloc)
  | .reap => do
    let d ← Prog.get
    let jobs ← reapJobsWith Desk.wait d.manager.head
    Prog.modify (Desk.setJobs jobs)
  | .waitForeground i => runOnJob (jobWaitForegroundWith Desk.wait fun d => d.waits.length) i
  | .continue i => runOnJob (jobContinueWith Desk.signal fun d => d.kills.length) i
  | .cleanupDone => Prog.modify fun d => { d with manager := jobCleanupDone d.manager }
  | .remove pgid => Prog.modify fun d => { d with manager := jobRemove pgid d.manager }

/-- The entries are added to a job of which `fresh` says that nothing has been reported yet. -/
def allowed (fresh : Job → Bool) (d : Desk) : TableOp → Bool
  | .processAdd _ _ => match d.manager.head with
    | [] => true
    | job :: _ => fresh job
  | _ => true

end TableOp

/-- One step of the machine; it is none when the call is not allowed, or waits for ever. -/
def tableStep (fresh : Job → Bool) (d : Desk) (op : TableOp) : Option Desk :=
  if op.allowed fresh d then
    match op.run d with
    | .done _ d' => some d'
    | .blocked _ => none
  else none

/-- The number of calls of `job_add`. -/
def jobAdds (ops : List TableOp) : ℕ := ops.countP fun op => match op with
  | .jobAdd .. => true
  | _ => false

end MiniShell
