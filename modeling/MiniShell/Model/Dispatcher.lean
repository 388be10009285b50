import MiniShell.Model.Executor

/-!
# `builtin.c`, `builtin_table.c` and `dispatcher.c`

The builtins that work on jobs, and the dispatcher that runs a parsed command.
-/

namespace MiniShell

open MiniShell.Lib MiniShellError

/-! ### `fg` and `bg` -/

def Job.isActive (job : Job) : Bool := job.status == .running || job.status == .stopped

def Job.isStopped (job : Job) : Bool := job.status == .stopped

/-- The first job that satisfies `p`, with its position in the list. -/
def findJob (p : Job → Bool) : List Job → Option (ℕ × Job)
  | [] => none
  | job :: jobs => if p job then some (0, job) else (findJob p jobs).map fun x => (x.1 + 1, x.2)

/-- `if (job->terminal_modes_valid && terminal_set_modes(&job->terminal_modes) < 0)`. -/
def fgSetModes (job : Job) : Sh Int :=
  if job.terminalModesValid then terminalSetModes job.terminalModes else pure 0

/-- `if (job->status == JOB_STOPPED && job_continue(job) < 0)`. -/
def fgContinue (job : Job) : Sh (Int × Job) :=
  if job.status = .stopped then jobContinue job else pure (0, job)

/-- `builtin_fg` up to the call of `job_wait_foreground`: an error, or the job and its position. -/
def fgPrepare : Sh (Except Int (ℕ × Job)) := do
  let w ← Prog.get
  match findJob Job.isActive w.jobs with
  | none => pure (.error errJob)
  | some (i, job) =>
    let r ← terminalSetForeground job.pgid
    if r < 0 then pure (.error errUnknown)
    else
      let r ← fgSetModes job
      if r < 0 then
        let _ ← terminalRestore
        pure (.error errUnknown)
      else
        let (r, job) ← fgContinue job
        if r < 0 then
          let _ ← terminalRestore
          pure (.error errJob)
        else
          Prog.modify (World.updateJob i fun _ => job)
          pure (.ok (i, job))

/-- `builtin_fg` after the wait has succeeded. -/
def fgFinish (i : ℕ) (job : Job) : Sh Int := do
  if job.status = .stopped then saveTerminalModes i job
  let r ← terminalRestore
  finishRestored job r

def builtinFg : Sh Int := do
  match ← fgPrepare with
  | .error e => pure e
  | .ok (i, job) =>
    let (r, job) ← jobWaitForeground job
    Prog.modify (World.updateJob i fun _ => job)
    if r < 0 then
      let _ ← terminalRestore
      pure errUnknown
    else fgFinish i job

def builtinBg : Sh Int := do
  let w ← Prog.get
  match findJob Job.isStopped w.jobs with
  | none => pure errJob
  | some (i, job) =>
    let (r, job) ← jobContinue job
    Prog.modify (World.updateJob i fun _ => job)
    if r < 0 then pure errJob else pure ok

/-! ### The other builtins -/

/-- What a builtin that reads or changes something outside the model returns: `MiniShell_OK` or an error. -/
def service : Sh Int :=
  syscall (fun c k => (match c with
    | .ok => ok
    | .fail _ => errUnknown
    | .pick n => min n 0, k)) .service

def builtinExit : Sh Int := do
  let w ← Prog.get
  Prog.modify fun w => { w with ctx := { w.ctx with running := false } }
  pure w.ctx.lastExitStatus

/-- What `builtin_status` prints. -/
def builtinStatusText (ctx : ShellContext) : Bytes := decimal ctx.lastExitStatus ++ [10]

/-- `builtin_reload`: what the file says is up to the environment, and the job control only reads
`max_job`, of which `config_load` accepts the positive numbers. -/
def builtinReload : Sh Int := do
  let n ← syscall (fun c k => (match c with
    | .fail _ => (-1 : Int)
    | .ok => 0
    | .pick n => max n 0, k)) .service
  if n < 0 then pure errUnknown
  else
    if n > 0 then
      Prog.modify fun w =>
        { w with ctx := { w.ctx with config := { w.ctx.config with maxJob := n } } }
    pure ok

inductive Builtin where
  | cd | pwd | exit | jobs | help | status | sysinfo | monitor | psinfo | dtinfo | hwinfo | led
  | fg | bg | reload
  deriving DecidableEq

/-- The bytes of an ASCII word. -/
def ascii (s : List Char) : Bytes := s.map fun c => c.toNat.toUInt8

/-- `builtin_table`. -/
def builtinTable : List (Bytes × Builtin) :=
  [(ascii ['c', 'd'], .cd), (ascii ['p', 'w', 'd'], .pwd), (ascii ['e', 'x', 'i', 't'], .exit),
    (ascii ['j', 'o', 'b', 's'], .jobs), (ascii ['h', 'e', 'l', 'p'], .help),
    (ascii ['s', 't', 'a', 't', 'u', 's'], .status),
    (ascii ['s', 'y', 's', 'i', 'n', 'f', 'o'], .sysinfo),
    (ascii ['m', 'o', 'n', 'i', 't', 'o', 'r'], .monitor),
    (ascii ['p', 's', 'i', 'n', 'f', 'o'], .psinfo),
    (ascii ['d', 't', 'i', 'n', 'f', 'o'], .dtinfo),
    (ascii ['h', 'w', 'i', 'n', 'f', 'o'], .hwinfo), (ascii ['l', 'e', 'd'], .led),
    (ascii ['f', 'g'], .fg), (ascii ['b', 'g'], .bg),
    (ascii ['r', 'e', 'l', 'o', 'a', 'd'], .reload)]

def builtinLookup (name : Bytes) : Option Builtin :=
  (builtinTable.find? fun entry => entry.1 == name).map Prod.snd

/-- `entry->handler`. -/
def Builtin.handler : Builtin → Sh Int
  | .fg => builtinFg
  | .bg => builtinBg
  | .exit => builtinExit
  | .reload => builtinReload
  | .jobs | .help | .status => pure ok
  | .cd | .pwd | .sysinfo | .monitor | .psinfo | .dtinfo | .hwinfo | .led => service

/-! ### `dispatcher.c` -/

/-- The part of `builtin_apply_redirect` that redirects one of the standard descriptors: the result, and
the descriptor the old one is saved in or -1. -/
def redirectStream (target : ℕ) (path : Bytes) (flags : OpenFlags) : Sh (Int × Int) := do
  match ← dupfd target with
  | none => pure (errDup2, -1)
  | some saved =>
    match ← openFile path flags with
    | none => pure (errOpen, saved)
    | some fd =>
      if fd ≠ target then
        match ← retry (dup2 fd target) with
        | .err _ =>
          close fd
          pure (errDup2, saved)
        | .ok =>
          close fd
          pure (ok, saved)
      else pure (ok, saved)

/-- The flags `builtin_apply_redirect` opens the output file with. -/
def Command.outputFlags (cmd : Command) : OpenFlags :=
  if cmd.redirect.append then .createAppend else .createTruncate

/-- `builtin_apply_redirect` up to the output file: the result and `saved_out`. -/
def redirectOutput (cmd : Command) : Sh (Int × Int) :=
  match cmd.redirect.outputFile with
  | none => pure (ok, -1)
  | some path => do
    match ← fflush with
    | .err _ => pure (errUnknown, -1)
    | .ok => redirectStream 1 path cmd.outputFlags

/-- `builtin_apply_redirect` from the input file on. -/
def redirectInput (cmd : Command) (out : Int × Int) : Sh (Int × Int × Int) :=
  if out.1 ≠ ok then pure (out.1, out.2, -1)
  else
    match cmd.redirect.inputFile with
    | none => pure (ok, out.2, -1)
    | some path => do
      let (r, savedIn) ← redirectStream 0 path .readOnly
      pure (r, out.2, savedIn)

/-- `builtin_apply_redirect`: the result, `saved_out` and `saved_in`. -/
def builtinApplyRedirect (cmd : Command) : Sh (Int × Int × Int) := do
  let out ← redirectOutput cmd
  redirectInput cmd out

/-- The part of `builtin_restore_redirect` that restores one of the standard descriptors. -/
def restoreStream (saved : Int) (target : ℕ) : Sh Int :=
  if saved ≥ 0 then do
    let r ← retry (dup2 saved.toNat target)
    close saved.toNat
    pure (if r = .ok then ok else errDup2)
  else pure ok

def builtinRestoreRedirect (savedOut savedIn : Int) : Sh Int := do
  let r₁ ← restoreStream savedOut 1
  let r₂ ← restoreStream savedIn 0
  pure (if r₁ ≠ ok ∨ r₂ ≠ ok then errDup2 else ok)

def commandChainHasBuiltin (chain : List Command) : Bool :=
  chain.any fun cmd => match cmd.argv0 with
    | none => false
    | some name => (builtinLookup name).isSome

def stopRunning : Sh Unit := Prog.modify fun w => { w with ctx := { w.ctx with running := false } }

/-- `dispatcher_command` when the redirection has failed with `ret`. -/
def dispatchAbandon (ret savedOut savedIn : Int) : Sh Int := do
  let restore ← builtinRestoreRedirect savedOut savedIn
  if restore ≠ ok then stopRunning
  pure ret

/-- `dispatcher_command` after the flush behind the handler, with the result `ret` so far. -/
def dispatchRestore (savedOut savedIn ret : Int) : Sh Int := do
  let restore ← builtinRestoreRedirect savedOut savedIn
  if restore ≠ ok then
    stopRunning
    pure restore
  else pure ret

/-- `dispatcher_command` after the handler has returned `ret`. -/
def dispatchFinish (savedOut savedIn ret : Int) : Sh Int := do
  let flushed ← fflush
  dispatchRestore savedOut savedIn (if flushed ≠ .ok ∧ ret = ok then errUnknown else ret)

/-- `dispatcher_command` from the builtin's entry on. -/
def dispatchBuiltin (cmd : Command) (entry : Builtin) : Sh Int := do
  let (ret, savedOut, savedIn) ← builtinApplyRedirect cmd
  if ret ≠ ok then dispatchAbandon ret savedOut savedIn
  else
    let ret ← entry.handler
    dispatchFinish savedOut savedIn ret

/-- `dispatcher_command` on the chain of `cmd` and `next`. -/
def dispatcherCommand (cmd : Command) (next : List Command) : Sh Int :=
  match cmd.argv0 with
  | none => pure errUnknown
  | some name =>
    if next ≠ [] ∧ commandChainHasBuiltin (cmd :: next) then pure errParse
    else
      match builtinLookup name with
      | some entry => if cmd.background then pure errParse else dispatchBuiltin cmd entry
      | none => executeCommand cmd next

end MiniShell
