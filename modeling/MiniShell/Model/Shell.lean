import MiniShell.Model.Dispatcher

/-!
# `shell.c`

The main loop.  What it is given from outside in one iteration is a `Round`: the results of writing the prompt, of
`select`, and of the reads that follow.  A `Session` is the world with the input line that is being read; it also
keeps how much has been read from descriptor 0 and what has been done with it.

`parse_line` is a parameter: what it makes of a line in a session is the chain of commands, if there is one, and
the value it leaves in `last_exit_status`; the one of `parser.c` also depends on which allocations succeed.
-/

namespace MiniShell

open MiniShell.Lib

def SHELL_INPUT_SIZE : ℕ := 4096

def newline : UInt8 := 10
def carriageReturn : UInt8 := 13

/-- The fields of the context that hold the input line; `buffer` are the bytes of `input_buffer`. -/
structure ShellInput where
  buffer : Bytes
  length : ℕ
  discarding : Bool
  deriving DecidableEq

/-! ### What comes from outside -/

/-- The result of `read(STDIN_FILENO, &ch, 1)`. -/
inductive ReadRes where
  | byte (ch : UInt8)
  | eof
  | err (e : Errno)
  deriving DecidableEq

/-- What the shell finds when the event descriptor is ready: `event_drain` fails, or the events are taken and,
after an interrupt, a newline is written. -/
inductive EventRes where
  | drainFailed
  | taken (child interrupt : Bool) (newlineWritten : Bool)
  deriving DecidableEq

/-- The result of `select`, with what is then read from the descriptors that are ready. -/
inductive SelectRes where
  | err (e : Errno)
  | ready (event : Option EventRes) (input : Option ReadRes)
  deriving DecidableEq

/-- What one iteration of the main loop is given; `promptWritten` only matters when there is a prompt to write. -/
structure Round where
  promptWritten : Bool
  select : SelectRes
  deriving DecidableEq

inductive ShellStatus where
  | ok | error
  deriving DecidableEq

/-- What the shell has done with its input, with the number of bytes that had been read from descriptor 0: a call
of `parse_line`, or the refusal of a line that is too long. -/
inductive Action where
  | parse (line : Bytes) (consumed : ℕ)
  | overlong (consumed : ℕ)
  deriving DecidableEq

structure Session where
  world : World
  input : ShellInput
  prompt : Bool
  consumed : ℕ
  actions : List Action

/-- What `parse_line` makes of a line: the chain, and `last_exit_status`. -/
abbrev ParseLine : Type := Bytes → Session → Option (Command × List Command) × Int

/-- A function that works on the world alone. -/
def liftSh {α : Type} (m : Sh α) : Prog Session α := fun s =>
  match m s.world with
  | .done a w => .done a { s with world := w }
  | .blocked w => .blocked { s with world := w }

def World.setExitStatus (status : Int) (w : World) : World :=
  { w with ctx := { w.ctx with lastExitStatus := status } }

/-! ### The functions of `shell.c` -/

def shellNormalizeStatus (status : Int) : Int := if status < 0 then 1 else status

def shellResetInput (input : ShellInput) : ShellInput :=
  { buffer := input.buffer.set 0 0, length := 0, discarding := false }

/-- The first half of `shell_dispatch_input`: a final `'\r'` is dropped and the string is terminated. -/
def terminateInput (input : ShellInput) : ShellInput :=
  let length :=
    if 0 < input.length ∧ input.buffer[input.length - 1]? = some carriageReturn then input.length - 1
    else input.length
  { input with buffer := input.buffer.set length 0, length := length }

/-- `dispatcher_command` and what is done with its result. -/
def shellCommand (cmd : Command) (next : List Command) : Sh Unit := do
  let status ← dispatcherCommand cmd next
  Prog.modify (World.setExitStatus (shellNormalizeStatus status))

def shellDispatchInput (parseLine : ParseLine) : Prog Session Unit := do
  Prog.modify fun s => { s with input := terminateInput s.input }
  let s ← Prog.get
  let line := cString s.input.buffer
  Prog.modify fun s => { s with actions := s.actions ++ [.parse line s.consumed] }
  let (cmdList, status) := parseLine line s
  liftSh (Prog.modify (World.setExitStatus status))
  match cmdList with
  | some (cmd, next) => liftSh (shellCommand cmd next)
  | none => pure ()
  Prog.modify fun s => { s with input := shellResetInput s.input }

/-- `shell_read_input` on what `read` returned: the result, `line_done` and `eof`. -/
def shellReadInput (parseLine : ParseLine) : ReadRes → Prog Session (Int × Bool × Bool)
  | .err .EINTR => pure (0, false, false)
  | .err _ => pure (-1, false, false)
  | .eof => do
    let s ← Prog.get
    if ¬ s.input.discarding ∧ s.input.length > 0 then shellDispatchInput parseLine
    else Prog.modify fun s => { s with input := shellResetInput s.input }
    pure (0, true, true)
  | .byte ch => do
    Prog.modify fun s => { s with consumed := s.consumed + 1 }
    let s ← Prog.get
    if s.input.discarding then
      if ch = newline then
        Prog.modify fun s => { s with input := shellResetInput s.input }
        pure (0, true, false)
      else pure (0, false, false)
    else if ch = newline then
      shellDispatchInput parseLine
      pure (0, true, false)
    else if s.input.length + 1 ≥ SHELL_INPUT_SIZE then
      liftSh (Prog.modify (World.setExitStatus 2))
      Prog.modify fun s =>
        { s with
          input := { s.input with length := 0, discarding := true }
          actions := s.actions ++ [.overlong s.consumed] }
      pure (0, false, false)
    else
      Prog.modify fun s =>
        { s with input := { s.input with
          buffer := s.input.buffer.set s.input.length ch
          length := s.input.length + 1 } }
      pure (0, false, false)

/-- What `shell_run` does about `SIGCHLD`. -/
def shellChild : Sh Unit := do
  jobReap
  jobCleanup

/-- The part of the loop of `shell_run` that handles the events; `some` ends the loop. -/
def shellEvents : EventRes → Prog Session (Option ShellStatus)
  | .drainFailed => pure (some .error)
  | .taken child interrupt newlineWritten => do
    if child then liftSh shellChild
    if interrupt then
      Prog.modify fun s => { s with input := shellResetInput s.input }
      if ¬ newlineWritten then pure (some .error)
      else
        Prog.modify fun s => { s with prompt := true }
        pure none
    else pure none

/-- The part of the loop of `shell_run` that reads the input. -/
def shellInput (parseLine : ParseLine) (r : ReadRes) : Prog Session (Option ShellStatus) := do
  let (ret, lineDone, eof) ← shellReadInput parseLine r
  if ret < 0 then pure (some .error)
  else
    if lineDone then Prog.modify fun s => { s with prompt := true }
    if eof then pure (some .ok) else pure none

/-- The loop of `shell_run` from `select` on. -/
def shellSelect (parseLine : ParseLine) : SelectRes → Prog Session (Option ShellStatus)
  | .err .EINTR => pure none
  | .err _ => pure (some .error)
  | .ready event input => do
    let ended ← match event with
      | none => pure none
      | some e => shellEvents e
    match ended with
    | some status => pure (some status)
    | none => do
      let s ← Prog.get
      if ¬ s.world.ctx.running then pure (some .ok)
      else
        match input with
        | none => pure none
        | some r => shellInput parseLine r

/-- One iteration of the loop of `shell_run`; `some` is the status `shell_run` returns. -/
def shellRound (parseLine : ParseLine) (round : Round) : Prog Session (Option ShellStatus) := do
  let s ← Prog.get
  if s.prompt ∧ ¬ round.promptWritten then pure (some .error)
  else
    Prog.modify fun s => { s with prompt := false }
    shellSelect parseLine round.select

/-- The loop of `shell_run`; when there is nothing more to come it waits in `select`. -/
def shellLoop (parseLine : ParseLine) : List Round → Prog Session ShellStatus
  | [] => do
    let s ← Prog.get
    if ¬ s.world.ctx.running then pure .ok else Prog.block
  | round :: rounds => do
    let s ← Prog.get
    if ¬ s.world.ctx.running then pure .ok
    else
      match ← shellRound parseLine round with
      | some status => pure status
      | none => shellLoop parseLine rounds

/-- `shell_context_destroy`, the part of `shell_cleanup` that concerns the jobs. -/
def shellContextDestroy : Sh Unit := do
  stopRunning
  jobShutdown

/-- `main`, from `shell_run` on. -/
def shellMain (parseLine : ParseLine) (rounds : List Round) : Prog Session Int := do
  let runStatus ← shellLoop parseLine rounds
  let s ← Prog.get
  let exitStatus := s.world.ctx.lastExitStatus
  liftSh shellContextDestroy
  if runStatus ≠ .ok then pure 1 else pure exitStatus

/-- What the parent of the shell is told when `main` returns a value: its low 8 bits. -/
def exitCode (ret : Int) : Int := ret % 256

/-- What `shell_context_init` and `shell_run` start with. -/
structure Session.Started (s : Session) : Prop where
  status : s.world.ctx.lastExitStatus = 0
  running : s.world.ctx.running = true
  jobs : s.world.ctx.jobs = jobmanagerInit
  buffer : s.input.buffer.length = SHELL_INPUT_SIZE
  length : s.input.length = 0
  discarding : s.input.discarding = false
  prompt : s.prompt = true
  consumed : s.consumed = 0
  actions : s.actions = []

end MiniShell
