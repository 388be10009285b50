import MiniShell.Model.Startup

/-!
# `main`

What `main` does around the loop of `shell_run`: the standard descriptors, the event pipe, the terminal and the signals
are set up, and all but the standard descriptors are put back.  A `ShellProcess` is a session with the static variables
of `event.c` and `terminal.c` and with what the kernel keeps of the process itself.

The calls take their decisions from the script of the world, as the calls of `World` do.  Each is recorded with the
descriptors and the event pipe of its moment, also when it is made by a function that `main` shares with the commands.
-/

namespace MiniShell

open MiniShell.Lib

/-- A descriptor must be smaller to be in an `fd_set`. -/
def FD_SETSIZE : Int := 1024

inductive Device where
  | null | tty
  deriving DecidableEq

/-- The flags the devices are opened with: `O_RDONLY`, `O_WRONLY` and `O_RDWR | O_CLOEXEC`. -/
inductive DeviceFlags where
  | readOnly | writeOnly | readWriteCloexec
  deriving DecidableEq

/-- The result of `fcntl` with `F_GETFD` or `F_GETFL`. -/
inductive FlagsRes where
  | flags
  /-- `EBADF` -/
  | badFd
  | err (e : Errno)
  deriving DecidableEq

/-- The calls of `main` outside `shell_run` that no command makes, with their results. -/
inductive SetupCall where
  | getFd (fd : ℕ) (r : FlagsRes)
  | getFl (fd : ℕ) (r : FlagsRes)
  | setNonblock (fd : ℕ) (r : Res)
  | setCloexec (fd : ℕ) (r : Res)
  | openDevice (device : Device) (flags : DeviceFlags) (fd : Option ℕ)
  | dup2 (old new : ℕ) (r : Res)
  | close (fd : ℕ)
  | pipe (ends : Option (ℕ × ℕ))
  | isatty (fd : ℕ) (r : Bool)
  | tcgetpgrp (pgid : Option Int)
  | kill (target : Int) (sig : Sig) (r : Res)
  | setpgid (r : Res)
  | sigprocmask (blocked : List Sig) (r : Res)
  | sigaction (sig : Sig) (d : Disposition) (r : Res)

/-- The calls of `main` outside `shell_run`. -/
inductive MainCall where
  | setup (call : SetupCall)
  /-- a call of a function that commands use too -/
  | shell (call : Call)

/-- A call, with the descriptors and the event pipe of the moment in which it is made. -/
structure Moment where
  call : MainCall
  fds : FdTable Fd
  eventPipe : Int × Int

structure ShellProcess where
  session : Session
  /-- `event_pipe` -/
  eventPipe : Int × Int
  /-- `terminal_fd`; the other variables of `terminal.c` are those of the world -/
  terminalFd : Int
  /-- the ends of pipes that have `O_NONBLOCK` -/
  nonblocking : List Desc
  action : Sig → Disposition
  blocked : List Sig
  pid : Int
  moments : List Moment

namespace ShellProcess

variable (p : ShellProcess)

def world : World := p.session.world
def kernel : Kernel := p.session.world.kernel
def fds : FdTable Fd := p.session.world.kernel.fds
def term : Terminal := p.session.world.term

def setWorld (w : World) : ShellProcess := { p with session := { p.session with world := w } }
def setKernel (k : Kernel) : ShellProcess := p.setWorld { p.world with kernel := k }
def setTerm (term : Terminal) : ShellProcess := p.setWorld { p.world with term := term }

/-- The moment in which a call is made. -/
def moment (call : SetupCall) : Moment := ⟨.setup call, p.fds, p.eventPipe⟩

/-- The moments of the calls in a log. -/
def momentsOf (log : List Event) : List Moment :=
  log.filterMap fun
    | .call c k _ => some ⟨.shell c, k.fds, p.eventPipe⟩
    | .env _ => none

/-- The world becomes `w`, and the calls of its log that are new are recorded. -/
def advance (w : World) : ShellProcess :=
  { p.setWorld w with moments := p.moments ++ p.momentsOf (w.log.drop p.world.log.length) }

end ShellProcess

/-- Programs of `main`. -/
abbrev Main (α : Type) : Type := Prog ShellProcess α

/-- A call of `main` whose effect is `f`. -/
def setupCall {ρ : Type} (f : Choice → ShellProcess → ρ × ShellProcess) (call : ρ → SetupCall) :
    Main ρ := fun p =>
  let (used, c, rest) := nextChoice p.world.script
  let p₁ := p.setWorld (p.world.drift used rest)
  let (r, p₂) := f c p₁
  .done r { p₂ with moments := p₂.moments ++ [p₁.moment (call r)] }

/-- A call whose effect on the kernel is `f`. -/
def setupKernel {ρ : Type} (f : Choice → Kernel → ρ × Kernel) (call : ρ → SetupCall) : Main ρ :=
  setupCall (fun c p => ((f c p.kernel).1, p.setKernel (f c p.kernel).2)) call

/-- A function that works on the session alone. -/
def liftSession {α : Type} (m : Prog Session α) : Main α := fun p =>
  match m p.session with
  | .done a s => .done a { p with session := s }
  | .blocked s => .blocked { p with session := s }

/-- A function that works on the world alone. -/
def liftWorld {α : Type} (m : Sh α) : Main α := fun p =>
  match m p.world with
  | .done a w => .done a (p.advance w)
  | .blocked w => .blocked (p.advance w)

/-! ### The calls -/

/-- What a query about the flags of `fd` is answered. -/
def flagsRes (fd : ℕ) (c : Choice) (k : Kernel) : FlagsRes :=
  match c with
  | .fail e => .err e
  | _ => if k.fds.IsOpen fd then .flags else .badFd

/-- `fcntl(fd, F_GETFD)` -/
def getFd (fd : ℕ) : Main FlagsRes := setupKernel (fun c k => (flagsRes fd c k, k)) (.getFd fd)

/-- `fcntl(fd, F_GETFL)` -/
def getFl (fd : ℕ) : Main FlagsRes := setupKernel (fun c k => (flagsRes fd c k, k)) (.getFl fd)

/-- `fcntl(fd, F_SETFL, flags | O_NONBLOCK)` -/
def setNonblock (fd : ℕ) : Main Res :=
  setupCall (fun c p => match c with
    | .fail e => (.err e, p)
    | _ => (.ok, { p with nonblocking := p.nonblocking ++ ((p.fds.find fd).map Fd.desc).toList })) (.setNonblock fd)

/-- `fcntl(fd, F_SETFD, flags | FD_CLOEXEC)` -/
def setCloexecFlag (fd : ℕ) : Main Res := setupKernel (Kernel.setCloexec fd) (.setCloexec fd)

/-- The device gets the lowest free descriptor. -/
def Kernel.openDevice (flags : DeviceFlags) (c : Choice) (k : Kernel) : Option ℕ × Kernel :=
  match c with
  | .fail _ => (none, k)
  | _ => (some (k.fds.lowestFree 0), { k with
      fds := (k.fds.lowestFree 0, ⟨.file k.created, decide (flags = .readWriteCloexec)⟩) :: k.fds
      created := k.created + 1 })

def openDevice (device : Device) (flags : DeviceFlags) : Main (Option ℕ) :=
  setupKernel (Kernel.openDevice flags) (.openDevice device flags)

def setupDup2 (old new : ℕ) : Main Res := setupKernel (Kernel.dup2 old new) (.dup2 old new)

def setupClose (fd : ℕ) : Main Unit := setupKernel (fun _ k => ((), k.close fd)) fun _ => .close fd

def setupPipe : Main (Option (ℕ × ℕ)) := setupKernel Kernel.pipe .pipe

def isatty (fd : ℕ) : Main Bool :=
  setupKernel (fun c k => (match c with
    | .fail _ => false
    | _ => true, k)) (.isatty fd)

def tcgetpgrp : Main (Option Int) :=
  setupKernel (fun c k => (match c with
    | .fail _ => none
    | _ => some k.ttyPgrp, k)) .tcgetpgrp

/-- `kill(-shell_group, SIGTTIN)`, which stops the shell until it is continued, at the next decision of the script; when
there is none it is stopped for ever. -/
def killGroup (group : Int) : Main Res := fun p =>
  if p.world.script = [] then .blocked { p with moments := p.moments ++ [p.moment (.kill (-group) SIGTTIN .ok)] }
  else setupKernel (fun c k => (plainRes c, k)) (.kill (-group) SIGTTIN) p

/-- `setpgid(0, 0)` -/
def setpgidSelf : Main Res :=
  setupCall (fun c p => match c with
    | .fail e => (.err e, p)
    | _ => (.ok, p.setKernel { p.kernel with shellPgrp := p.pid })) .setpgid

def getpgrp : Main Int := do
  let p ← Prog.get
  pure p.kernel.shellPgrp

/-- The mask becomes `blocked`. -/
def sigprocmask (blocked : List Sig) : Main Res :=
  setupCall (fun c p => match c with
    | .fail e => (.err e, p)
    | _ => (.ok, { p with blocked := blocked })) (.sigprocmask blocked)

def sigaction (sig : Sig) (d : Disposition) : Main Res :=
  setupCall (fun c p => match c with
    | .fail e => (.err e, p)
    | _ => (.ok, { p with action := setAction sig d p.action })) (.sigaction sig d)

/-! ### The standard descriptors -/

def ensureStandardFd (target : ℕ) (flags : DeviceFlags) : Main Int := do
  match ← getFd target with
  | .flags => pure 0
  | .err _ => pure (-1)
  | .badFd =>
    match ← openDevice .null flags with
    | none => pure (-1)
    | some fd =>
      if fd ≠ target then
        match ← setupDup2 fd target with
        | .err _ =>
          setupClose fd
          pure (-1)
        | .ok =>
          setupClose fd
          pure 0
      else pure 0

def ensureStandardFds : Main Int := do
  let r ← ensureStandardFd 0 .readOnly
  if r < 0 then pure (-1)
  else
    let r ← ensureStandardFd 1 .writeOnly
    if r < 0 then pure (-1)
    else
      let r ← ensureStandardFd 2 .writeOnly
      if r < 0 then pure (-1) else pure 0

/-! ### `event.c` -/

def eventSetFlags (fd : ℕ) : Main Int := do
  match ← getFl fd with
  | .flags =>
    match ← setNonblock fd with
    | .err _ => pure (-1)
    | .ok =>
      match ← getFd fd with
      | .flags =>
        match ← setCloexecFlag fd with
        | .err _ => pure (-1)
        | .ok => pure 0
      | _ => pure (-1)
  | _ => pure (-1)

def eventShut : Main Unit := do
  let p ← Prog.get
  if p.eventPipe.2 ≥ 0 then
    Prog.modify fun p => { p with eventPipe := (p.eventPipe.1, -1) }
    setupClose p.eventPipe.2.toNat
  if p.eventPipe.1 ≥ 0 then
    Prog.modify fun p => { p with eventPipe := (-1, p.eventPipe.2) }
    setupClose p.eventPipe.1.toNat

def eventInit : Main Int := do
  let p ← Prog.get
  if p.eventPipe.1 ≥ 0 ∧ p.eventPipe.2 ≥ 0 then pure 0
  else
    if p.eventPipe.1 ≥ 0 ∨ p.eventPipe.2 ≥ 0 then eventShut
    match ← setupPipe with
    | none =>
      Prog.modify fun p => { p with eventPipe := (-1, -1) }
      pure (-1)
    | some (r, w) =>
      Prog.modify fun p => { p with eventPipe := (r, w) }
      let ret ← eventSetFlags r
      if ret < 0 then
        eventShut
        pure (-1)
      else
        let ret ← eventSetFlags w
        if ret < 0 then
          eventShut
          pure (-1)
        else pure 0

/-! ### `terminal.c` -/

/-- What stands at the label `fail` of `terminal_init`. -/
def terminalFail : Main Int := do
  let p ← Prog.get
  setupClose p.terminalFd.toNat
  Prog.modify fun p =>
    { p.setTerm { p.term with shellPgid := -1, shellModesValid := false } with terminalFd := -1 }
  pure (-1)

/-- The loop of `terminal_init`: the shell stops itself until its group is in the foreground. -/
def awaitForeground (group : Int) : Main (Option Int) :=
  Prog.loop (fun p => p.world.script.length) (fun group => do
    match ← tcgetpgrp with
    | none => pure (.inr none)
    | some foreground =>
      if foreground < 0 then pure (.inr none)
      else if foreground = group then pure (.inr (some group))
      else
        match ← killGroup group with
        | .err .EINTR => pure (.inl group)
        | .err _ => pure (.inr none)
        | .ok =>
          let group ← getpgrp
          pure (.inl group)) group

/-- The shell becomes the leader of its group, unless it is: its group, or `none` when that has failed. -/
def leadGroup (group : Int) : Main (Option Int) := do
  let p ← Prog.get
  if group ≠ p.pid then
    match ← setpgidSelf with
    | .ok =>
      let group ← getpgrp
      pure (some group)
    | .err .EACCES =>
      let group ← getpgrp
      pure (some group)
    | .err _ => pure none
  else pure (some group)

/-- `terminal_init` from the block of `SIGTTOU` on; the mask was `old`. -/
def terminalTake (group : Int) (old : List Sig) : Main Int := do
  match ← leadGroup group with
  | none =>
    let _ ← sigprocmask old
    terminalFail
  | some group =>
    Prog.modify fun p => p.setTerm { p.term with shellPgid := group }
    let r ← liftWorld (terminalSetPgrp group)
    if r < 0 then
      let _ ← sigprocmask old
      terminalFail
    else
      match ← sigprocmask old with
      | .err _ => terminalFail
      | .ok =>
        match ← liftWorld tcgetattr with
        | (some modes, _) =>
          Prog.modify fun p => p.setTerm
            { p.term with shellModes := modes, shellModesValid := true, initialized := true }
          pure 0
        | (none, _) => terminalFail

def terminalInit : Main Int := do
  Prog.modify fun p =>
    { p.setTerm { p.term with initialized := false, shellPgid := -1, shellModesValid := false } with terminalFd := -1 }
  let tty ← isatty 0
  if ¬ tty then pure 0
  else
    match ← openDevice .tty .readWriteCloexec with
    | none => pure (-1)
    | some fd =>
      Prog.modify fun p => { p with terminalFd := fd }
      let group ← getpgrp
      match ← awaitForeground group with
      | none => terminalFail
      | some group =>
        let p ← Prog.get
        match ← sigprocmask (SIGTTOU :: p.blocked) with
        | .err _ => terminalFail
        | .ok => terminalTake group p.blocked

def terminalShutdown : Main Unit := do
  let p ← Prog.get
  if p.term.initialized then
    let _ ← liftWorld terminalRestore
  if p.terminalFd ≥ 0 then setupClose p.terminalFd.toNat
  Prog.modify fun p =>
    { p.setTerm { p.term with initialized := false, shellPgid := -1, shellModesValid := false } with terminalFd := -1 }

/-! ### `sig.c` -/

/-- Make calls of `sigaction` until one fails. -/
def sigactions : List (Sig × Disposition) → Main Int
  | [] => pure 0
  | (sig, d) :: l => do
    match ← sigaction sig d with
    | .err _ => pure (-1)
    | .ok => sigactions l

def signalInit : Main Int := sigactions signalInitActions

def signalShutdown : Main Unit := do
  let p ← Prog.get
  match ← sigprocmask (SIGINT :: SIGCHLD :: p.blocked) with
  | .err _ => pure ()
  | .ok =>
    let _ ← sigaction SIGINT .ignored
    let _ ← sigaction SIGCHLD .ignored
    let _ ← sigprocmask p.blocked

/-! ### `shell.c` and `main.c` -/

/-- `shell_context_init`, with the configuration it has found. -/
def shellContextInit (config : MiniShellConfig) (s : Session) : Session :=
  { s with
    world := { s.world with ctx := { running := true, jobs := jobmanagerInit, lastExitStatus := 0, config := config } }
    input := { buffer := List.replicate SHELL_INPUT_SIZE 0, length := 0, discarding := false } }

def shellInit (config : MiniShellConfig) : Main ShellStatus := do
  Prog.modify fun p => { p with session := shellContextInit config p.session }
  let r ← eventInit
  if r < 0 then
    liftWorld shellContextDestroy
    pure .error
  else
    let r ← terminalInit
    if r < 0 then
      eventShut
      liftWorld shellContextDestroy
      pure .error
    else
      let r ← signalInit
      if r < 0 then
        signalShutdown
        terminalShutdown
        eventShut
        liftWorld shellContextDestroy
        pure .error
      else pure .ok

def shellRun (parseLine : ParseLine) (rounds : List Round) : Main ShellStatus := do
  let p ← Prog.get
  if p.eventPipe.1 < 0 then pure .error
  else if p.eventPipe.1 ≥ FD_SETSIZE then pure .error
  else
    Prog.modify fun p => { p with session := { p.session with prompt := true, consumed := 0, actions := [] } }
    liftSession (shellLoop parseLine rounds)

def shellCleanup : Main Unit := do
  liftWorld shellContextDestroy
  signalShutdown
  eventShut
  terminalShutdown
  let _ ← liftWorld (retry fflush)

/-- `main` -/
def mainProgram (parseLine : ParseLine) (config : MiniShellConfig) (rounds : List Round) : Main Int := do
  let r ← ensureStandardFds
  if r < 0 then pure 1
  else
    match ← shellInit config with
    | .error => pure 1
    | .ok =>
      let runStatus ← shellRun parseLine rounds
      let p ← Prog.get
      let exitStatus := p.world.ctx.lastExitStatus
      shellCleanup
      if runStatus ≠ .ok then pure 1 else pure exitStatus

end MiniShell
