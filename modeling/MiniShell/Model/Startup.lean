import MiniShell.Model.Child
import MiniShell.Model.Shell

/-!
# The children of a launch, before they become programs

`child_prepare_before_gate`, cut into the calls between which the parent, the other children, the terminal and the rest
of the world can act.  A child has descriptors and a signal state of its own, which it inherits at `fork`; it shares
the startup gate with the parent and the other children.

A `Startup` is the whole launch: the calls the parent has still to make, the bytes in the gate and the children.  The
parent's calls are those in the log of a launch, and each party takes its next step whenever it likes.
-/

namespace MiniShell

open MiniShell.Lib MiniShellError

/-! ### Signals -/

def SIGPIPE : Sig := ⟨13, by decide, by decide⟩
def SIGCHLD : Sig := ⟨17, by decide, by decide⟩
def SIGSTOP : Sig := ⟨19, by decide, by decide⟩
def SIGTTOU : Sig := ⟨22, by decide, by decide⟩
def SIGURG : Sig := ⟨23, by decide, by decide⟩
def SIGWINCH : Sig := ⟨28, by decide, by decide⟩

/-- What a process does about a signal: `SIG_DFL`, `SIG_IGN` or `signal_handler`. -/
inductive Disposition where
  | default | ignored | handled
  deriving DecidableEq

/-- What the default action of a signal is. -/
inductive DefaultAction where
  | terminate | stop | nothing
  deriving DecidableEq

/-- The signals that stop a process by default. -/
def stopSignals : List Sig := [SIGSTOP, SIGTSTP, SIGTTIN, SIGTTOU]

def Sig.defaultAction (sig : Sig) : DefaultAction :=
  if sig ∈ stopSignals then .stop
  else if sig ∈ [SIGCHLD, SIGCONT, SIGURG, SIGWINCH] then .nothing
  else .terminate

/-- The signals of a process; `taken` are those whose default action it has taken, the latest last. -/
structure SignalState where
  action : Sig → Disposition
  blocked : List Sig
  pending : List Sig
  taken : List Sig

def setAction (sig : Sig) (d : Disposition) (action : Sig → Disposition) : Sig → Disposition :=
  fun s => if s = sig then d else action s

/-- The calls of `sigaction` in `signal_init`, in order. -/
def signalInitActions : List (Sig × Disposition) :=
  [(SIGINT, .handled), (SIGCHLD, .handled), (SIGQUIT, .ignored), (SIGTSTP, .ignored), (SIGTTIN, .ignored),
    (SIGTTOU, .ignored), (SIGPIPE, .ignored)]

/-- What the dispositions are when `signal_init` has succeeded. -/
def signalsSet (action : Sig → Disposition) : Sig → Disposition :=
  signalInitActions.foldl (fun action x => setAction x.1 x.2 action) action

/-- The signals that `child_block_startup_signals` blocks. -/
def startupSignals : List Sig := [SIGINT, SIGQUIT, SIGTSTP, SIGTTIN, SIGTTOU]

/-- The signals that `signal_reset_child` sets to `SIG_DFL`, in order. -/
def resetSignals : List Sig := [SIGINT, SIGQUIT, SIGTSTP, SIGTTIN, SIGTTOU, SIGCHLD, SIGPIPE]

/-! ### A child -/

/-- At which call of `child_prepare_before_gate` a child is. -/
inductive ChildPc where
  /-- At `close(gate_write)`. -/
  | closeGateWrite
  /-- At `child_block_startup_signals`. -/
  | blockStartupSignals
  /-- In `setpgid_child`. -/
  | setpgid
  /-- At `event_close_in_child`. -/
  | closeEvent
  /-- In `startup_gate_wait`. -/
  | gateWait
  /-- At `close(gate_read)`. -/
  | closeGateRead
  /-- In `signal_reset_child`, with these signals left to set; after the last it empties the mask. -/
  | resetSignals (left : List Sig)
  /-- The function has returned. -/
  | prepared
  /-- The child has called `_exit(1)`, or a signal has terminated it. -/
  | gone
  deriving DecidableEq

/-- A child with the arguments of its `child_prepare_before_gate`. -/
structure Starting where
  pid : Int
  gateRead : ℕ
  gateWrite : ℕ
  pgidArg : Int
  pc : ChildPc
  fds : FdTable Fd
  pgid : Int
  signals : SignalState

/-- The steps of a child, and the signals it gets. -/
inductive ChildAct where
  | closeGateWrite
  | blockStartupSignals
  | setpgid (r : Res)
  | closeEvent
  | read (r : ReadRes)
  | closeGateRead
  | resetSignal
  | unblock
  /-- A signal is generated for the child. -/
  | signal (sig : Sig)
  deriving DecidableEq

/-- `'G'` -/
def gateByte : UInt8 := 71

/-- The child gets a signal that is not blocked.  A process that stops makes no step until it is continued.  The handler
is still the shell's: it sets a variable of the child's copy, and wakes the shell up for nothing. -/
def Starting.deliver (c : Starting) (sig : Sig) : Starting :=
  match c.signals.action sig with
  | .default =>
    { c with
      signals := { c.signals with taken := c.signals.taken ++ [sig] }
      pc := if sig.defaultAction = .terminate then .gone else c.pc }
  | _ => c

/-- A signal is generated for the child.  A blocked one stays pending, whatever the child does about it; `SIGCONT`
takes the pending stop signals away. -/
def Starting.generate (c : Starting) (sig : Sig) : Starting :=
  let pending := if sig = SIGCONT then c.signals.pending.filter (· ∉ stopSignals) else c.signals.pending
  let c := { c with signals := { c.signals with pending := pending } }
  if sig ∈ c.signals.blocked then { c with signals := { c.signals with pending := c.signals.pending ++ [sig] } }
  else c.deliver sig

/-- The mask is emptied, and the pending signals are delivered. -/
def Starting.unblock (c : Starting) : Starting :=
  c.signals.pending.foldl Starting.deliver
    { c with pc := .prepared, signals := { c.signals with blocked := [], pending := [] } }

/-- What `event_shut` leaves of the descriptors. -/
def eventShutFds (eventPipe : Int × Int) (fds : FdTable Fd) : FdTable Fd :=
  let fds := if eventPipe.2 ≥ 0 then fds.close eventPipe.2.toNat else fds
  if eventPipe.1 ≥ 0 then fds.close eventPipe.1.toNat else fds

set_option maxRecDepth 2000 in
/-- One step of a child. -/
def childStep (eventPipe : Int × Int) (c : Starting) : ChildAct → Option Starting
  | .closeGateWrite => match c.pc with
    | .closeGateWrite => some { c with pc := .blockStartupSignals, fds := c.fds.close c.gateWrite }
    | _ => none
  | .blockStartupSignals => match c.pc with
    | .blockStartupSignals =>
      some { c with pc := .setpgid, signals := { c.signals with blocked := startupSignals ++ c.signals.blocked } }
    | _ => none
  | .setpgid r => match c.pc, r with
    | .setpgid, .ok => some { c with pc := .closeEvent, pgid := if c.pgidArg = 0 then c.pid else c.pgidArg }
    | .setpgid, .err .EINTR => some c
    | .setpgid, .err _ => some { c with pc := .gone }
    | _, _ => none
  | .closeEvent => match c.pc with
    | .closeEvent => some { c with pc := .gateWait, fds := eventShutFds eventPipe c.fds }
    | _ => none
  | .read r => match c.pc, r with
    | .gateWait, .byte value => some { c with pc := if value = gateByte then .closeGateRead else .gone }
    | .gateWait, .eof => some { c with pc := .gone }
    | .gateWait, .err .EINTR => some c
    | .gateWait, .err _ => some { c with pc := .gone }
    | _, _ => none
  | .closeGateRead => match c.pc with
    | .closeGateRead => some { c with pc := .resetSignals resetSignals, fds := c.fds.close c.gateRead }
    | _ => none
  | .resetSignal => match c.pc with
    | .resetSignals (sig :: left) =>
      some { c with
        pc := .resetSignals left
        signals := { c.signals with action := setAction sig .default c.signals.action } }
    | _ => none
  | .unblock => match c.pc with
    | .resetSignals [] => some c.unblock
    | _ => none
  | .signal sig => match c.pc with
    | .gone => none
    | _ => some (c.generate sig)

/-! ### The launch -/

/-- What does not change during a launch. -/
structure LaunchPlan where
  /-- whether it is `execute_single` -/
  single : Bool
  /-- the descriptors of the gate, and the number of its pipe -/
  gateRead : ℕ
  gateWrite : ℕ
  gatePipe : ℕ
  eventPipe : Int × Int
  /-- the signal dispositions of the shell -/
  action : Sig → Disposition
  /-- the parent's descriptors when it has made its calls -/
  final : FdTable Fd

/-- The calls the parent has still to make, whether it lives, the bytes in the gate, and the children. -/
structure Startup where
  left : List Event
  alive : Bool
  gate : Bytes
  children : List Starting

inductive StartupAct where
  /-- The parent makes its next call. -/
  | parent
  /-- The parent is killed. -/
  | abort
  | child (i : ℕ) (a : ChildAct)
  deriving DecidableEq

/-- The third argument of `child_prepare_before_gate`. -/
def childPgid (single : Bool) (pids : List Int) (pid : Int) : Int :=
  if single then 0
  else match pids with
    | [] => pid
    | leader :: _ => leader

/-- A new child of a parent with the descriptors `fds`, whose earlier children have the given pids.  The signal
mask that it inherits is taken to be empty. -/
def LaunchPlan.forked (plan : LaunchPlan) (pids : List Int) (pid pgid : Int) (fds : FdTable Fd) : Starting where
  pid := pid
  gateRead := plan.gateRead
  gateWrite := plan.gateWrite
  pgidArg := childPgid plan.single pids pid
  pc := .closeGateWrite
  fds := fds
  pgid := pgid
  signals := { action := plan.action, blocked := [], pending := [], taken := [] }

/-- What a call of the parent does to the gate and the children. -/
def LaunchPlan.call (plan : LaunchPlan) (s : Startup) : Event → Startup
  | .call (.fork pid) k _ =>
    if 0 < pid then
      { s with children := s.children ++ [plan.forked (s.children.map Starting.pid) pid k.shellPgrp k.fds] }
    else s
  | .call (.setpgid pid pgid .ok) _ _ =>
    { s with children := s.children.map fun c => if c.pid = pid then { c with pgid := pgid } else c }
  | .call (.writeGate _ .ok) _ _ => { s with gate := s.gate ++ [gateByte] }
  | _ => s

/-- A table has the write end of the gate. -/
def LaunchPlan.writes (plan : LaunchPlan) (fds : FdTable Fd) : Bool :=
  fds.any fun e => e.2.desc = .pipeWrite plan.gatePipe

/-- The parent's descriptors before its next call. -/
def LaunchPlan.parentFds (plan : LaunchPlan) : List Event → FdTable Fd
  | [] => plan.final
  | .call _ k _ :: _ => k.fds
  | .env _ :: left => plan.parentFds left

/-- Somebody has the write end of the gate. -/
def LaunchPlan.held (plan : LaunchPlan) (s : Startup) : Bool :=
  (s.alive && plan.writes (plan.parentFds s.left)) ||
    s.children.any fun c => c.pc ≠ .gone && plan.writes c.fds

set_option maxRecDepth 2000 in
/-- What is left in the gate by a step of a child; `none` when the child has to wait. -/
def LaunchPlan.gateAfter (plan : LaunchPlan) (s : Startup) : ChildAct → Option Bytes
  | .read (.byte value) => match s.gate with
    | value' :: gate => if value = value' then some gate else none
    | [] => none
  | .read .eof => if s.gate = [] ∧ plan.held s = false then some [] else none
  | _ => some s.gate

/-- One step of a launch. -/
def startupStep (plan : LaunchPlan) (s : Startup) : StartupAct → Option Startup
  | .parent => match s.left with
    | e :: left => if s.alive then some (plan.call { s with left := left } e) else none
    | [] => none
  | .abort => if s.alive then some { s with alive := false } else none
  | .child i a => do
    let c ← s.children[i]?
    let gate ← plan.gateAfter s a
    let c ← childStep plan.eventPipe c a
    some { s with gate := gate, children := s.children.set i c }

/-- The launch whose parent makes the calls `seg` begins. -/
def Startup.init (seg : List Event) : Startup := ⟨seg, true, [], []⟩

/-! ### From the gate to the program -/

/-- The local variables of the loop of `execute_pipeline` that a child inherits; -1 stands for none. -/
structure StageVars where
  pipeFd : Int
  pipefd0 : Int
  pipefd1 : Int
  deriving DecidableEq

/-- The child's branch of `execute_pipeline` after `child_prepare_before_gate`. -/
def stageCommand (vars : StageVars) (current : Command) (next : List Command) : Sh ChildEnd := do
  let r ← if vars.pipeFd ≥ 0 then redirectFd vars.pipeFd.toNat 0 else pure ok
  if r ≠ ok then pure (.exits 1)
  else
    let r ← if next ≠ [] then redirectFd vars.pipefd1.toNat 1 else pure ok
    if r ≠ ok then pure (.exits 1)
    else
      closeIf vars.pipefd0
      childCommand current

end MiniShell
