import Mathlib.Tactic

/-!
# Signals, the event pipe and the main loop

`signal_handler` of `sig.c` and the loop of `shell_run`, cut into the steps between which the handler may run.  The
handler blocks both signals, so that it is never entered twice at the same time, and it runs to its end before the
loop goes on.  `signal_take_events` blocks both signals around its read and clear, which therefore is one step.
-/

namespace MiniShell

/-- The two signals that have a handler. -/
inductive EventSig
  | chld
  | int
  deriving DecidableEq, Repr

/-- `pending_events`, as its two bits. -/
structure PendingEvents where
  child : Bool
  interrupt : Bool
  deriving DecidableEq, Repr

namespace PendingEvents

/-- `SIGNAL_EVENT_NONE`. -/
def none : PendingEvents := ⟨false, false⟩

/-- The bit of a signal. -/
def has (e : PendingEvents) : EventSig → Bool
  | .chld => e.child
  | .int => e.interrupt

/-- `pending_events |= SIGNAL_EVENT_…`. -/
def add (e : PendingEvents) : EventSig → PendingEvents
  | .chld => { e with child := true }
  | .int => { e with interrupt := true }

@[simp] theorem none_has (sig : EventSig) : none.has sig = false := by cases sig <;> rfl

theorem add_has (e : PendingEvents) (s sig : EventSig) : (e.add s).has sig = (decide (sig = s) || e.has sig) := by
  cases s <;> cases sig <;> simp [add, has]

end PendingEvents

/-- Where `signal_handler` is. -/
inductive HandlerPc
  | idle
  | entered (sig : EventSig)
  /-- The bit is set, `event_notify` has not written yet. -/
  | notifying
  deriving DecidableEq, Repr

/-- Where `shell_run` is.  `input` tells whether `select` found standard input readable. -/
inductive LoopPc
  /-- At the head of the loop. -/
  | top
  /-- About to call `select`. -/
  | select
  /-- In the loop of `event_drain`. -/
  | drain (input : Bool)
  /-- Before `signal_take_events`. -/
  | take (input : Bool)
  /-- At `if (events & SIGNAL_EVENT_CHILD)`. -/
  | child (events : PendingEvents) (input : Bool)
  /-- In `job_reap` and `job_cleanup_done`. -/
  | reaping (events : PendingEvents) (input : Bool)
  /-- At `if (events & SIGNAL_EVENT_INTERRUPT)`. -/
  | interrupt (events : PendingEvents) (input : Bool)
  /-- After `shell_reset_input`, writing the newline. -/
  | newline (input : Bool)
  /-- After the event part of the loop body. -/
  | input (input : Bool)
  /-- In `shell_read_input`, with whatever it dispatches. -/
  | reading
  | left
  deriving DecidableEq, Repr

/-- The statements after which the loop may be left: `ctx->running` is tested, or a call fails. -/
def LoopPc.mayLeave : LoopPc → Bool
  | .top | .select | .drain _ | .newline _ | .input _ | .reading => true
  | _ => false

/-- The steps of the loop. -/
inductive LoopAct
  /-- The prompt, if one is due. -/
  | prompt
  /-- `select` returns, with the two flags. -/
  | ready (event input : Bool)
  /-- `select` fails with `EINTR`. -/
  | interrupted
  /-- A `read` of `event_drain` that returns bytes. -/
  | read
  /-- A `read` of `event_drain` that fails with `EINTR`. -/
  | readAgain
  /-- A `read` of `event_drain` that fails with `EAGAIN`. -/
  | drained
  | takeEvents (events : PendingEvents)
  /-- `job_reap` starts. -/
  | reap
  | reaped
  | noChild
  /-- `shell_reset_input`. -/
  | reset
  | newline
  | noInterrupt
  | readInput
  | noInput
  | inputRead
  | leave
  deriving DecidableEq, Repr

/-- The steps of the shell: those of the handler, and those of the loop. -/
inductive ShellAct
  /-- `signal_handler` is entered. -/
  | signal (sig : EventSig)
  | setPending
  /-- The `write` of `event_notify`; it fails with `EAGAIN` when the pipe is full. -/
  | notify
  /-- The `write` of `event_notify` fails with `EINTR`. -/
  | notifyAgain
  | loop (a : LoopAct)
  deriving DecidableEq, Repr

/-- The shared state: `pending_events`, the number of bytes in the event pipe, and where the two parts are. -/
structure SelfPipe where
  pending : PendingEvents
  pipe : ℕ
  handler : HandlerPc
  pc : LoopPc
  deriving DecidableEq, Repr

/-- The state in which `shell_init` leaves the pipe and the events. -/
def SelfPipe.init : SelfPipe := ⟨.none, 0, .idle, .top⟩

/-- The size of the buffer of `event_drain`. -/
def DRAIN_SIZE : ℕ := 64

/-- One step of `shell_run`. -/
def loopStep (s : SelfPipe) : LoopAct → Option SelfPipe
  | .prompt => match s.pc with
    | .top => some { s with pc := .select }
    | _ => none
  | .ready event input => match s.pc with
    | .select =>
      if event = decide (0 < s.pipe) ∧ (event || input) then
        some { s with pc := if event then .drain input else .input input }
      else none
    | _ => none
  | .interrupted => match s.pc with
    | .select => some { s with pc := .top }
    | _ => none
  | .read => match s.pc with
    | .drain _ => if 0 < s.pipe then some { s with pipe := s.pipe - min DRAIN_SIZE s.pipe } else none
    | _ => none
  | .readAgain => match s.pc with
    | .drain _ => some s
    | _ => none
  | .drained => match s.pc with
    | .drain input => if s.pipe = 0 then some { s with pc := .take input } else none
    | _ => none
  | .takeEvents events => match s.pc with
    | .take input =>
      if events = s.pending then some { s with pending := .none, pc := .child events input } else none
    | _ => none
  | .reap => match s.pc with
    | .child events input => if events.child then some { s with pc := .reaping events input } else none
    | _ => none
  | .reaped => match s.pc with
    | .reaping events input => some { s with pc := .interrupt events input }
    | _ => none
  | .noChild => match s.pc with
    | .child events input => if events.child then none else some { s with pc := .interrupt events input }
    | _ => none
  | .reset => match s.pc with
    | .interrupt events input => if events.interrupt then some { s with pc := .newline input } else none
    | _ => none
  | .newline => match s.pc with
    | .newline input => some { s with pc := .input input }
    | _ => none
  | .noInterrupt => match s.pc with
    | .interrupt events input => if events.interrupt then none else some { s with pc := .input input }
    | _ => none
  | .readInput => match s.pc with
    | .input true => some { s with pc := .reading }
    | _ => none
  | .noInput => match s.pc with
    | .input false => some { s with pc := .top }
    | _ => none
  | .inputRead => match s.pc with
    | .reading => some { s with pc := .top }
    | _ => none
  | .leave => if s.pc.mayLeave then some { s with pc := .left } else none

/-- One step of the shell whose event pipe holds `cap` bytes. -/
def shellStep (cap : ℕ) (s : SelfPipe) : ShellAct → Option SelfPipe
  | .signal sig => match s.handler with
    | .idle => some { s with handler := .entered sig }
    | _ => none
  | .setPending => match s.handler with
    | .entered sig => some { s with pending := s.pending.add sig, handler := .notifying }
    | _ => none
  | .notify => match s.handler with
    | .notifying => some { s with pipe := if s.pipe < cap then s.pipe + 1 else s.pipe, handler := .idle }
    | _ => none
  | .notifyAgain => match s.handler with
    | .notifying => some s
    | _ => none
  | .loop a => match s.handler with
    | .idle => loopStep s a
    | _ => none

/-- The loop is about to block in `select`. -/
def SelfPipe.AboutToBlock (s : SelfPipe) : Prop := s.pc = .select ∧ s.handler = .idle

end MiniShell
