import MiniShell.Lib.Buffer
import MiniShell.Model.Dispatcher

/-!
# The dispatcher with the buffer of `stdout`

What a builtin prints waits in the buffer of `stdout` and is written to whatever descriptor 1 refers to when the
buffer is emptied: by `fflush`, or by the library whenever it likes.  A flush that fails leaves the buffer alone
here, and nothing is claimed of what it has written.
-/

namespace MiniShell

open MiniShell.Lib MiniShellError

/-- The shell with the buffer of `stdout`, and with what every description has got. -/
structure Console where
  world : World
  out : Buffered Desc UInt8

/-- What descriptor 1 refers to. -/
def Console.stdout (c : Console) : Option Desc := (c.world.kernel.fds.find 1).map Fd.desc

/-- A program of the shell that does not use `stdout`. -/
def onWorld {α : Type} (m : Sh α) : Prog Console α := fun c =>
  match m c.world with
  | .done a w => .done a { c with world := w }
  | .blocked w => .blocked { c with world := w }

/-- `printf` and the like. -/
def printBytes (bytes : Bytes) : Prog Console Unit := Prog.modify fun c => { c with out := c.out.print bytes }

/-- Empty the buffer, or a part of it, into what descriptor 1 refers to. -/
def Console.toStdout (f : Desc → Buffered Desc UInt8 → Buffered Desc UInt8) (c : Console) : Console :=
  match c.stdout with
  | some d => { c with out := f d c.out }
  | none => c

@[simp] theorem toStdout_world (f : Desc → Buffered Desc UInt8 → Buffered Desc UInt8) (c : Console) :
    (c.toStdout f).world = c.world := by
  unfold Console.toStdout
  split <;> rfl

/-- The library writes the first `n` bytes of the buffer. -/
def autoFlush (n : ℕ) : Prog Console Unit := Prog.modify (Console.toStdout (Buffered.drain n))

/-- `fflush(stdout)`. -/
def fflushStdout : Prog Console Res := do
  let r ← onWorld fflush
  if r = .ok then
    Prog.modify (Console.toStdout Buffered.flush)
    pure .ok
  else pure r

/-- `builtin_apply_redirect` up to the output file. -/
def redirectOutputPrinting (cmd : Command) : Prog Console (Int × Int) :=
  match cmd.redirect.outputFile with
  | none => pure (ok, -1)
  | some path => do
    match ← fflushStdout with
    | .err _ => pure (errUnknown, -1)
    | .ok => onWorld (redirectStream 1 path cmd.outputFlags)

/-- `builtin_apply_redirect`. -/
def applyRedirectPrinting (cmd : Command) : Prog Console (Int × Int × Int) := do
  let out ← redirectOutputPrinting cmd
  onWorld (redirectInput cmd out)

/-- `dispatcher_command` after the handler has returned `ret`. -/
def finishPrinting (savedOut savedIn ret : Int) : Prog Console Int := do
  let flushed ← fflushStdout
  onWorld (dispatchRestore savedOut savedIn (if flushed ≠ .ok ∧ ret = ok then errUnknown else ret))

/-- `dispatcher_command` from the builtin's entry on, with a handler that prints. -/
def dispatchPrinting (cmd : Command) (handler : Prog Console Int) : Prog Console Int := do
  let (ret, savedOut, savedIn) ← applyRedirectPrinting cmd
  if ret ≠ ok then onWorld (dispatchAbandon ret savedOut savedIn)
  else
    let ret ← handler
    finishPrinting savedOut savedIn ret

end MiniShell
