import MiniShell.Model.Executor

/-!
# `executor.c`, in the child

What the child of a `fork` does with its own descriptors before it becomes the program.  The world of these programs is
the child's: it starts with a copy of the shell's descriptors, and its script decides the child's calls.
-/

namespace MiniShell

open MiniShell.Lib MiniShellError

/-- How the child's branch ends: with `_exit`, or at `execvp`. -/
inductive ChildEnd where
  | exits (status : Fin 256)
  | execs (argv : List Bytes)
  deriving DecidableEq

def redirectFd (fd target : ℕ) : Sh Int :=
  if fd = target then pure ok
  else do
    match ← retry (dup2 fd target) with
    | .err _ => pure errDup2
    | .ok =>
      close fd
      pure ok

/-- The part of `setredirect` that redirects one of the standard descriptors. -/
def setredirectStream (target : ℕ) (path : Bytes) (flags : OpenFlags) : Sh Int := do
  match ← openFile path flags with
  | none => pure errOpen
  | some fd =>
    let r ← redirectFd fd target
    if r ≠ ok then
      if fd ≠ target then close fd
      pure errDup2
    else pure ok

/-- The output of `setredirect`. -/
def setredirectOutput (com : Command) : Sh Int :=
  match com.redirect.outputFile with
  | none => pure ok
  | some path => setredirectStream 1 path (if com.redirect.append then .createAppend else .createTruncate)

/-- The input of `setredirect`. -/
def setredirectInput (com : Command) : Sh Int :=
  match com.redirect.inputFile with
  | none => pure ok
  | some path => setredirectStream 0 path .readOnly

def setredirect (com : Command) : Sh Int := do
  let r ← setredirectOutput com
  if r ≠ ok then pure r else setredirectInput com

/-- The child's branch after `child_prepare_before_gate`: `if (setredirect(com) != MiniShell_OK) _exit(1);` and
`run_process(com)`. -/
def childCommand (com : Command) : Sh ChildEnd := do
  let r ← setredirect com
  if r ≠ ok then pure (.exits 1) else pure (.execs com.argv)

end MiniShell
