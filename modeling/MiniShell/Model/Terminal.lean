import MiniShell.Model.World

/-!
# `terminal.c`

Handing the terminal to a job and taking it back.
-/

namespace MiniShell

open MiniShell.Lib

def terminalSetPgrp (pgid : Int) : Sh Int := do
  match ← retry (tcsetpgrp pgid) with
  | .ok => pure 0
  | .err _ => pure (-1)

def terminalIsInitialized : Sh Bool := do
  let w ← Prog.get
  pure w.term.initialized

def terminalSetForeground (pgid : Int) : Sh Int := do
  let w ← Prog.get
  if ¬ w.term.initialized then pure 0
  else if pgid ≤ 0 then pure (-1)
  else terminalSetPgrp pgid

/-- `terminal_get_modes(&modes)`: the result, and what `modes` holds afterwards. -/
def terminalGetModes (modes : Termios) : Sh (Int × Termios) := do
  let w ← Prog.get
  if ¬ w.term.initialized then pure (0, modes)
  else Prog.loop (fun w => w.script.length) (fun () => do
    match ← tcgetattr with
    | (some new, _) => pure (.inr (0, new))
    | (none, .err .EINTR) => pure (.inl ())
    | (none, _) => pure (.inr (-1, modes))) ()

def terminalSetModes (modes : Termios) : Sh Int := do
  let w ← Prog.get
  if ¬ w.term.initialized then pure 0
  else
    match ← retry (tcsetattr modes) with
    | .ok => pure 0
    | .err _ => pure (-1)

def terminalRestore : Sh Int := do
  let w ← Prog.get
  if ¬ w.term.initialized then pure 0
  else if w.term.shellPgid ≤ 0 then pure (-1)
  else
    let r ← terminalSetPgrp w.term.shellPgid
    if r < 0 then pure (-1)
    else if w.term.shellModesValid then
      let r ← terminalSetModes w.term.shellModes
      if r < 0 then pure (-1) else pure 0
    else pure 0

end MiniShell
