import MiniShell.Model.Sysfs

/-!
# `shell_write_all` and `sysfs_write_text`

A descriptor is what the single `write` calls on it do; what they have written is kept in order.
-/

namespace MiniShell

open MiniShell.Lib

/-- What one `write` does. -/
inductive WriteChoice where
  | interrupted
  | failed
  /-- at most `n` bytes are taken -/
  | bytes (n : ℕ)
  deriving DecidableEq

/-- The loop of `shell_write_all`, with `written` bytes of the buffer done and `out` on the descriptor: what it
returns, and what is on the descriptor in the end.  When the choices have run out a `write` takes all it is given.
-/
def shellWriteLoop (buffer : Bytes) : List WriteChoice → ℕ → Bytes → Int × Bytes
  | [], written, out => (0, out ++ buffer.drop written)
  | choice :: writes, written, out =>
    if buffer.length ≤ written then (0, out)
    else
      match choice with
      | .interrupted => shellWriteLoop buffer writes written out
      | .failed => (-1, out)
      | .bytes n =>
        let ret := min n (buffer.length - written)
        if ret = 0 then (-1, out)
        else shellWriteLoop buffer writes (written + ret) (out ++ (buffer.drop written).take ret)

/-- `shell_write_all`. -/
def shellWriteAll (buffer : Bytes) (writes : List WriteChoice) : Int × Bytes := shellWriteLoop buffer writes 0 []

/-- A file that can be opened for writing. -/
structure SysfsSink where
  writes : List WriteChoice
  closes : Bool
  deriving DecidableEq

/-- The `write` of `sysfs_write_text` that is not interrupted, or -1. -/
def sysfsWriteOnce (length : ℕ) : List WriteChoice → Int
  | [] => length
  | .interrupted :: writes => sysfsWriteOnce length writes
  | .failed :: _ => -1
  | .bytes n :: _ => (min n length : ℕ)

/-- `sysfs_write_text` on a path at which `file` is. -/
def sysfsWriteText (value : Bytes) (file : Option SysfsSink) : Int :=
  match file with
  | none => -1
  | some file =>
    if sysfsWriteOnce value.length file.writes ≠ value.length then -1
    else if ¬ file.closes then -1
    else 0

end MiniShell
