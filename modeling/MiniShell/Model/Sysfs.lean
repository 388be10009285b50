import Mathlib.Data.List.DropRight
import MiniShell.Lib.Strtol
import MiniShell.Model.Parser

/-!
# `sysfs_io.c`

Reading the attribute files of the kernel.  A file that can be opened is its content, together with what the single
`read` calls do and whether `close` succeeds.
-/

namespace MiniShell

open MiniShell.Lib

/-- What one `read` does. -/
inductive ReadChoice where
  | interrupted
  | failed
  /-- at most `n + 1` bytes come at once -/
  | bytes (n : ℕ)
  deriving DecidableEq

/-- A file; when the choices have run out a `read` gives all it is asked for. -/
structure SysfsFile where
  content : Bytes
  reads : List ReadChoice
  closes : Bool
  deriving DecidableEq

/-- The loop of `sysfs_read_text`, from `rest` still to be read and `buffer` filled so far: whether it goes well,
and what is in the buffer then. -/
def sysfsReadLoop (size : ℕ) : List ReadChoice → Bytes → Bytes → Bool × Bytes
  | [], rest, buffer => (true, buffer ++ rest.take (size - buffer.length - 1))
  | choice :: reads, rest, buffer =>
    if size - 1 ≤ buffer.length then (true, buffer)
    else
      match choice with
      | .interrupted => sysfsReadLoop size reads rest buffer
      | .failed => (false, buffer)
      | .bytes n =>
        let chunk := rest.take (min (n + 1) (size - buffer.length - 1))
        if chunk = [] then (true, buffer)
        else sysfsReadLoop size reads (rest.drop chunk.length) (buffer ++ chunk)

/-- `'\n'` or `'\r'`. -/
def isLineEnd (c : UInt8) : Bool := c == 10 || c == 13

/-- `sysfs_read_text` once the file is open: whether it succeeds, and what it leaves in the buffer before the `'\0'`. -/
def sysfsRead (file : SysfsFile) (size : ℕ) : Bool × Bytes :=
  match sysfsReadLoop size file.reads file.content [] with
  | (false, buffer) => (false, buffer)
  | (true, buffer) => if ¬ file.closes then (false, buffer) else (true, buffer.rdropWhile isLineEnd)

/-- `sysfs_read_text`: the text it has read, or a failure. -/
def sysfsReadText (file : Option SysfsFile) (size : ℕ) : Option Bytes :=
  if size < 2 then none
  else
    match file with
    | none => none
    | some file =>
      match sysfsRead file size with
      | (false, _) => none
      | (true, buffer) => some buffer

/-- `sysfs_read_long`: what it returns, and `*value` afterwards. -/
def sysfsReadLong (file : Option SysfsFile) (value : Int) : Int × Int :=
  match sysfsReadText file 64 with
  | none => (-1, value)
  | some buffer =>
    let r := Strtol.strtol isspace 64 (cString buffer)
    if r.fails then (-1, value) else (0, r.value)

/-- `sysfs_read_ulong` and `sysfs_read_ull`, which differ in the type they read. -/
def sysfsReadUnsigned (bits : ℕ) (file : Option SysfsFile) (value : Int) : Int × Int :=
  match sysfsReadText file 64 with
  | none => (-1, value)
  | some buffer =>
    if (cString buffer).head? = some 45 then (-1, value)
    else
      let r := Strtol.strtoul isspace bits (cString buffer)
      if r.fails then (-1, value) else (0, r.value)

def sysfsReadUlong : Option SysfsFile → Int → Int × Int := sysfsReadUnsigned 64

def sysfsReadUll : Option SysfsFile → Int → Int × Int := sysfsReadUnsigned 64

end MiniShell
