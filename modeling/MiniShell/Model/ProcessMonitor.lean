import MiniShell.Model.Config
import MiniShell.Model.Monitor

/-!
# `process_monitor.c`

`/proc` is the names that `readdir` gives, and the status files below it are a function of the path; a process that has
exited has none.  An allocation may fail, other than the one that only shrinks the array, of which nothing depends.
-/

namespace MiniShell

open MiniShell.Lib MiniShellError

/-! ### One process -/

structure ProcessInfo where
  pid : Int
  name : Bytes
  state : UInt8
  rssKb : Int
  threads : Int
  deriving DecidableEq

/-- A status file; reading may end with an error where the content ends. -/
structure StatusFile where
  content : Bytes
  broken : Bool
  deriving DecidableEq

def PROCESS_NAME_LENGTH : ℕ := 64

/-- `is_pid_name`. -/
def isPidName (name : Bytes) : Bool := name ≠ [] && name.all Strtol.isDigit

/-- `' '` or `'\t'`. -/
def isBlank (c : UInt8) : Bool := c == 32 || c == 9

/-- `copy_status_text`. -/
def copyStatusText (size : ℕ) (src : Bytes) : Bytes :=
  ((src.dropWhile isBlank).takeWhile fun c => c ≠ 13 ∧ c ≠ 10).take (size - 1)

/-- `sscanf` of an unsigned number of `bits` bits, which is converted as an `unsigned long`. -/
def scanUnsigned (bits : ℕ) (s : Bytes) (value : Int) : Int :=
  let r := Strtol.strtoul isspace 64 s
  if r.rest = none then value else r.value % 2 ^ bits

def keyName : Bytes := ascii ['N', 'a', 'm', 'e', ':']
def keyState : Bytes := ascii ['S', 't', 'a', 't', 'e', ':']
def keyVmRSS : Bytes := ascii ['V', 'm', 'R', 'S', 'S', ':']
def keyThreads : Bytes := ascii ['T', 'h', 'r', 'e', 'a', 'd', 's', ':']

/-- What `process_monitor_get` takes from one line. -/
def statusLine (line : Bytes) (info : ProcessInfo) : ProcessInfo :=
  if keyName.isPrefixOf line then { info with name := copyStatusText PROCESS_NAME_LENGTH (line.drop 5) }
  else if keyState.isPrefixOf line then
    match (line.drop 6).dropWhile isBlank with
    | [] => info
    | c :: _ => { info with state := c }
  else if keyVmRSS.isPrefixOf line then { info with rssKb := scanUnsigned 64 (line.drop 6) info.rssKb }
  else if keyThreads.isPrefixOf line then { info with threads := scanUnsigned 32 (line.drop 8) info.threads }
  else info

/-- The loop of `process_monitor_get`.  Every round reads something, so the length of the file bounds their number. -/
def statusLoop (broken : Bool) : ℕ → Bytes → ProcessInfo → ProcessInfo
  | 0, _, info => info
  | n + 1, rest, info =>
    match fgets 256 broken rest with
    | none => info
    | some (chars, rest, _) => statusLoop broken n rest (statusLine (cString chars) info)

/-- `/proc/<pid>/status`. -/
def statusPath (pid : Int) : Bytes :=
  ascii ['/', 'p', 'r', 'o', 'c', '/'] ++ decimal pid ++ ascii ['/', 's', 't', 'a', 't', 'u', 's']

/-- `process_monitor_get`: the result, and `*info`. -/
def processMonitorGet (files : Bytes → Option StatusFile) (pid : Int) (info : ProcessInfo) : Int × ProcessInfo :=
  if pid ≤ 0 then (errUnknown, info)
  else if 64 ≤ (statusPath pid).length then (errUnknown, info)
  else
    match files (statusPath pid) with
    | none => (errOpen, info)
    | some file =>
      let info := statusLoop file.broken (file.content.length + 1) file.content ⟨pid, [], 63, 0, 0⟩
      if info.name = [] then (errUnknown, info) else (ok, info)

/-! ### All of them -/

/-- `process_info_compare`. -/
def processInfoCompare (a b : ProcessInfo) : Int :=
  if a.pid < b.pid then -1 else if b.pid < a.pid then 1 else 0

/-- The allocations of `process_monitor_collect`: the first one, and the growths of the array. -/
structure Allocations where
  first : Bool
  grows : ℕ → Bool

/-- What the loop of `process_monitor_collect` reads of an entry that it does not skip. -/
def processEntry (files : Bytes → Option StatusFile) (entry : Dirent) : Option ProcessInfo :=
  if ¬ isPidName entry.name then none
  else
    let r := Strtol.strtol isspace 64 entry.name
    if r.rangeError ∨ (r.rest.getD entry.name) ≠ [] ∨ r.value ≤ 0 ∨ (INT_MAX : Int) < r.value then none
    else
      let (ret, info) := processMonitorGet files r.value ⟨0, [], 0, 0, 0⟩
      if ret ≠ ok then none else some info

/-- The loop: what it returns, `*count`, and the array, which is freed when it cannot grow.  `growths` counts how often
it has. -/
def processLoop (files : Bytes → Option StatusFile) (memory : Allocations) :
    List Dirent → (growths capacity count : ℕ) → List ProcessInfo → Int × ℕ × List ProcessInfo
  | [], _, _, count, result => (ok, count, result)
  | entry :: listing, growths, capacity, count, result =>
    match processEntry files entry with
    | none => processLoop files memory listing growths capacity count result
    | some info =>
      if count = capacity then
        if ¬ memory.grows growths then (errMemory, count, [])
        else processLoop files memory listing (growths + 1) (capacity * 2) (count + 1) (result ++ [info])
      else processLoop files memory listing growths capacity (count + 1) (result ++ [info])

/-- `process_monitor_collect`: the result, `*list` and `*count`. -/
def processMonitorCollect (q : Qsort) (files : Bytes → Option StatusFile) (memory : Allocations)
    (dir : Option (List Dirent)) :
    Int × Option (List ProcessInfo) × ℕ :=
  match dir with
  | none => (errOpen, none, 0)
  | some listing =>
    if ¬ memory.first then (errMemory, none, 0)
    else
      let (ret, count, result) := processLoop files memory listing 0 64 0 []
      if ret ≠ ok then (ret, none, count)
      else if count = 0 then (ok, none, count)
      else (ok, some (q.sort processInfoCompare result), count)

end MiniShell
