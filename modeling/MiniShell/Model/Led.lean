import MiniShell.Lib.Prog
import MiniShell.Model.Monitor
import MiniShell.Model.Output

/-!
# `led_control.c`, and `read_led_trigger` of `hardware_info.c`

A program here keeps the list of the files it has opened, in order.  What it finds at a path may depend on all that
was done before; `errno` is left out.  A name or a trigger is the bytes of a C string.
-/

namespace MiniShell

open MiniShell.Lib MiniShellError

/-! ### The active trigger -/

/-- `strchr`: the string from the first such byte on. -/
def strchr (s : Bytes) (c : UInt8) : Option Bytes :=
  match s.dropWhile (· ≠ c) with
  | [] => none
  | rest => some rest

/-- The text in brackets that `led_read_active_trigger` and `read_led_trigger` both look for. -/
def bracketed (buffer : Bytes) : Option Bytes :=
  match strchr buffer 91 with
  | none => none
  | some begin =>
    match strchr begin 93 with
    | none => none
    | some stop =>
      -- `end - begin`
      let distance := begin.length - stop.length
      if distance ≤ 1 then none else some ((begin.drop 1).take (distance - 1))

/-- `led_read_active_trigger` from its `sysfs_read_text` on. -/
def activeTrigger (file : Option SysfsFile) (size : ℕ) : Option Bytes :=
  match sysfsReadText file 2048 with
  | none => none
  | some buffer =>
    match bracketed (cString buffer) with
    | none => none
    | some trigger => if size ≤ trigger.length then none else some trigger

/-- `read_led_trigger`. -/
def readLedTrigger (file : Option SysfsFile) (size : ℕ) : Option Bytes :=
  match sysfsReadText file 2048 with
  | none => none
  | some line =>
    match bracketed (cString line) with
    | none => none
    | some trigger => some (if size ≤ trigger.length then trigger.take (size - 1) else trigger)

/-! ### Paths -/

def ledSysfsBase : Bytes := ascii ['/', 's', 'y', 's', '/', 'c', 'l', 'a', 's', 's', '/', 'l', 'e', 'd', 's']

def ledPathSize : ℕ := 512

/-- `*p < 0x20 || *p == 0x7f`. -/
def isControl (c : UInt8) : Bool := c < 32 || c == 127

/-- `led_name_valid`. -/
def ledNameValid (name : Bytes) : Bool :=
  name ≠ [] && strcmp name [46] ≠ 0 && strcmp name [46, 46] ≠ 0 && name.all fun c => !(c == 47 || isControl c)

/-- `led_trigger_valid`. -/
def ledTriggerValid (trigger : Bytes) : Bool :=
  trigger ≠ [] && trigger.all fun c => !(c == 47 || isspace c || isControl c)

/-- `led_build_path`. -/
def ledBuildPath (size : ℕ) (name attr : Bytes) : Option Bytes :=
  if size = 0 ∨ ¬ ledNameValid name ∨ attr = [] then none
  else
    let path := ledSysfsBase ++ 47 :: name ++ 47 :: attr
    if size ≤ path.length then none else some path

/-! ### The operations -/

/-- A file that was opened, and what was at its path. -/
inductive LedOp where
  | read (path : Bytes) (file : Option SysfsFile)
  | write (path text : Bytes) (file : Option SysfsSink)
  deriving DecidableEq

/-- What is at a path, after the operations so far. -/
structure LedFiles where
  readable : List LedOp → Bytes → Option SysfsFile
  writable : List LedOp → Bytes → Option SysfsSink

/-- A program that opens files. -/
abbrev Led (α : Type) : Type := Prog (List LedOp) α

def openRead (files : LedFiles) (path : Bytes) : Led (Option SysfsFile) := do
  let log ← Prog.get
  Prog.modify (· ++ [.read path (files.readable log path)])
  pure (files.readable log path)

def openWrite (files : LedFiles) (path text : Bytes) : Led (Option SysfsSink) := do
  let log ← Prog.get
  Prog.modify (· ++ [.write path text (files.writable log path)])
  pure (files.writable log path)

def attrTrigger : Bytes := ascii ['t', 'r', 'i', 'g', 'g', 'e', 'r']
def attrBrightness : Bytes := ascii ['b', 'r', 'i', 'g', 'h', 't', 'n', 'e', 's', 's']
def attrMaxBrightness : Bytes :=
  ascii ['m', 'a', 'x', '_', 'b', 'r', 'i', 'g', 'h', 't', 'n', 'e', 's', 's']

/-- `"none"`. -/
def triggerNone : Bytes := ascii ['n', 'o', 'n', 'e']

section

variable (files : LedFiles) (name : Bytes)

/-- `led_read_active_trigger`. -/
def ledReadActiveTrigger (size : ℕ) : Led (Option Bytes) :=
  if size = 0 then pure none
  else
    match ledBuildPath ledPathSize name attrTrigger with
    | none => pure none
    | some path => do
      let file ← openRead files path
      pure (activeTrigger file size)

/-- `led_write_trigger`. -/
def ledWriteTrigger (trigger : Bytes) : Led Int :=
  match ledBuildPath ledPathSize name attrTrigger with
  | none => pure (-1)
  | some path => do
    let file ← openWrite files path trigger
    if sysfsWriteText trigger file < 0 then pure (-1)
    else
      match ← ledReadActiveTrigger files name 64 with
      | none => pure (-1)
      | some actual => if strcmp actual trigger ≠ 0 then pure (-1) else pure 0

/-- `led_read_max_brightness`: the value, or a failure. -/
def ledReadMaxBrightness : Led (Option Int) :=
  match ledBuildPath ledPathSize name attrMaxBrightness with
  | none => pure none
  | some path => do
    let file ← openRead files path
    let (ret, value) := sysfsReadLong file 0
    if ret < 0 then pure none
    else if value ≤ 0 then pure none
    else pure (some value)

/-- `led_write_brightness`. -/
def ledWriteBrightness (value : Int) : Led Int :=
  match ledBuildPath ledPathSize name attrBrightness with
  | none => pure (-1)
  | some path => do
    let text := decimal value
    if 32 ≤ text.length then pure (-1)
    else
      let file ← openWrite files path text
      if sysfsWriteText text file < 0 then pure (-1)
      else
        let file ← openRead files path
        let (ret, actual) := sysfsReadLong file 0
        if ret < 0 then pure (-1)
        else if actual ≠ value then pure (-1)
        else pure 0

/-- `led_control_set_on`. -/
def ledControlSetOn : Led Int :=
  if ¬ ledNameValid name then pure errUnknown
  else do
    match ← ledReadMaxBrightness files name with
    | none => pure errUnknown
    | some maxBrightness =>
      if (← ledWriteTrigger files name triggerNone) < 0 then pure errUnknown
      else if (← ledWriteBrightness files name maxBrightness) < 0 then pure errUnknown
      else pure ok

/-- `led_control_set_off`. -/
def ledControlSetOff : Led Int :=
  if ¬ ledNameValid name then pure errUnknown
  else do
    if (← ledWriteTrigger files name triggerNone) < 0 then pure errUnknown
    else if (← ledWriteBrightness files name 0) < 0 then pure errUnknown
    else pure ok

/-- `led_control_set_trigger`. -/
def ledControlSetTrigger (trigger : Bytes) : Led Int :=
  if ¬ ledNameValid name ∨ ¬ ledTriggerValid trigger then pure errUnknown
  else do
    if (← ledWriteTrigger files name trigger) < 0 then pure errUnknown
    else pure ok

end

end MiniShell
