import Mathlib.Data.List.DropRight
import MiniShell.Model.Dispatcher
import MiniShell.Model.Parser

/-!
# `config.c`

`config_parse_line` works in the buffer of the line: a pointer is an offset, and trimming and splitting store `'\0'`
in the buffer.  A configuration file that can be opened is its content, together with how reading and closing it end.
-/

namespace MiniShell

open MiniShell.Lib MiniShellError

def PROMPTS_SIZE : ℕ := 64

/-! ### One line -/

/-- The C string at an offset of the buffer. -/
def strAt (buffer : Bytes) (i : ℕ) : Bytes := cString (buffer.drop i)

/-- `trim_space`: where the trimmed text begins, and the buffer with a `'\0'` behind that text. -/
def trimSpace (buffer : Bytes) (text : ℕ) : ℕ × Bytes :=
  let text := text + ((strAt buffer text).takeWhile isspace).length
  let last := text + ((strAt buffer text).rdropWhile isspace).length
  (text, buffer.set last 0)

def configInit : MiniShellConfig :=
  { prompts := ascii ['M', 'i', 'n', 'i', 'S', 'h', 'e', 'l', 'l'], maxJob := 64, debug := 0 }

def promptsKey : Bytes := ascii ['p', 'r', 'o', 'm', 'p', 't', 's']
def maxJobKey : Bytes := ascii ['m', 'a', 'x', '_', 'j', 'o', 'b']
def debugKey : Bytes := ascii ['d', 'e', 'b', 'u', 'g']

/-- What `config_parse_line` does with the key and the value it has found. -/
def configSet (key value : Bytes) (configs : MiniShellConfig) : Int × MiniShellConfig :=
  if key = [] then (errParse, configs)
  else if key = promptsKey then
    if value = [] ∨ value.length ≥ PROMPTS_SIZE then (errParse, configs)
    else (ok, { configs with prompts := value })
  else if key = maxJobKey then
    let number := Strtol.strtol isspace 64 value
    if number.fails ∨ number.value ≤ 0 ∨ number.value > INT_MAX then (errParse, configs)
    else (ok, { configs with maxJob := number.value })
  else if key = debugKey then
    if value = [48] then (ok, { configs with debug := 0 })
    else if value = [49] then (ok, { configs with debug := 1 })
    else (errParse, configs)
  else (errParse, configs)

def configParseLine (line : Bytes) (configs : MiniShellConfig) : Int × MiniShellConfig :=
  let (text, buffer) := trimSpace line 0
  if strAt buffer text = [] ∨ (strAt buffer text).head? = some 35 then (ok, configs)
  else
    -- `strchr(text, '=')`
    match (strAt buffer text).idxOf? 61 with
    | none => (errParse, configs)
    | some i =>
      let equal := text + i
      let buffer := buffer.set equal 0
      let (key, buffer) := trimSpace buffer text
      let (value, buffer) := trimSpace buffer (equal + 1)
      configSet (strAt buffer key) (strAt buffer value) configs

/-! ### Files -/

structure ConfigFile where
  content : Bytes
  /-- reading ends with an error where the content ends -/
  broken : Bool
  closes : Bool
  deriving DecidableEq

/-- Read up to `n` characters, but not beyond a newline: the characters, what is left, and whether the end was met. -/
def fgetsChars : ℕ → Bytes → Bytes × Bytes × Bool
  | 0, rest => ([], rest, false)
  | _ + 1, [] => ([], [], true)
  | n + 1, c :: rest =>
    if c = 10 then ([c], rest, false)
    else
      let (line, rest, atEnd) := fgetsChars n rest
      (c :: line, rest, atEnd)

/-- `fgets`: `NULL` when there was nothing to read, or when reading failed. -/
def fgets (size : ℕ) (broken : Bool) (rest : Bytes) : Option (Bytes × Bytes × Bool) :=
  let (line, rest, atEnd) := fgetsChars (size - 1) rest
  if atEnd ∧ (broken ∨ line = []) then none else some (line, rest, atEnd)

/-- The loop of `config_load`: the result, and `temporary`.  A line that is too long is read to its end, which has no
effect, because the loop then ends.  Every round reads something, so the length of the file bounds their number. -/
def configLoadLoop (broken : Bool) : ℕ → Bytes → MiniShellConfig → Int × MiniShellConfig
  | 0, _, temporary => (ok, temporary)
  | n + 1, rest, temporary =>
    match fgets 256 broken rest with
    | none => (ok, temporary)
    | some (chars, rest, atEnd) =>
      let length := (cString chars).length
      if 0 < length ∧ chars[length - 1]? ≠ some 10 ∧ ¬ atEnd then (errParse, temporary)
      else
        let (result, temporary) := configParseLine (chars ++ [0]) temporary
        if result ≠ ok then (result, temporary) else configLoadLoop broken n rest temporary

def configLoad (configs : MiniShellConfig) (file : Option ConfigFile) : Int × MiniShellConfig :=
  match file with
  | none => (errOpen, configs)
  | some file =>
    let (result, temporary) := configLoadLoop file.broken (file.content.length + 1) file.content configInit
    let result := if result = ok ∧ file.broken then errOpen else result
    let result := if ¬ file.closes ∧ result = ok then errOpen else result
    if result = ok then (result, temporary) else (result, configs)

/-! ### Its callers -/

/-- The configuration `shell_context_init` sets up; there is a file to load when a path for it was found. -/
def shellContextConfig (path : Option (Option ConfigFile)) : MiniShellConfig :=
  match path with
  | none => configInit
  | some file => (configLoad configInit file).2

/-- What `builtin_reload` does to the configuration, with its result. -/
def reloadConfig (configs : MiniShellConfig) (file : Option ConfigFile) : Int × MiniShellConfig :=
  let (ret, configs) := configLoad configs file
  if ret ≠ ok then (errUnknown, configs) else (ok, configs)

/-- The prompt `shell_print_prompt` formats; `none` is its branch for a text that does not fit, with `EOVERFLOW`. -/
def shellPrompt (configs : MiniShellConfig) : Option Bytes :=
  let prompt := [62, 62] ++ configs.prompts ++ [32]
  if prompt.length ≥ 128 then none else some prompt

/-- A file that sets two of the fields. -/
example : configLoad configInit (some ⟨promptsKey ++ [61, 97, 10, 35, 10] ++ debugKey ++ [32, 61, 32, 49],
      false, true⟩) =
    (ok, { prompts := [97], maxJob := 64, debug := 1 }) := by decide +kernel

end MiniShell
