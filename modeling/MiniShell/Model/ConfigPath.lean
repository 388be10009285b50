import MiniShell.Model.Config

/-!
# `shell_context.c`: the path of the configuration file

A path is the bytes of a C string.  `config_file` is passed along by the functions that change it.  The steps at the end
are `cd` and `reload`, with what the kernel makes of a path.
-/

namespace MiniShell

open MiniShell.Lib MiniShellError

def SHELL_CONFIG_PATH_SIZE : ℕ := 4096

/-- What the shell finds when it starts. -/
structure Surroundings where
  /-- `getenv("MINISHELL_CONFIG")` -/
  environment : Option Bytes
  /-- what `/proc/self/exe` links to, if it can be read -/
  executable : Option Bytes
  /-- the working directory, if it has a name -/
  cwd : Option Bytes
  /-- `access(path, F_OK)` -/
  present : Bytes → Bool

/-- `getcwd`. -/
def getcwd (s : Surroundings) (size : ℕ) : Option Bytes :=
  match s.cwd with
  | none => none
  | some cwd => if size ≤ cwd.length then none else some cwd

/-- `readlink` on `/proc/self/exe`: as much of the target as there is room for. -/
def readlinkExe (s : Surroundings) (size : ℕ) : Option Bytes := s.executable.map (·.take size)

/-- `snprintf` of two strings with a `'/'` between them: `none` when they do not fit. -/
def joinPath (size : ℕ) (directory relative : Bytes) : Option Bytes :=
  let path := directory ++ 47 :: relative
  if size ≤ path.length then none else some path

/-- The string up to and with its last `'/'`, which is what `strrchr` looks for. -/
def uptoSlash (s : Bytes) : Bytes := s.rdropWhile (· ≠ 47)

/-- `shell_context_copy_config_path`: the result, and `config_file`. -/
def shellContextCopyConfigPath (path configFile : Bytes) : Int × Bytes :=
  if path = [] then (-1, configFile)
  else if SHELL_CONFIG_PATH_SIZE ≤ path.length then (-1, [])
  else (0, path)

/-- `shell_context_set_environment_config_path`. -/
def shellContextSetEnvironmentConfigPath (s : Surroundings) (path configFile : Bytes) : Int × Bytes :=
  if path.head? = some 47 then shellContextCopyConfigPath path configFile
  else
    match getcwd s SHELL_CONFIG_PATH_SIZE with
    | none => (-1, configFile)
    | some cwd =>
      match joinPath SHELL_CONFIG_PATH_SIZE cwd path with
      | none => (-1, configFile)
      | some absolute => shellContextCopyConfigPath absolute configFile

/-- `shell_context_try_config_path`. -/
def shellContextTryConfigPath (s : Surroundings) (directory relative configFile : Bytes) : Int × Bytes :=
  match joinPath SHELL_CONFIG_PATH_SIZE directory relative with
  | none => (-1, configFile)
  | some path => if ¬ s.present path then (-1, configFile) else shellContextCopyConfigPath path configFile

/-- `config/config.conf`. -/
def configRelative : Bytes :=
  ascii ['c', 'o', 'n', 'f', 'i', 'g', '/', 'c', 'o', 'n', 'f', 'i', 'g', '.', 'c', 'o', 'n', 'f']

/-- `../config/config.conf`. -/
def configAbove : Bytes := ascii ['.', '.', '/'] ++ configRelative

/-- The directory of the executable, when its path has a `'/'` and fits. -/
def executableDirectory (s : Surroundings) : Option Bytes :=
  match readlinkExe s (SHELL_CONFIG_PATH_SIZE - 1) with
  | none => none
  | some executable =>
    if 0 < executable.length ∧ executable.length < SHELL_CONFIG_PATH_SIZE - 1 then
      match uptoSlash executable with
      | [] => none
      | upto => some (if upto.length = 1 then upto else upto.dropLast)
    else none

/-- The end of `shell_context_set_config_path`: the working directory, or nothing. -/
def shellContextTryCwd (s : Surroundings) (configFile : Bytes) : Int × Bytes :=
  match getcwd s SHELL_CONFIG_PATH_SIZE with
  | none => (-1, [])
  | some cwd =>
    let (ret, path) := shellContextTryConfigPath s cwd configRelative configFile
    if ret = 0 then (0, path) else (-1, [])

/-- `shell_context_set_config_path` without `MINISHELL_CONFIG`. -/
def shellContextFallback (s : Surroundings) (configFile : Bytes) : Int × Bytes :=
  match executableDirectory s with
  | none => shellContextTryCwd s configFile
  | some executable =>
    let (ret, path) := shellContextTryConfigPath s executable configAbove configFile
    if ret = 0 then (0, path)
    else
      let (ret, path) := shellContextTryConfigPath s executable configRelative path
      if ret = 0 then (0, path) else shellContextTryCwd s path

/-- `shell_context_set_config_path`. -/
def shellContextSetConfigPath (s : Surroundings) (configFile : Bytes) : Int × Bytes :=
  match s.environment with
  | some (c :: environment) => shellContextSetEnvironmentConfigPath s (c :: environment) configFile
  | _ => shellContextFallback s configFile

/-! ### The shell and its working directory -/

/-- The path a process in `cwd` reaches by `path`. -/
def resolve (cwd path : Bytes) : Bytes := if path.head? = some 47 then path else cwd ++ 47 :: path

/-- `fopen`: the file it opens, if the path is not empty. -/
def fopenPath (cwd path : Bytes) : Option Bytes := if path = [] then none else some (resolve cwd path)

/-- What `config_load` and `cd` use of the shell, with the paths that `config_load` has opened. -/
structure ConfigShell where
  cwd : Bytes
  configFile : Bytes
  config : MiniShellConfig
  opened : List Bytes

/-- `config_load` on `config_file`; the second argument says what is where. -/
def ConfigShell.load (shell : ConfigShell) (files : Bytes → Option ConfigFile) :
    Option ConfigFile × List Bytes :=
  match fopenPath shell.cwd shell.configFile with
  | none => (none, shell.opened)
  | some path => (files path, shell.opened ++ [path])

/-- What `shell_context_init` does about the configuration. -/
def shellContextInitConfig (s : Surroundings) (cwd : Bytes) (files : Bytes → Option ConfigFile) : ConfigShell :=
  let (ret, configFile) := shellContextSetConfigPath s []
  let shell : ConfigShell := ⟨cwd, configFile, configInit, []⟩
  if ret = 0 then
    let (file, opened) := shell.load files
    { shell with config := shellContextConfig (some file), opened := opened }
  else { shell with config := shellContextConfig none }

/-- `builtin_cd`: the result, and the working directory; `chdir` gives the new one if it succeeds. -/
def builtinCd (home : Option Bytes) (chdir : Bytes → Option Bytes) (cmd : Command) (cwd : Bytes) : Int × Bytes :=
  let path := if cmd.argc < 2 then home else cmd.argv[1]?
  match path with
  | none => (errUnknown, cwd)
  | some path =>
    match chdir path with
    | none => (errUnknown, cwd)
    | some cwd => (ok, cwd)

/-- A command that changes the working directory or reads the configuration. -/
inductive ConfigStep where
  | cd (home : Option Bytes) (chdir : Bytes → Option Bytes) (cmd : Command)
  | reload (files : Bytes → Option ConfigFile)

def ConfigShell.step (shell : ConfigShell) : ConfigStep → ConfigShell
  | .cd home chdir cmd => { shell with cwd := (builtinCd home chdir cmd shell.cwd).2 }
  | .reload files =>
    let (file, opened) := shell.load files
    { shell with config := (reloadConfig shell.config file).2, opened := opened }

end MiniShell
