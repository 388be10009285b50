import MiniShell.Model.ConfigPath

/-!
# Where the configuration comes from

* `candidates` — the paths that apply, in the order in which they are tried;
* `shellContextSetConfigPath_eq` — the first of them is taken;
* **`config_source_fixed`** — it is a complete absolute path, and every later `reload` opens it.
-/

namespace MiniShell

open MiniShell.Lib MiniShellError

/-! ### The candidates -/

/-- The directory of an absolute path is what stands before its last `'/'`, or the root. -/
def directoryOf (directory : Bytes) : Bytes := if directory = [] then [47] else directory

/-- The path has room in `config_file`. -/
def Fits (path : Bytes) : Prop := path.length < SHELL_CONFIG_PATH_SIZE

instance : DecidablePred Fits := fun path => inferInstanceAs (Decidable (path.length < SHELL_CONFIG_PATH_SIZE))

/-- The paths below the directory of the executable and the working directory, in their order.  The first two are there
only when the link target is not too long. -/
def fallbacks (present : Bytes → Bool) (directory base cwd : Bytes) : List Bytes :=
  ((if (directory ++ 47 :: base).length < SHELL_CONFIG_PATH_SIZE - 1 then
      [directoryOf directory ++ 47 :: configAbove, directoryOf directory ++ 47 :: configRelative] else []) ++
    [cwd ++ 47 :: configRelative]).filter fun path => Fits path ∧ present path

/-- The candidates that apply: `MINISHELL_CONFIG` alone, when it is set. -/
def candidates (environment : Option Bytes) (present : Bytes → Bool) (directory base cwd : Bytes) : List Bytes :=
  match environment with
  | some (c :: environment) => [resolve cwd (c :: environment)].filter fun path => Fits path
  | _ => fallbacks present directory base cwd

section

variable {s : Surroundings} {path cwd directory base configFile : Bytes} {paths : List Bytes}

/-- What is returned, and `config_file`, when the first of some paths is taken. -/
def firstPath : List Bytes → Int × Bytes
  | [] => (-1, [])
  | path :: _ => (0, path)

theorem firstPath_filter (p : Bytes → Bool) (path : Bytes) (paths : List Bytes) :
    firstPath ((path :: paths).filter p) = if p path then (0, path) else firstPath (paths.filter p) := by
  by_cases h : p path = true
  · rw [List.filter_cons_of_pos h, if_pos h]
    rfl
  · rw [List.filter_cons_of_neg h, if_neg h]

theorem not_fits : ¬ Fits path ↔ SHELL_CONFIG_PATH_SIZE ≤ path.length := not_lt

theorem shellContextCopyConfigPath_eq (hne : path ≠ []) :
    shellContextCopyConfigPath path [] = if Fits path then (0, path) else (-1, []) := by
  unfold shellContextCopyConfigPath
  rw [if_neg hne]
  by_cases h : Fits path
  · rw [if_pos h, if_neg (not_le.mpr h)]
  · rw [if_neg h, if_pos (not_fits.mp h)]

theorem getcwd_eq (hcwd : s.cwd = some cwd) :
    getcwd s SHELL_CONFIG_PATH_SIZE = if Fits cwd then some cwd else none := by
  unfold getcwd
  rw [hcwd]
  dsimp only
  by_cases h : Fits cwd
  · rw [if_pos h, if_neg (not_le.mpr h)]
  · rw [if_neg h, if_pos (not_fits.mp h)]

theorem joinPath_eq (directory relative : Bytes) : joinPath SHELL_CONFIG_PATH_SIZE directory relative =
    if Fits (directory ++ 47 :: relative) then some (directory ++ 47 :: relative) else none := by
  unfold joinPath
  dsimp only
  by_cases h : Fits (directory ++ 47 :: relative)
  · rw [if_pos h, if_neg (not_le.mpr h)]
  · rw [if_neg h, if_pos (not_fits.mp h)]

/-- A directory has room when a path below it has. -/
theorem Fits.above {relative : Bytes} (h : Fits (directory ++ 47 :: relative)) : Fits directory := by
  unfold Fits at *
  rw [List.length_append, List.length_cons] at h
  omega

/-- **A candidate is taken when it fits and is there.** -/
theorem shellContextTryConfigPath_eq (s : Surroundings) (directory relative : Bytes) :
    shellContextTryConfigPath s directory relative [] =
      if Fits (directory ++ 47 :: relative) ∧ s.present (directory ++ 47 :: relative) then
        (0, directory ++ 47 :: relative) else (-1, []) := by
  unfold shellContextTryConfigPath
  rw [joinPath_eq]
  by_cases hfits : Fits (directory ++ 47 :: relative)
  · rw [if_pos hfits]
    dsimp only
    rw [shellContextCopyConfigPath_eq (by simp), if_pos hfits]
    by_cases hpresent : s.present (directory ++ 47 :: relative) = true
    · rw [if_neg (not_not.mpr hpresent), if_pos ⟨hfits, hpresent⟩]
    · rw [if_pos hpresent, if_neg fun h => hpresent h.2]
  · rw [if_neg hfits, if_neg fun h => hfits h.1]

/-- **`MINISHELL_CONFIG` is taken when it fits**, made absolute. -/
theorem shellContextSetEnvironmentConfigPath_eq (hcwd : s.cwd = some cwd) (hne : path ≠ []) :
    shellContextSetEnvironmentConfigPath s path [] =
      if Fits (resolve cwd path) then (0, resolve cwd path) else (-1, []) := by
  unfold shellContextSetEnvironmentConfigPath resolve
  by_cases hroot : path.head? = some 47
  · rw [if_pos hroot, if_pos hroot, shellContextCopyConfigPath_eq hne]
  · rw [if_neg hroot, if_neg hroot, getcwd_eq hcwd]
    by_cases hfits : Fits (cwd ++ 47 :: path)
    · rw [if_pos hfits.above, if_pos hfits]
      dsimp only
      rw [joinPath_eq, if_pos hfits]
      dsimp only
      rw [shellContextCopyConfigPath_eq (by simp), if_pos hfits]
    · rw [if_neg hfits]
      by_cases hdir : Fits cwd
      · rw [if_pos hdir]
        dsimp only
        rw [joinPath_eq, if_neg hfits]
      · rw [if_neg hdir]

/-- The working directory comes last. -/
theorem shellContextTryCwd_eq (hcwd : s.cwd = some cwd) :
    shellContextTryCwd s [] =
      if Fits (cwd ++ 47 :: configRelative) ∧ s.present (cwd ++ 47 :: configRelative) then
        (0, cwd ++ 47 :: configRelative) else (-1, []) := by
  unfold shellContextTryCwd
  rw [getcwd_eq hcwd]
  by_cases hdir : Fits cwd
  · rw [if_pos hdir]
    dsimp only
    rw [shellContextTryConfigPath_eq]
    by_cases h : Fits (cwd ++ 47 :: configRelative) ∧ s.present (cwd ++ 47 :: configRelative) = true
    · rw [if_pos h]
      exact if_pos rfl
    · rw [if_neg h]
      exact if_neg (by decide)
  · rw [if_neg hdir, if_neg fun h => hdir h.1.above]

theorem uptoSlash_append (hbase : 47 ∉ base) (directory : Bytes) :
    uptoSlash (directory ++ 47 :: base) = directory ++ [47] := by
  unfold uptoSlash
  induction base using List.reverseRecOn with
  | nil => exact List.rdropWhile_concat_neg _ _ _ (by simp)
  | append_singleton base c ih =>
    rw [List.mem_append, not_or, List.mem_singleton] at hbase
    rw [← List.cons_append, ← List.append_assoc, List.rdropWhile_concat_pos _ _ _
      (by simpa using Ne.symm hbase.2)]
    exact ih hbase.1

/-- **The directory of the executable**, when the link target is not too long. -/
theorem executableDirectory_eq (hexe : s.executable = some (directory ++ 47 :: base)) (hbase : 47 ∉ base) :
    executableDirectory s =
      if (directory ++ 47 :: base).length < SHELL_CONFIG_PATH_SIZE - 1 then some (directoryOf directory)
        else none := by
  unfold executableDirectory readlinkExe
  rw [hexe, Option.map_some]
  dsimp only
  by_cases hlong : (directory ++ 47 :: base).length < SHELL_CONFIG_PATH_SIZE - 1
  · rw [List.take_of_length_le hlong.le, if_pos ⟨by simp, hlong⟩, if_pos hlong, uptoSlash_append hbase]
    unfold directoryOf
    cases directory with
    | nil => rfl
    | cons c directory =>
      have hlength : (c :: directory ++ [47]).length ≠ 1 := by simp
      show some (if (c :: directory ++ [47]).length = 1 then c :: directory ++ [47] else
        (c :: directory ++ [47]).dropLast) =
        some (c :: directory)
      rw [if_neg hlength, List.dropLast_concat]
  · rw [if_neg hlong, if_neg]
    rw [List.length_take_of_le (not_lt.mp hlong)]
    omega

/-- **The first candidate that applies is taken.** -/
theorem shellContextSetConfigPath_eq (hexe : s.executable = some (directory ++ 47 :: base)) (hbase : 47 ∉ base)
    (hcwd : s.cwd = some cwd) :
    shellContextSetConfigPath s [] = firstPath (candidates s.environment s.present directory base cwd) := by
  have hlast : shellContextTryCwd s [] =
      firstPath ([cwd ++ 47 :: configRelative].filter fun path => Fits path ∧ s.present path) := by
    rw [shellContextTryCwd_eq hcwd, firstPath_filter]
    simp only [decide_eq_true_eq]
    rfl
  have hfallback : shellContextFallback s [] = firstPath (fallbacks s.present directory base cwd) := by
    unfold shellContextFallback fallbacks
    rw [executableDirectory_eq hexe hbase]
    by_cases hlong : (directory ++ 47 :: base).length < SHELL_CONFIG_PATH_SIZE - 1
    · rw [if_pos hlong, if_pos hlong, List.cons_append, List.cons_append, List.nil_append, firstPath_filter,
        firstPath_filter, ← hlast]
      by_cases habove : Fits (directoryOf directory ++ 47 :: configAbove) ∧
          s.present (directoryOf directory ++ 47 :: configAbove) = true
      · simp [shellContextTryConfigPath_eq, habove]
      · by_cases hbeside : Fits (directoryOf directory ++ 47 :: configRelative) ∧
            s.present (directoryOf directory ++ 47 :: configRelative) = true
        · simp [shellContextTryConfigPath_eq, habove, hbeside]
        · simp [shellContextTryConfigPath_eq, habove, hbeside]
    · rw [if_neg hlong, if_neg hlong]
      exact hlast
  unfold shellContextSetConfigPath candidates
  cases henv : s.environment with
  | none => exact hfallback
  | some environment =>
    cases environment with
    | nil => exact hfallback
    | cons c environment =>
      dsimp only
      rw [shellContextSetEnvironmentConfigPath_eq hcwd (List.cons_ne_nil c environment), firstPath_filter]
      simp only [decide_eq_true_eq]
      rfl

/-- A candidate is an absolute path that fits. -/
theorem mem_candidates {environment : Option Bytes} {present : Bytes → Bool}
    (hroot : (directory ++ 47 :: base).head? = some 47) (hcwd : cwd.head? = some 47)
    (h : path ∈ candidates environment present directory base cwd) : path.head? = some 47 ∧ Fits path := by
  have hbelow : ∀ {top : Bytes} (relative : Bytes), top.head? = some 47 →
      (top ++ 47 :: relative).head? = some 47 :=
    fun relative htop => by rw [List.head?_append, htop, Option.some_or]
  have hdirectory : (directoryOf directory).head? = some 47 := by
    unfold directoryOf
    cases directory with
    | nil => rfl
    | cons c directory => exact hroot
  have hfallback : path ∈ fallbacks present directory base cwd → path.head? = some 47 ∧ Fits path := by
    intro hmem
    obtain ⟨hpath, happly⟩ := List.mem_filter.mp hmem
    refine ⟨?_, (of_decide_eq_true happly).1⟩
    rcases List.mem_append.mp hpath with hexe | hlast
    · split at hexe
      case isTrue =>
        simp only [List.mem_cons, List.not_mem_nil, or_false] at hexe
        rcases hexe with rfl | rfl
        · exact hbelow _ hdirectory
        · exact hbelow _ hdirectory
      case isFalse => cases hexe
    · rw [List.mem_singleton.mp hlast]
      exact hbelow _ hcwd
  unfold candidates at h
  split at h
  case h_1 c environment =>
    obtain ⟨hpath, hfits⟩ := List.mem_filter.mp h
    refine ⟨?_, of_decide_eq_true hfits⟩
    rw [List.mem_singleton.mp hpath]
    unfold resolve
    split
    case isTrue habsolute => exact habsolute
    case isFalse => exact hbelow _ hcwd
  case h_2 => exact hfallback h

/-! ### Later reloads -/

/-- The paths that the reloads among the steps open. -/
def reloadOpens (configFile : Bytes) : List ConfigStep → List Bytes
  | [] => []
  | .cd _ _ _ :: steps => reloadOpens configFile steps
  | .reload _ :: steps => (if configFile = [] then [] else [configFile]) ++ reloadOpens configFile steps

/-- `config_file` is empty or absolute. -/
def EmptyOrAbsolute (configFile : Bytes) : Prop := configFile = [] ∨ configFile.head? = some 47

/-- An absolute path is opened whatever the working directory is. -/
theorem fopenPath_absolute (h : EmptyOrAbsolute configFile) (cwd : Bytes) :
    fopenPath cwd configFile = if configFile = [] then none else some configFile := by
  unfold fopenPath resolve
  by_cases hnil : configFile = []
  · rw [if_pos hnil, if_pos hnil]
  · rw [if_neg hnil, if_neg hnil, if_pos (h.resolve_left hnil)]

/-- What `config_load` opens. -/
theorem load_opened {shell : ConfigShell} (h : EmptyOrAbsolute shell.configFile)
    (files : Bytes → Option ConfigFile) :
    (shell.load files).2 = shell.opened ++ if shell.configFile = [] then [] else [shell.configFile] := by
  unfold ConfigShell.load
  rw [fopenPath_absolute h]
  by_cases hnil : shell.configFile = []
  · rw [if_pos hnil, if_pos hnil, List.append_nil]
  · rw [if_neg hnil, if_neg hnil]

/-- **One step**: `config_file` stays, and a reload opens it. -/
theorem step_opened {shell : ConfigShell} (h : EmptyOrAbsolute shell.configFile) (step : ConfigStep) :
    (shell.step step).configFile = shell.configFile ∧
      (shell.step step).opened = shell.opened ++ reloadOpens shell.configFile [step] := by
  cases step with
  | cd home chdir cmd => exact ⟨rfl, (List.append_nil _).symm⟩
  | reload files =>
    refine ⟨rfl, ?_⟩
    rw [reloadOpens, reloadOpens, List.append_nil, ← load_opened h files]
    rfl

/-- **All steps.** -/
theorem steps_opened (steps : List ConfigStep) {shell : ConfigShell} (h : EmptyOrAbsolute shell.configFile) :
    (steps.foldl ConfigShell.step shell).configFile = shell.configFile ∧
      (steps.foldl ConfigShell.step shell).opened = shell.opened ++ reloadOpens shell.configFile steps := by
  induction steps generalizing shell with
  | nil => exact ⟨rfl, (List.append_nil _).symm⟩
  | cons step steps ih =>
    obtain ⟨hfile, hopened⟩ := step_opened h step
    obtain ⟨hfile', hopened'⟩ := ih (hfile ▸ h)
    rw [List.foldl_cons, hfile', hopened', hopened, hfile, List.append_assoc]
    refine ⟨rfl, congrArg (shell.opened ++ ·) ?_⟩
    cases step with
    | cd home chdir cmd => rfl
    | reload files => simp [reloadOpens]

/-- **What `shell_context_init` leaves**: the first of the paths, which it has opened. -/
theorem shellContextInitConfig_opened (hset : shellContextSetConfigPath s [] = firstPath paths)
    (h : ∀ path ∈ paths, path.head? = some 47) (cwd : Bytes) (files : Bytes → Option ConfigFile) :
    (shellContextInitConfig s cwd files).configFile = paths.head?.getD [] ∧
    EmptyOrAbsolute (paths.head?.getD []) ∧
      (shellContextInitConfig s cwd files).opened = if paths.head?.getD [] = [] then []
      else [paths.head?.getD []] := by
  unfold shellContextInitConfig
  rw [hset]
  cases paths with
  | nil => exact ⟨rfl, Or.inl rfl, rfl⟩
  | cons path paths =>
    have hpath : EmptyOrAbsolute path := Or.inr (h path List.mem_cons_self)
    have hstart : EmptyOrAbsolute (⟨cwd, path, configInit, []⟩ : ConfigShell).configFile := hpath
    exact ⟨rfl, hpath, load_opened hstart files⟩

end

/-- **The source of the configuration is fixed at the start.**  `config_file` is the first candidate that applies,
or empty when there is none; it is complete and absolute.  When `MINISHELL_CONFIG` is set nothing else is taken.
Every later reload opens this path, whatever `cd` has done. -/
theorem config_source_fixed (s : Surroundings) (directory base cwd : Bytes)
    (hexe : s.executable = some (directory ++ 47 :: base)) (hbase : 47 ∉ base)
    (hroot : (directory ++ 47 :: base).head? = some 47) (hcwd : s.cwd = some cwd) (habsolute : cwd.head? = some 47)
    (files : Bytes → Option ConfigFile) (steps : List ConfigStep) :
    ∃ path, path = ((candidates s.environment s.present directory base cwd).head?).getD [] ∧
      (path = [] ∨ path.head? = some 47 ∧ path.length < SHELL_CONFIG_PATH_SIZE) ∧
      (∀ c environment, s.environment = some (c :: environment) → path = [] ∨
        path = resolve cwd (c :: environment)) ∧
      (shellContextInitConfig s cwd files).configFile = path ∧
      (steps.foldl ConfigShell.step (shellContextInitConfig s cwd files)).configFile = path ∧
      (steps.foldl ConfigShell.step (shellContextInitConfig s cwd files)).opened =
        (if path = [] then [] else [path]) ++ reloadOpens path steps := by
  have hset := shellContextSetConfigPath_eq hexe hbase hcwd
  have hmem : ∀ path ∈ candidates s.environment s.present directory base cwd, path.head? = some 47 ∧
      Fits path :=
    fun path => mem_candidates hroot habsolute
  have henvironment : ∀ c environment, s.environment = some (c :: environment) →
      ∀ path ∈ candidates s.environment s.present directory base cwd, path = resolve cwd
        (c :: environment) := by
    intro c environment henv path hpath
    rw [henv] at hpath
    exact List.mem_singleton.mp (List.mem_filter.mp hpath).1
  generalize candidates s.environment s.present directory base cwd = paths at hset hmem henvironment ⊢
  obtain ⟨hfile, hpath, hopened⟩ := shellContextInitConfig_opened hset (fun path h => (hmem path h).1) cwd files
  obtain ⟨hfile', hopened'⟩ := steps_opened steps (hfile ▸ hpath)
  refine ⟨_, rfl, ?_, fun c environment henv => ?_, hfile, hfile'.trans hfile, ?_⟩
  · cases paths with
    | nil => exact Or.inl rfl
    | cons path paths => exact Or.inr (hmem path List.mem_cons_self)
  · cases paths with
    | nil => exact Or.inl rfl
    | cons path paths => exact Or.inr (henvironment c environment henv path List.mem_cons_self)
  · rw [hopened', hopened, hfile]

/-- `/usr/bin`. -/
def usrBin : Bytes := ascii ['/', 'u', 's', 'r', '/', 'b', 'i', 'n']

/-- The shell is `/usr/bin/msh`, started in `/root`, and there is a file `/usr/bin/../config/config.conf`. -/
def deployed : Surroundings :=
  { environment := none
    executable := some (usrBin ++ 47 :: ascii ['m', 's', 'h'])
    cwd := some (ascii ['/', 'r', 'o', 'o', 't'])
    present := fun path => path = usrBin ++ 47 :: configAbove }

/-- A reload in `/tmp` opens this file again. -/
theorem deployed_source_fixed :
    ([.cd (some (ascii ['/', 't', 'm', 'p'])) some ⟨1, [ascii ['c', 'd']], false, ⟨none, none, false⟩⟩,
      .reload fun _ => none].foldl ConfigShell.step
        (shellContextInitConfig deployed (ascii ['/', 'r', 'o', 'o', 't']) fun _ => none)).opened =
      [usrBin ++ 47 :: configAbove, usrBin ++ 47 :: configAbove] := by
  obtain ⟨path, hpath, -, -, -, -, hopened⟩ := config_source_fixed deployed usrBin (ascii ['m', 's', 'h'])
    (ascii ['/', 'r', 'o', 'o', 't']) rfl (by decide) rfl rfl rfl (fun _ => none)
    [.cd (some (ascii ['/', 't', 'm', 'p'])) some ⟨1, [ascii ['c', 'd']], false, ⟨none, none, false⟩⟩,
      .reload fun _ => none]
  have hfirst : path = usrBin ++ 47 :: configAbove := hpath.trans (by decide +kernel)
  subst hfirst
  exact hopened.trans (by decide)

end MiniShell
