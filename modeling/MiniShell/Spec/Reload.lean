import MiniShell.Spec.Config

/-!
# Loading and reloading the configuration

A file is its lines, `fileLines`, and the lines that `config_load` accepts say a list of settings, `FileSays`.
`configLoad_transaction` says that `config_load` either applies exactly these settings to the defaults or leaves the
configuration alone, and `configLine_grammar` that the lines that spell a configuration out give it back.
-/

namespace MiniShell

open MiniShell.Lib MiniShellError

/-! ### The lines of a file -/

/-- What stands between the newlines; a final newline adds no line. -/
def fileLines (content : Bytes) : List Bytes :=
  let pieces := content.splitOn 10
  if pieces.getLast? = some [] then pieces.dropLast else pieces

section

variable {content line rest : Bytes} {lines : List Bytes} {settings : List Setting} {temporary : MiniShellConfig}
  {n : ℕ}

theorem splitOn_newline (h : 10 ∉ line) (rest : Bytes) :
    (line ++ 10 :: rest).splitOn 10 = line :: rest.splitOn 10 :=
  List.splitOnP_append_cons_of_forall_mem (fun c hc => by simpa using fun h' : c = 10 => h (h' ▸ hc)) 10
    (by simp) rest

theorem splitOn_last (h : 10 ∉ line) : line.splitOn 10 = [line] :=
  List.splitOnP_eq_singleton fun c hc => by simpa using fun h' : c = 10 => h (h' ▸ hc)

theorem fileLines_nil : fileLines [] = [] := rfl

theorem fileLines_last (h : 10 ∉ line) (hne : line ≠ []) : fileLines line = [line] := by
  unfold fileLines
  rw [splitOn_last h]
  exact if_neg (by simpa using hne)

theorem fileLines_cons (h : 10 ∉ line) (rest : Bytes) :
    fileLines (line ++ 10 :: rest) = line :: fileLines rest := by
  have hne : rest.splitOn 10 ≠ [] := List.splitOnP_ne_nil _ _
  unfold fileLines
  dsimp only
  rw [splitOn_newline h, List.getLast?_cons_of_ne_nil hne, List.dropLast_cons_of_ne_nil hne]
  split <;> rfl

/-- The content begins with a line, which a newline ends unless it is the last one. -/
def Starts (content line rest : Bytes) : Prop :=
  10 ∉ line ∧ (content = line ++ 10 :: rest ∨ content = line ∧ line ≠ [] ∧ rest = [])

theorem file_cases (content : Bytes) : content = [] ∨ ∃ line rest, Starts content line rest := by
  by_cases h : 10 ∈ content
  · obtain ⟨line, rest, hsplit, hline⟩ := List.eq_append_cons_of_mem h
    exact Or.inr ⟨line, rest, hline, Or.inl hsplit⟩
  · by_cases hne : content = []
    · exact Or.inl hne
    · exact Or.inr ⟨content, [], h, Or.inr ⟨rfl, hne, rfl⟩⟩

theorem Starts.fileLines (h : Starts content line rest) : fileLines content = line :: fileLines rest := by
  obtain ⟨h10, rfl | ⟨rfl, hne, rfl⟩⟩ := h
  · exact fileLines_cons h10 rest
  · exact fileLines_last h10 hne

theorem Starts.length_lt (h : Starts content line rest) : rest.length < content.length := by
  obtain ⟨-, rfl | ⟨rfl, hne, rfl⟩⟩ := h
  · simp only [List.length_append, List.length_cons]
    omega
  · exact List.length_pos_iff.mpr hne

theorem Starts.ne_zero (h : Starts content line rest) (h0 : 0 ∉ content) : 0 ∉ line ∧ 0 ∉ rest := by
  obtain ⟨-, rfl | ⟨rfl, -, rfl⟩⟩ := h
  · simp only [List.mem_append, List.mem_cons, not_or] at h0
    exact ⟨h0.1, h0.2.2⟩
  · exact ⟨h0, List.not_mem_nil⟩

/-! ### Reading a line -/

theorem fgetsChars_line (h : 10 ∉ line) (hlen : line.length < n) :
    fgetsChars n (line ++ 10 :: rest) = (line ++ [10], rest, false) := by
  induction line generalizing n with
  | nil =>
    cases n with
    | zero => simp at hlen
    | succ n => rfl
  | cons c line ih =>
    obtain ⟨hc, hline⟩ := not_or.mp fun h' => h (List.mem_cons.mpr h')
    cases n with
    | zero => simp at hlen
    | succ n =>
      rw [List.cons_append, fgetsChars, if_neg fun h' : c = 10 => hc h'.symm, ih hline (by simpa using hlen)]
      rfl

theorem fgetsChars_last (h : 10 ∉ line) (hlen : line.length < n) : fgetsChars n line = (line, [], true) := by
  induction line generalizing n with
  | nil =>
    cases n with
    | zero => simp at hlen
    | succ n => rfl
  | cons c line ih =>
    obtain ⟨hc, hline⟩ := not_or.mp fun h' => h (List.mem_cons.mpr h')
    cases n with
    | zero => simp at hlen
    | succ n => rw [fgetsChars, if_neg fun h' : c = 10 => hc h'.symm, ih hline (by simpa using hlen)]

theorem fgetsChars_long (h : 10 ∉ line) (hlen : n ≤ line.length) :
    fgetsChars n (line ++ rest) = (line.take n, line.drop n ++ rest, false) := by
  induction line generalizing n with
  | nil =>
    obtain rfl : n = 0 := Nat.le_zero.mp hlen
    rfl
  | cons c line ih =>
    obtain ⟨hc, hline⟩ := not_or.mp fun h' => h (List.mem_cons.mpr h')
    cases n with
    | zero => rfl
    | succ n =>
      rw [List.cons_append, fgetsChars, if_neg fun h' : c = 10 => hc h'.symm, ih hline (by simpa using hlen)]
      rfl

theorem trim_newline (line : Bytes) : trim (line ++ [10]) = trim line := trim_concat_space (by decide) line

/-- The newline at the end of a line does not matter. -/
theorem configParseLine_newline (h0 : 0 ∉ line) (configs : MiniShellConfig) :
    configParseLine (line ++ [10] ++ [0]) configs = configParseLine (line ++ [0]) configs := by
  have h0' : 0 ∉ line ++ [10] := by simpa using h0
  obtain ⟨hign, hsets, hnone⟩ := configParseLine_spec line h0 configs
  obtain ⟨hign', hsets', hnone'⟩ := configParseLine_spec (line ++ [10]) h0' configs
  simp only [Ignored, Sets, trim_newline] at hign' hsets' hnone'
  by_cases h : Ignored line
  · rw [hign h, hign' h]
  · by_cases hsome : ∃ setting, Sets line setting
    · obtain ⟨setting, hset⟩ := hsome
      rw [hsets setting h hset, hsets' setting h hset]
    · rw [hnone h (not_exists.mp hsome), hnone' h (not_exists.mp hsome)]

/-- **The round of a line that fits.** -/
theorem Starts.round_fits (h : Starts content line rest) (h0 : 0 ∉ line) (hlen : line.length ≤ 254) :
    configLoadLoop false (n + 1) content temporary =
      let (result, temporary) := configParseLine (line ++ [0]) temporary
      if result ≠ ok then (result, temporary) else configLoadLoop false n rest temporary := by
  obtain ⟨h10, rfl | ⟨rfl, hne, rfl⟩⟩ := h
  · have h0' : 0 ∉ line ++ [10] := by simpa using h0
    conv_lhs => unfold configLoadLoop
    unfold fgets
    rw [fgetsChars_line h10 (by omega)]
    dsimp only
    rw [if_neg (by simp)]
    dsimp only
    rw [cString_eq_self h0', if_neg (by simp), configParseLine_newline h0]
  · conv_lhs => unfold configLoadLoop
    unfold fgets
    rw [fgetsChars_last h10 (by omega)]
    dsimp only
    rw [if_neg (by simpa using hne)]
    dsimp only
    rw [if_neg (by simp)]

/-- **The round of a line that is too long.** -/
theorem Starts.round_long (h : Starts content line rest) (h0 : 0 ∉ line) (hlen : 254 < line.length) :
    configLoadLoop false (n + 1) content temporary = (errParse, temporary) := by
  have h0' : 0 ∉ line.take 255 := fun h => h0 (List.mem_of_mem_take h)
  obtain ⟨h10, hcontent⟩ := h
  obtain ⟨more, rfl⟩ : ∃ more, content = line ++ more := by
    rcases hcontent with rfl | ⟨rfl, -, -⟩
    · exact ⟨_, rfl⟩
    · exact ⟨[], (List.append_nil _).symm⟩
  conv_lhs => unfold configLoadLoop
  unfold fgets
  rw [fgetsChars_long h10 (by omega)]
  dsimp only
  rw [if_neg (by simp)]
  dsimp only
  rw [cString_eq_self h0', List.length_take_of_le (by omega), if_pos]
  refine ⟨by decide, fun h => h10 ?_, by decide⟩
  exact List.mem_of_mem_take (List.mem_of_getElem? h)

/-! ### What a file says -/

/-- `config_parse_line` accepts the line. -/
def Accepted (line : Bytes) : Prop := ∀ configs, (configParseLine (line ++ [0]) configs).1 = ok

/-- **The lines say the settings**, in this order, and none is too long. -/
inductive FileSays : List Bytes → List Setting → Prop
  | nil : FileSays [] []
  | ignored {line : Bytes} {lines : List Bytes} {settings : List Setting} (hlen : line.length ≤ 254)
      (hset : Ignored line) (hrest : FileSays lines settings) : FileSays (line :: lines) settings
  | sets {line : Bytes} {lines : List Bytes} {setting : Setting} {settings : List Setting}
    (hlen : line.length ≤ 254)
      (hline : ¬ Ignored line) (hset : Sets line setting) (hrest : FileSays lines settings) :
      FileSays (line :: lines) (setting :: settings)

theorem accepted_iff (h0 : 0 ∉ line) : Accepted line ↔ Ignored line ∨ ∃ setting, Sets line setting := by
  constructor
  · intro h
    by_contra hnone
    obtain ⟨hign, hsets⟩ := not_or.mp hnone
    have hcode := h configInit
    rw [(configParseLine_spec line h0 configInit).2.2 hign (not_exists.mp hsets)] at hcode
    cases hcode
  · intro h configs
    by_cases hign : Ignored line
    · rw [(configParseLine_spec line h0 configs).1 hign]
    · obtain ⟨setting, hsets⟩ := h.resolve_left hign
      rw [(configParseLine_spec line h0 configs).2.1 setting hign hsets]

/-- Lines that fit and are accepted say something. -/
theorem fileSays_of_accepted (h0 : ∀ line ∈ lines, 0 ∉ line)
    (h : ∀ line ∈ lines, line.length ≤ 254 ∧ Accepted line) :
    ∃ settings, FileSays lines settings := by
  induction lines with
  | nil => exact ⟨[], .nil⟩
  | cons line lines ih =>
    obtain ⟨settings, hrest⟩ :=
      ih (fun l hl => h0 l (List.mem_cons_of_mem _ hl)) fun l hl => h l (List.mem_cons_of_mem _ hl)
    obtain ⟨hlen, hacc⟩ := h line List.mem_cons_self
    by_cases hign : Ignored line
    · exact ⟨settings, .ignored hlen hign hrest⟩
    · obtain ⟨setting, hsets⟩ := ((accepted_iff (h0 line List.mem_cons_self)).mp hacc).resolve_left hign
      exact ⟨setting :: settings, .sets hlen hign hsets hrest⟩

/-- Applying lines in order, by the code, is applying what they say. -/
theorem FileSays.foldl_parseLine (h : FileSays lines settings) (h0 : ∀ line ∈ lines, 0 ∉ line)
    (configs : MiniShellConfig) :
    lines.foldl (fun configs line => (configParseLine (line ++ [0]) configs).2) configs =
      settings.foldl Setting.apply configs := by
  induction h generalizing configs with
  | nil => rfl
  | ignored hlen hset hrest ih =>
    rw [List.foldl_cons, (configParseLine_spec _ (h0 _ List.mem_cons_self) configs).1 hset]
    exact ih (fun l hl => h0 l (List.mem_cons_of_mem _ hl)) configs
  | sets hlen hline hset hrest ih =>
    rw [List.foldl_cons, (configParseLine_spec _ (h0 _ List.mem_cons_self) configs).2.1 _ hline hset,
      List.foldl_cons]
    exact ih (fun l hl => h0 l (List.mem_cons_of_mem _ hl)) _

/-- **The loop on lines that say something.** -/
theorem configLoadLoop_settings (hn : content.length < n) (h0 : 0 ∉ content)
    (h : FileSays (fileLines content) settings) :
    configLoadLoop false n content temporary = (ok, settings.foldl Setting.apply temporary) := by
  induction n generalizing content settings temporary with
  | zero => omega
  | succ n ih =>
    rcases file_cases content with rfl | ⟨line, rest, hstart⟩
    · cases h
      rfl
    · obtain ⟨h0', hrest0⟩ := hstart.ne_zero h0
      have hlt := hstart.length_lt
      rw [hstart.fileLines] at h
      cases h with
      | ignored hlen hset hrest =>
        rw [hstart.round_fits h0' hlen, (configParseLine_spec line h0' temporary).1 hset]
        exact ih (by omega) hrest0 hrest
      | sets hlen hline hset hrest =>
        rw [hstart.round_fits h0' hlen, (configParseLine_spec line h0' temporary).2.1 _ hline hset]
        exact ih (by omega) hrest0 hrest

/-- **The loop on lines of which one is too long or refused.** -/
theorem configLoadLoop_refuses (hn : content.length < n) (h0 : 0 ∉ content)
    (h : ¬ ∀ line ∈ fileLines content, line.length ≤ 254 ∧ Accepted line) :
    (configLoadLoop false n content temporary).1 = errParse := by
  induction n generalizing content temporary with
  | zero => omega
  | succ n ih =>
    rcases file_cases content with rfl | ⟨line, rest, hstart⟩
    · exact absurd (fun line hl => absurd hl (by rw [fileLines_nil]; exact List.not_mem_nil)) h
    · obtain ⟨h0', hrest0⟩ := hstart.ne_zero h0
      have hlt := hstart.length_lt
      rw [hstart.fileLines, List.forall_mem_cons] at h
      by_cases hlen : line.length ≤ 254
      · rw [hstart.round_fits h0' hlen]
        by_cases hacc : Accepted line
        · dsimp only
          rw [if_neg (not_not.mpr (hacc temporary))]
          exact ih (by omega) hrest0 fun hrest => h ⟨⟨hlen, hacc⟩, hrest⟩
        · obtain ⟨hign, hsets⟩ := not_or.mp fun h' => hacc ((accepted_iff h0').mpr h')
          rw [(configParseLine_spec line h0' temporary).2.2 hign (not_exists.mp hsets)]
          rfl
      · rw [hstart.round_long h0' (by omega)]

theorem fileLines_ne_zero (h0 : 0 ∉ content) : ∀ line ∈ fileLines content, 0 ∉ line := by
  induction hn : content.length using Nat.strong_induction_on generalizing content with
  | _ n ih =>
    subst hn
    rcases file_cases content with rfl | ⟨line, rest, hstart⟩
    · rw [fileLines_nil]
      exact fun line hl => absurd hl List.not_mem_nil
    · obtain ⟨h0', hrest0⟩ := hstart.ne_zero h0
      rw [hstart.fileLines, List.forall_mem_cons]
      exact ⟨h0', ih _ hstart.length_lt hrest0 rfl⟩

/-! ### The last assignment wins -/

def Setting.promptsOf : Setting → Option Bytes
  | prompts text => some text
  | _ => none

def Setting.maxJobOf : Setting → Option Int
  | maxJob n => some n
  | _ => none

def Setting.debugOf : Setting → Option Int
  | debug on => some (if on then 1 else 0)
  | _ => none

/-- What the last of the settings of one field says, or else what the field was. -/
def lastOr {β : Type} (settings : List Setting) (pick : Setting → Option β) (default : β) : β :=
  (settings.reverse.findSome? pick).getD default

theorem lastOr_concat {β : Type} (settings : List Setting) (setting : Setting) (pick : Setting → Option β)
    (default : β) :
    lastOr (settings ++ [setting]) pick default = (pick setting).getD (lastOr settings pick default) := by
  unfold lastOr
  rw [List.reverse_concat, List.findSome?_cons]
  cases pick setting <;> rfl

theorem foldl_apply (settings : List Setting) (configs : MiniShellConfig) : settings.foldl Setting.apply configs =
    { prompts := lastOr settings Setting.promptsOf configs.prompts,
      maxJob := lastOr settings Setting.maxJobOf configs.maxJob,
      debug := lastOr settings Setting.debugOf configs.debug } := by
  induction settings using List.reverseRecOn with
  | nil => rfl
  | append_singleton settings setting ih =>
    rw [List.foldl_append, ih, lastOr_concat, lastOr_concat, lastOr_concat]
    cases setting <;> rfl

end

/-! ### Configurations that can be loaded -/

/-- What every configuration keeps. -/
structure ValidConfig (configs : MiniShellConfig) : Prop where
  prompts : 1 ≤ configs.prompts.length ∧ configs.prompts.length ≤ 63
  maxJob : 1 ≤ configs.maxJob ∧ configs.maxJob ≤ INT_MAX
  debug : configs.debug = 0 ∨ configs.debug = 1

section

variable {configs : MiniShellConfig}

theorem configInit_valid : ValidConfig configInit := ⟨by decide, by decide, by decide⟩

theorem configSet_valid (h : ValidConfig configs) (key value : Bytes) :
    ValidConfig (configSet key value configs).2 := by
  unfold configSet
  split
  · exact h
  · split
    · split
      · exact h
      · rename_i hval
        obtain ⟨hne, hlen⟩ := not_or.mp hval
        unfold PROMPTS_SIZE at hlen
        exact ⟨⟨List.length_pos_iff.mpr hne, by dsimp only; omega⟩, h.maxJob, h.debug⟩
    · split
      · dsimp only
        split
        · exact h
        · rename_i hval
          simp only [not_or] at hval
          exact ⟨h.prompts, ⟨by dsimp only; omega, by dsimp only; omega⟩, h.debug⟩
      · split
        · split
          · exact ⟨h.prompts, h.maxJob, Or.inl rfl⟩
          · split
            · exact ⟨h.prompts, h.maxJob, Or.inr rfl⟩
            · exact h
        · exact h

theorem configParseLine_valid (h : ValidConfig configs) (line : Bytes) :
    ValidConfig (configParseLine line configs).2 := by
  unfold configParseLine
  dsimp only
  split
  · exact h
  · split
    · exact h
    · exact configSet_valid h _ _

theorem configLoadLoop_valid (h : ValidConfig configs) (broken : Bool) (n : ℕ) (rest : Bytes) :
    ValidConfig (configLoadLoop broken n rest configs).2 := by
  induction n generalizing rest configs with
  | zero => exact h
  | succ n ih =>
    unfold configLoadLoop
    split
    · exact h
    · dsimp only
      split
      · exact h
      · split
        · exact configParseLine_valid h _
        · exact ih (configParseLine_valid h _) _

theorem configLoad_valid (h : ValidConfig configs) (file : Option ConfigFile) :
    ValidConfig (configLoad configs file).2 := by
  cases file with
  | none => exact h
  | some file =>
    have hloop := configLoadLoop_valid configInit_valid file.broken (file.content.length + 1) file.content
    -- whichever the result is in the end
    have hresult : ∀ result : Int, ValidConfig (if result = ok then
        (result, (configLoadLoop file.broken (file.content.length + 1) file.content configInit).2)
        else (result, configs)).2 := by
      intro result
      split
      · exact hloop
      · exact h
    exact hresult _

theorem reloadConfig_valid (h : ValidConfig configs) (file : Option ConfigFile) :
    ValidConfig (reloadConfig configs file).2 := by
  unfold reloadConfig
  dsimp only
  split <;> exact configLoad_valid h file

theorem shellContextConfig_valid (path : Option (Option ConfigFile)) : ValidConfig (shellContextConfig path) := by
  cases path with
  | none => exact configInit_valid
  | some file => exact configLoad_valid configInit_valid file

/-- The configuration after the shell has started and has been told to reload these files. -/
def configAfter (path : Option (Option ConfigFile)) (files : List (Option ConfigFile)) : MiniShellConfig :=
  files.foldl (fun configs file => (reloadConfig configs file).2) (shellContextConfig path)

theorem configAfter_valid (path : Option (Option ConfigFile)) (files : List (Option ConfigFile)) :
    ValidConfig (configAfter path files) := by
  induction files using List.reverseRecOn with
  | nil => exact shellContextConfig_valid path
  | append_singleton files file ih =>
    unfold configAfter at *
    rw [List.foldl_append]
    exact reloadConfig_valid ih file

/-- The prompt fits its buffer. -/
theorem ValidConfig.prompt (h : ValidConfig configs) : shellPrompt configs ≠ none := by
  have hlen := h.prompts.2
  unfold shellPrompt
  dsimp only
  rw [if_neg (by simp only [List.length_append, List.length_cons, List.length_nil]; omega)]
  exact Option.some_ne_none _

theorem configLoad_settings {content : Bytes} {settings : List Setting} (h0 : 0 ∉ content)
    (h : FileSays (fileLines content) settings) :
    configLoad configs (some ⟨content, false, true⟩) = (ok, settings.foldl Setting.apply configInit) := by
  have hloop := @configLoadLoop_settings content settings configInit (content.length + 1) (Nat.lt_succ_self _) h0 h
  unfold configLoad
  dsimp only
  rw [hloop]
  rfl

/-- **Loading a configuration is a transaction.**  When every line fits and is accepted, the new configuration is what
the lines make of the defaults, one after the other, so each field is what the last of its settings says, or its
default; otherwise the old configuration stays.  So every configuration the shell can have is valid, and its prompt
fits. -/
theorem configLoad_transaction :
    (∀ content : Bytes, 0 ∉ content → ∀ configs : MiniShellConfig,
      ((∀ line ∈ fileLines content, line.length ≤ 254 ∧ Accepted line) →
        ∃ settings, FileSays (fileLines content) settings ∧
          configLoad configs (some ⟨content, false, true⟩) = (ok,
            (fileLines content).foldl (fun configs line =>
              (configParseLine (line ++ [0]) configs).2) configInit) ∧
          (configLoad configs (some ⟨content, false, true⟩)).2 =
            { prompts := lastOr settings Setting.promptsOf configInit.prompts,
              maxJob := lastOr settings Setting.maxJobOf configInit.maxJob,
              debug := lastOr settings Setting.debugOf configInit.debug }) ∧
      ((¬ ∀ line ∈ fileLines content, line.length ≤ 254 ∧ Accepted line) →
        configLoad configs (some ⟨content, false, true⟩) = (errParse, configs))) ∧
    ∀ path files, ValidConfig (configAfter path files) ∧ shellPrompt (configAfter path files) ≠ none := by
  refine ⟨fun content h0 configs => ⟨fun hgood => ?_, fun hbad => ?_⟩, ?_⟩
  · have hlines := fileLines_ne_zero h0
    obtain ⟨settings, hset⟩ := fileSays_of_accepted hlines hgood
    have hload := @configLoad_settings configs content settings h0 hset
    refine ⟨settings, hset, ?_, ?_⟩
    · rw [hload, hset.foldl_parseLine hlines]
    · rw [hload, foldl_apply]
  · have hloop := @configLoadLoop_refuses content configInit (content.length + 1) (Nat.lt_succ_self _) h0 hbad
    unfold configLoad
    dsimp only
    rw [hloop]
    rfl
  · intro path files
    exact ⟨configAfter_valid path files, (configAfter_valid path files).prompt⟩

/-- A file of one line that sets `debug`, over any configuration. -/
theorem debugFile_loads : configLoad { prompts := [97], maxJob := 3, debug := 0 }
    (some ⟨debugKey ++ [61, 49, 10], false, true⟩) = (ok, { configInit with debug := 1 }) := by
  have hline : Sets (debugKey ++ [61, 49]) (.debug true) :=
    ⟨debugKey, [49], by decide, by decide, by decide, by decide⟩
  have hlines : ∀ line ∈ fileLines (debugKey ++ [61, 49, 10]), line.length ≤ 254 ∧ Accepted line := by
    intro line hl
    obtain rfl : line = debugKey ++ [61, 49] := by
      have heq : fileLines (debugKey ++ [61, 49, 10]) = [debugKey ++ [61, 49]] := by decide
      simpa [heq] using hl
    exact ⟨by decide, (accepted_iff (by decide)).mpr (Or.inr ⟨_, hline⟩)⟩
  obtain ⟨settings, -, hload, -⟩ := (configLoad_transaction.1 (debugKey ++ [61, 49, 10]) (by decide)
    { prompts := [97], maxJob := 3, debug := 0 }).1 hlines
  rw [hload]
  decide +kernel

end

/-! ### Spelling a configuration out -/

/-- The value a setting is written with. -/
def Setting.text : Setting → Bytes
  | prompts text => text
  | maxJob n => decimal n
  | debug on => if on then [49] else [48]

/-- White space that stays on one line. -/
def Blank (gap : Bytes) : Prop := IsSpace gap ∧ 10 ∉ gap

/-- The line spells the setting out, with blanks around the key and the value. -/
def Spells (line : Bytes) (setting : Setting) : Prop :=
  ∃ a b c d, Blank a ∧ Blank b ∧ Blank c ∧ Blank d ∧
    line = a ++ (setting.key ++ (b ++ 61 :: (c ++ setting.text)) ++ d)

/-- A setting that can be written on a line. -/
def Setting.Writable : Setting → Prop
  | prompts text => 1 ≤ text.length ∧ text.length ≤ 63 ∧ Trimmed text ∧ 10 ∉ text ∧ 0 ∉ text
  | maxJob n => 1 ≤ n ∧ n ≤ INT_MAX
  | debug _ => True

/-- The settings of a configuration. -/
def settingsOf (configs : MiniShellConfig) : List Setting :=
  [.prompts configs.prompts, .maxJob configs.maxJob.toNat, .debug (configs.debug = 1)]

section

variable {line gap : Bytes} {lines : List Bytes} {setting : Setting} {settings : List Setting} {n : ℕ}

theorem fileLines_intercalate (h10 : ∀ line ∈ lines, 10 ∉ line) (hne : ∀ line ∈ lines, line ≠ [])
    (h : lines ≠ []) :
    fileLines (List.intercalate [10] lines) = lines ∧
      fileLines (List.intercalate [10] lines ++ [10]) = lines := by
  have hsplit : (List.intercalate [10] lines).splitOn 10 = lines := List.splitOn_intercalate 10 h10 h
  have hsplit' : (List.intercalate [10] lines ++ [10]).splitOn 10 = lines ++ [[]] :=
    (List.splitOnP_append_cons _ [] (by simp)).trans (by rw [← List.splitOn, hsplit]; rfl)
  unfold fileLines
  constructor
  · rw [hsplit]
    exact if_neg fun hlast => hne [] (List.mem_of_getLast? hlast) rfl
  · rw [hsplit']
    dsimp only
    rw [List.getLast?_concat, if_pos rfl, List.dropLast_concat]

theorem decimal_decimal (n : ℕ) : Decimal (decimal n) n := by
  refine ⟨[], decimal n, rfl, Or.inl rfl, ?_, ?_, ?_⟩
  · simp [decimal, Nat.toDigits_ne_nil]
  · exact Strtol.toDigits_isDigit n
  · exact Strtol.digitsValue_toDigits n

theorem isDigit_plain {c : UInt8} (h : Strtol.isDigit c = true) : isspace c = false ∧ c ≠ 0 ∧ c ≠ 10 := by
  simp only [Strtol.isDigit, Bool.and_eq_true, decide_eq_true_eq, UInt8.le_iff_toNat_le] at h
  refine ⟨?_, ?_, ?_⟩
  · by_contra hc
    simp only [isspace, Bool.not_eq_false, Bool.or_eq_true, beq_iff_eq, Bool.and_eq_true, decide_eq_true_eq,
      UInt8.le_iff_toNat_le] at hc
    rcases hc with rfl | hc
    · exact absurd h.1 (by decide)
    · have h13 : (13 : UInt8).toNat = 13 := rfl
      have h48 : (48 : UInt8).toNat = 48 := rfl
      omega
  · rintro rfl
    exact absurd h.1 (by decide)
  · rintro rfl
    exact absurd h.1 (by decide)

/-- What the value of a setting looks like. -/
theorem Setting.Writable.text (h : setting.Writable) :
    setting.text ≠ [] ∧ Trimmed setting.text ∧ 10 ∉ setting.text ∧ 0 ∉ setting.text := by
  cases setting with
  | prompts text =>
    obtain ⟨h1, -, htrim, h10, h0⟩ := h
    exact ⟨List.length_pos_iff.mp h1, htrim, h10, h0⟩
  | maxJob n =>
    have hdigits : ∀ c ∈ decimal n, isspace c = false ∧ c ≠ 0 ∧ c ≠ 10 :=
      fun c hc => isDigit_plain (Strtol.toDigits_isDigit n c hc)
    refine ⟨by simp [Setting.text, decimal, Nat.toDigits_ne_nil], ⟨?_, ?_⟩, ?_, ?_⟩
    · exact fun c hc => (hdigits c (List.mem_of_head? hc)).1
    · exact fun c hc => (hdigits c (List.mem_of_getLast? hc)).1
    · exact fun hc => (hdigits 10 hc).2.2 rfl
    · exact fun hc => (hdigits 0 hc).2.1 rfl
  | debug on =>
    cases on
    · exact ⟨by decide, ⟨by decide +kernel, by decide +kernel⟩, by decide, by decide⟩
    · exact ⟨by decide, ⟨by decide +kernel, by decide +kernel⟩, by decide, by decide⟩

theorem Setting.Writable.assigns (h : setting.Writable) : Assigns setting.key setting.text setting := by
  cases setting with
  | prompts text => exact ⟨rfl, rfl, h.1, h.2.1⟩
  | maxJob n => exact ⟨rfl, decimal_decimal n, h.1, h.2⟩
  | debug on => exact ⟨rfl, rfl⟩

theorem key_plain (setting : Setting) : ∃ c key, setting.key = c :: key ∧ c ≠ 35 ∧
    (∀ c ∈ setting.key, isspace c = false ∧ c ≠ 0 ∧ c ≠ 10 ∧ c ≠ 61) := by
  have hkeys : ∀ key ∈ [promptsKey, maxJobKey, debugKey], ∀ c ∈ key, isspace c = false ∧ c ≠ 0 ∧
      c ≠ 10 ∧ c ≠ 61 := by
    decide +kernel
  cases setting
  · exact ⟨_, _, rfl, by decide, hkeys promptsKey (by decide)⟩
  · exact ⟨_, _, rfl, by decide, hkeys maxJobKey (by decide)⟩
  · exact ⟨_, _, rfl, by decide, hkeys debugKey (by decide)⟩

theorem not_mem_blank (h : Blank gap) : 0 ∉ gap ∧ 10 ∉ gap ∧ 61 ∉ gap := by
  refine ⟨fun hc => isSpace_ne_zero h.1 0 hc rfl, h.2, fun hc => ?_⟩
  have hspace := h.1 61 hc
  cases hspace

/-- **A line that spells a setting out says it.** -/
theorem Spells.sets (h : Spells line setting) (hw : setting.Writable) :
    0 ∉ line ∧ 10 ∉ line ∧ line ≠ [] ∧ ¬ Ignored line ∧ Sets line setting := by
  obtain ⟨a, b, c, d, ha, hb, hc, hd, rfl⟩ := h
  obtain ⟨htne, httrim, ht10, ht0⟩ := hw.text
  obtain ⟨k, key, hkey, hk, hplain⟩ := key_plain setting
  obtain ⟨ha0, ha10, -⟩ := not_mem_blank ha
  obtain ⟨hb0, hb10, hb61⟩ := not_mem_blank hb
  obtain ⟨hc0, hc10, -⟩ := not_mem_blank hc
  obtain ⟨hd0, hd10, -⟩ := not_mem_blank hd
  have hkey61 : 61 ∉ setting.key := fun h => (hplain 61 h).2.2.2 rfl
  have hkeytrim : Trimmed setting.key :=
    ⟨fun c hc => (hplain c (List.mem_of_head? hc)).1, fun c hc => (hplain c (List.mem_of_getLast? hc)).1⟩
  -- what the line is without the white space around it
  have htrim : trim (a ++ (setting.key ++ (b ++ 61 :: (c ++ setting.text)) ++ d)) =
      setting.key ++ b ++ 61 :: (c ++ setting.text) := by
    rw [trim_spaces ha.1 ⟨?_, ?_⟩ hd.1, List.append_assoc]
    · rw [hkey]
      exact fun c hc => hkeytrim.head c (by rw [hkey]; exact hc)
    · rw [List.getLast?_append_of_ne_nil _ (by simp), List.getLast?_append_of_ne_nil _ (by simp)]
      intro c' hc'
      refine httrim.last c' ?_
      rw [← List.cons_append, List.getLast?_append_of_ne_nil _ htne] at hc'
      exact hc'
  refine ⟨?_, ?_, ?_, ?_, ?_⟩
  · have hkey0 : 0 ∉ setting.key := fun h => (hplain 0 h).2.1 rfl
    simp [ha0, hb0, hc0, hd0, hkey0, ht0]
  · have hkey10 : 10 ∉ setting.key := fun h => (hplain 10 h).2.2.1 rfl
    simp [ha10, hb10, hc10, hd10, hkey10, ht10]
  · simp [hkey]
  · unfold Ignored
    rw [htrim, hkey]
    simp [hk]
  · refine ⟨setting.key ++ b, c ++ setting.text, htrim, by simp [hkey61, hb61], ?_⟩
    have h1 := @trim_spaces setting.key [] b (by simp [IsSpace]) hkeytrim hb.1
    have h2 := @trim_spaces setting.text c [] hc.1 httrim (by simp [IsSpace])
    rw [List.nil_append] at h1
    rw [List.append_nil] at h2
    rw [h1, h2]
    exact hw.assigns

theorem spells_fileSays (h : List.Forall₂ Spells lines settings) (hw : ∀ setting ∈ settings, setting.Writable)
    (hlen : ∀ line ∈ lines, line.length ≤ 254) :
    FileSays lines settings ∧ ∀ line ∈ lines, 0 ∉ line ∧ 10 ∉ line ∧ line ≠ [] := by
  induction h with
  | nil => exact ⟨.nil, by simp⟩
  | cons hline hrest ih =>
    obtain ⟨h0, h10, hne, hign, hsets⟩ := hline.sets (hw _ List.mem_cons_self)
    obtain ⟨hset, hlines⟩ := ih (fun s hs => hw s (List.mem_cons_of_mem _ hs))
      fun l hl => hlen l (List.mem_cons_of_mem _ hl)
    exact ⟨.sets (hlen _ List.mem_cons_self) hign hsets hset, List.forall_mem_cons.mpr
      ⟨⟨h0, h10, hne⟩, hlines⟩⟩

theorem intercalate_ne_zero (h : ∀ line ∈ lines, 0 ∉ line) : 0 ∉ List.intercalate [10] lines := by
  induction lines with
  | nil => exact List.not_mem_nil
  | cons line lines ih =>
    obtain ⟨hline, hlines⟩ := List.forall_mem_cons.mp h
    by_cases hnil : lines = []
    · rw [hnil, List.intercalate_singleton]
      exact hline
    · rw [List.intercalate_cons_of_ne_nil hnil]
      simp [hline, ih hlines]

/-- The three settings of a configuration make it out of any other. -/
theorem settingsOf_apply {configs : MiniShellConfig} (h : ValidConfig configs) (before : MiniShellConfig) :
    (settingsOf configs).foldl Setting.apply before = configs := by
  obtain ⟨prompts, maxJob, debug⟩ := configs
  have hmax : (maxJob.toNat : Int) = maxJob :=
    Int.toNat_of_nonneg (by have := h.maxJob.1; dsimp only at this; omega)
  rcases h.debug with hd | hd <;> dsimp only at hd <;> subst hd <;>
    simp [settingsOf, Setting.apply, hmax]

/-- Settings of different fields commute. -/
theorem settingsOf_comm (configs : MiniShellConfig) : ∀ x ∈ settingsOf configs, ∀ y ∈ settingsOf configs,
    ∀ before, Setting.apply (Setting.apply before x) y = Setting.apply (Setting.apply before y) x := by
  intro x hx y hy before
  simp only [settingsOf, List.mem_cons, List.not_mem_nil, or_false] at hx hy
  rcases hx with rfl | rfl | rfl <;> rcases hy with rfl | rfl | rfl <;> rfl

/-- **Loading a file that spells a configuration out gives that configuration.** -/
theorem configLoad_spelled {configs : MiniShellConfig} (h : ValidConfig configs) (htrim : Trimmed configs.prompts)
    (h10 : 10 ∉ configs.prompts) (h0 : 0 ∉ configs.prompts) (hperm : settings.Perm (settingsOf configs))
    (hspells : List.Forall₂ Spells lines settings) (hlen : ∀ line ∈ lines, line.length ≤ 254)
    {content : Bytes} (hcontent : content = List.intercalate [10] lines ∨
      content = List.intercalate [10] lines ++ [10])
    (previous : MiniShellConfig) : configLoad previous (some ⟨content, false, true⟩) = (ok, configs) := by
  have hw : ∀ setting ∈ settings, setting.Writable := by
    intro setting hs
    have hs' := hperm.mem_iff.mp hs
    simp only [settingsOf, List.mem_cons, List.not_mem_nil, or_false] at hs'
    rcases hs' with rfl | rfl | rfl
    · exact ⟨h.prompts.1, h.prompts.2, htrim, h10, h0⟩
    · obtain ⟨h1, hmax⟩ := h.maxJob
      exact ⟨by omega, by omega⟩
    · trivial
  obtain ⟨hset, hlines⟩ := spells_fileSays hspells hw hlen
  have hne : lines ≠ [] := by
    rintro rfl
    cases hspells
    exact absurd hperm.length_eq (by simp [settingsOf])
  obtain ⟨hl, hl'⟩ := fileLines_intercalate (fun l hl => (hlines l hl).2.1) (fun l hl => (hlines l hl).2.2) hne
  have hzero := intercalate_ne_zero fun l hl => (hlines l hl).1
  have hload : configLoad previous (some ⟨content, false, true⟩) =
      (ok, settings.foldl Setting.apply configInit) := by
    rcases hcontent with rfl | rfl
    · exact configLoad_settings hzero (by rw [hl]; exact hset)
    · exact configLoad_settings (by simpa using hzero) (by rw [hl']; exact hset)
  rw [hload, hperm.foldl_eq' fun x hx y hy =>
    settingsOf_comm configs x (hperm.mem_iff.mp hx) y (hperm.mem_iff.mp hy), settingsOf_apply h]

/-- **The grammar of a line, and what it is good for.**  A line that is neither empty nor a comment is accepted exactly
when it sets a field, and it does that and nothing else; a refused line changes nothing.  So a file that spells out a
configuration, with any white space and the lines in any order, gives it back. -/
theorem configLine_grammar :
    (∀ line : Bytes, 0 ∉ line → ∀ configs : MiniShellConfig,
      (Ignored line → configParseLine (line ++ [0]) configs = (ok, configs)) ∧
      (¬ Ignored line →
        ((configParseLine (line ++ [0]) configs).1 = ok ↔ ∃! setting, Sets line setting) ∧
        (∀ setting, Sets line setting → configParseLine (line ++ [0]) configs = (ok, setting.apply configs)) ∧
        ((∀ setting, ¬ Sets line setting) → configParseLine (line ++ [0]) configs = (errParse, configs)))) ∧
    ∀ (configs : MiniShellConfig) (settings : List Setting) (lines : List Bytes) (content : Bytes)
      (previous : MiniShellConfig), ValidConfig configs → Trimmed configs.prompts → 10 ∉ configs.prompts →
      0 ∉ configs.prompts → settings.Perm (settingsOf configs) → List.Forall₂ Spells lines settings →
      (∀ line ∈ lines, line.length ≤ 254) →
      (content = List.intercalate [10] lines ∨ content = List.intercalate [10] lines ++ [10]) →
      configLoad previous (some ⟨content, false, true⟩) = (ok, configs) := by
  refine ⟨fun line h0 configs => ?_, ?_⟩
  · obtain ⟨hign, hsets, hnone⟩ := configParseLine_spec line h0 configs
    refine ⟨hign, fun hline => ⟨⟨fun hok => ?_, fun hsome => ?_⟩, fun setting => hsets setting hline,
      hnone hline⟩⟩
    · by_contra hno
      have hrefused := hnone hline fun setting hs => hno ⟨setting, hs, fun other ho => sets_unique ho hs⟩
      rw [hrefused] at hok
      cases hok
    · obtain ⟨setting, hs, -⟩ := hsome
      rw [hsets setting hline hs]
  · intro configs settings lines content previous h htrim h10 h0 hperm hspells hlen hcontent
    exact configLoad_spelled h htrim h10 h0 hperm hspells hlen hcontent previous

/-- The three lines of a configuration whose prompt has blanks, `'='` and `'#'` in it, the last field first. -/
theorem spelledFile_loads : configLoad configInit
    (some ⟨List.intercalate [10] [debugKey ++ [61, 49], 9 :: maxJobKey ++ [32, 61, 32, 55],
      promptsKey ++ [61, 35, 32, 61]],
      false, true⟩) = (ok, { prompts := [35, 32, 61], maxJob := 7, debug := 1 }) := by
  have hblank : ∀ gap ∈ [[], [9], [32]], Blank gap := by simp [Blank, IsSpace, isspace]
  have hempty := hblank [] (by simp)
  refine configLine_grammar.2 { prompts := [35, 32, 61], maxJob := 7, debug := 1 }
    [.debug true, .maxJob 7, .prompts [35, 32, 61]] _ _ configInit ⟨by decide, by decide, Or.inr rfl⟩
    ⟨by decide +kernel, by decide +kernel⟩ (by decide) (by decide) (by decide) ?_ (by decide) (Or.inl rfl)
  refine .cons ⟨[], [], [], [], hempty, hempty, hempty, hempty, by decide⟩ (.cons ?_ (.cons ?_ .nil))
  · exact ⟨[9], [32], [32], [], hblank _ (by simp), hblank _ (by simp), hblank _ (by simp), hempty, by decide⟩
  · exact ⟨[], [], [], [], hempty, hempty, hempty, hempty, by decide⟩

end

end MiniShell
