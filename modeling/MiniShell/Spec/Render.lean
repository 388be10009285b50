import MiniShell.Spec.Tokens

/-!
# Parsing and rendering

A chain of commands can be written out again as a line: the words of every command followed by its redirections,
`'|'` between the commands and `'&'` at the end when it is meant for the background.  `parseLine_render` says that
`parse_line` reads such a line as the same chain, and `parseLine_renders` that this is so for every chain that
`parse_line` has returned.
-/

namespace MiniShell

/-! ### Chains as lines -/

def Command.inputItems (cmd : Command) : LineStage := cmd.redirect.inputFile.toList.map (.redirect .input)

def Command.outputItems (cmd : Command) : LineStage :=
  cmd.redirect.outputFile.toList.map (.redirect (if cmd.redirect.append then .append else .output))

/-- The stage shows the words of the command, followed by its redirections in either order. -/
def Command.Shows (cmd : Command) (stage : LineStage) : Prop :=
  stage = cmd.argv.map .word ++ (cmd.inputItems ++ cmd.outputItems) ∨
    stage = cmd.argv.map .word ++ (cmd.outputItems ++ cmd.inputItems)

/-- The line shows the chain. -/
structure Depicts (c : Command × List Command) (line : CommandLine) : Prop where
  first : c.1.Shows line.first
  others : List.Forall₂ Command.Shows c.2 line.others
  background : line.background = c.1.background

/-- **A rendering of a chain.** -/
def Renders (c : Command × List Command) (text : Bytes) : Prop :=
  ∃ line : CommandLine, Depicts c line ∧ Rendering line.tokens text

/-- A command that a line can show: words that a line can hold, none of them `"$?"`, within the limits. -/
structure Command.Plain (cmd : Command) : Prop where
  argc : cmd.argc = cmd.argv.length
  word : 1 ≤ cmd.argv.length
  words : cmd.argv.length ≤ 63
  args : ∀ arg ∈ cmd.argv, IsWord arg ∧ arg ≠ statusWord
  input : ∀ file ∈ cmd.redirect.inputFile, IsWord file
  output : ∀ file ∈ cmd.redirect.outputFile, IsWord file
  append : cmd.redirect.append = true → cmd.redirect.outputFile.isSome = true

/-- The number of tokens a command needs. -/
def Command.tokenCount (cmd : Command) : ℕ :=
  cmd.argv.length + 2 * cmd.redirect.inputFile.toList.length + 2 * cmd.redirect.outputFile.toList.length

def chainTokens (c : Command × List Command) : ℕ :=
  c.1.tokenCount + (c.2.map fun cmd => cmd.tokenCount + 1).sum + if c.1.background then 1 else 0

/-- A chain that a line can show. -/
structure Plain (c : Command × List Command) : Prop where
  first : c.1.Plain
  others : ∀ cmd ∈ c.2, cmd.Plain ∧ cmd.background = false
  tokens : chainTokens c ≤ MAX_TOKEN

/-! ### One stage -/

section

variable {cmd : Command} {stage : LineStage}

theorem words_append (s t : LineStage) : LineStage.words (s ++ t) = s.words ++ t.words := List.filterMap_append
theorem inputs_append (s t : LineStage) : LineStage.inputs (s ++ t) = s.inputs ++ t.inputs := List.filterMap_append
theorem outputs_append (s t : LineStage) : LineStage.outputs (s ++ t) = s.outputs ++ t.outputs :=
  List.filterMap_append

theorem words_map_word (l : List Bytes) : LineStage.words (l.map .word) = l ∧
    LineStage.inputs (l.map .word) = [] ∧ LineStage.outputs (l.map .word) = [] := by
  induction l with
  | nil => exact ⟨rfl, rfl, rfl⟩
  | cons w l ih => simp [ih.1, ih.2.1, ih.2.2]

theorem inputItems_parts (cmd : Command) : cmd.inputItems.words = [] ∧
    cmd.inputItems.inputs = cmd.redirect.inputFile.toList ∧ cmd.inputItems.outputs = [] := by
  unfold Command.inputItems
  cases cmd.redirect.inputFile <;> simp

theorem outputItems_parts (cmd : Command) : cmd.outputItems.words = [] ∧ cmd.outputItems.inputs = [] ∧
    cmd.outputItems.outputs = cmd.redirect.outputFile.toList.map (·, cmd.redirect.append) := by
  unfold Command.outputItems
  cases cmd.redirect.outputFile <;> cases cmd.redirect.append <;> simp

/-- The parts of a stage that shows a command. -/
theorem Command.Shows.parts (h : cmd.Shows stage) : stage.words = cmd.argv ∧
    stage.inputs = cmd.redirect.inputFile.toList ∧
    stage.outputs = cmd.redirect.outputFile.toList.map (·, cmd.redirect.append) := by
  obtain ⟨hw1, hw2, hw3⟩ := words_map_word cmd.argv
  obtain ⟨hi1, hi2, hi3⟩ := inputItems_parts cmd
  obtain ⟨ho1, ho2, ho3⟩ := outputItems_parts cmd
  rcases h with rfl | rfl <;>
    simp [words_append, inputs_append, outputs_append, hw1, hw2, hw3, hi1, hi2, hi3, ho1, ho2, ho3]

theorem option_length {α : Type} (o : Option α) : o.toList.length ≤ 1 := by cases o <;> simp

theorem Command.Shows.fits (h : cmd.Shows stage) (hp : cmd.Plain) : stage.Fits := by
  obtain ⟨hw, hi, ho⟩ := h.parts
  exact ⟨hw ▸ hp.word, hw ▸ hp.words, hi ▸ option_length _, by simp [ho]⟩

theorem Command.Shows.beginsWithWord (h : cmd.Shows stage) (hp : cmd.Plain) : stage.BeginsWithWord := by
  obtain ⟨arg, args, hargs⟩ : ∃ arg args, cmd.argv = arg :: args :=
    List.exists_cons_of_ne_nil (List.length_pos_iff.mp hp.word)
  rcases h with rfl | rfl <;> rw [hargs] <;> exact ⟨_, _, rfl⟩

/-- **A stage that shows a command means it.** -/
theorem Command.Shows.command (h : cmd.Shows stage) (hp : cmd.Plain) (ctx : Option ShellContext) :
    stage.command ctx = { cmd with background := false } := by
  obtain ⟨hw, hi, ho⟩ := h.parts
  have hargs : cmd.argv.map (wordMeaning ctx) = cmd.argv := by
    rw [← expandWord_eq]
    conv_rhs => rw [← List.map_id cmd.argv]
    apply List.map_congr_left
    intro arg harg
    rw [expandWord, if_neg (hp.args arg harg).2]
    rfl
  have hredirect : (stage.command ctx).redirect = cmd.redirect := by
    have happend := hp.append
    rcases hr : cmd.redirect with ⟨_ | file, _ | out, append⟩ <;> rw [hr] at hi ho happend <;>
      simp_all [LineStage.command]
  have hargc : (stage.command ctx).argc = cmd.argc := by rw [hp.argc, LineStage.command, hw]
  have hargv : (stage.command ctx).argv = cmd.argv := by rw [LineStage.command, hw, hargs]
  calc stage.command ctx
      = { argc := (stage.command ctx).argc, argv := (stage.command ctx).argv, background := false
          redirect := (stage.command ctx).redirect } := rfl
    _ = { cmd with background := false } := by rw [hargc, hargv, hredirect]

/-- The tokens of a stage, counted by its parts. -/
theorem tokens_length (stage : LineStage) :
    stage.tokens.length = stage.words.length + 2 * stage.inputs.length + 2 * stage.outputs.length := by
  induction stage with
  | nil => rfl
  | cons item stage ih =>
    have hcons : LineStage.tokens (item :: stage) = item.tokens ++ LineStage.tokens stage := rfl
    rcases item with text | ⟨_ | _ | _, file⟩ <;>
      simp only [hcons, List.length_append, ih, words_cons, inputs_cons, outputs_cons, List.length_cons,
        StageItem.tokens, List.length_nil] <;> omega

/-- The word of an item. -/
def StageItem.text : StageItem → Bytes
  | word text => text
  | redirect _ file => file

theorem item_tokens_wellFormed {item : StageItem} (h : IsWord item.text) :
    ∀ token ∈ item.tokens, token.WellFormed := by
  cases item with
  | word text =>
    intro token ht
    rw [List.mem_singleton.mp ht]
    exact h
  | redirect op file =>
    intro token ht
    simp only [StageItem.tokens, List.mem_cons, List.not_mem_nil, or_false] at ht
    rcases ht with rfl | rfl
    · rfl
    · exact h

/-- A command that a line can show has a stage of well-formed tokens. -/
theorem Command.Shows.wellFormed (h : cmd.Shows stage) (hp : cmd.Plain) :
    ∀ token ∈ stage.tokens, token.WellFormed := by
  have hitems : ∀ item ∈ stage, IsWord item.text := by
    have hargs : ∀ item ∈ cmd.argv.map StageItem.word, IsWord item.text := by
      intro item hm
      obtain ⟨arg, harg, rfl⟩ := List.mem_map.mp hm
      exact (hp.args arg harg).1
    have hin : ∀ item ∈ cmd.inputItems, IsWord item.text := by
      intro item hm
      obtain ⟨file, hfile, rfl⟩ := List.mem_map.mp hm
      exact hp.input file (by simpa using hfile)
    have hout : ∀ item ∈ cmd.outputItems, IsWord item.text := by
      intro item hm
      obtain ⟨file, hfile, rfl⟩ := List.mem_map.mp hm
      exact hp.output file (by simpa using hfile)
    intro item hm
    rcases h with rfl | rfl <;> simp only [List.mem_append] at hm
    · rcases hm with hm | hm | hm
      · exact hargs item hm
      · exact hin item hm
      · exact hout item hm
    · rcases hm with hm | hm | hm
      · exact hargs item hm
      · exact hout item hm
      · exact hin item hm
  intro token ht
  obtain ⟨item, hitem, ht⟩ := List.mem_flatMap.mp ht
  exact item_tokens_wellFormed (hitems item hitem) token ht

theorem Command.Shows.tokens_length (h : cmd.Shows stage) : stage.tokens.length = cmd.tokenCount := by
  obtain ⟨hw, hi, ho⟩ := h.parts
  rw [MiniShell.tokens_length, hw, hi, ho, List.length_map]
  rfl

end

/-! ### Rendered chains are read back -/

section

variable {c : Command × List Command} {line : CommandLine}

theorem showing_mem {cmds : List Command} {stages : List LineStage} (h : List.Forall₂ Command.Shows cmds stages)
    {stage : LineStage} (hm : stage ∈ stages) : ∃ cmd ∈ cmds, cmd.Shows stage := by
  induction h with
  | nil => simp at hm
  | @cons cmd _ cmds _ hshows _ ih =>
    rcases List.mem_cons.mp hm with rfl | hm
    · exact ⟨cmd, List.mem_cons_self, hshows⟩
    · obtain ⟨cmd', hm', hs⟩ := ih hm
      exact ⟨cmd', List.mem_cons_of_mem _ hm', hs⟩

theorem Depicts.wellFormed (h : Depicts c line) (hp : Plain c) : line.WellFormed where
  first := h.first.fits hp.first
  others stage hm := by
    obtain ⟨cmd, hcmd, hshows⟩ := showing_mem h.others hm
    exact ⟨hshows.fits (hp.others cmd hcmd).1, hshows.beginsWithWord (hp.others cmd hcmd).1⟩

theorem Depicts.tokens_wellFormed (h : Depicts c line) (hp : Plain c) :
    ∀ token ∈ line.tokens, token.WellFormed := by
  intro token ht
  simp only [CommandLine.tokens, List.mem_append, List.mem_flatMap, List.mem_cons] at ht
  rcases ht with (ht | ⟨stage, hm, rfl | ht⟩) | ht
  · exact h.first.wellFormed hp.first token ht
  · rfl
  · obtain ⟨cmd, hcmd, hshows⟩ := showing_mem h.others hm
    exact hshows.wellFormed (hp.others cmd hcmd).1 token ht
  · split at ht
    · obtain rfl : token = backgroundToken := by simpa using ht
      rfl
    · simp at ht

/-- The number of tokens of a line, counted by commands. -/
theorem line_tokens_length (hfirst : line.first.tokens.length = c.1.tokenCount)
    (hothers : List.Forall₂ (fun cmd stage => stage.tokens.length = cmd.tokenCount) c.2 line.others)
    (hbg : line.background = c.1.background) : line.tokens.length = chainTokens c := by
  have key : ∀ {cmds : List Command} {stages : List LineStage},
      List.Forall₂ (fun cmd stage => stage.tokens.length = cmd.tokenCount) cmds stages →
      (stages.flatMap fun stage => pipeToken :: stage.tokens).length =
        (cmds.map fun cmd => cmd.tokenCount + 1).sum := by
    intro cmds stages h
    induction h with
    | nil => rfl
    | cons hlen _ ih =>
      rw [List.flatMap_cons, List.length_append, List.length_cons, hlen, ih, List.map_cons, List.sum_cons]
  rw [CommandLine.tokens, List.length_append, List.length_append, hfirst, key hothers, hbg, chainTokens]
  cases c.1.background <;> rfl

theorem Depicts.tokens_length (h : Depicts c line) : line.tokens.length = chainTokens c :=
  line_tokens_length h.first.tokens_length (h.others.imp fun _ _ hs => hs.tokens_length) h.background

theorem others_command {cmds : List Command} {stages : List LineStage}
    (h : List.Forall₂ Command.Shows cmds stages)
    (hp : ∀ cmd ∈ cmds, cmd.Plain ∧ cmd.background = false) (ctx : Option ShellContext) :
    stages.map (LineStage.command ctx) = cmds := by
  induction h with
  | nil => rfl
  | @cons cmd stage cmds stages hshows _ ih =>
    obtain ⟨hplain, hbg⟩ := hp cmd List.mem_cons_self
    rw [List.map_cons, hshows.command hplain, ih fun cmd hm => hp cmd (List.mem_cons_of_mem _ hm), ← hbg]

theorem Depicts.chain (h : Depicts c line) (hp : Plain c) (ctx : Option ShellContext) : line.chain ctx = c := by
  unfold CommandLine.chain
  rw [h.first.command hp.first, others_command h.others hp.others, h.background]

theorem tokens_ne_nil (h : line.WellFormed) : line.tokens ≠ [] := by
  intro hnil
  have hlen := congrArg List.length hnil
  rw [CommandLine.tokens, List.length_append, List.length_append, MiniShell.tokens_length, List.length_nil] at hlen
  have := h.first.word
  omega

/-- `parse_line` on a text whose tokens are known. -/
theorem parseLine_tokens {alloc : ℕ → Bool} {text : Bytes} {list : TokenList}
    (h : tokenize (some text) = .ok list) (hne : list ≠ []) (ctx : Option ShellContext) :
    parseLine alloc (some text) ctx = buildCommand alloc (some list) ctx := by
  simp only [parseLine, h]

/-- **Parsing a rendering of a chain gives the chain**, whatever the white space and the exit status are. -/
theorem parseLine_render (hp : Plain c) {text : Bytes} (h : Renders c text) (ctx : Option ShellContext) :
    (parseLine allocated (some text) ctx).chain = some c ∧ (parseLine allocated (some text) ctx).ctx = ctx := by
  obtain ⟨line, hd, hr⟩ := h
  have hwf := hd.wellFormed hp
  have htok := tokenize_rendering hr (hd.tokens_wellFormed hp) (hd.tokens_length ▸ hp.tokens)
  rw [parseLine_tokens htok (tokens_ne_nil hwf)]
  obtain ⟨haccepts, hctx⟩ := buildCommand_accepts line.tokens ctx
  have hchain : (buildCommand allocated (some line.tokens) ctx).chain = some c :=
    (haccepts c).mpr ⟨line, hwf, rfl, (hd.chain hp ctx).symm⟩
  exact ⟨hchain, by rw [hctx, hchain]; rfl⟩

/-! ### What `parse_line` returns can be rendered -/

/-- The bytes of a decimal representation. -/
theorem digit_byte {d : Char} (h : d.isDigit = true) :
    UInt8.ofNat d.toNat ≠ 0 ∧ isWordByte (UInt8.ofNat d.toNat) = true ∧ UInt8.ofNat d.toNat ≠ 36 := by
  have hd : 48 ≤ d.toNat ∧ d.toNat ≤ 57 := by
    simp only [Char.isDigit, Bool.and_eq_true, decide_eq_true_eq] at h
    exact h
  obtain ⟨h1, h2⟩ := hd
  generalize d.toNat = n at h1 h2 ⊢
  interval_cases n <;> decide

theorem decimal_bytes (n : Int) : ∀ c ∈ decimal n, c ≠ 0 ∧ isWordByte c = true ∧ c ≠ 36 := by
  intro c hc
  unfold decimal at hc
  rcases List.mem_append.mp hc with hc | hc
  · split at hc
    · rw [List.mem_singleton.mp hc]
      decide
    · simp at hc
  · obtain ⟨d, hd, rfl⟩ := List.mem_map.mp hc
    exact digit_byte (Nat.isDigit_of_mem_toDigits (by decide) (by decide) hd)

/-- The decimal representation of an `int` is a word, and it is not `"$?"`. -/
theorem decimal_isWord {n : Int} (h : -2 ^ 31 ≤ n ∧ n < 2 ^ 31) :
    IsWord (decimal n) ∧ decimal n ≠ statusWord := by
  refine ⟨⟨?_, ?_, fun c hc => ⟨(decimal_bytes n c hc).1, (decimal_bytes n c hc).2.1⟩⟩, fun heq => ?_⟩
  · simp [decimal, Nat.toDigits_ne_nil]
  · have hdigits : (Nat.toDigits 10 n.natAbs).length ≤ 10 :=
      (Nat.length_toDigits_le_iff (by decide) (by decide)).mpr (by omega)
    unfold decimal
    split <;> simp <;> omega
  · have := decimal_bytes n 36 (by rw [heq]; decide)
    exact this.2.2 rfl

/-- A chain that is returned is returned when all allocations succeed. -/
theorem buildLoop_allocated {alloc : ℕ → Bool} {ctx : Option ShellContext} (n : ℕ) (b : Building)
    (list : TokenList) :
    (buildLoop alloc ctx n b list).chain = some c → ∀ m, (buildLoop allocated ctx m b list).chain = some c := by
  fun_induction buildLoop alloc ctx n b list with
  | case2 n b hne =>
    intro h m
    rwa [buildLoop, if_neg hne]
  | case5 n b token rest htype hroom _ ih =>
    intro h m
    rw [buildLoop, htype]
    simp only [hroom, if_false]
    exact ih h (m + 1)
  | _ =>
    intro h m
    rw [buildLoop]
    simp_all [syntaxFail, memoryFail, allocated]

/-- What `parse_line` has read when it returns a chain. -/
theorem parseLine_chain {alloc : ℕ → Bool} {text : Bytes} {ctx : Option ShellContext}
    (h : (parseLine alloc (some text) ctx).chain = some c) :
    ∃ (list : TokenList) (line : CommandLine), tokenize (some text) = .ok list ∧
      line.WellFormed ∧ list.map Token.symbol = line.tokens.map Token.symbol ∧ c = line.chain ctx := by
  unfold parseLine at h
  dsimp only at h
  split at h
  · simp [tokenizeFail] at h
  · simp at h
  · rename_i list _ htok
    have hbuild : (buildCommand allocated (some list) ctx).chain = some c := by
      unfold buildCommand at h
      dsimp only at h
      split at h
      · simp [memoryFail] at h
      · exact buildLoop_allocated _ _ _ h 1
    obtain ⟨line, hline⟩ := ((buildCommand_accepts list ctx).1 c).mp hbuild
    exact ⟨list, line, htok, hline⟩

/-- The words of the line are words. -/
theorem wellFormed_texts {list : TokenList} {stage : LineStage} (hwf : ∀ token ∈ list, token.WellFormed)
    (hsub : ∀ sym ∈ stage.tokens.map Token.symbol, sym ∈ list.map Token.symbol) :
    ∀ item ∈ stage, IsWord item.text := by
  intro item hitem
  have hsym : Symbol.word item.text ∈ stage.tokens.map Token.symbol := by
    refine List.mem_map.mpr ⟨wordToken item.text, List.mem_flatMap.mpr ⟨item, hitem, ?_⟩, rfl⟩
    cases item <;> simp [StageItem.tokens, StageItem.text]
  obtain ⟨token, htoken, hs⟩ := List.mem_map.mp (hsub _ hsym)
  obtain ⟨htype, htext⟩ := symbol_eq_word.mp hs
  have := hwf token htoken
  unfold Token.WellFormed at this
  rw [htype, htext] at this
  exact this

theorem expandWord_isWord {ctx : Option ShellContext}
    (hint : ∀ x ∈ ctx, -2 ^ 31 ≤ x.lastExitStatus ∧ x.lastExitStatus < 2 ^ 31) {text : Bytes}
    (h : IsWord text) :
    IsWord (expandWord ctx text) ∧ expandWord ctx text ≠ statusWord := by
  unfold expandWord
  split
  · cases ctx with
    | none => exact decimal_isWord (by decide)
    | some x => exact decimal_isWord (hint x rfl)
  · rename_i hne
    exact ⟨h, hne⟩

/-- The command of a stage can be shown by a line, and needs as many tokens as the stage. -/
theorem command_plain {ctx : Option ShellContext}
    (hint : ∀ x ∈ ctx, -2 ^ 31 ≤ x.lastExitStatus ∧ x.lastExitStatus < 2 ^ 31) {stage : LineStage}
    (h : stage.Fits) (hwords : ∀ item ∈ stage, IsWord item.text) :
    (stage.command ctx).Plain ∧ (stage.command ctx).tokenCount = stage.tokens.length := by
  have hlen : ∀ {α : Type} (l : List α), l.length ≤ 1 → l.head?.toList.length = l.length := by
    intro α l hl
    rcases l with _ | ⟨x, _ | _⟩ <;> simp_all
  have hword : ∀ w ∈ stage.words, IsWord w := by
    intro w hw
    obtain ⟨item, hitem, hi⟩ := List.mem_filterMap.mp hw
    cases item with
    | word text =>
      cases hi
      exact hwords _ hitem
    | redirect op file => cases hi
  have hin : ∀ file ∈ stage.inputs, IsWord file := by
    intro file hf
    obtain ⟨item, hitem, hi⟩ := List.mem_filterMap.mp hf
    rcases item with text | ⟨_ | _ | _, file'⟩ <;> cases hi
    exact hwords _ hitem
  have hout : ∀ x ∈ stage.outputs, IsWord x.1 := by
    intro x hx
    obtain ⟨item, hitem, hi⟩ := List.mem_filterMap.mp hx
    rcases item with text | ⟨_ | _ | _, file'⟩ <;> cases hi <;> exact hwords _ hitem
  refine ⟨⟨by simp [LineStage.command], by simpa [LineStage.command] using h.word,
    by simpa [LineStage.command] using h.words, ?_, ?_, ?_, ?_⟩, ?_⟩
  · intro arg harg
    obtain ⟨w, hw, rfl⟩ := List.mem_map.mp harg
    rw [← expandWord_eq]
    exact expandWord_isWord hint (hword w hw)
  · exact fun file hf => hin file (List.mem_of_head? hf)
  · intro file hf
    obtain ⟨x, hx, rfl⟩ := Option.map_eq_some_iff.mp hf
    exact hout x (List.mem_of_head? hx)
  · cases ho : stage.outputs.head? <;> simp [LineStage.command, ho]
  · rw [tokens_length, Command.tokenCount]
    have h1 := hlen _ h.inputs
    have h2 := hlen _ h.outputs
    have h3 : (stage.outputs.head?.map Prod.fst).toList.length = stage.outputs.head?.toList.length := by
      cases stage.outputs.head? <;> rfl
    simp only [LineStage.command, List.length_map, h1, h2, h3]

/-- **Every chain that `parse_line` returns can be shown by a line.** -/
theorem parseLine_plain {alloc : ℕ → Bool} {text : Bytes} {ctx : Option ShellContext}
    (hint : ∀ x ∈ ctx, -2 ^ 31 ≤ x.lastExitStatus ∧ x.lastExitStatus < 2 ^ 31)
    (h : (parseLine alloc (some text) ctx).chain = some c) : Plain c := by
  obtain ⟨list, line, htok, hline, hsym, rfl⟩ := parseLine_chain h
  obtain ⟨hwf, hmax⟩ := tokenize_sound htok
  have hfirst := command_plain hint hline.first (wellFormed_texts hwf fun sym hs => by
    rw [hsym, CommandLine.tokens]
    simp only [List.map_append, List.mem_append]
    exact Or.inl (Or.inl hs))
  have hothers : ∀ stage ∈ line.others, (stage.command ctx).Plain ∧
      (stage.command ctx).tokenCount = stage.tokens.length := fun stage hm =>
    command_plain hint (hline.others stage hm).1 (wellFormed_texts hwf fun sym hs => by
      rw [hsym, CommandLine.tokens]
      simp only [List.map_append, List.mem_append, List.map_flatMap, List.mem_flatMap]
      exact Or.inl (Or.inr ⟨stage, hm, List.mem_cons_of_mem _ hs⟩))
  refine ⟨⟨hfirst.1.argc, hfirst.1.word, hfirst.1.words, hfirst.1.args, hfirst.1.input, hfirst.1.output,
    hfirst.1.append⟩, fun cmd hm => ?_, ?_⟩
  · obtain ⟨stage, hstage, rfl⟩ := List.mem_map.mp hm
    exact ⟨(hothers stage hstage).1, rfl⟩
  · have hlen : line.tokens.length ≤ MAX_TOKEN := by
      rw [← List.length_map Token.symbol, ← hsym, List.length_map]
      exact hmax
    rwa [← line_tokens_length (c := line.chain ctx) hfirst.2.symm ?_ rfl]
    rw [CommandLine.chain, List.forall₂_map_left_iff, List.forall₂_same]
    exact fun stage hm => (hothers stage hm).2.symm

/-- **Parsing and rendering are inverse.**  A rendering of a chain that a line can show is read back as that chain,
for every choice of the white space and every exit status; and what `parse_line` has made of some line is read back
from each of its renderings.  The exit status at that line is an `int`. -/
theorem parseLine_renders :
    (∀ c text ctx, Plain c → Renders c text → (parseLine allocated (some text) ctx).chain = some c) ∧
    (∀ alloc line ctx c text ctx', (∀ x ∈ ctx, -2 ^ 31 ≤ x.lastExitStatus ∧ x.lastExitStatus < 2 ^ 31) →
      (parseLine alloc (some line) ctx).chain = some c → Renders c text →
      (parseLine allocated (some text) ctx').chain = some c) :=
  ⟨fun _ _ ctx hp hr => (parseLine_render hp hr ctx).1,
    fun _ _ _ _ _ ctx' hint h hr => (parseLine_render (parseLine_plain hint h) hr ctx').1⟩

end

/-- `a > b | c &`. -/
def shownChain : Command × List Command :=
  ({ argc := 1, argv := [[97]], background := true, redirect := ⟨none, some [98], false⟩ },
    [{ argc := 1, argv := [[99]], background := false, redirect := ⟨none, none, false⟩ }])

/-- The line `"a >b|c&"`. -/
def shownLine : Bytes := [97, 32, 62, 98, 124, 99, 38]

theorem shownLine_renders : Renders shownChain shownLine := by
  have space : IsSpace [32] := by
    intro c hc
    rw [List.mem_singleton.mp hc]
    decide
  have none : IsSpace [] := by simp [IsSpace]
  refine ⟨⟨[.word [97], .redirect .output [98]], [[.word [99]]], true⟩,
    ⟨Or.inl rfl, .cons (Or.inl rfl) .nil, rfl⟩, [], shownLine, none, ?_, rfl⟩
  refine @Spaced.cons _ [32] _ _ space (fun _ _ _ => by simp_all) ?_
  refine @Spaced.cons _ [] _ _ none ?_ (@Spaced.cons _ [] _ _ none ?_ (@Spaced.cons _ [] _ _ none ?_
    (@Spaced.cons _ [] _ _ none ?_ (@Spaced.cons _ [] _ _ none ?_ .nil))))
  all_goals simp [NeedsGap, wordToken, pipeToken, backgroundToken]

theorem shownChain_plain : Plain shownChain := by
  have word : ∀ b ∈ [(97 : UInt8), 98, 99], IsWord [b] := by
    intro b hb
    refine ⟨by simp, by simp, fun c hc => ?_⟩
    rw [List.mem_singleton.mp hc]
    simp only [List.mem_cons, List.not_mem_nil, or_false] at hb
    rcases hb with rfl | rfl | rfl <;> decide
  refine ⟨⟨rfl, by decide, by decide, ?_, ?_, ?_, ?_⟩, ?_, by decide⟩
  · intro arg harg
    rw [List.mem_singleton.mp harg]
    exact ⟨word 97 (by simp), by decide⟩
  · simp [shownChain]
  · rintro file ⟨⟩
    exact word 98 (by simp)
  · simp [shownChain]
  · intro cmd hm
    rw [List.mem_singleton.mp hm]
    refine ⟨⟨rfl, by decide, by decide, ?_, by simp, by simp, by simp⟩, rfl⟩
    intro arg harg
    rw [List.mem_singleton.mp harg]
    exact ⟨word 99 (by simp), by decide⟩

/-- The line is read as the chain, and again when the chain is written out. -/
theorem shownLine_read : (parseLine allocated (some shownLine) none).chain = some shownChain ∧
    ∀ text ctx, Renders shownChain text → (parseLine allocated (some text) ctx).chain = some shownChain :=
  ⟨parseLine_renders.1 _ _ _ shownChain_plain shownLine_renders,
    fun text ctx hr => parseLine_renders.2 allocated shownLine none _ text ctx (by simp) (by decide) hr⟩

end MiniShell
