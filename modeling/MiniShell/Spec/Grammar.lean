import MiniShell.Model.Parser

/-!
# The command language

The language `build_command` accepts, as a grammar, and what a line of it means.  A stage is a list of plain words
and redirections, a line is a first stage, further stages behind `'|'`, and possibly `'&'` at its end.
`buildCommand_accepts` says that the loop of `build_command` accepts this language and builds this meaning.
-/

namespace MiniShell

/-! ### Lines -/

/-- What `build_command` looks at in a token; the text of an operator does not matter. -/
inductive Symbol where
  | word (text : Bytes)
  | redirect (op : RedirectOp)
  | pipe
  | background
  deriving DecidableEq

def Token.symbol (token : Token) : Symbol :=
  match token.type with
  | .word => .word token.text
  | .redirect op => .redirect op
  | .pipe => .pipe
  | .background => .background

/-- A plain word, or a redirection with its word. -/
inductive StageItem where
  | word (text : Bytes)
  | redirect (op : RedirectOp) (file : Bytes)
  deriving DecidableEq

def RedirectOp.text : RedirectOp → Bytes
  | input => [lessThan]
  | output => [greaterThan]
  | append => [greaterThan, greaterThan]

def wordToken (text : Bytes) : Token := ⟨text, .word⟩
def pipeToken : Token := ⟨[verticalBar], .pipe⟩
def backgroundToken : Token := ⟨[ampersand], .background⟩

def StageItem.tokens : StageItem → TokenList
  | word text => [wordToken text]
  | redirect op file => [⟨op.text, .redirect op⟩, wordToken file]

@[simp] theorem word_symbols (text : Bytes) : (StageItem.word text).tokens.map Token.symbol = [.word text] := rfl
@[simp] theorem redirect_symbols (op : RedirectOp) (file : Bytes) :
    (StageItem.redirect op file).tokens.map Token.symbol = [.redirect op, .word file] := rfl

abbrev LineStage : Type := List StageItem

structure CommandLine where
  first : LineStage
  others : List LineStage
  background : Bool
  deriving DecidableEq

def LineStage.tokens (stage : LineStage) : TokenList := stage.flatMap StageItem.tokens

def CommandLine.tokens (line : CommandLine) : TokenList :=
  line.first.tokens ++ line.others.flatMap (fun stage => pipeToken :: stage.tokens) ++
    if line.background then [backgroundToken] else []

/-- The plain words of a stage. -/
def LineStage.words (stage : LineStage) : List Bytes :=
  stage.filterMap fun item => match item with
    | .word text => some text
    | .redirect _ _ => none

/-- The words behind the `'<'` of a stage. -/
def LineStage.inputs (stage : LineStage) : List Bytes :=
  stage.filterMap fun item => match item with
    | .redirect .input file => some file
    | _ => none

/-- The words behind the `'>'` and `'>>'` of a stage, with `true` for `'>>'`. -/
def LineStage.outputs (stage : LineStage) : List (Bytes × Bool) :=
  stage.filterMap fun item => match item with
    | .redirect .output file => some (file, false)
    | .redirect .append file => some (file, true)
    | _ => none

/-- The limits of a stage. -/
structure LineStage.Fits (stage : LineStage) : Prop where
  word : 1 ≤ stage.words.length
  words : stage.words.length ≤ 63
  inputs : stage.inputs.length ≤ 1
  outputs : stage.outputs.length ≤ 1

def LineStage.BeginsWithWord (stage : LineStage) : Prop := ∃ text rest, stage = .word text :: rest

/-- **The language**: every stage is within its limits, and every stage after the first begins with a word. -/
structure CommandLine.WellFormed (line : CommandLine) : Prop where
  first : line.first.Fits
  others : ∀ stage ∈ line.others, stage.Fits ∧ stage.BeginsWithWord

/-- The argument a plain word stands for: the last exit status in decimal for `$?`, and the word itself for every
other.  Without a context the status is 0. -/
def wordMeaning (ctx : Option ShellContext) (text : Bytes) : Bytes :=
  match ctx with
  | some x => if text = [36, 63] then decimal x.lastExitStatus else text
  | none => if text = [36, 63] then decimal 0 else text

/-- The command a stage stands for. -/
def LineStage.command (ctx : Option ShellContext) (stage : LineStage) : Command where
  argc := stage.words.length
  argv := stage.words.map (wordMeaning ctx)
  background := false
  redirect :=
    { inputFile := stage.inputs.head?
      outputFile := stage.outputs.head?.map Prod.fst
      append := stage.outputs.head?.elim false Prod.snd }

/-- **The meaning of a line**: one command for every stage, and the mark for the background on the first. -/
def CommandLine.chain (ctx : Option ShellContext) (line : CommandLine) : Command × List Command :=
  ({ line.first.command ctx with background := line.background }, line.others.map (LineStage.command ctx))

/-! ### One stage -/

section LineStage

variable (ctx : Option ShellContext)

theorem expandWord_eq : expandWord ctx = wordMeaning ctx := by
  cases ctx <;> rfl

/-- What one item does to the command that is built. -/
def Command.addItem (cmd : Command) : StageItem → Command
  | .word text => cmd.pushArg (expandWord ctx text)
  | .redirect op file => { cmd with redirect := op.store file cmd.redirect }

/-- The command has room for the item. -/
def Command.Takes (cmd : Command) : StageItem → Prop
  | .word _ => cmd.argc < 63
  | .redirect op _ => op.taken cmd.redirect = false

/-- The command has room for every item of a stage, one after the other. -/
def Command.TakesAll (cmd : Command) : LineStage → Prop
  | [] => True
  | item :: stage => cmd.Takes item ∧ (cmd.addItem ctx item).TakesAll stage

/-- The command with a whole stage added to it. -/
def Command.addStage (cmd : Command) (stage : LineStage) : Command where
  argc := cmd.argc + stage.words.length
  argv := cmd.argv ++ stage.words.map (expandWord ctx)
  background := cmd.background
  redirect :=
    { inputFile := cmd.redirect.inputFile.or stage.inputs.head?
      outputFile := cmd.redirect.outputFile.or (stage.outputs.head?.map Prod.fst)
      append := stage.outputs.head?.elim cmd.redirect.append Prod.snd }

variable {ctx} {cmd : Command}

@[simp] theorem words_nil : LineStage.words [] = [] := rfl
@[simp] theorem inputs_nil : LineStage.inputs [] = [] := rfl
@[simp] theorem outputs_nil : LineStage.outputs [] = [] := rfl

@[simp] theorem words_cons (item : StageItem) (stage : LineStage) :
    LineStage.words (item :: stage) = match item with
    | .word text => text :: stage.words
    | .redirect _ _ => stage.words := by
  cases item <;> rfl

@[simp] theorem inputs_cons (item : StageItem) (stage : LineStage) :
    LineStage.inputs (item :: stage) = match item with
    | .redirect .input file => file :: stage.inputs
    | _ => stage.inputs := by
  rcases item with _ | ⟨_ | _ | _, _⟩ <;> rfl

@[simp] theorem outputs_cons (item : StageItem) (stage : LineStage) :
    LineStage.outputs (item :: stage) = match item with
    | .redirect .output file => (file, false) :: stage.outputs
    | .redirect .append file => (file, true) :: stage.outputs
    | _ => stage.outputs := by
  rcases item with _ | ⟨_ | _ | _, _⟩ <;> rfl

/-- The limits of a stage are what its items meet one after the other. -/
theorem takesAll_iff {stage : LineStage} (h : cmd.argc ≤ 63) : cmd.TakesAll ctx stage ↔
    cmd.argc + stage.words.length ≤ 63 ∧ cmd.redirect.inputFile.toList.length + stage.inputs.length ≤ 1 ∧
      cmd.redirect.outputFile.toList.length + stage.outputs.length ≤ 1 := by
  induction stage generalizing cmd with
  | nil =>
    have option_length : ∀ o : Option Bytes, o.toList.length ≤ 1 := fun o => by cases o <;> simp
    simp [Command.TakesAll, h, option_length]
  | cons item stage ih =>
    rw [Command.TakesAll]
    cases item with
    | word text =>
      by_cases hlt : cmd.argc < 63
      · rw [ih (by simpa [Command.addItem, Command.pushArg] using hlt)]
        simp only [Command.Takes, Command.addItem, Command.pushArg, words_cons, inputs_cons, outputs_cons,
          List.length_cons]
        omega
      · simp only [Command.Takes, words_cons, List.length_cons]
        omega
    | redirect op file =>
      rw [ih (by simpa [Command.addItem] using h)]
      cases op with
      | input =>
        cases hi : cmd.redirect.inputFile <;>
          simp [Command.Takes, Command.addItem, RedirectOp.taken, RedirectOp.store, hi]
      | output =>
        cases ho : cmd.redirect.outputFile <;>
          simp [Command.Takes, Command.addItem, RedirectOp.taken, RedirectOp.store, ho]
      | append =>
        cases ho : cmd.redirect.outputFile <;>
          simp [Command.Takes, Command.addItem, RedirectOp.taken, RedirectOp.store, ho]

theorem outputs_eq_nil {stage : LineStage} (h : cmd.TakesAll ctx stage)
    (ho : cmd.redirect.outputFile.isSome = true) :
    stage.outputs = [] := by
  induction stage generalizing cmd with
  | nil => rfl
  | cons item stage ih =>
    obtain ⟨ht, h⟩ := h
    rcases item with text | ⟨_ | _ | _, file⟩
    · simpa using ih h ho
    · simpa using ih h ho
    · simp [Command.Takes, RedirectOp.taken, ho] at ht
    · simp [Command.Takes, RedirectOp.taken, ho] at ht

/-- The items of a stage, added one after the other. -/
theorem addItem_foldl {stage : LineStage} (h : cmd.TakesAll ctx stage) :
    stage.foldl (Command.addItem ctx) cmd = cmd.addStage ctx stage := by
  induction stage generalizing cmd with
  | nil => simp [Command.addStage]
  | cons item stage ih =>
    obtain ⟨ht, h⟩ := h
    rw [List.foldl_cons, ih h]
    rcases item with text | ⟨_ | _ | _, file⟩
    · simp [Command.addStage, Command.addItem, Command.pushArg, Nat.add_assoc, Nat.add_comm]
    · have hi : cmd.redirect.inputFile = none := by simpa [Command.Takes, RedirectOp.taken] using ht
      simp [Command.addStage, Command.addItem, RedirectOp.store, hi]
    · have ho : cmd.redirect.outputFile = none := by simpa [Command.Takes, RedirectOp.taken] using ht
      have hnil := outputs_eq_nil h rfl
      simp [Command.addStage, Command.addItem, RedirectOp.store, ho, hnil]
    · have ho : cmd.redirect.outputFile = none := by simpa [Command.Takes, RedirectOp.taken] using ht
      have hnil := outputs_eq_nil h rfl
      simp [Command.addStage, Command.addItem, RedirectOp.store, ho, hnil]

theorem commandInit_addStage (stage : LineStage) : commandInit.addStage ctx stage = stage.command ctx := by
  simp [Command.addStage, LineStage.command, commandInit, expandWord_eq]

/-- A stage is within its limits when a new command has room for it and is not left without a word. -/
theorem fits_iff {stage : LineStage} :
    stage.Fits ↔ commandInit.TakesAll ctx stage ∧ (stage.command ctx).argc ≠ 0 := by
  rw [takesAll_iff (by decide)]
  simp only [commandInit, LineStage.command, Option.toList_none, List.length_nil, Nat.zero_add]
  constructor
  · rintro ⟨h1, h2, h3, h4⟩
    exact ⟨⟨h2, h3, h4⟩, by omega⟩
  · rintro ⟨⟨h2, h3, h4⟩, h1⟩
    exact ⟨by omega, h2, h3, h4⟩

end LineStage

/-! ### The loop -/

section Loop

/-- All allocations succeed. -/
def allocated : ℕ → Bool := fun _ => true

/-- The first command of a chain is marked for the background. -/
def markHead : List Command → List Command
  | [] => []
  | cmd :: chain => { cmd with background := true } :: chain

/-- The commands of a chain that is built. -/
def Building.commands (b : Building) : List Command := b.front ++ [b.current]

variable {ctx : Option ShellContext} {b : Building} {c : Command × List Command}

theorem Building.chain_commands (b : Building) : b.chain.1 :: b.chain.2 = b.commands := by
  unfold Building.chain Building.commands
  split <;> simp_all

theorem Building.setBackground_commands (b : Building) : b.setBackground.commands = markHead b.commands := by
  unfold Building.setBackground Building.commands
  split <;> simp_all [markHead]

/-- What `build_command` leaves behind: a chain and the context as it was, or no chain and exit status 2. -/
theorem buildLoop_ctx (n : ℕ) (b : Building) (list : TokenList) :
    (buildLoop allocated ctx n b list).ctx =
      if (buildLoop allocated ctx n b list).chain.isSome then ctx else setStatus 2 ctx := by
  fun_induction buildLoop allocated ctx n b list <;> simp_all [syntaxFail, allocated]

theorem symbol_eq_word {token : Token} {text : Bytes} :
    token.symbol = .word text ↔ token.type = .word ∧ token.text = text := by
  unfold Token.symbol
  split <;> simp_all

theorem symbol_eq_redirect {token : Token} {op : RedirectOp} :
    token.symbol = .redirect op ↔ token.type = .redirect op := by
  unfold Token.symbol
  split <;> simp_all

theorem symbol_eq_pipe {token : Token} : token.symbol = .pipe ↔ token.type = .pipe := by
  unfold Token.symbol
  split <;> simp_all

theorem symbol_eq_background {token : Token} : token.symbol = .background ↔ token.type = .background := by
  unfold Token.symbol
  split <;> simp_all

/-! The language is accepted. -/

/-- One item is read. -/
theorem buildLoop_item {item : StageItem} {list : TokenList} {syms : List Symbol}
    (h : list.map Token.symbol = item.tokens.map Token.symbol ++ syms) : ∃ rest, rest.map Token.symbol = syms ∧
      ∀ n (b : Building), b.current.Takes item → buildLoop allocated ctx n b list =
        buildLoop allocated ctx (n + 1) { b with current := b.current.addItem ctx item } rest := by
  cases item with
  | word text =>
    obtain ⟨token, rest, rfl, ht, hrest⟩ := List.map_eq_cons_iff.mp h
    obtain ⟨htype, rfl⟩ := symbol_eq_word.mp ht
    refine ⟨rest, hrest, fun n b hb => ?_⟩
    have hargc : b.current.argc < 63 := hb
    have hroom : ¬ b.current.argc ≥ MAX_ARGS - 1 := by simpa [MAX_ARGS] using hargc
    rw [buildLoop, htype]
    simp [hroom, allocated, Command.addItem]
  | redirect op file =>
    obtain ⟨token, l, rfl, ht, hl⟩ := List.map_eq_cons_iff.mp h
    obtain ⟨word, rest, rfl, hw, hrest⟩ := List.map_eq_cons_iff.mp hl
    have htype : token.type = .redirect op := symbol_eq_redirect.mp ht
    obtain ⟨hword, rfl⟩ := symbol_eq_word.mp hw
    refine ⟨rest, hrest, fun n b hb => ?_⟩
    have hfree : op.taken b.current.redirect = false := hb
    rw [buildLoop, htype]
    simp [hword, hfree, allocated, Command.addItem]

/-- A stage is read. -/
theorem buildLoop_stage (stage : LineStage) : ∀ {list : TokenList} {syms : List Symbol},
    list.map Token.symbol = stage.tokens.map Token.symbol ++ syms → ∃ rest, rest.map Token.symbol = syms ∧
      ∀ n (b : Building), b.current.TakesAll ctx stage → buildLoop allocated ctx n b list =
        buildLoop allocated ctx (n + stage.length) { b with current := b.current.addStage ctx stage } rest := by
  induction stage with
  | nil =>
    intro list syms h
    refine ⟨list, by simpa [LineStage.tokens] using h, fun n b _ => ?_⟩
    have hnil : b.current.TakesAll ctx [] := trivial
    rw [← addItem_foldl hnil]
    rfl
  | cons item stage ih =>
    intro list syms h
    simp only [LineStage.tokens, List.flatMap_cons, List.map_append, List.append_assoc] at h
    obtain ⟨rest, hrest, hitem⟩ := @buildLoop_item ctx _ _ _ h
    obtain ⟨rest', hrest', hstage⟩ := ih hrest
    refine ⟨rest', hrest', fun n b hb => ?_⟩
    rw [← addItem_foldl hb, List.foldl_cons, hitem n b hb.1, hstage _ _ hb.2, addItem_foldl hb.2,
      List.length_cons, Nat.add_assoc, Nat.add_comm 1]

/-- The further stages and the end of the line are read. -/
theorem buildLoop_others (background : Bool) (others : List LineStage) :
    ∀ {list : TokenList} {n : ℕ} {b : Building},
    (∀ stage ∈ others, stage.Fits ∧ stage.BeginsWithWord) → (∀ cmd ∈ b.commands, cmd.argc ≠ 0) →
    b.chain.1.background = false →
    list.map Token.symbol = (others.flatMap fun stage => pipeToken :: stage.tokens).map Token.symbol ++
      (if background then [.background] else []) →
    ∃ c, (buildLoop allocated ctx n b list).chain = some c ∧
      c.1 :: c.2 = if background then markHead (b.commands ++ others.map (LineStage.command ctx))
        else b.commands ++ others.map (LineStage.command ctx) := by
  induction others with
  | nil =>
    intro list n b _ hb hbg h
    have hne : ∀ b' : Building, (∀ cmd ∈ b'.commands, cmd.argc ≠ 0) →
        ((b'.front ++ [b'.current]).any fun cmd => cmd.argc == 0) = false := by
      intro b' hb'
      rw [List.any_eq_false]
      exact fun cmd hm => by simpa using hb' cmd hm
    cases background with
    | false =>
      obtain rfl : list = [] := by simpa using h
      refine ⟨b.chain, ?_, by simpa using b.chain_commands⟩
      rw [buildLoop, if_neg (by rw [hne b hb]; simp)]
    | true =>
      obtain ⟨token, rest, rfl, ht, hrest⟩ := List.map_eq_cons_iff.mp h
      obtain rfl : rest = [] := by simpa using hrest
      have hmark : ∀ cmd ∈ b.setBackground.commands, cmd.argc ≠ 0 := by
        rw [Building.setBackground_commands]
        intro cmd hm
        cases hc : b.commands with
        | nil => simp [hc, markHead] at hm
        | cons head chain =>
          rw [hc] at hm hb
          rcases List.mem_cons.mp hm with rfl | hm
          · exact hb head List.mem_cons_self
          · exact hb cmd (List.mem_cons_of_mem _ hm)
      refine ⟨b.setBackground.chain, ?_, ?_⟩
      · rw [buildLoop, symbol_eq_background.mp ht]
        simp only [ne_eq, not_true_eq_false, if_false, hbg, Bool.false_eq_true]
        rw [buildLoop, if_neg (by rw [hne _ hmark]; simp)]
      · rw [Building.chain_commands, Building.setBackground_commands]
        simp
  | cons stage others ih =>
    intro list n b hothers hb hbg h
    obtain ⟨hfits, text, items, hword⟩ := hothers stage List.mem_cons_self
    simp only [List.flatMap_cons, List.cons_append, List.map_cons, List.map_append, List.append_assoc] at h
    obtain ⟨token, rest, rfl, ht, hrest⟩ := List.map_eq_cons_iff.mp h
    have htype : token.type = .pipe := symbol_eq_pipe.mp ht
    have hnext : rest.head?.map Token.type = some .word := by
      subst hword
      simp only [LineStage.tokens, List.flatMap_cons, StageItem.tokens, List.cons_append, List.nil_append,
        List.map_cons] at hrest
      obtain ⟨word, rest', rfl, hw, -⟩ := List.map_eq_cons_iff.mp hrest
      simp [(symbol_eq_word.mp hw).1]
    have hargc : b.current.argc ≠ 0 := hb _ (by simp [Building.commands])
    obtain ⟨rest', hrest', hstage⟩ := @buildLoop_stage ctx stage _ _ hrest
    obtain ⟨htakes, hcmd⟩ := (@fits_iff ctx stage).mp hfits
    rw [buildLoop, htype]
    simp only [hargc, if_false, hnext, ne_eq, not_true_eq_false, allocated]
    rw [hstage _ b.next htakes]
    have hcommands : ∀ b' : Building, b' = { b.next with current := b.next.current.addStage ctx stage } →
        b'.commands = b.commands ++ [stage.command ctx] := by
      rintro b' rfl
      simp [Building.commands, Building.next, commandInit_addStage]
    have hhead : ∀ b' : Building, b'.commands = b.commands ++ [stage.command ctx] → b'.chain.1 = b.chain.1 := by
      intro b' h'
      rw [← b'.chain_commands, ← b.chain_commands] at h'
      exact (List.cons.inj h').1
    obtain ⟨c, hc, hcc⟩ :=
      @ih rest' (n + 1 + stage.length) _ (fun s hs => hothers s (List.mem_cons_of_mem _ hs)) (by
      rw [hcommands _ rfl]
      intro cmd hm
      rcases List.mem_append.mp hm with hm | hm
      · exact hb cmd hm
      · rw [List.mem_singleton.mp hm]
        exact hcmd) (by rw [hhead _ (hcommands _ rfl), hbg]) hrest'
    refine ⟨c, hc, ?_⟩
    rw [hcc, hcommands _ rfl]
    simp

/-! Only the language is accepted. -/

/-- The tokens are the rest of a line of which `b` has been built, and `c` is its meaning. -/
structure Building.Reads (ctx : Option ShellContext) (b : Building) (list : TokenList) (c : Command × List Command)
    (line : CommandLine) : Prop where
  takes : b.current.TakesAll ctx line.first
  first : (b.current.addStage ctx line.first).argc ≠ 0
  front : ∀ cmd ∈ b.front, cmd.argc ≠ 0
  others : ∀ stage ∈ line.others, stage.Fits ∧ stage.BeginsWithWord
  symbols : list.map Token.symbol = line.tokens.map Token.symbol
  chain : c.1 :: c.2 = (if line.background then markHead else id)
    (b.front ++ b.current.addStage ctx line.first :: line.others.map (LineStage.command ctx))

theorem addStage_nil (cmd : Command) : cmd.addStage ctx [] = cmd := by simp [Command.addStage]

/-- The end of the tokens. -/
theorem Building.reads_nil (h : ∀ cmd ∈ b.commands, cmd.argc ≠ 0) (background : Bool)
    (hc : c.1 :: c.2 = (if background then markHead else id) b.commands) {list : TokenList}
    (hl : list.map Token.symbol = if background then [.background] else []) :
    b.Reads ctx list c ⟨[], [], background⟩ where
  takes := trivial
  first := by
    rw [addStage_nil]
    exact h _ (by simp [Building.commands])
  front cmd hm := h cmd (List.mem_append_left _ hm)
  others := by simp
  symbols := by
    rw [hl]
    cases background <;> rfl
  chain := by
    rw [hc, addStage_nil]
    rfl

/-- One item more. -/
theorem Building.Reads.item {item : StageItem} {rest list : TokenList} {line : CommandLine}
    (h : Building.Reads ctx { b with current := b.current.addItem ctx item } rest c line)
    (ht : b.current.Takes item) (hl : list.map Token.symbol = item.tokens.map Token.symbol ++
      rest.map Token.symbol) :
    b.Reads ctx list c { line with first := item :: line.first } := by
  have htakes : b.current.TakesAll ctx (item :: line.first) := ⟨ht, h.takes⟩
  have hadd : b.current.addStage ctx (item :: line.first) =
      (b.current.addItem ctx item).addStage ctx line.first := by
    rw [← addItem_foldl htakes, List.foldl_cons, addItem_foldl h.takes]
  refine ⟨htakes, ?_, h.front, h.others, ?_, ?_⟩
  · rw [hadd]
    exact h.first
  · rw [hl, h.symbols]
    simp [CommandLine.tokens, LineStage.tokens]
  · rw [hadd]
    exact h.chain

/-- A `'|'`, behind which the rest begins with a word. -/
theorem Building.Reads.pipe {rest list : TokenList} {line : CommandLine} (h : b.next.Reads ctx rest c line)
    (hargc : b.current.argc ≠ 0) (hword : line.first.BeginsWithWord)
    (hl : list.map Token.symbol = .pipe :: rest.map Token.symbol) :
    b.Reads ctx list c { line with first := [], others := line.first :: line.others } where
  takes := trivial
  first := by
    rw [addStage_nil]
    exact hargc
  front cmd hm := h.front cmd (List.mem_append_left _ hm)
  others stage hm := by
    rcases List.mem_cons.mp hm with rfl | hm
    · have := h.first
      exact ⟨fits_iff.mpr ⟨h.takes, by rwa [← commandInit_addStage]⟩, hword⟩
    · exact h.others stage hm
  symbols := by
    rw [hl, h.symbols]
    simp [CommandLine.tokens, LineStage.tokens, pipeToken, Token.symbol]
  chain := by
    rw [h.chain, addStage_nil]
    simp [Building.next, commandInit_addStage]

/-- The rest of a line that begins with a word is a stage that does. -/
theorem beginsWithWord {rest : TokenList} {line : CommandLine}
    (h : rest.map Token.symbol = line.tokens.map Token.symbol) (hw : rest.head?.map Token.type = some .word) :
    line.first.BeginsWithWord := by
  cases rest with
  | nil => simp at hw
  | cons token rest =>
    have htype : token.type = .word := by simpa using hw
    have hsym : token.symbol = .word token.text := symbol_eq_word.mpr ⟨htype, rfl⟩
    rcases hf : line.first with _ | ⟨_ | ⟨op, file⟩, items⟩
    · exfalso
      rw [List.map_cons, hsym, CommandLine.tokens, hf] at h
      cases hs : line.others <;> cases hb : line.background <;>
        simp [LineStage.tokens, hs, hb, pipeToken, backgroundToken, Token.symbol] at h
    · exact ⟨_, _, rfl⟩
    · rw [List.map_cons, hsym, CommandLine.tokens, hf] at h
      simp [LineStage.tokens, StageItem.tokens, Token.symbol] at h

/-- A chain that passes the last check. -/
theorem Building.argc_ne_zero (h : ¬ ((b.front ++ [b.current]).any fun cmd => cmd.argc == 0) = true) :
    ∀ cmd ∈ b.commands, cmd.argc ≠ 0 := by
  intro cmd hm hz
  exact h (List.any_eq_true.mpr ⟨cmd, hm, by simp [hz]⟩)

theorem markHead_argc {l : List Command} (h : ∀ cmd ∈ markHead l, cmd.argc ≠ 0) :
    ∀ cmd ∈ l, cmd.argc ≠ 0 := by
  cases l with
  | nil => simp
  | cons head l => simpa [markHead] using h

theorem buildLoop_sound (n : ℕ) (b : Building) (list : TokenList) :
    (buildLoop allocated ctx n b list).chain = some c → ∃ line, b.Reads ctx list c line := by
  fun_induction buildLoop allocated ctx n b list with
  | case2 n b hne =>
    intro h
    obtain rfl : b.chain = c := by simpa using h
    exact ⟨_, Building.reads_nil (Building.argc_ne_zero hne) false b.chain_commands rfl⟩
  | case5 n b token rest htype hroom _ ih =>
    intro h
    obtain ⟨line, hline⟩ := ih h
    have hargc : b.current.argc < 63 := by simpa [MAX_ARGS] using hroom
    have hsym : token.symbol = .word token.text := symbol_eq_word.mpr ⟨htype, rfl⟩
    exact ⟨_, @Building.Reads.item ctx b c (.word token.text) _ _ _ hline hargc (by simp [hsym])⟩
  | case10 n b token op htype file rest hword hfree _ ih =>
    intro h
    obtain ⟨line, hline⟩ := ih h
    have hsym : token.symbol = .redirect op := symbol_eq_redirect.mpr htype
    have hfile : file.symbol = .word file.text := symbol_eq_word.mpr ⟨by simpa using hword, rfl⟩
    exact ⟨_, @Building.Reads.item ctx b c (.redirect op file.text) _ _ _ hline
      (by simpa [Command.Takes] using hfree)
      (by simp [hsym, hfile])⟩
  | case13 n b token rest htype hrest _ ih =>
    intro h
    obtain rfl : rest = [] := by simpa using hrest
    rw [buildLoop] at h
    split at h
    · simp [syntaxFail] at h
    · rename_i hne
      obtain rfl : b.setBackground.chain = c := by simpa using h
      have hargc := Building.argc_ne_zero hne
      rw [Building.setBackground_commands] at hargc
      refine ⟨_, Building.reads_nil (markHead_argc hargc) true ?_ ?_⟩
      · rw [Building.chain_commands, Building.setBackground_commands]
        rfl
      · simp [symbol_eq_background.mpr htype]
  | case17 n b token rest htype hargc hnext _ ih =>
    intro h
    obtain ⟨line, hline⟩ := ih h
    have hword : rest.head?.map Token.type = some .word := by simpa using hnext
    exact ⟨_, hline.pipe hargc (beginsWithWord hline.symbols hword) (by simp [symbol_eq_pipe.mpr htype])⟩
  | _ => simp_all [syntaxFail, allocated]

/-- What `build_command` starts with. -/
def building : Building := { front := [], current := commandInit }

theorem CommandLine.chain_cons (line : CommandLine) : (line.chain ctx).1 :: (line.chain ctx).2 =
    (if line.background then markHead else id)
    (line.first.command ctx :: line.others.map (LineStage.command ctx)) := by
  cases hb : line.background <;> simp [CommandLine.chain, markHead, hb, LineStage.command]

theorem chain_ext {c c' : Command × List Command} (h : c.1 :: c.2 = c'.1 :: c'.2) : c = c' := by
  obtain ⟨h1, h2⟩ := List.cons.inj h
  exact Prod.ext h1 h2

/-- A well-formed line is accepted with its meaning. -/
theorem buildLoop_complete {line : CommandLine} (h : line.WellFormed) {list : TokenList} (n : ℕ)
    (hl : list.map Token.symbol = line.tokens.map Token.symbol) :
    (buildLoop allocated ctx n building list).chain = some (line.chain ctx) := by
  have hsplit : list.map Token.symbol = line.first.tokens.map Token.symbol ++
      ((line.others.flatMap fun stage => pipeToken :: stage.tokens).map Token.symbol ++
        if line.background then [.background] else []) := by
    rw [hl, CommandLine.tokens, List.map_append, List.map_append, List.append_assoc]
    cases line.background <;> rfl
  obtain ⟨rest, hrest, hstage⟩ := @buildLoop_stage ctx line.first _ _ hsplit
  obtain ⟨htakes, hargc⟩ := (@fits_iff ctx _).mp h.first
  rw [hstage n building htakes]
  have hfirst : building.current.addStage ctx line.first = line.first.command ctx := commandInit_addStage line.first
  rw [hfirst]
  obtain ⟨c, hc, hcc⟩ := @buildLoop_others ctx line.background line.others rest (n + line.first.length)
    { building with current := line.first.command ctx } h.others
    (by simpa [Building.commands, building] using hargc) rfl hrest
  have hchain : c = line.chain ctx := by
    refine chain_ext ?_
    rw [hcc, line.chain_cons]
    cases line.background <;> rfl
  rw [hc, hchain]

/-- **The parser accepts its grammar and builds its meaning.**  When all allocations succeed, `build_command`
returns a chain exactly when its tokens are those of a well-formed line, and the chain is what that line means; the
context is then unchanged.  Otherwise it returns no chain, and sets the exit status to 2 and nothing else. -/
theorem buildCommand_accepts (list : TokenList) (ctx : Option ShellContext) :
    (∀ c, (buildCommand allocated (some list) ctx).chain = some c ↔
      ∃ line : CommandLine, line.WellFormed ∧ list.map Token.symbol = line.tokens.map Token.symbol ∧
        c = line.chain ctx) ∧
    (buildCommand allocated (some list) ctx).ctx =
      if (buildCommand allocated (some list) ctx).chain.isSome then ctx else setStatus 2 ctx := by
  have hbuild : buildCommand allocated (some list) ctx = buildLoop allocated ctx 1 building list := rfl
  rw [hbuild]
  refine ⟨fun c => ⟨fun h => ?_, ?_⟩, buildLoop_ctx 1 building list⟩
  · obtain ⟨line, hline⟩ := buildLoop_sound 1 building list h
    have hfirst : building.current.addStage ctx line.first = line.first.command ctx :=
      commandInit_addStage line.first
    refine ⟨line, ⟨fits_iff.mpr ⟨hline.takes, hfirst ▸ hline.first⟩, hline.others⟩, hline.symbols,
      chain_ext ?_⟩
    rw [line.chain_cons, hline.chain, hfirst]
    rfl
  · rintro ⟨line, hline, hsym, rfl⟩
    exact buildLoop_complete hline 1 hsym

end Loop

end MiniShell
