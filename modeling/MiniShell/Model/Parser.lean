import MiniShell.Lib.Strtol
import MiniShell.Model.Shell

/-!
# `parser.c`

A `TokenList` is the list of its tokens.  A pointer that may be `NULL` is an `Option`; a line is the array its
pointer points to, of which the functions read the C string at the start.  Every call of an allocating function
has a number, and `alloc n` says whether the `n`-th of them succeeds.
-/

namespace MiniShell

def MAX_TOKEN : ℕ := 128
def TOKEN_SIZE : ℕ := 256
def MAX_ARGS : ℕ := 64

/-! ### Characters -/

def greaterThan : UInt8 := 62
def lessThan : UInt8 := 60
def verticalBar : UInt8 := 124
def ampersand : UInt8 := 38

/-- `isspace` in the C locale: the blank, and `'\t'`, `'\n'`, `'\v'`, `'\f'`, `'\r'`. -/
def isspace (c : UInt8) : Bool := c == 32 || (9 ≤ c && c ≤ 13)

theorem isspace_apart : Lib.Strtol.Apart isspace := by
  intro c hc
  have hrange : c.toNat = 32 ∨ 9 ≤ c.toNat ∧ c.toNat ≤ 13 := by
    simp only [isspace, Bool.or_eq_true, beq_iff_eq, Bool.and_eq_true, decide_eq_true_eq,
      UInt8.le_iff_toNat_le] at hc
    rcases hc with rfl | hc
    · exact Or.inl rfl
    · exact Or.inr hc
  refine ⟨?_, ?_, ?_⟩
  · by_contra hd
    simp only [Bool.not_eq_false, Lib.Strtol.isDigit, Bool.and_eq_true, decide_eq_true_eq,
      UInt8.le_iff_toNat_le] at hd
    have h48 : (48 : UInt8).toNat = 48 := rfl
    omega
  · rintro rfl
    have h43 : (43 : UInt8).toNat = 43 := rfl
    omega
  · rintro rfl
    have h45 : (45 : UInt8).toNat = 45 := rfl
    omega

def isSpecial (c : UInt8) : Bool := c == greaterThan || c == lessThan || c == verticalBar || c == ampersand

/-! ### Tokens -/

/-- `TOKEN_REDIRECT_IN`, `TOKEN_REDIRECT_OUT` and `TOKEN_REDIRECT_APPEND`. -/
inductive RedirectOp where
  | input | output | append
  deriving DecidableEq

inductive TokenType where
  | word
  | redirect (op : RedirectOp)
  | pipe
  | background
  deriving DecidableEq

structure Token where
  text : Bytes
  type : TokenType
  deriving DecidableEq

abbrev TokenList : Type := List Token

/-- `TOKENIZE_TOO_MANY` and `TOKENIZE_TOO_LONG`. -/
inductive TokenizeError where
  | tooMany | tooLong
  deriving DecidableEq

def tokenPush (list : TokenList) (type : TokenType) (text : Bytes) : Except TokenizeError TokenList :=
  if list.length ≥ MAX_TOKEN then .error .tooMany
  else if text.length ≥ TOKEN_SIZE then .error .tooLong
  else .ok (list ++ [⟨text, type⟩])

/-- A byte of a word. -/
def isWordByte (c : UInt8) : Bool := !isspace c && !isSpecial c

/-- The type and the length of the token that starts at `p`, which is no white space. -/
def scanToken (p : Bytes) : TokenType × ℕ :=
  match p with
  | [] => (.word, 0)
  | c :: rest =>
    if c = greaterThan then
      if rest.head? = some greaterThan then (.redirect .append, 2) else (.redirect .output, 1)
    else if c = lessThan then (.redirect .input, 1)
    else if c = verticalBar then (.pipe, 1)
    else if c = ampersand then (.background, 1)
    else (.word, (p.takeWhile isWordByte).length)

/-- The loop of `tokenize`; a round leaves less of the string, so its length bounds their number. -/
def tokenizeLoop : ℕ → Bytes → TokenList → Except TokenizeError TokenList
  | 0, _, list => .ok list
  | n + 1, p, list =>
    match p.dropWhile isspace with
    | [] => .ok list
    | c :: rest =>
      let (type, length) := scanToken (c :: rest)
      match tokenPush list type ((c :: rest).take length) with
      | .error e => .error e
      | .ok list => tokenizeLoop n ((c :: rest).drop length) list

def tokenize (line : Option Bytes) : Except TokenizeError TokenList :=
  match line with
  | none => .error .tooMany
  | some line => tokenizeLoop ((cString line).length + 1) (cString line) []

/-! ### Results -/

/-- What the functions that return a `Command *` leave behind: the chain, a message on `stderr`, the context. -/
structure ParseResult where
  chain : Option (Command × List Command)
  stderr : Option String
  ctx : Option ShellContext
  deriving DecidableEq

/-- `if (ctx) ctx->last_exit_status = status`. -/
def setStatus (status : Int) (ctx : Option ShellContext) : Option ShellContext :=
  ctx.map fun ctx => { ctx with lastExitStatus := status }

def tokenizeFail (ctx : Option ShellContext) (result : TokenizeError) : ParseResult where
  chain := none
  stderr := some (if result = .tooLong then "minishell: syntax error: token is too long\n"
    else "minishell: syntax error: too many tokens\n")
  ctx := setStatus 2 ctx

def syntaxFail (ctx : Option ShellContext) (message : String) : ParseResult where
  chain := none
  stderr := some ("minishell: syntax error: " ++ message ++ "\n")
  ctx := setStatus 2 ctx

def memoryFail (ctx : Option ShellContext) : ParseResult where
  chain := none
  stderr := some "minishell: memory allocation failed\n"
  ctx := setStatus 1 ctx

/-! ### Building the chain -/

/-- `command_init`. -/
def commandInit : Command :=
  { argc := 0, argv := [], background := false
    redirect := { inputFile := none, outputFile := none, append := false } }

/-- `"$?"`. -/
def statusWord : Bytes := [36, 63]

/-- The argument a word stands for. -/
def expandWord (ctx : Option ShellContext) (text : Bytes) : Bytes :=
  if text = statusWord then decimal (ctx.elim 0 ShellContext.lastExitStatus) else text

def Command.pushArg (arg : Bytes) (cmd : Command) : Command :=
  { cmd with argc := cmd.argc + 1, argv := cmd.argv ++ [arg] }

namespace RedirectOp

/-- The message when no word follows the operator. -/
def expected : RedirectOp → String
  | input => "expected filename after '<'"
  | output => "expected filename after '>'"
  | append => "expected filename after '>>'"

/-- The message when there is such a redirection already. -/
def duplicate : RedirectOp → String
  | input => "duplicate input redirection"
  | output => "duplicate output redirection"
  | append => "duplicate output redirection"

/-- There is such a redirection already. -/
def taken (redirect : Redirection) : RedirectOp → Bool
  | input => redirect.inputFile.isSome
  | output => redirect.outputFile.isSome
  | append => redirect.outputFile.isSome

def store (file : Bytes) (redirect : Redirection) : RedirectOp → Redirection
  | input => { redirect with inputFile := some file }
  | output => { redirect with outputFile := some file, append := false }
  | append => { redirect with outputFile := some file, append := true }

end RedirectOp

/-- The chain while it is built: the commands before `current`, and `current`, which is its last. -/
structure Building where
  front : List Command
  current : Command
  deriving DecidableEq

namespace Building

/-- `head`, and the commands after it. -/
def chain (b : Building) : Command × List Command :=
  match b.front with
  | [] => (b.current, [])
  | head :: front => (head, front ++ [b.current])

/-- `head->background = 1`. -/
def setBackground (b : Building) : Building :=
  match b.front with
  | [] => { b with current := { b.current with background := true } }
  | head :: front => { b with front := { head with background := true } :: front }

/-- A new command is linked behind `current` and becomes it. -/
def next (b : Building) : Building := { front := b.front ++ [b.current], current := commandInit }

end Building

/-- The loop of `build_command` from the `n`-th allocation on, and the check that follows it. -/
def buildLoop (alloc : ℕ → Bool) (ctx : Option ShellContext) : ℕ → Building → TokenList → ParseResult
  | _, b, [] =>
    if (b.front ++ [b.current]).any fun cmd => cmd.argc == 0 then syntaxFail ctx "missing command near '|'"
    else { chain := some b.chain, stderr := none, ctx := ctx }
  | n, b, token :: rest =>
    match token.type with
    | .word =>
      if b.current.argc ≥ MAX_ARGS - 1 then syntaxFail ctx "too many arguments"
      else if ¬ alloc n then memoryFail ctx
      else buildLoop alloc ctx (n + 1) { b with current := b.current.pushArg (expandWord ctx token.text) } rest
    | .redirect op =>
      match rest with
      | [] => syntaxFail ctx op.expected
      | file :: rest =>
        if file.type ≠ .word then syntaxFail ctx op.expected
        else if op.taken b.current.redirect then syntaxFail ctx op.duplicate
        else if ¬ alloc n then memoryFail ctx
        else buildLoop alloc ctx (n + 1)
          { b with current := { b.current with redirect := op.store file.text b.current.redirect } } rest
    | .background =>
      if rest ≠ [] then syntaxFail ctx "'&' must be the last token"
      else if b.chain.1.background then syntaxFail ctx "duplicate background operator"
      else buildLoop alloc ctx n b.setBackground rest
    | .pipe =>
      if b.current.argc = 0 then syntaxFail ctx "missing command near '|'"
      else if rest.head?.map Token.type ≠ some .word then syntaxFail ctx "expected command after '|'"
      else if ¬ alloc n then memoryFail ctx
      else buildLoop alloc ctx (n + 1) b.next rest

def buildCommand (alloc : ℕ → Bool) (list : Option TokenList) (ctx : Option ShellContext) : ParseResult :=
  match list with
  | none => { chain := none, stderr := none, ctx := ctx }
  | some list =>
    if ¬ alloc 0 then memoryFail ctx
    else buildLoop alloc ctx 1 { front := [], current := commandInit } list

def parseLine (alloc : ℕ → Bool) (line : Option Bytes) (ctx : Option ShellContext) : ParseResult :=
  match line with
  | none => { chain := none, stderr := none, ctx := ctx }
  | some line =>
    match tokenize (some line) with
    | .error result => tokenizeFail ctx result
    | .ok [] => { chain := none, stderr := none, ctx := ctx }
    | .ok list => buildCommand alloc (some list) ctx

/-- `parse_line` as the main loop calls it; which allocations succeed may be different for every call. -/
def parseLineOf (alloc : Bytes → Session → ℕ → Bool) : ParseLine := fun line s =>
  let result := parseLine (alloc line s) (some line) (some s.world.ctx)
  (result.chain, result.ctx.elim s.world.ctx.lastExitStatus ShellContext.lastExitStatus)

/-- A line of two commands with a redirection. -/
example : (parseLine (fun _ => true) (some [97, 32, 36, 63, 124, 98, 62, 62, 99, 38]) none).chain =
    some ({ argc := 2, argv := [[97], [48]], background := true, redirect := ⟨none, none, false⟩ },
      [{ argc := 1, argv := [[98]], background := false, redirect := ⟨none, some [99], true⟩ }]) := by
  decide

end MiniShell
