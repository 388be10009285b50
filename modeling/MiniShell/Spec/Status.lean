import MiniShell.Model.Parser
import MiniShell.Spec.Closed
import MiniShell.Spec.Input

/-!
# The exit status

`last_exit_status` is written by the main loop and by the parser only: every function below `dispatcher_command`
leaves it alone (`steady_dispatcherCommand`), and what it returns is at most 255 (`wp_dispatcherCommand_small`).
So it stays between 0 and 255 in every run, `shellLoop_status`.
-/

namespace MiniShell

open MiniShell.Lib MiniShellError

/-! ### What leaves the exit status alone -/

def World.exitStatus (w : World) : Int := w.ctx.lastExitStatus

/-- `m` leaves the exit status alone. -/
abbrev Steady {α : Type} (m : Sh α) : Prop := Prog.Keeps World.exitStatus m

theorem steady_waitpid (target : Int) (opts : WaitOpts) : Steady (waitpid target opts) :=
  Prog.keeps_of_wp fun _ => wp_ask (fun _ _ h _ _ => congrArg ShellContext.lastExitStatus h.ctx)
    fun _ _ h => congrArg ShellContext.lastExitStatus h.ctx

/-- No call touches the exit status. -/
theorem steady_closed : Closed fun _ m => Steady m where
  pure := Prog.keeps_pure
  block := fun _ => rfl
  bind := fun hm hf => hm.bind hf
  get_bind := Prog.keeps_get_bind
  pipe := fun _ => rfl
  close := fun _ _ => rfl
  setCloexec := fun _ _ => rfl
  openFile := fun _ _ _ => rfl
  dupfd := fun _ _ => rfl
  dup2 := fun _ _ _ => rfl
  fflush := fun _ => rfl
  fork := fun _ => rfl
  setpgid := fun _ _ _ => rfl
  kill := fun _ _ _ => rfl
  waitpid := steady_waitpid
  malloc := fun _ _ => rfl
  nanosleep := fun _ => rfl
  writeGate := fun _ _ => rfl
  tcgetattr := fun _ => rfl
  service := fun _ _ => rfl

theorem steady_closedTty : ClosedTty fun _ m => Steady m where
  toClosed := steady_closed
  tcsetpgrp := fun _ _ => rfl
  tcsetattr := fun _ _ => rfl

/-- What changes the job table leaves the exit status alone. -/
theorem steady_closedVars : ClosedVars fun _ m => Steady m where
  toClosed := steady_closed
  modify := fun hf w => by
    obtain ⟨ctx, hw, hctx⟩ := hf w
    exact (congrArg World.exitStatus hw).trans hctx

/-- **Nothing below `dispatcher_command` writes the exit status.** -/
theorem steady_dispatcherCommand (cmd : Command) (next : List Command) : Steady (dispatcherCommand cmd next) :=
  closed_dispatcherCommand steady_closedVars steady_closedTty cmd next

/-! ### What is returned -/

/-- Whatever happens, what `m` returns satisfies `P`. -/
def Returns {α : Type} (P : α → Prop) (m : Sh α) : Prop := ∀ w, Prog.wp m (fun r _ => P r) (fun _ => True) w

/-- A status that is at most 255. -/
def Small (r : Int) : Prop := r ≤ 255

/-- An error with a status that is at most 255, or no error. -/
def SmallError {α : Type} : Except Int α → Prop
  | .error e => Small e
  | .ok _ => True

section Returns

variable {α β : Type} {P : α → Prop} {Q : β → Prop}

theorem returns_pure {a : α} (h : P a) : Returns P (pure a) := fun _ => h

theorem Returns.bind {m : Sh α} {f : α → Sh β} (hm : Returns P m) (h : ∀ a, P a → Returns Q (f a)) :
    Returns Q (m >>= f) := by
  intro w
  rw [Prog.wp_bind]
  exact Prog.wp_mono (hm w) (fun a w' ha => h a ha w') fun _ _ => trivial

theorem returns_bind {m : Sh α} {f : α → Sh β} (h : ∀ a, Returns Q (f a)) : Returns Q (m >>= f) := by
  refine Returns.bind ?_ fun a (_ : True) => h a
  intro w
  unfold Prog.wp
  split <;> trivial

theorem returns_ite {p : Prop} [Decidable p] {m n : Sh α} (hm : Returns P m) (hn : Returns P n) :
    Returns P (if p then m else n) := by
  split
  · exact hm
  · exact hn

theorem small_error {e : Int} (h : e ∈ ok :: errors) : Small e := by
  revert e
  unfold Small
  decide

/-- A failure that is one of the error codes. -/
theorem returns_error {e : Int} (h : e ∈ ok :: errors) : Returns Small (pure e) := returns_pure (small_error h)

theorem returns_failure {e : Int} (h : e ∈ ok :: errors) :
    Returns SmallError (pure (.error e) : Sh (Except Int α)) :=
  returns_pure (small_error h)

theorem returns_success (a : α) : Returns SmallError (pure (.ok a) : Sh (Except Int α)) := returns_pure trivial

/-- **`job_exit_status`** is at most 255, whatever wait status its last process has. -/
theorem jobExitStatus_small (job : Job) : Small (jobExitStatus job) := by
  unfold jobExitStatus Small
  split
  · decide
  · split
    · split
      · simp only [WEXITSTATUS]
        omega
      · split
        · rename_i hs
          simp only [WIFSIGNALED, Bool.and_eq_true, decide_eq_true_eq] at hs
          omega
        · decide
    · decide

/-! `executor.c` -/

theorem returns_finishRestored (job : Job) (restored : Int) : Returns Small (finishRestored job restored) := by
  refine returns_ite (returns_bind fun _ => returns_error (by decide)) (returns_ite (returns_error (by decide))
    (returns_ite (returns_error (by decide)) (returns_bind fun _ => returns_pure ?_)))
  split
  · exact small_error (by decide)
  · exact jobExitStatus_small job

theorem returns_finishForegroundJob (i : ℕ) (terminalActive : Bool) :
    Returns Small (finishForegroundJob i terminalActive) := by
  apply returns_bind
  intro w
  split
  · exact returns_error (by decide)
  · have rest : ∀ job : Job, Returns Small (do
        let restored ← if terminalActive then terminalRestore else pure 0
        finishRestored job restored) := fun job =>
      returns_ite (returns_bind fun _ => returns_finishRestored _ _)
        (returns_bind fun _ => returns_finishRestored _ _)
    exact returns_ite (returns_bind fun _ => rest _) (rest _)

theorem returns_restoreIf {m : Sh α} (hm : Returns P m) {p : Prop} [Decidable p] : Returns P (do
    if p then
      let _ ← terminalRestore
    m) :=
  returns_ite (returns_bind fun _ => hm) hm

theorem returns_setForegroundIf {m : Int → Sh α} (hm : ∀ r, Returns P (m r)) (pgid : Int)
    {p : Prop} [Decidable p] :
    Returns P (do
      let r ← if p then terminalSetForeground pgid else pure 0
      m r) :=
  returns_ite (returns_bind hm) (hm 0)

theorem returns_releaseSingle (com : Command) (gate1 : ℕ) (pid : Int) (terminalActive : Bool) :
    Returns SmallError (releaseSingle com gate1 pid terminalActive) :=
  returns_bind fun _ => returns_ite
    (returns_bind fun _ => returns_bind fun _ => returns_bind fun _ => returns_restoreIf
      (returns_failure (by decide)))
    (returns_bind fun _ => returns_success _)

theorem returns_launchSingle (com : Command) : Returns SmallError (launchSingle com) := by
  apply returns_bind
  intro gate
  cases gate with
  | none => exact returns_failure (by decide)
  | some gate =>
    refine returns_bind fun _ => returns_bind fun pid => returns_ite ?_ ?_
    · exact returns_bind fun _ => returns_bind fun _ => returns_failure (by decide)
    · refine returns_bind fun _ => returns_bind fun r => returns_ite ?_ ?_
      · exact returns_bind fun _ => returns_bind fun _ => returns_failure (by decide)
      · refine returns_bind fun job => returns_ite ?_ ?_
        · exact returns_bind fun _ => returns_bind fun _ => returns_failure (by decide)
        · refine returns_bind fun r => returns_ite ?_ ?_
          · exact returns_bind fun _ => returns_bind fun _ => returns_bind fun _ => returns_failure (by decide)
          · refine returns_setForegroundIf (fun r => returns_ite ?_ (returns_releaseSingle _ _ _ _)) _
            exact returns_bind fun _ => returns_bind fun _ => returns_bind fun _ => returns_bind fun _ =>
              returns_failure (by decide)

theorem returns_waitSingle (com : Command) (pid : Int) (terminalActive : Bool) :
    Returns Small (waitSingle com pid terminalActive) := by
  refine returns_ite (returns_error (by decide)) (returns_bind fun w => ?_)
  split
  · exact returns_error (by decide)
  · exact returns_bind fun _ => returns_bind fun _ => returns_ite
      (returns_bind fun _ => returns_restoreIf (returns_bind fun _ => returns_error (by decide)))
      (returns_finishForegroundJob _ _)

theorem returns_executeSingle (com : Command) : Returns Small (executeSingle com) :=
  (returns_launchSingle com).bind fun r hr => by
    cases r with
    | error e => exact returns_pure hr
    | ok l => exact returns_waitSingle _ _ _

theorem returns_launchStage (gate0 gate1 : ℕ) (next : List Command) (pipefd0 pipefd1 : Int) (l : Launch) :
    Returns SmallError (launchStage gate0 gate1 next pipefd0 pipefd1 l) := by
  refine returns_bind fun pid => returns_ite ?_ (returns_bind fun _ => returns_ite ?_ ?_)
  · exact returns_bind fun _ => returns_bind fun _ => returns_bind fun _ => returns_bind fun _ =>
      returns_bind fun _ =>
      returns_bind fun _ => returns_failure (by decide)
  · exact returns_bind fun _ => returns_bind fun _ => returns_bind fun _ => returns_bind fun _ =>
      returns_bind fun _ =>
      returns_bind fun _ => returns_failure (by decide)
  · exact returns_bind fun _ => returns_ite (returns_bind fun _ => returns_success _) (returns_success _)

theorem returns_launchLoop (gate0 gate1 : ℕ) (cmds : List Command) (l : Launch) :
    Returns SmallError (launchLoop gate0 gate1 cmds l) := by
  induction cmds generalizing l with
  | nil => exact returns_success _
  | cons cmd next ih =>
    refine returns_ite ?_ (returns_bind fun r => ?_)
    · exact returns_bind fun _ => returns_bind fun _ => returns_bind fun _ => returns_bind fun _ =>
        returns_failure (by decide)
    · cases r with
      | none =>
        exact returns_bind fun _ => returns_bind fun _ => returns_bind fun _ => returns_bind fun _ =>
          returns_failure (by decide)
      | some ends =>
        apply (returns_launchStage _ _ _ _ _ _).bind
        intro r hr
        cases r with
        | error e => exact returns_pure hr
        | ok l => exact ih l

theorem returns_releasePipeline (com : Command) (gate1 : ℕ) (l : Launch) (terminalActive : Bool) :
    Returns SmallError (releasePipeline com gate1 l terminalActive) :=
  returns_bind fun _ => returns_ite
    (returns_bind fun _ => returns_bind fun _ => returns_bind fun _ => returns_restoreIf
      (returns_failure (by decide)))
    (returns_bind fun _ => returns_success _)

theorem returns_launchPipeline (com : Command) (next : List Command) :
    Returns SmallError (launchPipeline com next) := by
  refine returns_bind fun gate => ?_
  cases gate with
  | none => exact returns_failure (by decide)
  | some gate =>
    refine returns_bind fun w => (returns_launchLoop _ _ _ _).bind fun r hr => ?_
    cases r with
    | error e => exact returns_pure hr
    | ok l =>
      refine returns_bind fun _ => returns_bind fun _ => returns_bind fun job => returns_ite ?_
        (returns_bind fun r => returns_ite ?_ ?_)
      · exact returns_bind fun _ => returns_bind fun _ => returns_failure (by decide)
      · exact returns_bind fun _ => returns_bind fun _ => returns_bind fun _ => returns_failure (by decide)
      · refine returns_setForegroundIf (fun r => returns_ite ?_ (returns_releasePipeline _ _ _ _)) _
        exact returns_bind fun _ => returns_bind fun _ => returns_bind fun _ => returns_bind fun _ =>
          returns_failure (by decide)

theorem returns_waitPipeline (com : Command) (l : Launch) (terminalActive : Bool) :
    Returns Small (waitPipeline com l terminalActive) := by
  refine returns_ite (returns_error (by decide)) (returns_bind fun w => ?_)
  split
  · exact returns_error (by decide)
  · exact returns_bind fun _ => returns_bind fun _ => returns_ite
      (returns_bind fun _ => returns_restoreIf (returns_bind fun _ => returns_error (by decide)))
      (returns_finishForegroundJob _ _)

theorem returns_executeCommand (com : Command) (next : List Command) : Returns Small (executeCommand com next) := by
  have limit : Returns Small checkJobLimit := returns_bind fun _ => returns_ite (returns_error (by decide))
    (returns_error (by decide))
  refine limit.bind fun r hr => returns_ite (returns_pure hr) (returns_ite ?_ (returns_executeSingle com))
  apply (returns_launchPipeline com next).bind
  intro r hr
  cases r with
  | error e => exact returns_pure hr
  | ok l => exact returns_waitPipeline _ _ _

/-! `builtin.c` and `dispatcher.c` -/

theorem returns_fgPrepare : Returns SmallError fgPrepare := by
  apply returns_bind
  intro w
  split
  · exact returns_failure (by decide)
  · refine returns_bind fun _ => returns_ite (returns_failure (by decide)) (returns_bind fun _ => returns_ite ?_
      (returns_bind fun _ => returns_ite ?_ (returns_bind fun _ => returns_success _)))
    · exact returns_bind fun _ => returns_failure (by decide)
    · exact returns_bind fun _ => returns_failure (by decide)

theorem returns_builtinFg : Returns Small builtinFg :=
  returns_fgPrepare.bind fun r hr => by
    cases r with
    | error e => exact returns_pure hr
    | ok x =>
      refine returns_bind fun _ => returns_bind fun _ => returns_ite
        (returns_bind fun _ => returns_error (by decide)) ?_
      exact returns_ite (returns_bind fun _ => returns_bind fun _ => returns_finishRestored _ _)
        (returns_bind fun _ => returns_finishRestored _ _)

theorem returns_builtinBg : Returns Small builtinBg := by
  apply returns_bind
  intro w
  split
  · exact returns_error (by decide)
  · exact returns_bind fun _ => returns_bind fun _ => returns_ite (returns_error (by decide))
      (returns_error (by decide))

theorem returns_service : Returns Small service := by
  intro w
  apply wp_syscall
  intro used c rest _
  cases c with
  | ok => exact (small_error (by decide) : Small ok)
  | fail e => exact (small_error (by decide) : Small errUnknown)
  | pick n => exact le_trans (min_le_right n 0) (by decide)

theorem returns_builtinReload : Returns Small builtinReload :=
  returns_bind fun _ => returns_ite (returns_error (by decide))
    (returns_ite (returns_bind fun _ => returns_error (by decide)) (returns_error (by decide)))

/-- A builtin returns at most 255, if this is so of the status before: `exit` returns that one. -/
theorem wp_handler (b : Builtin) {w : World} (h : w.exitStatus ≤ 255) :
    Prog.wp b.handler (fun r _ => Small r) (fun _ => True) w := by
  cases b
  case fg => exact returns_builtinFg w
  case bg => exact returns_builtinBg w
  case exit => exact h
  case reload => exact returns_builtinReload w
  case jobs | help | status => exact small_error (by decide)
  all_goals exact returns_service w

theorem returns_builtinRestoreRedirect (savedOut savedIn : Int) :
    Returns Small (builtinRestoreRedirect savedOut savedIn) :=
  returns_bind fun _ => returns_bind fun _ => returns_pure (by split <;> exact small_error (by decide))

theorem returns_redirectStream (target : ℕ) (path : Bytes) (flags : OpenFlags) :
    Returns (fun r => Small r.1) (redirectStream target path flags) := by
  have result : ∀ e saved, e ∈ ok :: errors → Returns (fun r : Int × Int => Small r.1) (pure (e, saved)) :=
    fun e saved he => returns_pure (small_error he)
  apply returns_bind
  intro saved
  cases saved with
  | none => exact result _ _ (by decide)
  | some saved =>
    apply returns_bind
    intro fd
    cases fd with
    | none => exact result _ _ (by decide)
    | some fd =>
      refine returns_ite (returns_bind fun r => ?_) (result _ _ (by decide))
      cases r <;> exact returns_bind fun _ => result _ _ (by decide)

theorem returns_builtinApplyRedirect (cmd : Command) : Returns (fun r => Small r.1) (builtinApplyRedirect cmd) := by
  have result : ∀ e : Int, e ∈ ok :: errors → Returns (fun r : Int × Int => Small r.1) (pure (e, -1)) :=
    fun e he => returns_pure (small_error he)
  have output : Returns (fun r => Small r.1) (redirectOutput cmd) := by
    unfold redirectOutput
    split
    · exact result _ (by decide)
    · apply returns_bind
      intro r
      cases r with
      | err e => exact result _ (by decide)
      | ok => exact returns_redirectStream _ _ _
  unfold builtinApplyRedirect
  apply output.bind
  intro out hout
  unfold redirectInput
  refine returns_ite (returns_pure hout) ?_
  split
  · exact returns_pure (small_error (by decide) : Small ok)
  · exact (returns_redirectStream _ _ _).bind fun r hr => returns_pure hr

theorem wp_dispatchBuiltin (cmd : Command) (entry : Builtin) {w : World} (h : w.exitStatus ≤ 255) :
    Prog.wp (dispatchBuiltin cmd entry) (fun r _ => Small r) (fun _ => True) w := by
  unfold dispatchBuiltin
  rw [Prog.wp_bind]
  refine Prog.wp_mono (Prog.wp_and (returns_builtinApplyRedirect cmd w)
    ((closed_builtinApplyRedirect steady_closed cmd).wp w)) ?_
    (fun _ _ => trivial)
  rintro ⟨ret, savedOut, savedIn⟩ w₁ ⟨hret, hw₁⟩
  dsimp only
  split
  · refine returns_bind ?_ w₁
    intro restore
    exact returns_ite (returns_bind fun _ => returns_pure hret) (returns_pure hret)
  · rw [Prog.wp_bind]
    refine Prog.wp_mono (wp_handler entry (hw₁.trans_le h)) ?_ (fun _ _ => trivial)
    intro ret w₂ hret
    refine returns_bind ?_ w₂
    intro flushed
    have hret' : Small (if flushed ≠ .ok ∧ ret = ok then errUnknown else ret) := by
      split
      · exact small_error (by decide)
      · exact hret
    exact (returns_builtinRestoreRedirect _ _).bind fun restore hrestore =>
      returns_ite (returns_bind fun _ => returns_pure hrestore) (returns_pure hret')

/-- **`dispatcher_command` returns at most 255**, if the exit status was at most 255 before. -/
theorem wp_dispatcherCommand_small (cmd : Command) (next : List Command) {w : World} (h : w.exitStatus ≤ 255) :
    Prog.wp (dispatcherCommand cmd next) (fun r _ => Small r) (fun _ => True) w := by
  unfold dispatcherCommand
  split
  · exact small_error (by decide)
  · split
    · exact small_error (by decide)
    · split
      · split
        · exact small_error (by decide)
        · exact wp_dispatchBuiltin cmd _ h
      · exact returns_executeCommand cmd next w

end Returns

/-! ### The main loop -/

/-- The exit status is one that a process can have. -/
def World.StatusValid (w : World) : Prop := 0 ≤ w.exitStatus ∧ w.exitStatus ≤ 255

theorem shellNormalizeStatus_valid {status : Int} (h : Small status) :
    0 ≤ shellNormalizeStatus status ∧ shellNormalizeStatus status ≤ 255 := by
  unfold shellNormalizeStatus
  unfold Small at h
  split <;> omega

theorem wp_shellCommand_valid (cmd : Command) (next : List Command) {w : World} (h : w.StatusValid) :
    Prog.wp (shellCommand cmd next) (fun _ w' => w'.StatusValid) World.StatusValid w := by
  have hboth := Prog.wp_and (wp_dispatcherCommand_small cmd next h.2) ((steady_dispatcherCommand cmd next).wp w)
  unfold shellCommand
  rw [Prog.wp_bind]
  apply Prog.wp_mono hboth (fun status w' hs => shellNormalizeStatus_valid hs.1)
  intro w' hs
  unfold World.StatusValid
  rw [hs.2]
  exact h

/-- What a call of the parser can do to the exit status. -/
inductive StatusAfter (ctx : Option ShellContext) : Option ShellContext → Prop where
  | same : StatusAfter ctx ctx
  | failed (status : Int) (h : status = 1 ∨ status = 2) : StatusAfter ctx (setStatus status ctx)

theorem buildLoop_status {alloc : ℕ → Bool} {ctx : Option ShellContext} (n : ℕ) (b : Building)
    (list : TokenList) :
    StatusAfter ctx (buildLoop alloc ctx n b list).ctx := by
  fun_induction buildLoop alloc ctx n b list
  all_goals first
    | exact .failed 2 (Or.inr rfl)
    | exact .failed 1 (Or.inl rfl)
    | exact .same
    | assumption

theorem parseLine_status (alloc : ℕ → Bool) (line : Option Bytes) (ctx : Option ShellContext) :
    StatusAfter ctx (parseLine alloc line ctx).ctx := by
  unfold parseLine
  split
  · exact .same
  · split
    · exact .failed 2 (Or.inr rfl)
    · exact .same
    · unfold buildCommand
      dsimp only
      split
      · exact .failed 1 (Or.inl rfl)
      · exact buildLoop_status _ _ _

/-- What `parse_line` leaves in the exit status. -/
theorem parseLineOf_valid (alloc : Bytes → Session → ℕ → Bool) (line : Bytes) {s : Session}
    (h : s.world.StatusValid) :
    0 ≤ (parseLineOf alloc line s).2 ∧ (parseLineOf alloc line s).2 ≤ 255 := by
  have hs := parseLine_status (alloc line s) (some line) (some s.world.ctx)
  simp only [parseLineOf]
  generalize (parseLine (alloc line s) (some line) (some s.world.ctx)).ctx = after at hs
  cases hs with
  | same => exact h
  | failed status hstatus => rcases hstatus with rfl | rfl <;> simp [setStatus]

section Loop

/-- The parser leaves a valid exit status valid. -/
def ParseLine.Valid (parseLine : ParseLine) : Prop := ∀ line (s : Session), s.world.StatusValid →
  0 ≤ (parseLine line s).2 ∧ (parseLine line s).2 ≤ 255

/-- The exit status is valid in the session. -/
def Session.Valid (s : Session) : Prop := s.world.StatusValid

variable {parseLine : ParseLine} {s : Session}

theorem wp_dispatch_valid (hp : parseLine.Valid) (h : s.Valid) :
    Prog.wp (shellDispatchInput parseLine) (fun _ => Session.Valid) Session.Valid s := by
  unfold shellDispatchInput
  rw [Prog.wp_modify_bind, Prog.wp_get_bind, Prog.wp_modify_bind]
  have hparse := hp (cString (terminateInput s.input).buffer) { s with input := terminateInput s.input } h
  dsimp only
  rw [Prog.wp_bind]
  refine wp_liftSh ?_
  rw [Prog.wp_modify]
  split
  · rename_i cmd next _
    rw [Prog.wp_bind]
    refine wp_liftSh ?_
    exact Prog.wp_mono (wp_shellCommand_valid cmd next hparse) (fun _ _ hw => hw) (fun _ hw => hw)
  · exact hparse

theorem wp_readInput_valid (hp : parseLine.Valid) (h : s.Valid) (r : ReadRes) :
    Prog.wp (shellReadInput parseLine r) (fun _ => Session.Valid) Session.Valid s := by
  cases r with
  | err e => cases e <;> exact h
  | eof =>
    unfold shellReadInput
    rw [Prog.wp_get_bind]
    dsimp only
    split
    · rw [Prog.wp_bind]
      exact wp_dispatch_valid hp h
    · exact h
  | byte ch =>
    unfold shellReadInput
    rw [Prog.wp_modify_bind, Prog.wp_get_bind]
    dsimp only
    split
    · split <;> exact h
    · split
      · rw [Prog.wp_bind]
        exact @wp_dispatch_valid _ { s with consumed := s.consumed + 1 } hp h
      · split
        · rw [Prog.wp_bind]
          have valid : ∀ w : World, (w.setExitStatus 2).StatusValid := fun w =>
            ⟨(by decide : (0 : Int) ≤ 2), (by decide : (2 : Int) ≤ 255)⟩
          exact wp_liftSh (valid s.world)
        · exact h

theorem wp_events_valid (h : s.Valid) (e : EventRes) :
    Prog.wp (shellEvents e) (fun _ => Session.Valid) Session.Valid s := by
  cases e with
  | drainFailed => exact h
  | taken child interrupt written =>
    have hchild : Prog.wp (liftSh shellChild) (fun _ => Session.Valid) Session.Valid s := by
      have valid : ∀ w : World, w.exitStatus = s.world.exitStatus → w.StatusValid := by
        intro w hw
        unfold World.StatusValid
        rw [hw]
        exact h
      exact wp_liftSh (Prog.wp_mono ((closed_shellChild steady_closedVars).wp s.world) (fun _ => valid) valid)
    have rest : ∀ s' : Session, s'.Valid → Prog.wp (do
        if interrupt then
          Prog.modify fun s => { s with input := shellResetInput s.input }
          if ¬ written then pure (some .error)
          else
            Prog.modify fun s => { s with prompt := true }
            pure none
        else pure none : Prog Session (Option ShellStatus)) (fun _ => Session.Valid) Session.Valid s' := by
      intro s' h'
      cases interrupt <;> cases written <;> exact h'
    unfold shellEvents
    cases child with
    | false => exact rest s h
    | true =>
      dsimp only
      rw [if_pos rfl, Prog.wp_bind]
      exact Prog.wp_mono hchild (fun _ => rest) (fun _ hs => hs)

theorem wp_round_valid (hp : parseLine.Valid) (h : s.Valid) (round : Round) :
    Prog.wp (shellRound parseLine round) (fun _ => Session.Valid) Session.Valid s := by
  unfold shellRound
  rw [Prog.wp_get_bind]
  split
  · exact h
  · rw [Prog.wp_modify_bind]
    have h₁ : Session.Valid { s with prompt := false } := h
    cases round.select with
    | err e => cases e <;> exact h
    | ready event input =>
      rw [shellSelect_ready, Prog.wp_bind]
      have hev : Prog.wp (event.elim (pure none) shellEvents) (fun _ => Session.Valid) Session.Valid
          { s with prompt := false } := by
        cases event with
        | none => exact h₁
        | some e => exact wp_events_valid h₁ e
      refine Prog.wp_mono hev ?_ (fun _ hs => hs)
      intro ended s' h'
      split
      · exact h'
      · rw [Prog.wp_get_bind]
        split
        · exact h'
        · split
          · exact h'
          · rename_i r
            unfold shellInput
            rw [Prog.wp_bind]
            refine Prog.wp_mono (wp_readInput_valid hp h' r) ?_ (fun _ hs => hs)
            rintro ⟨ret, lineDone, eof⟩ s'' h''
            dsimp only
            split
            · exact h''
            · cases lineDone <;> cases eof <;> exact h''

/-- **The main loop keeps the exit status valid**, whatever it is given. -/
theorem wp_loop_valid (hp : parseLine.Valid) (rounds : List Round) : ∀ {s : Session}, s.Valid →
    Prog.wp (shellLoop parseLine rounds) (fun _ => Session.Valid) Session.Valid s := by
  induction rounds with
  | nil =>
    intro s h
    unfold shellLoop
    rw [Prog.wp_get_bind]
    split <;> exact h
  | cons round rounds ih =>
    intro s h
    unfold shellLoop
    rw [Prog.wp_get_bind]
    split
    · exact h
    · rw [Prog.wp_bind]
      refine Prog.wp_mono (wp_round_valid hp h round) ?_ (fun _ hs => hs)
      intro out s' h'
      split
      · exact h'
      · exact ih h'

/-- A line without a token changes nothing. -/
theorem dispatch_no_token (alloc : Bytes → Session → ℕ → Bool)
    (h : tokenize (some (cString (terminateInput s.input).buffer)) = .ok []) :
    Prog.wp (shellDispatchInput (parseLineOf alloc)) (fun _ s' => s'.world = s.world) (fun _ => False) s := by
  unfold shellDispatchInput
  rw [Prog.wp_modify_bind, Prog.wp_get_bind, Prog.wp_modify_bind]
  have hparse : ∀ s' : Session, parseLineOf alloc (cString (terminateInput s.input).buffer) s' =
      (none, s'.world.ctx.lastExitStatus) := by
    intro s'
    simp only [parseLineOf, parseLine, h]
    rfl
  dsimp only
  rw [hparse, Prog.wp_bind]
  exact wp_liftSh rfl

/-- **The exit status stays a valid process status.**  Wherever the main loop stops, whatever it was given and
whatever failed, the exit status is between 0 and 255, and so is what `$?` stands for, what `status` prints and what
`exit` returns; when the loop ends without an error, `main` returns the exit status and its parent is told just
that; a line without a token changes nothing. -/
theorem shellLoop_status (alloc : Bytes → Session → ℕ → Bool) (h : s.Started) (rounds : List Round) :
    (∃ n : ℕ, n ≤ 255 ∧ (shellLoop (parseLineOf alloc) rounds s).state.world.ctx.lastExitStatus = n ∧
      expandWord (some (shellLoop (parseLineOf alloc) rounds s).state.world.ctx) statusWord = decimal n ∧
      builtinStatusText (shellLoop (parseLineOf alloc) rounds s).state.world.ctx = decimal n ++ [newline] ∧
      Prog.wp builtinExit (fun r _ => r = n) (fun _ => False)
        (shellLoop (parseLineOf alloc) rounds s).state.world) ∧
    (∀ s' r s'', shellLoop (parseLineOf alloc) rounds s = .done .ok s' →
      shellMain (parseLineOf alloc) rounds s = .done r s'' →
      r = s'.world.ctx.lastExitStatus ∧ exitCode r = r) ∧
    (∀ s₁ : Session, tokenize (some (cString (terminateInput s₁.input).buffer)) = .ok [] →
      Prog.wp (shellDispatchInput (parseLineOf alloc)) (fun _ s₂ => s₂.world = s₁.world)
        (fun _ => False) s₁) := by
  have valid : s.Valid := by
    unfold Session.Valid World.StatusValid World.exitStatus
    rw [h.status]
    decide
  have hloop := wp_loop_valid (parseLineOf_valid alloc) rounds valid
  have hstate : (shellLoop (parseLineOf alloc) rounds s).state.Valid := Prog.wp_state hloop
  refine ⟨?_, fun s' r s'' hrun hmain => ?_, fun s₁ => dispatch_no_token alloc⟩
  · obtain ⟨n, hn⟩ := Int.eq_ofNat_of_zero_le hstate.1
    have hn' : (shellLoop (parseLineOf alloc) rounds s).state.world.ctx.lastExitStatus = n := hn
    have hle : (n : Int) ≤ 255 := hn ▸ hstate.2
    refine ⟨n, by omega, hn', ?_, ?_, hn'⟩
    · simp only [expandWord, if_true, Option.elim_some, hn']
    · simp only [builtinStatusText, hn']
      rfl
  · obtain ⟨h0, h255⟩ := Prog.wp_done hloop hrun
    have hr : r = s'.world.ctx.lastExitStatus := by
      unfold shellMain at hmain
      have hget : Prog.get s' = .done s' s' := rfl
      rw [Prog.bind_done hrun, Prog.bind_done hget] at hmain
      cases hend : liftSh shellContextDestroy s' with
      | blocked s₂ =>
        rw [Prog.bind_blocked hend] at hmain
        cases hmain
      | done a s₂ =>
        rw [Prog.bind_done hend, if_neg (by simp)] at hmain
        cases hmain
        rfl
    refine ⟨hr, ?_⟩
    have h0' : 0 ≤ r := hr ▸ h0
    have h255' : r ≤ 255 := hr ▸ h255
    unfold exitCode
    omega

end Loop

/-- The allocations of every call succeed. -/
def allAllocated : Bytes → Session → ℕ → Bool := fun _ _ _ => true

/-- A new session in which the first command ends with 3. -/
def exitingSession : Session :=
  { freshSession with
    world := freshShell (List.replicate 9 (.res .ok) ++ [.env (.terminate 101 (.exited 3))]) }

/-- The command is read and run, and 3 is what everybody is told; a line without a token changes nothing. -/
theorem exitingSession_status :
    (∃ w : World, (shellLoop (parseLineOf allAllocated) fragmentedRounds exitingSession).state.world = w ∧
      expandWord (some w.ctx) statusWord = decimal 3 ∧ builtinStatusText w.ctx = decimal 3 ++ [newline] ∧
      Prog.wp builtinExit (fun r _ => r = 3) (fun _ => False) w) ∧
    (shellMain (parseLineOf allAllocated) fragmentedRounds exitingSession).value = some 3 ∧ exitCode 3 = 3 ∧
    Prog.wp (shellDispatchInput (parseLineOf allAllocated)) (fun _ s => s.world = exitingSession.world)
      (fun _ => False)
      exitingSession := by
  have hstarted : exitingSession.Started :=
    ⟨rfl, rfl, rfl, freshSession_started.buffer, rfl, rfl, rfl, rfl, rfl⟩
  obtain ⟨⟨n, -, hn, hword, htext, hexit⟩, hmain, hempty⟩ :=
    shellLoop_status allAllocated hstarted fragmentedRounds
  have hend := Outcome.eq_done
    (show (shellLoop (parseLineOf allAllocated) fragmentedRounds exitingSession).value = some .ok by decide +kernel)
  have hvalue : (shellMain (parseLineOf allAllocated) fragmentedRounds exitingSession).value = some 3 := by
    decide +kernel
  obtain ⟨hstatus, hcode⟩ := hmain _ 3 _ hend (Outcome.eq_done hvalue)
  obtain rfl : n = 3 := by exact_mod_cast hn.symm.trans hstatus.symm
  exact ⟨⟨_, rfl, hword, htext, hexit⟩, hvalue, hcode, hempty exitingSession (by decide +kernel)⟩

end MiniShell
