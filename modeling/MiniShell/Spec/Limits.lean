import MiniShell.Model.Dispatcher
import MiniShell.Spec.Render

/-!
# Chains fit the executor

`parse_line` never counts the commands of a chain.  That `execute_pipeline` has room for them follows from the limit
of 128 tokens: the first command needs a token, and every further one needs a `'|'` and a word.
-/

namespace MiniShell

open MiniShell.Lib MiniShellError

/-- A command as the executor and the dispatcher can take it. -/
structure Command.FitsExecutor (cmd : Command) : Prop where
  argc_pos : 1 ≤ cmd.argc
  argc_le : cmd.argc ≤ MAX_ARGS - 1
  /-- behind the last argument stands `NULL` -/
  argv : cmd.argv.length = cmd.argc
  args : ∀ arg ∈ cmd.argv, arg ≠ []
  append : cmd.redirect.append = true → cmd.redirect.outputFile.isSome = true

section

variable {ctx : Option ShellContext} {stage : LineStage}

theorem expandWord_ne_nil {text : Bytes} (h : text ≠ []) : expandWord ctx text ≠ [] := by
  unfold expandWord
  split
  · simp [decimal, Nat.toDigits_ne_nil]
  · exact h

theorem LineStage.Fits.command (h : stage.Fits) (hwords : ∀ item ∈ stage, IsWord item.text) :
    (stage.command ctx).FitsExecutor where
  argc_pos := h.word
  argc_le := h.words
  argv := by simp [LineStage.command]
  args arg harg := by
    obtain ⟨w, hw, rfl⟩ := List.mem_map.mp harg
    obtain ⟨item, hitem, hi⟩ := List.mem_filterMap.mp hw
    cases item with
    | word text =>
      cases hi
      rw [← expandWord_eq]
      exact expandWord_ne_nil (hwords _ hitem).ne_nil
    | redirect op file => cases hi
  append := by cases ho : stage.outputs.head? <;> simp [LineStage.command, ho]

/-- A stage that has a word has a token. -/
theorem LineStage.Fits.tokens_pos (h : stage.Fits) : 1 ≤ stage.tokens.length := by
  cases stage with
  | nil => exact absurd h.word (by simp)
  | cons item stage =>
    cases item <;> simp [LineStage.tokens, StageItem.tokens]

/-- Every command after the first needs two tokens. -/
theorem CommandLine.WellFormed.others_tokens {line : CommandLine} (h : line.WellFormed) :
    2 * line.others.length + 1 ≤ line.tokens.length := by
  have hothers : ∀ others : List LineStage, (∀ stage ∈ others, stage.Fits ∧ stage.BeginsWithWord) →
      2 * others.length ≤ (others.flatMap fun stage => pipeToken :: stage.tokens).length := by
    intro others hall
    induction others with
    | nil => simp
    | cons stage others ih =>
      have hpos := (hall stage List.mem_cons_self).1.tokens_pos
      have hrest := ih fun s hs => hall s (List.mem_cons_of_mem _ hs)
      simp only [List.flatMap_cons, List.length_append, List.length_cons]
      omega
  have hfirst := h.first.tokens_pos
  have hrest := hothers line.others h.others
  unfold CommandLine.tokens
  simp only [List.length_append]
  omega

end

/-! ### The branches that are never taken -/

/-- The loop of `execute_pipeline` without the check for too many commands. -/
def launchLoopUnchecked (gate0 gate1 : ℕ) : List Command → Launch → Sh (Except Int Launch)
  | [], l => pure (.ok l)
  | _ :: next, l => do
    match ← stagePipe next with
    | none =>
      closeIf l.pipeFd
      close gate0
      close gate1
      rollbackPipeline l.pgid l.pids
      pure (.error errPipe)
    | some (pipefd0, pipefd1) =>
      match ← launchStage gate0 gate1 next pipefd0 pipefd1 l with
      | .error e => pure (.error e)
      | .ok l => launchLoopUnchecked gate0 gate1 next l

section

variable {gate0 gate1 : ℕ} {l : Launch}

/-- A stage that is launched adds one pid. -/
theorem launchStage_pids (next : List Command) (pipefd0 pipefd1 : Int) (w : World) :
    Prog.wp (launchStage gate0 gate1 next pipefd0 pipefd1 l)
      (fun r _ => ∀ l', r = .ok l' → l'.pids.length = l.pids.length + 1) (fun _ => True) w := by
  have failed : ∀ {m : Sh Unit} {e : Int} (w : World), Prog.wp (m >>= fun _ => pure (Except.error e))
      (fun r _ => ∀ l' : Launch, r = .ok l' → l'.pids.length = l.pids.length + 1) (fun _ => True) w :=
    fun w => Prog.wp_bind_done fun _ _ _ => nofun
  unfold launchStage
  apply Prog.wp_bind_done
  intro pid w₁ _
  split
  · simp only [← bind_assoc]
    exact failed w₁
  · apply Prog.wp_bind_done
    intro r w₂ _
    split
    · simp only [← bind_assoc]
      exact failed w₂
    · apply Prog.wp_bind_done
      intro _ w₃ _
      split
      · apply Prog.wp_bind_done
        intro _ w₄ _
        rintro l' ⟨⟩
        simp
      · rintro l' ⟨⟩
        simp

/-- **With room for the whole chain the check for too many commands does nothing.** -/
theorem launchLoop_unchecked (chain : List Command) :
    ∀ {l : Launch}, l.pids.length + chain.length ≤ MAX_PIPELINE →
    launchLoop gate0 gate1 chain l = launchLoopUnchecked gate0 gate1 chain l := by
  induction chain with
  | nil => exact fun _ => rfl
  | cons com next ih =>
    intro l hroom
    rw [List.length_cons] at hroom
    rw [launchLoop, launchLoopUnchecked, if_neg (by omega)]
    funext w
    rw [Prog.bind_apply, Prog.bind_apply]
    cases stagePipe next w with
    | blocked w₁ => rfl
    | done pipes w₁ =>
      rcases pipes with _ | ⟨pipefd0, pipefd1⟩
      · rfl
      · dsimp only
        rw [Prog.bind_apply, Prog.bind_apply]
        have hpids := @launchStage_pids gate0 gate1 l next pipefd0 pipefd1 w₁
        cases hx : launchStage gate0 gate1 next pipefd0 pipefd1 l w₁ with
        | blocked w₂ => rfl
        | done r w₂ =>
          cases r with
          | error e => rfl
          | ok l' =>
            have hlen := Prog.wp_done hpids hx l' rfl
            dsimp only
            rw [ih (by omega)]

end

/-! ### The chains of `parse_line` -/

/-- A line of `n` further stages of one word each. -/
def pipeLine : ℕ → Bytes
  | 0 => [97]
  | n + 1 => 97 :: verticalBar :: pipeLine n

/-- **Every chain that `parse_line` returns fits the executor.**  It has at most 64 commands, each with 1 to 63
arguments that are not empty, and only the first can be marked for the background; therefore neither the check for
too many commands in `execute_pipeline` nor the one for a missing command in `dispatcher_command` is ever taken.  There
is a line with 64 commands. -/
theorem parseLine_fits :
    (∀ alloc line ctx c, (parseLine alloc line ctx).chain = some c →
      (c.1 :: c.2).length ≤ MAX_PIPELINE ∧ (∀ cmd ∈ c.1 :: c.2, cmd.FitsExecutor) ∧
      (∀ cmd ∈ c.2, cmd.background = false) ∧ (∀ cmd ∈ c.1 :: c.2, cmd.argv0 ≠ none) ∧
      ∀ gate0 gate1 pipeFd pgid, launchLoop gate0 gate1 (c.1 :: c.2) ⟨pipeFd, pgid, []⟩ =
        launchLoopUnchecked gate0 gate1 (c.1 :: c.2) ⟨pipeFd, pgid, []⟩) ∧
    ∃ line c, (parseLine allocated (some line) none).chain = some c ∧ (c.1 :: c.2).length = MAX_PIPELINE := by
  refine ⟨fun alloc line ctx c h => ?_, pipeLine 63, ?_⟩
  · cases line with
    | none => cases h
    | some text =>
      obtain ⟨list, line, htok, hline, hsym, rfl⟩ := parseLine_chain h
      obtain ⟨hwf, hmax⟩ := tokenize_sound htok
      have hlen : (line.first.command ctx :: line.others.map (LineStage.command ctx)).length ≤ MAX_PIPELINE := by
        have htokens := hline.others_tokens
        have hcount : list.length = line.tokens.length := by simpa using congrArg List.length hsym
        unfold MAX_TOKEN at hmax
        simp only [List.length_cons, List.length_map, MAX_PIPELINE]
        omega
      have hfirst : (line.first.command ctx).FitsExecutor := hline.first.command
        (wellFormed_texts hwf fun sym hs => by
          rw [hsym, CommandLine.tokens]
          simp only [List.map_append, List.mem_append]
          exact Or.inl (Or.inl hs))
      have hothers : ∀ stage ∈ line.others, (stage.command ctx).FitsExecutor := fun stage hm =>
        (hline.others stage hm).1.command (wellFormed_texts hwf fun sym hs => by
          rw [hsym, CommandLine.tokens]
          simp only [List.map_append, List.mem_append, List.map_flatMap, List.mem_flatMap]
          exact Or.inl (Or.inr ⟨stage, hm, List.mem_cons_of_mem _ hs⟩))
      have hfits : ∀ cmd ∈ (line.chain ctx).1 :: (line.chain ctx).2, cmd.FitsExecutor := by
        refine List.forall_mem_cons.mpr ⟨⟨hfirst.argc_pos, hfirst.argc_le, hfirst.argv, hfirst.args,
          hfirst.append⟩, ?_⟩
        intro cmd hm
        obtain ⟨stage, hstage, rfl⟩ := List.mem_map.mp hm
        exact hothers stage hstage
      refine ⟨hlen, hfits, fun cmd hm => ?_, fun cmd hm hnone => ?_, fun gate0 gate1 pipeFd pgid => ?_⟩
      · obtain ⟨stage, -, rfl⟩ := List.mem_map.mp hm
        rfl
      · have hargv := (hfits cmd hm).argv
        have hpos := (hfits cmd hm).argc_pos
        rw [List.head?_eq_none_iff.mp hnone] at hargv
        simp only [List.length_nil] at hargv
        omega
      · refine launchLoop_unchecked _ ?_
        rw [List.length_nil, Nat.zero_add]
        exact hlen
  · have hread : ((parseLine allocated (some (pipeLine 63)) none).chain.map fun c => (c.1 :: c.2).length) =
        some MAX_PIPELINE := by decide +kernel
    obtain ⟨c, hc, hlen⟩ := Option.map_eq_some_iff.mp hread
    exact ⟨c, hc, hlen⟩

/-- `a > b | c &` is read with two commands that fit. -/
theorem shownLine_fits : ∀ cmd ∈ shownChain.1 :: shownChain.2, cmd.FitsExecutor :=
  (parseLine_fits.1 allocated (some shownLine) none shownChain (by decide +kernel)).2.1

end MiniShell
