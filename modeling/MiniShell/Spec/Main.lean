import MiniShell.Spec.Setup

/-!
# `main`

A run of `main`, from the first call to the last.

* `main_accounts` — when `main` returns, all that it has opened is closed;
* `loop_accounts` — whenever the main loop is about to go on, the event pipe is open above the standard descriptors.
-/

namespace MiniShell

open MiniShell.Lib

/-! ### `main` -/

section Whole

variable {F : FdTable Fd} {p p' : ShellProcess} {parseLine : ParseLine} {config : MiniShellConfig}

/-- All that the shell has opened for itself is closed. -/
theorem Furnished.same (h : Furnished F p) (he : p.EventClosed) (ht : p.terminalFd < 0) :
    SameDescriptors F p.fds := by
  obtain ⟨n, m, h⟩ := h
  rw [holdings_closed he, held_of_neg ht] at h
  exact h.intact.table.same

/-- After `shell_init` the event pipe is open, or nothing is. -/
theorem wp_shellInit (h : Furnished F p) (he : p.EventClosed) (ht : p.terminalFd < 0)
    (hm : ∀ x ∈ p.moments, Unset x.eventPipe) : Prog.wp (shellInit config)
    (fun status p' => Furnished F p' ∧ if status = .ok then p'.EventSet else p'.EventClosed ∧ p'.terminalFd < 0)
    (fun _ => True) p := by
  let Post : ShellStatus → ShellProcess → Prop := fun status p' => Furnished F p' ∧
    if status = .ok then p'.EventSet else p'.EventClosed ∧ p'.terminalFd < 0
  -- what is left to undo when a step has failed
  have destroy : ∀ p₁, Furnished F p₁ → p₁.EventClosed → p₁.terminalFd < 0 → Prog.wp (do
      liftWorld shellContextDestroy
      pure .error : Main ShellStatus) Post (fun _ => True) p₁ := fun p₁ h₁ he₁ ht₁ =>
    neutral_shellContextDestroy.furnished h₁ fun _ p₂ h₂ hs₂ =>
      ⟨h₂, by unfold ShellProcess.EventClosed; rwa [eventPipe_eq hs₂], by rwa [terminalFd_eq hs₂]⟩
  have shutdown : ∀ p₁, Furnished F p₁ → p₁.terminalFd < 0 → Prog.wp (do
      eventShut
      liftWorld shellContextDestroy
      pure .error : Main ShellStatus) Post (fun _ => True) p₁ := by
    intro p₁ h₁ ht₁
    rw [Prog.wp_bind]
    exact Prog.wp_mono (wp_eventShut h₁)
      (fun _ p₂ h₂ => destroy p₂ h₂.1 h₂.2.1 (by rwa [h₂.2.2])) fun _ h => h
  unfold shellInit
  rw [Prog.wp_modify_bind, Prog.wp_bind]
  have h₁ : Furnished F { p with session := shellContextInit config p.session } := by
    obtain ⟨n, m, h⟩ := h
    exact ⟨n, m, h.congr rfl rfl rfl⟩
  refine Prog.wp_mono (wp_eventInit h₁ he hm) ?_ fun _ h => h
  intro r p₂ h₂
  obtain ⟨hf₂, ht₂, hr⟩ := h₂
  have ht₁ : p₂.terminalFd < 0 := ht₂ ▸ ht
  split
  · rename_i hneg
    rw [if_pos hneg] at hr
    exact destroy p₂ hf₂ hr ht₁
  · rename_i hpos
    rw [if_neg hpos] at hr
    rw [Prog.wp_bind]
    refine Prog.wp_mono (wp_terminalInit hf₂ ht₁) ?_ fun _ h => h
    intro r p₃ h₃
    obtain ⟨hf₃, he₃, hr₃⟩ := h₃
    split
    · exact shutdown p₃ hf₃ (hr₃.resolve_left (by omega))
    · refine (closed_sigactions (K := fun _ m => Neutral m) neutral_setup _).furnished hf₃
        ?_
      intro r p₄ h₄ hs₄
      split
      · refine (closed_signalShutdown (K := fun _ m => Neutral m) neutral_setup).furnished h₄
          ?_
        intro _ p₅ h₅ hs₅
        rw [Prog.wp_bind]
        exact Prog.wp_mono (wp_terminalShutdown h₅) (fun _ p₆ h₆ => shutdown p₆ h₆.1 h₆.2.2)
          fun _ h => h
      · refine ⟨h₄, ?_⟩
        unfold ShellProcess.EventSet
        rwa [if_pos rfl, eventPipe_eq hs₄, he₃]

/-- After `shell_cleanup` nothing is open. -/
theorem wp_shellCleanup (h : Furnished F p) : Prog.wp shellCleanup
    (fun _ p' => Furnished F p' ∧ p'.EventClosed ∧ p'.terminalFd < 0) (fun _ => True) p := by
  unfold shellCleanup
  apply neutral_shellContextDestroy.furnished h
  intro _ p₁ h₁ _
  apply (closed_signalShutdown (K := fun _ m => Neutral m) neutral_setup).furnished h₁
  intro _ p₂ h₂ _
  rw [Prog.wp_bind]
  refine Prog.wp_mono (wp_eventShut h₂) ?_ fun _ h => h
  intro _ p₃ h₃
  rw [Prog.wp_bind]
  refine Prog.wp_mono (wp_terminalShutdown h₃.1) ?_ fun _ h => h
  intro _ p₄ h₄
  refine neutral_flush.furnished h₄.1 fun _ p₅ h₅ hs₅ => ⟨h₅, ?_, ?_⟩
  · unfold ShellProcess.EventClosed
    rw [eventPipe_eq hs₅, h₄.2.1]
    exact h₃.2.1
  · rw [terminalFd_eq hs₅]
    exact h₄.2.2

/-- The session in which `shell_run` starts the loop. -/
def ShellProcess.loopStart (p : ShellProcess) : Session :=
  { p.session with prompt := true, consumed := 0, actions := [] }

theorem wp_shellRun (rounds : List Round) (h : Furnished F p) : Prog.wp (shellRun parseLine rounds)
    (fun _ p' => Furnished F p' ∨ RestoreFailed p'.world.log) (fun _ => True) p := by
  unfold shellRun
  rw [Prog.wp_get_bind]
  split
  · exact Or.inl h
  · split
    · exact Or.inl h
    · rw [Prog.wp_modify_bind]
      obtain ⟨n, m, h⟩ := h
      have hloop := @wp_loop_whole F (p.holdings n m) parseLine rounds p.loopStart (Or.inl h.intact)
      refine wp_liftSession (Prog.wp_mono hloop ?_ fun _ _ => trivial)
      intro _ s hs
      exact hs.imp (fun hi => ⟨n, m, hi, h.pipe, h.heard⟩) And.right

/-! The calls that are recorded stay recorded. -/

section Logs

variable {α β ρ : Type}

/-- The log only grows. -/
def Logs (m : Main α) : Prop := ∀ p, p.world.log <+: (m p).state.world.log

theorem Logs.bind {m : Main α} {f : α → Main β} (hm : Logs m) (hf : ∀ a, Logs (f a)) : Logs (m >>= f) :=
  Prog.state_bind (T := fun p p' : ShellProcess => p.world.log <+: p'.world.log) List.IsPrefix.trans hm hf

theorem logs_get_bind {f : ShellProcess → Main β} (hf : ∀ p, Logs (f p)) : Logs (Prog.get >>= f) :=
  fun p => hf p p

theorem logs_pure (a : α) : Logs (pure a) := fun _ => List.prefix_rfl

theorem logs_setupCall {f : Choice → ShellProcess → ρ × ShellProcess} {call : ρ → SetupCall}
    (hf : ∀ c p, (f c p).2.world.log = p.world.log) : Logs (setupCall f call) := by
  intro p
  refine Prog.wp_state (P := fun p' => p.world.log <+: p'.world.log) (wp_setupCall fun used c rest => ?_)
  change p.world.log <+: (f c (p.setWorld (p.world.drift used rest))).2.world.log
  rw [hf]
  exact List.prefix_append _ _

theorem logs_liftWorld {m : Sh α} (hm : LogGrows m) : Logs (liftWorld m) := by
  intro p
  have hlog := hm p.world
  unfold liftWorld
  cases hrun : m p.world with
  | done a w =>
    rw [hrun] at hlog
    exact hlog
  | blocked w =>
    rw [hrun] at hlog
    exact hlog

theorem logs_setupKernel {f : Choice → Kernel → ρ × Kernel} {call : ρ → SetupCall} :
    Logs (setupKernel f call) :=
  logs_setupCall fun _ _ => rfl

theorem logs_main : ClosedMain fun _ m => Logs m where
  pure := logs_pure
  block := fun _ => List.prefix_rfl
  bind := Logs.bind
  get_bind := logs_get_bind
  getFd := fun _ => logs_setupKernel
  getFl := fun _ => logs_setupKernel
  isatty := fun _ => logs_setupKernel
  tcgetpgrp := logs_setupKernel
  setNonblock := fun _ => logs_setupCall fun c _ => by cases c <;> rfl
  setCloexecFlag := fun _ => logs_setupKernel
  killGroup := by
    intro group p
    unfold killGroup
    split
    · exact List.prefix_rfl
    · exact @logs_setupKernel _ _ (.kill (-group) SIGTTIN) p
  setpgidSelf := logs_setupCall fun c _ => by cases c <;> rfl
  sigprocmask := fun _ => logs_setupCall fun c _ => by cases c <;> rfl
  sigaction := fun _ _ => logs_setupCall fun c _ => by cases c <;> rfl
  setTerm := fun _ _ => List.prefix_rfl
  tcgetattr := logs_liftWorld logGrows_tty.tcgetattr
  terminalSetPgrp := fun pgid =>
    logs_liftWorld (closed_terminalSetPgrp (K := fun _ m => LogGrows m) logGrows_tty pgid)
  terminalRestore := logs_liftWorld (closed_terminalRestore (K := fun _ m => LogGrows m) logGrows_tty)
  setupClose := fun _ => logs_setupKernel
  setupPipe := logs_setupKernel
  openDevice := fun _ _ => logs_setupKernel
  modify := fun {f} hf p => by
    obtain ⟨term, hterm⟩ := hf p
    change p.world.log <+: (f p).session.world.log
    rw [hterm]
    exact List.prefix_rfl

theorem logs_shellCleanup : Logs shellCleanup := by
  have destroy : LogGrows shellContextDestroy :=
    ClosedWait.shellContextDestroy (K := fun _ m => LogGrows m) logGrows_vars.wait
  have flush : LogGrows (retry fflush) :=
    Closed.retry (K := fun _ m => LogGrows m) logGrows_tty.toClosed logGrows_tty.fflush
  exact (logs_liftWorld destroy).bind fun _ =>
    Logs.bind (closed_signalShutdown (K := fun _ m => Logs m) logs_main.toClosedSetup) fun _ =>
      Logs.bind (closed_eventShut (K := fun _ m => Logs m) logs_main) fun _ =>
        Logs.bind (closed_terminalShutdown (K := fun _ m => Logs m) logs_main) fun _ =>
          (logs_liftWorld flush).bind fun _ => logs_pure _

theorem RestoreFailed.mono {log log' : List Event} (h : RestoreFailed log) (hp : log <+: log') :
    RestoreFailed log' := by
  obtain ⟨saved, target, e, hdup, he, hfail⟩ := h
  obtain ⟨rest, rfl⟩ := hp
  refine ⟨saved, target, e, ?_, he, ?_⟩
  · rw [calls_append]
    exact List.mem_append_left _ hdup
  · rw [calls_append]
    exact List.mem_append_left _ hfail

end Logs

/-- What `shell_init` starts with. -/
theorem wp_ensureStandardFds_start (he : p.eventPipe = (-1, -1)) (ht : p.terminalFd = -1) (hm : p.moments = [])
    (hn : p.kernel.Numbered) : Prog.wp ensureStandardFds (fun r p₁ => Filled p p₁ ∧
      (r < 0 ∨ Furnished p₁.fds p₁ ∧ p₁.EventClosed ∧ p₁.terminalFd < 0)) (fun _ => True) p := by
  have hclosed : p.EventClosed := by
    unfold ShellProcess.EventClosed
    rw [he]
    exact ⟨neg_one_lt_zero, neg_one_lt_zero⟩
  refine Prog.wp_mono (wp_ensureStandardFds hclosed hn (by simp [hm])) ?_ fun _ h => h
  intro r p₁ h₁
  obtain ⟨hfilled, hr⟩ := h₁
  refine ⟨hfilled, hr.imp_right fun hfds => ?_⟩
  have hs₁ := hfilled.statics
  have hclosed₁ : p₁.EventClosed := by
    unfold ShellProcess.EventClosed
    rwa [eventPipe_eq hs₁]
  have ht₁ : p₁.terminalFd < 0 := by
    rw [terminalFd_eq hs₁, ht]
    exact neg_one_lt_zero
  refine ⟨⟨0, 0, ?_⟩, hclosed₁, ht₁⟩
  rw [holdings_closed hclosed₁, held_of_neg ht₁]
  exact ⟨⟨.refl _, hfds, hfilled.numbered⟩, hclosed₁.pipeIn 0,
    fun x hx => (hfilled.unheard x hx).is 0 x.fds⟩

/-- **`main` leaves no descriptor behind.**  When it returns, a descriptor above the standard ones is open if it
was when `main` was called, and refers to what it did; so does a standard one that was open.  There is one pipe
whose ends the variables of the event pipe have held at all calls of `main` outside `shell_run`, where they have
held anything.  Otherwise taking a redirection back has failed. -/
theorem main_accounts (parseLine : ParseLine) (config : MiniShellConfig) (rounds : List Round)
    (he : p.eventPipe = (-1, -1)) (ht : p.terminalFd = -1) (hm : p.moments = []) (hn : p.kernel.Numbered)
    {status : Int} (hrun : mainProgram parseLine config rounds p = .done status p') :
    ((∀ x, p.fds.IsOpen x ∨ 2 < x → descOf p'.fds x = descOf p.fds x) ∧
      ∃ n, ∀ x ∈ p'.moments, EventIs n x.eventPipe x.fds) ∨ RestoreFailed p'.world.log := by
  refine Prog.wp_done (Q := fun _ p' => ((∀ x, p.fds.IsOpen x ∨ 2 < x → descOf p'.fds x = descOf p.fds x) ∧
    ∃ n, ∀ x ∈ p'.moments, EventIs n x.eventPipe x.fds) ∨ RestoreFailed p'.world.log)
      (R := fun _ => True) ?_ hrun
  unfold mainProgram
  rw [Prog.wp_bind]
  refine Prog.wp_mono (wp_ensureStandardFds_start he ht hm hn) ?_ fun _ h => h
  intro r p₁ h₁
  obtain ⟨hfilled, hr⟩ := h₁
  split
  · exact Or.inl ⟨hfilled.kept, 0, fun x hx => (hfilled.unheard x hx).is 0 x.fds⟩
  rename_i hpos
  obtain ⟨hstart, hclosed₁, ht₁⟩ := hr.resolve_left hpos
  -- what is found when all has been closed again
  have done : ∀ p', Furnished p₁.fds p' → p'.EventClosed → p'.terminalFd < 0 →
      (∀ x, p.fds.IsOpen x ∨ 2 < x → descOf p'.fds x = descOf p.fds x) ∧
        ∃ n, ∀ x ∈ p'.moments, EventIs n x.eventPipe x.fds := by
    intro p' h' he' ht'
    have hsame := h'.same he' ht'
    obtain ⟨n, m, hholds⟩ := h'
    exact ⟨fun x hx => (hsame.desc x).trans (hfilled.kept x hx), n, hholds.heard⟩
  rw [Prog.wp_bind]
  refine Prog.wp_mono (wp_shellInit hstart hclosed₁ ht₁ hfilled.unheard)
    ?_ fun _ h => h
  intro status p₂ h₂
  obtain ⟨hf₂, h₂⟩ := h₂
  cases status with
  | error => exact Or.inl (done p₂ hf₂ h₂.1 h₂.2)
  | ok =>
    rw [Prog.wp_bind]
    refine Prog.wp_mono (wp_shellRun rounds hf₂) ?_ fun _ h => h
    intro runStatus p₃ h₃
    rw [Prog.wp_get_bind, Prog.wp_bind]
    have hlast : ∀ p₄, (Furnished p₁.fds p₄ ∧ p₄.EventClosed ∧ p₄.terminalFd < 0) ∨
      RestoreFailed p₄.world.log →
        Prog.wp (if runStatus ≠ .ok then pure 1 else pure p₃.world.ctx.lastExitStatus : Main Int)
          (fun _ p' => ((∀ x, p.fds.IsOpen x ∨ 2 < x → descOf p'.fds x = descOf p.fds x) ∧
            ∃ n, ∀ x ∈ p'.moments, EventIs n x.eventPipe x.fds) ∨ RestoreFailed p'.world.log)
              (fun _ => True) p₄ := by
      intro p₄ h₄
      have h₄' := h₄.imp_left fun h => done p₄ h.1 h.2.1 h.2.2
      split <;> exact h₄'
    rcases h₃ with h₃ | h₃
    · exact Prog.wp_mono (wp_shellCleanup h₃) (fun _ p₄ h₄ => hlast p₄ (Or.inl h₄)) fun _ h => h
    · have hlog := logs_shellCleanup p₃
      unfold Prog.wp
      cases hcleanup : shellCleanup p₃ with
      | blocked p₄ => trivial
      | done _ p₄ =>
        rw [hcleanup] at hlog
        exact hlast p₄ (Or.inr (h₃.mono hlog))

/-! What the loop starts with. -/

section Front

variable {α ρ : Type}

/-- What `shell_init` leaves to the loop of `shell_run` as `shell_context_init` has made it. -/
def ShellProcess.front (p : ShellProcess) : ShellContext × ShellInput := (p.world.ctx, p.session.input)

theorem keepsFront_setupCall {f : Choice → ShellProcess → ρ × ShellProcess} {call : ρ → SetupCall}
    (hf : ∀ c p, (f c p).2.front = p.front) : Prog.Keeps ShellProcess.front (setupCall f call) := fun _ => hf _ _

theorem keepsFront_setupKernel {f : Choice → Kernel → ρ × Kernel} {call : ρ → SetupCall} :
    Prog.Keeps ShellProcess.front (setupKernel f call) := keepsFront_setupCall fun _ _ => rfl

theorem keepsFront_liftWorld {m : Sh α} (hm : Prog.Keeps World.ctx m) :
    Prog.Keeps ShellProcess.front (liftWorld m) := by
  intro p
  have hctx := hm p.world
  unfold liftWorld
  cases hrun : m p.world with
  | done a w | blocked w =>
    rw [hrun] at hctx
    exact congrArg (·, p.session.input) hctx

theorem keepsFront_main : ClosedMain fun _ m => Prog.Keeps ShellProcess.front m where
  pure := Prog.keeps_pure
  block := Prog.keeps_block
  bind := Prog.Keeps.bind
  get_bind := fun hf => Prog.keeps_get_bind hf
  getFd := fun _ => keepsFront_setupKernel
  getFl := fun _ => keepsFront_setupKernel
  isatty := fun _ => keepsFront_setupKernel
  tcgetpgrp := keepsFront_setupKernel
  setNonblock := fun _ => keepsFront_setupCall fun c _ => by cases c <;> rfl
  setCloexecFlag := fun _ => keepsFront_setupKernel
  killGroup := by
    intro group p
    unfold killGroup
    split
    · rfl
    · exact @keepsFront_setupKernel _ _ (.kill (-group) SIGTTIN) p
  setpgidSelf := keepsFront_setupCall fun c _ => by cases c <;> rfl
  sigprocmask := fun _ => keepsFront_setupCall fun c _ => by cases c <;> rfl
  sigaction := fun _ _ => keepsFront_setupCall fun c _ => by cases c <;> rfl
  setTerm := fun _ => Prog.keeps_modify fun _ => rfl
  tcgetattr := keepsFront_liftWorld sameCtx_tty.tcgetattr
  terminalSetPgrp := fun pgid =>
    keepsFront_liftWorld (closed_terminalSetPgrp (K := fun _ m => Prog.Keeps World.ctx m) sameCtx_tty pgid)
  terminalRestore :=
    keepsFront_liftWorld (closed_terminalRestore (K := fun _ m => Prog.Keeps World.ctx m) sameCtx_tty)
  setupClose := fun _ => keepsFront_setupKernel
  setupPipe := keepsFront_setupKernel
  openDevice := fun _ _ => keepsFront_setupKernel
  modify := fun hf => Prog.keeps_modify fun p => by
    obtain ⟨term, hterm⟩ := hf p
    unfold ShellProcess.front ShellProcess.world
    rw [hterm]
    rfl

/-- When `shell_init` succeeds the context is the one it was given first. -/
theorem wp_shellInit_front : Prog.wp (shellInit config)
    (fun status p' => status = .ok → p'.loopStart.Started) (fun _ => True) p := by
  have failed : ∀ {m : Main Unit} {p₁}, Prog.wp (do
      m
      pure .error : Main ShellStatus) (fun status p' => status = .ok → p'.loopStart.Started)
        (fun _ => True) p₁ := by
    intro m p₁
    rw [Prog.wp_bind]
    exact Prog.wp_mono (Q := fun _ _ => True) (R := fun _ => True) (by unfold Prog.wp; split <;> trivial)
      (fun _ _ _ h => by cases h) fun _ h => h
  let p₀ : ShellProcess := { p with session := shellContextInit config p.session }
  have started : ∀ p' : ShellProcess, p'.front = p₀.front → p'.loopStart.Started := by
    intro p' h
    have hctx : p'.loopStart.world.ctx = p₀.world.ctx := congrArg Prod.fst h
    have hinput : p'.loopStart.input = p₀.session.input := congrArg Prod.snd h
    refine ⟨?_, ?_, ?_, ?_, ?_, ?_, rfl, rfl, rfl⟩
    · rw [hctx]
      rfl
    · rw [hctx]
      rfl
    · rw [hctx]
      rfl
    · rw [hinput]
      exact List.length_replicate ..
    · rw [hinput]
      rfl
    · rw [hinput]
      rfl
  have step : ∀ {m : Main Int} {f : Int → Main ShellStatus} {p₁ : ShellProcess},
    Prog.Keeps ShellProcess.front m →
      p₁.front = p₀.front → (∀ r p₂, p₂.front = p₀.front →
        Prog.wp (f r) (fun status p' => status = .ok → p'.loopStart.Started) (fun _ => True) p₂) →
      Prog.wp (m >>= f) (fun status p' => status = .ok → p'.loopStart.Started) (fun _ => True) p₁ := by
    intro m f p₁ hm h₁ hf
    rw [Prog.wp_bind]
    exact Prog.wp_mono (hm.wp p₁) (fun r p₂ h₂ => hf r p₂ (h₂.trans h₁)) fun _ _ => trivial
  unfold shellInit
  rw [Prog.wp_modify_bind]
  refine step (closed_eventInit (K := fun _ m => Prog.Keeps ShellProcess.front m) keepsFront_main) rfl
    ?_
  intro r p₁ h₁
  split
  · exact failed
  refine step (closed_terminalInit (K := fun _ m => Prog.Keeps ShellProcess.front m) keepsFront_main) h₁
    ?_
  intro r p₂ h₂
  split
  · rw [← bind_assoc]
    exact failed
  refine step (closed_sigactions (K := fun _ m =>
    Prog.Keeps ShellProcess.front m) keepsFront_main.toClosedSetup _) h₂
    ?_
  intro r p₃ h₃
  split
  · rw [← bind_assoc, ← bind_assoc, ← bind_assoc]
    exact failed
  · exact fun _ => started p₃ h₃

end Front

/-! What `main` does with the loop. -/

/-- The dispositions of the shell are those a child begins with. -/
theorem wp_signalInit : Prog.wp signalInit (fun r p' => 0 ≤ r → p'.action = signalsSet p.action)
    (fun _ => True) p := by
  have key : ∀ (l : List (Sig × Disposition)) (p : ShellProcess), Prog.wp (sigactions l)
      (fun r p' => 0 ≤ r → p'.action = l.foldl (fun action x => setAction x.1 x.2 action) p.action)
        (fun _ => True) p := by
    intro l
    induction l with
    | nil => exact fun p _ => rfl
    | cons x l ih =>
      intro p
      unfold sigactions
      rw [Prog.wp_bind]
      apply wp_setupCall
      intro used c rest
      cases c with
      | fail e => exact fun h => absurd h (by decide)
      | ok | pick => exact ih _
  exact key signalInitActions p

/-- **`main` returns what its model from `shell_run` on returns**, when it gets that far. -/
theorem mainProgram_status {parseLine : ParseLine} {rounds : List Round} {p₁ p₂ : ShellProcess} {r status : Int}
    (hstd : ensureStandardFds p = .done r p₁) (hr : 0 ≤ r) (hinit : shellInit config p₁ = .done .ok p₂)
    (hpipe : 0 ≤ p₂.eventPipe.1 ∧ p₂.eventPipe.1 < FD_SETSIZE)
    (hrun : mainProgram parseLine config rounds p = .done status p') :
    ∃ s, shellMain parseLine rounds p₂.loopStart = .done status s := by
  unfold mainProgram at hrun
  rw [Prog.bind_done hstd, if_neg (by omega), Prog.bind_done hinit] at hrun
  have hloop : shellRun parseLine rounds p₂ = liftSession (shellLoop parseLine rounds)
      { p₂ with session := p₂.loopStart } := by
    unfold shellRun
    rw [Prog.bind_done (show Prog.get p₂ = .done p₂ p₂ from rfl), if_neg (by omega), if_neg (by omega)]
    rfl
  dsimp only at hrun
  unfold shellMain
  cases hend : shellLoop parseLine rounds p₂.loopStart with
  | blocked s =>
    have hblocked : shellRun parseLine rounds p₂ = .blocked { p₂ with session := s } := by
      rw [hloop]
      unfold liftSession
      rw [hend]
    rw [Prog.bind_blocked hblocked] at hrun
    cases hrun
  | done runStatus s =>
    have hdone : shellRun parseLine rounds p₂ = .done runStatus { p₂ with session := s } := by
      rw [hloop]
      unfold liftSession
      rw [hend]
    rw [Prog.bind_done hdone] at hrun
    rw [Prog.bind_done hend, Prog.bind_done (show Prog.get s = .done s s from rfl)]
    have hrun : (shellCleanup >>= fun _ => if runStatus ≠ .ok then pure 1
      else pure s.world.ctx.lastExitStatus : Main Int)
      { p₂ with session := s } = .done status p' := hrun
    -- the number is known before the cleaning up
    have hstatus : status = if runStatus ≠ .ok then 1 else s.world.ctx.lastExitStatus := by
      refine Prog.wp_done (Q := fun a _ => a = _) (R := fun _ => True) ?_ hrun
      apply Prog.wp_bind_done
      intro _ p₄ _
      split <;> rfl
    cases hdestroy : shellContextDestroy s.world with
    | blocked w =>
      have hlift : liftWorld shellContextDestroy { p₂ with session := s } =
          .blocked (ShellProcess.advance { p₂ with session := s } w) := by
        unfold liftWorld
        rw [show ShellProcess.world { p₂ with session := s } = s.world from rfl, hdestroy]
      have hcleanup : shellCleanup { p₂ with session := s } = .blocked _ := Prog.bind_blocked hlift
      rw [Prog.bind_blocked hcleanup] at hrun
      cases hrun
    | done u w =>
      have hlift : liftSh shellContextDestroy s = .done u { s with world := w } := by
        unfold liftSh
        rw [hdestroy]
      rw [Prog.bind_done hlift, hstatus]
      split <;> exact ⟨_, rfl⟩

/-! What every launch of a session relies on. -/

/-- The standard descriptors are open, the event pipe is open above them, and its ends are in their variables. -/
structure Ready (eventPipe : Int × Int) (w : World) : Prop where
  standard : ∀ fd ≤ 2, w.kernel.fds.IsOpen fd
  event : EventOpen eventPipe w.kernel.fds
  sound : ∃ n, EventIs n eventPipe w.kernel.fds
  set : 0 ≤ eventPipe.1 ∧ 0 ≤ eventPipe.2
  numbered : w.kernel.Numbered

/-- **The state of the main loop.**  When `main` comes to the loop of `shell_run`, the session is a new one.
Whenever the loop is about to go on, the descriptors refer to what they did when it started, the standard ones are
open, and the event pipe is open above them. -/
theorem loop_accounts (parseLine : ParseLine) (config : MiniShellConfig) {p p₁ p₂ : ShellProcess}
    (he : p.eventPipe = (-1, -1)) (ht : p.terminalFd = -1) (hm : p.moments = []) (hn : p.kernel.Numbered) {r : Int}
    (hstd : ensureStandardFds p = .done r p₁) (hr : 0 ≤ r) (hinit : shellInit config p₁ = .done .ok p₂) :
    p₂.loopStart.Started ∧ ∀ s, Relation.ReflTransGen (GoesOn parseLine) p₂.loopStart s →
      s.world.ctx.running = true → SameDescriptors p₂.fds s.world.kernel.fds ∧
        Ready p₂.eventPipe s.world := by
  obtain ⟨hfilled, hstart⟩ := Prog.wp_done (wp_ensureStandardFds_start he ht hm hn) hstd
  obtain ⟨hf₁, he₁, ht₁⟩ := hstart.resolve_left (by omega)
  obtain ⟨⟨n, m, h₂⟩, hset⟩ := Prog.wp_done (wp_shellInit hf₁ he₁ ht₁ hfilled.unheard) hinit
  rw [if_pos rfl] at hset
  have hstarted := Prog.wp_done (wp_shellInit_front (p := p₁)) hinit rfl
  refine ⟨hstarted, fun s hheads hrunning => ?_⟩
  have hs : Intact p₁.fds (p₂.holdings n m) s.world :=
    heads_intact (s := p₂.loopStart) h₂.intact hheads hrunning
  exact ⟨.of_desc (h₂.intact.table.unique hs.table), fun _ hfd => hs.isOpen hfd, h₂.eventOpen hs,
    ⟨n, h₂.pipe.is hs.table⟩,
    hset, hs.numbered⟩

/-- The standard input is closed. -/
def bareKernel : Kernel where
  shellPgrp := 100
  children := []
  fds := [(1, ⟨.file 0, false⟩), (2, ⟨.file 1, false⟩)]
  created := 2
  ttyPgrp := 100
  ttyModes := 0

/-- A process that has been started with its standard input closed, at a terminal. -/
def bareProcess : ShellProcess where
  session := { freshSession with world := { freshShell [] with kernel := bareKernel } }
  eventPipe := (-1, -1)
  terminalFd := -1
  nonblocking := []
  action := fun _ => .default
  blocked := []
  pid := 100
  moments := []

/-- A `parse_line` to which every line is the same redirected command. -/
def redirectedLine : ParseLine := fun _ _ => (some (redirectedStatus, []), 0)

def bareConfig : MiniShellConfig := ⟨[], 16, 0⟩

/-- A copy of a descriptor could not be moved. -/
def Call.isFailedDup2 : Call → Bool
  | .dup2 _ _ (.err _) => true
  | _ => false

theorem RestoreFailed.any {log : List Event} (h : RestoreFailed log) :
    (calls log).any Call.isFailedDup2 = true := by
  obtain ⟨saved, target, e, -, -, hfail⟩ := h
  exact List.any_eq_true.mpr ⟨_, hfail, rfl⟩

/-- Its standard input is `/dev/null` in the end. -/
theorem bareProcess_accounts :
    (mainProgram redirectedLine bareConfig [inputRound (.byte newline), inputRound .eof] bareProcess).value =
    some 0 ∧
      ∀ x, x ≠ 0 → descOf (mainProgram redirectedLine bareConfig [inputRound (.byte newline), inputRound .eof]
        bareProcess).state.fds x = descOf bareProcess.fds x := by
  have hvalue : (mainProgram redirectedLine bareConfig
    [inputRound (.byte newline), inputRound .eof] bareProcess).value =
      some 0 := by decide +kernel
  have hall : (calls (mainProgram redirectedLine bareConfig [inputRound (.byte newline), inputRound .eof]
      bareProcess).state.world.log).any Call.isFailedDup2 = false := by decide +kernel
  have hnumbered : bareProcess.kernel.Numbered := by
    unfold Kernel.Numbered
    decide
  refine ⟨hvalue, fun x hx => ?_⟩
  rcases main_accounts redirectedLine bareConfig _ rfl rfl rfl hnumbered (Outcome.eq_done hvalue) with h | h
  · refine h.1 x ?_
    have hopen : ∀ x, bareProcess.fds.IsOpen x ↔ x = 1 ∨ x = 2 := by
      intro x
      simp [bareProcess, bareKernel, ShellProcess.fds, FdTable.IsOpen]
    rw [hopen]
    omega
  · rw [h.any] at hall
    cases hall

/-- The loop of that process starts with the event pipe at 3 and 4. -/
theorem bareProcess_ready :
    ∃ p₁ p₂, ensureStandardFds bareProcess = .done 0 p₁ ∧ shellInit bareConfig p₁ = .done .ok p₂ ∧
    p₂.eventPipe = (3, 4) ∧ Ready (3, 4) p₂.loopStart.world := by
  have hnumbered : bareProcess.kernel.Numbered := by
    unfold Kernel.Numbered
    decide
  have hstd := Outcome.eq_done (show (ensureStandardFds bareProcess).value = some 0 by decide +kernel)
  have hinit := Outcome.eq_done (show (shellInit bareConfig (ensureStandardFds bareProcess).state).value =
      some .ok by
    decide +kernel)
  have hpipe : (shellInit bareConfig (ensureStandardFds bareProcess).state).state.eventPipe = (3, 4) := by
    decide +kernel
  obtain ⟨hstarted, hheads⟩ := loop_accounts redirectedLine bareConfig rfl rfl rfl hnumbered hstd le_rfl hinit
  exact ⟨_, _, hstd, hinit, hpipe, hpipe ▸ (hheads _ .refl hstarted.running).2⟩

end Whole

end MiniShell
