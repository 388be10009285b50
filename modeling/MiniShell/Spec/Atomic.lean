import MiniShell.Spec.Launch

/-!
# A launch succeeds or leaves nothing behind

`wp_launchSingle` and `wp_launchPipeline` follow the code through every step at which a launch can fail.
-/

namespace MiniShell

open MiniShell.Lib MiniShellError

section

variable {com : Command} {w₀ w : World} {s : Stage} {R : World → Prop}

theorem wp_startupGateCreate (h : Launching w₀ s w) {Q : Option (ℕ × ℕ) → World → Prop}
    (hfail : ∀ w', Launching w₀ s w' → Q none w')
    (hok : ∀ a b w', Launching w₀ { s with fds := b :: a :: s.fds } w' → Q (some (a, b)) w') :
    Prog.wp startupGateCreate Q R w := by
  -- a pipe whose ends cannot be marked is closed again
  have shut : ∀ a b w', Launching w₀ { s with fds := b :: a :: s.fds } w' →
      Prog.wp (do close a; close b; pure none : Sh (Option (ℕ × ℕ))) Q R w' := by
    intro a b w' h'
    rw [Prog.wp_bind]
    refine wp_close (h'.perm (List.Perm.swap a b s.fds)) rfl ?_
    intro w'' h''
    rw [Prog.wp_bind]
    exact wp_close h'' rfl fun w₃ h₃ => hfail w₃ h₃
  unfold startupGateCreate
  rw [Prog.wp_bind]
  refine wp_pipe h hfail ?_
  intro a b w' h'
  dsimp only
  rw [Prog.wp_bind]
  apply wp_setCloexec h' (by simp)
  intro r w'' h''
  cases r with
  | err e => exact shut a b w'' h''
  | ok =>
    dsimp only
    rw [Prog.wp_bind]
    apply wp_setCloexec h'' (by simp)
    intro r w₃ h₃
    cases r with
    | err e => exact shut a b w₃ h₃
    | ok => exact hok a b w₃ h₃

/-- What a launch returns: an error after which nothing is left of it, or what it goes on with. -/
def LaunchSpec {α : Type} (com : Command) (w₀ : World) (P : α → World → Prop) :
    Except Int α → World → Prop
  | .error e, w => e ∈ errors ∧ Undone com w₀ w₀.jobs w
  | .ok a, w => P a w

/-- What has to be known of the terminal before the gate is opened to the group `pgid`. -/
def HandedOver (com : Command) (w₀ : World) (pgid : Int) (w : World) : Prop :=
  com.background = false → w₀.term.initialized = true →
    ∃ seg, w.log = w₀.log ++ seg ∧ .tcsetpgrp pgid .ok ∈ calls seg

/-- Handing over the terminal, where `terminal_set_foreground` is only called for a foreground command. -/
theorem handedOver_of_call (h : Launching w₀ s w) {w' : World} {pgid r : Int} (hr : 0 ≤ r)
    (hc : 0 ≤ r → w.term.initialized = true → ∃ cs, Issued cs w w' ∧ .tcsetpgrp pgid .ok ∈ cs) :
    HandedOver com w₀ pgid w' := by
  intro _ hinit
  obtain ⟨seg₀, h₀, -⟩ := h.log
  obtain ⟨cs, ⟨seg, hseg, rfl⟩, hm⟩ := hc hr (h.term ▸ hinit)
  exact ⟨seg₀ ++ seg, by rw [hseg, h₀, List.append_assoc], by simp [hm]⟩

/-- The opening of the gate in `execute_single`. -/
theorem wp_releaseSingle {gate1 n : ℕ} {pid : Int} {c : Bytes} (hc : com.argv0 = some c) (hpid : 0 < pid)
    (h : Launching w₀ ⟨[gate1], [pid], [pid],
      { Job.new n pid c with processes := [Process.new pid] } :: w₀.jobs⟩ w)
    (ht : HandedOver com w₀ pid w) :
    Prog.wp (releaseSingle com gate1 pid w₀.term.initialized) (LaunchSpec com w₀ fun x w' =>
      x.2 = w₀.term.initialized ∧ Launched com w₀ x.1 [x.1] w') R w := by
  unfold releaseSingle
  rw [Prog.wp_bind]
  apply wp_openGate h rfl rfl rfl rfl ht
  intro r w' h' hr
  split
  · -- the write has failed
    rw [Prog.wp_bind]
    apply wp_closeGate h' rfl
    intro w₁ h₁ _
    rw [Prog.wp_bind]
    apply wp_undoSingle (h₁.undoable rfl) rfl
    intro w₂ h₂
    rw [Prog.wp_bind]
    apply wp_undoJob h₂ rfl hpid
    intro w₃ h₃
    split
    · rw [Prog.wp_bind]
      exact wp_undoTerminal h₃ fun r w₄ h₄ => ⟨by decide, h₄⟩
    · exact ⟨by decide, h₃⟩
  · rw [Prog.wp_bind]
    refine wp_closeGate h' rfl fun w₁ h₁ hb => ⟨rfl, h₁.launched rfl hc rfl rfl ?_⟩
    obtain ⟨seg, hseg, hbytes⟩ := hr (by omega)
    obtain ⟨seg', hseg', hbytes'⟩ := hb seg hseg
    exact ⟨seg', hseg', hbytes'.trans hbytes⟩

/-- **`execute_single` up to the opened gate**: it always gets there or fails, and a failure leaves nothing
behind. -/
theorem wp_launchSingle (com : Command) (w : World) :
    Prog.wp (launchSingle com) (LaunchSpec com w fun x w' =>
      x.2 = w.term.initialized ∧ Launched com w x.1 [x.1] w') R w := by
  unfold launchSingle
  rw [Prog.wp_bind]
  refine wp_startupGateCreate (Launching.start w) (fun w₁ h₁ => ?_)
    fun gate0 gate1 w₁ (h₁ : Launching w ⟨[gate1, gate0], [], [], w.jobs⟩ w₁) => ?_
  · exact ⟨by decide, h₁.undone com rfl rfl⟩
  dsimp only
  rw [Prog.wp_bind]
  unfold terminalIsInitialized
  rw [Prog.wp_get_bind, Prog.wp_pure, Prog.wp_bind, h₁.term]
  refine wp_fork h₁ rfl (fun w₂ h₂ => ?_)
    fun pid w₂ hpid (h₂ : Launching w ⟨[gate1, gate0], [pid], [], w.jobs⟩ w₂) => ?_
  · -- fork has failed
    rw [if_pos (by decide), Prog.wp_bind]
    refine wp_close (h₂.perm (List.Perm.swap gate0 gate1 [])) rfl
      fun w₃ (h₃ : Launching w ⟨[gate1], [], [], w.jobs⟩ w₃) => ?_
    rw [Prog.wp_bind]
    exact wp_close h₃ rfl fun w₄ h₄ => ⟨by decide, h₄.undone com rfl rfl⟩
  rw [if_neg (by omega), Prog.wp_bind]
  refine wp_close (h₂.perm (List.Perm.swap gate0 gate1 [])) rfl
    fun w₃ (h₃ : Launching w ⟨[gate1], [pid], [], w.jobs⟩ w₃) => ?_
  rw [Prog.wp_bind]
  apply wp_setpgidParent
  intro r w₄ hq hc
  split
  · -- setpgid has failed
    rw [Prog.wp_bind]
    refine wp_close (h₃.quiet hq) rfl fun w₅ (h₅ : Launching w ⟨[], [pid], [], w.jobs⟩ w₅) => ?_
    rw [Prog.wp_bind]
    exact wp_undoSingle (h₅.undoable com rfl) rfl fun w₆ h₆ => ⟨by decide, h₆⟩
  have h₄ : Launching w ⟨[gate1], [pid], [pid], w.jobs⟩ w₄ := h₃.setpgid hq rfl (hc (by omega))
  rw [Prog.wp_bind]
  refine wp_jobAdd h₄ (fun w₅ h₅ => ?_)
    fun w₅ n c hargv (h₅ : Launching w ⟨[gate1], [pid], [pid], Job.new n pid c :: w.jobs⟩ w₅) => ?_
  · -- job_add has failed
    rw [if_pos (by decide), Prog.wp_bind]
    refine wp_close h₅ rfl fun w₆ (h₆ : Launching w ⟨[], [pid], [pid], w.jobs⟩ w₆) => ?_
    rw [Prog.wp_bind]
    exact wp_undoSingle (h₆.undoable com rfl) rfl fun w₇ h₇ => ⟨by decide, h₇⟩
  rw [if_neg (by decide), Prog.wp_bind]
  let job : Job := { Job.new n pid c with processes := [Process.new pid] }
  refine wp_processAdd h₅ rfl hpid (fun w₆ h₆ => ?_)
    fun w₆ (h₆ : Launching w ⟨[gate1], [pid], [pid], job :: w.jobs⟩ w₆) => ?_
  · -- process_add has failed
    rw [if_pos (by decide), Prog.wp_bind]
    refine wp_close h₆ rfl fun w₇ (h₇ : Launching w
      ⟨[], [pid], [pid], Job.new n pid c :: w.jobs⟩ w₇) => ?_
    rw [Prog.wp_bind]
    apply wp_undoSingle (h₇.undoable com rfl) rfl
    intro w₈ h₈
    rw [Prog.wp_bind]
    exact wp_undoJob h₈ rfl hpid fun w₉ h₉ => ⟨by decide, h₉⟩
  rw [if_neg (by decide)]
  have release : ∀ w', Launching w ⟨[gate1], [pid], [pid], job :: w.jobs⟩ w' → HandedOver com w pid w' →
      Prog.wp (releaseSingle com gate1 pid w.term.initialized) (LaunchSpec com w fun x w' =>
        x.2 = w.term.initialized ∧ Launched com w x.1 [x.1] w') R w' :=
    fun w' h' ht => wp_releaseSingle hargv hpid h' ht
  split
  · rw [Prog.wp_bind]
    apply wp_terminalSetForeground
    intro r w₇ hq hc
    have h₇ := h₆.quiet hq
    split
    · -- terminal_set_foreground has failed
      rw [Prog.wp_bind]
      refine wp_close h₇ rfl fun w₈ (h₈ : Launching w ⟨[], [pid], [pid], job :: w.jobs⟩ w₈) => ?_
      rw [Prog.wp_bind]
      apply wp_undoSingle (h₈.undoable com rfl) rfl
      intro w₉ h₉
      rw [Prog.wp_bind]
      apply wp_undoJob h₉ rfl hpid
      intro w₁₀ h₁₀
      rw [Prog.wp_bind]
      exact wp_undoTerminal h₁₀ fun r w₁₁ h₁₁ => ⟨by decide, h₁₁⟩
    · exact release w₇ h₇ (handedOver_of_call h₆ (by omega) hc)
  · rename_i hfg
    refine release w₆ h₆ fun hb hi => absurd ⟨by simp [hb], hi⟩ hfg

/-! ### `execute_pipeline` -/

/-- The group of a pipeline is its first child, once there is one. -/
def Launch.Led (l : Launch) : Prop := (l.pids = [] ∧ l.pgid = 0) ∨ l.pids.head? = some l.pgid

/-- The loop of `execute_pipeline` has come to `l`. -/
structure LoopInv (w₀ : World) (gate0 gate1 : ℕ) (l : Launch) (w : World) : Prop where
  launching : Launching w₀ ⟨fdList l.pipeFd ++ [gate1, gate0], l.pids, l.pids, w₀.jobs⟩ w
  led : l.Led

/-- What every failure in the loop ends with. -/
theorem wp_abort {a pgid : Int} {gate0 gate1 : ℕ} {ps gs : List Int} {e : Int} {α : Type}
    {P : α → World → Prop} (he : e ∈ errors)
    (h : Launching w₀ ⟨fdList a ++ [gate1, gate0], ps, gs, w₀.jobs⟩ w) :
    Prog.wp (do
      closeIf a
      close gate0
      close gate1
      rollbackPipeline pgid ps
      pure (.error e) : Sh (Except Int α)) (LaunchSpec com w₀ P) R w := by
  rw [Prog.wp_bind]
  refine wp_closeIf h rfl fun w₁ (h₁ : Launching w₀ ⟨[gate1, gate0], ps, gs, w₀.jobs⟩ w₁) => ?_
  rw [Prog.wp_bind]
  refine wp_close (h₁.perm (List.Perm.swap gate0 gate1 [])) rfl
    fun w₂ (h₂ : Launching w₀ ⟨[gate1], ps, gs, w₀.jobs⟩ w₂) => ?_
  rw [Prog.wp_bind]
  refine wp_close h₂ rfl fun w₃ (h₃ : Launching w₀ ⟨[], ps, gs, w₀.jobs⟩ w₃) => ?_
  rw [Prog.wp_bind]
  exact wp_undoPipeline (h₃.undoable com rfl) fun w₄ h₄ => ⟨he, h₄⟩

/-- The same when the two ends of the next pipe are open too. -/
theorem wp_abortStage {p0 p1 a pgid : Int} {gate0 gate1 : ℕ} {ps gs : List Int} {e : Int} {α : Type}
    {P : α → World → Prop} (he : e ∈ errors)
    (h : Launching w₀ ⟨fdList p0 ++ (fdList p1 ++ (fdList a ++ [gate1, gate0])), ps, gs, w₀.jobs⟩ w) :
    Prog.wp (do
      closeIf p0
      closeIf p1
      closeIf a
      close gate0
      close gate1
      rollbackPipeline pgid ps
      pure (.error e) : Sh (Except Int α)) (LaunchSpec com w₀ P) R w := by
  rw [Prog.wp_bind]
  refine wp_closeIf h rfl
    fun w₁ (h₁ : Launching w₀ ⟨fdList p1 ++ (fdList a ++ [gate1, gate0]), ps, gs, w₀.jobs⟩ w₁) => ?_
  rw [Prog.wp_bind]
  exact wp_closeIf h₁ rfl fun w₂ h₂ => wp_abort he h₂

theorem wp_stagePipe {next : List Command} (h : Launching w₀ s w) {Q : Option (Int × Int) → World → Prop}
    (hfail : ∀ w', Launching w₀ s w' → Q none w')
    (hok : ∀ p0 p1 w', (next = [] → p1 = -1) → (next ≠ [] → 0 ≤ p1) → (next = [] → p0 = -1) →
      Launching w₀ { s with fds := fdList p0 ++ (fdList p1 ++ s.fds) } w' → Q (some (p0, p1)) w') :
    Prog.wp (stagePipe next) Q R w := by
  unfold stagePipe
  split
  · rename_i hnext
    rw [Prog.wp_bind]
    apply wp_pipe h hfail
    intro a b w' h'
    refine hok a b w' (fun h => absurd h hnext) (fun _ => by omega) (fun h => absurd h hnext) ?_
    have hab : fdList (a : Int) ++ (fdList (b : Int) ++ s.fds) = a :: b :: s.fds := by simp [fdList]
    rw [hab]
    exact h'.perm (List.Perm.swap a b s.fds)
  · rename_i hnext
    exact hok (-1) (-1) w (fun _ => rfl) (fun h => absurd h hnext) (fun _ => rfl) h

/-- One round of the loop. -/
theorem wp_launchStage (com : Command) {next : List Command} {gate0 gate1 : ℕ} {p0 p1 : Int} {l : Launch}
    (h : Launching w₀ ⟨fdList p0 ++ (fdList p1 ++ (fdList l.pipeFd ++ [gate1, gate0])), l.pids, l.pids,
      w₀.jobs⟩ w)
    (hled : l.Led) (hlast : next = [] → p0 = -1 ∧ p1 = -1) (hmore : next ≠ [] → 0 ≤ p1) :
    Prog.wp (launchStage gate0 gate1 next p0 p1 l) (LaunchSpec com w₀ fun l' w' =>
      LoopInv w₀ gate0 gate1 l' w' ∧ l'.pids.length = l.pids.length + 1) R w := by
  unfold launchStage
  rw [Prog.wp_bind]
  refine wp_fork h rfl (fun w₁ h₁ => ?_) fun pid w₁ hpid
    (h₁ : Launching w₀ ⟨fdList p0 ++ (fdList p1 ++ (fdList l.pipeFd ++ [gate1, gate0])),
      l.pids ++ [pid], l.pids,
      w₀.jobs⟩ w₁) => ?_
  · rw [if_pos (by decide)]
    exact wp_abortStage (by decide) h₁
  rw [if_neg (by omega), Prog.wp_bind]
  apply wp_setpgidParent
  intro r w₂ hq hc
  have hled' : (l.pids ++ [pid]).head? = some (if l.pgid = 0 then pid else l.pgid) := by
    rcases hled with ⟨hp, hg⟩ | hhead
    · simp [hp, hg]
    · have hpos : 0 < l.pgid := h.pos _ (List.mem_of_head? hhead)
      rw [if_neg (by omega), List.head?_append, hhead]
      rfl
  split
  · exact wp_abortStage (by decide) (h₁.quiet hq)
  have h₂ : Launching w₀ ⟨fdList p0 ++ (fdList p1 ++ (fdList l.pipeFd ++ [gate1, gate0])), l.pids ++ [pid],
      l.pids ++ [pid], w₀.jobs⟩ w₂ := h₁.setpgid hq hled' (hc (by omega))
  rw [Prog.wp_bind]
  have hperm : (fdList p0 ++ (fdList p1 ++ (fdList l.pipeFd ++ [gate1, gate0]))).Perm
      (fdList l.pipeFd ++ (fdList p0 ++ (fdList p1 ++ [gate1, gate0]))) := by
    have := (@List.perm_append_comm _ (fdList p0 ++ fdList p1) (fdList l.pipeFd)).append_right [gate1, gate0]
    simpa only [List.append_assoc] using this
  refine wp_closeIf (h₂.perm hperm) rfl fun w₃ (h₃ : Launching w₀
    ⟨fdList p0 ++ (fdList p1 ++ [gate1, gate0]), l.pids ++ [pid], l.pids ++ [pid], w₀.jobs⟩ w₃) => ?_
  split
  · rename_i hnext
    have hp1 : fdList p1 = [p1.toNat] := if_pos (hmore hnext)
    rw [hp1] at h₃
    rw [Prog.wp_bind]
    apply wp_close (h₃.perm List.perm_middle) rfl
    intro w₄ h₄
    exact ⟨⟨h₄, Or.inr hled'⟩, by simp⟩
  · rename_i hnext
    obtain ⟨rfl, rfl⟩ := hlast (by simpa using hnext)
    exact ⟨⟨h₃, Or.inr hled'⟩, by simp⟩

/-- The loop: it fails and is undone, or there is a child for every command and the array is not full. -/
theorem wp_launchLoop (com : Command) {gate0 gate1 : ℕ} : ∀ (chain : List Command) {l : Launch} {w : World},
    LoopInv w₀ gate0 gate1 l w → Prog.wp (launchLoop gate0 gate1 chain l) (LaunchSpec com w₀ fun l' w' =>
      LoopInv w₀ gate0 gate1 l' w' ∧ l'.pids.length = l.pids.length + chain.length ∧
        (chain ≠ [] → l'.pids.length ≤ MAX_PIPELINE)) R w := by
  intro chain
  induction chain with
  | nil => exact fun h => ⟨h, rfl, by simp⟩
  | cons cmd next ih =>
    intro l w h
    unfold launchLoop
    split
    · exact wp_abort (by decide) h.launching
    rw [Prog.wp_bind]
    apply wp_stagePipe h.launching (fun w₁ h₁ => wp_abort (by decide) h₁)
    intro p0 p1 w₁ h1 h2 h3 h₁
    dsimp only
    rw [Prog.wp_bind]
    refine Prog.wp_mono (wp_launchStage com h₁ h.led (fun hn => ⟨h3 hn, h1 hn⟩) h2) (fun r w₂ h₂ => ?_)
      (fun _ h => h)
    cases r with
    | error e => exact h₂
    | ok l' =>
      refine Prog.wp_mono (ih h₂.1) ?_ (fun _ h => h)
      intro r w₃ h₃
      cases r with
      | error e => exact h₃
      | ok l'' =>
        obtain ⟨hinv, hlen, hmax⟩ := h₃
        rw [h₂.2] at hlen
        refine ⟨hinv, by rw [hlen, List.length_cons]; omega, fun _ => ?_⟩
        cases next with
        | nil =>
          rw [hlen, List.length_nil]
          omega
        | cons cmd' next => exact hmax (by simp)

/-- The opening of the gate in `execute_pipeline`. -/
theorem wp_releasePipeline {gate1 n : ℕ} {l : Launch} {c : Bytes} (hc : com.argv0 = some c)
    (hled : l.pids.head? = some l.pgid)
    (h : Launching w₀ ⟨[gate1], l.pids, l.pids,
      { Job.new n l.pgid c with processes := l.pids.map Process.new } :: w₀.jobs⟩ w)
    (ht : HandedOver com w₀ l.pgid w) :
    Prog.wp (releasePipeline com gate1 l w₀.term.initialized) (LaunchSpec com w₀ fun x w' =>
      x = (l, w₀.term.initialized) ∧ Launched com w₀ l.pgid l.pids w') R w := by
  have hpgid : 0 < l.pgid := h.pos _ (List.mem_of_head? hled)
  have hpids : Job.pids { Job.new n l.pgid c with processes := l.pids.map Process.new } = l.pids := by
    simp [Job.pids, Function.comp_def, Process.new]
  unfold releasePipeline
  rw [Prog.wp_bind]
  apply wp_openGate h rfl rfl hpids hled ht
  intro r w' h' hr
  split
  · -- a write has failed
    rw [Prog.wp_bind]
    apply wp_closeGate h' rfl
    intro w₁ h₁ _
    rw [Prog.wp_bind]
    apply wp_undoPipeline (h₁.undoable rfl)
    intro w₂ h₂
    rw [Prog.wp_bind]
    apply wp_undoJob h₂ rfl hpgid
    intro w₃ h₃
    split
    · rw [Prog.wp_bind]
      exact wp_undoTerminal h₃ fun r w₄ h₄ => ⟨by decide, h₄⟩
    · exact ⟨by decide, h₃⟩
  · rw [Prog.wp_bind]
    refine wp_closeGate h' rfl fun w₁ h₁ hb => ⟨rfl, h₁.launched rfl hc rfl hled ?_⟩
    obtain ⟨seg, hseg, hbytes⟩ := hr (by omega)
    obtain ⟨seg', hseg', hbytes'⟩ := hb seg hseg
    exact ⟨seg', hseg', hbytes'.trans hbytes⟩

/-- `execute_pipeline` from the loop to the opened gate. -/
theorem wp_registerPipeline (com : Command) {gate0 gate1 : ℕ} {l : Launch} (h : LoopInv w₀ gate0 gate1 l w)
    (hled : l.pids.head? = some l.pgid) :
    Prog.wp (registerPipeline com w₀.term.initialized gate0 gate1 l) (LaunchSpec com w₀ fun x w' =>
      x = (l, w₀.term.initialized) ∧ Launched com w₀ l.pgid l.pids w') R w := by
  have hpgid : 0 < l.pgid := h.launching.pos _ (List.mem_of_head? hled)
  unfold registerPipeline
  rw [Prog.wp_bind]
  refine wp_closeIf h.launching rfl
    fun w₁ (h₁ : Launching w₀ ⟨[gate1, gate0], l.pids, l.pids, w₀.jobs⟩ w₁) => ?_
  rw [Prog.wp_bind]
  refine wp_close (h₁.perm (List.Perm.swap gate0 gate1 [])) rfl
    fun w₂ (h₂ : Launching w₀ ⟨[gate1], l.pids, l.pids, w₀.jobs⟩ w₂) => ?_
  rw [Prog.wp_bind]
  refine wp_jobAdd h₂ (fun w₃ h₃ => ?_)
    fun w₃ n c hargv (h₃ : Launching w₀
      ⟨[gate1], l.pids, l.pids, Job.new n l.pgid c :: w₀.jobs⟩ w₃) => ?_
  · -- job_add has failed
    rw [if_pos (by decide), Prog.wp_bind]
    refine wp_close h₃ rfl fun w₄ (h₄ : Launching w₀ ⟨[], l.pids, l.pids, w₀.jobs⟩ w₄) => ?_
    rw [Prog.wp_bind]
    exact wp_undoPipeline (h₄.undoable com rfl) fun w₅ h₅ => ⟨by decide, h₅⟩
  rw [if_neg (by decide), Prog.wp_bind]
  let job (ps : List Int) : Job := { Job.new n l.pgid c with processes := ps.map Process.new }
  refine wp_processAddAll l.pids h₃ rfl h.launching.pos (fun qs w₄ h₄ => ?_)
    fun w₄ (h₄ : Launching w₀ ⟨[gate1], l.pids, l.pids, job l.pids :: w₀.jobs⟩ w₄) => ?_
  · -- a process_add has failed
    rw [if_pos (by decide), Prog.wp_bind]
    refine wp_close h₄ rfl fun w₅ (h₅ : Launching w₀
      ⟨[], l.pids, l.pids, job qs :: w₀.jobs⟩ w₅) => ?_
    rw [Prog.wp_bind]
    apply wp_undoPipeline (h₅.undoable com rfl)
    intro w₆ h₆
    rw [Prog.wp_bind]
    exact wp_undoJob h₆ rfl hpgid fun w₇ h₇ => ⟨by decide, h₇⟩
  rw [if_neg (by decide)]
  have release : ∀ w', Launching w₀ ⟨[gate1], l.pids, l.pids, job l.pids :: w₀.jobs⟩ w' →
      HandedOver com w₀ l.pgid w' → Prog.wp (releasePipeline com gate1 l w₀.term.initialized)
        (LaunchSpec com w₀ fun x w' =>
          x = (l, w₀.term.initialized) ∧ Launched com w₀ l.pgid l.pids w') R w' :=
    fun w' h' ht => wp_releasePipeline hargv hled h' ht
  split
  · rw [Prog.wp_bind]
    apply wp_terminalSetForeground
    intro r w₅ hq hc
    have h₅ := h₄.quiet hq
    dsimp only
    split
    · -- terminal_set_foreground has failed
      rw [Prog.wp_bind]
      refine wp_close h₅ rfl fun w₆ (h₆ : Launching w₀
        ⟨[], l.pids, l.pids, job l.pids :: w₀.jobs⟩ w₆) => ?_
      rw [Prog.wp_bind]
      apply wp_undoPipeline (h₆.undoable com rfl)
      intro w₇ h₇
      rw [Prog.wp_bind]
      apply wp_undoJob h₇ rfl hpgid
      intro w₈ h₈
      rw [Prog.wp_bind]
      exact wp_undoTerminal h₈ fun r w₉ h₉ => ⟨by decide, h₉⟩
    · exact release w₅ h₅ (handedOver_of_call h₄ (by omega) hc)
  · rename_i hfg
    exact release w₄ h₄ fun hb hi => absurd ⟨by simp [hb], hi⟩ hfg

/-- **`execute_pipeline` up to the opened gate**, for every chain: it always gets there or fails, and a
failure leaves nothing behind. -/
theorem wp_launchPipeline (com : Command) (next : List Command) (w : World) :
    Prog.wp (launchPipeline com next) (LaunchSpec com w fun x w' =>
      x.2 = w.term.initialized ∧ x.1.pids.length = next.length + 1 ∧ next.length + 1 ≤ MAX_PIPELINE ∧
        Launched com w x.1.pgid x.1.pids w') R w := by
  unfold launchPipeline
  rw [Prog.wp_bind]
  refine wp_startupGateCreate (Launching.start w) (fun w₁ h₁ => ?_)
    fun gate0 gate1 w₁ (h₁ : Launching w ⟨[gate1, gate0], [], [], w.jobs⟩ w₁) => ?_
  · exact ⟨by decide, h₁.undone com rfl rfl⟩
  dsimp only
  rw [Prog.wp_bind]
  unfold terminalIsInitialized
  rw [Prog.wp_get_bind, Prog.wp_pure, Prog.wp_bind, h₁.term]
  have hinv : LoopInv w gate0 gate1 { pipeFd := -1, pgid := 0, pids := [] } w₁ :=
    ⟨h₁, Or.inl ⟨rfl, rfl⟩⟩
  refine Prog.wp_mono (wp_launchLoop com (com :: next) hinv) ?_ (fun _ h => h)
  intro r w₂ h₂
  cases r with
  | error e => exact h₂
  | ok l =>
    obtain ⟨hl, hlen, hmax⟩ := h₂
    have hlen' : l.pids.length = next.length + 1 := by simpa using hlen
    have hled : l.pids.head? = some l.pgid := hl.led.resolve_left fun h => by simp [h.1] at hlen'
    refine Prog.wp_mono (wp_registerPipeline com hl hled) ?_ (fun _ h => h)
    intro r w₃ h₃
    cases r with
    | error e => exact h₃
    | ok x =>
      obtain ⟨rfl, hlaunched⟩ := h₃
      exact ⟨rfl, hlen', hlen' ▸ hmax (by simp), hlaunched⟩

end

end MiniShell
