import MiniShell.Spec.Record
import MiniShell.Spec.Terminal

/-!
# Every job keeps its own terminal modes

`lastStop steps w` is, after a run, the world in which a job last left the foreground by stopping, for every id.
`KeptModes` says that the modes saved in a job are the ones of that world if the shell could read them before anybody
changed them, whatever has become of the terminal since, and that a job that has never stopped in the foreground has
no modes.  `fg` sets the modes of its job, and the shell's own are in effect when it has none, `fg_modes`.
-/

namespace MiniShell

open MiniShell.Lib MiniShellError

/-! ### Leaving the foreground by stopping -/

/-- The foreground wait for `job` that starts in `w` returns with the job stopped: its id, and the world at the answer
of the wait. -/
def waitStop (job : Job) (w : World) : Option (ℕ × World) :=
  match jobWaitForeground job w with
  | .done (r, job') w' => if 0 ≤ r ∧ job'.status = .stopped then some (job.id, w') else none
  | .blocked _ => none

/-- The same for the job of a command that is launched by `m`. -/
def launchStop {α : Type} (com : Command) (m : Sh (Except Int α)) (w : World) : Option (ℕ × World) :=
  if com.background then none
  else
    match m w with
    | .done (.ok _) w' => (w'.jobs[0]?).bind fun job => waitStop job w'
    | _ => none

/-- The same for `execute_command`. -/
def commandStop (com : Command) (next : List Command) (w : World) : Option (ℕ × World) :=
  match checkJobLimit w with
  | .done r w =>
    if r ≠ ok then none
    else if next ≠ [] then launchStop com (launchPipeline com next) w
    else launchStop com (launchSingle com) w
  | .blocked _ => none

/-- The same for `builtin_fg`. -/
def fgStop (w : World) : Option (ℕ × World) :=
  match fgPrepare w with
  | .done (.ok (_, job)) w' => waitStop job w'
  | _ => none

/-- The same for `dispatcher_command`. -/
def dispatcherStop (cmd : Command) (next : List Command) (w : World) : Option (ℕ × World) :=
  match cmd.argv0 with
  | none => none
  | some name =>
    if next ≠ [] ∧ commandChainHasBuiltin (cmd :: next) then none
    else
      match builtinLookup name with
      | some .fg =>
        if cmd.background then none
        else
          match builtinApplyRedirect cmd w with
          | .done (ret, _) w' => if ret ≠ ok then none else fgStop w'
          | .blocked _ => none
      | some _ => none
      | none => commandStop cmd next w

def Step.stop : Step → World → Option (ℕ × World)
  | .command cmd next, w => dispatcherStop cmd next w
  | _, _ => none

/-- A job has left the foreground by stopping in this world. -/
def note (stops : ℕ → Option World) : Option (ℕ × World) → ℕ → Option World
  | none => stops
  | some (id, v) => Function.update stops id (some v)

/-- The world in which a job last left the foreground by stopping, in the run of `steps` from `w`; `stops` are the
ones before. -/
def lastStopFrom : List Step → World → (ℕ → Option World) → ℕ → Option World
  | [], _, stops => stops
  | step :: steps, w, stops =>
    match step.run w with
    | .done _ w' => lastStopFrom steps w' (note stops (step.stop w))
    | .blocked _ => stops

def lastStop (steps : List Step) (w : World) : ℕ → Option World := lastStopFrom steps w fun _ => none

/-- The modes that were in effect when a job last left the foreground by stopping. -/
def lastModes (steps : List Step) (w : World) (id : ℕ) : Option Termios :=
  (lastStop steps w id).map fun v => v.kernel.ttyModes

/-- `fg`, dispatched for `cmd` in `w`, starts to wait for `job` in `w'`. -/
def FgWaits (cmd : Command) (w : World) (job : Job) (w' : World) : Prop :=
  ∃ saved w₁ i, builtinApplyRedirect cmd w = .done (ok, saved) w₁ ∧ fgPrepare w₁ = .done (.ok (i, job)) w'

/-! ### What is assumed -/

/-- Whether the modes of the terminal have still to be read. -/
def readingNext (waits : Bool) : Event → Bool
  | .call (.tcgetattr .ok) _ _ => false
  | _ => waits

/-- Until then nobody changes them, and reading them does not fail for good. -/
def readingAllows (waits : Bool) : Event → Bool
  | .env (.ttyModes _) => !waits
  | .call (.tcgetattr (.err e)) _ _ => !waits || e == .EINTR
  | _ => true

def reading : Monitor Bool Event := ⟨readingNext, fun waits e => readingAllows waits e = true⟩

instance (waits : Bool) (e : Event) : Decidable (reading.allows waits e) :=
  inferInstanceAs (Decidable (readingAllows waits e = true))

/-- In the log from `v` to `w` the modes that were in effect in `v` are read before they change. -/
def ReadFrom (v w : World) : Prop := reading.Allows true (w.log.drop v.log.length)

instance (v w : World) : Decidable (ReadFrom v w) :=
  inferInstanceAs (Decidable (reading.Allows true (w.log.drop v.log.length)))

/-- Whether others have left the modes alone since the shell last set them or handed the terminal over. -/
def modesKept (log : List Event) : Bool :=
  log.foldl (fun kept e => match e with
    | .call (.tcsetpgrp _ .ok) _ _ | .call (.tcsetattr _ .ok) _ _ => true
    | .env (.ttyModes _) => false
    | _ => kept) true

/-! ### The modes in effect -/

section InEffect

variable {w₀ w w' : World} {modes : Termios}

theorem modesKept_env {log : List Event} {e : Env} (h : modesKept (log ++ [.env e]) = true) :
    modesKept log = true ∧ ∀ k : Kernel, (k.happen e).ttyModes = k.ttyModes := by
  unfold modesKept at h
  rw [List.foldl_append] at h
  cases e
  case ttyModes => exact absurd h Bool.false_ne_true
  all_goals exact ⟨h, fun _ => rfl⟩

theorem modesKept_call {log : List Event} {c : Call} (hc : ¬c.SetsTerminal) (k : Kernel) (js : List Job) :
    modesKept (log ++ [.call c k js]) = modesKept log := by
  unfold modesKept
  rw [List.foldl_append]
  cases c <;> first | rfl | exact absurd trivial hc

/-- These modes are in effect, unless others have changed the modes since the shell last touched the terminal. -/
def InEffect (modes : Termios) (w : World) : Prop := modesKept w.log = true → w.kernel.ttyModes = modes

theorem InEffect.env (h : InEffect modes w) (e : Env) :
    InEffect modes { w with kernel := w.kernel.happen e, log := w.log ++ [.env e] } := by
  intro hk
  obtain ⟨hk, he⟩ := modesKept_env hk
  exact (he w.kernel).trans (h hk)

theorem InEffect.call (h : InEffect modes w) {c : Call} {k : Kernel} (hc : ¬c.SetsTerminal)
    (hk : SameTerminal w.kernel k) : InEffect modes { w.record c with kernel := k } := by
  intro hkept
  have hkept : modesKept (w.log ++ [.call c w.kernel w.jobs]) = true := hkept
  rw [modesKept_call hc] at hkept
  exact hk.modes.trans (h hkept)

theorem InEffect.untouched (h : InEffect modes w) (hu : Untouched w w') : InEffect modes w' := by
  induction hu with
  | refl => exact h
  | env _ e ih => exact ih.env e
  | call _ hc hk ih => exact ih.call hc hk
  | vars _ _ _ ih => exact ih

/-- Since `w₀` the run has not been fair, or the modes of the shell are in effect. -/
def ShellModes (w₀ w : World) : Prop :=
  ∃ seg, Since w₀ seg w ∧ (FairTerminal w₀ seg → InEffect w₀.term.shellModes w)

theorem ShellModes.untouched (h : ShellModes w₀ w) (hu : Untouched w w') : ShellModes w₀ w' := by
  induction hu with
  | refl => exact h
  | @env w' _ e ih =>
    obtain ⟨seg, hs, hi⟩ := ih
    refine ⟨_, hs.snoc (c := w'.ctx) (s := w'.script) fun m hm => next_env _ m _ e hm, fun hf => ?_⟩
    exact (hi ((Monitor.allows_snoc _).mp hf).1).env e
  | @call w' _ c k hc hk ih =>
    obtain ⟨seg, hs, hi⟩ := ih
    refine ⟨_, hs.snoc (c := w'.ctx) (s := w'.script) fun m hm => ?_, fun hf => ?_⟩
    · rw [next_call _ _ _ _ hc, hk.pgrp]
      exact hm
    · exact (hi ((Monitor.allows_snoc _).mp hf).1).call hc hk
  | vars _ ctx script ih =>
    obtain ⟨seg, hs, hi⟩ := ih
    exact ⟨seg, ⟨hs.log, hs.term, hs.pgrp⟩, hi⟩

/-- The terminal is given to a job with the modes of the shell. -/
theorem wp_terminalSetForeground_modes (hready : w₀.term.Ready) (h : Mine w₀ w) (pgid : Int) :
    Prog.wp (terminalSetForeground pgid) (fun r w' => 0 ≤ r → ShellModes w₀ w') (fun _ => True) w := by
  unfold terminalSetForeground
  rw [Prog.wp_get_bind, h.lent.initialized hready, if_neg (by simp)]
  split
  · exact fun hr => absurd hr (by decide)
  · unfold terminalSetPgrp
    rw [Prog.wp_bind]
    refine wp_retry (Mine w₀) (fun w h => wp_syscall fun used c rest ht => ?_) h
    have hd := (untouched_drift used rest w).mine h
    have done : ∀ k : Kernel, k.ttyPgrp = pgid → k.ttyModes = (w.drift used rest).kernel.ttyModes →
        ShellModes w₀ { (w.drift used rest).record (.tcsetpgrp pgid .ok) with kernel := k } := by
      intro k hp hm
      obtain ⟨seg, hs, hown⟩ := hd
      refine ⟨_, hs.snoc fun _ _ => hp.symm, fun hf _ => ?_⟩
      show k.ttyModes = _
      rw [hm, (hown ((Monitor.allows_snoc _).mp hf).1).modes, hs.term]
    cases c with
    | fail e =>
      have hm : Mine w₀ ((w.drift used rest).record (.tcsetpgrp pgid (.err e))) :=
        hd.event rest w.ctx (fun _ hm => hm) fun _ _ _ => .refl _
      exact ⟨fun _ => ⟨hm, ht.length_lt (by simp)⟩, fun _ hr => absurd hr (by decide)⟩
    | ok => exact ⟨nofun, fun _ _ => done _ rfl rfl⟩
    | pick n => exact ⟨nofun, fun _ _ => done _ rfl rfl⟩

theorem wp_terminalSetModes_inEffect (hinit : w.term.initialized = true) (modes : Termios) :
    Prog.wp (terminalSetModes modes) (fun r w' => 0 ≤ r → InEffect modes w') (fun _ => True) w := by
  have done (w : World) (k : Kernel) (hk : k.ttyModes = modes) :
      InEffect modes { w.record (.tcsetattr modes .ok) with kernel := k } := fun _ => hk
  unfold terminalSetModes
  rw [Prog.wp_get_bind, hinit, if_neg (by simp), Prog.wp_bind]
  refine wp_retry (fun _ => True) (fun w _ => wp_syscall fun used c rest ht => ?_) trivial
  cases c with
  | fail e => exact ⟨fun _ => ⟨trivial, ht.length_lt (by simp)⟩, fun _ hr => absurd hr (by decide)⟩
  | ok => exact ⟨nofun, fun _ _ => done _ _ rfl⟩
  | pick n => exact ⟨nofun, fun _ _ => done _ _ rfl⟩

/-- The modes of a job are set when it has any. -/
theorem wp_fgSetModes_inEffect (hinit : w.term.initialized = true) (job : Job) :
    Prog.wp (fgSetModes job) (fun r w' => 0 ≤ r →
        (∀ modes, job.savedModes = some modes → InEffect modes w') ∧
      (job.savedModes = none → w' = w)) (fun _ => True) w := by
  unfold fgSetModes Job.savedModes
  split
  · refine Prog.wp_mono (wp_terminalSetModes_inEffect hinit job.terminalModes) ?_ fun _ h => h
    intro r w' h hr
    exact ⟨fun modes hm => Option.some.inj hm ▸ h hr, nofun⟩
  · exact fun _ => ⟨nofun, fun _ => rfl⟩

theorem Untouched.term (h : Untouched w w') : w'.term = w.term := by
  induction h with
  | refl => rfl
  | env _ _ ih => exact ih
  | call _ _ _ ih => exact ih
  | vars _ _ _ ih => exact ih

/-- **`fg` starts to wait with the modes of its job in effect, or those of the shell when the job has none.** -/
theorem wp_fgPrepare_modes (hready : w₀.term.Ready) (hterm : w.term = w₀.term) :
    Prog.wp fgPrepare (fun r w' => match r with
      | .error _ => True
      | .ok (i, job) => (∃ job₀, w.jobs[i]? = some job₀ ∧ SameRecord job₀ job) ∧
        (∀ modes, job.savedModes = some modes → InEffect modes w') ∧
        (job.savedModes = none → Mine w₀ w → ShellModes w₀ w')) (fun _ => True) w := by
  unfold fgPrepare
  rw [Prog.wp_get_bind]
  split
  · trivial
  · rename_i i job hf
    have handed : Prog.wp (terminalSetForeground job.pgid)
        (fun r w' => 0 ≤ r → Mine w₀ w → ShellModes w₀ w') (fun _ => True) w := by
      by_cases hm : Mine w₀ w
      · exact Prog.wp_mono (wp_terminalSetForeground_modes hready hm job.pgid)
          (fun _ _ h hr _ => h hr) fun _ h => h
      · exact Prog.wp_mono ((closed_terminalSetForeground sameTerm_tty job.pgid).wp w)
          (fun _ _ _ _ h => absurd h hm)
          fun _ _ => trivial
    rw [Prog.wp_bind]
    refine Prog.wp_mono (Prog.wp_and handed ((closed_terminalSetForeground sameTerm_tty job.pgid).wp w))
      ?_ fun _ _ => trivial
    intro r w₁ h₁
    obtain ⟨hhand, hterm₁⟩ := h₁
    split
    · trivial
    · rw [Prog.wp_bind]
      have hinit : w₁.term.initialized = true := by
        rw [hterm₁, hterm]
        exact hready.initialized
      refine Prog.wp_mono (wp_fgSetModes_inEffect hinit job) ?_ fun _ h => h
      intro r' w₂ h₂
      split
      · exact Prog.wp_bind_done fun _ _ _ => trivial
      · obtain ⟨hown, hnone⟩ := h₂ (by omega)
        have off : OffTerminal (fgContinue job) :=
          offTerminal_closed.ite (fun _ => closed_jobContinue offTerminal_closed job) fun _ =>
            offTerminal_closed.pure _
        apply Prog.wp_bind_done
        intro x w₃ hx
        have hsame := Prog.wp_done (returnsRecord_fgContinue job w₂) hx
        have hu := off w₂
        rw [hx] at hu
        dsimp only
        split
        · exact Prog.wp_bind_done fun _ _ _ => trivial
        · rw [Prog.wp_modify_bind, Prog.wp_pure]
          have hu : Untouched w₂ (w₃.updateJob i fun _ => x.2) :=
            hu.trans (closed_updateJob offTerminal_vars i (fun _ => x.2) w₃)
          refine ⟨⟨job, (findJob_spec hf).1, hsame⟩, fun modes hm => ?_, fun hm hmine => ?_⟩
          · exact (hown modes (hsame.modes ▸ hm)).untouched hu
          · have h₂ : ShellModes w₀ w₂ := by
              rw [hnone (hsame.modes ▸ hm)]
              exact hhand (by omega) hmine
            exact h₂.untouched hu

end InEffect

/-! ### The modes that are saved -/

/-- What is saved in a job, in `w`, when `stop` is the world in which it last left the foreground by stopping: nothing
without one, and otherwise the modes of that world if they were read before they changed. -/
def SavedFrom (stop : Option World) (saved : Option Termios) (w : World) : Prop :=
  match stop with
  | none => saved = none
  | some v => v.log <+: w.log ∧ (ReadFrom v w → saved = some v.kernel.ttyModes)

/-- The jobs hold the modes that are saved from the worlds `stops`. -/
def KeptModes (stops : ℕ → Option World) (w : World) : Prop :=
  ∃ saved, Recorded saved w.ctx.jobs ∧ ∀ id, SavedFrom (stops id) (saved id) w

section KeptModes

variable {w w' v : World} {stops : ℕ → Option World} {job : Job} {i : ℕ} {α : Type}

theorem ReadFrom.earlier {seg : List Event} (hlog : w.log = v.log ++ seg) :
    ReadFrom v w ↔ reading.Allows true seg := by
  unfold ReadFrom
  rw [hlog, List.drop_left]

theorem SavedFrom.later {stop : Option World} {saved : Option Termios} (h : SavedFrom stop saved w)
    (hlog : w.log <+: w'.log) : SavedFrom stop saved w' := by
  cases stop with
  | none => exact h
  | some v =>
    obtain ⟨⟨seg, hseg⟩, hsaved⟩ := h
    obtain ⟨more, hmore⟩ := hlog
    have hlog' : w'.log = v.log ++ (seg ++ more) := by rw [← hmore, ← hseg, List.append_assoc]
    refine ⟨⟨_, hlog'.symm⟩, fun hread => hsaved ?_⟩
    rw [ReadFrom.earlier hseg.symm]
    rw [ReadFrom.earlier hlog'] at hread
    exact (Monitor.allows_append _).mp hread |>.1

theorem KeptModes.step (h : KeptModes stops w) (hlog : w.log <+: w'.log)
    (hr : ∀ saved, Recorded saved w.ctx.jobs → Recorded saved w'.ctx.jobs) : KeptModes stops w' := by
  obtain ⟨saved, hrec, hall⟩ := h
  exact ⟨saved, hr saved hrec, fun id => (hall id).later hlog⟩

theorem KeptModes.keep {m : Sh α} (h : KeptModes stops w) (hk : KeepsRecord m) (hl : LogGrows m) :
    Prog.wp m (fun _ => KeptModes stops) (fun _ => True) w := by
  have hstate : KeptModes stops (m w).state := h.step (hl w) fun saved => hk saved w
  unfold Prog.wp
  cases hw : m w with
  | done a w' =>
    rw [hw] at hstate
    exact hstate
  | blocked w' => trivial

/-- The modes `modes` are put into the job at `i`. -/
theorem Recorded.save {saved : ℕ → Option Termios} {modes : Termios} {t : JobManager} (h : Recorded saved t)
    (hi : t.head[i]? = some job) :
    Recorded (Function.update saved job.id (some modes))
      { t with head := t.head.set i { job with terminalModes := modes, terminalModesValid := true } } := by
  have hlt : i < t.head.length := (List.getElem?_eq_some_iff.mp hi).1
  have hsame : List.Forall₂ (fun a b : Job => b.id = a.id) t.head
      (t.head.set i { job with terminalModes := modes, terminalModesValid := true }) :=
    forall₂_set (r := fun a b : Job => b.id = a.id) (fun _ => rfl) hi rfl
  have hmem : job ∈ t.head := List.mem_of_getElem? hi
  refine ⟨?_, fun job' hj => ?_, fun job' hj => ?_, fun id hid => ?_⟩
  · exact (forall₂_map_eq (fun _ _ h => h) hsame) ▸ h.nodup
  · obtain ⟨job₀, hm, hid⟩ := forall₂_mem_right hsame hj
    exact hid ▸ h.below job₀ hm
  · obtain ⟨j, hget⟩ := List.mem_iff_getElem?.mp hj
    by_cases hji : i = j
    · subst hji
      rw [List.getElem?_set_self hlt] at hget
      cases hget
      exact (Function.update_self (f := saved) job.id (some modes)).symm
    · -- another job has another id
      rw [List.getElem?_set_ne hji] at hget
      have hne : job'.id ≠ job.id := fun he => hji ((List.getElem?_inj (by simpa using hlt) h.nodup).mp
        (by rw [List.getElem?_map, List.getElem?_map, hi, hget]; exact congrArg some he.symm))
      rw [h.modes job' (List.mem_of_getElem? hget)]
      exact (Function.update_of_ne hne ..).symm
  · have hid : t.nextid ≤ id := hid
    have hne : id ≠ job.id := fun he => absurd (h.below job hmem) (by omega)
    exact (Function.update_of_ne hne ..).trans (h.fresh id hid)

/-- Nobody has changed the modes of `w` since, and they have not been read yet. -/
def Unread (w w' : World) : Prop :=
  ∃ seg, w'.log = w.log ++ seg ∧
    (reading.Allows true seg → w'.kernel.ttyModes = w.kernel.ttyModes ∧ reading.after true seg = true)

theorem Unread.drift (h : Unread w w') (used rest : List Item) : Unread w (w'.drift used rest) := by
  refine drift_invariant ?_ (fun _ _ h => h) used rest h
  intro w' e h
  obtain ⟨seg, hseg, hu⟩ := h
  refine ⟨seg ++ [.env e], by simp [hseg], fun ha => ?_⟩
  obtain ⟨ha, he⟩ := (Monitor.allows_snoc _).mp ha
  obtain ⟨hm, hw⟩ := hu ha
  rw [hw] at he
  rw [Monitor.after_snoc, hw]
  cases e
  case ttyModes => exact absurd he (by simp [reading, readingAllows])
  all_goals exact ⟨hm, rfl⟩

/-- Reading the modes gives the ones of the start, if nobody changes them before. -/
theorem wp_terminalGetModes_read (hinit : w.term.initialized = true) (old : Termios) :
    Prog.wp (terminalGetModes old) (fun x w' => ∃ seg, w'.log = w.log ++ seg ∧
      (reading.Allows true seg → x = (0, w.kernel.ttyModes))) (fun _ => True) w := by
  unfold terminalGetModes
  rw [Prog.wp_get_bind, hinit, if_neg (by simp)]
  refine Prog.wp_loop_partial (fun _ => Unread w) (fun _ w₁ h => ?_) () w
    ⟨[], by simp, fun _ => ⟨rfl, rfl⟩⟩
  rw [Prog.wp_bind]
  apply wp_syscall
  intro used c rest _
  obtain ⟨seg, hseg, hu⟩ := h.drift used rest
  generalize w₁.drift used rest = w₂ at *
  have hlog (r : Res) : (w₂.record (.tcgetattr r)).log =
      w.log ++ (seg ++ [.call (.tcgetattr r) w₂.kernel w₂.jobs]) := by
    rw [← List.append_assoc, ← hseg]
    rfl
  cases c with
  | fail e =>
    have hallows (ha : reading.Allows true (seg ++ [.call (.tcgetattr (.err e)) w₂.kernel w₂.jobs])) :
        w₂.kernel.ttyModes = w.kernel.ttyModes ∧ reading.after true seg = true ∧ e = .EINTR := by
      obtain ⟨ha, he⟩ := (Monitor.allows_snoc _).mp ha
      rw [(hu ha).2] at he
      exact ⟨(hu ha).1, (hu ha).2, by simpa [reading, readingAllows] using he⟩
    cases e
    case EINTR =>
      refine ⟨_, hlog _, fun ha => ⟨(hallows ha).1, ?_⟩⟩
      rw [Monitor.after_snoc, (hallows ha).2.1]
      rfl
    all_goals exact ⟨_, hlog _, fun ha => nomatch (hallows ha).2.2⟩
  | ok => exact ⟨_, hlog .ok, fun ha => by rw [← (hu ((Monitor.allows_snoc _).mp ha).1).1]⟩
  | pick n => exact ⟨_, hlog .ok, fun ha => by rw [← (hu ((Monitor.allows_snoc _).mp ha).1).1]⟩

/-- **The modes of a job that has stopped are saved**: `v` is the world at the answer of the wait. -/
theorem wp_saveTerminalModes_kept (hinit : w.term.initialized = true) (h : KeptModes stops w)
    (hi : w.jobs[i]? = some job) (hlog : v.log = w.log) (hmodes : v.kernel.ttyModes = w.kernel.ttyModes) :
    Prog.wp (saveTerminalModes i job) (fun _ => KeptModes (note stops (some (job.id, v)))) (fun _ => True) w := by
  unfold saveTerminalModes
  rw [Prog.wp_bind]
  have hcalls := closed_terminalGetModes (K := fun _ m =>
    Prog.Keeps World.ctx m) sameCtx_tty.toClosed job.terminalModes
  refine Prog.wp_mono (Prog.wp_and (wp_terminalGetModes_read hinit job.terminalModes) (hcalls.wp w))
    ?_
    fun _ _ => trivial
  intro x w' hx
  obtain ⟨⟨seg, hseg, hread⟩, hctx⟩ := hx
  obtain ⟨saved, hrec, hall⟩ := h
  have hi' : w'.ctx.jobs.head[i]? = some job := hctx ▸ hi
  have hprefix : w.log <+: w'.log := ⟨seg, hseg.symm⟩
  -- the other jobs are not concerned
  have others (saved' : Option Termios) (hjob : ReadFrom v w' → saved' = some v.kernel.ttyModes) (id : ℕ) :
      SavedFrom (note stops (some (job.id, v)) id) (Function.update saved job.id saved' id) w' := by
    show SavedFrom (Function.update stops job.id (some v) id) _ w'
    by_cases hid : id = job.id
    · subst hid
      rw [Function.update_self, Function.update_self]
      exact ⟨hlog ▸ hprefix, hjob⟩
    · rw [Function.update_of_ne hid, Function.update_of_ne hid]
      exact (hall id).later hprefix
  have hread' (hr : ReadFrom v w') : x = (0, v.kernel.ttyModes) := by
    rw [hmodes]
    exact hread ((ReadFrom.earlier (hlog ▸ hseg)).mp hr)
  dsimp only
  split
  · have hset : (w'.updateJob i fun job =>
      { job with terminalModes := x.2, terminalModesValid := true }).ctx.jobs =
        { w'.ctx.jobs with
          head := w'.ctx.jobs.head.set i { job with terminalModes := x.2, terminalModesValid := true } } := by
      simp only [World.updateJob, World.setJobs, World.updateManager, World.jobs, List.modify_eq_set_getElem?, hi']
      rfl
    refine ⟨Function.update saved job.id (some x.2), ?_, others (some x.2) fun hr => by rw [hread' hr]⟩
    rw [hset]
    exact (hctx ▸ hrec : Recorded saved w'.ctx.jobs).save hi'
  · rename_i hr
    refine ⟨saved, hctx ▸ hrec, ?_⟩
    have := others (saved job.id) fun hread => absurd (congrArg Prod.fst (hread' hread)) hr
    rwa [Function.update_eq_self] at this

/-! ### The commands -/

theorem finishForegroundJob_eq (hi : w.jobs[i]? = some job) : finishForegroundJob i true w = fgFinish i job w := by
  have hget : (Prog.get : Sh World) w = .done w w := rfl
  unfold finishForegroundJob
  rw [Prog.bind_done hget, hi]
  simp only [true_and, if_true]
  rfl

/-- The end of a foreground wait that has succeeded, where `v` is the world at its answer. -/
theorem wp_fgFinish_kept (hinit : w.term.initialized = true) (h : KeptModes stops w) (hi : w.jobs[i]? = some job)
    (hlog : v.log = w.log) (hmodes : v.kernel.ttyModes = w.kernel.ttyModes) :
    Prog.wp (fgFinish i job)
      (fun _ => KeptModes (if job.status = .stopped then note stops (some (job.id, v)) else stops))
      (fun _ => True) w := by
  have rest : KeepsRecord (terminalRestore >>= finishRestored job) :=
    (closed_terminalRestore keepsRecord_tty).bind fun _ => closed_finishRestored keepsRecord_table _ _
  have restLog : LogGrows (terminalRestore >>= finishRestored job) :=
    (closed_terminalRestore logGrows_tty).bind fun _ => closed_finishRestored logGrows_vars.table _ _
  unfold fgFinish
  split
  · rw [Prog.wp_bind]
    exact Prog.wp_mono (wp_saveTerminalModes_kept hinit h hi hlog hmodes)
      (fun _ _ h => h.keep rest restLog) fun _ h => h
  · exact h.keep rest restLog

/-- A foreground wait, and what is done after it: `fail` when it has failed. -/
theorem wp_wait_kept {β : Type} {f : Int → Job → Sh β} (hinit : w.term.initialized = true)
    (h : KeptModes stops w) (hi : w.jobs[i]? = some job)
    (hfail : ∀ r job' w', r < 0 → KeptModes stops w' → Prog.wp (f r job') (fun _ => KeptModes stops)
      (fun _ => True) w')
    (hok : ∀ r job' v w', 0 ≤ r → w'.term.initialized = true → KeptModes stops w' →
      w'.jobs[i]? = some job' →
      v.log = w'.log → v.kernel.ttyModes = w'.kernel.ttyModes →
      Prog.wp (f r job') (fun _ => KeptModes (if job'.status = .stopped
          then note stops (some (job'.id, v)) else stops))
        (fun _ => True) w') :
    Prog.wp (do
      let (r, job) ← jobWaitForeground job
      Prog.modify (World.updateJob i fun _ => job)
      f r job) (fun _ => KeptModes (note stops (waitStop job w))) (fun _ => True) w := by
  have hcalls := closed_jobWaitForeground (K := fun _ m => Prog.Keeps World.ctx m) sameCtx_tty.toClosed job
  have hlog := closed_jobWaitForeground (K := fun _ m => LogGrows m) logGrows_tty.toClosed job w
  have hterm := closed_jobWaitForeground (K := fun _ m => Prog.Keeps World.term m) sameTerm_tty.toClosed job w
  apply Prog.wp_bind_done
  intro x v hx
  obtain ⟨r, job'⟩ := x
  obtain ⟨hsame, hctx, hput⟩ := Prog.wp_done ((returnsRecord_jobWaitForeground job).put hcalls hi) hx
  rw [hx] at hlog hterm
  have hkept : KeptModes stops (v.updateJob i fun _ => job') := h.step hlog hput
  have hinit' : (v.updateJob i fun _ => job').term.initialized = true :=
    (congrArg Terminal.initialized hterm).trans hinit
  have hi₁ : v.jobs[i]? = some job := (congrArg (fun ctx => ctx.jobs.head[i]?) hctx).trans hi
  have hget : (v.updateJob i fun _ => job').jobs[i]? = some job' := updateJob_get hi₁ fun _ => job'
  have hstop : waitStop job w = if 0 ≤ r ∧ job'.status = .stopped then some (job.id, v) else none := by
    unfold waitStop
    rw [hx]
  dsimp only
  rw [Prog.wp_modify_bind, hstop]
  by_cases hr : 0 ≤ r
  · have hgood := hok r job' v (v.updateJob i fun _ => job') hr hinit' hkept hget rfl rfl
    rw [hsame.id] at hgood
    by_cases hst : job'.status = .stopped
    · rw [if_pos hst] at hgood
      rwa [if_pos ⟨hr, hst⟩]
    · rw [if_neg hst] at hgood
      rwa [if_neg fun h => hst h.2]
  · rw [if_neg fun h => hr h.1]
    exact hfail r job' _ (by omega) hkept

theorem wp_builtinFg_kept (hinit : w.term.initialized = true) (h : KeptModes stops w) :
    Prog.wp builtinFg (fun _ => KeptModes (note stops (fgStop w))) (fun _ => True) w := by
  apply Prog.wp_bind_done
  intro x w₁ hx
  have hlog := closed_fgPrepare logGrows_vars logGrows_tty w
  have hterm := closed_fgPrepare sameTerm_vars sameTerm_tty w
  have hkeep (saved : ℕ → Option Termios) := keepsRecord_fgPrepare saved w
  rw [hx] at hlog hterm
  simp only [hx] at hkeep
  have hkept : KeptModes stops w₁ := h.step hlog hkeep
  cases x with
  | error e =>
    have hstop : fgStop w = none := by
      unfold fgStop
      rw [hx]
    rw [hstop]
    exact hkept
  | ok x =>
    obtain ⟨i, job⟩ := x
    have hstop : fgStop w = waitStop job w₁ := by
      unfold fgStop
      rw [hx]
    obtain ⟨-, hget, -⟩ := Prog.wp_done (wp_fgPrepare (R := fun _ => True) w) hx
    rw [hstop]
    refine wp_wait_kept (f := fun r job => if r < 0 then do
        let _ ← terminalRestore
        pure errUnknown
      else fgFinish i job) ((congrArg Terminal.initialized hterm).trans hinit) hkept hget
        (fun r job' w' hr h' => ?_)
      fun r job' v w' hr hinit' h' hi' hl hm => ?_
    · rw [if_pos hr]
      exact h'.keep ((closed_terminalRestore keepsRecord_tty).bind fun _ => keepsRecord_tty.pure _)
        ((closed_terminalRestore logGrows_tty).bind fun _ => logGrows_tty.pure _)
    · rw [if_neg (by omega)]
      exact wp_fgFinish_kept hinit' h' hi' hl hm

theorem wp_waitPipeline_kept {com : Command} (hb : com.background = false) (hinit : w.term.initialized = true)
    (h : KeptModes stops w) {js : List Job} (hjobs : w.jobs = job :: js) (l : Launch) :
    Prog.wp (waitPipeline com l true) (fun _ => KeptModes (note stops (waitStop job w))) (fun _ => True) w := by
  have hi : w.jobs[0]? = some job := by rw [hjobs]; rfl
  unfold waitPipeline
  rw [hb, if_neg (by simp), Prog.wp_get_bind, hi]
  refine wp_wait_kept (i := 0) (f := fun r _ => if r < 0 then do
      rollbackPipeline l.pgid l.pids
      if true then
        let _ ← terminalRestore
      jobRemoveM l.pgid
      pure errUnknown
    else finishForegroundJob 0 true) hinit h hi (fun r job' w' hr h' => ?_)
    fun r job' v w' hr hinit' h' hi' hl hm => ?_
  · rw [if_pos hr, if_pos rfl]
    exact h'.keep
      ((closed_rollbackPipeline keepsRecord_table.toClosed _ _).bind fun _ =>
        (closed_terminalRestore keepsRecord_tty).bind fun _ => (keepsRecord_table.remove _).bind fun _ =>
          keepsRecord_tty.pure _)
      ((closed_rollbackPipeline logGrows_tty.toClosed _ _).bind fun _ =>
        (closed_terminalRestore logGrows_tty).bind fun _ => (logGrows_vars.table.remove _).bind fun _ =>
          logGrows_tty.pure _)
  · rw [if_neg (by omega)]
    unfold Prog.wp
    rw [finishForegroundJob_eq hi']
    exact wp_fgFinish_kept hinit' h' hi' hl hm

/-- A command in the foreground, from its launch on. -/
theorem wp_launch_kept {com : Command} (hb : com.background = false) (hinit : w.term.initialized = true)
    (h : KeptModes stops w) {m : Sh (Except Int (α × Bool))} {f : Except Int (α × Bool) → Sh Int}
    (hm : KeepsRecord m) (hlog : LogGrows m) (hterm : Prog.Keeps World.term m)
    (hlaunch : ∀ x w', m w = .done (.ok x) w' → x.2 = w.term.initialized ∧
      ∃ pgid ps, Launched com w pgid ps w')
    (herr : ∀ e, f (.error e) = pure e)
    (hwait : ∀ x w', m w = .done (.ok (x, true)) w' → ∃ l, f (.ok (x, true)) = waitPipeline com l true) :
    Prog.wp (m >>= f) (fun _ => KeptModes (note stops (launchStop com m w))) (fun _ => True) w := by
  apply Prog.wp_bind_done
  intro x w₁ hx
  have hgrow := hlog w
  have hterm := hterm w
  have hkeep (saved : ℕ → Option Termios) := hm saved w
  rw [hx] at hgrow hterm
  simp only [hx] at hkeep
  have hkept : KeptModes stops w₁ := h.step hgrow hkeep
  cases x with
  | error e =>
    have hstop : launchStop com m w = none := by
      unfold launchStop
      rw [hb, if_neg (by simp), hx]
    rw [hstop, herr]
    exact hkept
  | ok x =>
    obtain ⟨x, active⟩ := x
    obtain ⟨hactive, pgid, ps, hl⟩ := hlaunch _ _ hx
    obtain rfl : active = true := hactive.trans hinit
    obtain ⟨job, hjobs, -⟩ := hl.jobs
    have hstop : launchStop com m w = waitStop job w₁ := by
      unfold launchStop
      rw [hb, if_neg (by simp), hx]
      simp only [hjobs]
      rfl
    obtain ⟨l, hf⟩ := hwait x w₁ hx
    rw [hstop, hf]
    exact wp_waitPipeline_kept hb ((congrArg Terminal.initialized hterm).trans hinit) hkept hjobs l

/-- A command in the background is not waited for. -/
theorem wp_background_kept {com : Command} (hb : com.background = true) (h : KeptModes stops w)
    {m : Sh (Except Int α)} {f : Except Int α → Sh Int} (hm : KeepsRecord m) (hlog : LogGrows m)
    (hf : ∀ r, ∃ e, f r = pure e) :
    Prog.wp (m >>= f) (fun _ => KeptModes (note stops (launchStop com m w))) (fun _ => True) w := by
  have hstop : launchStop com m w = none := by
    unfold launchStop
    rw [if_pos hb]
  rw [hstop, Prog.wp_bind]
  refine Prog.wp_mono (h.keep hm hlog) ?_ fun _ h => h
  intro r w' h'
  obtain ⟨e, he⟩ := hf r
  rw [he]
  exact h'

theorem wp_executePipeline_kept (com : Command) (next : List Command) (hinit : w.term.initialized = true)
    (h : KeptModes stops w) :
    Prog.wp (executePipeline com next) (fun _ =>
        KeptModes (note stops (launchStop com (launchPipeline com next) w)))
      (fun _ => True) w := by
  have keep : KeepsRecord (launchPipeline com next) :=
    closed_launchPipeline (K := fun _ m => KeepsRecord m) keepsRecord_table (fun _ => keepsRecord_tty) next
  have grow : LogGrows (launchPipeline com next) :=
    closed_launchPipeline (K := fun _ m => LogGrows m) logGrows_vars.table (fun _ => logGrows_tty) next
  have term : Prog.Keeps World.term (launchPipeline com next) :=
    closed_launchPipeline (K := fun _ m => Prog.Keeps World.term m) sameTerm_vars.table (fun _ => sameTerm_tty) next
  cases hb : com.background with
  | true =>
    apply wp_background_kept hb h keep grow
    intro r
    cases r with
    | error e => exact ⟨e, rfl⟩
    | ok x => exact ⟨ok, if_pos hb⟩
  | false =>
    refine wp_launch_kept hb hinit h keep grow term ?_ (fun _ => rfl) fun l _ _ => ⟨l, rfl⟩
    intro x w' hx
    obtain ⟨hactive, -, -, hl⟩ := Prog.wp_done (wp_launchPipeline (R := fun _ => True) com next w) hx
    exact ⟨hactive, _, _, hl⟩

theorem wp_executeSingle_kept (com : Command) (hinit : w.term.initialized = true) (h : KeptModes stops w) :
    Prog.wp (executeSingle com) (fun _ => KeptModes (note stops (launchStop com (launchSingle com) w)))
      (fun _ => True) w := by
  have keep : KeepsRecord (launchSingle com) :=
    closed_launchSingle (K := fun _ m => KeepsRecord m) keepsRecord_table fun _ => keepsRecord_tty
  have grow : LogGrows (launchSingle com) :=
    closed_launchSingle (K := fun _ m => LogGrows m) logGrows_vars.table fun _ => logGrows_tty
  have term : Prog.Keeps World.term (launchSingle com) :=
    closed_launchSingle (K := fun _ m => Prog.Keeps World.term m) sameTerm_vars.table fun _ => sameTerm_tty
  cases hb : com.background with
  | true =>
    apply wp_background_kept hb h keep grow
    intro r
    cases r with
    | error e => exact ⟨e, rfl⟩
    | ok x => exact ⟨ok, if_pos hb⟩
  | false =>
    have launched (x : Int × Bool) (w' : World) (hx : launchSingle com w = .done (.ok x) w') :
        x.2 = w.term.initialized ∧ Launched com w x.1 [x.1] w' := by
      have hspec := Prog.wp_done (wp_launchSingle (R := fun _ => True) com w) hx
      exact hspec
    refine wp_launch_kept hb hinit h keep grow term
      (fun x w' hx => ⟨(launched x w' hx).1, _, _, (launched x w' hx).2⟩)
      (fun _ => rfl) fun pid w' hx => ⟨_, waitSingle_eq com ?_ true⟩
    exact (launched _ _ hx).2.pos pid (List.mem_singleton_self _)

theorem wp_executeCommand_kept (com : Command) (next : List Command) (hinit : w.term.initialized = true)
    (h : KeptModes stops w) :
    Prog.wp (executeCommand com next) (fun _ => KeptModes (note stops (commandStop com next w)))
      (fun _ => True) w := by
  obtain ⟨r, hlimit⟩ : ∃ r, checkJobLimit w = .done r w := by
    unfold checkJobLimit
    rw [Prog.bind_apply]
    dsimp only [Prog.get]
    split <;> exact ⟨_, rfl⟩
  have hstop : commandStop com next w = if r ≠ ok then none
      else if next ≠ [] then launchStop com (launchPipeline com next) w
      else launchStop com (launchSingle com) w := by
    unfold commandStop
    rw [hlimit]
  apply Prog.wp_bind_done
  intro r' w' hr
  obtain ⟨rfl, rfl⟩ : r = r' ∧ w = w' := by simpa [hlimit] using hr
  rw [hstop]
  split
  · exact h
  · split
    · exact wp_executePipeline_kept com next hinit h
    · exact wp_executeSingle_kept com hinit h

end KeptModes

/-! ### The run -/

/-- The shell knows its terminal, the terminal is the shell's if it was at the start and the run has been fair, and the
jobs keep their modes. -/
structure Tracks (w₀ : World) (stops : ℕ → Option World) (w : World) : Prop where
  term : w.term = w₀.term
  mine : w₀.OwnsTerminal → Mine w₀ w
  kept : KeptModes stops w

section Run

variable {w₀ w w' : World} {stops : ℕ → Option World} {job : Job} {α : Type}

theorem Tracks.initialized (hready : w₀.term.Ready) (h : Tracks w₀ stops w) : w.term.initialized = true := by
  rw [h.term]
  exact hready.initialized

/-- The parts of an invariant of a program, put together. -/
theorem Tracks.of_parts {m : Sh α} (h : Tracks w₀ stops w) {stops' : ℕ → Option World}
    (hterm : Prog.Keeps World.term m) (hmine : Mine w₀ w → Prog.wp m (fun _ => Mine w₀) (fun _ => True) w)
    (hkept : Prog.wp m (fun _ => KeptModes stops') (fun _ => True) w) :
    Prog.wp m (fun _ => Tracks w₀ stops') (fun _ => True) w := by
  have mine : Prog.wp m (fun _ w' => w₀.OwnsTerminal → Mine w₀ w') (fun _ => True) w := by
    by_cases hown : w₀.OwnsTerminal
    · exact Prog.wp_mono (hmine (h.mine hown)) (fun _ _ h _ => h) fun _ h => h
    · exact Prog.wp_mono (hterm.wp w) (fun _ _ _ h => absurd h hown) fun _ _ => trivial
  refine Prog.wp_mono (Prog.wp_and (hterm.wp w) (Prog.wp_and mine hkept)) ?_ fun _ _ => trivial
  intro _ w' h'
  exact ⟨h'.1.trans h.term, h'.2.1, h'.2.2⟩

/-- A program that has nothing to do with the terminal. -/
theorem Tracks.keep {m : Sh α} (h : Tracks w₀ stops w) (hoff : OffTerminal m) (hk : KeepsRecord m)
    (hl : LogGrows m) : Prog.wp m (fun _ => Tracks w₀ stops) (fun _ => True) w :=
  h.of_parts (fun w => (hoff w).term) (fun hm => hoff.wp_mine hm fun _ _ h => h) (h.kept.keep hk hl)

theorem Tracks.closed {m : Sh α} (h : Tracks w₀ stops w)
    (hm : ∀ {K : (α : Type) → Sh α → Prop}, ClosedTable K → K α m) :
    Prog.wp m (fun _ => Tracks w₀ stops) (fun _ => True) w :=
  h.keep (hm offTerminal_vars.table) (hm keepsRecord_table) (hm logGrows_vars.table)

theorem Tracks.builtinFg (hready : w₀.term.Ready) (h : Tracks w₀ stops w) :
    Prog.wp builtinFg (fun _ => Tracks w₀ (note stops (fgStop w))) (fun _ => True) w :=
  h.of_parts (closed_builtinFg sameTerm_vars sameTerm_tty) (wp_builtinFg_lent hready)
    (wp_builtinFg_kept (h.initialized hready) h.kept)

theorem Tracks.executeCommand (hready : w₀.term.Ready) (h : Tracks w₀ stops w) (com : Command)
    (next : List Command) :
    Prog.wp (executeCommand com next) (fun _ => Tracks w₀ (note stops (commandStop com next w)))
      (fun _ => True) w :=
  h.of_parts (closed_executeCommand (K := fun _ m => Prog.Keeps World.term m) sameTerm_vars.table
    (fun _ => sameTerm_tty)
    sameTerm_vars next) (wp_executeCommand_lent com next hready)
      (wp_executeCommand_kept com next (h.initialized hready) h.kept)

/-- A builtin other than `fg`: no job leaves the foreground. -/
theorem Tracks.handler (h : Tracks w₀ stops w) {b : Builtin} (hfg : b ≠ .fg) :
    Prog.wp b.handler (fun _ => Tracks w₀ stops) (fun _ => True) w := by
  by_cases hbg : b = .bg
  · subst hbg
    exact h.keep (closed_builtinBg offTerminal_vars) keepsRecord_builtinBg (closed_builtinBg logGrows_vars)
  · exact h.closed fun hK => closed_handler hK hfg hbg

/-- What `dispatcher_command` does around the handler of a builtin. -/
theorem Tracks.dispatchBuiltin (h : Tracks w₀ stops w) (cmd : Command) {entry : Builtin}
    (stop : World → Option (ℕ × World))
    (hb : ∀ w', Tracks w₀ stops w' → Prog.wp entry.handler (fun _ => Tracks w₀ (note stops (stop w')))
      (fun _ => True) w') :
    Prog.wp (dispatchBuiltin cmd entry)
      (fun _ => Tracks w₀ (note stops (match builtinApplyRedirect cmd w with
        | .done (ret, _) w' => if ret ≠ ok then none else stop w'
        | .blocked _ => none))) (fun _ => True) w := by
  apply Prog.wp_bind_done
  intro x w₁ hx
  obtain ⟨ret, savedOut, savedIn⟩ := x
  have hredirect := h.closed fun hK => closed_builtinApplyRedirect hK.toClosed cmd
  have h₁ := Prog.wp_done hredirect hx
  rw [hx]
  dsimp only
  by_cases hr : ret ≠ ok
  · rw [if_pos hr, if_pos hr]
    exact h₁.closed fun hK => closed_dispatchAbandon hK _ _ _
  · rw [if_neg hr, if_neg hr, Prog.wp_bind]
    refine Prog.wp_mono (hb w₁ h₁) ?_ fun _ h => h
    intro r w₂ h₂
    exact h₂.closed fun hK => closed_dispatchFinish hK _ _ _

theorem Tracks.dispatcherCommand (hready : w₀.term.Ready) (h : Tracks w₀ stops w) (cmd : Command)
    (next : List Command) :
    Prog.wp (dispatcherCommand cmd next) (fun _ => Tracks w₀ (note stops (dispatcherStop cmd next w)))
      (fun _ => True) w := by
  unfold MiniShell.dispatcherCommand dispatcherStop
  cases cmd.argv0 with
  | none => exact h
  | some name =>
    dsimp only
    split
    · exact h
    · cases builtinLookup name with
      | none => exact h.executeCommand hready cmd next
      | some entry =>
        by_cases hfg : entry = .fg
        · subst hfg
          dsimp only
          split
          · exact h
          · exact h.dispatchBuiltin cmd fgStop fun w' h' => h'.builtinFg hready
        · have hnone : (match (some entry : Option Builtin) with
              | some .fg =>
                if cmd.background then none
                else
                  match builtinApplyRedirect cmd w with
                  | .done (ret, _) w' => if ret ≠ ok then none else fgStop w'
                  | .blocked _ => none
              | some _ => none
              | none => commandStop cmd next w) = none := by
            cases entry <;> first | rfl | exact absurd rfl hfg
          rw [hnone]
          dsimp only
          split
          · exact h
          · have hd := h.dispatchBuiltin cmd (fun _ => none) fun w' h' => h'.handler hfg
            refine Prog.wp_mono hd ?_ fun _ h => h
            intro _ w' h'
            revert h'
            cases builtinApplyRedirect cmd w with
            | done x w₁ => exact fun h' => by simpa using h'
            | blocked w₁ => exact id

theorem Tracks.setExitStatus (h : Tracks w₀ stops w) (status : Int) :
    Tracks w₀ stops (w.setExitStatus status) where
  term := h.term
  mine hown := by
    obtain ⟨seg, hs, hmine⟩ := h.mine hown
    exact ⟨seg, ⟨hs.log, hs.term, hs.pgrp⟩, fun hf => ⟨(hmine hf).pgrp, (hmine hf).modes⟩⟩
  kept := h.kept

/-- **A step of the main loop.** -/
theorem Tracks.step (hready : w₀.term.Ready) (h : Tracks w₀ stops w) (step : Step) :
    Prog.wp step.run (fun _ => Tracks w₀ (note stops (step.stop w))) (fun _ => True) w := by
  cases step with
  | command cmd next =>
    show Prog.wp (shellCommand cmd next) _ _ w
    unfold shellCommand
    rw [Prog.wp_bind]
    exact Prog.wp_mono (h.dispatcherCommand hready cmd next) (fun status w₁ h₁ => h₁.setExitStatus _)
      fun _ h => h
  | child =>
    exact h.keep (closed_shellChild offTerminal_vars) keepsRecord_shellChild (closed_shellChild logGrows_vars)
  | exitStatus status => exact h.setExitStatus status

theorem Tracks.run (hready : w₀.term.Ready) (steps : List Step) (h : Tracks w₀ stops w)
    (hrun : runSteps steps w = .done () w') : Tracks w₀ (lastStopFrom steps w stops) w' := by
  induction steps generalizing w stops with
  | nil =>
    obtain rfl : w = w' := by simpa [runSteps, Prog.forList, Prog.pure_apply] using hrun
    exact h
  | cons step steps ih =>
    unfold runSteps Prog.forList at hrun
    rw [Prog.bind_apply] at hrun
    unfold lastStopFrom
    cases hs : step.run w with
    | done a w₁ =>
      rw [hs] at hrun
      have h₁ := Prog.wp_done (h.step hready step) hs
      exact ih h₁ hrun
    | blocked w₁ =>
      rw [hs] at hrun
      cases hrun

/-- **Every job keeps its own terminal modes.**  After any run, `fg` starts to wait for a job, and between the last
call for the terminal and the wait nobody else changes the modes.

* If the job has left the foreground by stopping, the last time in `v`, and its modes were read there before anybody
  changed them, the modes in effect are those of `v`, whatever has happened to the terminal in between.
* If it has never stopped in the foreground, they are those of the shell, as long as the terminal has been the
  shell's whenever no job had it. -/
theorem fg_modes {steps : List Step} {cmd : Command} (h₀ : w₀.Initial) (hready : w₀.term.Ready)
    (hrun : runSteps steps w₀ = .done () w) (hfg : FgWaits cmd w job w') (hlast : modesKept w'.log = true) :
    (∀ v, lastStop steps w₀ job.id = some v → v.log <+: w'.log ∧
      (ReadFrom v w' → w'.kernel.ttyModes = v.kernel.ttyModes)) ∧
    (lastStop steps w₀ job.id = none → w₀.OwnsTerminal → FairTerminal w₀ w'.log →
      w'.kernel.ttyModes = w₀.term.shellModes) := by
  have hstart : Tracks w₀ (fun _ => none) w₀ := by
    refine ⟨rfl, fun hown => .refl hown, fun _ => none, ?_, fun _ => rfl⟩
    rw [h₀.jobs]
    exact ⟨by simp [jobmanagerInit], by simp [jobmanagerInit], by simp [jobmanagerInit], fun _ _ => rfl⟩
  have hw : Tracks w₀ (lastStop steps w₀) w := hstart.run hready steps hrun
  obtain ⟨saved, w₁, i, hredirect, hprep⟩ := hfg
  have hclosed := hw.closed fun hK => closed_builtinApplyRedirect hK.toClosed cmd
  have hw₁ := Prog.wp_done hclosed hredirect
  obtain ⟨⟨job₀, hget, hsame⟩, hown, hshell⟩ := Prog.wp_done (wp_fgPrepare_modes hready hw₁.term) hprep
  have hgrow := closed_fgPrepare logGrows_vars logGrows_tty w₁
  rw [hprep] at hgrow
  obtain ⟨modes, hrec, hall⟩ := hw₁.kept
  have hjob : job.savedModes = modes job.id := by
    rw [hsame.modes, hsame.id, hrec.modes job₀ (List.mem_of_getElem? hget)]
  have hsaved := (hall job.id).later hgrow
  constructor
  · intro v hv
    rw [hv] at hsaved
    exact ⟨hsaved.1, fun hread => hown _ (hjob.trans (hsaved.2 hread)) hlast⟩
  · intro hnone howns hfair
    rw [hnone] at hsaved
    obtain ⟨seg, hs, hm⟩ := hshell (hjob.trans hsaved) (hw₁.mine howns)
    rw [hs.log, h₀.log, List.nil_append] at hfair
    exact hm hfair hlast

end Run

/-- A shell that has not started anything yet, with the modes 0 on its terminal. -/
def readyShell (script : List Item) : World := { freshShell script with term := ⟨100, true, true, 0⟩ }

def fgCommand : Command := wordCommand false [102, 103]

/-- The first job sets the modes to 9 and is stopped; the second sets them to 4 and ends, and then somebody else
sets them to 7. -/
def twoJobsShell : World :=
  readyShell (List.replicate 9 (.res .ok) ++ [.env (.ttyModes 9), .env (.stop 101 SIGTSTP)] ++
    List.replicate 13 (.res .ok) ++ [.env (.ttyModes 4), .env (.terminate 102 (.exited 0))] ++
    List.replicate 3 (.res .ok) ++ [.env (.ttyModes 7)])

def twoJobsSteps : List Step := [.command (wordCommand false [97]) [], .command (wordCommand false [98]) []]

def backgroundStep : Step := .command (wordCommand true [97]) []

theorem twoJobs_modes :
    (fgPrepare (runSteps twoJobsSteps twoJobsShell).state).state.kernel.ttyModes = 9 ∧
      (fgPrepare (runSteps [backgroundStep] (readyShell [])).state).state.kernel.ttyModes = 0 := by
  have hrun : runSteps twoJobsSteps twoJobsShell = .done () (runSteps twoJobsSteps twoJobsShell).state := by
    decide +kernel
  have hprep : fgPrepare (runSteps twoJobsSteps twoJobsShell).state =
      .done (.ok (0, ⟨1, 101, .running, [97], [⟨101, .running, 20 * 256 + 127, true⟩], 9, true⟩))
        (fgPrepare (runSteps twoJobsSteps twoJobsShell).state).state := by
    decide +kernel
  have hrun' : runSteps [backgroundStep] (readyShell []) = .done ()
      (runSteps [backgroundStep] (readyShell [])).state := by
    decide +kernel
  have hprep' : fgPrepare (runSteps [backgroundStep] (readyShell [])).state =
      .done (.ok (0, ⟨1, 101, .running, [97], [⟨101, .running, 0, false⟩], 0, false⟩))
        (fgPrepare (runSteps [backgroundStep] (readyShell [])).state).state := by
    decide +kernel
  obtain ⟨v, hv⟩ : ∃ v, lastStop twoJobsSteps twoJobsShell 1 = some v :=
    Option.isSome_iff_exists.mp (by decide +kernel)
  have hread : ∀ v, lastStop twoJobsSteps twoJobsShell 1 = some v →
      v.kernel.ttyModes = 9 ∧ ReadFrom v (fgPrepare (runSteps twoJobsSteps twoJobsShell).state).state := by
    decide +kernel
  have stopped := (fg_modes ⟨rfl, rfl, rfl⟩ ⟨rfl, by decide +kernel, rfl⟩ hrun
    (⟨(-1, -1), _, _, rfl, hprep⟩ : FgWaits fgCommand _ _ _) (by decide +kernel)).1 v hv
  have never := (fg_modes ⟨rfl, rfl, rfl⟩ ⟨rfl, by decide +kernel, rfl⟩ hrun'
    (⟨(-1, -1), _, _, rfl, hprep'⟩ : FgWaits fgCommand _ _ _) (by decide +kernel)).2 (by decide +kernel)
      ⟨rfl, rfl⟩
    (by decide +kernel)
  exact ⟨(stopped.2 (hread v hv).2).trans (hread v hv).1, never⟩

/-- The modes of the terminal could not be read or written. -/
def Call.failsModes : Call → Bool
  | .tcgetattr (.err _) | .tcsetattr _ (.err _) => true
  | _ => false

/-- Although the modes of the terminal can always be read and written, `fg` starts to wait for a job with other modes
in effect than the ones it last left the foreground with by stopping, or the shell's if it never has. -/
def WaitsWithOtherModes (w₀ : World) (steps : List Step) : Prop :=
  ∃ w job w', runSteps steps w₀ = .done () w ∧ FgWaits fgCommand w job w' ∧
    (∀ c ∈ calls w'.log, c.failsModes = false) ∧
    w'.kernel.ttyModes ≠ (lastModes steps w₀ job.id).getD w₀.term.shellModes

theorem waitsWithOtherModes_of {w₀ : World} {steps : List Step} (i : ℕ) (job : Job)
    (hrun : runSteps steps w₀ = .done () (runSteps steps w₀).state)
    (hprep : fgPrepare (runSteps steps w₀).state =
      .done (.ok (i, job)) (fgPrepare (runSteps steps w₀).state).state)
    (hcalls : ∀ c ∈ calls (fgPrepare (runSteps steps w₀).state).state.log, c.failsModes = false)
    (hmodes : (fgPrepare (runSteps steps w₀).state).state.kernel.ttyModes ≠
      (lastModes steps w₀ job.id).getD w₀.term.shellModes) : WaitsWithOtherModes w₀ steps :=
  ⟨_, job, _, hrun, ⟨(-1, -1), _, i, rfl, hprep⟩, hcalls, hmodes⟩

/-- While the shell has the terminal, somebody else sets its modes. -/
def otherModesShell : World := readyShell (List.replicate 8 (.res .ok) ++ [.env (.ttyModes 9)])

/-- The job sets the modes and leaves its group, so that the wait for it fails, and then the group of the terminal
cannot be set back. -/
def keptModesShell : World :=
  readyShell (List.replicate 9 (.res .ok) ++
    [.env (.ttyModes 9), .env (.regroup 101 7), .res .ok, .res (.fail .other)])

/-- The job sets the modes and is stopped, and somebody else sets them before the shell has read them. -/
def lateModesShell : World :=
  readyShell (List.replicate 9 (.res .ok) ++ [.env (.ttyModes 9), .env (.stop 101 SIGTSTP), .res .ok,
    .env (.ttyModes 5)])

/-- The job sets the modes and is stopped, and somebody else sets them after `fg` has set them back. -/
def earlyModesShell : World :=
  readyShell (List.replicate 9 (.res .ok) ++ [.env (.ttyModes 9), .env (.stop 101 SIGTSTP)] ++
    List.replicate 6 (.res .ok) ++ [.env (.ttyModes 5)])

def foregroundStep : Step := .command (wordCommand false [97]) []

/-- **Without the assumptions the modes are not always the job's own**: for a job that has never stopped in the
foreground when others change them while the shell has the terminal, and when `terminal_restore` fails; for one that
has, when others change them between its stop and the reading, or between the setting and the wait. -/
theorem fg_other_modes :
    WaitsWithOtherModes otherModesShell [backgroundStep] ∧
      WaitsWithOtherModes keptModesShell [backgroundStep, .command fgCommand []] ∧
      WaitsWithOtherModes lateModesShell [foregroundStep] ∧
        WaitsWithOtherModes earlyModesShell [foregroundStep] := by
  refine ⟨waitsWithOtherModes_of 0 ⟨1, 101, .running, [97], [⟨101, .running, 0, false⟩], 0, false⟩
      ?_ ?_ ?_ ?_,
    waitsWithOtherModes_of 0 ⟨1, 101, .running, [97], [⟨101, .running, 0, false⟩], 0, false⟩ ?_ ?_ ?_ ?_,
    waitsWithOtherModes_of 0
      ⟨1, 101, .running, [97], [⟨101, .running, 20 * 256 + 127, true⟩], 5, true⟩ ?_ ?_ ?_ ?_,
    waitsWithOtherModes_of 0
      ⟨1, 101, .running, [97], [⟨101, .running, 20 * 256 + 127, true⟩], 9, true⟩ ?_ ?_ ?_ ?_⟩
  all_goals decide +kernel

end MiniShell
