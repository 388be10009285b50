import MiniShell.Lib.Trace
import MiniShell.Spec.Closed
import MiniShell.Spec.Run

/-!
# The shell gets its terminal back

A job may do what it likes with the terminal while it has it; `FairTerminal` says that others leave it alone, and that
the calls of `terminal_restore` do not fail for good.  The run is followed with `Mine w₀ w`: since `w₀` the run has
not been fair, or the terminal is the shell's; and `Lent w₀ w`, which asks nothing of the terminal.  Giving the
terminal away leads from the one to the other and `terminal_restore` leads back, whatever else fails.
-/

namespace MiniShell

open MiniShell.Lib MiniShellError

/-! ### What is assumed -/

/-- `terminal_init` has succeeded. -/
structure Terminal.Ready (t : Terminal) : Prop where
  initialized : t.initialized = true
  pgid : 0 < t.shellPgid
  modes : t.shellModesValid = true

/-- The terminal is the shell's, with the shell's modes. -/
structure World.OwnsTerminal (w : World) : Prop where
  pgrp : w.kernel.ttyPgrp = w.term.shellPgid
  modes : w.kernel.ttyModes = w.term.shellModes

/-- What is known of the terminal from the log: its foreground group, and that `terminal_restore` has just set it. -/
structure Watch where
  pgrp : Int
  restoring : Bool

def Watch.next (shellPgid : Int) (m : Watch) : Event → Watch
  | .env (.ttyPgrp pgrp) => { m with pgrp := pgrp }
  | .env _ => m
  | .call (.tcsetpgrp pgrp .ok) _ _ => { pgrp := pgrp, restoring := pgrp == shellPgid }
  | .call (.tcsetattr _ (.err .EINTR)) _ _ => m
  | .call .. => { m with restoring := false }

/-- Others change the terminal only while the shell has given it away, and a call of `terminal_restore` is at most
interrupted: `tcsetpgrp` to the group of the shell, and the `tcsetattr` that comes next. -/
def Watch.allows (shellPgid : Int) (m : Watch) : Event → Prop
  | .env (.ttyPgrp _) | .env (.ttyModes _) => m.pgrp ≠ shellPgid
  | .call (.tcsetpgrp pgrp (.err e)) _ _ => pgrp = shellPgid → e = .EINTR
  | .call (.tcsetattr _ (.err e)) _ _ => m.restoring → e = .EINTR
  | _ => True

instance (shellPgid : Int) (m : Watch) (e : Event) : Decidable (m.allows shellPgid e) := by
  unfold Watch.allows
  split <;> infer_instance

def terminalWatch (shellPgid : Int) : Monitor Watch Event := ⟨Watch.next shellPgid, Watch.allows shellPgid⟩

/-- **What is assumed of a run that logs `seg` from `w` on.** -/
def FairTerminal (w : World) (seg : List Event) : Prop :=
  (terminalWatch w.term.shellPgid).Allows ⟨w.kernel.ttyPgrp, false⟩ seg

instance (shellPgid : Int) (m : Watch) (e : Event) : Decidable ((terminalWatch shellPgid).allows m e) :=
  inferInstanceAs (Decidable (m.allows shellPgid e))

instance (w : World) (seg : List Event) : Decidable (FairTerminal w seg) :=
  inferInstanceAs (Decidable ((terminalWatch w.term.shellPgid).Allows ⟨w.kernel.ttyPgrp, false⟩ seg))

/-! ### Following a run -/

/-- The calls that can change the terminal. -/
def Call.SetsTerminal : Call → Prop
  | .tcsetpgrp .. | .tcsetattr .. => True
  | _ => False

/-- The log of `w` continues that of `w₀` with `seg`, which tells the foreground group of the terminal. -/
structure Since (w₀ : World) (seg : List Event) (w : World) : Prop where
  log : w.log = w₀.log ++ seg
  term : w.term = w₀.term
  pgrp : ((terminalWatch w₀.term.shellPgid).after ⟨w₀.kernel.ttyPgrp, false⟩ seg).pgrp = w.kernel.ttyPgrp

def Lent (w₀ w : World) : Prop := ∃ seg, Since w₀ seg w

def Mine (w₀ w : World) : Prop := ∃ seg, Since w₀ seg w ∧ (FairTerminal w₀ seg → w.OwnsTerminal)

section Following

variable {w₀ w : World} {seg : List Event}

theorem Since.refl (w : World) : Since w [] w := ⟨by simp, rfl, rfl⟩

/-- One more event, which does to the foreground group what the log says. -/
theorem Since.snoc (h : Since w₀ seg w) {e : Event} {k : Kernel} {s : List Item} {c : ShellContext}
    (hk : ∀ m : Watch, m.pgrp = w.kernel.ttyPgrp → (m.next w₀.term.shellPgid e).pgrp = k.ttyPgrp) :
    Since w₀ (seg ++ [e]) { w with kernel := k, ctx := c, script := s, log := w.log ++ [e] } where
  log := by simp [h.log]
  term := h.term
  pgrp := by
    rw [Monitor.after_snoc]
    exact hk _ h.pgrp

theorem Mine.lent (h : Mine w₀ w) : Lent w₀ w := by
  obtain ⟨seg, hs, -⟩ := h
  exact ⟨seg, hs⟩

/-- A run that has ceased to be fair. -/
theorem Since.mine_of_unfair (h : Since w₀ seg w) (hf : ¬FairTerminal w₀ seg) : Mine w₀ w :=
  ⟨seg, h, fun hs => absurd hs hf⟩

theorem Mine.refl (h : w.OwnsTerminal) : Mine w w := ⟨[], .refl w, fun _ => h⟩

/-- The foreground group and the modes are the same. -/
structure SameTerminal (k k' : Kernel) : Prop where
  pgrp : k'.ttyPgrp = k.ttyPgrp
  modes : k'.ttyModes = k.ttyModes

theorem SameTerminal.refl (k : Kernel) : SameTerminal k k := ⟨rfl, rfl⟩

theorem next_env (shellPgid : Int) (m : Watch) (k : Kernel) (e : Env) (h : m.pgrp = k.ttyPgrp) :
    (m.next shellPgid (.env e)).pgrp = (k.happen e).ttyPgrp := by
  cases e <;> first | rfl | exact h

theorem next_call (shellPgid : Int) (m : Watch) {c : Call} (k : Kernel) (js : List Job) (hc : ¬c.SetsTerminal) :
    m.next shellPgid (.call c k js) = { m with restoring := false } := by
  cases c <;> first | rfl | exact absurd trivial hc

theorem Lent.event (h : Lent w₀ w) {e : Event} {k : Kernel} (s : List Item) (ctx : ShellContext)
    (hk : ∀ m : Watch, m.pgrp = w.kernel.ttyPgrp → (m.next w₀.term.shellPgid e).pgrp = k.ttyPgrp) :
    Lent w₀ { w with kernel := k, ctx := ctx, script := s, log := w.log ++ [e] } := by
  obtain ⟨seg, hs⟩ := h
  exact ⟨_, hs.snoc hk⟩

/-- The terminal stays the shell's when something happens that is allowed and changes nothing about it. -/
theorem Mine.event (h : Mine w₀ w) {e : Event} {k : Kernel} (s : List Item) (ctx : ShellContext)
    (hk : ∀ m : Watch, m.pgrp = w.kernel.ttyPgrp → (m.next w₀.term.shellPgid e).pgrp = k.ttyPgrp)
    (hs : ∀ m : Watch, m.pgrp = w.term.shellPgid → m.allows w.term.shellPgid e → SameTerminal w.kernel k) :
    Mine w₀ { w with kernel := k, ctx := ctx, script := s, log := w.log ++ [e] } := by
  obtain ⟨seg, hsince, hown⟩ := h
  refine ⟨_, hsince.snoc hk, fun hf => ?_⟩
  obtain ⟨hf, ha⟩ := (Monitor.allows_snoc _).mp hf
  have hw := hown hf
  have hsame := hs _ (hsince.pgrp.trans hw.pgrp) (hsince.term ▸ ha)
  exact ⟨hsame.pgrp.trans hw.pgrp, hsame.modes.trans hw.modes⟩

/-- What others do leaves the terminal alone as long as it is the shell's. -/
theorem allows_env {shellPgid : Int} {m : Watch} {e : Env} (k : Kernel) (hm : m.pgrp = shellPgid)
    (ha : m.allows shellPgid (.env e)) : SameTerminal k (k.happen e) := by
  cases e
  case ttyPgrp => exact absurd hm ha
  case ttyModes => exact absurd hm ha
  all_goals exact ⟨rfl, rfl⟩

end Following

/-! ### Programs that leave the terminal alone -/

/-- From `w` on there were only events outside, calls that leave the terminal alone and changes to the context. -/
inductive Untouched (w : World) : World → Prop
  | refl : Untouched w w
  | env {w' : World} (h : Untouched w w') (e : Env) :
      Untouched w { w' with kernel := w'.kernel.happen e, log := w'.log ++ [.env e] }
  | call {w' : World} (h : Untouched w w') {c : Call} {k : Kernel} (hc : ¬c.SetsTerminal)
      (hk : SameTerminal w'.kernel k) : Untouched w { w'.record c with kernel := k }
  | vars {w' : World} (h : Untouched w w') (ctx : ShellContext) (script : List Item) :
      Untouched w { w' with ctx := ctx, script := script }

section Untouched

variable {w₀ w w' w'' : World} {α β : Type}

theorem Untouched.trans (h : Untouched w w') (h' : Untouched w' w'') : Untouched w w'' := by
  induction h' with
  | refl => exact h
  | env _ e ih => exact ih.env e
  | call _ hc hk ih => exact ih.call hc hk
  | vars _ ctx script ih => exact ih.vars ctx script

/-- What every event outside keeps is kept while a piece of the script is read. -/
theorem drift_invariant {P : World → Prop}
    (henv : ∀ w e, P w → P { w with kernel := w.kernel.happen e, log := w.log ++ [.env e] })
    (hscript : ∀ w s, P w → P { w with script := s }) (used rest : List Item) (h : P w) : P
      (w.drift used rest) := by
  have key : ∀ es : List Env, ∀ w : World, P w →
      P { w with kernel := es.foldl Kernel.happen w.kernel, log := w.log ++ es.map Event.env } := by
    intro es
    induction es with
    | nil => exact fun w h => by simpa using h
    | cons e es ih => exact fun w h => by simpa using ih _ (henv w e h)
  exact hscript _ rest (key _ w h)

theorem untouched_drift (used rest : List Item) (w : World) : Untouched w (w.drift used rest) :=
  drift_invariant (fun _ e h => h.env e) (fun w' s h => h.vars w'.ctx s) used rest .refl

theorem Untouched.lent (h : Untouched w w') (hl : Lent w₀ w) : Lent w₀ w' := by
  induction h with
  | refl => exact hl
  | @env w' _ e ih => exact ih.event w'.script w'.ctx fun m hm => next_env _ m _ e hm
  | @call w' _ c k hc hk ih =>
    exact ih.event w'.script w'.ctx fun m hm => by rw [next_call _ _ _ _ hc, hk.pgrp]; exact hm
  | vars _ ctx script ih =>
    obtain ⟨seg, hs⟩ := ih
    exact ⟨seg, hs.log, hs.term, hs.pgrp⟩

theorem Untouched.mine (h : Untouched w w') (hm : Mine w₀ w) : Mine w₀ w' := by
  induction h with
  | refl => exact hm
  | @env w' _ e ih =>
    exact ih.event w'.script w'.ctx (fun m hm => next_env _ m _ e hm) fun m hm ha => allows_env _ hm ha
  | @call w' _ c k hc hk ih =>
    exact ih.event w'.script w'.ctx (fun m hm => by rw [next_call _ _ _ _ hc, hk.pgrp]; exact hm) fun _ _ _ => hk
  | vars _ ctx script ih =>
    obtain ⟨seg, hs, hown⟩ := ih
    exact ⟨seg, ⟨hs.log, hs.term, hs.pgrp⟩, fun hf => ⟨(hown hf).pgrp, (hown hf).modes⟩⟩

/-- `m` neither gives the terminal away nor takes it back. -/
def OffTerminal {α : Type} (m : Sh α) : Prop := ∀ w, Untouched w (m w).state

theorem offTerminal_syscall {f : Choice → Kernel → α × Kernel} {call : α → Call}
    (hf : ∀ c k, SameTerminal k (f c k).2) (hc : ∀ a, ¬(call a).SetsTerminal) :
    OffTerminal (syscall f call) := fun w =>
  Prog.wp_state (wp_syscall fun used _ rest _ => (untouched_drift used rest w).call (hc _) (hf ..))

theorem sameTerminal_collect (pid : Int) (change : Change) (k : Kernel) :
    SameTerminal k (k.collect pid change) := by
  cases change <;> exact ⟨rfl, rfl⟩

theorem sameTerminal_kill (target : Int) (sig : Sig) (c : Choice) (k : Kernel) :
    SameTerminal k (k.kill target sig c).2 := by
  unfold Kernel.kill
  split
  · exact ⟨rfl, rfl⟩
  · split <;> exact .refl k

theorem sameTerminal_poll {target : Int} {opts : WaitOpts} {c : Choice} {k k' : Kernel} {r : WaitRes}
    (h : k.poll target opts c = some (r, k')) : SameTerminal k k' := by
  rcases Kernel.poll_cases h with ⟨-, -, rfl⟩ | ⟨-, -, rfl⟩ | ⟨child, change, -, -, -, -, rfl⟩
  · exact .refl _
  · exact .refl _
  · exact sameTerminal_collect ..

theorem offTerminal_waitpid (target : Int) (opts : WaitOpts) : OffTerminal (waitpid target opts) := by
  intro w
  have asked : ∀ used rest, Untouched w ((w.record (.waitpid target opts)).drift used rest) := fun used rest =>
    (Untouched.refl.call (k := w.kernel) id (.refl _)).trans (untouched_drift used rest _)
  cases ho : opts.nohang with
  | false =>
    exact Prog.wp_state (wp_waitpid ho (fun used c rest r k _ hp => (asked used rest).call id
      (sameTerminal_poll hp))
      fun _ => (asked _ _).call id (.refl _))
  | true =>
    refine Prog.wp_state (wp_waitpid_nohang ho fun used c rest r k _ hp => (asked used rest).call id ?_)
    rcases hp with hp | ⟨-, -, rfl⟩
    · exact sameTerminal_poll hp
    · exact .refl _

theorem OffTerminal.bind {m : Sh α} {f : α → Sh β} (hm : OffTerminal m) (hf : ∀ a, OffTerminal (f a)) :
    OffTerminal (m >>= f) := by
  intro w
  have hmid := hm w
  rw [Prog.bind_apply]
  cases hw : m w with
  | done a w' =>
    rw [hw] at hmid
    exact hmid.trans (hf a w')
  | blocked w' => rwa [hw] at hmid

theorem offTerminal_modify {f : World → World} (hf : InContext f) : OffTerminal (Prog.modify f) := by
  intro w
  obtain ⟨ctx, hw, -⟩ := hf w
  show Untouched w (f w)
  rw [hw]
  exact Untouched.refl.vars ctx w.script

/-- **Everything but `tcsetpgrp` and `tcsetattr` leaves the terminal alone.** -/
theorem offTerminal_closed : Closed fun _ m => OffTerminal m where
  pure := fun _ _ => .refl
  block := fun _ => .refl
  bind := OffTerminal.bind
  get_bind := fun hf w => hf w w
  pipe := offTerminal_syscall (fun c k => by cases c <;> exact ⟨rfl, rfl⟩) fun _ => id
  close := fun _ _ => Untouched.refl.call id ⟨rfl, rfl⟩
  setCloexec := fun _ => offTerminal_syscall (fun c k => by cases c <;> exact ⟨rfl, rfl⟩) fun _ => id
  openFile := fun _ _ => offTerminal_syscall (fun c k => by cases c <;> exact ⟨rfl, rfl⟩) fun _ => id
  dupfd := fun _ => offTerminal_syscall (fun c k => by unfold Kernel.dupfd; split <;> exact ⟨rfl, rfl⟩)
    fun _ => id
  dup2 := fun _ _ => offTerminal_syscall (fun c k => by
    unfold Kernel.dup2
    split
    · exact .refl k
    · exact .refl k
    · split <;> exact ⟨rfl, rfl⟩) fun _ => id
  fflush := offTerminal_syscall (fun _ k => .refl k) fun _ => id
  fork := offTerminal_syscall (fun c k => by cases c <;> exact ⟨rfl, rfl⟩) fun _ => id
  setpgid := fun _ _ => offTerminal_syscall (fun c k => by cases c <;> exact ⟨rfl, rfl⟩) fun _ => id
  kill := fun _ _ => offTerminal_syscall (fun c k => sameTerminal_kill ..) fun _ => id
  waitpid := offTerminal_waitpid
  malloc := fun _ => offTerminal_syscall (fun _ k => .refl k) fun _ => id
  nanosleep := offTerminal_syscall (fun _ k => .refl k) fun _ => id
  writeGate := fun _ => offTerminal_syscall (fun _ k => .refl k) fun _ => id
  tcgetattr := offTerminal_syscall (fun c k => by cases c <;> exact .refl k) fun _ => id
  service := fun _ => offTerminal_syscall (fun _ k => .refl k) fun _ => id

theorem offTerminal_vars : ClosedVars fun _ m => OffTerminal m where
  toClosed := offTerminal_closed
  modify := offTerminal_modify

end Untouched

/-! ### Giving the terminal away and taking it back -/

/-- Since `w₀` the run has not been fair, or `terminal_restore` has set the foreground group of the terminal. -/
def Restoring (w₀ w : World) : Prop :=
  ∃ seg, Since w₀ seg w ∧ (FairTerminal w₀ seg → w.kernel.ttyPgrp = w.term.shellPgid ∧
    ((terminalWatch w₀.term.shellPgid).after ⟨w₀.kernel.ttyPgrp, false⟩ seg).restoring = true)

section Terminal

variable {w₀ w : World}

theorem wp_terminalSetPgrp_job (h : Mine w₀ w) (pgid : Int) :
    Prog.wp (terminalSetPgrp pgid) (fun r w' => if r < 0 then Mine w₀ w' else Lent w₀ w')
      (fun _ => True) w := by
  unfold terminalSetPgrp
  rw [Prog.wp_bind]
  refine wp_retry (Mine w₀) (fun w h => wp_syscall fun used c rest ht => ?_) h
  have hd := (untouched_drift used rest w).mine h
  cases c with
  | fail e =>
    have hm : Mine w₀ ((w.drift used rest).record (.tcsetpgrp pgid (.err e))) :=
      hd.event rest w.ctx (fun _ hm => hm) fun _ _ _ => .refl _
    exact ⟨fun _ => ⟨hm, ht.length_lt (by simp)⟩, fun _ => hm⟩
  | ok => exact ⟨nofun, fun _ => hd.lent.event rest w.ctx fun _ _ => rfl⟩
  | pick n => exact ⟨nofun, fun _ => hd.lent.event rest w.ctx fun _ _ => rfl⟩

theorem wp_terminalSetForeground_job (h : Mine w₀ w) (pgid : Int) :
    Prog.wp (terminalSetForeground pgid) (fun r w' => if r < 0 then Mine w₀ w' else Lent w₀ w')
      (fun _ => True) w := by
  unfold terminalSetForeground
  rw [Prog.wp_get_bind]
  split
  · exact h.lent
  · split
    · exact h
    · exact wp_terminalSetPgrp_job h pgid

/-- The first half of `terminal_restore`. -/
theorem wp_terminalSetPgrp_shell (h : Lent w₀ w) :
    Prog.wp (terminalSetPgrp w₀.term.shellPgid) (fun r w' => if r < 0 then Mine w₀ w' else Restoring w₀ w')
      (fun _ => True) w := by
  unfold terminalSetPgrp
  rw [Prog.wp_bind]
  refine wp_retry (Lent w₀) (fun w h => wp_syscall fun used c rest ht => ?_) h
  have hd := (untouched_drift used rest w).lent h
  have done : ∀ k : Kernel, k.ttyPgrp = w₀.term.shellPgid →
      Restoring w₀ { (w.drift used rest).record (.tcsetpgrp w₀.term.shellPgid .ok) with kernel := k } := by
    intro k hk
    obtain ⟨seg, hs⟩ := hd
    refine ⟨_, hs.snoc fun _ _ => hk.symm,
      fun _ => ⟨hk.trans (congrArg Terminal.shellPgid hs.term).symm, ?_⟩⟩
    rw [Monitor.after_snoc]
    exact beq_self_eq_true _
  cases c with
  | fail e =>
    have hl : Lent w₀ ((w.drift used rest).record (.tcsetpgrp w₀.term.shellPgid (.err e))) :=
      hd.event rest w.ctx fun _ hm => hm
    refine ⟨fun _ => ⟨hl, ht.length_lt (by simp)⟩, fun he => ?_⟩
    -- the call has failed for good, which is not fair
    obtain ⟨seg, hs⟩ := hd
    refine (hs.snoc (e := .call (.tcsetpgrp w₀.term.shellPgid (.err e)) (w.drift used rest).kernel
      (w.drift used rest).jobs) (s := rest) (c := w.ctx) fun _ hm => hm).mine_of_unfair fun hf => he ?_
    rw [((Monitor.allows_snoc _).mp hf).2 rfl]
  | ok => exact ⟨nofun, fun _ => done _ rfl⟩
  | pick n => exact ⟨nofun, fun _ => done _ rfl⟩

/-- While `terminal_restore` is between its two calls others leave the terminal alone. -/
theorem Restoring.drift (h : Restoring w₀ w) (used rest : List Item) : Restoring w₀ (w.drift used rest) := by
  refine drift_invariant (fun w e ⟨seg, hs, hr⟩ => ?_) (fun w s ⟨seg, hs, hr⟩ => ?_) used rest h
  · refine ⟨_, hs.snoc (s := w.script) (c := w.ctx) fun m hm => next_env _ m _ e hm, fun hf => ?_⟩
    obtain ⟨hf, ha⟩ := (Monitor.allows_snoc _).mp hf
    obtain ⟨hp, hr⟩ := hr hf
    have hsame := allows_env w.kernel ((hs.pgrp.trans hp).trans (congrArg Terminal.shellPgid hs.term)) ha
    refine ⟨hsame.pgrp.trans hp, ?_⟩
    rw [Monitor.after_snoc]
    cases e <;> exact hr
  · exact ⟨seg, ⟨hs.log, hs.term, hs.pgrp⟩, hr⟩

/-- The second half of `terminal_restore`. -/
theorem wp_terminalSetModes_shell (hready : w₀.term.Ready) (h : Restoring w₀ w) :
    Prog.wp (terminalSetModes w₀.term.shellModes) (fun _ => Mine w₀) (fun _ => True) w := by
  have hterm : w.term = w₀.term := by
    obtain ⟨seg, hs, -⟩ := h
    exact hs.term
  unfold terminalSetModes
  rw [Prog.wp_get_bind, hterm, hready.initialized, if_neg (by simp), Prog.wp_bind]
  refine wp_retry (Restoring w₀) (fun w h => wp_syscall fun used c rest ht => ?_) h
  obtain ⟨seg, hs, hr⟩ := h.drift used rest
  have done : ∀ k : Kernel, k.ttyPgrp = (w.drift used rest).kernel.ttyPgrp →
    k.ttyModes = w₀.term.shellModes →
      Mine w₀ { (w.drift used rest).record (.tcsetattr w₀.term.shellModes .ok) with kernel := k } := by
    intro k hp hm
    refine ⟨_, hs.snoc fun m hm => hm.trans hp.symm, fun hf => ?_⟩
    exact ⟨hp.trans (hr ((Monitor.allows_snoc _).mp hf).1).1,
      hm.trans (congrArg Terminal.shellModes hs.term).symm⟩
  cases c with
  | fail e =>
    have hsince := hs.snoc (e := .call (.tcsetattr w₀.term.shellModes (.err e)) (w.drift used rest).kernel
      (w.drift used rest).jobs) (k := (w.drift used rest).kernel) (s := rest) (c := w.ctx)
      fun m hm => by cases e <;> exact hm
    refine ⟨fun he => ⟨?_, ht.length_lt (by simp)⟩, fun he => ?_⟩
    · cases he
      refine ⟨_, hsince, fun hf => ?_⟩
      rw [Monitor.after_snoc]
      exact hr ((Monitor.allows_snoc _).mp hf).1
    · refine hsince.mine_of_unfair fun hf => he ?_
      obtain ⟨hf, ha⟩ := (Monitor.allows_snoc _).mp hf
      rw [ha (hr hf).2]
  | ok => exact ⟨nofun, fun _ => done _ rfl rfl⟩
  | pick n => exact ⟨nofun, fun _ => done _ rfl rfl⟩

/-- **`terminal_restore`** gives the terminal back, whatever has become of it. -/
theorem wp_terminalRestore_shell (hready : w₀.term.Ready) (h : Lent w₀ w) :
    Prog.wp terminalRestore (fun _ => Mine w₀) (fun _ => True) w := by
  have hterm : w.term = w₀.term := by
    obtain ⟨seg, hs⟩ := h
    exact hs.term
  have hpgid := hready.pgid
  unfold terminalRestore
  rw [Prog.wp_get_bind, hterm, hready.initialized, if_neg (by simp), if_neg (by omega), Prog.wp_bind]
  refine Prog.wp_mono (wp_terminalSetPgrp_shell h) ?_ fun _ h => h
  intro r w₁ h₁
  split at h₁
  · rw [if_pos (by assumption)]
    exact h₁
  · rw [if_neg (by assumption), hready.modes, if_pos rfl, Prog.wp_bind]
    refine Prog.wp_mono (wp_terminalSetModes_shell hready h₁) ?_ fun _ h => h
    intro r w₂ h₂
    split <;> exact h₂

/-- `fg` sets the modes of a job that has the terminal. -/
theorem wp_terminalSetModes_job (h : Lent w₀ w) (modes : Termios) :
    Prog.wp (terminalSetModes modes) (fun _ => Lent w₀) (fun _ => True) w := by
  unfold terminalSetModes
  rw [Prog.wp_get_bind]
  split
  · exact h
  · rw [Prog.wp_bind]
    refine wp_retry (Lent w₀) (fun w h => wp_syscall fun used c rest ht => ?_) h
    have hd := (untouched_drift used rest w).lent h
    cases c with
    | fail e =>
      have hl : Lent w₀ ((w.drift used rest).record (.tcsetattr modes (.err e))) :=
        hd.event rest w.ctx fun m hm => by cases e <;> exact hm
      exact ⟨fun _ => ⟨hl, ht.length_lt (by simp)⟩, fun _ => hl⟩
    | ok => exact ⟨nofun, fun _ => hd.event rest w.ctx fun _ hm => hm⟩
    | pick n => exact ⟨nofun, fun _ => hd.event rest w.ctx fun _ hm => hm⟩

end Terminal

/-! ### The commands -/

section Commands

variable {w₀ w : World} {α β : Type}

theorem OffTerminal.wp_mine {m : Sh α} (hm : OffTerminal m) (h : Mine w₀ w) {Q : α → World → Prop}
    (hQ : ∀ a w', Mine w₀ w' → Q a w') : Prog.wp m Q (fun _ => True) w := by
  have hstate := (hm w).mine h
  unfold Prog.wp
  split
  · rename_i a w' hw
    rw [hw] at hstate
    exact hQ a w' hstate
  · trivial

theorem OffTerminal.wp_lent {m : Sh α} (hm : OffTerminal m) (h : Lent w₀ w) {Q : α → World → Prop}
    (hQ : ∀ a w', Lent w₀ w' → Q a w') : Prog.wp m Q (fun _ => True) w := by
  have hstate := (hm w).lent h
  unfold Prog.wp
  split
  · rename_i a w' hw
    rw [hw] at hstate
    exact hQ a w' hstate
  · trivial

theorem OffTerminal.then_mine {m : Sh α} (hm : OffTerminal m) (h : Mine w₀ w) {f : α → Sh β}
    {Q : β → World → Prop} (hf : ∀ a w', Mine w₀ w' → Prog.wp (f a) Q (fun _ => True) w') :
    Prog.wp (m >>= f) Q (fun _ => True) w := by
  rw [Prog.wp_bind]
  exact hm.wp_mine h hf

theorem OffTerminal.then_lent {m : Sh α} (hm : OffTerminal m) (h : Lent w₀ w) {f : α → Sh β}
    {Q : β → World → Prop} (hf : ∀ a w', Lent w₀ w' → Prog.wp (f a) Q (fun _ => True) w') :
    Prog.wp (m >>= f) Q (fun _ => True) w := by
  rw [Prog.wp_bind]
  exact hm.wp_lent h hf

/-- `terminal_restore`, and then something that leaves the terminal alone. -/
theorem wp_restore_then (hready : w₀.term.Ready) (h : Lent w₀ w) {f : Int → Sh β}
    (hf : ∀ r, OffTerminal (f r)) :
    Prog.wp (terminalRestore >>= f) (fun _ => Mine w₀) (fun _ => True) w := by
  rw [Prog.wp_bind]
  exact Prog.wp_mono (wp_terminalRestore_shell hready h) (fun r w' h' => (hf r).wp_mine h' fun _ _ h => h)
    fun _ h => h

/-- How a foreground command goes on: an error leaves the terminal with the shell, otherwise the job has it. -/
def HandedTo (w₀ : World) : Except Int (α × Bool) → World → Prop
  | .error _, w => Mine w₀ w
  | .ok (_, terminalActive), w => terminalActive = true ∧ Lent w₀ w

theorem Lent.initialized (hready : w₀.term.Ready) (h : Lent w₀ w) : w.term.initialized = true := by
  obtain ⟨seg, hs⟩ := h
  rw [hs.term]
  exact hready.initialized

theorem wp_releaseSingle_lent {com : Command} (hb : com.background = false) (hready : w₀.term.Ready)
    (h : Lent w₀ w) (gate1 : ℕ) (pid : Int) :
    Prog.wp (releaseSingle com gate1 pid true) (HandedTo w₀) (fun _ => True) w := by
  have off := offTerminal_vars.table
  apply (closed_startupGateRelease off.toClosed _ _).then_lent h
  intro r w h
  split
  · refine (off.close _).then_lent h fun _ w h => (closed_rollbackSingle off.toClosed _).then_lent h fun _ w h =>
      (off.remove _).then_lent h ?_
    intro _ w h
    rw [if_pos ⟨by simp [hb], rfl⟩, Prog.wp_bind]
    exact Prog.wp_mono (wp_terminalRestore_shell hready h) (fun _ _ h => h) fun _ h => h
  · exact (off.close _).then_lent h fun _ w h => ⟨rfl, h⟩

theorem wp_launchSingle_lent {com : Command} (hb : com.background = false) (hready : w₀.term.Ready)
    (h : Mine w₀ w) : Prog.wp (launchSingle com) (HandedTo w₀) (fun _ => True) w := by
  have off := offTerminal_vars.table
  apply (closed_startupGateCreate off.toClosed).then_mine h
  intro gate w h
  cases gate with
  | none => exact h
  | some gate =>
    dsimp only
    rw [Prog.wp_bind]
    unfold terminalIsInitialized
    rw [Prog.wp_get_bind, Prog.wp_pure, h.lent.initialized hready]
    apply off.fork.then_mine h
    intro pid w h
    split
    · exact (off.close _).then_mine h fun _ w h => (off.close _).then_mine h fun _ w h => h
    · refine (off.close _).then_mine h fun _ w h => (closed_setpgidParent off.toClosed _ _).then_mine h
        ?_
      intro r w h
      split
      · exact (off.close _).then_mine h fun _ w h => (closed_rollbackSingle off.toClosed _).then_mine h
          fun _ w h => h
      · apply (closed_jobAdd off _ _).then_mine h
        intro job w h
        split
        · exact (off.close _).then_mine h fun _ w h => (closed_rollbackSingle off.toClosed _).then_mine h
            fun _ w h => h
        · apply (closed_processAdd off _ _).then_mine h
          intro r w h
          split
          · exact (off.close _).then_mine h fun _ w h =>
              (closed_rollbackSingle off.toClosed _).then_mine h fun _ w h =>
              (off.remove _).then_mine h fun _ w h => h
          · rw [if_pos ⟨by simp [hb], rfl⟩, Prog.wp_bind]
            refine Prog.wp_mono (wp_terminalSetForeground_job h pid) ?_ fun _ h => h
            intro r w h
            split at h
            · -- the terminal could not be given away
              rw [if_pos (by assumption)]
              refine (off.close _).then_mine h fun _ w h =>
                (closed_rollbackSingle off.toClosed _).then_mine h fun _ w h =>
                (off.remove _).then_mine h ?_
              intro _ w h
              rw [Prog.wp_bind]
              exact Prog.wp_mono (wp_terminalRestore_shell hready h.lent) (fun _ _ h => h) fun _ h => h
            · rw [if_neg (by assumption)]
              exact wp_releaseSingle_lent hb hready h _ _

theorem Launched.jobs_ne {com : Command} {pgid : Int} {ps : List Int} (h : Launched com w₀ pgid ps w) :
    w.jobs ≠ [] := by
  obtain ⟨job, hjobs, -⟩ := h.jobs
  simp [hjobs]

theorem wp_releasePipeline_lent {com : Command} (hb : com.background = false) (hready : w₀.term.Ready)
    (h : Lent w₀ w) (gate1 : ℕ) (l : Launch) :
    Prog.wp (releasePipeline com gate1 l true) (HandedTo w₀) (fun _ => True) w := by
  have off := offTerminal_vars.table
  apply (closed_startupGateRelease off.toClosed _ _).then_lent h
  intro r w h
  split
  · refine (off.close _).then_lent h fun _ w h => (closed_rollbackPipeline off.toClosed _ _).then_lent h
      fun _ w h =>
      (off.remove _).then_lent h ?_
    intro _ w h
    rw [if_pos ⟨by simp [hb], rfl⟩, Prog.wp_bind]
    exact Prog.wp_mono (wp_terminalRestore_shell hready h) (fun _ _ h => h) fun _ h => h
  · exact (off.close _).then_lent h fun _ w h => ⟨rfl, h⟩

theorem wp_launchPipeline_lent {com : Command} (hb : com.background = false) (next : List Command)
    (hready : w₀.term.Ready) (h : Mine w₀ w) :
    Prog.wp (launchPipeline com next) (HandedTo w₀) (fun _ => True) w := by
  have off := offTerminal_vars.table
  apply (closed_startupGateCreate off.toClosed).then_mine h
  intro gate w h
  cases gate with
  | none => exact h
  | some gate =>
    dsimp only
    rw [Prog.wp_bind]
    unfold terminalIsInitialized
    rw [Prog.wp_get_bind, Prog.wp_pure, h.lent.initialized hready]
    apply (closed_launchLoop off.toClosed _ _ _ _).then_mine h
    intro r w h
    cases r with
    | error e => exact h
    | ok l =>
      refine (closed_closeIf off.toClosed _).then_mine h fun _ w h => (off.close _).then_mine h fun _ w h =>
        (closed_jobAdd off _ _).then_mine h ?_
      intro job w h
      split
      · exact (off.close _).then_mine h fun _ w h => (closed_rollbackPipeline off.toClosed _ _).then_mine h
          fun _ w h => h
      · apply (closed_processAddAll off _).then_mine h
        intro r w h
        split
        · exact (off.close _).then_mine h fun _ w h => (closed_rollbackPipeline off.toClosed _ _).then_mine h
            fun _ w h =>
            (off.remove _).then_mine h fun _ w h => h
        · rw [if_pos ⟨by simp [hb], rfl⟩, Prog.wp_bind]
          refine Prog.wp_mono (wp_terminalSetForeground_job h l.pgid) ?_ fun _ h => h
          intro r w h
          dsimp only
          split at h
          · -- the terminal could not be given away
            rw [if_pos (by assumption)]
            refine (off.close _).then_mine h fun _ w h =>
              (closed_rollbackPipeline off.toClosed _ _).then_mine h fun _ w h =>
              (off.remove _).then_mine h ?_
            intro _ w h
            rw [Prog.wp_bind]
            exact Prog.wp_mono (wp_terminalRestore_shell hready h.lent) (fun _ _ h => h) fun _ h => h
          · rw [if_neg (by assumption)]
            exact wp_releasePipeline_lent hb hready h _ _

/-- `finish_foreground_job` on a job that is there. -/
theorem wp_finishForegroundJob_lent (hready : w₀.term.Ready) (h : Lent w₀ w) {i : ℕ} {job : Job}
    (hi : w.jobs[i]? = some job) :
    Prog.wp (finishForegroundJob i true) (fun _ => Mine w₀) (fun _ => True) w := by
  have off := offTerminal_vars.table
  unfold finishForegroundJob
  rw [Prog.wp_get_bind, hi]
  simp only [true_and, if_true]
  split
  · exact (closed_saveTerminalModes offTerminal_vars _ _).then_lent h fun _ w h =>
      wp_restore_then hready h fun _ => closed_finishRestored off _ _
  · exact wp_restore_then hready h fun _ => closed_finishRestored off _ _

theorem wp_waitPipeline_lent {com : Command} (hb : com.background = false) (hready : w₀.term.Ready)
    (h : Lent w₀ w) (hjobs : w.jobs ≠ []) (l : Launch) :
    Prog.wp (waitPipeline com l true) (fun _ => Mine w₀) (fun _ => True) w := by
  have off := offTerminal_vars.table
  obtain ⟨job, js, hj⟩ := List.exists_cons_of_ne_nil hjobs
  unfold waitPipeline
  rw [hb, if_neg (by simp), Prog.wp_get_bind, hj]
  simp only [List.getElem?_cons_zero]
  rw [Prog.wp_bind]
  have hwait := (closed_jobWaitForeground off.toClosed job).wp_lent h (Q := fun _ => Lent w₀) fun _ _ h => h
  refine Prog.wp_mono (Prog.wp_and hwait (wp_jobWait job w)) ?_ fun _ _ => trivial
  intro x w₁ h₁
  have hl := (closed_updateJob offTerminal_vars 0 (fun _ => x.2) w₁).lent h₁.1
  rw [Prog.wp_bind, Prog.wp_modify]
  split
  · apply (closed_rollbackPipeline off.toClosed _ _).then_lent hl
    intro _ w h
    exact wp_restore_then hready h fun _ => off.bind (off.remove _) fun _ => off.pure _
  · have hget : w₁.jobs[0]? = some job := by rw [h₁.2.1.jobs, hj]; rfl
    exact wp_finishForegroundJob_lent hready hl (updateJob_get hget fun _ => x.2)

theorem wp_executePipeline_lent {com : Command} (hb : com.background = false) (next : List Command)
    (hready : w₀.term.Ready) (h : Mine w₀ w) :
    Prog.wp (executePipeline com next) (fun _ => Mine w₀) (fun _ => True) w := by
  unfold executePipeline
  rw [Prog.wp_bind]
  refine Prog.wp_mono (Prog.wp_and (wp_launchPipeline_lent hb next hready h)
    (wp_launchPipeline (R := fun _ => True) com next w)) ?_ fun _ _ => trivial
  intro r w₁ h₁
  cases r with
  | error e => exact h₁.1
  | ok x =>
    obtain ⟨⟨hactive, hl⟩, -, -, -, hlaunched⟩ := h₁
    dsimp only
    rw [hactive]
    exact wp_waitPipeline_lent hb hready hl hlaunched.jobs_ne _

theorem wp_executeSingle_lent {com : Command} (hb : com.background = false) (hready : w₀.term.Ready)
    (h : Mine w₀ w) : Prog.wp (executeSingle com) (fun _ => Mine w₀) (fun _ => True) w := by
  unfold executeSingle
  rw [Prog.wp_bind]
  refine Prog.wp_mono (Prog.wp_and (wp_launchSingle_lent hb hready h)
    (wp_launchSingle (R := fun _ => True) com w)) ?_ fun _ _ => trivial
  intro r w₁ h₁
  cases r with
  | error e => exact h₁.1
  | ok x =>
    obtain ⟨⟨hactive, hl⟩, -, hlaunched⟩ := h₁
    dsimp only
    rw [hactive, waitSingle_eq com (hlaunched.pos _ (List.mem_singleton_self _))]
    exact wp_waitPipeline_lent hb hready hl hlaunched.jobs_ne _

theorem wp_fgPrepare_lent (hready : w₀.term.Ready) (h : Mine w₀ w) :
    Prog.wp fgPrepare (fun r w' => match r with
      | .error _ => Mine w₀ w'
      | .ok _ => Lent w₀ w') (fun _ => True) w := by
  have off := offTerminal_vars.table
  unfold fgPrepare
  rw [Prog.wp_get_bind]
  split
  · exact h
  · rename_i i job _
    rw [Prog.wp_bind]
    refine Prog.wp_mono (wp_terminalSetForeground_job h job.pgid) ?_ fun _ h => h
    intro r w h
    split at h
    · rw [if_pos (by assumption)]
      exact h
    · rw [if_neg (by assumption), Prog.wp_bind]
      -- an error of the calls towards the job is answered with `terminal_restore`
      have undo : ∀ (e : Int) {w}, Lent w₀ w → Prog.wp (do
          let _ ← terminalRestore
          pure (.error e) : Sh (Except Int (ℕ × Job))) (fun r w' => match r with
            | .error _ => Mine w₀ w'
            | .ok _ => Lent w₀ w') (fun _ => True) w := fun e w h => by
        rw [Prog.wp_bind]
        exact Prog.wp_mono (wp_terminalRestore_shell hready h) (fun _ _ h => h) fun _ h => h
      have modes : Prog.wp (fgSetModes job) (fun _ => Lent w₀) (fun _ => True) w := by
        unfold fgSetModes
        split
        · exact wp_terminalSetModes_job h _
        · exact h
      have continued : OffTerminal (fgContinue job) :=
        off.ite (fun _ => closed_jobContinue off.toClosed _) fun _ => off.pure _
      refine Prog.wp_mono modes ?_ fun _ h => h
      intro r w h
      split
      · exact undo _ h
      · apply continued.then_lent h
        intro x w h
        dsimp only
        split
        · exact undo _ h
        · exact (closed_updateJob offTerminal_vars _ _).then_lent h fun _ w h => h

theorem wp_builtinFg_lent (hready : w₀.term.Ready) (h : Mine w₀ w) :
    Prog.wp builtinFg (fun _ => Mine w₀) (fun _ => True) w := by
  have off := offTerminal_vars.table
  unfold builtinFg
  rw [Prog.wp_bind]
  refine Prog.wp_mono (wp_fgPrepare_lent hready h) ?_ fun _ h => h
  intro r w h
  cases r with
  | error e => exact h
  | ok x =>
    refine (closed_jobWaitForeground off.toClosed _).then_lent h fun y w h =>
      (closed_updateJob offTerminal_vars _ _).then_lent h ?_
    intro _ w h
    split
    · exact wp_restore_then hready h fun _ => off.pure _
    · unfold fgFinish
      split
      · exact (closed_saveTerminalModes offTerminal_vars _ _).then_lent h fun _ w h =>
          wp_restore_then hready h fun _ => closed_finishRestored off _ _
      · exact wp_restore_then hready h fun _ => closed_finishRestored off _ _

theorem wp_executeCommand_lent (com : Command) (next : List Command) (hready : w₀.term.Ready) (h : Mine w₀ w) :
    Prog.wp (executeCommand com next) (fun _ => Mine w₀) (fun _ => True) w := by
  have off := offTerminal_vars.table
  cases hb : com.background with
  | true =>
    exact (closed_executeCommand (K := fun _ m => OffTerminal m) off
      (fun hn => absurd hb hn) offTerminal_vars next).wp_mine
      h fun _ _ h => h
  | false =>
    have limit : OffTerminal checkJobLimit :=
      off.get_bind fun _ => off.ite (fun _ => off.pure _) fun _ => off.pure _
    apply limit.then_mine h
    intro r w h
    split
    · exact h
    · split
      · exact wp_executePipeline_lent hb next hready h
      · exact wp_executeSingle_lent hb hready h

end Commands

/-! ### The result -/

/-- The functions of the shell that give the terminal away, or could. -/
inductive JobCommand where
  | command (com : Command) (next : List Command)
  | fg
  | bg

def JobCommand.run : JobCommand → Sh Int
  | .command com next => executeCommand com next
  | .fg => builtinFg
  | .bg => builtinBg

/-- It concerns the background only. -/
def JobCommand.InBackground : JobCommand → Prop
  | .command com _ => com.background = true
  | .fg => False
  | .bg => True

/-- The terminal is changed by somebody else. -/
def Event.SetByOthers : Event → Prop
  | .env (.ttyPgrp _) | .env (.ttyModes _) => True
  | _ => False

/-- The shell makes no call that changes the terminal, and the terminal is the same at every call and at the end if
nobody else changes it. -/
structure LeavesTerminal (w : World) (seg : List Event) (w' : World) : Prop where
  calls : ∀ c ∈ calls seg, ¬c.SetsTerminal
  same : (∀ e ∈ seg, ¬e.SetByOthers) → SameTerminal w.kernel w'.kernel ∧
    ∀ c k js, .call c k js ∈ seg → SameTerminal w.kernel k

section Result

variable {w₀ w w' : World} {α : Type}

theorem Untouched.leaves (h : Untouched w w') : ∃ seg, w'.log = w.log ++ seg ∧ LeavesTerminal w seg w' := by
  induction h with
  | refl => exact ⟨[], by simp, by simp, fun _ => ⟨.refl _, by simp⟩⟩
  | @env w' _ e ih =>
    obtain ⟨seg, hseg, hl⟩ := ih
    refine ⟨seg ++ [.env e], by simp [hseg], fun c hc => hl.calls c (by simpa [MiniShell.calls] using hc), fun ho => ?_⟩
    obtain ⟨hend, hcalls⟩ := hl.same fun x hx => ho x (by simp [hx])
    have he : SameTerminal w'.kernel (w'.kernel.happen e) := by
      have hno := ho (.env e) (by simp)
      cases e <;> first | exact ⟨rfl, rfl⟩ | exact absurd trivial hno
    exact ⟨⟨he.pgrp.trans hend.pgrp, he.modes.trans hend.modes⟩, fun c k js hc => hcalls c k js
      (by simpa using hc)⟩
  | @call w' _ c k hc hk ih =>
    obtain ⟨seg, hseg, hl⟩ := ih
    refine ⟨seg ++ [.call c w'.kernel w'.jobs],
      by simp [hseg, World.record, World.jobs], fun c' hc' => ?_, fun ho => ?_⟩
    · rcases List.mem_append.mp (calls_append seg _ ▸ hc') with h | h
      · exact hl.calls c' h
      · obtain rfl : c' = c := by simpa using h
        exact hc
    · obtain ⟨hend, hcalls⟩ := hl.same fun x hx => ho x (by simp [hx])
      refine ⟨⟨hk.pgrp.trans hend.pgrp, hk.modes.trans hend.modes⟩, fun c' k' js' h => ?_⟩
      rcases List.mem_append.mp h with h | h
      · exact hcalls c' k' js' h
      · obtain ⟨-, rfl, -⟩ : c' = c ∧ k' = w'.kernel ∧ js' = w'.jobs := by simpa using h
        exact hend
  | vars _ ctx script ih =>
    obtain ⟨seg, hseg, hl⟩ := ih
    exact ⟨seg, hseg, hl.calls, hl.same⟩

theorem OffTerminal.leaves {m : Sh α} (h : OffTerminal m) (w : World) :
    LeavesTerminal w (logOf m w) (m w).state := by
  obtain ⟨seg, hseg, hl⟩ := (h w).leaves
  unfold logOf
  rwa [hseg, List.drop_left]

/-- When a fair run returns the terminal is the shell's. -/
theorem owned_of_wp {m : Sh α} {r : α} (h : Prog.wp m (fun _ => Mine w) (fun _ => True) w) (hd : m w = .done r w')
    (hf : FairTerminal w (logOf m w)) : w'.OwnsTerminal := by
  obtain ⟨seg, hs, hown⟩ := Prog.wp_done h hd
  refine hown ?_
  unfold logOf at hf
  rwa [hd, Outcome.state_done, hs.log, List.drop_left] at hf

theorem JobCommand.wp_run (m : JobCommand) (hready : w.term.Ready) (hown : w.OwnsTerminal) :
    Prog.wp m.run (fun _ => Mine w) (fun _ => True) w := by
  cases m with
  | command com next => exact wp_executeCommand_lent com next hready (.refl hown)
  | fg => exact wp_builtinFg_lent hready (.refl hown)
  | bg => exact (closed_builtinBg offTerminal_vars).wp_mine (.refl hown) fun _ _ h => h

theorem JobCommand.offTerminal {m : JobCommand} (h : m.InBackground) : OffTerminal m.run := by
  cases m with
  | command com next =>
    exact closed_executeCommand (K := fun _ m => OffTerminal m) offTerminal_vars.table (fun hn => absurd h hn)
      offTerminal_vars next
  | fg => exact absurd h id
  | bg => exact closed_builtinBg (K := fun _ m => OffTerminal m) offTerminal_vars

/-- **The shell always gets its terminal back**, from `execute_command`, `fg` and `bg`; and a command in the background
does not touch it.  `FairTerminal` also excludes that others change the terminal while the shell's own group is in its
foreground. -/
theorem jobCommand_terminal (m : JobCommand) (hready : w.term.Ready) :
    (w.OwnsTerminal → ∀ r w', m.run w = .done r w' → FairTerminal w (logOf m.run w) → w'.OwnsTerminal) ∧
    (m.InBackground → LeavesTerminal w (logOf m.run w) (m.run w).state) :=
  ⟨fun hown _ _ hd hf => owned_of_wp (m.wp_run hready hown) hd hf,
    fun hb => (JobCommand.offTerminal hb).leaves w⟩

end Result

/-- A stopped job, with the terminal's modes 5; the job sets them to 9 and is stopped again, and `terminal_restore` is
interrupted. -/
def lentWorld : World :=
  let w := freshShell [.res .ok, .res .ok, .res .ok, .env (.ttyModes 9), .env (.stop 10 SIGTSTP),
    .res .ok, .res .ok,
    .res (.fail .EINTR), .res .ok, .res .ok]
  { w with
    kernel := { w.kernel with children := [⟨10, 10, .stopped SIGTSTP true⟩] }
    ctx := { w.ctx with jobs := ⟨[⟨1, 10, .stopped, [], [⟨10, .stopped, 0, false⟩], 5, true⟩], 2⟩ }
    term := ⟨100, true, true, 0⟩ }

theorem lentWorld_terminal :
    (JobCommand.fg.run lentWorld).state.OwnsTerminal ∧
      LeavesTerminal lentWorld (logOf JobCommand.bg.run lentWorld) (JobCommand.bg.run lentWorld).state := by
  have hready : lentWorld.term.Ready := ⟨rfl, by decide, rfl⟩
  have hdone : JobCommand.fg.run lentWorld = .done ok (JobCommand.fg.run lentWorld).state := by decide +kernel
  exact ⟨(jobCommand_terminal .fg hready).1 ⟨rfl, rfl⟩ _ _ hdone (by decide +kernel),
    (jobCommand_terminal .bg hready).2 trivial⟩

end MiniShell
