import MiniShell.Spec.Session
import MiniShell.Spec.Wiring

/-!
# The descriptors of the shell

Every descriptor the shell opens for itself is in a static variable, and is closed before the variable is
forgotten.

* `Holds n F es p` — the shell has the descriptors `es` on top of the table `F`, and the ends of the pipe `n`
  that its variables hold are among them: so they were at every call that `main` has made;
* `OpensNothing m` — `m` opens and closes nothing, and makes its calls with what is open when it starts;
* `Neutral m` — `m` keeps this, and the variables that hold descriptors;
* `Furnished F p` — what the variables hold is all there is on top of `F`: so it is after each of the functions
  that open and close descriptors;
* `wp_ensureStandardFds` — the standard descriptors that are closed are opened first.
-/

namespace MiniShell

open MiniShell.Lib

/-! ### The variables that hold descriptors -/

/-- The ends of the event pipe that are set refer to the pipe `n`. -/
def EventIs (n : ℕ) (eventPipe : Int × Int) (fds : FdTable Fd) : Prop :=
  (0 ≤ eventPipe.1 → descOf fds eventPipe.1.toNat = some (.pipeRead n)) ∧
    (0 ≤ eventPipe.2 → descOf fds eventPipe.2.toNat = some (.pipeWrite n))

/-- Both ends of the event pipe are closed. -/
def Unset (eventPipe : Int × Int) : Prop := eventPipe.1 < 0 ∧ eventPipe.2 < 0

/-- The descriptor in a variable, -1 for none. -/
def held (v : Int) (d : Desc) : List (ℕ × Desc) := if 0 ≤ v then [(v.toNat, d)] else []

/-- The variables that hold descriptors. -/
def ShellProcess.statics (p : ShellProcess) : (Int × Int) × Int := (p.eventPipe, p.terminalFd)

/-- The descriptors in the variables, where the event pipe is the pipe `n` and the terminal the file `m`. -/
def ShellProcess.holdings (n m : ℕ) (p : ShellProcess) : List (ℕ × Desc) :=
  held p.eventPipe.2 (.pipeWrite n) ++ (held p.eventPipe.1 (.pipeRead n) ++ held p.terminalFd (.file m))

/-- The ends of the event pipe that are in the variables are ends of the pipe `n`, and are among `es`. -/
def ShellProcess.PipeIn (n : ℕ) (p : ShellProcess) (es : List (ℕ × Desc)) : Prop :=
  held p.eventPipe.1 (.pipeRead n) ⊆ es ∧ held p.eventPipe.2 (.pipeWrite n) ⊆ es

/-- The shell has the descriptors `es` on top of the table `F`.  The ends of the event pipe that are set are among them,
and refer to the pipe `n`; so they have at every call. -/
structure Holds (n : ℕ) (F : FdTable Fd) (es : List (ℕ × Desc)) (p : ShellProcess) : Prop where
  intact : Intact F es p.world
  pipe : p.PipeIn n es
  heard : ∀ x ∈ p.moments, EventIs n x.eventPipe x.fds

section Holds

variable {F : FdTable Fd} {es es' : List (ℕ × Desc)} {w w' : World} {p p' : ShellProcess} {v : Int}
  {d : Desc} {n : ℕ}

theorem Unset.is {eventPipe : Int × Int} (h : Unset eventPipe) (n : ℕ) (fds : FdTable Fd) :
    EventIs n eventPipe fds :=
  ⟨fun hr => absurd hr (not_le.mpr h.1), fun hw => absurd hw (not_le.mpr h.2)⟩

theorem eventPipe_eq (h : p'.statics = p.statics) : p'.eventPipe = p.eventPipe := congrArg Prod.fst h

theorem terminalFd_eq (h : p'.statics = p.statics) : p'.terminalFd = p.terminalFd := congrArg Prod.snd h

@[simp] theorem held_neg : held (-1) d = [] := rfl

theorem held_natCast (x : ℕ) : held x d = [(x, d)] := by simp [held]

theorem mem_held (hv : 0 ≤ v) : (v.toNat, d) ∈ held v d := by simp [held, hv]

theorem ShellProcess.PipeIn.mono (h : p.PipeIn n es) (hsub : es ⊆ es') : p.PipeIn n es' :=
  ⟨List.Subset.trans h.1 hsub, List.Subset.trans h.2 hsub⟩

theorem ShellProcess.PipeIn.congr (h : p.PipeIn n es) (he : p'.eventPipe = p.eventPipe) : p'.PipeIn n es := by
  unfold ShellProcess.PipeIn at h ⊢
  rwa [he]

theorem ShellProcess.PipeIn.is (h : p.PipeIn n es) {G : FdTable Fd} (hG : OnTop F es G) : EventIs n p.eventPipe G :=
  ⟨fun hv => hG.top _ (h.1 (mem_held hv)), fun hv => hG.top _ (h.2 (mem_held hv))⟩

theorem Holds.is (h : Holds n F es p) : EventIs n p.eventPipe p.fds := h.pipe.is h.intact.table

/-- A call has been made. -/
theorem Holds.called (h : Holds n F es p) (call : SetupCall) (hi : Intact F es' p'.world)
    (hp : p'.PipeIn n es')
    (hm : p'.moments = p.moments ++ [p.moment call]) : Holds n F es' p' :=
  ⟨hi, hp, fun x hx => by
    rw [hm, List.mem_append, List.mem_singleton] at hx
    rcases hx with hx | rfl
    · exact h.heard x hx
    · exact h.is⟩

/-- A change of other variables. -/
theorem Holds.congr (h : Holds n F es p) (hk : p'.kernel = p.kernel) (he : p'.eventPipe = p.eventPipe)
    (hm : p'.moments = p.moments) : Holds n F es p' :=
  ⟨h.intact.congr hk, h.pipe.congr he, hm ▸ h.heard⟩

theorem Holds.perm (h : Holds n F es p) (hp : es.Perm es') : Holds n F es' p where
  intact := ⟨h.intact.table.perm hp, h.intact.standard, h.intact.numbered⟩
  pipe := h.pipe.mono hp.subset
  heard := h.heard

/-- As long as no call has found an end in its variable, the pipe can be any. -/
theorem Holds.anyPipe (h : Holds n F es p) (hp : Unset p.eventPipe)
    (hm : ∀ x ∈ p.moments, Unset x.eventPipe) (k : ℕ) :
    Holds k F es p where
  intact := h.intact
  pipe := ⟨by rw [held, if_neg (not_le.mpr hp.1)]; exact List.nil_subset _,
    by rw [held, if_neg (not_le.mpr hp.2)]; exact List.nil_subset _⟩
  heard x hx := (hm x hx).is k x.fds

theorem Intact.drift (h : Intact F es w) (used rest : List Item) : Intact F es (w.drift used rest) where
  table := by
    rw [World.drift_fds]
    exact h.table
  standard := h.standard
  numbered := h.numbered.happens (envs used)

theorem Holds.drift (h : Holds n F es p) (used rest : List Item) :
    Holds n F es (p.setWorld (p.world.drift used rest)) := ⟨h.intact.drift used rest, h.pipe, h.heard⟩

/-- The event pipe is closed, or is open above the standard descriptors. -/
theorem Holds.eventOpen (h : Holds n F es p) (hw : Intact F es w) : EventOpen p.eventPipe w.kernel.fds := by
  have key : ∀ v d, held v d ⊆ es → ∀ x : ℕ, (x : Int) = v → 2 < x ∧ w.kernel.fds.IsOpen x := by
    rintro v d hsub x rfl
    have hx : (x, d) ∈ es := hsub (by simp [held])
    exact ⟨hw.above hx, isOpen_iff_desc.mpr (by rw [hw.table.top _ hx]; exact Option.some_ne_none _)⟩
  intro x hx
  rcases hx with hx | hx
  · exact key _ _ h.pipe.1 x hx
  · exact key _ _ h.pipe.2 x hx

end Holds

/-! ### What the programs of `main` are made of -/

/-- A property that holds of a program of `main` when it holds of its calls, of those that open and close nothing. -/
structure ClosedSetup (K : (α : Type) → Main α → Prop) : Prop where
  pure : ∀ {α : Type} (a : α), K α (Pure.pure a)
  block : ∀ {α : Type}, K α Prog.block
  bind : ∀ {α β : Type} {m : Main α} {f : α → Main β}, K α m → (∀ a, K β (f a)) → K β (m >>= f)
  get_bind : ∀ {α : Type} {f : ShellProcess → Main α}, (∀ p, K α (f p)) → K α (Prog.get >>= f)
  getFd : ∀ fd, K _ (getFd fd)
  getFl : ∀ fd, K _ (getFl fd)
  isatty : ∀ fd, K _ (isatty fd)
  tcgetpgrp : K _ tcgetpgrp
  setNonblock : ∀ fd, K _ (setNonblock fd)
  setCloexecFlag : ∀ fd, K _ (setCloexecFlag fd)
  killGroup : ∀ group, K _ (killGroup group)
  setpgidSelf : K _ setpgidSelf
  sigprocmask : ∀ blocked, K _ (sigprocmask blocked)
  sigaction : ∀ sig d, K _ (sigaction sig d)
  setTerm : ∀ term : ShellProcess → Terminal, K Unit (Prog.modify fun p => p.setTerm (term p))
  tcgetattr : K _ (liftWorld tcgetattr)
  terminalSetPgrp : ∀ pgid, K _ (liftWorld (terminalSetPgrp pgid))
  terminalRestore : K _ (liftWorld terminalRestore)

/-- The property also holds of the calls that open and close descriptors, and of the variables that hold them. -/
structure ClosedMain (K : (α : Type) → Main α → Prop) : Prop extends ClosedSetup K where
  setupClose : ∀ fd, K _ (setupClose fd)
  setupPipe : K _ setupPipe
  openDevice : ∀ device flags, K _ (openDevice device flags)
  modify : ∀ {f : ShellProcess → ShellProcess}, (∀ p, ∃ term, (f p).session = (p.setTerm term).session) →
    K Unit (Prog.modify f)

section Closed

variable {K : (α : Type) → Main α → Prop} {α : Type}

theorem ClosedSetup.ite (_ : ClosedSetup K) {c : Prop} [Decidable c] {m m' : Main α} (hm : K α m)
    (hm' : K α m') :
    K α (if c then m else m') := by
  split
  · exact hm
  · exact hm'

theorem ClosedSetup.loop (h : ClosedSetup K) {υ : Type} {μ : ShellProcess → ℕ}
    {body : υ → Main (υ ⊕ α)} (hb : ∀ t, K _ (body t)) (t : υ) : K α (Prog.loop μ body t) := by
  have key : ∀ n t, K α (Prog.rounds body n t) := by
    intro n
    induction n with
    | zero => exact fun _ => h.block
    | succ n ih =>
      refine fun t => h.bind (hb t) ?_
      intro x
      cases x with
      | inl t' => exact ih t'
      | inr a => exact h.pure a
  exact h.get_bind fun p => key (μ p + 1) t

theorem closed_getpgrp (h : ClosedSetup K) : K _ getpgrp := h.get_bind fun _ => h.pure _

theorem closed_eventSetFlags (h : ClosedSetup K) (fd : ℕ) : K _ (eventSetFlags fd) := by
  apply h.bind (h.getFl fd)
  intro r
  cases r with
  | badFd | err => exact h.pure _
  | flags =>
    apply h.bind (h.setNonblock fd)
    intro r
    cases r with
    | err => exact h.pure _
    | ok =>
      apply h.bind (h.getFd fd)
      intro r
      cases r with
      | badFd | err => exact h.pure _
      | flags =>
        apply h.bind (h.setCloexecFlag fd)
        intro r
        cases r <;> exact h.pure _

theorem closed_awaitForeground (h : ClosedSetup K) (group : Int) : K _ (awaitForeground group) := by
  refine h.loop (fun group => h.bind h.tcgetpgrp fun r => ?_) group
  cases r with
  | none => exact h.pure _
  | some foreground =>
    refine h.ite (h.pure _) (h.ite (h.pure _) (h.bind (h.killGroup group) fun r => ?_))
    cases r with
    | ok => exact h.bind (closed_getpgrp h) fun _ => h.pure _
    | err e => cases e <;> exact h.pure _

theorem closed_leadGroup (h : ClosedSetup K) (group : Int) : K _ (leadGroup group) := by
  refine h.get_bind fun p => h.ite (h.bind h.setpgidSelf fun r => ?_) (h.pure _)
  cases r with
  | ok => exact h.bind (closed_getpgrp h) fun _ => h.pure _
  | err e =>
    cases e
    all_goals first | exact h.pure _ | exact h.bind (closed_getpgrp h) fun _ => h.pure _

theorem closed_sigactions (h : ClosedSetup K) (l : List (Sig × Disposition)) : K _ (sigactions l) := by
  induction l with
  | nil => exact h.pure _
  | cons x l ih =>
    refine h.bind (h.sigaction x.1 x.2) fun r => ?_
    cases r with
    | ok => exact ih
    | err => exact h.pure _

theorem closed_signalShutdown (h : ClosedSetup K) : K _ signalShutdown := by
  refine h.get_bind fun p => h.bind (h.sigprocmask _) fun r => ?_
  cases r with
  | err => exact h.pure _
  | ok =>
    exact h.bind (h.sigaction _ _) fun _ => h.bind (h.sigaction _ _) fun _ => h.bind (h.sigprocmask _)
      fun _ => h.pure _

theorem closed_eventShut (h : ClosedMain K) : K _ eventShut := h.get_bind fun p => by
  have read : K _ (if p.eventPipe.1 ≥ 0 then do
      Prog.modify fun p => { p with eventPipe := (-1, p.eventPipe.2) }
      setupClose p.eventPipe.1.toNat
    else pure ()) := h.ite (h.bind (h.modify fun p => ⟨p.term, rfl⟩) fun _ => h.setupClose _) (h.pure _)
  exact h.ite (h.bind (h.modify fun p => ⟨p.term, rfl⟩) fun _ => h.bind (h.setupClose _) fun _ => read) read

theorem closed_eventInit (h : ClosedMain K) : K _ eventInit := by
  have shutdown : K _ (do
      eventShut
      pure (-1) : Main Int) := h.bind (closed_eventShut h) fun _ => h.pure _
  refine h.get_bind fun p => h.ite (h.pure _) ?_
  refine h.ite (h.bind (closed_eventShut h) fun _ => h.bind h.setupPipe fun ends => ?_)
    (h.bind h.setupPipe fun ends => ?_)
  -- with or without an `event_shut` before, the pipe is made in the same way
  all_goals
    cases ends with
    | none => exact h.bind (h.modify fun p => ⟨p.term, rfl⟩) fun _ => h.pure _
    | some ends =>
      refine h.bind (h.modify fun p => ⟨p.term, rfl⟩) fun _ =>
        h.bind (closed_eventSetFlags h.toClosedSetup _) fun _ =>
        h.ite shutdown (h.bind (closed_eventSetFlags h.toClosedSetup _) fun _ => h.ite shutdown (h.pure _))

theorem closed_terminalFail (h : ClosedMain K) : K _ terminalFail :=
  h.get_bind fun _ => h.bind (h.setupClose _) fun _ => h.bind (h.modify fun _ => ⟨_, rfl⟩) fun _ => h.pure _

theorem closed_terminalTake (h : ClosedMain K) (group : Int) (old : List Sig) : K _ (terminalTake group old) := by
  have fail := closed_terminalFail h
  have restoreFail : K _ (do
      let _ ← sigprocmask old
      terminalFail) := h.bind (h.sigprocmask old) fun _ => fail
  apply h.bind (closed_leadGroup h.toClosedSetup group)
  intro r
  cases r with
  | none => exact restoreFail
  | some group =>
    refine h.bind (h.setTerm _) fun _ => h.bind (h.terminalSetPgrp _) fun _ => h.ite restoreFail ?_
    apply h.bind (h.sigprocmask old)
    intro r
    cases r with
    | err => exact fail
    | ok =>
      apply h.bind h.tcgetattr
      intro r
      obtain ⟨r, res⟩ := r
      cases r with
      | none => exact fail
      | some modes => exact h.bind (h.setTerm _) fun _ => h.pure _

theorem closed_terminalInit (h : ClosedMain K) : K _ terminalInit := by
  have fail := closed_terminalFail h
  refine h.bind (h.modify fun _ => ⟨_, rfl⟩) fun _ => h.bind (h.isatty 0) fun _ => h.ite (h.pure _) ?_
  refine h.bind (h.openDevice _ _) fun r => ?_
  cases r with
  | none => exact h.pure _
  | some fd =>
    refine h.bind (h.modify fun p => ⟨p.term, rfl⟩) fun _ =>
      h.bind (closed_getpgrp h.toClosedSetup) fun group =>
      h.bind (closed_awaitForeground h.toClosedSetup group) fun r => ?_
    cases r with
    | none => exact fail
    | some group =>
      refine h.get_bind fun p => h.bind (h.sigprocmask _) fun r => ?_
      cases r with
      | err => exact fail
      | ok => exact closed_terminalTake h group _

theorem closed_terminalShutdown (h : ClosedMain K) : K _ terminalShutdown := h.get_bind fun p => by
  have last : K _ (do
      if p.terminalFd ≥ 0 then setupClose p.terminalFd.toNat
      Prog.modify fun p =>
        { p.setTerm { p.term with initialized := false, shellPgid := -1, shellModesValid := false } with
          terminalFd := -1 } : Main Unit) :=
    h.ite (h.bind (h.setupClose _) fun _ => h.modify fun _ => ⟨_, rfl⟩) (h.modify fun _ => ⟨_, rfl⟩)
  exact h.ite (h.bind h.terminalRestore fun _ => last) last

end Closed

/-! ### Functions of the shell that open and close nothing -/

section OpensNothing

variable {α β : Type} {w₁ w₂ w₃ : World}

/-- A call that is made with the descriptors `fds`. -/
def Event.With (fds : FdTable Fd) : Event → Prop
  | .call _ k _ => k.fds = fds
  | .env _ => True

/-- From `w` to `w'` the descriptors have been what they are at `w`, and so they were at every call. -/
structure SameFds (w w' : World) : Prop where
  fds : w'.kernel.fds = w.kernel.fds
  log : LogExt (Event.With w.kernel.fds) w w'

theorem SameFds.refl (w : World) : SameFds w w := ⟨rfl, .refl w⟩

theorem SameFds.trans (h : SameFds w₁ w₂) (h' : SameFds w₂ w₃) : SameFds w₁ w₃ :=
  ⟨h'.fds.trans h.fds, h.log.trans (h.fds ▸ h'.log)⟩

/-- The program opens and closes nothing, and makes its calls with what is open when it starts. -/
def OpensNothing (m : Sh α) : Prop := ∀ w, SameFds w (m w).state

theorem OpensNothing.bind {m : Sh α} {f : α → Sh β} (hm : OpensNothing m) (hf : ∀ a, OpensNothing (f a)) :
    OpensNothing (m >>= f) :=
  Prog.state_bind (T := SameFds) SameFds.trans hm hf

theorem opensNothing_syscall {f : Choice → Kernel → α × Kernel} {call : α → Call}
    (h : ∀ c k, (f c k).2.fds = k.fds) :
    OpensNothing (syscall f call) := by
  intro w
  refine ⟨keepsFds_syscall h w, Prog.wp_state (wp_syscall fun used c rest _ => ?_)⟩
  refine ⟨(envs used).map Event.env ++ [_], List.append_assoc .., fun e he => ?_⟩
  rcases List.mem_append.mp he with he | he
  · obtain ⟨e', -, rfl⟩ := List.mem_map.mp he
    trivial
  · rw [List.mem_singleton.mp he]
    exact World.drift_fds ..

theorem opensNothing_waitpid (target : Int) (opts : WaitOpts) : OpensNothing (waitpid target opts) := by
  intro w
  -- what has happened during the wait
  have events : ∀ (es : List Env) (l : List Event), (∀ e ∈ l, e.With w.kernel.fds) →
      ∀ e ∈ Event.call (.waitpid target opts) w.kernel w.jobs :: (es.map Event.env ++ l),
        e.With w.kernel.fds := by
    intro es l hl e he
    rcases List.mem_cons.mp he with rfl | he
    · rfl
    · rcases List.mem_append.mp he with he | he
      · obtain ⟨e', -, rfl⟩ := List.mem_map.mp he
        trivial
      · exact hl e he
  refine ⟨keepsFds_waitpid target opts w, Prog.wp_state (wp_ask (fun r w' h _ _ => ?_) fun _ w' h => ?_)⟩
  · obtain ⟨es, k, hk, -, hlog⟩ := h.answer
    refine ⟨_, hlog, events es _ fun e he => ?_⟩
    rw [List.mem_singleton.mp he, hk]
    exact World.foldl_happen_fds ..
  · obtain ⟨es, hk, hlog⟩ := h.log
    refine ⟨_, hlog, events es _ fun e he => ?_⟩
    rw [List.mem_singleton.mp he]
    exact (congrArg Kernel.fds hk).trans (World.foldl_happen_fds ..)

theorem opensNothing_wait : ClosedWait fun _ m => OpensNothing m where
  pure := fun _ => SameFds.refl
  block := SameFds.refl
  bind := OpensNothing.bind
  get_bind := fun hf w => hf w w
  kill := fun _ _ => opensNothing_syscall fun _ _ => kill_fds
  waitpid := opensNothing_waitpid
  nanosleep := opensNothing_syscall fun _ _ => rfl
  modify := fun hf w => by
    obtain ⟨ctx, hw, -⟩ := hf w
    rw [show (Prog.modify _ w).state = _ from hw]
    exact ⟨rfl, [], (List.append_nil _).symm, by simp⟩

theorem opensNothing_retry {call : Sh Res} (h : OpensNothing call) : OpensNothing (retry call) :=
  opensNothing_wait.loop (fun _ => h.bind fun r => by split <;> exact fun _ => .refl _) ()

theorem opensNothing_tcgetattr : OpensNothing tcgetattr := opensNothing_syscall fun c _ => by cases c <;> rfl

theorem opensNothing_terminalSetPgrp (pgid : Int) : OpensNothing (terminalSetPgrp pgid) := by
  have call : OpensNothing (retry (tcsetpgrp pgid)) :=
    opensNothing_retry (opensNothing_syscall fun c _ => by cases c <;> rfl)
  exact call.bind fun r => by cases r <;> exact SameFds.refl

theorem opensNothing_terminalSetModes (modes : Termios) : OpensNothing (terminalSetModes modes) := by
  have call : OpensNothing (retry (tcsetattr modes)) :=
    opensNothing_retry (opensNothing_syscall fun c _ => by cases c <;> rfl)
  have h := opensNothing_wait
  exact h.get_bind fun _ => h.ite (h.pure _) (call.bind fun r => by cases r <;> exact SameFds.refl)

theorem opensNothing_terminalRestore : OpensNothing terminalRestore := by
  have h := opensNothing_wait
  refine h.get_bind fun _ => h.ite (h.pure _) (h.ite (h.pure _) ?_)
  refine (opensNothing_terminalSetPgrp _).bind fun _ => h.ite (h.pure _) (h.ite ?_ (h.pure _))
  exact (opensNothing_terminalSetModes _).bind fun _ => h.ite (h.pure _) (h.pure _)

end OpensNothing

/-! ### Programs that leave the descriptors alone -/

section Neutral

variable {α β ρ : Type} {F : FdTable Fd} {es : List (ℕ × Desc)} {p : ShellProcess} {n : ℕ}

/-- The rule of a call. -/
theorem wp_setupCall {f : Choice → ShellProcess → ρ × ShellProcess} {call : ρ → SetupCall}
    {Q : ρ → ShellProcess → Prop} {R : ShellProcess → Prop}
    (h : ∀ used c rest, Q (f c (p.setWorld (p.world.drift used rest))).1
      { (f c (p.setWorld (p.world.drift used rest))).2 with
        moments := (f c (p.setWorld (p.world.drift used rest))).2.moments ++
          [(p.setWorld (p.world.drift used rest)).moment (call (f c (p.setWorld (p.world.drift used rest))).1)] }) :
    Prog.wp (setupCall f call) Q R p := h _ _ _

theorem wp_liftSession {m : Prog Session α} {Q : α → ShellProcess → Prop} {R : ShellProcess → Prop}
    (h : Prog.wp m (fun a s => Q a { p with session := s }) (fun s => R { p with session := s }) p.session) :
    Prog.wp (liftSession m) Q R p := by
  unfold Prog.wp liftSession at *
  cases hm : m p.session with
  | done a s => rw [hm] at h; exact h
  | blocked s => rw [hm] at h; exact h

/-- The program keeps the descriptors accounted for, and the variables that hold them. -/
def Neutral (m : Main α) : Prop := ∀ n F es p, Holds n F es p →
  Prog.wp m (fun _ p' => Holds n F es p' ∧ p'.statics = p.statics) (fun _ => True) p

theorem neutral_pure (a : α) : Neutral (pure a) := fun _ _ _ _ h => ⟨h, rfl⟩

theorem Neutral.wp_bind {m : Main α} {f : α → Main β} {Q : β → ShellProcess → Prop} (hm : Neutral m)
    (h : Holds n F es p) (hf : ∀ a p', Holds n F es p' → p'.statics = p.statics →
      Prog.wp (f a) Q (fun _ => True) p') :
    Prog.wp (m >>= f) Q (fun _ => True) p := by
  rw [Prog.wp_bind]
  exact Prog.wp_mono (hm n F es p h) (fun a p' h' => hf a p' h'.1 h'.2) fun _ h => h

theorem Neutral.bind {m : Main α} {f : α → Main β} (hm : Neutral m) (hf : ∀ a, Neutral (f a)) :
    Neutral (m >>= f) :=
  fun n F es _ h => hm.wp_bind h fun a p' h' hs =>
    Prog.wp_mono (hf a n F es p' h') (fun _ _ h'' => ⟨h''.1, h''.2.trans hs⟩) fun _ h => h

theorem neutral_get_bind {f : ShellProcess → Main β} (hf : ∀ p, Neutral (f p)) : Neutral (Prog.get >>= f) :=
  fun n F es p h => hf p n F es p h

theorem neutral_modify {f : ShellProcess → ShellProcess} (hk : ∀ p, (f p).kernel = p.kernel)
    (hs : ∀ p, (f p).statics = p.statics) (hm : ∀ p, (f p).moments = p.moments) : Neutral (Prog.modify f) :=
  fun _ _ _ p h => ⟨h.congr (hk p) (eventPipe_eq (hs p)) (hm p), hs p⟩

/-- A call that changes no descriptor. -/
theorem neutral_setupCall {f : Choice → ShellProcess → ρ × ShellProcess} {call : ρ → SetupCall}
    (hi : ∀ c p F es, Intact F es p.world → Intact F es (f c p).2.world)
    (hs : ∀ c p, (f c p).2.statics = p.statics) (hm : ∀ c p, (f c p).2.moments = p.moments) :
    Neutral (setupCall f call) := fun n F es p h =>
  wp_setupCall fun used c rest => by
    have hd := h.drift used rest
    have hstatics : (p.setWorld (p.world.drift used rest)).statics = p.statics := rfl
    generalize p.setWorld (p.world.drift used rest) = p₁ at hd hstatics
    have hpipe : (f c p₁).2.eventPipe = p₁.eventPipe := eventPipe_eq (hs c p₁)
    refine ⟨hd.called (call (f c p₁).1) (hi c p₁ F es hd.intact) (hd.pipe.congr hpipe) ?_, ?_⟩
    · exact congrArg (· ++ _) (hm c p₁)
    · exact (hs c p₁).trans hstatics

/-- A call that changes the kernel alone, and of its descriptors only the flags. -/
theorem neutral_setupKernel {f : Choice → Kernel → ρ × Kernel} {call : ρ → SetupCall}
    (hd : ∀ c k x, descOf (f c k).2.fds x = descOf k.fds x) (hn : ∀ c k, k.Numbered → (f c k).2.Numbered) :
    Neutral (setupKernel f call) :=
  neutral_setupCall (fun c p _ _ h => ⟨h.table.congr (.of_desc (hd c p.kernel)), h.standard, hn c _ h.numbered⟩)
    (fun _ _ => rfl) fun _ _ => rfl

/-- A call that changes nothing. -/
theorem neutral_query {f : Choice → Kernel → ρ × Kernel} {call : ρ → SetupCall}
    (hf : ∀ c k, (f c k).2 = k) :
    Neutral (setupKernel f call) :=
  neutral_setupKernel (fun c k x => by rw [hf]) fun c k h => by rwa [hf]

/-- A call that changes other variables of the process, when it succeeds. -/
theorem neutral_plain {g : ShellProcess → ShellProcess} {call : Res → SetupCall}
    (hi : ∀ p F es, Intact F es p.world → Intact F es (g p).world) (hs : ∀ p, (g p).statics = p.statics)
    (hm : ∀ p, (g p).moments = p.moments) :
    Neutral (setupCall (fun c p => match c with
      | .fail e => (.err e, p)
      | _ => (.ok, g p)) call) := by
  refine neutral_setupCall (fun c p F es h => ?_) (fun c p => ?_) fun c p => ?_
  · cases c <;> first | exact h | exact hi p F es h
  · cases c <;> first | exact hs p | rfl
  · cases c <;> first | exact hm p | rfl

theorem neutral_setCloexecFlag (fd : ℕ) : Neutral (setCloexecFlag fd) :=
  neutral_setupKernel (fun c k x => by
    unfold Kernel.setCloexec
    split
    · rfl
    · exact @descOf_update k.fds fd x (fun d => { d with cloexec := true }) fun _ => rfl) fun c _ h =>
        h.setCloexec fd c

theorem neutral_killGroup (group : Int) : Neutral (killGroup group) := by
  intro n F es p h
  have hquery : Neutral (setupKernel (fun c k => (plainRes c, k)) (.kill (-group) SIGTTIN)) :=
    neutral_query fun _ _ => rfl
  unfold Prog.wp killGroup
  by_cases hs : p.world.script = []
  · rw [if_pos hs]
    trivial
  · rw [if_neg hs]
    exact hquery n F es p h

/-- Every call that is made by a function of the commands is recorded. -/
theorem liftWorld_recorded {m : Sh α} {c : Call} {k : Kernel} {js : List Job}
    (h : .call c k js ∈ (m p.world).state.log.drop p.world.log.length) :
    ⟨.shell c, k.fds, p.eventPipe⟩ ∈ (liftWorld m p).state.moments := by
  unfold liftWorld
  cases hrun : m p.world with
  | done a w | blocked w =>
    rw [hrun] at h
    exact List.mem_append_right _ (List.mem_filterMap.mpr ⟨_, h, rfl⟩)

theorem Holds.advance (h : Holds n F es p) {w : World} (hs : SameFds p.world w) (hn : w.kernel.Numbered) :
    Holds n F es (p.advance w) where
  intact := ⟨hs.fds ▸ h.intact.table, h.intact.standard, hn⟩
  pipe := h.pipe
  heard x hx := by
    obtain ⟨seg, hlog, hseg⟩ := hs.log
    rcases List.mem_append.mp hx with hx | hx
    · exact h.heard x hx
    · rw [hlog, List.drop_left] at hx
      obtain ⟨e, he, hmoment⟩ := List.mem_filterMap.mp hx
      cases e with
      | env => cases hmoment
      | call c k js =>
        cases hmoment
        have hk : k.fds = p.fds := hseg _ he
        exact (congrArg (EventIs n p.eventPipe) hk).mpr h.is

/-- A function of the shell that changes no descriptor. -/
theorem neutral_liftWorld {m : Sh α} (hs : OpensNothing m) (hn : KeepsNumbers m) : Neutral (liftWorld m) := by
  intro n F es p h
  have hi := h.advance (hs p.world) (hn p.world h.intact.numbered)
  unfold Prog.wp liftWorld
  cases hrun : m p.world with
  | done a w =>
    rw [hrun] at hi
    exact ⟨hi, rfl⟩
  | blocked w => trivial

theorem neutral_shellContextDestroy : Neutral (liftWorld shellContextDestroy) :=
  neutral_liftWorld opensNothing_wait.shellContextDestroy
    (ClosedWait.shellContextDestroy (K := fun _ m => KeepsNumbers m) keepsNumbers_vars.wait)

theorem neutral_flush : Neutral (liftWorld (retry fflush)) :=
  neutral_liftWorld (opensNothing_retry (opensNothing_syscall fun _ _ => rfl))
    (Closed.retry (K := fun _ m => KeepsNumbers m) keepsNumbers_tty.toClosed keepsNumbers_tty.fflush)

/-- The calls that leave the descriptors alone. -/
theorem neutral_setup : ClosedSetup fun _ m => Neutral m where
  pure := neutral_pure
  block := fun _ _ _ _ _ => trivial
  bind := Neutral.bind
  get_bind := fun hf => neutral_get_bind hf
  getFd := fun _ => neutral_query fun _ _ => rfl
  getFl := fun _ => neutral_query fun _ _ => rfl
  isatty := fun _ => neutral_query fun _ _ => rfl
  tcgetpgrp := neutral_query fun _ _ => rfl
  setNonblock := fun _ => neutral_plain (fun _ _ _ h => h) (fun _ => rfl) fun _ => rfl
  setCloexecFlag := neutral_setCloexecFlag
  killGroup := neutral_killGroup
  setpgidSelf := neutral_plain (fun _ _ _ h => ⟨h.table, h.standard, h.numbered⟩) (fun _ => rfl) fun _ => rfl
  sigprocmask := fun _ => neutral_plain (fun _ _ _ h => h) (fun _ => rfl) fun _ => rfl
  sigaction := fun _ _ => neutral_plain (fun _ _ _ h => h) (fun _ => rfl) fun _ => rfl
  setTerm := fun _ => neutral_modify (fun _ => rfl) (fun _ => rfl) fun _ => rfl
  tcgetattr := neutral_liftWorld opensNothing_tcgetattr keepsNumbers_tty.tcgetattr
  terminalSetPgrp := fun pgid => neutral_liftWorld (opensNothing_terminalSetPgrp pgid)
    (closed_terminalSetPgrp (K := fun _ m => KeepsNumbers m) keepsNumbers_tty pgid)
  terminalRestore := neutral_liftWorld opensNothing_terminalRestore
    (closed_terminalRestore (K := fun _ m => KeepsNumbers m) keepsNumbers_tty)

end Neutral

/-! ### Opening and closing -/

section Furnished

variable {α β ρ : Type} {F : FdTable Fd} {es : List (ℕ × Desc)} {p p' : ShellProcess} {n : ℕ}

/-- What the variables hold is all that is on top of `F`. -/
def Furnished (F : FdTable Fd) (p : ShellProcess) : Prop := ∃ n m, Holds n F (p.holdings n m) p

theorem holdings_congr (hs : p'.statics = p.statics) (n m : ℕ) : p'.holdings n m = p.holdings n m := by
  have he : p'.eventPipe = p.eventPipe := eventPipe_eq hs
  have ht : p'.terminalFd = p.terminalFd := terminalFd_eq hs
  unfold ShellProcess.holdings
  rw [he, ht]

theorem held_of_neg {v : Int} {d : Desc} (hv : v < 0) : held v d = [] := if_neg (by omega)

theorem held_of_nonneg {v : Int} {d : Desc} (hv : 0 ≤ v) : held v d = [(v.toNat, d)] := if_pos hv

theorem Neutral.furnished {m : Main α} {f : α → Main β} {Q : β → ShellProcess → Prop} (hm : Neutral m)
    (h : Furnished F p) (hf : ∀ a p', Furnished F p' → p'.statics = p.statics →
      Prog.wp (f a) Q (fun _ => True) p') :
    Prog.wp (m >>= f) Q (fun _ => True) p := by
  obtain ⟨n, k, h⟩ := h
  exact hm.wp_bind h fun a p' h' hs => hf a p' ⟨n, k, (holdings_congr hs n k).symm ▸ h'⟩ hs

/-- The rule of a call that changes the descriptors. -/
theorem wp_setupKernel {f : Choice → Kernel → ρ × Kernel} {call : ρ → SetupCall}
    {Q : ρ → ShellProcess → Prop} {R : ShellProcess → Prop} (h : Holds n F es p)
    (hQ : ∀ c k, OnTop F es k.fds → k.Numbered → ∀ p', p'.statics = p.statics →
      (∀ n' es', Holds n' F es p → OnTop F es' (f c k).2.fds → (f c k).2.Numbered → p.PipeIn n' es' →
        Holds n' F es' p') → Q (f c k).1 p') :
    Prog.wp (setupKernel f call) Q R p := by
  refine wp_setupCall ?_
  intro used c rest
  have hd := h.drift used rest
  refine hQ c (p.world.drift used rest).kernel hd.intact.table hd.intact.numbered _ rfl ?_
  intro n' es' h' ht hn hp
  exact (h'.drift used rest).called (call _) ⟨ht, hd.intact.standard, hn⟩ hp rfl

/-- Closing a descriptor that is in no variable any more. -/
theorem wp_setupClose {e : ℕ × Desc} (h : Holds n F (e :: es) p) (hp : p.PipeIn n es) :
    Prog.wp (setupClose e.1) (fun _ p' => Holds n F es p' ∧ p'.statics = p.statics) (fun _ => True) p :=
  wp_setupKernel h fun _ _ ht hn _ hs hnew => ⟨hnew n es h ht.pop (hn.close e.1) hp, hs⟩

/-- The pipe is open before it is in the variables, and no call has been made with an end of another in them. -/
theorem wp_setupPipe (h : Holds n F es p) (hp : Unset p.eventPipe) (hm : ∀ x ∈ p.moments, Unset x.eventPipe) :
    Prog.wp setupPipe (fun r p' => p'.statics = p.statics ∧ match r with
      | none => Holds n F es p'
      | some ends => ∃ k, Holds k F ((ends.2, .pipeWrite k) :: (ends.1, .pipeRead k) :: es) p')
        (fun _ => True) p := by
  refine wp_setupKernel h fun c k ht hn p' hs hnew => ⟨hs, ?_⟩
  unfold Kernel.pipe at hnew ⊢
  split at hnew
  · exact hnew n es h ht hn h.pipe
  · have hr := ht.push (d := ⟨.pipeRead k.created, false⟩) (FdTable.lowestFree_not_open 0 _)
    have hw := hr.push (d := ⟨.pipeWrite k.created, false⟩) (FdTable.lowestFree_not_open 0 _)
    have hk : Holds k.created F es p := h.anyPipe hp hm k.created
    refine ⟨k.created, hnew _ _ hk hw ?_
      (hk.pipe.mono fun x hx => List.mem_cons_of_mem _ (List.mem_cons_of_mem _ hx))⟩
    exact hn.create (l := [(_, ⟨.pipeWrite k.created, false⟩), (_, ⟨.pipeRead k.created, false⟩)])
      (by simp [Desc.number])

/-- The terminal is open before it is in the variable. -/
theorem wp_openDevice (device : Device) (flags : DeviceFlags) (h : Holds n F es p) :
    Prog.wp (openDevice device flags) (fun r p' => p'.statics = p.statics ∧ match r with
      | none => Holds n F es p'
      | some fd => ∃ m, Holds n F ((fd, .file m) :: es) p') (fun _ => True) p := by
  refine wp_setupKernel h fun c k ht hn p' hs hnew => ⟨hs, ?_⟩
  unfold Kernel.openDevice at hnew ⊢
  split at hnew
  · exact hnew n es h ht hn h.pipe
  · have hopen := ht.push (d := ⟨.file k.created, decide (flags = .readWriteCloexec)⟩)
      (FdTable.lowestFree_not_open 0 _)
    refine ⟨k.created, hnew n _ h hopen ?_ (h.pipe.mono fun x hx => List.mem_cons_of_mem _ hx)⟩
    exact hn.create (l := [(_, ⟨.file k.created, _⟩)]) (by simp [Desc.number])

/-- The event pipe is open. -/
def ShellProcess.EventSet (p : ShellProcess) : Prop := 0 ≤ p.eventPipe.1 ∧ 0 ≤ p.eventPipe.2

/-- The event pipe is closed. -/
def ShellProcess.EventClosed (p : ShellProcess) : Prop := Unset p.eventPipe

theorem holdings_closed (h : p.EventClosed) (n m : ℕ) : p.holdings n m = held p.terminalFd (.file m) := by
  unfold ShellProcess.holdings
  rw [held_of_neg h.1, held_of_neg h.2]
  rfl

theorem ShellProcess.EventClosed.pipeIn (h : p.EventClosed) (n : ℕ) : p.PipeIn n es :=
  ⟨by rw [held_of_neg h.1]; exact List.nil_subset _, by rw [held_of_neg h.2]; exact List.nil_subset _⟩

/-- An end is out of its variable before it is closed. -/
theorem wp_eventShut (h : Furnished F p) : Prog.wp eventShut
    (fun _ p' => Furnished F p' ∧ p'.EventClosed ∧ p'.terminalFd = p.terminalFd) (fun _ => True) p := by
  obtain ⟨n, m, h⟩ := h
  unfold eventShut
  rw [Prog.wp_get_bind]
  dsimp only
  -- the read end, when the write end is closed
  have closeRead : ∀ p₁ : ShellProcess, Holds n F
    (held p₁.eventPipe.1 (.pipeRead n) ++ held p₁.terminalFd (.file m)) p₁ →
      p₁.eventPipe.2 < 0 → p₁.eventPipe.1 = p.eventPipe.1 → p₁.terminalFd = p.terminalFd →
      Prog.wp (if p.eventPipe.1 ≥ 0 then do
          Prog.modify fun p => { p with eventPipe := (-1, p.eventPipe.2) }
          setupClose p.eventPipe.1.toNat
        else pure ()) (fun _ p' => Furnished F p' ∧ p'.EventClosed ∧ p'.terminalFd = p.terminalFd)
          (fun _ => True) p₁ := by
    intro p₁ h₁ hneg hread hterm
    rw [hread] at h₁
    split
    · rename_i hpos
      rw [held_of_nonneg hpos] at h₁
      rw [Prog.wp_modify_bind]
      have hclosed : ({ p₁ with eventPipe := (-1, p₁.eventPipe.2) } : ShellProcess).EventClosed :=
        ⟨neg_one_lt_zero, hneg⟩
      have h₂ : Holds n F _ { p₁ with eventPipe := (-1, p₁.eventPipe.2) } :=
        ⟨h₁.intact, hclosed.pipeIn n, h₁.heard⟩
      refine Prog.wp_mono (wp_setupClose h₂ (hclosed.pipeIn n)) ?_ fun _ h => h
      intro _ p' h'
      have he : p'.eventPipe = (-1, p₁.eventPipe.2) := eventPipe_eq h'.2
      have ht : p'.terminalFd = p₁.terminalFd := congrArg Prod.snd h'.2
      have hclosed' : p'.EventClosed := by
        unfold ShellProcess.EventClosed
        rw [he]
        exact hclosed
      refine ⟨⟨n, m, ?_⟩, hclosed', ht.trans hterm⟩
      rw [holdings_closed hclosed', ht]
      exact h'.1
    · rename_i hread'
      have hclosed : p₁.EventClosed := ⟨by omega, hneg⟩
      refine ⟨⟨n, m, ?_⟩, hclosed, hterm⟩
      rw [holdings_closed hclosed]
      rwa [held_of_neg (by omega)] at h₁
  unfold ShellProcess.holdings at h
  split
  · rename_i hpos
    rw [held_of_nonneg hpos] at h
    rw [Prog.wp_modify_bind, Prog.wp_bind]
    have hin : ({ p with eventPipe := (p.eventPipe.1, -1) } : ShellProcess).PipeIn n
        (held p.eventPipe.1 (.pipeRead n) ++ held p.terminalFd (.file m)) :=
      ⟨List.subset_append_left _ _, List.nil_subset _⟩
    have h₂ : Holds n F _ { p with eventPipe := (p.eventPipe.1, -1) } :=
      ⟨h.intact, hin.mono (List.subset_cons_self _ _), h.heard⟩
    refine Prog.wp_mono (wp_setupClose h₂ hin) ?_ fun _ h => h
    intro _ p' h'
    have he : p'.eventPipe = (p.eventPipe.1, -1) := eventPipe_eq h'.2
    have ht : p'.terminalFd = p.terminalFd := congrArg Prod.snd h'.2
    refine closeRead p' ?_ (by rw [he]; exact neg_one_lt_zero) (by rw [he]) ht
    rw [he, ht]
    exact h'.1
  · rename_i hneg
    rw [held_of_neg (by omega)] at h
    exact closeRead p h (by omega) rfl rfl

/-- The descriptors that a child is left with after `event_shut` are those of the function. -/
theorem wp_eventShut_fds :
    Prog.wp eventShut (fun _ p' => p'.fds = eventShutFds p.eventPipe p.fds) (fun _ => True) p := by
  have close : ∀ (fd : ℕ) (p₁ : ShellProcess), Prog.wp (setupClose fd)
      (fun _ p' => p'.fds = p₁.fds.close fd) (fun _ => True) p₁ :=
    fun fd p₁ => by
      unfold setupClose setupKernel
      exact wp_setupCall fun used _ rest => congrArg (·.close fd) (World.drift_fds used rest p₁.world)
  unfold eventShut eventShutFds
  rw [Prog.wp_get_bind]
  dsimp only
  split
  · rw [Prog.wp_modify_bind, Prog.wp_bind]
    refine Prog.wp_mono (close p.eventPipe.2.toNat _) ?_ fun _ h => h
    intro _ p₁ h₁
    split
    · rw [Prog.wp_modify_bind]
      refine Prog.wp_mono (close p.eventPipe.1.toNat _) ?_ fun _ h => h
      intro _ p₂ h₂
      exact h₂.trans (congrArg (FdTable.close · p.eventPipe.1.toNat) h₁)
    · exact h₁
  · split
    · rw [Prog.wp_modify_bind]
      exact close p.eventPipe.1.toNat _
    · rfl

theorem wp_eventInit (h : Furnished F p) (hclosed : p.EventClosed) (hm : ∀ x ∈ p.moments, Unset x.eventPipe) :
    Prog.wp eventInit
    (fun r p' => Furnished F p' ∧ p'.terminalFd = p.terminalFd ∧
      (if r < 0 then p'.EventClosed else p'.EventSet)) (fun _ => True) p := by
  have shutdown : ∀ p₁, Furnished F p₁ → p₁.terminalFd = p.terminalFd → Prog.wp (do
      eventShut
      pure (-1) : Main Int)
      (fun r p' => Furnished F p' ∧ p'.terminalFd = p.terminalFd ∧
        (if r < 0 then p'.EventClosed else p'.EventSet)) (fun _ => True)
      p₁ := by
    intro p₁ h₁ ht
    rw [Prog.wp_bind]
    exact Prog.wp_mono (wp_eventShut h₁) (fun _ p' h' => ⟨h'.1, h'.2.2.trans ht, h'.2.1⟩) fun _ h => h
  unfold eventInit
  rw [Prog.wp_get_bind, if_neg (fun hopen => by have := hclosed.1; omega)]
  dsimp only
  rw [if_neg (fun hopen => by have := hclosed.1; have := hclosed.2; omega), Prog.wp_bind]
  obtain ⟨n, m, h⟩ := h
  rw [holdings_closed hclosed] at h
  refine Prog.wp_mono (wp_setupPipe h hclosed hm) ?_ fun _ h => h
  intro r p₁ h₁
  obtain ⟨hs, h₁⟩ := h₁
  have ht : p₁.terminalFd = p.terminalFd := terminalFd_eq hs
  cases r with
  | none =>
    have hclosed' : ({ p₁ with eventPipe := (-1, -1) } : ShellProcess).EventClosed :=
      ⟨neg_one_lt_zero, neg_one_lt_zero⟩
    refine ⟨⟨n, m, ?_⟩, ht, hclosed'⟩
    rw [holdings_closed hclosed']
    exact ⟨ht ▸ h₁.intact, hclosed'.pipeIn n, h₁.heard⟩
  | some ends =>
    obtain ⟨r, w⟩ := ends
    obtain ⟨k, h₁⟩ := h₁
    dsimp only
    rw [Prog.wp_modify_bind]
    have h₂ : Furnished F { p₁ with eventPipe := (r, w) } := by
      have hold : ({ p₁ with eventPipe := (r, w) } : ShellProcess).holdings k m =
          (w, .pipeWrite k) :: (r, .pipeRead k) :: held p.terminalFd (.file m) := by
        unfold ShellProcess.holdings
        rw [held_natCast, held_natCast, ht]
        rfl
      refine ⟨k, m, ?_⟩
      rw [hold]
      refine ⟨h₁.intact, ⟨?_, ?_⟩, h₁.heard⟩
      · rw [held_natCast]
        exact fun x hx => List.mem_cons_of_mem _ (List.mem_cons.mpr (Or.inl (List.mem_singleton.mp hx)))
      · rw [held_natCast]
        exact fun x hx => List.mem_cons.mpr (Or.inl (List.mem_singleton.mp hx))
    refine (closed_eventSetFlags (K := fun _ m => Neutral m) neutral_setup r).furnished h₂
      ?_
    intro ret p₃ h₃ hs₃
    have ht₃ : p₃.terminalFd = p.terminalFd := (terminalFd_eq hs₃).trans ht
    split
    · exact shutdown p₃ h₃ ht₃
    · refine (closed_eventSetFlags (K := fun _ m => Neutral m) neutral_setup w).furnished h₃
        ?_
      intro ret p₄ h₄ hs₄
      have ht₄ : p₄.terminalFd = p.terminalFd := (terminalFd_eq hs₄).trans ht₃
      split
      · exact shutdown p₄ h₄ ht₄
      · have he₄ : p₄.eventPipe = ((r : Int), (w : Int)) := (eventPipe_eq hs₄).trans (eventPipe_eq hs₃)
        have hset : p₄.EventSet := by
          unfold ShellProcess.EventSet
          rw [he₄]
          exact ⟨Int.natCast_nonneg r, Int.natCast_nonneg w⟩
        exact ⟨h₄, ht₄, hset⟩

/-- The terminal is in no variable any more. -/
theorem Furnished.forget (h : Furnished F p) (ht : p.terminalFd < 0) (hk : p'.kernel = p.kernel)
    (he : p'.eventPipe = p.eventPipe) (hm : p'.moments = p.moments) (ht' : p'.terminalFd = -1) :
    Furnished F p' := by
  obtain ⟨n, m, h⟩ := h
  refine ⟨n, m, ?_⟩
  have hold : p'.holdings n m = p.holdings n m := by
    unfold ShellProcess.holdings
    rw [he, ht', held_neg, held_of_neg ht]
  rw [hold]
  exact h.congr hk he hm

/-- The terminal is closed before it is out of its variable. -/
theorem wp_closeTerminal (h : Furnished F p) (ht : 0 ≤ p.terminalFd) : Prog.wp (setupClose p.terminalFd.toNat)
    (fun _ p₁ => p₁.statics = p.statics ∧ ∀ p', p'.kernel = p₁.kernel →
      p'.eventPipe = p₁.eventPipe →
      p'.moments = p₁.moments → p'.terminalFd = -1 → Furnished F p') (fun _ => True) p := by
  obtain ⟨n, m, h⟩ := h
  unfold ShellProcess.holdings at h
  rw [held_of_nonneg ht, ← List.append_assoc] at h
  have hin : p.PipeIn n (held p.eventPipe.2 (.pipeWrite n) ++ held p.eventPipe.1 (.pipeRead n)) :=
    ⟨List.subset_append_right _ _, List.subset_append_left _ _⟩
  refine Prog.wp_mono (wp_setupClose (h.perm List.perm_append_comm) hin) ?_ fun _ h => h
  intro _ p₁ h₁
  refine ⟨h₁.2, fun p' hk he hm ht' => ⟨n, m, ?_⟩⟩
  have hpipe : p'.eventPipe = p.eventPipe := he.trans (eventPipe_eq h₁.2)
  have hold : p'.holdings n m = held p.eventPipe.2 (.pipeWrite n) ++ held p.eventPipe.1 (.pipeRead n) := by
    unfold ShellProcess.holdings
    rw [hpipe, ht', held_neg, List.append_nil]
  rw [hold]
  exact h₁.1.congr hk he hm

theorem wp_terminalFail (h : Furnished F p) (ht : 0 ≤ p.terminalFd) : Prog.wp terminalFail
    (fun r p' => Furnished F p' ∧ p'.eventPipe = p.eventPipe ∧ (0 ≤ r ∨ p'.terminalFd < 0))
    (fun _ => True) p := by
  unfold terminalFail
  rw [Prog.wp_get_bind, Prog.wp_bind]
  refine Prog.wp_mono (wp_closeTerminal h ht) ?_ fun _ h => h
  intro _ p₁ h₁
  exact ⟨h₁.2 _ rfl rfl rfl rfl, (eventPipe_eq h₁.1 : p₁.eventPipe = _), Or.inr neg_one_lt_zero⟩

theorem wp_terminalTake (group : Int) (old : List Sig) (h : Furnished F p) (ht : 0 ≤ p.terminalFd) :
    Prog.wp (terminalTake group old)
      (fun r p' => Furnished F p' ∧ p'.eventPipe = p.eventPipe ∧ (0 ≤ r ∨ p'.terminalFd < 0))
      (fun _ => True) p := by
  -- it fails in a state with the same variables
  have fail : ∀ p₁, Furnished F p₁ → p₁.statics = p.statics → Prog.wp terminalFail
      (fun r p' => Furnished F p' ∧ p'.eventPipe = p.eventPipe ∧ (0 ≤ r ∨ p'.terminalFd < 0))
        (fun _ => True) p₁ := by
    intro p₁ h₁ hs₁
    have ht₁ : p₁.terminalFd = p.terminalFd := terminalFd_eq hs₁
    refine Prog.wp_mono (wp_terminalFail h₁ (ht₁ ▸ ht)) ?_ fun _ h => h
    intro _ p' h'
    exact ⟨h'.1, h'.2.1.trans (eventPipe_eq hs₁), h'.2.2⟩
  have restoreFail : ∀ p₁, Furnished F p₁ → p₁.statics = p.statics → Prog.wp (do
      let _ ← sigprocmask old
      terminalFail) (fun r p' => Furnished F p' ∧ p'.eventPipe = p.eventPipe ∧ (0 ≤ r ∨ p'.terminalFd < 0))
      (fun _ => True) p₁ := fun p₁ h₁ hs₁ =>
    (neutral_setup.sigprocmask old).furnished h₁ fun _ p₂ h₂ hs₂ => fail p₂ h₂ (hs₂.trans hs₁)
  unfold terminalTake
  apply (closed_leadGroup (K := fun _ m => Neutral m) neutral_setup group).furnished h
  intro r p₁ h₁ hs₁
  cases r with
  | none => exact restoreFail p₁ h₁ hs₁
  | some group =>
    have hterm : Neutral (Prog.modify fun p : ShellProcess => p.setTerm { p.term with shellPgid := group }) :=
      neutral_modify (fun _ => rfl) (fun _ => rfl) fun _ => rfl
    apply hterm.furnished h₁
    intro _ p₂ h₂ hs₂
    apply (neutral_setup.terminalSetPgrp group).furnished h₂
    intro r p₃ h₃ hs₃
    have hs₃' := hs₃.trans (hs₂.trans hs₁)
    split
    · exact restoreFail p₃ h₃ hs₃'
    · apply (neutral_setup.sigprocmask old).furnished h₃
      intro r p₄ h₄ hs₄
      have hs₄' := hs₄.trans hs₃'
      cases r with
      | err => exact fail p₄ h₄ hs₄'
      | ok =>
        apply neutral_setup.tcgetattr.furnished h₄
        intro r p₅ h₅ hs₅
        have hs₅' := hs₅.trans hs₄'
        obtain ⟨r, res⟩ := r
        cases r with
        | none => exact fail p₅ h₅ hs₅'
        | some modes =>
          have hdone : Neutral (Prog.modify fun p : ShellProcess =>
              p.setTerm { p.term with shellModes := modes, shellModesValid := true, initialized := true }) :=
            neutral_modify (fun _ => rfl) (fun _ => rfl) fun _ => rfl
          apply hdone.furnished h₅
          intro _ p₆ h₆ hs₆
          exact ⟨h₆, eventPipe_eq (hs₆.trans hs₅'), Or.inl le_rfl⟩

theorem wp_terminalInit (h : Furnished F p) (ht : p.terminalFd < 0) : Prog.wp terminalInit
    (fun r p' => Furnished F p' ∧ p'.eventPipe = p.eventPipe ∧ (0 ≤ r ∨ p'.terminalFd < 0))
    (fun _ => True) p := by
  unfold terminalInit
  rw [Prog.wp_modify_bind]
  have hstart : Furnished F { (p.setTerm { p.term with initialized := false, shellPgid := -1, shellModesValid := false }) with
      terminalFd := -1 } := h.forget ht rfl rfl rfl rfl
  apply (neutral_setup.isatty 0).furnished hstart
  intro tty p₁ h₁ hs₁
  have he₁ : p₁.eventPipe = p.eventPipe := congrArg Prod.fst hs₁
  have ht₁ : p₁.terminalFd = -1 := terminalFd_eq hs₁
  split
  · exact ⟨h₁, he₁, Or.inl le_rfl⟩
  obtain ⟨n, m, h₁⟩ := h₁
  rw [Prog.wp_bind]
  refine Prog.wp_mono (wp_openDevice .tty .readWriteCloexec h₁) ?_ fun _ h => h
  intro r p₂ h₂
  obtain ⟨hs₂, h₂⟩ := h₂
  cases r with
  | none =>
    refine ⟨⟨n, m, (holdings_congr hs₂ n m).symm ▸ h₂⟩, (eventPipe_eq hs₂).trans he₁, Or.inr ?_⟩
    have ht₂ : p₂.terminalFd = p₁.terminalFd := terminalFd_eq hs₂
    rw [ht₂, ht₁]
    exact neg_one_lt_zero
  | some fd =>
    obtain ⟨k, h₂⟩ := h₂
    dsimp only
    rw [Prog.wp_modify_bind]
    have he₂ : p₂.eventPipe = p.eventPipe := (eventPipe_eq hs₂).trans he₁
    have h₃ : Furnished F { p₂ with terminalFd := fd } := by
      refine ⟨n, k, ?_⟩
      have hold : ({ p₂ with terminalFd := fd } : ShellProcess).holdings n k =
          held p₁.eventPipe.2 (.pipeWrite n) ++ held p₁.eventPipe.1 (.pipeRead n) ++ [(fd, .file k)] := by
        unfold ShellProcess.holdings
        rw [held_natCast, ← List.append_assoc, ← eventPipe_eq hs₂]
      have hold₁ : p₁.holdings n m = held p₁.eventPipe.2 (.pipeWrite n) ++ held p₁.eventPipe.1
          (.pipeRead n) := by
        unfold ShellProcess.holdings
        rw [ht₁, held_neg, List.append_nil]
      rw [hold₁] at h₂
      rw [hold]
      exact (h₂.perm (List.perm_append_singleton _ _).symm).congr rfl rfl rfl
    -- from here on the descriptor is in its variable
    have fail : ∀ p₃, Furnished F p₃ → p₃.eventPipe = p.eventPipe ∧ p₃.terminalFd = fd →
      Prog.wp terminalFail
        (fun r p' => Furnished F p' ∧ p'.eventPipe = p.eventPipe ∧ (0 ≤ r ∨ p'.terminalFd < 0))
          (fun _ => True) p₃ := by
      rintro p₃ h₃ ⟨he₃, ht₃⟩
      refine Prog.wp_mono (wp_terminalFail h₃ (ht₃ ▸ Int.natCast_nonneg fd)) ?_ fun _ h => h
      intro _ p' h'
      exact ⟨h'.1, h'.2.1.trans he₃, h'.2.2⟩
    have same : ∀ {p₃ p₄ : ShellProcess}, p₃.eventPipe = p.eventPipe ∧ p₃.terminalFd = fd →
      p₄.statics = p₃.statics →
        p₄.eventPipe = p.eventPipe ∧ p₄.terminalFd = fd := fun h₃ hs =>
      ⟨(eventPipe_eq hs).trans h₃.1, (terminalFd_eq hs).trans h₃.2⟩
    apply (closed_getpgrp (K := fun _ m => Neutral m) neutral_setup).furnished h₃
    intro group p₄ h₄ hs₄
    have hv₄ := @same { p₂ with terminalFd := fd } p₄ ⟨he₂, rfl⟩ hs₄
    refine (closed_awaitForeground (K := fun _ m => Neutral m) neutral_setup group).furnished h₄
      ?_
    intro r p₅ h₅ hs₅
    have hv₅ := same hv₄ hs₅
    cases r with
    | none => exact fail p₅ h₅ hv₅
    | some group =>
      dsimp only
      rw [Prog.wp_get_bind]
      apply (neutral_setup.sigprocmask _).furnished h₅
      intro r p₆ h₆ hs₆
      have hv₆ := same hv₅ hs₆
      cases r with
      | err => exact fail p₆ h₆ hv₆
      | ok =>
        refine Prog.wp_mono (wp_terminalTake group p₅.blocked h₆ (hv₆.2 ▸ Int.natCast_nonneg fd))
          ?_
          fun _ h => h
        intro _ p' h'
        exact ⟨h'.1, h'.2.1.trans hv₆.1, h'.2.2⟩

theorem wp_terminalShutdown (h : Furnished F p) : Prog.wp terminalShutdown
    (fun _ p' => Furnished F p' ∧ p'.eventPipe = p.eventPipe ∧ p'.terminalFd < 0) (fun _ => True) p := by
  have last : ∀ p₁, Furnished F p₁ → p₁.statics = p.statics → Prog.wp (do
      if p.terminalFd ≥ 0 then setupClose p.terminalFd.toNat
      Prog.modify fun p =>
        { p.setTerm { p.term with initialized := false, shellPgid := -1, shellModesValid := false } with
          terminalFd := -1 } : Main Unit)
      (fun _ p' => Furnished F p' ∧ p'.eventPipe = p.eventPipe ∧ p'.terminalFd < 0) (fun _ => True) p₁ := by
    intro p₁ h₁ hs₁
    have ht₁ : p₁.terminalFd = p.terminalFd := terminalFd_eq hs₁
    have he₁ : p₁.eventPipe = p.eventPipe := eventPipe_eq hs₁
    rw [← ht₁]
    split
    · rename_i hpos
      rw [Prog.wp_bind]
      refine Prog.wp_mono (wp_closeTerminal h₁ hpos) ?_ fun _ h => h
      intro _ p₂ h₂
      exact ⟨h₂.2 _ rfl rfl rfl rfl, (eventPipe_eq h₂.1).trans he₁, neg_one_lt_zero⟩
    · rename_i hneg
      exact ⟨h₁.forget (by omega) rfl rfl rfl rfl, he₁, neg_one_lt_zero⟩
  unfold terminalShutdown
  rw [Prog.wp_get_bind]
  dsimp only
  split
  · exact neutral_setup.terminalRestore.furnished h fun _ p₁ h₁ hs₁ => last p₁ h₁ hs₁
  · exact last p h rfl

end Furnished

/-! ### The standard descriptors -/

section Standard

variable {ρ : Type} {p₀ p p' : ShellProcess}

/-- From `p₀` to `p` standard descriptors have been opened that were closed, and nothing else has changed. -/
structure Filled (p₀ p : ShellProcess) : Prop where
  statics : p.statics = p₀.statics
  kept : ∀ x, p₀.fds.IsOpen x ∨ 2 < x → descOf p.fds x = descOf p₀.fds x
  numbered : p.kernel.Numbered
  unheard : ∀ x ∈ p.moments, Unset x.eventPipe

theorem Filled.isOpen (h : Filled p₀ p) {x : ℕ} (hx : p₀.fds.IsOpen x) : p.fds.IsOpen x := by
  rw [isOpen_iff_desc, h.kept x (Or.inl hx), ← isOpen_iff_desc]
  exact hx

/-- The rule of a call made before the event pipe is open. -/
theorem wp_setupKernel_early {f : Choice → Kernel → ρ × Kernel} {call : ρ → SetupCall}
    {Q : ρ → ShellProcess → Prop} {R : ShellProcess → Prop} (h : Filled p₀ p) (hclosed : p₀.EventClosed)
    (hQ : ∀ c k, k.fds = p.fds → k.Numbered → ∀ p', p'.kernel = (f c k).2 →
      ((∀ x, p₀.fds.IsOpen x ∨ 2 < x → descOf (f c k).2.fds x = descOf p.fds x) →
        (f c k).2.Numbered → Filled p₀ p') →
      Q (f c k).1 p') : Prog.wp (setupKernel f call) Q R p := by
  apply wp_setupCall
  intro used c rest
  have hclosed' : (p.setWorld (p.world.drift used rest)).EventClosed := by
    unfold ShellProcess.EventClosed
    rw [show (p.setWorld (p.world.drift used rest)).eventPipe = p₀.eventPipe from eventPipe_eq h.statics]
    exact hclosed
  refine hQ c (p.world.drift used rest).kernel (World.drift_fds ..) (h.numbered.happens (envs used)) _ rfl
    fun hkept hn => ⟨h.statics, fun x hx => (hkept x hx).trans (h.kept x hx), hn, fun x hx => ?_⟩
  rcases List.mem_append.mp hx with hx | hx
  · exact h.unheard x hx
  · rw [List.mem_singleton.mp hx]
    exact hclosed'

theorem flagsRes_open {fd : ℕ} {c : Choice} {k : Kernel} (h : flagsRes fd c k = .flags) : k.fds.IsOpen fd := by
  unfold flagsRes at h
  split at h
  · cases h
  · split at h
    · assumption
    · cases h

theorem flagsRes_closed {fd : ℕ} {c : Choice} {k : Kernel} (h : flagsRes fd c k = .badFd) :
    ¬ k.fds.IsOpen fd := by
  unfold flagsRes at h
  split at h
  · cases h
  · split at h
    · cases h
    · assumption

/-- The descriptors below are open, so the device is opened in its place. -/
theorem wp_ensureStandardFd {target : ℕ} (ht : target ≤ 2) (flags : DeviceFlags) (h : Filled p₀ p)
    (hclosed : p₀.EventClosed) (hbelow : ∀ x < target, p.fds.IsOpen x) :
    Prog.wp (ensureStandardFd target flags)
      (fun r p' => Filled p₀ p' ∧ (r < 0 ∨ ∀ x < target + 1, p'.fds.IsOpen x)) (fun _ => True) p := by
  unfold ensureStandardFd
  rw [Prog.wp_bind]
  apply wp_setupKernel_early h hclosed
  intro c k hk hn p₁ hk₁ hfilled
  have h₁ : Filled p₀ p₁ := hfilled (fun x _ => by rw [hk]) hn
  have hfds : p₁.fds = p.fds := (congrArg Kernel.fds hk₁).trans hk
  cases hr : flagsRes target c k with
  | err e => exact ⟨h₁, Or.inl neg_one_lt_zero⟩
  | flags =>
    refine ⟨h₁, Or.inr fun x hx => ?_⟩
    rw [hfds]
    rcases Nat.lt_succ_iff_lt_or_eq.mp hx with hx | rfl
    · exact hbelow x hx
    · exact hk ▸ flagsRes_open hr
  | badFd =>
    have hfree : ¬ p.fds.IsOpen target := hk ▸ flagsRes_closed hr
    dsimp only
    rw [Prog.wp_bind]
    apply wp_setupKernel_early h₁ hclosed
    intro c₂ k₂ hk₂ hn₂ p₂ hp₂ hfilled₂
    rw [hfds] at hk₂ hfilled₂
    have hlow : k₂.fds.lowestFree 0 = target := hk₂ ▸ FdTable.lowestFree_eq hbelow hfree
    cases c₂ with
    | fail e => exact ⟨hfilled₂ (fun x _ => congrArg (descOf · x) hk₂) hn₂, Or.inl neg_one_lt_zero⟩
    | _ =>
      simp only [Kernel.openDevice, hlow] at hp₂ hfilled₂ ⊢
      rw [if_neg (fun hne => hne rfl)]
      have hopen₂ : ∀ x < target + 1, p₂.fds.IsOpen x := by
        intro x hx
        rw [show p₂.fds = _ from congrArg Kernel.fds hp₂, hk₂, FdTable.isOpen_cons]
        rcases Nat.lt_succ_iff_lt_or_eq.mp hx with hx | hx
        · exact Or.inr (hbelow x hx)
        · exact Or.inl hx
      refine ⟨hfilled₂ (fun x hx => ?_) ?_, Or.inr hopen₂⟩
      · rw [hk₂, descOf_cons, if_neg]
        rintro rfl
        rcases hx with hx | hx
        · exact hfree (hfds ▸ h₁.isOpen hx)
        · omega
      · exact hn₂.create (l := [(target, ⟨.file k₂.created, _⟩)]) (by simp [Desc.number])

/-- **`ensure_standard_fds`** opens standard descriptors that are closed, and after it all are open or it has failed. -/
theorem wp_ensureStandardFds (hclosed : p.EventClosed) (hn : p.kernel.Numbered)
    (hm : ∀ x ∈ p.moments, Unset x.eventPipe) : Prog.wp ensureStandardFds
      (fun r p' => Filled p p' ∧ (r < 0 ∨ ∀ x ≤ 2, p'.fds.IsOpen x)) (fun _ => True) p := by
  have hrefl : Filled p p := ⟨rfl, fun _ _ => rfl, hn, hm⟩
  unfold ensureStandardFds
  rw [Prog.wp_bind]
  refine Prog.wp_mono (wp_ensureStandardFd (by decide) .readOnly hrefl hclosed (by simp))
    ?_ fun _ h => h
  intro r p₁ h₁
  split
  · exact ⟨h₁.1, Or.inl neg_one_lt_zero⟩
  · rename_i hr
    rw [Prog.wp_bind]
    refine Prog.wp_mono (wp_ensureStandardFd (by decide) .writeOnly h₁.1 hclosed (h₁.2.resolve_left hr))
      ?_
      fun _ h => h
    intro r p₂ h₂
    split
    · exact ⟨h₂.1, Or.inl neg_one_lt_zero⟩
    · rename_i hr₂
      rw [Prog.wp_bind]
      refine Prog.wp_mono (wp_ensureStandardFd (by decide) .writeOnly h₂.1 hclosed (h₂.2.resolve_left hr₂))
        ?_ fun _ h => h
      intro r p₃ h₃
      split
      · exact ⟨h₃.1, Or.inl neg_one_lt_zero⟩
      · rename_i hr₃
        exact ⟨h₃.1, Or.inr fun x hx => h₃.2.resolve_left hr₃ x (Nat.lt_succ_of_le hx)⟩

end Standard

end MiniShell
