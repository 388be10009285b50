import MiniShell.Spec.Atomic

/-!
# No failed call goes unheeded

The other half of the atomicity of a launch: a system call that has failed for good makes the launch fail.

* `Call.FailsLaunch` — the answers of system calls that a launch may not go on with;
* `Heeds ok m` — a run of `m` whose result satisfies `ok` has logged no such call;
* `Never ok m` — the result of `m` never satisfies `ok`.

Both are partial: they speak of the runs that return.  `Heeds.bind` reads a function of the executor from its
first step to its last; at a step whose result is bad the rest of the function is one that `Never` succeeds.
-/

namespace MiniShell

open MiniShell.Lib MiniShellError

/-- The system call has failed for good: a launch that is in need of it must fail.  An interrupted call is made
again, and of the errors of `setpgid` two say that the child needs no group any more. -/
def Call.FailsLaunch : Call → Prop
  | .pipe none => True
  | .setCloexec _ (.err _) => True
  | .fork pid => pid < 0
  | .setpgid _ _ (.err e) => e ≠ .EINTR ∧ ¬ Res.Accepted (.err e)
  | .malloc _ (.err _) => True
  | .tcsetpgrp _ (.err e) => e ≠ .EINTR
  | .writeGate _ (.err e) => e ≠ .EINTR
  | _ => False

/-- Where the result of `m` satisfies `ok`, no call has failed for good. -/
def Heeds {α : Type} (ok : α → Prop) (m : Sh α) : Prop :=
  ∀ w, Prog.wp m (fun a w' => ok a → LogExt (Event.Of fun c => ¬ c.FailsLaunch) w w') (fun _ => True) w

/-- The result of `m` does not satisfy `ok`. -/
def Never {α : Type} (ok : α → Prop) (m : Sh α) : Prop :=
  ∀ w, Prog.wp m (fun a _ => ¬ ok a) (fun _ => True) w

/-- The result of a launch that goes on. -/
def Goes {α : Type} : Except Int α → Prop
  | .ok _ => True
  | .error _ => False

section Rules

variable {α β : Type} {ok : α → Prop} {ok' : β → Prop}

theorem never_pure {a : α} (h : ¬ ok a) : Never ok (pure a) := fun _ => h

theorem never_bind {m : Sh α} {f : α → Sh β} (h : ∀ a, Never ok' (f a)) : Never ok' (m >>= f) := by
  intro w
  rw [Prog.wp_bind]
  unfold Prog.wp
  split
  · exact h _ _
  · trivial

theorem never_ite {p : Prop} [Decidable p] {m n : Sh α} (hm : Never ok m) (hn : Never ok n) :
    Never ok (if p then m else n) := by
  split
  · exact hm
  · exact hn

theorem heeds_pure (a : α) : Heeds ok (pure a) := fun w _ => LogExt.refl w

theorem heeds_of_never {m : Sh α} (h : Never ok m) : Heeds ok m :=
  fun w => Prog.wp_mono (h w) (fun _ _ hbad hok => absurd hok hbad) fun _ h => h

/-- **The rule of a step**: after a good result the rest heeds too, after a bad one it never succeeds. -/
theorem Heeds.bind {m : Sh α} {f : α → Sh β} (hm : Heeds ok m) (hf : ∀ a, ok a → Heeds ok' (f a))
    (hbad : ∀ a, ¬ ok a → Never ok' (f a)) : Heeds ok' (m >>= f) := by
  intro w
  rw [Prog.wp_bind]
  refine Prog.wp_mono (hm w) ?_ fun _ h => h
  intro a w' h
  by_cases ha : ok a
  · exact Prog.wp_mono (hf a ha w') (fun b w'' h' hb => (h ha).trans (h' hb)) fun _ h => h
  · exact Prog.wp_mono (hbad a ha w') (fun b w'' h' hb => absurd hb h') fun _ h => h

/-- A step that cannot fail. -/
theorem Heeds.then {m : Sh α} {f : α → Sh β} (hm : Heeds (fun _ => True) m) (hf : ∀ a, Heeds ok' (f a)) :
    Heeds ok' (m >>= f) := hm.bind (fun a _ => hf a) fun _ h => absurd trivial h

theorem Heeds.ite {p : Prop} [Decidable p] {m n : Sh α} (hm : p → Heeds ok m) (hn : ¬p → Heeds ok n) :
    Heeds ok (if p then m else n) := by
  split
  · exact hm (by assumption)
  · exact hn (by assumption)

theorem heeds_get : Heeds (fun _ => True) Prog.get := fun w _ => LogExt.refl w

theorem heeds_modify {f : World → World} (h : ∀ w, (f w).log = w.log) : Heeds (fun _ => True) (Prog.modify f) :=
  fun w _ => ⟨[], by rw [h, List.append_nil], by simp⟩

theorem heeds_syscall {f : Choice → Kernel → α × Kernel} {call : α → Call}
    (h : ∀ a, ok a → ¬ (call a).FailsLaunch) : Heeds ok (syscall f call) := by
  intro w
  apply wp_syscall
  intro used c rest _ hok
  have hdrift : LogExt (Event.Of fun c => ¬ c.FailsLaunch) w (w.drift used rest) := by
    refine ⟨_, rfl, fun e he => ?_⟩
    obtain ⟨x, -, rfl⟩ := List.mem_map.mp he
    trivial
  refine hdrift.trans ⟨[_], rfl, fun e he => ?_⟩
  rw [List.mem_singleton.mp he]
  exact h _ hok

/-- A call that is made again while it is interrupted. -/
theorem heeds_retry {call : Sh Res} {ok : Res → Prop} (h : Heeds (fun r => r = .err .EINTR ∨ ok r) call) :
    Heeds ok (retry call) := by
  intro w
  unfold retry retryWith
  refine Prog.wp_loop_partial (fun _ w' => LogExt (Event.Of fun c => ¬ c.FailsLaunch) w w')
    ?_ () w
    (LogExt.refl w)
  intro _ w' hw'
  rw [Prog.wp_bind]
  refine Prog.wp_mono (h w') ?_ fun _ h => h
  intro r w'' h''
  split
  · exact hw'.trans (h'' (Or.inl rfl))
  · exact fun hok => hw'.trans (h'' (Or.inr hok))

/-- A step that returns 0 or an error. -/
theorem Heeds.bind_res {m : Sh Res} {f : Res → Sh β} (hm : Heeds (fun r => r = .ok) m) (hok : Heeds ok' (f .ok))
    (herr : ∀ e, Never ok' (f (.err e))) : Heeds ok' (m >>= f) := by
  apply hm.bind (fun r hr => hr ▸ hok)
  intro r hr
  cases r with
  | ok => exact absurd rfl hr
  | err e => exact herr e

/-- A step that may have nothing to return. -/
theorem Heeds.bind_some {m : Sh (Option α)} {f : Option α → Sh β} (hm : Heeds (fun a => a ≠ none) m)
    (hsome : ∀ a, Heeds ok' (f (some a))) (hnone : Never ok' (f none)) : Heeds ok' (m >>= f) := by
  refine hm.bind (fun a ha => ?_) fun a ha => ?_
  · obtain ⟨a, rfl⟩ := Option.ne_none_iff_exists'.mp ha
    exact hsome a
  · obtain rfl : a = none := not_not.mp ha
    exact hnone

/-- A step after which the code tests for a negative result. -/
theorem Heeds.bind_neg {m : Sh Int} {bad good : Int → Sh β} (hm : Heeds (fun r => ¬ r < 0) m)
    (hbad : ∀ r, Never ok' (bad r)) (hgood : ∀ r, Heeds ok' (good r)) :
    Heeds ok' (m >>= fun r => if r < 0 then bad r else good r) := by
  refine hm.bind (fun r hr => ?_) fun r hr => ?_
  · rw [if_neg hr]
    exact hgood r
  · rw [if_pos (not_not.mp hr)]
    exact hbad r

/-- A launch that goes on after another part of it has. -/
theorem Heeds.bind_goes {m : Sh (Except Int α)} {f : Except Int α → Sh β} (hm : Heeds Goes m)
    (hok : ∀ a, Heeds ok' (f (.ok a))) (herr : ∀ e, Never ok' (f (.error e))) : Heeds ok' (m >>= f) := by
  refine hm.bind (fun r hr => ?_) fun r hr => ?_
  · cases r with
    | ok a => exact hok a
    | error e => exact absurd hr id
  · cases r with
    | ok a => exact absurd trivial hr
    | error e => exact herr e

end Rules

/-! ### The functions of the executor -/

theorem heeds_close (fd : ℕ) : Heeds (fun _ => True) (close fd) :=
  fun _ _ => ⟨[_], rfl, fun e he => by rw [List.mem_singleton.mp he]; exact id⟩

theorem heeds_closeIf (fd : Int) : Heeds (fun _ => True) (closeIf fd) :=
  .ite (fun _ => heeds_close _) fun _ => heeds_pure _

theorem heeds_pipe : Heeds (fun ends => ends ≠ none) pipe :=
  heeds_syscall fun ends h => by cases ends <;> simp_all [Call.FailsLaunch]

theorem heeds_setCloexec (fd : ℕ) : Heeds (fun r => r = .ok) (setCloexec fd) :=
  heeds_syscall fun _ h => by rw [h]; exact id

theorem heeds_startupGateCreate : Heeds (fun gate => gate ≠ none) startupGateCreate := by
  have shut (gate0 gate1 : ℕ) : Never (fun gate => gate ≠ none)
      (do close gate0; close gate1; pure none : Sh (Option (ℕ × ℕ))) :=
    never_bind fun _ => never_bind fun _ => never_pure (by simp)
  refine heeds_pipe.bind_some ?_ (never_pure (by simp))
  intro ends
  refine (heeds_setCloexec _).bind_res ?_ fun _ => shut _ _
  exact (heeds_setCloexec _).bind_res (heeds_pure _) fun _ => shut _ _

theorem heeds_fork : Heeds (fun pid => ¬ pid < 0) fork := heeds_syscall fun _ h => h

theorem heeds_setpgidParent (pid pgid : Int) : Heeds (fun r => ¬ r < 0) (setpgidParent pid pgid) := by
  have hcall : Heeds (fun r => r = .err .EINTR ∨ r.Accepted) (setpgid pid pgid) := heeds_syscall fun r h => by
    cases r with
    | ok => exact id
    | err e =>
      rintro ⟨hne, hrej⟩
      rcases h with h | h
      · exact hne (by injection h)
      · exact hrej h
  unfold setpgidParent
  refine (heeds_retry hcall).bind (fun r hr => ?_) fun r hr => ?_
  · split <;> exact heeds_pure _
  · split
    · exact absurd trivial hr
    · exact absurd trivial hr
    · exact absurd trivial hr
    · exact never_pure (by simp)

theorem heeds_malloc (what : Alloc) : Heeds (fun r => r = .ok) (malloc what) :=
  heeds_syscall fun _ h => by rw [h]; exact id

theorem heeds_jobAdd (pgid : Int) (command : Option Bytes) :
    Heeds (fun job => job = true) (jobAdd pgid command) := by
  unfold jobAdd
  split
  · exact heeds_pure _
  · refine .ite (fun _ => heeds_pure _) fun _ => (heeds_malloc _).bind_res ?_ fun _ => never_pure (by simp)
    exact (heeds_modify fun _ => rfl).then fun _ => heeds_pure _

theorem heeds_processAdd (i : ℕ) (pid : Int) : Heeds (fun r => ¬ r < 0) (processAdd i pid) := by
  refine .ite (fun _ => heeds_pure _) fun _ => (heeds_malloc _).bind_res ?_ fun _ => never_pure (by simp)
  exact (heeds_modify fun _ => rfl).then fun _ => heeds_pure _

theorem heeds_processAddAll (pids : List Int) : Heeds (fun r => ¬ r < 0) (processAddAll pids) := by
  induction pids with
  | nil => exact heeds_pure _
  | cons pid pids ih => exact (heeds_processAdd 0 pid).bind_neg (fun _ => never_pure (by simp)) fun _ => ih

theorem heeds_terminalSetForeground (pgid : Int) : Heeds (fun r => ¬ r < 0) (terminalSetForeground pgid) := by
  have hcall : Heeds (fun r => r = .err .EINTR ∨ r = .ok) (tcsetpgrp pgid) := heeds_syscall fun r h => by
    rcases h with rfl | rfl <;> simp [Call.FailsLaunch]
  refine heeds_get.then fun w => .ite (fun _ => heeds_pure _) fun _ => .ite (fun _ => heeds_pure _) fun _ => ?_
  exact (heeds_retry hcall).bind_res (heeds_pure _) fun _ => never_pure (by simp)

theorem heeds_startupGateRelease (fd n : ℕ) : Heeds (fun r => ¬ r < 0) (startupGateRelease fd n) := by
  have hcall : Heeds (fun r => r = .err .EINTR ∨ r = .ok) (writeGate fd) := heeds_syscall fun r h => by
    rcases h with rfl | rfl <;> simp [Call.FailsLaunch]
  induction n with
  | zero => exact heeds_pure _
  | succ n ih => exact (heeds_retry hcall).bind_res ih fun _ => never_pure (by simp)

/-! ### `execute_single` and `execute_pipeline` -/

theorem heeds_releaseSingle (com : Command) (gate1 : ℕ) (pid : Int) (terminalActive : Bool) :
    Heeds Goes (releaseSingle com gate1 pid terminalActive) := by
  refine (heeds_startupGateRelease gate1 1).bind_neg ?_ fun _ =>
    (heeds_close _).then fun _ => heeds_pure _
  intro _
  exact never_bind fun _ => never_bind fun _ => never_bind fun _ =>
    never_ite (never_bind fun _ => never_pure id) (never_pure id)

theorem heeds_launchSingle (com : Command) : Heeds Goes (launchSingle com) := by
  refine heeds_startupGateCreate.bind_some ?_ (never_pure id)
  intro gate
  apply (heeds_get.then fun _ => heeds_pure _).then
  intro terminalActive
  apply heeds_fork.bind_neg (fun _ => never_bind fun _ => never_bind fun _ => never_pure id)
  intro pid
  apply (heeds_close _).then
  intro _
  refine (heeds_setpgidParent pid pid).bind_neg
    (fun _ => never_bind fun _ => never_bind fun _ => never_pure id) ?_
  intro _
  refine (heeds_jobAdd pid com.argv0).bind (fun job hjob => ?_) fun job hjob => ?_
  · subst hjob
    rw [if_neg (by decide)]
    refine (heeds_processAdd 0 pid).bind_neg
      (fun _ => never_bind fun _ => never_bind fun _ => never_bind fun _ => never_pure id) ?_
    intro _
    have go (r : Int) := heeds_releaseSingle com gate.2 pid terminalActive
    refine .ite (fun _ => (heeds_terminalSetForeground pid).bind_neg (fun _ => ?_) go)
      fun _ => (heeds_pure 0).bind_neg (fun _ => ?_) go
    all_goals exact never_bind fun _ => never_bind fun _ => never_bind fun _ => never_bind fun _ => never_pure id
  · rw [if_pos hjob]
    exact never_bind fun _ => never_bind fun _ => never_pure id

theorem heeds_stagePipe (next : List Command) : Heeds (fun ends => ends ≠ none) (stagePipe next) :=
  .ite (fun _ => heeds_pipe.bind_some (fun _ => heeds_pure _) (never_pure (by simp))) fun _ => heeds_pure _

theorem heeds_launchStage (gate0 gate1 : ℕ) (next : List Command) (pipefd0 pipefd1 : Int) (l : Launch) :
    Heeds Goes (launchStage gate0 gate1 next pipefd0 pipefd1 l) := by
  have never_abort (pgid e : Int) (pids : List Int) : Never (α := Except Int Launch) Goes (do
      closeIf pipefd0
      closeIf pipefd1
      closeIf l.pipeFd
      close gate0
      close gate1
      rollbackPipeline pgid pids
      pure (.error e)) :=
    never_bind fun _ => never_bind fun _ => never_bind fun _ => never_bind fun _ => never_bind fun _ =>
      never_bind fun _ => never_pure id
  apply heeds_fork.bind_neg (fun _ => never_abort _ _ _)
  intro pid
  apply (heeds_setpgidParent pid _).bind_neg (fun _ => never_abort _ _ _)
  intro _
  refine (heeds_closeIf _).then fun _ => .ite (fun _ => ?_) fun _ => heeds_pure _
  exact (heeds_close _).then fun _ => heeds_pure _

theorem heeds_launchLoop (gate0 gate1 : ℕ) (chain : List Command) (l : Launch) :
    Heeds Goes (launchLoop gate0 gate1 chain l) := by
  induction chain generalizing l with
  | nil => exact heeds_pure _
  | cons cmd next ih =>
    have never_abort (e : Int) : Never (α := Except Int Launch) Goes (do
        closeIf l.pipeFd
        close gate0
        close gate1
        rollbackPipeline l.pgid l.pids
        pure (.error e)) :=
      never_bind fun _ => never_bind fun _ => never_bind fun _ => never_bind fun _ => never_pure id
    refine .ite (fun _ => heeds_of_never (never_abort _)) fun _ => ?_
    refine (heeds_stagePipe next).bind_some ?_ (never_abort _)
    intro ends
    exact (heeds_launchStage _ _ _ _ _ _).bind_goes (fun l => ih l) fun _ => never_pure id

theorem heeds_releasePipeline (com : Command) (gate1 : ℕ) (l : Launch) (terminalActive : Bool) :
    Heeds Goes (releasePipeline com gate1 l terminalActive) := by
  refine (heeds_startupGateRelease gate1 l.pids.length).bind_neg (fun _ => ?_) fun _ =>
    (heeds_close _).then fun _ => heeds_pure _
  exact never_bind fun _ => never_bind fun _ => never_bind fun _ =>
    never_ite (never_bind fun _ => never_pure id) (never_pure id)

theorem heeds_registerPipeline (com : Command) (terminalActive : Bool) (gate0 gate1 : ℕ) (l : Launch) :
    Heeds Goes (registerPipeline com terminalActive gate0 gate1 l) := by
  refine (heeds_closeIf _).then fun _ => (heeds_close _).then fun _ => ?_
  refine (heeds_jobAdd l.pgid com.argv0).bind (fun job hjob => ?_) fun job hjob => ?_
  · subst hjob
    rw [if_neg (by decide)]
    refine (heeds_processAddAll l.pids).bind_neg
      (fun _ => never_bind fun _ => never_bind fun _ => never_bind fun _ => never_pure id) ?_
    intro _
    have go (r : Int) := heeds_releasePipeline com gate1 l terminalActive
    refine .ite (fun _ => (heeds_terminalSetForeground l.pgid).bind_neg (fun _ => ?_) go)
      fun _ => (heeds_pure 0).bind_neg (fun _ => ?_) go
    all_goals exact never_bind fun _ => never_bind fun _ => never_bind fun _ => never_bind fun _ => never_pure id
  · rw [if_pos hjob]
    exact never_bind fun _ => never_bind fun _ => never_pure id

theorem heeds_launchPipeline (com : Command) (next : List Command) : Heeds Goes (launchPipeline com next) := by
  refine heeds_startupGateCreate.bind_some ?_ (never_pure id)
  intro gate
  apply (heeds_get.then fun _ => heeds_pure _).then
  intro terminalActive
  exact (heeds_launchLoop _ _ _ _).bind_goes (fun l => heeds_registerPipeline _ _ _ _ _) fun _ => never_pure id

/-! ### Failing before the wait -/

/-- `execute` starts with `launch`, the launch of `n` commands of which `com` is the first, and `launch` is
atomic in `w`: it returns, with the descriptors there were before it and every `close` on the way on an open
descriptor.

* When a system call has failed for good, there is no name for the job, or there are more commands than
  `MAX_PIPELINE`, it returns an error.
* When it returns an error, this is what `execute` returns, `nextid` is all that may have changed in the
  context, and every child forked has been sent `SIGKILL` and then collected.
* When it does not, there are `n` children, a byte of the gate for each of them, and they are the newest job. -/
def LaunchAtomic {α : Type} (execute : Sh Int) (launch : Sh (Except Int α)) (com : Command) (n : ℕ)
    (w : World) : Prop :=
  ∃ r w' seg, launch w = .done r w' ∧ w'.log = w.log ++ seg ∧ w'.kernel.fds = w.kernel.fds ∧
    (∀ fd k js, .call (.close fd) k js ∈ seg → k.fds.IsOpen fd) ∧
    ((∃ c ∈ calls seg, c.FailsLaunch) ∨ com.argv0 = none ∨ MAX_PIPELINE < n → ∃ e, r = .error e) ∧
    (∀ e, r = .error e → execute w = .done e w' ∧ e ∈ errors ∧ e < 0 ∧
      (∃ n ≥ w.ctx.jobs.nextid, w'.ctx = { w.ctx with jobs := ⟨w.jobs, n⟩ }) ∧
      (∀ p ∈ forks seg, p ∉ w'.kernel.pids ∧ ∃ st, List.Sublist
        [.fork p, .kill p SIGKILL .ok, .waited p noOpts (.report p st)] (calls seg))) ∧
    ∀ a, r = .ok a → (forks seg).length = n ∧ gateBytes (calls seg) = n ∧
      ∃ job, w'.jobs = job :: w.jobs ∧ job.pids = forks seg

theorem sound_close {seg : List Event} (h : ∀ e ∈ seg, e.Sound) :
    ∀ fd k js, .call (.close fd) k js ∈ seg → k.fds.IsOpen fd := fun _ _ _ hm => h _ hm

/-- A launch that meets its specification and heeds its calls is atomic. -/
theorem launchAtomic_of_spec {α : Type} {com : Command} {n : ℕ} {w : World} {launch : Sh (Except Int α)}
    {execute : Sh Int} {P : α → World → Prop} (h : Prog.wp launch (LaunchSpec com w P) (fun _ => False) w)
    (hheed : Heeds Goes launch)
    (hP : ∀ a w', P a w' → n ≤ MAX_PIPELINE ∧ ∃ pgid ps, ps.length = n ∧ Launched com w pgid ps w')
    (hex : ∀ e w', launch w = .done (.error e) w' → execute w = .done e w') :
    LaunchAtomic execute launch com n w := by
  obtain ⟨r, w', hrun, hr⟩ := Prog.wp_total.mp h
  cases r with
  | ok a =>
    obtain ⟨hmax, pgid, ps, hlen, hl⟩ := hP a w' hr
    obtain ⟨seg, hseg, hev, hf, -, hbytes, -⟩ := hl.log
    refine ⟨.ok a, w', seg, hrun, hseg, hl.fds, sound_close fun e he => ?_, ?_,
      by simp, fun _ _ => ⟨?_, ?_, ?_⟩⟩
    · rcases hev e he with he | he
      · exact sound_of_ofLaunch he
      · exact sound_of_ofOpening he
    · -- the launch has succeeded, so nothing has failed
      obtain ⟨seg', hseg', hok⟩ := Prog.wp_done (hheed w) hrun trivial
      obtain rfl : seg' = seg := List.append_cancel_left (hseg'.symm.trans hseg)
      obtain ⟨-, -, c, hc, -⟩ := hl.ctx
      rintro (⟨c, hm, hfail⟩ | hnone | hmany)
      · exact absurd hfail (calls_of hok c hm)
      · rw [hc] at hnone
        cases hnone
      · omega
    · rw [hf, hlen]
    · rw [hbytes, hlen]
    · rw [hf]
      exact hl.jobs
  | error e =>
    obtain ⟨he, hu⟩ := hr
    obtain ⟨seg, hseg, hsound, -, -, hfk⟩ := hu.log
    refine ⟨.error e, w', seg, hrun, hseg, hu.fds, sound_close hsound, fun _ => ⟨e, rfl⟩, ?_, by simp⟩
    rintro e' ⟨rfl⟩
    refine ⟨hex e w' hrun, he, errors_neg e he, hu.ctx, fun p hp => ⟨?_, (hfk p hp).2⟩⟩
    rw [hu.pids]
    exact (hfk p hp).1

/-- **A launch succeeds or leaves nothing behind**, for every chain of commands, whatever fails and wherever. -/
theorem launch_failure_atomic (com : Command) (next : List Command) (w : World) :
    LaunchAtomic (executeSingle com) (launchSingle com) com 1 w ∧
      LaunchAtomic (executePipeline com next) (launchPipeline com next) com (next.length + 1) w :=
  ⟨launchAtomic_of_spec (wp_launchSingle com w) (heeds_launchSingle com)
      (fun _ _ h => ⟨by decide, _, _, rfl, h.2⟩) fun _ _ h => Prog.bind_done h,
    launchAtomic_of_spec (wp_launchPipeline com next w) (heeds_launchPipeline com next)
      (fun _ _ h => ⟨h.2.2.1, _, _, h.2.1, h.2.2.2⟩) fun _ _ h => Prog.bind_done h⟩

end MiniShell
