import MiniShell.Spec.Mirror

/-!
# What a launch does to the other children

`Tended ms k` — the children of the open entries `ms` are still there and their entries lag behind them at most,
and every other child is as an entry that runs may find it.  Everything a launch does keeps this up, whether it
succeeds or is rolled back: it collects only children it has forked itself.
-/

namespace MiniShell

open MiniShell.Lib MiniShellError

/-- The children of the open entries of `ms` are as their entries have it, the others as an entry that runs has it. -/
structure Tended (ms : List (Int × Process)) (k : Kernel) : Prop where
  there : ∀ p ∈ openPids ms, p ∈ k.pids
  lags : ∀ m ∈ ms, m.2.status ≠ .done → ∀ c ∈ k.children, c.pid = m.2.pid → m.2.status.Lags c.state
  others : ∀ c ∈ k.children, c.pid ∉ openPids ms → ProcessStatus.running.Lags c.state

section Kernel

variable {ms : List (Int × Process)} {k k' : Kernel}

theorem Mirrored.tended (h : Mirrored ms k) : Tended ms k where
  there p hp := (h.open_iff p).mp hp
  lags := h.lags
  others c hc hp := absurd ((h.open_iff c.pid).mpr (List.mem_map_of_mem hc)) hp

/-- What does not change the children does not matter. -/
theorem Tended.same (h : Tended ms k) (hk : k'.children = k.children) : Tended ms k' where
  there p hp := by
    rw [Kernel.pids, hk]
    exact h.there p hp
  lags := by
    rw [hk]
    exact h.lags
  others := by
    rw [hk]
    exact h.others

theorem Tended.update (h : Tended ms k) (p : Child → Bool) {f : ChildState → ChildState}
    (hf : ∀ s, f s = s ∨ ((f s).report reapOpts).isSome = true) : Tended ms (k.updateChildren p f) where
  there q hq := by
    rw [Kernel.updateChildren_pids]
    exact h.there q hq
  lags m hm ho c hc hpid := by
    obtain ⟨c₀, hc₀, rfl⟩ := Kernel.mem_updateChildren.mp hc
    split at hpid
    · rw [if_pos (by assumption)]
      exact (h.lags m hm ho c₀ hc₀ hpid).change (hf _)
    · rw [if_neg (by assumption)]
      exact h.lags m hm ho c₀ hc₀ hpid
  others c hc hpid := by
    obtain ⟨c₀, hc₀, rfl⟩ := Kernel.mem_updateChildren.mp hc
    split at hpid
    · rw [if_pos (by assumption)]
      exact (h.others c₀ hc₀ hpid).change (hf _)
    · rw [if_neg (by assumption)]
      exact h.others c₀ hc₀ hpid

theorem Tended.move (h : Tended ms k) (pid pgid : Int) : Tended ms (k.moveChild pid pgid) where
  there q hq := by
    rw [Kernel.moveChild_pids]
    exact h.there q hq
  lags m hm ho c hc hpid := by
    obtain ⟨c₀, hc₀, rfl⟩ := Kernel.mem_moveChild.mp hc
    split at hpid <;> split <;> exact h.lags m hm ho c₀ hc₀ hpid
  others c hc hpid := by
    obtain ⟨c₀, hc₀, rfl⟩ := Kernel.mem_moveChild.mp hc
    split at hpid <;> split <;> exact h.others c₀ hc₀ hpid

theorem Tended.happen (h : Tended ms k) (e : Env) : Tended ms (k.happen e) := by
  cases e with
  | terminate p t => exact h.update _ (terminate_change t)
  | stop p sig => exact h.update _ (stop_change sig)
  | resume p => exact h.update _ resume_change
  | regroup p g => exact h.move p g
  | ttyModes m => exact h.same rfl
  | ttyPgrp g => exact h.same rfl

theorem Tended.happens (h : Tended ms k) (es : List Env) : Tended ms (es.foldl Kernel.happen k) := by
  induction es generalizing k with
  | nil => exact h
  | cons e es ih => exact ih (h.happen e)

theorem Tended.setpgid (h : Tended ms k) (pid pgid : Int) (c : Choice) : Tended ms (k.setpgid pid pgid c).2 := by
  cases c <;> first | exact h | exact h.move pid pgid

theorem Tended.kill (h : Tended ms k) (target : Int) (sig : Sig) (c : Choice) :
    Tended ms (k.kill target sig c).2 := by
  unfold Kernel.kill
  split
  · exact h.update _ (deliver_change sig)
  · split <;> exact h

/-- A new child runs. -/
theorem Tended.fork (h : Tended ms k) (c : Choice) : Tended ms (k.fork c).2 := by
  have hnew : Tended ms { k with children := k.children ++ [⟨k.forkPid c, k.shellPgrp, .running false⟩] } := by
    have hcases : ∀ c' ∈ k.children ++ [⟨k.forkPid c, k.shellPgrp, .running false⟩], c' ∈ k.children ∨
        c'.pid = k.forkPid c ∧ c'.state = .running false := by
      intro c' hc'
      rcases List.mem_append.mp hc' with hc' | hc'
      · exact Or.inl hc'
      · rw [List.mem_singleton.mp hc']
        exact Or.inr ⟨rfl, rfl⟩
    refine ⟨fun p hp => ?_, fun m hm ho c' hc' hpid => ?_, fun c' hc' hpid => ?_⟩
    · have hold := h.there p hp
      unfold Kernel.pids at hold ⊢
      rw [List.map_append]
      exact List.mem_append_left _ hold
    · rcases hcases c' hc' with hc' | ⟨hp, -⟩
      · exact h.lags m hm ho c' hc' hpid
      · refine absurd (h.there _ (mem_openPids.mpr ⟨m, hm, ho, rfl⟩)) ?_
        rw [← hpid, hp]
        exact (k.forkPid_spec c).2
    · rcases hcases c' hc' with hc' | ⟨-, hs⟩
      · exact h.others c' hc' hpid
      · rw [hs]
        exact lags_running_new
  cases c <;> first | exact h | exact hnew

/-- A child that has no open entry is collected. -/
theorem Tended.collect (h : Tended ms k) {pid : Int} (hpid : pid ∉ openPids ms) (t : Termination) :
    Tended ms (k.collect pid (.ended t)) where
  there p hp := by
    rw [Kernel.collect_pids]
    refine List.mem_filter.mpr ⟨h.there p hp, ?_⟩
    simpa using fun heq : p = pid => hpid (heq ▸ hp)
  lags m hm ho c hc := h.lags m hm ho c (List.mem_filter.mp hc).1
  others c hc := h.others c (List.mem_filter.mp hc).1

end Kernel

/-! ### The programs -/

/-- The program leaves the children of the entries `ms` alone. -/
def Minds (ms : List (Int × Process)) {α : Type} (m : Sh α) : Prop :=
  ∀ w, Tended ms w.kernel → Prog.wp m (fun _ w' => Tended ms w'.kernel) (fun _ => True) w

section Programs

variable {ms : List (Int × Process)} {α β : Type}

theorem Minds.pure (a : α) : Minds ms (Pure.pure a : Sh α) := fun _ h => h

theorem Minds.bind {m : Sh α} {f : α → Sh β} (hm : Minds ms m) (hf : ∀ a, Minds ms (f a)) :
    Minds ms (m >>= f) :=
  fun w h => by
    rw [Prog.wp_bind]
    exact Prog.wp_mono (hm w h) (fun a w' h' => hf a w' h') fun _ h => h

theorem Minds.get_bind {f : World → Sh α} (hf : ∀ w, Minds ms (f w)) : Minds ms (Prog.get >>= f) :=
  fun w h => hf w w h

theorem Minds.modify {f : World → World} (hf : ∀ w, (f w).kernel = w.kernel) : Minds ms (Prog.modify f) :=
  fun w h => by
  rw [Prog.wp_modify]
  exact h.same (congrArg Kernel.children (hf w))

theorem Minds.ite {p : Prop} [Decidable p] {m n : Sh α} (hm : p → Minds ms m) (hn : ¬p → Minds ms n) :
    Minds ms (if p then m else n) := by
  split
  · exact hm (by assumption)
  · exact hn (by assumption)

theorem Minds.syscall {f : Choice → Kernel → α × Kernel} {call : α → Call}
    (hf : ∀ c k, Tended ms k → Tended ms (f c k).2) : Minds ms (syscall f call) := fun _ h =>
  wp_syscall fun used c _ _ => hf c _ (h.happens (envs used))

/-- A call that leaves the children as they are. -/
theorem Minds.still {f : Choice → Kernel → α × Kernel} {call : α → Call}
    (hf : ∀ c k, (f c k).2.children = k.children) : Minds ms (MiniShell.syscall f call) :=
  .syscall fun c k h => h.same (hf c k)

theorem Minds.loop {υ : Type} {μ : World → ℕ} {body : υ → Sh (υ ⊕ α)}
    (hb : ∀ t, Minds ms (body t)) (t : υ) :
    Minds ms (Prog.loop μ body t) := fun w h =>
  Prog.wp_loop_partial (fun _ w' => Tended ms w'.kernel) (fun t w' h' => Prog.wp_mono (hb t w' h')
    (fun x _ h'' => by cases x <;> exact h'') fun _ h => h) t w h

theorem Minds.retry {call : Sh Res} (hc : Minds ms call) : Minds ms (retry call) :=
  .loop (fun _ => hc.bind fun r => by split <;> exact .pure _) ()

theorem Minds.forList {γ : Type} {f : γ → Sh Unit} {l : List γ} (hf : ∀ a ∈ l, Minds ms (f a)) :
    Minds ms (Prog.forList f l) := by
  induction l with
  | nil => exact .pure _
  | cons a l ih => exact (hf a (by simp)).bind fun _ => ih fun b hb => hf b (by simp [hb])

/-- The program leaves the children of `ms` alone, and what it returns satisfies `P`. -/
def MindsWith (ms : List (Int × Process)) (P : α → Prop) (m : Sh α) : Prop :=
  ∀ w, Tended ms w.kernel → Prog.wp m (fun a w' => Tended ms w'.kernel ∧ P a) (fun _ => True) w

theorem MindsWith.pure {P : α → Prop} {a : α} (h : P a) : MindsWith ms P (Pure.pure a) :=
  fun _ ht => ⟨ht, h⟩

theorem MindsWith.bind {P : α → Prop} {Q : β → Prop} {m : Sh α} {f : α → Sh β} (hm : MindsWith ms P m)
    (hf : ∀ a, P a → MindsWith ms Q (f a)) : MindsWith ms Q (m >>= f) := by
  intro w h
  rw [Prog.wp_bind]
  exact Prog.wp_mono (hm w h) (fun a w' h' => hf a h'.2 w' h'.1) fun _ h => h

theorem MindsWith.bind_minds {P : α → Prop} {m : Sh α} {f : α → Sh β} (hm : MindsWith ms P m)
    (hf : ∀ a, P a → Minds ms (f a)) : Minds ms (m >>= f) := by
  intro w h
  rw [Prog.wp_bind]
  exact Prog.wp_mono (hm w h) (fun a w' h' => hf a h'.2 w' h'.1) fun _ h => h

theorem Minds.bind_with {Q : β → Prop} {m : Sh α} {f : α → Sh β} (hm : Minds ms m)
    (hf : ∀ a, MindsWith ms Q (f a)) :
    MindsWith ms Q (m >>= f) := by
  intro w h
  rw [Prog.wp_bind]
  exact Prog.wp_mono (hm w h) (fun a w' h' => hf a w' h') fun _ h => h

theorem MindsWith.ite {P : α → Prop} {p : Prop} [Decidable p] {m n : Sh α} (hm : p → MindsWith ms P m)
    (hn : ¬p → MindsWith ms P n) : MindsWith ms P (if p then m else n) := by
  split
  · exact hm (by assumption)
  · exact hn (by assumption)

/-- A new child has no open entry. -/
theorem mindsWith_fork : MindsWith ms (fun pid => 0 ≤ pid → pid ∉ openPids ms) fork := by
  intro w h
  apply wp_syscall
  intro used c rest _
  have hdrift : Tended ms (w.drift used rest).kernel := h.happens (envs used)
  refine ⟨hdrift.fork c, fun h0 hmem => ?_⟩
  have hnew := ((w.drift used rest).kernel.forkPid_spec c).2
  have hlive := hdrift.there _ hmem
  cases c with
  | fail e => exact absurd h0 (show ¬ 0 ≤ (-1 : Int) by decide)
  | ok => exact hnew hlive
  | pick n => exact hnew hlive

theorem minds_close (fd : ℕ) : Minds ms (close fd) := fun _ h => h.same rfl

theorem minds_closeIf (fd : Int) : Minds ms (closeIf fd) := .ite (fun _ => minds_close _) fun _ => .pure _

theorem minds_malloc (what : Alloc) : Minds ms (malloc what) := .still fun _ _ => rfl

theorem minds_kill (target : Int) (sig : Sig) : Minds ms (kill target sig) :=
  .syscall fun c _ h => h.kill target sig c

theorem minds_setpgidParent (pid pgid : Int) : Minds ms (setpgidParent pid pgid) :=
  (Minds.retry (.syscall fun c _ h => h.setpgid pid pgid c)).bind fun r => by split <;> exact .pure _

theorem minds_startupGateCreate : Minds ms startupGateCreate := by
  have hpipe : Minds ms pipe := .still fun c k => by cases c <;> rfl
  have hcloexec : ∀ fd, Minds ms (setCloexec fd) := fun fd => .still fun c k => by cases c <;> rfl
  apply hpipe.bind
  intro ends
  cases ends with
  | none => exact .pure _
  | some ends =>
    have hshut : Minds ms (do close ends.1; close ends.2; pure none : Sh (Option (ℕ × ℕ))) :=
      (minds_close _).bind fun _ => (minds_close _).bind fun _ => .pure _
    apply (hcloexec _).bind
    intro r
    cases r with
    | err e => exact hshut
    | ok =>
      apply (hcloexec _).bind
      intro r
      cases r with
      | err e => exact hshut
      | ok => exact .pure _

theorem minds_startupGateRelease (fd n : ℕ) : Minds ms (startupGateRelease fd n) := by
  induction n with
  | zero => exact .pure _
  | succ n ih =>
    apply (Minds.retry (.still fun _ _ => rfl)).bind
    intro r
    cases r with
    | ok => exact ih
    | err e => exact .pure _

/-- A child that has no open entry may be waited for. -/
theorem minds_reapPid {pid : Int} (hpid : pid ∉ openPids ms) : Minds ms (reapPid pid) := by
  refine .ite (fun _ => .pure _) fun hpos => .loop (fun _ => .bind (fun w h => ?_) fun r => ?_) ()
  · refine wp_waitpid rfl ?_ fun _ => trivial
    intro used c rest r k _ hpoll
    have hdrift : Tended ms ((w.record (.waitpid pid noOpts)).drift used rest).kernel := h.happens (envs used)
    rcases Kernel.poll_cases hpoll with ⟨-, -, rfl⟩ | ⟨-, -, rfl⟩ |
      ⟨x, change, -, hnamed, hreport, -, rfl⟩
    · exact hdrift
    · exact hdrift
    · have hx : x.pid = pid := by simpa [Child.named, show 0 < pid by omega] using hnamed
      obtain ⟨t, rfl⟩ := report_noOpts hreport
      rw [hx]
      exact hdrift.collect hpid t
  · split <;> exact .pure _

theorem minds_rollbackPipeline {pgid : Int} {pids : List Int} (h : ∀ p ∈ pids, p ∉ openPids ms) :
    Minds ms (rollbackPipeline pgid pids) := by
  have hrest : Minds ms (do
      Prog.forList (fun pid => do
        if ¬ pid ≤ 0 then
          let _ ← kill pid SIGKILL) pids
      Prog.forList reapPid pids) :=
    (Minds.forList fun _ _ => .ite (fun _ => (minds_kill _ _).bind fun _ => .pure _) fun _ => .pure _).bind
      fun _ => .forList fun p hp => minds_reapPid (h p hp)
  exact .ite (fun _ => (minds_kill _ _).bind fun _ => hrest) fun _ => hrest

theorem minds_rollbackSingle {pid : Int} (h : pid ∉ openPids ms) : Minds ms (rollbackSingle pid) :=
  .ite (fun _ => .pure _) fun _ => (minds_kill _ _).bind fun _ => (minds_kill _ _).bind fun _ => minds_reapPid h

theorem minds_jobRemoveM (pgid : Int) : Minds ms (jobRemoveM pgid) := .modify fun _ => rfl

theorem minds_terminalSetPgrp (pgid : Int) : Minds ms (terminalSetPgrp pgid) :=
  (Minds.retry (.still fun c k => by cases c <;> rfl)).bind fun r => by split <;> exact .pure _

theorem minds_terminalSetForeground (pgid : Int) : Minds ms (terminalSetForeground pgid) :=
  .get_bind fun _ => .ite (fun _ => .pure _) fun _ => .ite (fun _ => .pure _) fun _ => minds_terminalSetPgrp pgid

theorem minds_terminalSetModes (modes : Termios) : Minds ms (terminalSetModes modes) :=
  .get_bind fun _ => .ite (fun _ => .pure _) fun _ =>
    (Minds.retry (.still fun c k => by cases c <;> rfl)).bind fun r => by split <;> exact .pure _

theorem minds_terminalRestore : Minds ms terminalRestore :=
  .get_bind fun _ => .ite (fun _ => .pure _) fun _ => .ite (fun _ => .pure _) fun _ =>
    (minds_terminalSetPgrp _).bind fun _ => .ite (fun _ => .pure _) fun _ =>
      .ite (fun _ => (minds_terminalSetModes _).bind fun _ => by split <;> exact .pure _) fun _ => .pure _

theorem minds_jobAdd (pgid : Int) (command : Option Bytes) : Minds ms (jobAdd pgid command) := by
  unfold jobAdd
  split
  · exact .pure _
  · refine .ite (fun _ => .pure _) fun _ => (minds_malloc _).bind fun r => ?_
    split
    · exact .pure _
    · exact .bind (.modify fun _ => rfl) fun _ => .pure _

theorem minds_processAdd (i : ℕ) (pid : Int) : Minds ms (processAdd i pid) := by
  refine .ite (fun _ => .pure _) fun _ => (minds_malloc _).bind fun r => ?_
  split
  · exact .pure _
  · exact .bind (.modify fun _ => rfl) fun _ => .pure _

theorem minds_processAddAll (pids : List Int) : Minds ms (processAddAll pids) := by
  induction pids with
  | nil => exact .pure _
  | cons pid pids ih => exact (minds_processAdd 0 pid).bind fun _ => .ite (fun _ => .pure _) fun _ => ih

theorem minds_releaseSingle (com : Command) (gate1 : ℕ) {pid : Int} (terminalActive : Bool)
    (h : pid ∉ openPids ms) :
    Minds ms (releaseSingle com gate1 pid terminalActive) :=
  (minds_startupGateRelease gate1 1).bind fun _ => .ite
    (fun _ => (minds_close _).bind fun _ => (minds_rollbackSingle h).bind
      fun _ => (minds_jobRemoveM _).bind fun _ =>
      .ite (fun _ => minds_terminalRestore.bind fun _ => .pure _) fun _ => .pure _)
    fun _ => (minds_close _).bind fun _ => .pure _

/-- **`execute_single` leaves the other children alone** up to the opened gate. -/
theorem minds_launchSingle (com : Command) : Minds ms (launchSingle com) := by
  apply minds_startupGateCreate.bind
  intro gate
  cases gate with
  | none => exact .pure _
  | some gate =>
    refine .get_bind fun w => mindsWith_fork.bind_minds fun pid hpid => .ite (fun _ => ?_) fun hpos => ?_
    · exact (minds_close _).bind fun _ => (minds_close _).bind fun _ => .pure _
    have hnew : pid ∉ openPids ms := hpid (by omega)
    refine (minds_close _).bind fun _ => (minds_setpgidParent _ _).bind fun _ => .ite (fun _ => ?_) fun _ => ?_
    · exact (minds_close _).bind fun _ => (minds_rollbackSingle hnew).bind fun _ => .pure _
    refine (minds_jobAdd _ _).bind fun _ => .ite (fun _ => ?_) fun _ => ?_
    · exact (minds_close _).bind fun _ => (minds_rollbackSingle hnew).bind fun _ => .pure _
    refine (minds_processAdd _ _).bind fun _ => .ite (fun _ => ?_) fun _ => ?_
    · exact (minds_close _).bind fun _ => (minds_rollbackSingle hnew).bind fun _ =>
        (minds_jobRemoveM _).bind fun _ =>
        .pure _
    have hfail : Minds ms (do
        close gate.2
        rollbackSingle pid
        jobRemoveM pid
        let _ ← terminalRestore
        pure (.error errUnknown) : Sh (Except Int (Int × Bool))) :=
      (minds_close _).bind fun _ => (minds_rollbackSingle hnew).bind fun _ => (minds_jobRemoveM _).bind fun _ =>
        minds_terminalRestore.bind fun _ => .pure _
    exact .ite (fun _ => (minds_terminalSetForeground _).bind fun _ => .ite (fun _ => hfail)
      fun _ => minds_releaseSingle com _ _ hnew) fun _ => (Minds.pure _).bind fun _ => .ite (fun _ => hfail)
      fun _ => minds_releaseSingle com _ _ hnew

/-- The children of a pipeline that is being launched have no open entry. -/
def Launch.Apart (ms : List (Int × Process)) (l : Launch) : Prop := ∀ p ∈ l.pids, p ∉ openPids ms

/-- A stage that cannot be started. -/
theorem mindsWith_abandon {P : Launch → Prop} {gate0 gate1 : ℕ} {pgid e : Int} {pids : List Int}
    (h : ∀ p ∈ pids, p ∉ openPids ms) : MindsWith ms (fun r => ∀ l, r = .ok l → P l) (do
      close gate0
      close gate1
      rollbackPipeline pgid pids
      pure (.error e) : Sh (Except Int Launch)) :=
  (minds_close _).bind_with fun _ => (minds_close _).bind_with fun _ =>
    (minds_rollbackPipeline h).bind_with fun _ =>
    .pure fun _ he => by cases he

theorem mindsWith_launchStage (gate0 gate1 : ℕ) (next : List Command) (pipefd0 pipefd1 : Int) {l : Launch}
    (h : l.Apart ms) :
    MindsWith ms (fun r => ∀ l', r = .ok l' → l'.Apart ms)
      (launchStage gate0 gate1 next pipefd0 pipefd1 l) := by
  refine mindsWith_fork.bind fun pid hpid => .ite (fun _ => ?_) fun hpos => ?_
  · exact (minds_closeIf _).bind_with fun _ => (minds_closeIf _).bind_with fun _ =>
      (minds_closeIf _).bind_with fun _ =>
      mindsWith_abandon h
  have hnew : ∀ p ∈ l.pids ++ [pid], p ∉ openPids ms := by
    intro p hp
    rcases List.mem_append.mp hp with hp | hp
    · exact h p hp
    · rw [List.mem_singleton.mp hp]
      exact hpid (by omega)
  refine (minds_setpgidParent _ _).bind_with fun _ => .ite (fun _ => ?_) fun _ => ?_
  · exact (minds_closeIf _).bind_with fun _ => (minds_closeIf _).bind_with fun _ =>
      (minds_closeIf _).bind_with fun _ =>
      mindsWith_abandon hnew
  refine (minds_closeIf _).bind_with fun _ => .ite (fun _ => (minds_close _).bind_with fun _ => .pure ?_)
    fun _ => .pure ?_
  · rintro l' he
    cases he
    exact hnew
  · rintro l' he
    cases he
    exact hnew

theorem mindsWith_launchLoop (gate0 gate1 : ℕ) (coms : List Command) {l : Launch} (h : l.Apart ms) :
    MindsWith ms (fun r => ∀ l', r = .ok l' → l'.Apart ms) (launchLoop gate0 gate1 coms l) := by
  induction coms generalizing l with
  | nil =>
    refine .pure fun l' he => ?_
    cases he
    exact h
  | cons com next ih =>
    refine .ite (fun _ => (minds_closeIf _).bind_with fun _ => mindsWith_abandon h) fun _ => ?_
    have hpipe : Minds ms (stagePipe next) := .ite
      (fun _ => (Minds.still fun c k => by cases c <;> rfl).bind fun r => by split <;> exact .pure _)
        fun _ => .pure _
    apply hpipe.bind_with
    intro r
    cases r with
    | none => exact (minds_closeIf _).bind_with fun _ => mindsWith_abandon h
    | some fds =>
      apply (mindsWith_launchStage gate0 gate1 next _ _ h).bind
      intro r hr
      cases r with
      | error e => exact .pure fun _ he => by cases he
      | ok l' => exact ih (hr l' rfl)

theorem minds_releasePipeline (com : Command) (gate1 : ℕ) {l : Launch} (terminalActive : Bool) (h : l.Apart ms) :
    Minds ms (releasePipeline com gate1 l terminalActive) :=
  (minds_startupGateRelease gate1 _).bind fun _ => .ite
    (fun _ => (minds_close _).bind fun _ => (minds_rollbackPipeline h).bind
      fun _ => (minds_jobRemoveM _).bind fun _ =>
      .ite (fun _ => minds_terminalRestore.bind fun _ => .pure _) fun _ => .pure _)
    fun _ => (minds_close _).bind fun _ => .pure _

/-- **`execute_pipeline` leaves the other children alone** up to the opened gate. -/
theorem minds_launchPipeline (com : Command) (next : List Command) : Minds ms (launchPipeline com next) := by
  apply minds_startupGateCreate.bind
  intro gate
  cases gate with
  | none => exact .pure _
  | some gate =>
    refine .get_bind fun w => (mindsWith_launchLoop gate.1 gate.2 (com :: next) ?_).bind_minds fun r hr => ?_
    · exact fun p hp => absurd hp List.not_mem_nil
    cases r with
    | error e => exact .pure _
    | ok l =>
      have hl : l.Apart ms := hr l rfl
      refine (minds_closeIf _).bind fun _ => (minds_close _).bind fun _ => (minds_jobAdd _ _).bind fun _ =>
        .ite (fun _ => ?_) fun _ => ?_
      · exact (minds_close _).bind fun _ => (minds_rollbackPipeline hl).bind fun _ => .pure _
      refine (minds_processAddAll _).bind fun _ => .ite (fun _ => ?_) fun _ => ?_
      · exact (minds_close _).bind fun _ => (minds_rollbackPipeline hl).bind fun _ =>
          (minds_jobRemoveM _).bind fun _ =>
          .pure _
      have hfail : Minds ms (do
          close gate.2
          rollbackPipeline l.pgid l.pids
          jobRemoveM l.pgid
          let _ ← terminalRestore
          pure (.error errUnknown) : Sh (Except Int (Launch × Bool))) :=
        (minds_close _).bind fun _ => (minds_rollbackPipeline hl).bind fun _ => (minds_jobRemoveM _).bind fun _ =>
          minds_terminalRestore.bind fun _ => .pure _
      exact .ite (fun _ => (minds_terminalSetForeground _).bind fun _ => .ite (fun _ => hfail)
        fun _ => minds_releasePipeline com _ _ hl) fun _ => (Minds.pure _).bind fun _ => .ite (fun _ => hfail)
        fun _ => minds_releasePipeline com _ _ hl

end Programs

end MiniShell
