import MiniShell.Model.Main
import MiniShell.Spec.Execute
import MiniShell.Spec.Redirect
import MiniShell.Spec.Status
import MiniShell.Spec.Wires

/-!
# The descriptors of a session

No command leaves a descriptor behind, or takes one away.

* `OnTop F es G` — the table `G` refers to what `F` refers to, and on top of it are the descriptors `es`;
* `Intact F es w` — so it is in `w`, where the standard descriptors are among those of `F`;
* `wp_loop_whole` — the main loop keeps this, until taking a redirection back fails and the shell stops;
* `heads_intact` — so it is whenever the loop is about to go on.
-/

namespace MiniShell

open MiniShell.Lib MiniShellError

/-! ### Descriptors on top of a table -/

/-- The descriptors `es` are on top of the table `F`, as far as it matters what they refer to. -/
structure OnTop (F : FdTable Fd) (es : List (ℕ × Desc)) (G : FdTable Fd) : Prop where
  nodup : (es.map Prod.fst).Nodup
  fresh : ∀ e ∈ es, descOf F e.1 = none
  top : ∀ e ∈ es, descOf G e.1 = some e.2
  base : ∀ x, x ∉ es.map Prod.fst → descOf G x = descOf F x

section OnTop

variable {F G G' : FdTable Fd} {es es' : List (ℕ × Desc)} {n x : ℕ} {d : Fd}

theorem OnTop.refl (F : FdTable Fd) : OnTop F [] F := ⟨by simp, by simp, by simp, fun _ _ => rfl⟩

theorem descOf_none : descOf F x = none ↔ ¬ F.IsOpen x := by rw [isOpen_iff_desc, not_not]

/-- Opening a free descriptor. -/
theorem OnTop.push (h : OnTop F es G) (hn : ¬ G.IsOpen n) : OnTop F ((n, d.desc) :: es) ((n, d) :: G) := by
  have hnew : n ∉ es.map Prod.fst := by
    intro hm
    obtain ⟨e, he, rfl⟩ := List.mem_map.mp hm
    exact hn (isOpen_iff_desc.mpr (by rw [h.top e he]; exact Option.some_ne_none _))
  refine ⟨List.nodup_cons.mpr ⟨hnew, h.nodup⟩, fun e he => ?_, fun e he => ?_, fun x hx => ?_⟩
  · rcases List.mem_cons.mp he with rfl | he
    · rw [← h.base n hnew]
      exact descOf_none.mpr hn
    · exact h.fresh e he
  · rw [descOf_cons]
    rcases List.mem_cons.mp he with rfl | he
    · rw [if_pos rfl]
    · rw [if_neg fun heq : e.1 = n => hnew (heq ▸ List.mem_map_of_mem he)]
      exact h.top e he
  · rw [List.map_cons, List.mem_cons, not_or] at hx
    rw [descOf_cons, if_neg hx.1]
    exact h.base x hx.2

theorem OnTop.perm (h : OnTop F es G) (hp : es.Perm es') : OnTop F es' G where
  nodup := (hp.map _).nodup_iff.mp h.nodup
  fresh e he := h.fresh e (hp.mem_iff.mpr he)
  top e he := h.top e (hp.mem_iff.mpr he)
  base x hx := h.base x fun hm => hx ((hp.map _).mem_iff.mp hm)

/-- Closing the first one of the descriptors on top. -/
theorem OnTop.pop {e : ℕ × Desc} (h : OnTop F (e :: es) G) : OnTop F es (G.close e.1) := by
  have hnodup := h.nodup
  rw [List.map_cons, List.nodup_cons] at hnodup
  refine ⟨hnodup.2, fun e' he' => h.fresh e' (List.mem_cons_of_mem _ he'), fun e' he' => ?_, fun x hx => ?_⟩
  · rw [descOf_close, if_neg fun heq : e'.1 = e.1 => hnodup.1 (heq ▸ List.mem_map_of_mem he')]
    exact h.top e' (List.mem_cons_of_mem _ he')
  · rw [descOf_close]
    split
    · rename_i heq
      rw [heq, h.fresh e List.mem_cons_self]
    · rename_i hne
      exact h.base x (by simpa [hne] using hx)

/-- It only matters what the descriptors refer to. -/
theorem OnTop.congr (h : OnTop F es G) (hG : SameDescriptors G G') : OnTop F es G' :=
  ⟨h.nodup, h.fresh, fun e he => (hG.desc e.1).trans (h.top e he), fun x hx => (hG.desc x).trans (h.base x hx)⟩


/-- A table is known by what is on top. -/
theorem OnTop.unique (h : OnTop F es G) (h' : OnTop F es G') (x : ℕ) : descOf G' x = descOf G x := by
  by_cases hx : x ∈ es.map Prod.fst
  · obtain ⟨e, he, rfl⟩ := List.mem_map.mp hx
    rw [h.top e he, h'.top e he]
  · rw [h.base x hx, h'.base x hx]

theorem SameDescriptors.of_desc (h : ∀ x, descOf G' x = descOf G x) : SameDescriptors G G' :=
  ⟨fun x => by rw [isOpen_iff_desc, isOpen_iff_desc, h], h⟩

theorem SameDescriptors.of_eq (h : G' = G) : SameDescriptors G G' := .of_desc fun _ => by rw [h]

theorem OnTop.same (h : OnTop F [] G) : SameDescriptors F G := .of_desc fun x => h.base x (by simp)

/-- Changing the flags of a descriptor. -/
theorem descOf_update {f : Fd → Fd} (hf : ∀ d, (f d).desc = d.desc) : descOf (F.update n f) x = descOf F x := by
  unfold descOf FdTable.find FdTable.update
  rw [List.find?_map]
  have hfun : (fun e : ℕ × Fd => e.1 == x) ∘ (fun e => if e.1 = n then (e.1, f e.2) else e) = fun e =>
      e.1 == x := by
    funext e
    simp only [Function.comp]
    split <;> rfl
  rw [hfun]
  cases List.find? (fun e : ℕ × Fd => e.1 == x) F with
  | none => rfl
  | some e =>
    simp only [Option.map_some, Option.some.injEq]
    split
    · exact hf e.2
    · rfl

end OnTop

/-! ### Running a command -/

section Commands

variable {α : Type} {w : World} {com cmd : Command} {next : List Command}

theorem keepsFds_reapPid (pid : Int) : Prog.Keeps World.fds (reapPid pid) :=
  .ite (fun _ => Prog.keeps_pure _) fun _ => Prog.Keeps.loop (fun _ => (keepsFds_waitpid _ _).bind fun r => by
    split <;> exact Prog.keeps_pure _) ()

theorem keepsFds_rollbackPipeline (pgid : Int) (pids : List Int) :
    Prog.Keeps World.fds (rollbackPipeline pgid pids) := by
  have rest : Prog.Keeps World.fds (do
      Prog.forList (fun pid => do
        if ¬ pid ≤ 0 then
          let _ ← kill pid SIGKILL) pids
      Prog.forList reapPid pids : Sh Unit) :=
    (Prog.Keeps.forList (fun pid => .ite (fun _ => (keepsFds_kill _ _).bind fun _ => Prog.keeps_pure _) fun _ =>
      Prog.keeps_pure _) pids).bind fun _ => Prog.Keeps.forList keepsFds_reapPid pids
  exact .ite (fun _ => (keepsFds_kill _ _).bind fun _ => rest) fun _ => rest

theorem keepsFds_saveTerminalModes (i : ℕ) (job : Job) : Prog.Keeps World.fds (saveTerminalModes i job) :=
  (keepsFds_terminalGetModes _).bind fun _ => .ite (fun _ => keepsFds_updateJob _ _) fun _ => Prog.keeps_pure _

theorem keepsFds_finishForegroundJob (i : ℕ) (terminalActive : Bool) :
    Prog.Keeps World.fds (finishForegroundJob i terminalActive) := by
  refine Prog.keeps_get_bind fun w => ?_
  split
  · exact Prog.keeps_pure _
  · rename_i job _
    have rest : Prog.Keeps World.fds (do
        let restored ← if terminalActive then terminalRestore else pure 0
        finishRestored job restored) := by
      cases terminalActive with
      | false => exact keepsFds_finishRestored job 0
      | true => exact keepsFds_terminalRestore.bind fun _ => keepsFds_finishRestored _ _
    exact .ite (fun _ => (keepsFds_saveTerminalModes i job).bind fun _ => rest) fun _ => rest

theorem keepsFds_waitPipeline (l : Launch) (terminalActive : Bool) :
    Prog.Keeps World.fds (waitPipeline com l terminalActive) := by
  refine .ite (fun _ => Prog.keeps_pure _) fun _ => Prog.keeps_get_bind fun w => ?_
  split
  · exact Prog.keeps_pure _
  · refine (keepsFds_jobWaitForeground _).bind fun r => (keepsFds_updateJob _ _).bind fun _ =>
      .ite ?_ fun _ =>
      keepsFds_finishForegroundJob 0 terminalActive
    intro _
    have remove : Prog.Keeps World.fds (do
        jobRemoveM l.pgid
        pure errUnknown : Sh Int) := (keepsFds_ctx _).bind fun _ => Prog.keeps_pure _
    exact (keepsFds_rollbackPipeline _ _).bind fun _ =>
      .ite (fun _ => keepsFds_terminalRestore.bind fun _ => remove) fun _ => remove

/-- **An external command leaves the descriptors as they were**, whatever fails. -/
theorem wp_executeCommand_fds (com : Command) (next : List Command) (w : World) :
    Prog.wp (executeCommand com next) (fun _ w' => w'.kernel.fds = w.kernel.fds) (fun _ => True) w := by
  have wait : ∀ (l : Launch) terminalActive w₁, w₁.kernel.fds = w.kernel.fds →
      Prog.wp (waitPipeline com l terminalActive) (fun _ w' => w'.kernel.fds = w.kernel.fds) (fun _ => True) w₁ :=
    fun l terminalActive w₁ h₁ => Prog.wp_mono ((keepsFds_waitPipeline l terminalActive).wp w₁)
      (fun _ _ h => Eq.trans h h₁) fun _ _ => trivial
  unfold executeCommand
  rw [Prog.wp_bind]
  have limit : Prog.Keeps id checkJobLimit := Prog.keeps_get_bind fun _ => by split <;> exact Prog.keeps_pure _
  refine Prog.wp_mono (limit.wp w) ?_ fun _ _ => trivial
  intro r w' hw
  obtain rfl : w = w' := Eq.symm hw
  split
  · exact rfl
  · split
    · unfold executePipeline
      rw [Prog.wp_bind]
      refine Prog.wp_mono (wp_launchPipeline com next w) ?_ fun _ h => h
      intro r w₁ h₁
      cases r with
      | error e => exact h₁.2.fds
      | ok x => exact wait x.1 x.2 w₁ h₁.2.2.2.fds
    · unfold executeSingle
      rw [Prog.wp_bind]
      refine Prog.wp_mono (wp_launchSingle com w) ?_ fun _ h => h
      intro r w₁ h₁
      cases r with
      | error e => exact h₁.2.fds
      | ok x =>
        dsimp only
        rw [waitSingle_eq com (h₁.2.pos x.1 (by simp))]
        exact wait _ x.2 w₁ h₁.2.fds

/-- **No command leaves a descriptor behind**, unless taking a redirection back fails and the shell stops. -/
theorem wp_dispatcherCommand_fds (cmd : Command) (next : List Command) (h₀ : w.kernel.fds.IsOpen 0)
    (h₁ : w.kernel.fds.IsOpen 1) :
    Prog.wp (dispatcherCommand cmd next) (fun _ => RedirectUndone w) (fun _ => True) w := by
  have same : RedirectUndone w w := Or.inl (.of_eq rfl)
  cases hname : cmd.argv0 with
  | none =>
    unfold dispatcherCommand
    rw [hname]
    exact same
  | some name =>
    cases hentry : builtinLookup name with
    | some entry =>
      have hspec := (@dispatcherCommand_undoes_redirect cmd next name entry w hname hentry h₀ h₁).1
      unfold Prog.wp
      cases hrun : dispatcherCommand cmd next w with
      | done r w' => exact hspec r w' hrun
      | blocked w' => trivial
    | none =>
      unfold dispatcherCommand
      simp only [hname, hentry]
      split
      · exact same
      · exact Prog.wp_mono (wp_executeCommand_fds cmd next w) (fun _ _ h => Or.inl (.of_eq h)) fun _ h => h

/-! ### The job table -/

theorem keepsFds_jobReap : Prog.Keeps World.fds jobReap := by
  refine Prog.keeps_get_bind fun w => (Prog.Keeps.mapList ?_ _).bind fun _ =>
    Prog.keeps_modify fun _ => rfl
  intro job
  refine (Prog.Keeps.mapList (fun process => ?_) _).bind fun _ => Prog.keeps_pure _
  refine .ite (fun _ => Prog.keeps_pure _) fun _ => (keepsFds_waitpid _ _).bind fun r => ?_
  split <;> exact Prog.keeps_pure _

theorem keepsFds_shellChild : Prog.Keeps World.fds shellChild :=
  keepsFds_jobReap.bind fun _ => Prog.keeps_modify fun _ => rfl

end Commands

/-! ### The numbers of files and pipes -/

section Numbers

variable {α β : Type} {k : Kernel}

/-- The program keeps the files and pipes behind the descriptors among those created. -/
def KeepsNumbers (m : Sh α) : Prop := ∀ w, w.kernel.Numbered → (m w).state.kernel.Numbered

theorem KeepsNumbers.bind {m : Sh α} {f : α → Sh β} (hm : KeepsNumbers m) (hf : ∀ a, KeepsNumbers (f a)) :
    KeepsNumbers (m >>= f) := by
  intro w h
  have h₁ := hm w h
  rw [Prog.bind_apply]
  cases hrun : m w with
  | done a w₁ =>
    rw [hrun] at h₁
    exact hf a w₁ h₁
  | blocked w₁ =>
    rw [hrun] at h₁
    exact h₁

theorem Kernel.Numbered.congr (h : k.Numbered) {k' : Kernel} (hf : k'.fds = k.fds) (hc : k'.created = k.created) :
    k'.Numbered := by
  unfold Kernel.Numbered
  rw [hf, hc]
  exact h

theorem Kernel.Numbered.happens (h : k.Numbered) (es : List Env) : (es.foldl Kernel.happen k).Numbered :=
  h.congr (World.foldl_happen_fds es k) (foldl_happen_created es k)

theorem keepsNumbers_syscall {f : Choice → Kernel → α × Kernel} {call : α → Call}
    (h : ∀ c k, k.Numbered → (f c k).2.Numbered) : KeepsNumbers (syscall f call) := fun _ hw =>
  Prog.wp_state (P := fun w => w.kernel.Numbered) (wp_syscall fun used c _ _ => h c _ (hw.happens (envs used)))

/-- A call that neither opens nor creates anything. -/
theorem keepsNumbers_still {f : Choice → Kernel → α × Kernel} {call : α → Call}
    (h : ∀ c k, (f c k).2.fds = k.fds ∧ (f c k).2.created = k.created) : KeepsNumbers (syscall f call) :=
  keepsNumbers_syscall fun c k hk => hk.congr (h c k).1 (h c k).2

theorem Kernel.Numbered.close (h : k.Numbered) (fd : ℕ) : (k.close fd).Numbered :=
  fun e he => h e (List.mem_of_mem_filter he)

/-- A new description gets the next number. -/
theorem Kernel.Numbered.create (h : k.Numbered) {l : FdTable Fd} (hl : ∀ e ∈ l, e.2.desc.number = k.created) :
    Kernel.Numbered { k with fds := l ++ k.fds, created := k.created + 1 } := by
  intro e he
  rcases List.mem_append.mp he with he | he
  · rw [hl e he]
    exact Nat.lt_succ_self _
  · exact Nat.lt_succ_of_lt (h e he)

/-- What is found under a number is in the table. -/
theorem mem_of_find {F : FdTable Fd} {fd : ℕ} {d : Fd} (h : F.find fd = some d) : (fd, d) ∈ F := by
  unfold FdTable.find at h
  obtain ⟨e, he, rfl⟩ := Option.map_eq_some_iff.mp h
  have hfd : e.1 = fd := by simpa using List.find?_some he
  exact hfd ▸ List.mem_of_find?_eq_some he

theorem Kernel.Numbered.pipe (h : k.Numbered) (c : Choice) : (k.pipe c).2.Numbered := by
  unfold Kernel.pipe
  split
  · exact h
  · exact h.create (l := [(_, ⟨.pipeWrite k.created, false⟩), (_, ⟨.pipeRead k.created, false⟩)])
      (by simp [Desc.number])

theorem Kernel.Numbered.setCloexec (h : k.Numbered) (fd : ℕ) (c : Choice) : (k.setCloexec fd c).2.Numbered := by
  unfold Kernel.setCloexec
  split
  · exact h
  · intro e he
    obtain ⟨e₀, he₀, rfl⟩ := List.mem_map.mp he
    split <;> exact h e₀ he₀

theorem Kernel.Numbered.dup2 (h : k.Numbered) (old new : ℕ) (c : Choice) : (k.dup2 old new c).2.Numbered := by
  rcases dup2_cases old new c k with ⟨e, -, heq⟩ | ⟨d, hd, heq⟩
  · rw [heq]
    exact h
  · rw [heq]
    unfold dup2Table
    split
    · exact h
    · intro e he
      rcases List.mem_cons.mp he with rfl | he
      · exact h (old, d) (mem_of_find hd)
      · exact h e (List.mem_of_mem_filter he)

theorem Kernel.Numbered.poll (h : k.Numbered) {target : Int} {opts : WaitOpts} {c : Choice}
    {r : WaitRes} {k' : Kernel} (hpoll : k.poll target opts c = some (r, k')) : k'.Numbered := by
  refine h.congr (poll_fds hpoll) ?_
  rcases Kernel.poll_cases hpoll with ⟨-, -, rfl⟩ | ⟨-, -, rfl⟩ | ⟨x, change, -, -, -, -, rfl⟩
  · rfl
  · rfl
  · cases change <;> rfl

theorem keepsNumbers_waitpid (target : Int) (opts : WaitOpts) : KeepsNumbers (waitpid target opts) := by
  intro w hw
  refine Prog.wp_state (P := fun w => w.kernel.Numbered) (wp_ask (fun r w' h _ _ => ?_) fun _ w' h => ?_)
  · obtain ⟨es, k, rfl, hk, -⟩ := h.answer
    rcases hk with ⟨c, hpoll⟩ | ⟨-, -, hk⟩
    · exact (hw.happens es).poll hpoll
    · rw [hk]
      exact hw.happens es
  · obtain ⟨es, hk, -⟩ := h.log
    rw [hk]
    exact hw.happens es

theorem keepsNumbers_tty : ClosedTty fun _ m => KeepsNumbers m where
  pure := fun _ _ h => h
  block := fun _ h => h
  bind := KeepsNumbers.bind
  get_bind := fun hf w => hf w w
  pipe := keepsNumbers_syscall fun c _ h => h.pipe c
  close := fun fd _ h => Kernel.Numbered.close h fd
  setCloexec := fun fd => keepsNumbers_syscall fun c _ h => h.setCloexec fd c
  openFile := fun _ _ => keepsNumbers_syscall fun c k h => by
    rcases openFile_cases c k with heq | ⟨fd, -, heq⟩
    · rw [heq]
      exact h
    · rw [heq]
      exact h.create (l := [(_, ⟨.file k.created, false⟩)]) (by simp [Desc.number])
  dupfd := fun fd => keepsNumbers_syscall fun c k h => by
    rcases dupfd_cases fd c k with heq | ⟨new, d, hd, -, heq⟩
    · rw [heq]
      exact h
    · rw [heq]
      intro e he
      rcases List.mem_cons.mp he with rfl | he
      · exact h (fd, d) (mem_of_find hd)
      · exact h e he
  dup2 := fun old new => keepsNumbers_syscall fun c _ h => h.dup2 old new c
  fflush := keepsNumbers_still fun _ _ => ⟨rfl, rfl⟩
  fork := keepsNumbers_still fun c _ => by cases c <;> exact ⟨rfl, rfl⟩
  setpgid := fun _ _ => keepsNumbers_still fun c _ => by cases c <;> exact ⟨rfl, rfl⟩
  kill := fun _ _ => keepsNumbers_still fun c k => by
    unfold Kernel.kill
    split
    · exact ⟨rfl, rfl⟩
    · split <;> exact ⟨rfl, rfl⟩
  waitpid := keepsNumbers_waitpid
  malloc := fun _ => keepsNumbers_still fun _ _ => ⟨rfl, rfl⟩
  nanosleep := keepsNumbers_still fun _ _ => ⟨rfl, rfl⟩
  writeGate := fun _ => keepsNumbers_still fun _ _ => ⟨rfl, rfl⟩
  tcgetattr := keepsNumbers_still fun c _ => by cases c <;> exact ⟨rfl, rfl⟩
  service := fun _ => keepsNumbers_still fun _ _ => ⟨rfl, rfl⟩
  tcsetpgrp := fun _ => keepsNumbers_still fun c _ => by cases c <;> exact ⟨rfl, rfl⟩
  tcsetattr := fun _ => keepsNumbers_still fun c _ => by cases c <;> exact ⟨rfl, rfl⟩

theorem keepsNumbers_vars : ClosedVars fun _ m => KeepsNumbers m where
  toClosed := keepsNumbers_tty.toClosed
  modify := fun hf w h => by
    obtain ⟨ctx, hw, -⟩ := hf w
    have hstate : (Prog.modify _ w).state = _ := hw
    rw [hstate]
    exact h

/-! ### Shutting the job table down -/

/-- The property holds of the calls that wait for the children or signal them, and of what changes the job table. -/
structure ClosedWait (K : (α : Type) → Sh α → Prop) : Prop where
  pure : ∀ {α : Type} (a : α), K α (Pure.pure a)
  block : ∀ {α : Type}, K α Prog.block
  bind : ∀ {α β : Type} {m : Sh α} {f : α → Sh β}, K α m → (∀ a, K β (f a)) → K β (m >>= f)
  get_bind : ∀ {α : Type} {f : World → Sh α}, (∀ w, K α (f w)) → K α (Prog.get >>= f)
  kill : ∀ target sig, K _ (kill target sig)
  waitpid : ∀ target opts, K _ (waitpid target opts)
  nanosleep : K _ nanosleep
  modify : ∀ {f : World → World}, InContext f → K Unit (Prog.modify f)

theorem ClosedVars.wait {K : (α : Type) → Sh α → Prop} (h : ClosedVars K) : ClosedWait K :=
  ⟨h.pure, h.block, h.bind, h.get_bind, h.kill, h.waitpid, h.nanosleep, h.modify⟩

namespace ClosedWait

variable {K : (α : Type) → Sh α → Prop}

theorem ite (_ : ClosedWait K) {p : Prop} [Decidable p] {m n : Sh α} (hm : K α m) (hn : K α n) :
    K α (if p then m else n) := by
  split
  · exact hm
  · exact hn

theorem loop (h : ClosedWait K) {υ : Type} {μ : World → ℕ} {body : υ → Sh (υ ⊕ α)}
    (hb : ∀ t, K _ (body t)) (t : υ) :
    K α (Prog.loop μ body t) := by
  have key : ∀ n t, K α (Prog.rounds body n t) := by
    intro n
    induction n with
    | zero => exact fun _ => h.block
    | succ n ih =>
      intro t
      apply h.bind (hb t)
      intro x
      cases x with
      | inl t' => exact ih t'
      | inr a => exact h.pure a
  exact h.get_bind fun w => key (μ w + 1) t

theorem mapList (h : ClosedWait K) {f : α → Sh β} (hf : ∀ a, K β (f a)) (l : List α) :
    K _ (Prog.mapList f l) := by
  induction l with
  | nil => exact h.pure _
  | cons a l ih => exact h.bind (hf a) fun _ => h.bind ih fun _ => h.pure _

theorem forList (h : ClosedWait K) {f : α → Sh Unit} (hf : ∀ a, K _ (f a)) (l : List α) :
    K _ (Prog.forList f l) := by
  induction l with
  | nil => exact h.pure _
  | cons a l ih => exact h.bind (hf a) fun _ => ih

theorem processTryReap (h : ClosedWait K) (process : Process) : K _ (processTryReap process) := by
  refine h.ite (h.pure _) (h.loop (fun _ => h.bind (h.waitpid _ _) fun r => ?_) ())
  split
  · exact h.ite (h.pure _) (h.pure _)
  all_goals exact h.pure _

theorem processForceReap (h : ClosedWait K) (process : Process) : K _ (processForceReap process) := by
  refine h.ite (h.pure _) (h.loop (fun _ => h.bind (h.waitpid _ _) fun r => ?_) ())
  split
  · exact h.ite (h.pure _) (h.pure _)
  all_goals exact h.pure _

theorem tryReapRounds (h : ClosedWait K) (n : ℕ) : K _ (tryReapRounds n) := by
  induction n with
  | zero => exact h.pure _
  | succ n ih =>
    refine h.bind ?_ fun b => h.ite (h.pure _) (h.bind h.nanosleep fun _ => ih)
    refine h.get_bind fun w => h.bind ?_ fun _ => h.bind (h.modify fun _ => ⟨_, rfl, rfl⟩) fun _ => h.pure _
    exact h.mapList (fun job => h.bind (h.mapList h.processTryReap _) fun _ => h.pure _) _

/-- `job_shutdown` waits and signals only. -/
theorem shellContextDestroy (h : ClosedWait K) : K _ shellContextDestroy := by
  have signal : ∀ (p : Job → Prop) [DecidablePred p] (sig : Sig) (jobs : List Job),
    K _ (Prog.forList (fun job => do
      if p job then
        let _ ← MiniShell.kill (-job.pgid) sig) jobs) := fun p _ sig jobs =>
    h.forList (fun job => h.ite (h.bind (h.kill _ _) fun _ => h.pure _) (h.pure _)) _
  have resume : K _ continueStoppedJobs := by
    refine h.get_bind fun w => h.bind (h.mapList (fun job => h.ite (h.ite ?_ (h.pure _)) (h.pure _)) _) fun _ =>
      h.modify fun _ => ⟨_, rfl, rfl⟩
    exact h.bind (h.kill _ _) fun _ => h.pure _
  have force : K _ forceReapJobs :=
    h.get_bind fun w => h.bind (h.mapList (fun job => h.bind (h.mapList h.processForceReap _) fun _ => h.pure _) _)
      fun _ => h.modify fun _ => ⟨_, rfl, rfl⟩
  refine h.bind (h.modify fun _ => ⟨_, rfl, rfl⟩) fun _ => h.get_bind fun w =>
    h.ite (h.modify fun _ => ⟨_, rfl, rfl⟩) ?_
  refine h.bind resume fun _ => h.bind ?_ fun _ => h.bind (h.tryReapRounds _) fun _ => h.bind ?_ fun _ =>
    h.bind force fun _ => h.modify fun _ => ⟨_, rfl, rfl⟩
  · exact h.get_bind fun w => signal _ _ _
  · exact h.get_bind fun w => signal _ _ _

end ClosedWait

end Numbers

/-! ### The main loop -/

/-- The descriptors `es` are on top of the table `F` in `w`, and the standard descriptors are open in `F`. -/
structure Intact (F : FdTable Fd) (es : List (ℕ × Desc)) (w : World) : Prop where
  table : OnTop F es w.kernel.fds
  standard : ∀ fd ≤ 2, F.IsOpen fd
  numbered : w.kernel.Numbered

/-- The copy of a descriptor could not be put back. -/
def RestoreFailed (log : List Event) : Prop :=
  ∃ saved target e, Call.dupfd target (some saved) ∈ calls log ∧ e ≠ .EINTR ∧ .dup2 saved target
    (.err e) ∈ calls log

/-- The descriptors are intact, or the shell stops because taking a redirection back has failed. -/
def Whole (F : FdTable Fd) (es : List (ℕ × Desc)) (w : World) : Prop :=
  Intact F es w ∨ (w.ctx.running = false ∧ RestoreFailed w.log)

section Loop

variable {F : FdTable Fd} {es : List (ℕ × Desc)} {w w' : World} {parseLine : ParseLine} {s s' : Session}

/-- A change to other things. -/
theorem Intact.congr (h : Intact F es w) (hk : w'.kernel = w.kernel) : Intact F es w' :=
  ⟨hk ▸ h.table, h.standard, hk ▸ h.numbered⟩

/-- What is on top is above the standard descriptors. -/
theorem Intact.above (h : Intact F es w) {e : ℕ × Desc} (he : e ∈ es) : 2 < e.1 := by
  by_contra hle
  exact descOf_none.mp (h.table.fresh e he) (h.standard e.1 (by omega))

theorem Intact.isOpen (h : Intact F es w) {fd : ℕ} (hfd : fd ≤ 2) : w.kernel.fds.IsOpen fd := by
  have hF := h.standard fd hfd
  rw [isOpen_iff_desc] at hF ⊢
  rwa [h.table.base fd fun hm => by
    obtain ⟨e, he, rfl⟩ := List.mem_map.mp hm
    have := h.above he
    omega]

theorem Whole.intact (h : Whole F es w) (hrun : w.ctx.running = true) : Intact F es w :=
  h.resolve_right fun h => by
    rw [hrun] at h
    cases h.1

/-- What a command does to an intact table. -/
theorem Intact.undone (h : Intact F es w) (hu : RedirectUndone w w') (hn : w'.kernel.Numbered) : Whole F es w' := by
  rcases hu with hsame | ⟨hrun, cs, ⟨seg, hseg, hcs⟩, saved, target, e, hd, he, hf⟩
  · exact Or.inl ⟨h.table.congr hsame, h.standard, hn⟩
  · refine Or.inr ⟨hrun, saved, target, e, ?_, he, ?_⟩
    · rw [hseg, calls_append, hcs]
      exact List.mem_append_right _ hd
    · rw [hseg, calls_append, hcs]
      exact List.mem_append_right _ hf

theorem wp_shellCommand_whole (h : Intact F es w) (cmd : Command) (next : List Command) :
    Prog.wp (shellCommand cmd next) (fun _ => Whole F es) (fun _ => True) w := by
  have hnumbers := closed_dispatcherCommand
    (K := fun _ m => KeepsNumbers m) keepsNumbers_vars keepsNumbers_tty cmd next
  unfold shellCommand
  rw [Prog.wp_bind]
  have hfds := wp_dispatcherCommand_fds cmd next (h.isOpen (by decide)) (h.isOpen (by decide))
  unfold Prog.wp at hfds ⊢
  have hn := hnumbers w h.numbered
  cases hrun : dispatcherCommand cmd next w with
  | blocked w' => trivial
  | done r w' =>
    rw [hrun] at hfds hn
    exact h.undone hfds hn

theorem wp_dispatch_whole (h : Intact F es s.world) :
    Prog.wp (shellDispatchInput parseLine) (fun _ s' => Whole F es s'.world) (fun _ => True) s := by
  have hset : ∀ ctx, Intact F es { s.world with ctx := ctx } := fun _ => h.congr rfl
  unfold shellDispatchInput
  rw [Prog.wp_modify_bind, Prog.wp_get_bind, Prog.wp_modify_bind]
  dsimp only
  rw [Prog.wp_bind]
  refine wp_liftSh ?_
  rw [Prog.wp_modify]
  split
  · rename_i cmd next _
    rw [Prog.wp_bind]
    refine wp_liftSh ?_
    exact Prog.wp_mono (wp_shellCommand_whole (hset _) cmd next) (fun _ _ hw => hw) fun _ hw => hw
  · exact Or.inl (h.congr rfl)

theorem wp_readInput_whole (h : Intact F es s.world) (r : ReadRes) :
    Prog.wp (shellReadInput parseLine r) (fun _ s' => Whole F es s'.world) (fun _ => True) s := by
  have same : Whole F es s.world := Or.inl h
  cases r with
  | err e => cases e <;> exact same
  | eof =>
    unfold shellReadInput
    rw [Prog.wp_get_bind]
    dsimp only
    split
    · rw [Prog.wp_bind]
      exact wp_dispatch_whole h
    · exact same
  | byte ch =>
    unfold shellReadInput
    rw [Prog.wp_modify_bind, Prog.wp_get_bind]
    dsimp only
    split
    · split <;> exact same
    · split
      · rw [Prog.wp_bind]
        exact @wp_dispatch_whole F es parseLine { s with consumed := s.consumed + 1 } h
      · split
        · rw [Prog.wp_bind]
          refine wp_liftSh ?_
          exact Or.inl (h.congr rfl)
        · exact same

theorem wp_events_intact (h : Intact F es s.world) (e : EventRes) :
    Prog.wp (shellEvents e) (fun _ s' => Intact F es s'.world) (fun _ => True) s := by
  cases e with
  | drainFailed => exact h
  | taken child interrupt written =>
    have hchild : Prog.wp (liftSh shellChild) (fun _ s' => Intact F es s'.world) (fun _ => True) s := by
      have hnumbers : KeepsNumbers shellChild :=
        closed_shellChild (K := fun _ m => KeepsNumbers m) keepsNumbers_vars
      have hn := hnumbers s.world h.numbered
      have hfds : (shellChild s.world).state.kernel.fds = s.world.kernel.fds := keepsFds_shellChild s.world
      refine wp_liftSh ?_
      unfold Prog.wp
      cases hrun : shellChild s.world with
      | blocked w' => trivial
      | done r w' =>
        rw [hrun, Outcome.state_done] at hn hfds
        exact ⟨hfds ▸ h.table, h.standard, hn⟩
    have rest : ∀ s' : Session, Intact F es s'.world → Prog.wp (do
        if interrupt then
          Prog.modify fun s => { s with input := shellResetInput s.input }
          if ¬ written then pure (some .error)
          else
            Prog.modify fun s => { s with prompt := true }
            pure none
        else pure none : Prog Session (Option ShellStatus)) (fun _ s' => Intact F es s'.world)
          (fun _ => True) s' := by
      intro s' h'
      cases interrupt <;> cases written <;> exact h'
    unfold shellEvents
    cases child with
    | false => exact rest s h
    | true =>
      dsimp only
      rw [if_pos rfl, Prog.wp_bind]
      exact Prog.wp_mono hchild (fun _ => rest) fun _ hs => hs

/-- **One iteration of the main loop.** -/
theorem wp_round_whole (h : Intact F es s.world) (round : Round) :
    Prog.wp (shellRound parseLine round) (fun _ s' => Whole F es s'.world) (fun _ => True) s := by
  unfold shellRound
  rw [Prog.wp_get_bind]
  split
  · exact Or.inl h
  rw [Prog.wp_modify_bind]
  cases round.select with
  | err e => cases e <;> exact Or.inl h
  | ready event input =>
    rw [shellSelect_ready, Prog.wp_bind]
    have hev : Prog.wp (event.elim (pure none) shellEvents) (fun _ s' => Intact F es s'.world) (fun _ => True)
        { s with prompt := false } := by
      cases event with
      | none => exact h
      | some e => exact @wp_events_intact F es { s with prompt := false } h e
    refine Prog.wp_mono hev ?_ fun _ hs => hs
    intro ended s' h'
    split
    · exact Or.inl h'
    · rw [Prog.wp_get_bind]
      split
      · exact Or.inl h'
      · split
        · exact Or.inl h'
        · rename_i r
          unfold shellInput
          rw [Prog.wp_bind]
          refine Prog.wp_mono (wp_readInput_whole h' r) ?_ fun _ hs => hs
          rintro ⟨ret, lineDone, eof⟩ s'' h''
          dsimp only
          split
          · exact h''
          · cases lineDone <;> cases eof <;> exact h''

/-- **The main loop keeps the descriptors**, as long as it goes on. -/
theorem wp_loop_whole (rounds : List Round) : ∀ {s : Session}, Whole F es s.world →
    Prog.wp (shellLoop parseLine rounds) (fun _ s' => Whole F es s'.world) (fun _ => True) s := by
  induction rounds with
  | nil =>
    intro s h
    unfold shellLoop
    rw [Prog.wp_get_bind]
    split
    · exact h
    · trivial
  | cons round rounds ih =>
    intro s h
    unfold shellLoop
    rw [Prog.wp_get_bind]
    split
    · exact h
    · rename_i hrun
      rw [Prog.wp_bind]
      refine Prog.wp_mono (wp_round_whole (h.intact (by simpa using hrun)) round) ?_
        fun _ hs => hs
      intro out s' h'
      split
      · exact h'
      · exact ih h'

/-- The loop goes on from `s` to `s'`. -/
def GoesOn (parseLine : ParseLine) (s s' : Session) : Prop :=
  s.world.ctx.running = true ∧ ∃ round, shellRound parseLine round s = .done none s'

/-- **Whenever the loop is about to go on the descriptors are intact.** -/
theorem heads_intact (h : Intact F es s.world) (hheads : Relation.ReflTransGen (GoesOn parseLine) s s')
    (hrun : s'.world.ctx.running = true) : Intact F es s'.world := by
  have hwhole : Whole F es s'.world := by
    clear hrun
    induction hheads with
    | refl => exact Or.inl h
    | tail _ hstep ih =>
      obtain ⟨hrun, round, hround⟩ := hstep
      have hwp := @wp_round_whole F es parseLine _ (ih.intact hrun) round
      exact Prog.wp_done (Q := fun _ s' => Whole F es s'.world) hwp hround
  exact hwhole.intact hrun

end Loop

end MiniShell
