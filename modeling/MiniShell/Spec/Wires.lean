import MiniShell.Model.Startup
import MiniShell.Spec.Launch
import MiniShell.Spec.Redirect

/-!
# The pipes of a launch

What the children of a launch inherit.  `wires` reads the pipes and the forks off a log, each fork with the
descriptors the child starts with.

* `Wired w₀ es n ws g w` — a launch has come from `w₀` to `w`: the descriptors `es` are open on top of those
  of `w₀`, `n` pipes have been created, and the log has `ws`;
* `Stages` — the pipes and forks of a chain of commands; `wp_launchSingle_wired` and `wp_launchPipeline_wired`
  say that a launch that succeeds has made them, and that otherwise every child has inherited the gate all the
  same.
-/

namespace MiniShell

open MiniShell.Lib MiniShellError

/-! ### Pipes and forks -/

/-- A pipe that has been created, or a child with the descriptors it inherits. -/
inductive Wire where
  | piped (ends : ℕ × ℕ)
  | forked (pid : Int) (fds : FdTable Fd)
  deriving DecidableEq

/-- The pipes and forks of a log. -/
def wires (l : List Event) : List Wire :=
  l.filterMap fun e => match e with
    | .call (.pipe (some ends)) _ _ => some (.piped ends)
    | .call (.fork pid) k _ => if 0 < pid then some (.forked pid k.fds) else none
    | _ => none

/-- The children that have been moved to a process group in a log, with the group. -/
def groupings (l : List Event) : List (Int × Int) :=
  l.filterMap fun e => match e with
    | .call (.setpgid pid pgid .ok) _ _ => some (pid, pgid)
    | _ => none

@[simp] theorem wires_append (l l' : List Event) : wires (l ++ l') = wires l ++ wires l' := List.filterMap_append
@[simp] theorem groupings_append (l l' : List Event) : groupings (l ++ l') = groupings l ++ groupings l' :=
  List.filterMap_append
@[simp] theorem wires_envs (es : List Env) : wires (es.map Event.env) = [] := by
  induction es with
  | nil => rfl
  | cons e es ih => exact ih
@[simp] theorem groupings_envs (es : List Env) : groupings (es.map Event.env) = [] := by
  induction es with
  | nil => rfl
  | cons e es ih => exact ih

/-- The calls that are neither a wire nor a grouping. -/
def Call.Unwired : Call → Prop
  | .pipe .. | .fork .. | .setpgid .. => False
  | _ => True

/-- What `Unwired` calls leave alone. -/
def World.wiring (w : World) : List Wire × List (Int × Int) := (wires w.log, groupings w.log)

@[simp] theorem drift_wiring (used rest : List Item) (w : World) : (w.drift used rest).wiring = w.wiring := by
  simp [World.wiring, drift_log]

theorem record_wiring {c : Call} (hc : c.Unwired) (w : World) : (w.record c).wiring = w.wiring := by
  have hw : wires [Event.call c w.kernel w.ctx.jobs.head] = [] := by
    cases c <;> first | rfl | exact absurd hc id
  have hg : groupings [Event.call c w.kernel w.ctx.jobs.head] = [] := by
    cases c <;> first | rfl | exact absurd hc id
  unfold World.wiring World.record
  simp only [wires_append, groupings_append, hw, hg, List.append_nil]

/-! ### Programs without pipes and forks -/

section Unwired

variable {α β : Type}

theorem unwired_syscall {f : Choice → Kernel → α × Kernel} {call : α → Call}
    (hc : ∀ r, (call r).Unwired) :
    Prog.Keeps World.wiring (syscall f call) :=
  Prog.keeps_of_wp fun w => wp_syscall fun used _ rest _ =>
    (record_wiring (hc _) (w.drift used rest)).trans (drift_wiring ..)

theorem unwired_malloc (what : Alloc) : Prog.Keeps World.wiring (malloc what) := unwired_syscall fun _ => trivial

theorem unwired_kill (target : Int) (sig : Sig) : Prog.Keeps World.wiring (kill target sig) :=
  unwired_syscall fun _ => trivial

theorem unwired_tcsetpgrp (pgid : Int) : Prog.Keeps World.wiring (tcsetpgrp pgid) :=
  unwired_syscall fun _ => trivial

theorem unwired_tcsetattr (modes : Termios) : Prog.Keeps World.wiring (tcsetattr modes) :=
  unwired_syscall fun _ => trivial

theorem unwired_writeGate (fd : ℕ) : Prog.Keeps World.wiring (writeGate fd) := unwired_syscall fun _ => trivial

theorem unwired_close (fd : ℕ) : Prog.Keeps World.wiring (close fd) :=
  fun w => @record_wiring (.close fd) trivial w

theorem unwired_closeIf (fd : Int) : Prog.Keeps World.wiring (closeIf fd) :=
  .ite (fun _ => unwired_close _) fun _ => Prog.keeps_pure _

theorem unwired_waitpid (target : Int) (opts : WaitOpts) (ho : opts.nohang = false) :
    Prog.Keeps World.wiring (waitpid target opts) :=
  Prog.keeps_of_wp fun w => by
    have hrec : ∀ r w', (World.record (.waited target opts r) w').wiring = w'.wiring := fun r w' =>
      @record_wiring (.waited target opts r) trivial w'
    have hstart : (w.record (.waitpid target opts)).wiring = w.wiring :=
      @record_wiring (.waitpid target opts) trivial w
    refine wp_waitpid ho (fun used c rest r k _ _ => ?_) fun _ => ?_
    · exact (hrec r _).trans ((drift_wiring ..).trans hstart)
    · exact (hrec _ _).trans ((drift_wiring ..).trans hstart)

theorem unwired_reapPid (pid : Int) : Prog.Keeps World.wiring (reapPid pid) :=
  .ite (fun _ => Prog.keeps_pure _) fun _ => .loop (fun _ => (unwired_waitpid pid noOpts rfl).bind fun r => by
    split <;> exact Prog.keeps_pure _) ()

theorem unwired_rollbackSingle (pid : Int) : Prog.Keeps World.wiring (rollbackSingle pid) :=
  .ite (fun _ => Prog.keeps_pure _) fun _ => (unwired_kill _ _).bind fun _ => (unwired_kill _ _).bind fun _ =>
    unwired_reapPid pid

theorem unwired_rollbackPipeline (pgid : Int) (pids : List Int) :
    Prog.Keeps World.wiring (rollbackPipeline pgid pids) := by
  have rest : Prog.Keeps World.wiring (do
      Prog.forList (fun pid => do
        if ¬ pid ≤ 0 then
          let _ ← kill pid SIGKILL) pids
      Prog.forList reapPid pids) :=
    (Prog.Keeps.forList (fun pid => .ite (fun _ => (unwired_kill _ _).bind fun _ => Prog.keeps_pure _)
      fun _ => Prog.keeps_pure _) pids).bind fun _ => .forList unwired_reapPid pids
  exact .ite (fun _ => (unwired_kill _ _).bind fun _ => rest) fun _ => rest

theorem unwired_modify {f : World → World} (hf : ∀ w, (f w).log = w.log) :
    Prog.Keeps World.wiring (Prog.modify f) :=
  Prog.keeps_modify fun w => by simp only [World.wiring, hf]

theorem unwired_jobRemoveM (pgid : Int) : Prog.Keeps World.wiring (jobRemoveM pgid) := unwired_modify fun _ => rfl

theorem unwired_jobAdd (pgid : Int) (command : Option Bytes) : Prog.Keeps World.wiring (jobAdd pgid command) := by
  unfold jobAdd
  cases command with
  | none => exact Prog.keeps_pure _
  | some command =>
    refine .ite (fun _ => Prog.keeps_pure _) fun _ => (unwired_malloc _).bind fun r => ?_
    cases r with
    | err e => exact Prog.keeps_pure _
    | ok =>
      refine Prog.Keeps.bind (unwired_modify ?_) fun _ => Prog.keeps_pure true
      exact fun _ => rfl

theorem unwired_processAdd (i : ℕ) (pid : Int) : Prog.Keeps World.wiring (processAdd i pid) :=
  .ite (fun _ => Prog.keeps_pure _) fun _ => (unwired_malloc _).bind fun r => by
    cases r with
    | err e => exact Prog.keeps_pure _
    | ok =>
      refine Prog.Keeps.bind (unwired_modify ?_) fun _ => Prog.keeps_pure 0
      exact fun _ => rfl

theorem unwired_processAddAll (pids : List Int) : Prog.Keeps World.wiring (processAddAll pids) := by
  induction pids with
  | nil => exact Prog.keeps_pure _
  | cons pid pids ih =>
    exact (unwired_processAdd 0 pid).bind fun r => .ite (fun _ => Prog.keeps_pure _) fun _ => ih

theorem unwired_terminalSetPgrp (pgid : Int) : Prog.Keeps World.wiring (terminalSetPgrp pgid) :=
  (keeps_retry (unwired_tcsetpgrp _)).bind fun r => by cases r <;> exact Prog.keeps_pure _

theorem unwired_terminalSetForeground (pgid : Int) : Prog.Keeps World.wiring (terminalSetForeground pgid) :=
  Prog.keeps_get_bind fun _ => .ite (fun _ => Prog.keeps_pure _) fun _ =>
    .ite (fun _ => Prog.keeps_pure _) fun _ => unwired_terminalSetPgrp pgid

theorem unwired_terminalSetModes (modes : Termios) : Prog.Keeps World.wiring (terminalSetModes modes) :=
  Prog.keeps_get_bind fun _ => .ite (fun _ => Prog.keeps_pure _) fun _ =>
    (keeps_retry (unwired_tcsetattr _)).bind fun r => by cases r <;> exact Prog.keeps_pure _

theorem unwired_terminalRestore : Prog.Keeps World.wiring terminalRestore :=
  Prog.keeps_get_bind fun _ => .ite (fun _ => Prog.keeps_pure _) fun _ => .ite (fun _ => Prog.keeps_pure _) fun _ =>
    (unwired_terminalSetPgrp _).bind fun _ => .ite (fun _ => Prog.keeps_pure _) fun _ =>
      .ite (fun _ => (unwired_terminalSetModes _).bind fun _ => .ite (fun _ => Prog.keeps_pure _) fun _ =>
        Prog.keeps_pure _) fun _ => Prog.keeps_pure _

theorem unwired_startupGateRelease (fd n : ℕ) : Prog.Keeps World.wiring (startupGateRelease fd n) := by
  induction n with
  | zero => exact Prog.keeps_pure _
  | succ n ih =>
    apply (keeps_retry (unwired_writeGate _)).bind
    intro r
    cases r with
    | ok => exact ih
    | err e => exact Prog.keeps_pure _

end Unwired

/-! ### What the parent of a launch holds -/

/-- The number of the file or pipe. -/
def Desc.number : Desc → ℕ
  | .file n => n
  | .pipeRead n => n
  | .pipeWrite n => n

/-- The files and pipes behind the descriptors are among those created so far. -/
def Kernel.Numbered (k : Kernel) : Prop := ∀ e ∈ k.fds, e.2.desc.number < k.created

/-- The gate, which has the pipe `id`. -/
def gateTable (id : ℕ) (gate : ℕ × ℕ) : FdTable Fd :=
  [(gate.2, ⟨.pipeWrite id, true⟩), (gate.1, ⟨.pipeRead id, true⟩)]

/-- The pipe `id` to the next command. -/
def endsTable (id : ℕ) (ends : ℕ × ℕ) : FdTable Fd :=
  [(ends.2, ⟨.pipeWrite id, false⟩), (ends.1, ⟨.pipeRead id, false⟩)]

/-- The read end of the pipe `id` from the previous command, if there is one. -/
def readTable (id : ℕ) : Option ℕ → FdTable Fd
  | none => []
  | some fd => [(fd, ⟨.pipeRead id, false⟩)]

/-- The C variable that holds a descriptor, -1 for none. -/
def fdVar : Option ℕ → Int
  | none => -1
  | some fd => fd

/-- The launch that started in `w₀` has come to `w`: it has the descriptors `es` and has created `n` pipes, the
log has the wires `ws`, and it has put children in the group `leader` only. -/
structure Wired (w₀ : World) (es : FdTable Fd) (n : ℕ) (ws : List Wire) (leader : Int) (w : World) : Prop where
  fds : FdTable.Stacked w₀.kernel.fds es w.kernel.fds
  created : w.kernel.created = w₀.kernel.created + n
  wires : wires w.log = wires w₀.log ++ ws
  groups : ∃ gs, groupings w.log = groupings w₀.log ++ gs ∧ ∀ x ∈ gs, 0 < leader ∧ x.2 = leader

theorem foldl_happen_created (es : List Env) (k : Kernel) : (es.foldl Kernel.happen k).created = k.created := by
  induction es generalizing k with
  | nil => rfl
  | cons e es ih =>
    rw [List.foldl_cons, ih]
    cases e <;> rfl

section Wired

variable {w₀ w w' : World} {es es₁ es₂ : FdTable Fd} {n : ℕ} {ws : List Wire} {leader : Int}

theorem Wired.refl (w : World) (leader : Int) : Wired w [] 0 [] leader w :=
  ⟨.refl _, rfl, by simp, [], by simp, by simp⟩

theorem Wired.drift (h : Wired w₀ es n ws leader w) (used rest : List Item) :
    Wired w₀ es n ws leader (w.drift used rest) where
  fds := by
    rw [World.drift_fds]
    exact h.fds
  created := (foldl_happen_created _ _).trans h.created
  wires := by
    rw [drift_log, wires_append, wires_envs, List.append_nil]
    exact h.wires
  groups := by
    rw [drift_log, groupings_append, groupings_envs, List.append_nil]
    exact h.groups

/-- A call that is no wire and no grouping. -/
theorem Wired.unwired (h : Wired w₀ es n ws leader w) {es' : FdTable Fd} (hw : w'.wiring = w.wiring)
    (hf : FdTable.Stacked w₀.kernel.fds es' w'.kernel.fds) (hc : w'.kernel.created = w.kernel.created) :
    Wired w₀ es' n ws leader w' where
  fds := hf
  created := hc.trans h.created
  wires := (Prod.mk.inj hw).1.trans h.wires
  groups := by
    rw [(Prod.mk.inj hw).2]
    exact h.groups

theorem wp_close_wired {k : ℕ} {d : Fd} (h : Wired w₀ (es₁ ++ (k, d) :: es₂) n ws leader w)
    {Q : Unit → World → Prop} {R : World → Prop}
    (hQ : ∀ w', Wired w₀ (es₁ ++ es₂) n ws leader w' → Q () w') :
    Prog.wp (close k) Q R w :=
  hQ _ (h.unwired (unwired_close k w) h.fds.close rfl)

/-- The descriptor behind a C variable is among those on top, or the variable is -1. -/
theorem wp_closeIf_wired {id : ℕ} {prev : Option ℕ}
    (h : Wired w₀ (es₁ ++ readTable id prev ++ es₂) n ws leader w) {Q : Unit → World → Prop}
    {R : World → Prop} (hQ : ∀ w', Wired w₀ (es₁ ++ es₂) n ws leader w' → Q () w') :
    Prog.wp (closeIf (fdVar prev)) Q R w := by
  unfold closeIf
  cases prev with
  | none =>
    rw [fdVar, if_neg (by omega)]
    refine hQ w ?_
    simpa [readTable] using h
  | some k =>
    rw [fdVar, if_pos (by omega), Int.toNat_natCast]
    refine @wp_close_wired _ _ es₁ es₂ _ _ _ k ⟨.pipeRead id, false⟩ ?_ _ _ hQ
    simpa [readTable] using h

theorem wp_pipe_wired (h : Wired w₀ es n ws leader w) {Q : Option (ℕ × ℕ) → World → Prop}
    {R : World → Prop} (hfail : ∀ w', Wired w₀ es n ws leader w' → Q none w')
    (hok : ∀ ends w', Wired w₀ (endsTable (w₀.kernel.created + n) ends ++ es) (n + 1)
      (ws ++ [Wire.piped ends]) leader w' →
      Q (some ends) w') : Prog.wp pipe Q R w := by
  apply wp_syscall
  intro used c rest _
  have hd := h.drift used rest
  generalize w.drift used rest = v at hd
  have ok : ∀ c, v.kernel.pipe c = v.kernel.pipe .ok → Q (v.kernel.pipe c).1
      { v.record (.pipe (v.kernel.pipe c).1) with kernel := (v.kernel.pipe c).2 } := by
    intro c hc
    rw [hc]
    refine hok _ _ ⟨?_, ?_, ?_, ?_⟩
    · have hr := hd.fds.cons (FdTable.lowestFree_not_open 0 _) ⟨.pipeRead v.kernel.created, false⟩
      have hw := hr.cons (FdTable.lowestFree_not_open 0 _) ⟨.pipeWrite v.kernel.created, false⟩
      rw [hd.created] at hw
      simpa [endsTable, Kernel.pipe, hd.created] using hw
    · show v.kernel.created + 1 = _
      rw [hd.created, Nat.add_assoc]
    · show MiniShell.wires (v.log ++ _) = _
      rw [wires_append, hd.wires, List.append_assoc]
      rfl
    · show ∃ gs, groupings (v.log ++ _) = _ ∧ _
      rw [groupings_append]
      exact (List.append_nil (groupings v.log)).symm ▸ hd.groups
  cases c with
  | ok => exact ok .ok rfl
  | pick m => exact ok (.pick m) rfl
  | fail e =>
    refine hfail _ (hd.unwired ?_ hd.fds rfl)
    simp only [World.wiring, World.record, wires_append, groupings_append]
    exact Prod.ext (List.append_nil _) (List.append_nil _)

theorem wp_setCloexec_wired {k : ℕ} {desc : Desc} {b : Bool}
    (h : Wired w₀ (es₁ ++ (k, ⟨desc, b⟩) :: es₂) n ws leader w)
    {Q : Res → World → Prop} {R : World → Prop}
    (hfail : ∀ e w', Wired w₀ (es₁ ++ (k, ⟨desc, b⟩) :: es₂) n ws leader w' → Q (.err e) w')
    (hok : ∀ w', Wired w₀ (es₁ ++ (k, ⟨desc, true⟩) :: es₂) n ws leader w' → Q .ok w') :
    Prog.wp (setCloexec k) Q R w := by
  apply wp_syscall
  intro used c rest _
  have hd := h.drift used rest
  generalize w.drift used rest = v at hd
  have hw : ∀ r, ({ v.record (.setCloexec k r) with kernel := v.kernel }).wiring = v.wiring := fun r =>
    @record_wiring (.setCloexec k r) trivial v
  have ok : Wired w₀ (es₁ ++ (k, ⟨desc, true⟩) :: es₂) n ws leader
      { v.record (.setCloexec k .ok) with
        kernel := { v.kernel with fds := v.kernel.fds.update k fun d => { d with cloexec := true } } } :=
    hd.unwired (hw .ok) (hd.fds.update fun d => { d with cloexec := true }) rfl
  cases c with
  | ok => exact hok _ ok
  | pick m => exact hok _ ok
  | fail e => exact hfail e _ (hd.unwired (hw _) hd.fds rfl)

theorem wp_fork_wired (h : Wired w₀ es n ws leader w) {Q : Int → World → Prop} {R : World → Prop}
    (hfail : ∀ w', Wired w₀ es n ws leader w' → Q (-1) w')
    (hok : ∀ pid w', 0 < pid → Wired w₀ es n
      (ws ++ [Wire.forked pid (es ++ w₀.kernel.fds)]) leader w' → Q pid w') :
    Prog.wp fork Q R w := by
  apply wp_syscall
  intro used c rest _
  have hd := h.drift used rest
  generalize w.drift used rest = v at hd
  have hpos : ∀ c, 0 < v.kernel.forkPid c := by
    intro c
    have := (v.kernel.forkPid_spec c).1
    omega
  have ok : ∀ c, Wired w₀ es n (ws ++ [Wire.forked (v.kernel.forkPid c) (es ++ w₀.kernel.fds)]) leader
      { v.record (.fork (v.kernel.forkPid c)) with
        kernel := { v.kernel with
          children := v.kernel.children ++ [⟨v.kernel.forkPid c, v.kernel.shellPgrp, .running false⟩] } } := by
    intro c
    refine ⟨hd.fds, hd.created, ?_, ?_⟩
    · show MiniShell.wires (v.log ++ _) = _
      have hone : MiniShell.wires [.call (.fork (v.kernel.forkPid c)) v.kernel v.ctx.jobs.head] =
          [.forked (v.kernel.forkPid c) (es ++ w₀.kernel.fds)] := by
        simp [MiniShell.wires, hpos c, hd.fds.eq]
      rw [wires_append, hd.wires, hone, List.append_assoc]
    · show ∃ gs, groupings (v.log ++ _) = _ ∧ _
      rw [groupings_append]
      exact (List.append_nil (groupings v.log)).symm ▸ hd.groups
  cases c with
  | ok => exact hok _ _ (hpos .ok) (ok .ok)
  | pick m => exact hok _ _ (hpos (.pick m)) (ok (.pick m))
  | fail e =>
    refine hfail _ (hd.unwired ?_ hd.fds rfl)
    simp only [World.wiring, World.record, wires_append, groupings_append]
    exact Prod.ext (List.append_nil _) (List.append_nil _)

/-- The parent moves a child to the group of the job. -/
theorem wp_setpgidParent_wired {pid : Int} (h : Wired w₀ es n ws leader w) (hl : 0 < leader)
    {Q : Int → World → Prop} {R : World → Prop} (hQ : ∀ r w', Wired w₀ es n ws leader w' → Q r w') :
    Prog.wp (setpgidParent pid leader) Q R w := by
  unfold setpgidParent
  rw [Prog.wp_bind]
  have step : ∀ c v, Wired w₀ es n ws leader v → Wired w₀ es n ws leader
      { v.record (.setpgid pid leader (v.kernel.setpgid pid leader c).1) with
        kernel := (v.kernel.setpgid pid leader c).2 } := by
    intro c v hv
    obtain ⟨gs, hgs, hall⟩ := hv.groups
    have hfds : (v.kernel.setpgid pid leader c).2.fds = v.kernel.fds := by cases c <;> rfl
    have hcreated : (v.kernel.setpgid pid leader c).2.created = v.kernel.created := by cases c <;> rfl
    refine ⟨by rw [hfds]; exact hv.fds, hcreated.trans hv.created, ?_, ?_⟩
    · show MiniShell.wires (v.log ++ _) = _
      rw [wires_append, hv.wires]
      exact List.append_nil _
    · show ∃ gs, groupings (v.log ++ _) = _ ∧ _
      rw [groupings_append, hgs]
      cases (v.kernel.setpgid pid leader c).1 with
      | ok =>
        refine ⟨gs ++ [(pid, leader)], by simp [groupings], fun x hx => ?_⟩
        rcases List.mem_append.mp hx with hx | hx
        · exact hall x hx
        · rw [List.mem_singleton.mp hx]
          exact ⟨hl, rfl⟩
      | err e => exact ⟨gs, List.append_nil _, hall⟩
  refine wp_retry (Wired w₀ es n ws leader) ?_ h
  intro v hv
  refine wp_syscall fun used c rest ht => ⟨fun hr => ⟨step c _ (hv.drift used rest), ?_⟩, fun _ => ?_⟩
  · refine ht.length_lt ?_
    rintro rfl
    cases hr
  · split <;> exact hQ _ _ (step c _ (hv.drift used rest))

/-- No child has been moved yet. -/
theorem Wired.lead (h : Wired w₀ es n ws 0 w) (leader : Int) : Wired w₀ es n ws leader w where
  fds := h.fds
  created := h.created
  wires := h.wires
  groups := by
    obtain ⟨gs, hgs, hall⟩ := h.groups
    exact ⟨gs, hgs, fun x hx => absurd (hall x hx).1 (by omega)⟩

end Wired

/-! ### The stages of a launch -/

/-- The pids of the children among the wires. -/
def pidsOf (ws : List Wire) : List Int :=
  ws.filterMap fun x => match x with
    | .piped _ => none
    | .forked pid _ => some pid

@[simp] theorem pidsOf_append (ws ws' : List Wire) : pidsOf (ws ++ ws') = pidsOf ws ++ pidsOf ws' :=
  List.filterMap_append

theorem pidsOf_wires (l : List Event) : pidsOf (wires l) = forks l := by
  induction l with
  | nil => rfl
  | cons e l ih =>
    have hcons : ∀ {α β : Type} (f : α → Option β) (a : α), [a].filterMap f = (f a).toList := fun f a => by
      cases h : f a <;> simp [h]
    have hw : pidsOf (wires [e]) = forks [e] := by
      cases e with
      | env e => rfl
      | call c k js =>
        cases c with
        | fork pid =>
          by_cases hp : 0 < pid <;> simp [wires, pidsOf, forks, calls, hp]
        | pipe ends => cases ends <;> rfl
        | _ => rfl
    rw [← List.singleton_append, wires_append, forks_append, pidsOf_append, hw, ih]

/-- Children have been moved to the group of the first of them only, and the log has the wires `ws`. -/
structure Marked (w₀ : World) (ws : List Wire) (w : World) : Prop where
  wires : wires w.log = wires w₀.log ++ ws
  groups : ∃ gs, groupings w.log = groupings w₀.log ++ gs ∧ ∀ x ∈ gs, (pidsOf ws).head? = some x.2

/-- A child with the descriptors `T` has inherited the gate, whose pipe is `id`, and has no other end of it. -/
def Inherits (F₀ : FdTable Fd) (id : ℕ) (gate : ℕ × ℕ) (T : FdTable Fd) : Prop :=
  ∃ es, FdTable.Stacked F₀ (es ++ gateTable id gate) T ∧
    ∀ e ∈ es, e.2.desc ≠ .pipeRead id ∧ e.2.desc ≠ .pipeWrite id

/-- The launch has failed with the wires `ws` and more. -/
def FailedWired (w₀ : World) (gate : ℕ × ℕ) (ws : List Wire) (w : World) : Prop :=
  ∃ ws', Marked w₀ (ws ++ ws') w ∧
    ∀ pid T, .forked pid T ∈ ws' → Inherits w₀.kernel.fds w₀.kernel.created gate T

/-- The pipe to the next command, if there is one. -/
def maybeEnds (id : ℕ) : Option (ℕ × ℕ) → FdTable Fd
  | none => []
  | some ends => endsTable id ends

/-- Nothing but the gate has an end of the gate's pipe. -/
theorem inherits_stage {F₀ T : FdTable Fd} {id₀ id : ℕ} {gate : ℕ × ℕ} {prev : Option ℕ}
    (ends : Option (ℕ × ℕ)) (hid : id₀ ≤ id) (hprev : ∀ fd, prev = some fd → id₀ < id)
    (hT : FdTable.Stacked F₀ (maybeEnds (id + 1) ends ++ (readTable id prev ++ gateTable id₀ gate)) T) :
    Inherits F₀ id₀ gate T := by
  refine ⟨maybeEnds (id + 1) ends ++ readTable id prev, by simpa using hT, fun e he => ?_⟩
  rcases List.mem_append.mp he with he | he
  · cases ends with
    | none => simp [maybeEnds] at he
    | some ends =>
      simp only [maybeEnds, endsTable, List.mem_cons, List.not_mem_nil, or_false] at he
      rcases he with rfl | rfl <;>
        simp only [ne_eq, Desc.pipeRead.injEq, Desc.pipeWrite.injEq, reduceCtorEq, not_false_eq_true,
          true_and, and_true] <;>
        omega
  · cases prev with
    | none => simp [readTable] at he
    | some fd =>
      have := hprev fd rfl
      obtain rfl : e = _ := by simpa [readTable] using he
      simp only [ne_eq, Desc.pipeRead.injEq, reduceCtorEq, not_false_eq_true, and_true]
      omega

/-- The wires of a chain of commands, one child for each: `id` is the latest pipe, and `prev` its read end if there is
a previous command. -/
inductive Stages (F₀ gate : FdTable Fd) : ℕ → Option ℕ → List Command → List Wire → Prop
  | last {id : ℕ} {prev : Option ℕ} {com : Command} {pid : Int} {T : FdTable Fd}
      (hT : FdTable.Stacked F₀ (readTable id prev ++ gate) T) : Stages F₀ gate id prev [com] [.forked pid T]
  | next {id : ℕ} {prev : Option ℕ} {ends : ℕ × ℕ} {com : Command} {pid : Int} {T : FdTable Fd}
    {cmds : List Command}
      {ws : List Wire} (hT : FdTable.Stacked F₀ (endsTable (id + 1) ends ++ (readTable id prev ++ gate)) T)
      (h : Stages F₀ gate (id + 1) (some ends.1) cmds ws) :
      Stages F₀ gate id prev (com :: cmds) (.piped ends :: .forked pid T :: ws)

section Stages

variable {w₀ w : World} {gate : ℕ × ℕ} {m n : ℕ} {prev : Option ℕ} {ws : List Wire}

theorem Marked.of_wired {es : FdTable Fd} {leader : Int} (h : Wired w₀ es n ws leader w)
    (hlead : 0 < leader → (pidsOf ws).head? = some leader) : Marked w₀ ws w where
  wires := h.wires
  groups := by
    obtain ⟨gs, hgs, hall⟩ := h.groups
    exact ⟨gs, hgs, fun x hx => (hall x hx).2 ▸ hlead (hall x hx).1⟩

theorem Marked.same {w' : World} (h : Marked w₀ ws w) (hw : w'.wiring = w.wiring) : Marked w₀ ws w' where
  wires := (Prod.mk.inj hw).1.trans h.wires
  groups := by
    rw [(Prod.mk.inj hw).2]
    exact h.groups

theorem FailedWired.of_marked (h : Marked w₀ ws w) (gate : ℕ × ℕ) : FailedWired w₀ gate ws w :=
  ⟨[], by simpa using h, by simp⟩

/-- A program without wires goes first. -/
theorem wp_unwired {α β : Type} {prog : Sh α} (hp : Prog.Keeps World.wiring prog) {f : α → Sh β}
    {Q : β → World → Prop} (hQ : ∀ a w', w'.wiring = w.wiring → Prog.wp (f a) Q (fun _ => True) w') :
    Prog.wp (prog >>= f) Q (fun _ => True) w := by
  rw [Prog.wp_bind]
  exact Prog.wp_mono (hp.wp w) hQ fun _ _ => trivial

/-- `execute_pipeline` gives up in its loop. -/
theorem wp_giveUp {fds : List Int} {gate0 gate1 : ℕ} {pgid : Int} {pids : List Int} {e : Int}
    {Q : Except Int Launch → World → Prop} (hQ : ∀ w', w'.wiring = w.wiring → Q (.error e) w') :
    Prog.wp (do
      Prog.forList closeIf fds
      close gate0
      close gate1
      rollbackPipeline pgid pids
      pure (.error e)) Q (fun _ => True) w := by
  refine wp_unwired (.forList unwired_closeIf fds) fun _ w₁ h₁ => ?_
  refine wp_unwired (unwired_close _) fun _ w₂ h₂ => wp_unwired (unwired_close _) fun _ w₃ h₃ => ?_
  exact wp_unwired (unwired_rollbackPipeline _ _) fun _ w₄ h₄ =>
    hQ w₄ (h₄.trans (h₃.trans (h₂.trans h₁)))

/-- In the loop the group is that of the first child. -/
def Leads (ws : List Wire) (l : Launch) : Prop :=
  (pidsOf ws = [] ∧ l.pgid = 0) ∨ (0 < l.pgid ∧ (pidsOf ws).head? = some l.pgid)

theorem Leads.head {l : Launch} (h : Leads ws l) (hl : 0 < l.pgid) : (pidsOf ws).head? = some l.pgid := by
  rcases h with ⟨-, h0⟩ | ⟨-, h⟩
  · omega
  · exact h

theorem wp_stagePipe_wired {es : FdTable Fd} {leader : Int} (next : List Command) (h : Wired w₀ es n ws leader w)
    {Q : Option (Int × Int) → World → Prop} {R : World → Prop}
    (hfail : ∀ w', Wired w₀ es n ws leader w' → Q none w') (hok : ∀ ends w', (ends = none ↔ next = []) →
      Wired w₀ (maybeEnds (w₀.kernel.created + n) ends ++ es) (n + ends.toList.length)
        (ws ++ ends.toList.map .piped)
        leader w' → Q (some (fdVar (ends.map Prod.fst), fdVar (ends.map Prod.snd))) w') :
    Prog.wp (stagePipe next) Q R w := by
  unfold stagePipe
  split
  · rename_i hn
    rw [Prog.wp_bind]
    refine wp_pipe_wired h (fun w' h' => hfail w' h') fun ends w' h' => hok (some ends) w' (by simp [hn])
      (by simpa [maybeEnds] using h')
  · rename_i hn
    exact hok none w (by simpa using hn) (by simpa [maybeEnds] using h)

/-- **One round of the loop of `execute_pipeline`.** -/
theorem wp_launchStage_wired {next : List Command} {ends : Option (ℕ × ℕ)} {l : Launch}
    (hends : ends = none ↔ next = []) (hfd : l.pipeFd = fdVar prev) (hlead : Leads ws l)
    (hprev : ∀ fd, prev = some fd → 0 < m)
    (h : Wired w₀ (maybeEnds (w₀.kernel.created + (m + 1)) ends ++
      (readTable (w₀.kernel.created + m) prev ++ gateTable w₀.kernel.created gate)) n ws l.pgid w)
    {Q : Except Int Launch → World → Prop} (hfail : ∀ e w', FailedWired w₀ gate ws w' → Q (.error e) w')
    (hok : ∀ pid T pgid w', FdTable.Stacked w₀.kernel.fds (maybeEnds (w₀.kernel.created + (m + 1)) ends ++
        (readTable (w₀.kernel.created + m) prev ++ gateTable w₀.kernel.created gate)) T →
      Inherits w₀.kernel.fds w₀.kernel.created gate T →
      Leads (ws ++ [Wire.forked pid T]) ⟨fdVar (ends.map Prod.fst), pgid, l.pids ++ [pid]⟩ →
      Wired w₀ (readTable (w₀.kernel.created + (m + 1)) (ends.map Prod.fst) ++
          gateTable w₀.kernel.created gate) n
        (ws ++ [Wire.forked pid T]) pgid w' →
      Q (.ok ⟨fdVar (ends.map Prod.fst), pgid, l.pids ++ [pid]⟩) w') :
    Prog.wp (launchStage gate.1 gate.2 next (fdVar (ends.map Prod.fst)) (fdVar (ends.map Prod.snd)) l) Q
      (fun _ => True) w := by
  -- the descriptors at the fork
  have hT := h.fds
  have hinh : Inherits w₀.kernel.fds w₀.kernel.created gate w.kernel.fds :=
    inherits_stage ends (Nat.le_add_right _ m) (fun fd hf => by have := hprev fd hf; omega) hT
  have giveUp : ∀ {pgid pids e v}, (∀ w', w'.wiring = v.wiring → Q (.error e) w') → Prog.wp (do
      closeIf (fdVar (ends.map Prod.fst))
      closeIf (fdVar (ends.map Prod.snd))
      closeIf l.pipeFd
      close gate.1
      close gate.2
      rollbackPipeline pgid pids
      pure (.error e)) Q (fun _ => True) v := fun {pgid pids e v} hQ => by
    have hgive := @wp_giveUp v [fdVar (ends.map Prod.fst), fdVar (ends.map Prod.snd),
      l.pipeFd] gate.1 gate.2 pgid pids e
      Q hQ
    simpa only [Prog.forList, bind_assoc, pure_bind] using hgive
  generalize hes : maybeEnds (w₀.kernel.created + (m + 1)) ends ++
    (readTable (w₀.kernel.created + m) prev ++ gateTable w₀.kernel.created gate) = es at h hT
  unfold launchStage
  rw [Prog.wp_bind]
  refine wp_fork_wired h (fun w₁ h₁ => ?_) fun pid w₁ hpid h₁ => ?_
  · have hm := Marked.of_wired h₁ hlead.head
    rw [if_pos (by omega)]
    exact giveUp fun w' hw => hfail _ w' (.of_marked (hm.same hw) gate)
  · rw [if_neg (by omega)]
    dsimp only
    have hT' : FdTable.Stacked w₀.kernel.fds es (es ++ w₀.kernel.fds) := hT.eq ▸ hT
    rw [hT.eq] at hinh
    generalize es ++ w₀.kernel.fds = T at h₁ hT' hinh
    obtain ⟨hl', h₁⟩ : Leads (ws ++ [Wire.forked pid T]) ⟨0, if l.pgid = 0 then pid else l.pgid, []⟩ ∧
        Wired w₀ es n (ws ++ [Wire.forked pid T]) (if l.pgid = 0 then pid else l.pgid) w₁ := by
      rcases hlead with ⟨hnil, h0⟩ | ⟨hpos, hhead⟩
      · rw [if_pos h0]
        rw [h0] at h₁
        refine ⟨Or.inr ⟨hpid, ?_⟩, h₁.lead pid⟩
        rw [pidsOf_append, hnil]
        rfl
      · rw [if_neg (by omega)]
        exact ⟨Or.inr ⟨hpos, by simp [hhead]⟩, h₁⟩
    generalize (if l.pgid = 0 then pid else l.pgid) = pgid at hl' h₁
    have hpos : 0 < pgid := by
      rcases hl' with ⟨hnil, -⟩ | ⟨h, -⟩
      · simp [pidsOf] at hnil
      · exact h
    rw [Prog.wp_bind]
    apply wp_setpgidParent_wired h₁ hpos
    intro r w₂ h₂
    split
    · have hm := Marked.of_wired h₂ fun _ => (Leads.head hl' hpos :)
      refine giveUp fun w' hw => hfail _ w' ⟨[.forked pid T], hm.same hw, fun p T' hp => ?_⟩
      obtain ⟨rfl, rfl⟩ : p = pid ∧ T' = T := by simpa using hp
      exact hinh
    · rw [Prog.wp_bind, hfd]
      rw [← hes, ← List.append_assoc] at h₂
      apply wp_closeIf_wired h₂
      intro w₃ h₃
      cases ends with
      | none =>
        rw [if_neg (by simpa using hends)]
        refine hok pid T pgid w₃ (hes ▸ hT') hinh hl' ?_
        simpa [maybeEnds, readTable] using h₃
      | some ends =>
        rw [if_pos (by simpa using hends), Prog.wp_bind]
        have h₃' : Wired w₀ ([] ++ (ends.2, ⟨.pipeWrite (w₀.kernel.created + (m + 1)), false⟩) ::
            (readTable (w₀.kernel.created + (m + 1)) (some ends.1) ++ gateTable w₀.kernel.created gate)) n
            (ws ++ [Wire.forked pid T]) pgid w₃ := by
          simpa [maybeEnds, endsTable, readTable] using h₃
        exact wp_close_wired h₃' fun w₄ h₄ => hok pid T pgid w₄ (hes ▸ hT') hinh hl' h₄

theorem FailedWired.before {ws₁ ws₂ : List Wire} (h : FailedWired w₀ gate (ws₁ ++ ws₂) w)
    (hall : ∀ pid T, .forked pid T ∈ ws₂ → Inherits w₀.kernel.fds w₀.kernel.created gate T) :
    FailedWired w₀ gate ws₁ w := by
  obtain ⟨ws', hm, hall'⟩ := h
  refine ⟨ws₂ ++ ws', by simpa using hm, fun pid T hp => ?_⟩
  rcases List.mem_append.mp hp with hp | hp
  · exact hall pid T hp
  · exact hall' pid T hp

/-- **The loop of `execute_pipeline`.** -/
theorem wp_launchLoop_wired (cmds : List Command) (hne : cmds ≠ []) {l : Launch} (hfd : l.pipeFd = fdVar prev)
    (hlead : Leads ws l) (hprev : ∀ fd, prev = some fd → 0 < m)
    (h : Wired w₀ (readTable (w₀.kernel.created + m) prev ++ gateTable w₀.kernel.created gate)
      (m + 1) ws l.pgid w)
    {Q : Except Int Launch → World → Prop} (hfail : ∀ e w', FailedWired w₀ gate ws w' → Q (.error e) w')
    (hok : ∀ l' ws' n w', l'.pipeFd = -1 → Leads (ws ++ ws') l' →
      Stages w₀.kernel.fds (gateTable w₀.kernel.created gate) (w₀.kernel.created + m) prev cmds ws' →
      Wired w₀ (gateTable w₀.kernel.created gate) n (ws ++ ws') l'.pgid w' → Q (.ok l') w') :
    Prog.wp (launchLoop gate.1 gate.2 cmds l) Q (fun _ => True) w := by
  induction cmds generalizing l prev m ws w with
  | nil => exact absurd rfl hne
  | cons com next ih =>
    have giveUp : ∀ {e v}, Marked w₀ ws v → Prog.wp (do
        closeIf l.pipeFd
        close gate.1
        close gate.2
        rollbackPipeline l.pgid l.pids
        pure (.error e)) Q (fun _ => True) v := fun {e v} hm => by
      have hgive := @wp_giveUp v [l.pipeFd] gate.1 gate.2 l.pgid l.pids e Q fun w' hw =>
        hfail e w' (.of_marked (hm.same hw) gate)
      simpa only [Prog.forList, bind_assoc, pure_bind] using hgive
    unfold launchLoop
    split
    · exact giveUp (.of_wired h hlead.head)
    · rw [Prog.wp_bind]
      refine wp_stagePipe_wired next h (fun w₁ h₁ => giveUp (.of_wired h₁ hlead.head))
        ?_
      intro ends w₁ hends h₁
      dsimp only
      rw [Prog.wp_bind]
      have hlead₁ : Leads (ws ++ ends.toList.map .piped) l := by
        have : pidsOf (ends.toList.map Wire.piped) = [] := by cases ends <;> rfl
        unfold Leads at hlead ⊢
        rwa [pidsOf_append, this, List.append_nil]
      have nofork : ∀ pid T, Wire.forked pid T ∈ ends.toList.map Wire.piped →
          Inherits w₀.kernel.fds w₀.kernel.created gate T := fun pid T hp => by simp at hp
      refine wp_launchStage_wired hends hfd hlead₁ hprev h₁
        (fun e w₂ h₂ => hfail e w₂ (h₂.before nofork))
        ?_
      intro pid T pgid w₂ hT hinh hlead₂ h₂
      cases ends with
      | none =>
        -- the last command
        obtain rfl : next = [] := hends.mp rfl
        refine hok _ [.forked pid T] (m + 1) w₂ rfl ?_ (.last (by simpa [maybeEnds] using hT)) ?_
        · simpa using hlead₂
        · simpa [readTable] using h₂
      | some ends =>
        have hnext : next ≠ [] := by simpa using hends
        refine ih hnext rfl hlead₂ (fun _ _ => Nat.succ_pos m) h₂ (fun e w₃ h₃ => hfail e w₃ ?_)
          fun l' ws' n w₃ hfd₃ hlead₃ hst h₃ => ?_
        · refine (h₃.before fun p T' hp => ?_).before nofork
          obtain ⟨rfl, rfl⟩ : p = pid ∧ T' = T := by simpa using hp
          exact hinh
        · refine hok l' (.piped ends :: .forked pid T :: ws') n w₃ hfd₃ ?_ ?_ ?_
          · simpa using hlead₃
          · exact .next (by simpa [maybeEnds, Nat.add_assoc] using hT) hst
          · simpa using h₃

end Stages

/-! ### A whole launch -/

/-- The first of the wires is the gate, and every child has inherited it. -/
def Gatewired (F₀ : FdTable Fd) (id : ℕ) (ws : List Wire) : Prop :=
  pidsOf ws = [] ∨ ∃ gate ws', ws = .piped gate :: ws' ∧ ∀ pid T, .forked pid T ∈ ws' →
    Inherits F₀ id gate T

/-- The wires of a launch of the commands `cmds` that has returned `r`. -/
structure LaunchWires {α : Type} (w₀ : World) (cmds : List Command) (r : Except Int α) (ws : List Wire) :
    Prop where
  gate : Gatewired w₀.kernel.fds w₀.kernel.created ws
  stages : (∃ a, r = .ok a) → ∃ gate ws', ws = .piped gate :: ws' ∧
    Stages w₀.kernel.fds (gateTable w₀.kernel.created gate) w₀.kernel.created none cmds ws'

theorem wp_startupGateCreate_wired {w₀ : World} {Q : Option (ℕ × ℕ) → World → Prop} {R : World → Prop}
    (hfail : ∀ ws w', Marked w₀ ws w' → pidsOf ws = [] → Q none w')
    (hok : ∀ gate w', Wired w₀ (gateTable w₀.kernel.created gate) 1 [.piped gate] 0 w' → Q (some gate) w') :
    Prog.wp startupGateCreate Q R w₀ := by
  unfold startupGateCreate
  rw [Prog.wp_bind]
  have mark : ∀ {es n ws w}, Wired w₀ es n ws 0 w → Marked w₀ ws w := fun h =>
    .of_wired h fun h0 => absurd h0 (by omega)
  have giveUp : ∀ {es gate w}, Wired w₀ es 1 [.piped gate] 0 w →
      Prog.wp (do
        close gate.1
        close gate.2
        pure none) Q R w := fun {es gate w} h =>
    hfail [.piped gate] _ ((mark h).same ((unwired_close gate.2 _).trans (unwired_close gate.1 w))) rfl
  refine wp_pipe_wired (.refl w₀ 0) (fun w₁ h₁ => hfail [] w₁ (mark h₁) rfl) ?_
  intro gate w₁ h₁
  obtain ⟨gate0, gate1⟩ := gate
  dsimp only
  rw [Prog.wp_bind]
  have h₁' : Wired w₀ ([(gate1, ⟨.pipeWrite w₀.kernel.created, false⟩)] ++
      (gate0, ⟨.pipeRead w₀.kernel.created, false⟩) :: []) 1 [.piped (gate0, gate1)] 0 w₁ := by
    simpa [endsTable] using h₁
  apply wp_setCloexec_wired h₁' (fun e w₂ h₂ => giveUp h₂)
  intro w₂ h₂
  dsimp only
  rw [Prog.wp_bind]
  have h₂' : Wired w₀ ([] ++ (gate1, ⟨.pipeWrite w₀.kernel.created, false⟩) ::
      [(gate0, ⟨.pipeRead w₀.kernel.created, true⟩)]) 1 [.piped (gate0, gate1)] 0 w₂ := by
    simpa using h₂
  exact wp_setCloexec_wired h₂' (fun e w₃ h₃ => giveUp h₃) fun w₃ h₃ => hok (gate0, gate1) w₃
    (by simpa [gateTable] using h₃)

theorem Stages.inherits {F₀ : FdTable Fd} {id₀ id : ℕ} {gate : ℕ × ℕ} {prev : Option ℕ}
    {cmds : List Command} {ws : List Wire} (h : Stages F₀ (gateTable id₀ gate) id prev cmds ws)
    (hid : id₀ ≤ id) (hprev : ∀ fd, prev = some fd → id₀ < id) :
    ∀ pid T, .forked pid T ∈ ws → Inherits F₀ id₀ gate T := by
  induction h with
  | last hT =>
    intro pid T hm
    obtain ⟨rfl, rfl⟩ : pid = _ ∧ T = _ := by simpa using hm
    exact inherits_stage none hid hprev hT
  | next hT h ih =>
    intro pid T hm
    simp only [List.mem_cons, reduceCtorEq, false_or, Wire.forked.injEq] at hm
    rcases hm with ⟨rfl, rfl⟩ | hm
    · exact inherits_stage (some _) hid hprev hT
    · exact ih (by omega) (fun _ _ => by omega) pid T hm

/-! The registration of a job has no wires. -/

theorem unwired_restoreIf {α : Type} {m : Sh α} (hm : Prog.Keeps World.wiring m) {p : Prop} [Decidable p] :
    Prog.Keeps World.wiring (do
      if p then
        let _ ← terminalRestore
      m) :=
  .ite (fun _ => unwired_terminalRestore.bind fun _ => hm) fun _ => hm

theorem unwired_releaseSingle (com : Command) (gate1 : ℕ) (pid : Int) (terminalActive : Bool) :
    Prog.Keeps World.wiring (releaseSingle com gate1 pid terminalActive) :=
  (unwired_startupGateRelease _ _).bind fun _ => .ite (fun _ => (unwired_close _).bind fun _ =>
    (unwired_rollbackSingle _).bind fun _ => (unwired_jobRemoveM _).bind fun _ =>
      unwired_restoreIf (Prog.keeps_pure _))
    fun _ => (unwired_close _).bind fun _ => Prog.keeps_pure _

theorem unwired_releasePipeline (com : Command) (gate1 : ℕ) (l : Launch) (terminalActive : Bool) :
    Prog.Keeps World.wiring (releasePipeline com gate1 l terminalActive) :=
  (unwired_startupGateRelease _ _).bind fun _ => .ite (fun _ => (unwired_close _).bind fun _ =>
    (unwired_rollbackPipeline _ _).bind fun _ => (unwired_jobRemoveM _).bind fun _ =>
      unwired_restoreIf (Prog.keeps_pure _)) fun _ => (unwired_close _).bind fun _ => Prog.keeps_pure _

/-- The terminal is handed over, or it need not be. -/
theorem unwired_handOver {α : Type} {m : Int → Sh α} (hm : ∀ r, Prog.Keeps World.wiring (m r))
    {p : Prop} [Decidable p] (pgid : Int) : Prog.Keeps World.wiring (do
      let r ← if p then terminalSetForeground pgid else pure 0
      m r) :=
  .ite (fun _ => (unwired_terminalSetForeground _).bind hm) fun _ => (Prog.keeps_pure _).bind hm

theorem unwired_registerPipeline (com : Command) (terminalActive : Bool) (gate0 gate1 : ℕ) (l : Launch) :
    Prog.Keeps World.wiring (registerPipeline com terminalActive gate0 gate1 l) :=
  (unwired_closeIf _).bind fun _ => (unwired_close _).bind fun _ => (unwired_jobAdd _ _).bind fun _ =>
    .ite (fun _ => (unwired_close _).bind fun _ => (unwired_rollbackPipeline _ _).bind fun _ => Prog.keeps_pure _)
      fun _ => (unwired_processAddAll _).bind fun _ =>
        .ite (fun _ => (unwired_close _).bind fun _ => (unwired_rollbackPipeline _ _).bind fun _ =>
          (unwired_jobRemoveM _).bind fun _ => Prog.keeps_pure _)
        fun _ => unwired_handOver (fun _ => .ite (fun _ => (unwired_close _).bind fun _ =>
          (unwired_rollbackPipeline _ _).bind fun _ => (unwired_jobRemoveM _).bind fun _ =>
            unwired_terminalRestore.bind fun _ => Prog.keeps_pure _)
          fun _ => unwired_releasePipeline com gate1 l terminalActive) _

section Launch

variable {w₀ : World} {com : Command}

/-- The wires since `w₀` are those of the launch. -/
def WiredTo {α : Type} (w₀ : World) (cmds : List Command) (r : Except Int α) (w : World) : Prop :=
  ∃ ws, Marked w₀ ws w ∧ LaunchWires w₀ cmds r ws

theorem WiredTo.unforked {α : Type} {ws : List Wire} {w : World} {cmds : List Command} {e : Int}
    (h : Marked w₀ ws w) (hp : pidsOf ws = []) : WiredTo w₀ cmds (.error e : Except Int α) w :=
  ⟨ws, h, Or.inl hp, fun ⟨_, ha⟩ => by cases ha⟩

theorem WiredTo.failed {α : Type} {gate : ℕ × ℕ} {w : World} {cmds : List Command} {e : Int}
    (h : FailedWired w₀ gate [.piped gate] w) : WiredTo w₀ cmds (.error e : Except Int α) w := by
  obtain ⟨ws, hm, hall⟩ := h
  exact ⟨.piped gate :: ws, by simpa using hm, Or.inr ⟨gate, ws, rfl, hall⟩, fun ⟨_, ha⟩ => by cases ha⟩

theorem WiredTo.staged {α : Type} {gate : ℕ × ℕ} {w : World} {cmds : List Command} {ws : List Wire}
    (r : Except Int α) (h : Marked w₀ (.piped gate :: ws) w)
    (hst : Stages w₀.kernel.fds (gateTable w₀.kernel.created gate) w₀.kernel.created none cmds ws) :
    WiredTo w₀ cmds r w :=
  ⟨_, h, Or.inr ⟨gate, ws, rfl, hst.inherits le_rfl fun _ hf => by cases hf⟩,
    fun _ => ⟨gate, ws, rfl, hst⟩⟩

/-- What is left has no wires. -/
theorem wp_rest_unwired {α : Type} {prog : Sh α} (hp : Prog.Keeps World.wiring prog)
    {Q : α → World → Prop} {w : World} (hQ : ∀ a w', w'.wiring = w.wiring → Q a w') :
    Prog.wp prog Q (fun _ => True) w :=
  Prog.wp_mono (hp.wp w) hQ fun _ _ => trivial

/-- **The wires of `execute_pipeline`.** -/
theorem wp_launchPipeline_wired (next : List Command) :
    Prog.wp (launchPipeline com next) (WiredTo w₀ (com :: next)) (fun _ => True) w₀ := by
  unfold launchPipeline
  rw [Prog.wp_bind]
  apply wp_startupGateCreate_wired (fun ws w₁ h₁ hp => .unforked h₁ hp)
  intro gate w₁ h₁
  obtain ⟨gate0, gate1⟩ := gate
  dsimp only
  rw [Prog.wp_bind]
  unfold terminalIsInitialized
  rw [Prog.wp_get_bind, Prog.wp_pure, Prog.wp_bind]
  refine @wp_launchLoop_wired w₀ w₁ (gate0, gate1) 0 none [.piped (gate0, gate1)] (com :: next) (by simp) _ rfl
    (Or.inl ⟨rfl, rfl⟩) (fun _ hf => by cases hf) (by simpa [readTable] using h₁) _
      (fun e w₂ h₂ => .failed h₂)
    fun l ws n w₂ _ hlead hst h₂ => ?_
  apply wp_rest_unwired (unwired_registerPipeline com _ gate0 gate1 l)
  intro r w₃ hw
  exact .staged r ((Marked.of_wired h₂ hlead.head).same hw) hst

theorem Marked.unique {ws ws' : List Wire} {w : World} (h : Marked w₀ ws w) (h' : Marked w₀ ws' w) : ws = ws' :=
  List.append_cancel_left (h.wires.symm.trans h'.wires)

/-- **The wires of `execute_single`**, which has one child at most. -/
theorem wp_launchSingle_wired : Prog.wp (launchSingle com)
    (fun r w => WiredTo w₀ [com] r w ∧ ∀ ws, Marked w₀ ws w → (pidsOf ws).length ≤ 1)
    (fun _ => True) w₀ := by
  have unforked : ∀ {ws w} {e : Int}, Marked w₀ ws w → pidsOf ws = [] →
      WiredTo w₀ [com] (.error e : Except Int (Int × Bool)) w ∧ ∀ ws, Marked w₀ ws w →
        (pidsOf ws).length ≤ 1 :=
    fun {ws w e} hm hp => ⟨.unforked hm hp, fun ws' h' => by rw [h'.unique hm, hp]; exact Nat.zero_le 1⟩
  unfold launchSingle
  rw [Prog.wp_bind]
  refine wp_startupGateCreate_wired (fun ws w₁ h₁ hp => unforked h₁ hp) fun gate w₁ h₁ => ?_
  obtain ⟨gate0, gate1⟩ := gate
  dsimp only
  rw [Prog.wp_bind]
  unfold terminalIsInitialized
  rw [Prog.wp_get_bind, Prog.wp_pure, Prog.wp_bind]
  have hT := h₁.fds
  refine wp_fork_wired h₁ (fun w₂ h₂ => ?_) fun pid w₂ hpid h₂ => ?_
  · rw [if_pos (by omega)]
    refine wp_unwired (unwired_close _) fun _ w₃ h₃ => wp_unwired (unwired_close _) fun _ w₄ h₄ => ?_
    exact unforked ((Marked.of_wired h₂ fun h0 => absurd h0 (by omega)).same (h₄.trans h₃)) rfl
  rw [if_neg (by omega)]
  have hst : Stages w₀.kernel.fds (gateTable w₀.kernel.created (gate0, gate1)) w₀.kernel.created none [com]
      [.forked pid (gateTable w₀.kernel.created (gate0, gate1) ++ w₀.kernel.fds)] :=
    .last (by simpa [readTable] using hT.eq ▸ hT)
  generalize gateTable w₀.kernel.created (gate0, gate1) ++ w₀.kernel.fds = T at h₂ hst
  rw [Prog.wp_bind]
  have h₂' : Wired w₀ ([(gate1, ⟨.pipeWrite w₀.kernel.created, true⟩)] ++
      (gate0, ⟨.pipeRead w₀.kernel.created, true⟩) :: []) 1
        [.piped (gate0, gate1), .forked pid T] 0 w₂ := by
    simpa [gateTable] using h₂
  apply wp_close_wired h₂'
  intro w₃ h₃
  rw [Prog.wp_bind]
  apply wp_setpgidParent_wired (h₃.lead pid) hpid
  intro r w₄ h₄
  have hm := Marked.of_wired h₄ fun _ => rfl
  refine wp_rest_unwired ?_ fun r w₅ hw =>
    ⟨.staged r (hm.same hw) hst, fun ws h' => by rw [h'.unique (hm.same hw)]; exact le_refl 1⟩
  refine .ite (fun _ => (unwired_close _).bind fun _ => (unwired_rollbackSingle _).bind fun _ => Prog.keeps_pure _)
    fun _ => (unwired_jobAdd _ _).bind fun _ => .ite (fun _ => (unwired_close _).bind fun _ =>
      (unwired_rollbackSingle _).bind fun _ => Prog.keeps_pure _) fun _ => (unwired_processAdd _ _).bind fun _ =>
        .ite (fun _ => (unwired_close _).bind fun _ => (unwired_rollbackSingle _).bind fun _ =>
          (unwired_jobRemoveM _).bind fun _ => Prog.keeps_pure _)
        fun _ => unwired_handOver (fun _ => .ite (fun _ => (unwired_close _).bind fun _ =>
          (unwired_rollbackSingle _).bind fun _ => (unwired_jobRemoveM _).bind fun _ =>
            unwired_terminalRestore.bind fun _ => Prog.keeps_pure _)
          fun _ => unwired_releaseSingle com gate1 pid _) _

end Launch

end MiniShell
