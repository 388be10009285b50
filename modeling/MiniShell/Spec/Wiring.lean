import MiniShell.Spec.Agree
import MiniShell.Spec.Gate

/-!
# The wiring of a pipeline

* `Descended plan T c` — the child `c` has inherited `T` and has closed what it has come past;
* `Stages.stage` — what the `i`-th child of a launch inherits, and the variables of the loop at its `fork`;
* `Plumbed w eventPipe n i F` — the stage `i` of `n` has its pipes on 0 and 1 and no other end of them;
* **`pipeline_wired`** — when a stage comes to `execvp` its descriptor 0 is its input file, the pipe from the stage
  before or the shell's, its descriptor 1 likewise, and the others are the shell's without the event pipe.
-/

namespace MiniShell

open MiniShell.Lib MiniShellError

/-! ### The descriptors of a child before it becomes the program -/

/-- The descriptors of a child that has inherited `T`, at each of its calls. -/
def LaunchPlan.tableAt (plan : LaunchPlan) (T : FdTable Fd) : ChildPc → FdTable Fd
  | .closeGateWrite | .gone => T
  | .blockStartupSignals | .setpgid | .closeEvent => T.close plan.gateWrite
  | .gateWait | .closeGateRead => eventShutFds plan.eventPipe (T.close plan.gateWrite)
  | .resetSignals _ | .prepared => (eventShutFds plan.eventPipe (T.close plan.gateWrite)).close plan.gateRead

/-- The child `c` has inherited `T`. -/
structure Descended (plan : LaunchPlan) (T : FdTable Fd) (c : Starting) : Prop where
  gateRead : c.gateRead = plan.gateRead
  gateWrite : c.gateWrite = plan.gateWrite
  fds : c.pc ≠ .gone → c.fds = plan.tableAt T c.pc

/-- The tables the children have inherited. -/
def tablesOf (ws : List Wire) : List (FdTable Fd) :=
  ws.filterMap fun x => match x with
    | .piped _ => none
    | .forked _ T => some T

@[simp] theorem tablesOf_append (ws ws' : List Wire) : tablesOf (ws ++ ws') = tablesOf ws ++ tablesOf ws' :=
  List.filterMap_append

theorem tablesOf_length (ws : List Wire) : (tablesOf ws).length = (pidsOf ws).length := by
  induction ws with
  | nil => rfl
  | cons x ws ih => cases x <;> simpa [tablesOf, pidsOf] using ih

/-- What holds of the tables when the parent of a launch has made the calls `made`. -/
structure TableInv (plan : LaunchPlan) (seg : List Event) (s : Startup) (made : List Event) : Prop where
  split : seg = made ++ s.left
  length : s.children.length = (tablesOf (wires made)).length
  child : ∀ (i : ℕ) (c : Starting) (T : FdTable Fd), s.children[i]? = some c →
    (tablesOf (wires made))[i]? = some T →
    Descended plan T c

section Descended

variable {plan : LaunchPlan} {T : FdTable Fd} {c c' : Starting} {a : ChildAct} {seg made : List Event}
  {s s' : Startup}
  {tr : List StartupAct}

theorem Descended.signalled (h : Descended plan T c) (hs : Signalled c c') : Descended plan T c' := by
  obtain ⟨hsame, hpc⟩ := hs
  rw [hsame]
  refine ⟨h.gateRead, h.gateWrite, fun hne => ?_⟩
  have hpc' := hpc.resolve_right hne
  dsimp only
  rw [hpc']
  exact h.fds (hpc' ▸ hne)

/-- A child closes a descriptor. -/
theorem Descended.closes (h : Descended plan T c)
    (ha : a = .closeGateWrite ∨ a = .closeEvent ∨ a = .closeGateRead)
    (hs : childStep plan.eventPipe c a = some c') :
    Descended plan T c' := by
  have hfds := h.fds (present_of_step hs)
  rcases ha with rfl | rfl | rfl <;> simp only [childStep] at hs
  all_goals
    split at hs
    · rename_i hpc
      cases hs
      rw [hpc] at hfds
      refine ⟨h.gateRead, h.gateWrite, fun _ => ?_⟩
      dsimp only
      rw [hfds]
      first | rw [h.gateWrite]; rfl | rw [h.gateRead]; rfl | rfl
    · cases hs

theorem Descended.setpgid (h : Descended plan T c) {r : Res}
    (hs : childStep plan.eventPipe c (.setpgid r) = some c') :
    Descended plan T c' := by
  have hfds := h.fds (present_of_step hs)
  simp only [childStep] at hs
  split at hs
  · rename_i hpc
    cases hs
    rw [hpc] at hfds
    exact ⟨h.gateRead, h.gateWrite, fun _ => hfds⟩
  · cases hs
    exact h
  · cases hs
    exact ⟨h.gateRead, h.gateWrite, fun hne => absurd rfl hne⟩
  · cases hs

theorem Descended.read (h : Descended plan T c) {r : ReadRes}
    (hs : childStep plan.eventPipe c (.read r) = some c') :
    Descended plan T c' := by
  have hfds := h.fds (present_of_step hs)
  simp only [childStep] at hs
  split at hs
  · rename_i hpc
    cases hs
    rw [hpc] at hfds
    refine ⟨h.gateRead, h.gateWrite, fun hne => ?_⟩
    dsimp only at hne ⊢
    split
    · exact hfds
    · rename_i hv
      exact absurd (if_neg hv) hne
  · cases hs
    exact ⟨h.gateRead, h.gateWrite, fun hne => absurd rfl hne⟩
  · cases hs
    exact h
  · cases hs
    exact ⟨h.gateRead, h.gateWrite, fun hne => absurd rfl hne⟩
  · cases hs

/-- **One step of a child.** -/
theorem Descended.step (h : Descended plan T c) (hs : childStep plan.eventPipe c a = some c') :
    Descended plan T c' := by
  have hpresent := present_of_step hs
  have hfds := h.fds hpresent
  cases a with
  | closeGateWrite => exact h.closes (Or.inl rfl) hs
  | closeEvent => exact h.closes (Or.inr (Or.inl rfl)) hs
  | closeGateRead => exact h.closes (Or.inr (Or.inr rfl)) hs
  | setpgid r => exact h.setpgid hs
  | read r => exact h.read hs
  | signal sig =>
    simp only [childStep] at hs
    cases hs
    exact h.signalled (signalled_generate c sig)
  | unblock =>
    simp only [childStep] at hs
    split at hs
    · rename_i hpc
      cases hs
      rw [hpc] at hfds
      have hd : Descended plan T { c with pc := .prepared, signals := { c.signals with blocked := [], pending := [] } } :=
        ⟨h.gateRead, h.gateWrite, fun _ => hfds⟩
      exact hd.signalled (signalled_deliverAll _ _)
    · cases hs
  | blockStartupSignals | resetSignal =>
    simp only [childStep] at hs
    split at hs
    · rename_i hpc
      cases hs
      rw [hpc] at hfds
      exact ⟨h.gateRead, h.gateWrite, fun _ => hfds⟩
    · cases hs

theorem Descended.moved (h : Descended plan T c) (pid pgid : Int) : Descended plan T (c.moved pid pgid) := by
  unfold Starting.moved
  split
  · exact ⟨h.gateRead, h.gateWrite, h.fds⟩
  · exact h

/-- A call that forks nobody. -/
theorem tablesOf_snoc {e : Event} (h : forks [e] = []) :
    tablesOf (wires (made ++ [e])) = tablesOf (wires made) := by
  have hnil : tablesOf (wires [e]) = [] := by
    rw [← List.length_eq_zero_iff, tablesOf_length, pidsOf_wires, h]
    rfl
  rw [wires_append, tablesOf_append, hnil, List.append_nil]

theorem tableInv_parent (h : TableInv plan seg s made) {e : Event} {left : List Event} (hl : s.left = e :: left) :
    TableInv plan seg (plan.call { s with left := left } e) (made ++ [e]) := by
  have hsplit : seg = (made ++ [e]) ++ left := by rw [h.split, hl, List.append_assoc, List.singleton_append]
  rcases call_cases plan { s with left := left } e with ⟨pid, k, js, rfl, hpid, hc⟩ |
    ⟨pid, pgid, k, js, rfl, hc⟩ |
    ⟨fd, k, js, rfl, hc⟩ | ⟨hc, hf, -⟩
  · -- the child inherits the descriptors of its parent at the fork
    rw [hc]
    have htables : tablesOf (wires (made ++ [Event.call (.fork pid) k js])) = tablesOf (wires made) ++ [k.fds] := by
      simp [wires, tablesOf, hpid]
    refine ⟨hsplit, ?_, fun i c T hi hT => ?_⟩
    · rw [htables]
      simpa using h.length
    · rw [htables] at hT
      rw [List.getElem?_append] at hi hT
      rw [← h.length] at hT
      dsimp only at hi
      split at hi
      · rename_i hlt
        rw [if_pos hlt] at hT
        exact h.child i c T hi hT
      · rename_i hlt
        rw [if_neg hlt] at hT
        rw [List.getElem?_singleton] at hi hT
        split at hi
        · rename_i h0
          rw [if_pos h0] at hT
          cases hi
          cases hT
          exact ⟨rfl, rfl, fun _ => rfl⟩
        · cases hi
  · rw [hc]
    have htables := @tablesOf_snoc made (.call (.setpgid pid pgid .ok) k js) rfl
    refine ⟨hsplit, by rw [htables, List.length_map]; exact h.length, fun i c T hi hT => ?_⟩
    rw [htables] at hT
    dsimp only at hi
    rw [List.getElem?_map] at hi
    obtain ⟨c₀, hc₀, rfl⟩ := Option.map_eq_some_iff.mp hi
    exact (h.child i c₀ T hc₀ hT).moved pid pgid
  · rw [hc]
    have htables := @tablesOf_snoc made (.call (.writeGate fd .ok) k js) rfl
    exact ⟨hsplit, by rw [htables]; exact h.length, fun i c T hi hT => h.child i c T hi (htables ▸ hT)⟩
  · rw [hc]
    exact ⟨hsplit, by rw [tablesOf_snoc hf]; exact h.length, fun i c T hi hT => h.child i c T hi (tablesOf_snoc hf ▸ hT)⟩

theorem tableInv_child (h : TableInv plan seg s made) {i : ℕ} {gate : Bytes} (hc : s.children[i]? = some c)
    (hs : childStep plan.eventPipe c a = some c') :
    TableInv plan seg { s with gate := gate, children := s.children.set i c' } made := by
  refine ⟨h.split, by rw [List.length_set]; exact h.length, fun j x T hj hT => ?_⟩
  dsimp only at hj
  rw [List.getElem?_set] at hj
  split at hj
  · rename_i hij
    subst hij
    split at hj
    · cases hj
      exact (h.child i c T hc hT).step hs
    · cases hj
  · exact h.child j x T hj hT

/-- **In every run a child has the descriptors of its call.** -/
theorem tableInv_run (hrun : Run (startupStep plan) (.init seg) tr s) : ∃ made, TableInv plan seg s made := by
  refine Run.invariant (I := fun _ s => ∃ made, TableInv plan seg s made)
    ⟨[], rfl, rfl, by simp [Startup.init]⟩ ?_ hrun
  rintro tr s a s' - ⟨made, h⟩ hs
  cases a with
  | parent =>
    simp only [startupStep] at hs
    split at hs
    · rename_i hl
      split at hs
      · cases hs
        exact ⟨_, tableInv_parent h hl⟩
      · cases hs
    · cases hs
  | abort =>
    simp only [startupStep] at hs
    split at hs
    · cases hs
      exact ⟨made, h.split, h.length, h.child⟩
    · cases hs
  | child i a =>
    simp only [startupStep, Option.bind_eq_bind, Option.bind_eq_some_iff] at hs
    obtain ⟨c, hc, gate, -, c', hs, he⟩ := hs
    cases he
    exact ⟨made, tableInv_child h hc hs⟩

end Descended

/-! ### The stages of a pipeline -/

/-- The variables of the loop of `execute_pipeline` that each child inherits, by the pipes and forks that are left to
make; they are `vars` before the first of these. -/
def varsAtForks (vars : StageVars) : List Wire → List StageVars
  | [] => []
  | .piped ends :: ws => varsAtForks { vars with pipefd0 := ends.1, pipefd1 := ends.2 } ws
  | .forked _ _ :: ws => vars :: varsAtForks ⟨vars.pipefd0, -1, -1⟩ ws

/-- The variables of the loop for a stage with the given ends of pipes. -/
def stageVars (prev : Option ℕ) (ends : Option (ℕ × ℕ)) : StageVars :=
  ⟨fdVar prev, fdVar (ends.map Prod.fst), fdVar (ends.map Prod.snd)⟩

theorem Stages.ne_nil {F₀ gate : FdTable Fd} {id : ℕ} {prev : Option ℕ} {cmds : List Command} {ws : List Wire}
    (h : Stages F₀ gate id prev cmds ws) : cmds ≠ [] := by
  cases h <;> exact List.cons_ne_nil _ _

/-- **What the `i`-th child inherits.** -/
theorem Stages.stage {F₀ gate : FdTable Fd} {id : ℕ} {prev : Option ℕ} {cmds : List Command} {ws : List Wire}
    (h : Stages F₀ gate id prev cmds ws) {i : ℕ} {T : FdTable Fd} (hT : (tablesOf ws)[i]? = some T) :
    ∃ com prev' ends, cmds[i]? = some com ∧
      FdTable.Stacked F₀ (maybeEnds (id + i + 1) ends ++ (readTable (id + i) prev' ++ gate)) T ∧
      (varsAtForks (stageVars prev none) ws)[i]? = some (stageVars prev' ends) ∧
      (prev' = none ↔ i = 0 ∧ prev = none) ∧ (ends = none ↔ i + 1 = cmds.length) := by
  induction h generalizing i with
  | @last id prev com pid T' hT' =>
    cases i with
    | zero =>
      obtain rfl : T' = T := by simpa [tablesOf] using hT
      exact ⟨com, prev, none, rfl, hT', rfl, by simp, by simp⟩
    | succ i => simp [tablesOf] at hT
  | @next id prev ends com pid T' cmds ws hT' hst ih =>
    cases i with
    | zero =>
      obtain rfl : T' = T := by simpa [tablesOf] using hT
      exact ⟨com, prev, some ends, rfl, hT', rfl, by simp, by simpa using hst.ne_nil⟩
    | succ i =>
      obtain ⟨com', prev', ends', hcom, hstack, hvars, hprev, hends⟩ :=
        ih (i := i) (by simpa [tablesOf] using hT)
      refine ⟨com', prev', ends', hcom, ?_, hvars, ?_, ?_⟩
      · rwa [Nat.add_right_comm id 1 i] at hstack
      · simpa using hprev
      · simpa using hends

/-! ### The descriptors of a stage -/

/-- `x` is one of the descriptors of the event pipe. -/
def OnEvent (eventPipe : Int × Int) (x : ℕ) : Prop := (x : Int) = eventPipe.1 ∨ (x : Int) = eventPipe.2

instance (eventPipe : Int × Int) : DecidablePred (OnEvent eventPipe) := fun x => by unfold OnEvent; infer_instance

/-- What the shell has under `x`, the event pipe aside. -/
def shellDesc (eventPipe : Int × Int) (w : World) (x : ℕ) : Option Desc :=
  if OnEvent eventPipe x then none else descOf w.kernel.fds x

/-- What stage `i` reads from when it has no input file; the pipes of a launch are numbered from that of the gate. -/
def stageInput (w : World) (i : ℕ) : Option Desc :=
  if i = 0 then descOf w.kernel.fds 0 else some (.pipeRead (w.kernel.created + i))

/-- What stage `i` of `n` writes to when it has no output file. -/
def stageOutput (w : World) (n i : ℕ) : Option Desc :=
  if i + 1 = n then descOf w.kernel.fds 1 else some (.pipeWrite (w.kernel.created + i + 1))

/-- The stage `i` of `n` has its pipes on 0 and 1 and no other end of them. -/
structure Plumbed (w : World) (eventPipe : Int × Int) (n i : ℕ) (F : FdTable Fd) : Prop where
  stdin : descOf F 0 = stageInput w i
  stdout : descOf F 1 = stageOutput w n i
  rest : ∀ x, x ≠ 0 → x ≠ 1 → descOf F x = shellDesc eventPipe w x

/-- The event pipe is closed, or is open above the standard descriptors. -/
def EventOpen (eventPipe : Int × Int) (F : FdTable Fd) : Prop :=
  ∀ x, OnEvent eventPipe x → 2 < x ∧ F.IsOpen x

theorem descOf_append {F G : FdTable Fd} {x : ℕ} : descOf (F ++ G) x = (descOf F x).or (descOf G x) := by
  unfold descOf
  rw [FdTable.find_append]
  cases F.find x <;> rfl

theorem descOf_not_open {F : FdTable Fd} {x : ℕ} (h : ¬ F.IsOpen x) : descOf F x = none := by
  simpa [isOpen_iff_desc] using h

theorem descOf_eventShutFds (eventPipe : Int × Int) (F : FdTable Fd) (x : ℕ) :
    descOf (eventShutFds eventPipe F) x = if OnEvent eventPipe x then none else descOf F x := by
  have one : ∀ (v : Int) (G : FdTable Fd), descOf (if v ≥ 0 then G.close v.toNat else G) x =
      if (x : Int) = v then none else descOf G x := by
    intro v G
    split
    · rw [descOf_close]
      exact if_congr (by omega) rfl rfl
    · rw [if_neg (by omega)]
  unfold eventShutFds OnEvent
  dsimp only
  rw [one, one]
  by_cases h₁ : (x : Int) = eventPipe.1 <;> by_cases h₂ : (x : Int) = eventPipe.2 <;> simp [h₁, h₂]

/-- The descriptor `target` is on the file that was opened as `x` since `v`, or where it is without one. -/
def SentTo (v v' : World) (target : ℕ) (base : Option Desc) : Option (Bytes × OpenFlags) → Prop
  | none => descOf v'.kernel.fds target = base
  | some x => ∃ n, descOf v'.kernel.fds target = some (.file n) ∧ Opened x.1 x.2 n v v'

/-- The descriptors in `v'` of stage `i` of `n`, which runs the program of `com`. -/
structure StageWired (w : World) (eventPipe : Int × Int) (n i : ℕ) (com : Command) (v v' : World) : Prop where
  stdin : SentTo v v' 0 (stageInput w i) com.inputOpening
  stdout : SentTo v v' 1 (stageOutput w n i) com.outputOpening
  rest : ∀ x, x ≠ 0 → x ≠ 1 → descOf v'.kernel.fds x = shellDesc eventPipe w x

/-- How stage `i` of `n` ends, which has made the calls `cs` on its way from the gate. -/
def StageEnds (w : World) (eventPipe : Int × Int) (n i : ℕ) (com : Command) (v : World) (cs : List Call)
    (e : ChildEnd) (v' : World) : Prop :=
  e = .exits 1 ∧ ¬ Succeeds cs ∨ e = .execs com.argv ∧ Succeeds cs ∧ StageWired w eventPipe n i com v v'

section Stacked

variable {F₀ F es es₁ es₂ : FdTable Fd} {k x : ℕ} {d : Fd}

theorem stacked_ne (h : FdTable.Stacked F₀ es F) {e : ℕ × Fd} (he : e ∈ es) (hx : F₀.IsOpen x) :
    e.1 ≠ x :=
  fun heq => h.new e he (heq ▸ hx)

/-- What was open is what it was. -/
theorem descOf_stacked (h : FdTable.Stacked F₀ es F) (hx : F₀.IsOpen x) : descOf F x = descOf F₀ x := by
  have hnot : ¬ FdTable.IsOpen es x := by
    intro hm
    obtain ⟨e, he, rfl⟩ := List.mem_map.mp hm
    exact h.new e he hx
  rw [h.eq, descOf_append, descOf_not_open hnot]
  rfl

theorem descOf_stacked_top (h : FdTable.Stacked F₀ (es₁ ++ (k, d) :: es₂) F) : descOf F k = some d.desc := by
  rw [h.eq, descOf_append, descOf_append, descOf_not_open h.not_open.1, descOf_cons, if_pos rfl]
  rfl

end Stacked

section Stage

variable {w v v₁ : World} {eventPipe : Int × Int} {n i id : ℕ} {prev : Option ℕ} {ends : Option (ℕ × ℕ)}
  {E : FdTable Fd} {com : Command} {cs : List Call} {R : World → Prop}

/-- **`redirect_fd`.** -/
theorem wp_redirectFd {fd target : ℕ} {d : Desc} {Q : Int → World → Prop} (hne : fd ≠ target)
    (hd : descOf v.kernel.fds fd = some d)
    (hok : ∀ cs v', Made cs v v' → Succeeds cs → (∀ x, descOf v'.kernel.fds x =
      if x = fd then none else if x = target then some d else descOf v.kernel.fds x) → Q ok v')
    (herr : ∀ r cs v', r ≠ ok → Made cs v v' → ¬ Succeeds cs → Q r v') :
    Prog.wp (redirectFd fd target) Q R v := by
  unfold redirectFd
  rw [if_neg hne, Prog.wp_bind]
  refine wp_retry_dup2 (fun cs d' v₁ h₁ _ hs hd' hf₁ => ?_) fun cs e v₁ h₁ _ he hm _ => ?_
  · simp only [Prog.wp_bind]
    refine wp_close_made fun v₂ h₂ hf₂ => hok _ v₂ (h₁.trans h₂)
      (succeeds_append.mpr ⟨hs, ?_⟩) fun x => ?_
    · simp [Succeeds, Call.FailsStep]
    · have hdesc : d'.desc = d := by simpa [descOf, hd'] using hd
      rw [hf₂, hf₁, descOf_close, descOf_dup2 hd', hdesc]
  · exact herr errDup2 _ v₁ (by decide) h₁ fun hs => hs _ hm he

/-- A redirection to a file. -/
theorem wp_setredirectStream_desc {target : ℕ} {path : Bytes} {flags : OpenFlags} {Q : Int → World → Prop}
    (hopen : v.kernel.fds.IsOpen target)
    (hok : ∀ cs k v', Made cs v v' → Succeeds cs → Opened path flags k v v' →
      (∀ x, descOf v'.kernel.fds x =
      if x = target then some (.file k) else descOf v.kernel.fds x) → Q ok v')
    (herr : ∀ r cs v', r ≠ ok → Made cs v v' → ¬ Succeeds cs → Q r v') :
    Prog.wp (setredirectStream target path flags) Q R v := by
  unfold setredirectStream
  rw [Prog.wp_bind]
  refine wp_openFile (fun v₁ h₁ _ => ?_) fun fd k v₁ h₁ hk hfd hf₁ => ?_
  · exact herr errOpen _ v₁ (by decide) h₁ fun hs => hs _ (List.mem_singleton_self _) trivial
  have hne : fd ≠ target := fun he => hfd (he ▸ hopen)
  have hd : descOf v₁.kernel.fds fd = some (.file k) := by rw [hf₁, descOf_cons, if_pos rfl]
  have hopened : Succeeds [.open_ path flags (some fd)] := by simp [Succeeds, Call.FailsStep]
  simp only [Prog.wp_bind]
  refine wp_redirectFd hne hd (fun cs v₂ h₂ hs hf₂ => ?_) fun r cs v₂ hr h₂ hs => ?_
  · rw [if_neg (by simp)]
    refine hok _ k v₂ (h₁.trans h₂) (succeeds_append.mpr ⟨hopened, hs⟩)
      (hk.between (.refl v) h₂) fun x => ?_
    rw [hf₂]
    by_cases hx : x = fd
    · rw [if_pos hx, hx, if_neg hne, descOf_not_open hfd]
    · rw [if_neg hx, hf₁, descOf_cons, if_neg hx]
  · rw [if_pos hr]
    simp only [if_pos hne, Prog.wp_bind]
    exact wp_close_made fun v₃ h₃ _ => herr errDup2 _ v₃ (by decide) ((h₁.trans h₂).trans h₃) fun hs' =>
      hs (succeeds_append.mp (succeeds_append.mp hs').1).2

/-- One half of `setredirect`. -/
def directTo (target : ℕ) : Option (Bytes × OpenFlags) → Sh Int
  | none => pure ok
  | some x => setredirectStream target x.1 x.2

theorem setredirect_eq (com : Command) : setredirect com = (do
    let r ← directTo 1 com.outputOpening
    if r ≠ ok then pure r else directTo 0 com.inputOpening) := by
  have hout : setredirectOutput com = directTo 1 com.outputOpening := by
    unfold setredirectOutput directTo Command.outputOpening Command.outputFlags
    cases com.redirect.outputFile <;> rfl
  have hin : setredirectInput com = directTo 0 com.inputOpening := by
    unfold setredirectInput directTo Command.inputOpening
    cases com.redirect.inputFile <;> rfl
  unfold setredirect
  rw [hout, hin]

theorem wp_directTo {target : ℕ} {x : Option (Bytes × OpenFlags)} {Q : Int → World → Prop}
    (hopen : v.kernel.fds.IsOpen target)
    (hok : ∀ cs v', Made cs v v' → Succeeds cs → OnFile v v' target x →
      (∀ y, y ≠ target → descOf v'.kernel.fds y = descOf v.kernel.fds y) → Q ok v')
    (herr : ∀ r cs v', r ≠ ok → Made cs v v' → ¬ Succeeds cs → Q r v') :
    Prog.wp (directTo target x) Q R v := by
  cases x with
  | none => exact hok [] v (.refl v) (by simp [Succeeds]) rfl fun _ _ => rfl
  | some x =>
    refine wp_setredirectStream_desc hopen
      (fun cs k v' h hs hk hf => hok cs v' h hs ⟨k, ?_, hk⟩ fun y hy => ?_) herr
    · rw [hf, if_pos rfl]
    · rw [hf, if_neg hy]

theorem SentTo.of_onFile {v₂ v₃ : World} {target : ℕ} {base : Option Desc} {x : Option (Bytes × OpenFlags)}
    {cs cs' : List Call} (h : OnFile v₁ v₂ target x) (hbase : descOf v₁.kernel.fds target = base)
    (hm : Made cs v v₁) (hm' : Made cs' v₂ v₃)
    (hsame : descOf v₃.kernel.fds target = descOf v₂.kernel.fds target) :
    SentTo v v₃ target base x := by
  cases x with
  | none => exact hsame.trans (Eq.trans h hbase)
  | some x =>
    obtain ⟨n, hn, hopened⟩ := h
    exact ⟨n, hsame.trans hn, hopened.between hm hm'⟩

/-- **The redirections of a stage that has its pipes.** -/
theorem wp_childCommand (hp : Plumbed w eventPipe n i v₁.kernel.fds) (h₀ : v₁.kernel.fds.IsOpen 0)
    (h₁ : v₁.kernel.fds.IsOpen 1) (hm : Made cs v v₁) (hcs : Succeeds cs) :
    Prog.wp (childCommand com) (fun e v' => ∃ cs, Made cs v v' ∧
        StageEnds w eventPipe n i com v cs e v') R v₁ := by
  have fails : ∀ {cs₁ v₂}, Made cs₁ v₁ v₂ → ¬ Succeeds cs₁ →
      ∃ cs, Made cs v v₂ ∧ StageEnds w eventPipe n i com v cs (.exits 1) v₂ := fun {cs₁ v₂} hm₁ hs =>
    ⟨_, hm.trans hm₁, Or.inl ⟨rfl, fun h => hs (succeeds_append.mp h).2⟩⟩
  unfold childCommand
  rw [setredirect_eq, Prog.wp_bind, Prog.wp_bind]
  refine wp_directTo h₁ (fun cs₁ v₂ hm₁ hs₁ hf₁ hrest₁ => ?_) fun r cs₁ v₂ hr hm₁ hs₁ => ?_
  · rw [if_neg (by simp)]
    have h₀' : v₂.kernel.fds.IsOpen 0 := by
      rw [isOpen_iff_desc, hrest₁ 0 (by decide)]
      exact isOpen_iff_desc.mp h₀
    refine wp_directTo h₀' (fun cs₂ v₃ hm₂ hs₂ hf₂ hrest₂ => ?_) fun r cs₂ v₃ hr hm₂ hs₂ => ?_
    · rw [if_neg (by simp)]
      refine ⟨_, hm.trans (hm₁.trans hm₂),
        Or.inr ⟨rfl, succeeds_append.mpr ⟨hcs, succeeds_append.mpr ⟨hs₁, hs₂⟩⟩, ?_⟩⟩
      exact ⟨.of_onFile hf₂ ((hrest₁ 0 (by decide)).trans hp.stdin) (hm.trans hm₁) (.refl v₃) rfl,
        .of_onFile hf₁ hp.stdout hm hm₂ (hrest₂ 1 (by decide)),
        fun x hx₀ hx₁ => ((hrest₂ x hx₀).trans (hrest₁ x hx₁)).trans (hp.rest x hx₀ hx₁)⟩
    · rw [if_pos hr]
      exact fails (hm₁.trans hm₂) fun h => hs₂ (succeeds_append.mp h).2
  · rw [if_pos hr, Prog.wp_pure, if_pos hr]
    exact fails hm₁ hs₁

theorem fdVar_toNat (fd : ℕ) : (fdVar (some fd)).toNat = fd := rfl

/-- The pipe from the stage before goes to descriptor 0. -/
theorem wp_stageInput {es : FdTable Fd} {Q : Int → World → Prop}
    (hT : FdTable.Stacked E (es ++ readTable (w.kernel.created + i) prev) v.kernel.fds) (h₀ : E.IsOpen 0)
    (hbase : descOf E 0 = descOf w.kernel.fds 0) (hprev : prev = none ↔ i = 0)
    (hok : ∀ cs v', Made cs v v' → Succeeds cs → (∀ x, descOf v'.kernel.fds x =
      if x = 0 then stageInput w i else descOf (es ++ E) x) → Q ok v')
    (herr : ∀ r cs v', r ≠ ok → Made cs v v' → ¬ Succeeds cs → Q r v') :
    Prog.wp (if fdVar prev ≥ 0 then redirectFd (fdVar prev).toNat 0 else pure ok) Q R v := by
  unfold stageInput at hok
  cases prev with
  | none =>
    rw [if_neg (by simp [fdVar])]
    apply hok [] v (.refl v) (by simp [Succeeds])
    intro x
    rw [if_pos (hprev.mp rfl)]
    split
    · rename_i hx
      rw [hx, descOf_stacked hT h₀, hbase]
    · rw [hT.eq, readTable, List.append_nil]
  | some r =>
    have hi : i ≠ 0 := fun h => by cases hprev.mpr h
    have hr : r ≠ 0 := stacked_ne hT (List.mem_append_right _ (List.mem_singleton_self _)) h₀
    have hclose : v.kernel.fds.close r = es ++ E := by
      have := (@FdTable.Stacked.close Fd E v.kernel.fds r es [] ⟨.pipeRead (w.kernel.created + i), false⟩ hT).eq
      rwa [List.append_nil] at this
    rw [if_pos (by simp [fdVar]), fdVar_toNat]
    refine wp_redirectFd hr (descOf_stacked_top hT) (fun cs v₁ hm hs hf => hok cs v₁ hm hs fun x => ?_) herr
    rw [if_neg hi, hf, ← hclose, descOf_close]
    by_cases hx : x = 0
    · rw [if_neg (by rw [hx]; exact Ne.symm hr), if_pos hx, if_pos hx]
    · simp only [if_neg hx]

/-- The last stage writes where the shell does. -/
theorem plumbed_last {F : FdTable Fd} (hE : ∀ x, descOf E x = shellDesc eventPipe w x)
    (hstd : ¬ OnEvent eventPipe 1) (hn : i + 1 = n)
    (hf : ∀ x, descOf F x = if x = 0 then stageInput w i else descOf E x) : Plumbed w eventPipe n i F where
  stdin := (hf 0).trans (if_pos rfl)
  stdout := by rw [hf, if_neg (by decide), hE, shellDesc, if_neg hstd, stageOutput, if_pos hn]
  rest x hx₀ _ := by rw [hf, if_neg hx₀, hE]

/-- The others have the pipe to the next stage on descriptor 1, and both ends of it closed elsewhere. -/
theorem plumbed_next {F G es : FdTable Fd} {e0 e1 : ℕ}
    (hT : FdTable.Stacked E (endsTable (w.kernel.created + i + 1) (e0, e1) ++ es) F) (h₀ : E.IsOpen 0)
    (h₁ : E.IsOpen 1) (hE : ∀ x, descOf E x = shellDesc eventPipe w x) (hn : i + 1 ≠ n)
    (hf : ∀ x, descOf G x = if x = e0 then none else if x = e1 then none
      else if x = 1 then some (.pipeWrite (w.kernel.created + i + 1)) else if x = 0 then stageInput w i
      else descOf (endsTable (w.kernel.created + i + 1) (e0, e1) ++ E) x) : Plumbed w eventPipe n i G := by
  have he1 : ∀ {x}, E.IsOpen x → x ≠ e1 := fun hx => Ne.symm (stacked_ne hT List.mem_cons_self hx)
  have he0 : ∀ {x}, E.IsOpen x → x ≠ e0 := fun hx =>
    Ne.symm (stacked_ne hT (List.mem_cons_of_mem _ List.mem_cons_self) hx)
  have hnone : ∀ {e}, (∀ {y}, E.IsOpen y → y ≠ e) → shellDesc eventPipe w e = none := fun he => by
    rw [← hE]
    exact descOf_not_open fun ho => he ho rfl
  refine ⟨?_, ?_, fun x hx₀ hx₁ => ?_⟩
  · rw [hf, if_neg (he0 h₀), if_neg (he1 h₀), if_neg (by decide), if_pos rfl]
  · rw [hf, if_neg (he0 h₁), if_neg (he1 h₁), if_pos rfl, stageOutput, if_neg hn]
  · rw [hf]
    by_cases hx0 : x = e0
    · rw [if_pos hx0, hx0, hnone he0]
    · by_cases hx1 : x = e1
      · rw [if_neg hx0, if_pos hx1, hx1, hnone he1]
      · rw [if_neg hx0, if_neg hx1, if_neg hx₁, if_neg hx₀, endsTable, List.cons_append, List.cons_append,
          List.nil_append, descOf_cons, if_neg hx1, descOf_cons, if_neg hx0, hE]

/-- The program of a stage, in its two steps. -/
theorem stageCommand_eq (vars : StageVars) (current : Command) (next : List Command) :
    stageCommand vars current next = (if vars.pipeFd ≥ 0 then redirectFd vars.pipeFd.toNat 0
        else pure ok) >>= fun r =>
      if r ≠ ok then pure (.exits 1)
      else (if next ≠ [] then redirectFd vars.pipefd1.toNat 1 else pure ok) >>= fun r =>
        if r ≠ ok then pure (.exits 1)
        else closeIf vars.pipefd0 >>= fun _ => childCommand current := by
  have ite_bind : ∀ {p : Prop} [Decidable p] (m m' : Sh Int) (f : Int → Sh ChildEnd),
      (if p then m >>= f else m' >>= f) = (if p then m else m') >>= f := fun m m' f => by
    split <;> rfl
  unfold stageCommand
  simp only [ite_bind]

/-- **A stage from the gate to `execvp`.** -/
theorem wp_stageCommand {next : List Command} (hT : FdTable.Stacked E
      (maybeEnds (w.kernel.created + i + 1) ends ++ readTable (w.kernel.created + i) prev) v.kernel.fds)
    (h₀ : E.IsOpen 0) (h₁ : E.IsOpen 1) (hE : ∀ x, descOf E x = shellDesc eventPipe w x)
    (hstd : ¬ OnEvent eventPipe 0 ∧ ¬ OnEvent eventPipe 1) (hprev : prev = none ↔ i = 0)
    (hends : ends = none ↔ i + 1 = n) (hnext : next = [] ↔ ends = none) :
    Prog.wp (stageCommand (stageVars prev ends) com next)
      (fun e v' => ∃ cs, Made cs v v' ∧ StageEnds w eventPipe n i com v cs e v') R v := by
  have hbase₀ : descOf E 0 = descOf w.kernel.fds 0 := by rw [hE, shellDesc, if_neg hstd.1]
  have hbase₁ : descOf E 1 = descOf w.kernel.fds 1 := by rw [hE, shellDesc, if_neg hstd.2]
  have fails : ∀ {cs v₂}, Made cs v v₂ → ¬ Succeeds cs →
      ∃ cs, Made cs v v₂ ∧ StageEnds w eventPipe n i com v cs (.exits 1) v₂ := fun {cs v₂} hm hs =>
    ⟨cs, hm, Or.inl ⟨rfl, hs⟩⟩
  rw [stageCommand_eq, Prog.wp_bind]
  unfold stageVars
  dsimp only
  refine wp_stageInput hT h₀ hbase₀ hprev (fun cs₁ v₁ hm₁ hs₁ hf₁ => ?_)
    fun r cs₁ v₁ hr hm₁ hs₁ => ?_
  swap
  · rw [if_pos hr]
    exact fails hm₁ hs₁
  rw [if_neg (by simp), Prog.wp_bind]
  have hin : (stageInput w i).isSome = true := by
    unfold stageInput
    split
    · rw [← hbase₀, Option.isSome_iff_ne_none]
      exact isOpen_iff_desc.mp h₀
    · rfl
  have h0open : ∀ {F : FdTable Fd}, descOf F 0 = stageInput w i → F.IsOpen 0 := fun h =>
    isOpen_iff_desc.mpr (by rw [h]; exact Option.isSome_iff_ne_none.mp hin)
  cases ends with
  | none =>
    have hp := plumbed_last hE hstd.2 (hends.mp rfl) hf₁
    have h1open : v₁.kernel.fds.IsOpen 1 := by
      rw [isOpen_iff_desc, hf₁, if_neg (by decide)]
      exact isOpen_iff_desc.mp h₁
    rw [if_neg (not_not.mpr (hnext.mpr rfl)), Prog.wp_pure, if_neg (by simp), Prog.wp_bind]
    exact wp_childCommand hp (h0open hp.stdin) h1open hm₁ hs₁
  | some ends =>
    obtain ⟨e0, e1⟩ := ends
    have hn : i + 1 ≠ n := fun h => Option.some_ne_none _ (hends.mpr h)
    have he1 : ∀ {x}, E.IsOpen x → e1 ≠ x := fun hx => stacked_ne hT List.mem_cons_self hx
    have hd1 : descOf v₁.kernel.fds e1 = some (.pipeWrite (w.kernel.created + i + 1)) := by
      rw [hf₁, if_neg (he1 h₀), maybeEnds, endsTable, List.cons_append, descOf_cons, if_pos rfl]
    rw [if_pos fun h => Option.some_ne_none _ (hnext.mp h), Option.map_some, Option.map_some, fdVar_toNat]
    refine wp_redirectFd (he1 h₁) hd1 (fun cs₂ v₂ hm₂ hs₂ hf₂ => ?_)
      fun r cs₂ v₂ hr hm₂ hs₂ => ?_
    · rw [if_neg (by simp), Prog.wp_bind]
      unfold closeIf
      rw [if_pos (by simp [fdVar]), fdVar_toNat]
      apply wp_close_made
      intro v₃ hm₃ hf₃
      have hp : Plumbed w eventPipe n i v₃.kernel.fds := plumbed_next hT h₀ h₁ hE hn fun x => by
        rw [hf₃, descOf_close, hf₂, hf₁]
        rfl
      have h1open : v₃.kernel.fds.IsOpen 1 := by
        rw [isOpen_iff_desc, hp.stdout, stageOutput, if_neg hn]
        simp
      exact wp_childCommand hp (h0open hp.stdin) h1open ((hm₁.trans hm₂).trans hm₃)
        (succeeds_append.mpr ⟨succeeds_append.mpr ⟨hs₁, hs₂⟩, by simp [Succeeds, Call.FailsStep]⟩)
    · rw [if_pos hr]
      exact fails (hm₁.trans hm₂) fun h => hs₂ (succeeds_append.mp h).2

end Stage

/-! ### A whole pipeline -/

/-- The only ends of the launch's pipes that stage `i` of `n` has; the pipe numbered 0 is the gate. -/
structure OnlyEnds (w : World) (n i : ℕ) (com : Command) (v' : World) : Prop where
  read : ∀ x m, descOf v'.kernel.fds x = some (.pipeRead (w.kernel.created + m)) →
    x = 0 ∧ m = i ∧ i ≠ 0 ∧ com.redirect.inputFile = none
  write : ∀ x m, descOf v'.kernel.fds x = some (.pipeWrite (w.kernel.created + m)) →
    x = 1 ∧ m = i + 1 ∧ i + 1 ≠ n ∧ com.redirect.outputFile = none

section Pipeline

variable {w w' : World} {eventPipe : Int × Int}

theorem numbered_desc {k : Kernel} (hn : k.Numbered) {x : ℕ} {d : Desc} (h : descOf k.fds x = some d) :
    d.number < k.created := by
  obtain ⟨fd, hfd, rfl⟩ := Option.map_eq_some_iff.mp h
  obtain ⟨e, he, rfl⟩ := Option.map_eq_some_iff.mp hfd
  exact hn e (List.mem_of_find?_eq_some he)

/-- What is left of the shell's descriptors has no end of the launch's pipes. -/
theorem shellDesc_number (hn : w.kernel.Numbered) {x : ℕ} {d : Desc} (h : shellDesc eventPipe w x = some d) :
    d.number < w.kernel.created := by
  unfold shellDesc at h
  split at h
  · cases h
  · exact numbered_desc hn h

/-- A descriptor that is on no file has not been redirected. -/
theorem SentTo.base {v v' : World} {target : ℕ} {base : Option Desc} {x : Option (Bytes × OpenFlags)} {d : Desc}
    (h : SentTo v v' target base x) (hd : descOf v'.kernel.fds target = some d) (hfile : ∀ k, d ≠ .file k) :
    x = none ∧ base = some d := by
  cases x with
  | none => exact ⟨rfl, h.symm.trans hd⟩
  | some x =>
    obtain ⟨k, hk, -⟩ := h
    rw [hk, Option.some.injEq] at hd
    exact absurd hd.symm (hfile k)

/-- The standard descriptors and the others, when one of them is an end of a pipe of the launch. -/
theorem StageWired.cases {n i : ℕ} {com : Command} {v v' : World} (hn : w.kernel.Numbered)
    (h : StageWired w eventPipe n i com v v') {x m : ℕ} {d : Desc} (hd : descOf v'.kernel.fds x = some d)
    (hm : d.number = w.kernel.created + m) (hfile : ∀ k, d ≠ .file k) :
    x = 0 ∧ com.inputOpening = none ∧ stageInput w i = some d ∨
      x = 1 ∧ com.outputOpening = none ∧ stageOutput w n i = some d := by
  by_cases hx₀ : x = 0
  · subst hx₀
    exact Or.inl ⟨rfl, h.stdin.base hd hfile⟩
  · by_cases hx₁ : x = 1
    · subst hx₁
      exact Or.inr ⟨rfl, h.stdout.base hd hfile⟩
    · rw [h.rest x hx₀ hx₁] at hd
      have := shellDesc_number hn hd
      omega

theorem StageWired.onlyEnds {n i : ℕ} {com : Command} {v v' : World} (hn : w.kernel.Numbered)
    (h : StageWired w eventPipe n i com v v') : OnlyEnds w n i com v' := by
  have old : ∀ {x m d}, descOf w.kernel.fds x = some d → d.number = w.kernel.created + m → False :=
    fun hd hm => by
    have := numbered_desc hn hd
    omega
  constructor
  · intro x m hd
    rcases h.cases hn hd rfl (by simp) with ⟨rfl, hnone, hbase⟩ | ⟨rfl, -, hbase⟩
    · unfold stageInput at hbase
      split at hbase
      · exact (old hbase rfl).elim
      · rename_i hi
        simp only [Option.some.injEq, Desc.pipeRead.injEq] at hbase
        exact ⟨rfl, by omega, hi, Option.map_eq_none_iff.mp hnone⟩
    · unfold stageOutput at hbase
      split at hbase
      · exact (old hbase rfl).elim
      · cases hbase
  · intro x m hd
    rcases h.cases hn hd rfl (by simp) with ⟨rfl, -, hbase⟩ | ⟨rfl, hnone, hbase⟩
    · unfold stageInput at hbase
      split at hbase
      · exact (old hbase rfl).elim
      · cases hbase
    · unfold stageOutput at hbase
      split at hbase
      · exact (old hbase rfl).elim
      · rename_i hi
        simp only [Option.some.injEq, Desc.pipeWrite.injEq] at hbase
        exact ⟨rfl, by omega, hi, Option.map_eq_none_iff.mp hnone⟩

theorem stacked_eventShutFds {F₀ F es : FdTable Fd} (h : FdTable.Stacked F₀ es F)
    (he : EventOpen eventPipe F₀) :
    FdTable.Stacked (eventShutFds eventPipe F₀) es (eventShutFds eventPipe F) := by
  have hnot : ∀ (v : Int), v = eventPipe.1 ∨ v = eventPipe.2 → v ≥ 0 → ¬ FdTable.IsOpen es v.toNat := by
    intro v hv hpos hm
    have hon : OnEvent eventPipe v.toNat := by
      unfold OnEvent
      rw [Int.toNat_of_nonneg hpos]
      exact hv
    obtain ⟨e, hem, hek⟩ := List.mem_map.mp hm
    exact h.new e hem (hek ▸ (he _ hon).2)
  unfold eventShutFds
  dsimp only
  have h' : FdTable.Stacked (if eventPipe.2 ≥ 0 then F₀.close eventPipe.2.toNat else F₀) es
      (if eventPipe.2 ≥ 0 then F.close eventPipe.2.toNat else F) := by
    split
    · rename_i hpos
      exact h.close_base (hnot _ (Or.inr rfl) hpos)
    · exact h
  split
  · rename_i hpos
    exact h'.close_base (hnot _ (Or.inl rfl) hpos)
  · exact h'

/-- What a child that is prepared has left of the descriptors it inherited. -/
theorem stacked_prepared {F₀ T es : FdTable Fd} {plan : LaunchPlan} {id : ℕ} {gate : ℕ × ℕ}
    (h : FdTable.Stacked F₀ (es ++ gateTable id gate) T) (he : EventOpen plan.eventPipe F₀)
    (hr : plan.gateRead = gate.1) (hw : plan.gateWrite = gate.2) :
    FdTable.Stacked (eventShutFds plan.eventPipe F₀) es (plan.tableAt T .prepared) := by
  have h₁ : FdTable.Stacked F₀ (es ++ [(gate.1, ⟨.pipeRead id, true⟩)]) (T.close plan.gateWrite) := by
    rw [hw]
    exact h.close
  have h₂ := (stacked_eventShutFds h₁ he).close
  rw [List.append_nil] at h₂
  unfold LaunchPlan.tableAt
  rw [hr]
  exact h₂

/-- **The wiring of a pipeline** whose launch has succeeded.  When it has, the shell has no end of its pipes.  In every
interleaving of that launch, the variables of the child `i` are those of the loop at its `fork`; when it is prepared it
runs its command or exits with 1, and it runs it with its pipes, its files and no other end of a pipe. -/
theorem pipeline_wired (com : Command) (next : List Command) {w w' : World} (hn : w.kernel.Numbered)
    (h₀ : w.kernel.fds.IsOpen 0) (h₁ : w.kernel.fds.IsOpen 1) {eventPipe : Int × Int}
    (he : EventOpen eventPipe w.kernel.fds) (action : Sig → Disposition)
    (hd : launchChain com next w = .done true w') :
    (∀ x d, descOf w'.kernel.fds x = some d → d.number < w.kernel.created) ∧
    ∀ tr s, LaunchRun com next w eventPipe action tr s → ∀ (i : ℕ)
      (c : Starting), s.children[i]? = some c →
      c.pc = .prepared → ∃ cmd vars, (com :: next)[i]? = some cmd ∧
        (varsAtForks ⟨-1, -1, -1⟩ (wires (logOf (launchChain com next) w)).tail)[i]? = some vars ∧
        ∀ v, v.kernel.fds = c.fds → ∃ e v' cs,
          stageCommand vars cmd ((com :: next).drop (i + 1)) v = .done e v' ∧ Made cs v v' ∧
          StageEnds w eventPipe (next.length + 1) i cmd v cs e v' ∧
          (Succeeds cs → OnlyEnds w (next.length + 1) i cmd v') := by
  obtain ⟨opened, w₁, seg, hd₁, hl⟩ := launchChain_done com next w
  rw [hd] at hd₁
  cases hd₁
  refine ⟨fun x d hx => numbered_desc hn (hl.fds ▸ hx), fun tr s hrun i c hc hpc => ?_⟩
  have hseg := hl.logOf_eq hd
  unfold LaunchRun at hrun
  rw [hseg] at hrun
  obtain ⟨made, ht⟩ := tableInv_run hrun
  obtain ⟨gate, ws, hws, hst⟩ := hl.stages rfl
  -- the table the child has inherited
  have hlt : i < (tablesOf (wires made)).length := by
    rw [← ht.length]
    exact (List.getElem?_eq_some_iff.mp hc).1
  obtain ⟨T, hT⟩ : ∃ T, (tablesOf (wires made))[i]? = some T := ⟨_, List.getElem?_eq_getElem hlt⟩
  have hTws : (tablesOf ws)[i]? = some T := by
    have htables : tablesOf (wires seg) = tablesOf ws := by
      rw [hws]
      rfl
    rw [← htables, ht.split, wires_append, tablesOf_append, List.getElem?_append_left hlt, hT]
  obtain ⟨cmd, prev, ends, hcmd, hstack, hvars, hprev, hends⟩ := hst.stage hTws
  have hfds := (ht.child i c T hc hT).fds (by rw [hpc]; decide)
  rw [hpc] at hfds
  have hgate : (planOf com next w eventPipe action).gateRead = gate.1 ∧
      (planOf com next w eventPipe action).gateWrite = gate.2 := by
    unfold planOf
    rw [hseg, hws]
    exact ⟨rfl, rfl⟩
  have hprepared := @stacked_prepared w.kernel.fds T (maybeEnds (w.kernel.created + i + 1) ends ++
    readTable (w.kernel.created + i) prev) (planOf com next w eventPipe action) w.kernel.created gate
    (by simpa using hstack) he hgate.1 hgate.2
  have hnot : ∀ x, x ≤ 2 → ¬ OnEvent eventPipe x := fun x hx hon => absurd (he x hon).1 (by omega)
  have hE := descOf_eventShutFds eventPipe w.kernel.fds
  have hopen : ∀ x, x ≤ 2 → w.kernel.fds.IsOpen x → (eventShutFds eventPipe w.kernel.fds).IsOpen x :=
    fun x hx ho => by
    rw [isOpen_iff_desc, hE, if_neg (hnot x hx)]
    exact isOpen_iff_desc.mp ho
  refine ⟨cmd, stageVars prev ends, hcmd, ?_, fun v hv => ?_⟩
  · rw [hseg, hws]
    exact hvars
  · have hwp := @wp_stageCommand w v eventPipe (next.length + 1) i prev ends _ cmd (fun _ => False)
      ((com :: next).drop (i + 1)) (by rw [hv, hfds]; exact hprepared) (hopen 0 (by omega) h₀)
        (hopen 1 (by omega) h₁) hE
      ⟨hnot 0 (by omega), hnot 1 (by omega)⟩ (by simpa using hprev) (by simpa using hends) (by
        rw [hends, List.drop_eq_nil_iff]
        have := (List.getElem?_eq_some_iff.mp hcmd).1
        omega)
    obtain ⟨e, v', hdone, cs, hmade, hstage⟩ := Prog.wp_total.mp hwp
    refine ⟨e, v', cs, hdone, hmade, hstage, fun hs => ?_⟩
    rcases hstage with ⟨-, hs'⟩ | ⟨-, -, hwired⟩
    · exact absurd hs hs'
    · exact hwired.onlyEnds hn

end Pipeline

/-- A shell with the standard descriptors and an event pipe. -/
def eventShell : World :=
  { freshShell [] with kernel := { (freshShell []).kernel with
      fds := [(4, ⟨.pipeWrite 1, true⟩), (3, ⟨.pipeRead 1, true⟩), (2, ⟨.file 0, false⟩),
        (1, ⟨.file 0, false⟩),
        (0, ⟨.file 0, false⟩)]
      created := 2 } }

/-- The second child of two comes through the gate and is prepared. -/
def preparing : List StartupAct :=
  List.replicate 16 .parent ++ [.child 1 .closeGateWrite, .child 1 .blockStartupSignals, .child 1 (.setpgid .ok),
    .child 1 .closeEvent, .child 1 (.read (.byte gateByte)), .child 1 .closeGateRead] ++
    List.replicate 7 (.child 1 .resetSignal) ++ [.child 1 .unblock]

/-- The second child then, which has the read end of the pipe. -/
def secondStage : World :=
  { eventShell with kernel := { eventShell.kernel with
      fds := (7, ⟨.pipeRead 3, false⟩) :: eventShell.kernel.fds.drop 2 } }

/-- The second command reads from the first, and has nothing else that the shell has not. -/
theorem preparing_wired :
    ∃ v', stageCommand ⟨7, -1, -1⟩ (wordCommand false [98]) [] secondStage = .done (.execs [[98]]) v' ∧
    StageWired eventShell (3, 4) 2 1 (wordCommand false [98]) secondStage v' := by
  have hd : launchChain (wordCommand true [97]) [wordCommand false [98]] eventShell =
      .done true (launchChain (wordCommand true [97]) [wordCommand false [98]] eventShell).state := by
        decide +kernel
  have hrun : (runFrom (startupStep (planOf (wordCommand true [97]) [wordCommand false [98]] eventShell (3, 4)
      fun _ => .ignored)) (.init (logOf (launchChain (wordCommand true [97]) [wordCommand false [98]]) eventShell))
      preparing).any (fun s => s.children[1]?.any fun c => c.pc = .prepared ∧
        secondStage.kernel.fds = c.fds) = true := by
    decide +kernel
  have hvars : (varsAtForks ⟨-1, -1, -1⟩
    (wires (logOf (launchChain (wordCommand true [97]) [wordCommand false [98]])
      eventShell)).tail)[1]? = some ⟨7, -1, -1⟩ := by decide +kernel
  have hstage : stageCommand ⟨7, -1, -1⟩ (wordCommand false [98]) [] secondStage =
      .done (.execs [[98]]) (stageCommand ⟨7, -1, -1⟩ (wordCommand false [98]) [] secondStage).state := by
        decide +kernel
  obtain ⟨s, hs, hany⟩ := (Option.any_eq_true ..).mp hrun
  obtain ⟨c, hc, hprepared⟩ := (Option.any_eq_true ..).mp hany
  obtain ⟨hpc, hfds⟩ := of_decide_eq_true hprepared
  have hevent : EventOpen (3, 4) eventShell.kernel.fds := by
    rintro x (h | h)
    · obtain rfl : x = 3 := Int.natCast_inj.mp h
      decide
    · obtain rfl : x = 4 := Int.natCast_inj.mp h
      decide
  have hnumbered : eventShell.kernel.Numbered := by
    unfold Kernel.Numbered
    decide
  have hwired := (pipeline_wired (wordCommand true [97]) [wordCommand false [98]]
    (w := eventShell) hnumbered (by decide)
    (by decide) hevent (fun _ => .ignored) hd).2 preparing s (.of_runFrom hs) 1 c hc hpc
  obtain ⟨cmd, vars, hcmd, hvars', hall⟩ := hwired
  obtain rfl : cmd = wordCommand false [98] := by simpa using hcmd.symm
  rw [hvars, Option.some.injEq] at hvars'
  subst hvars'
  obtain ⟨e, v', cs, hdone, -, hends, -⟩ := hall secondStage hfds
  cases hstage.symm.trans hdone
  rcases hends with ⟨he, -⟩ | ⟨-, -, hwired⟩
  · cases he
  · exact ⟨_, hstage, hwired⟩

end MiniShell
