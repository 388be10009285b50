import MiniShell.Model.Shell
import MiniShell.Spec.Shutdown

/-!
# Whole runs of the shell

A run is any sequence of what the main loop does: dispatching a command, looking after the children when
`SIGCHLD` has come, and setting the exit status.  The invariant of the runs is that every child is accounted for.
-/

namespace MiniShell

open MiniShell.Lib MiniShellError

/-- What the main loop does between two of its boundaries. -/
inductive Step where
  | command (cmd : Command) (next : List Command)
  | child
  | exitStatus (status : Int)
  deriving DecidableEq

def Step.run : Step → Sh Unit
  | .command cmd next => shellCommand cmd next
  | .child => shellChild
  | .exitStatus status => Prog.modify (World.setExitStatus status)

def runSteps (steps : List Step) : Sh Unit := Prog.forList Step.run steps

/-- A shell that has not started anything yet. -/
structure World.Initial (w : World) : Prop where
  children : w.kernel.children = []
  jobs : w.ctx.jobs = jobmanagerInit
  log : w.log = []

/-- A world that a run has reached at a boundary of the main loop. -/
def Reachable (w : World) : Prop := ∃ w₀ steps, w₀.Initial ∧ runSteps steps w₀ = .done () w

/-- What a run keeps: the children are accounted for, and when every fork was fresh no pid has two entries. -/
structure RunInv (w : World) : Prop where
  accounted : Accounted w.kernel.pids w.jobs
  distinct : ForksFresh w.log → Distinct w.jobs

section

variable {w w' : World}

theorem World.Initial.inv (h : w.Initial) : RunInv w where
  accounted := by
    have hp : w.kernel.pids = [] := by simp [Kernel.pids, h.children]
    have hj : w.jobs = [] := by simp [World.jobs, h.jobs, jobmanagerInit]
    rw [hp, hj]
    exact ⟨by simp, by simp⟩
  distinct _ := by simp [Distinct, World.jobs, h.jobs, jobmanagerInit]

theorem After.inv {K : List Event → Prop} (h : After K w w') (hi : RunInv w) : RunInv w' where
  accounted := h.accounted hi.accounted
  distinct hf := by
    obtain ⟨seg, hseg, -, hd⟩ := h.log
    rw [hseg] at hf
    exact hd (hi.distinct fun p k js hm => hf p k js (List.mem_append_left _ hm))
      fun p k js hm => hf p k js (List.mem_append_right _ hm)

theorem RunInv.setExitStatus (h : RunInv w) (status : Int) : RunInv (w.setExitStatus status) :=
  ⟨h.accounted, h.distinct⟩

/-- `job_reap` and `job_cleanup_done` only look after the jobs. -/
theorem upkeeps_shellChild : Upkeeps shellChild := by
  intro w
  unfold shellChild
  rw [Prog.wp_bind]
  refine Prog.wp_mono (wp_jobReap w) ?_ (fun _ h => h)
  intro _ w₁ h₁
  exact Prog.wp_mono (wp_jobCleanup w₁) (fun _ w₂ h₂ => (h₁.mono fun _ => tame_of_asking).trans h₂)
    (fun _ h => h)

/-- **A step keeps the invariant.** -/
theorem Step.inv (step : Step) (hi : RunInv w) : Prog.wp step.run (fun _ w' => RunInv w') (fun _ => True) w := by
  cases step with
  | command cmd next =>
    show Prog.wp (shellCommand cmd next) _ _ w
    unfold shellCommand
    rw [Prog.wp_bind]
    exact Prog.wp_mono (wp_dispatcherCommand cmd next w) (fun status w₁ h₁ => (h₁.inv hi).setExitStatus _)
      (fun _ _ => trivial)
  | child => exact Prog.wp_mono (upkeeps_shellChild.after w) (fun _ w₁ h₁ => h₁.inv hi) (fun _ _ => trivial)
  | exitStatus status => exact hi.setExitStatus status

/-- **Every reachable world satisfies the invariant.** -/
theorem Reachable.inv (h : Reachable w) : RunInv w := by
  obtain ⟨w₀, steps, h₀, hrun⟩ := h
  have hwp : Prog.wp (runSteps steps) (fun _ w' => RunInv w') (fun _ => True) w₀ :=
    Prog.wp_forList (fun _ w' => RunInv w') (fun step _ _ hi => step.inv hi) steps w₀ h₀.inv
  exact Prog.wp_done hwp hrun

end

/-! ### The accounting of children -/

/-- What is assumed of the kernel: a new pid is neither that of an uncollected child nor that of a group of the
table. -/
def ForksAllowed (seg : List Event) : Prop :=
  ∀ p k js, .call (.fork p) k js ∈ seg → 0 < p → p ∉ k.pids ∧ p ∉ js.map Job.pgid

theorem filter_eq_singleton {l : List Process} (hd : (l.map Process.pid).Nodup) {process : Process}
    (hm : process ∈ l) : l.filter (·.pid == process.pid) = [process] := by
  induction l with
  | nil => simp at hm
  | cons e l ih =>
    obtain ⟨hne, hd⟩ := List.nodup_cons.mp hd
    rcases List.mem_cons.mp hm with rfl | hm
    · rw [List.filter_cons_of_pos (by simp), List.filter_eq_nil_iff.mpr]
      rintro e he heq
      simp only [beq_iff_eq] at heq
      exact hne (heq ▸ List.mem_map_of_mem he)
    · have hpid : e.pid ≠ process.pid := fun heq => hne (heq ▸ List.mem_map_of_mem hm)
      rw [List.filter_cons_of_neg (by simpa using hpid), ih hd hm]

/-- When no pid has two entries, a child has one entry in the whole table. -/
theorem Accounted.unique {pids : List Int} {jobs : List Job} (h : Accounted pids jobs) (hd : Distinct jobs)
    {p : Int} (hp : p ∈ pids) :
    ∃ process, (jobs.flatMap Job.processes).filter (·.pid == p) = [process] ∧ process.status ≠ .done := by
  obtain ⟨job, hj, -, process, hf, hs⟩ := (h.covered p hp).exists_open
  have hmem : process ∈ job.processes.filter (·.pid == p) := by simp [hf]
  obtain ⟨hprocess, hpid⟩ := List.mem_filter.mp hmem
  obtain rfl : process.pid = p := by simpa using hpid
  refine ⟨process, filter_eq_singleton ?_ (List.mem_flatMap.mpr ⟨job, hj, hprocess⟩), hs⟩
  rw [List.map_flatMap]
  exact hd

/-- **The children of the shell are accounted for.**  In every world a run reaches, the newest job that lists a
child has one entry for it, which is not done; when no fork has returned a pid of the table this is the only
entry for it; and when `job_shutdown` returns no child is left. -/
theorem reachable_children_accounted {w : World} (h : Reachable w) :
    Accounted w.kernel.pids w.jobs ∧
    (ForksFresh w.log → ∀ p ∈ w.kernel.pids,
      ∃ process, (w.jobs.flatMap Job.processes).filter (·.pid == p) = [process] ∧ process.status ≠ .done) ∧
    ∀ w', jobShutdown w = .done () w' → w'.kernel.pids = [] :=
  ⟨h.inv.accounted, fun hf _ hp => h.inv.accounted.unique (h.inv.distinct hf) hp,
    fun _ hrun => (Prog.wp_done (wp_jobShutdown w) hrun).children h.inv.accounted⟩

/-- A shell that has just started, with a script for what is to happen. -/
def freshShell (script : List Item) : World where
  kernel := { shellPgrp := 100, children := [], fds := [], created := 0, ttyPgrp := 100, ttyModes := 0 }
  ctx := { running := true, jobs := jobmanagerInit, lastExitStatus := 0, config := ⟨[], 16, 0⟩ }
  term := ⟨100, false, false, 0⟩
  script := script
  log := []

/-- A command of one word. -/
def wordCommand (background : Bool) (word : Bytes) : Command :=
  { argc := 1, argv := [word], background := background, redirect := ⟨none, none, false⟩ }

/-- A pipeline of two is started in the background. -/
def backgroundPipeline : Step := .command (wordCommand true [97]) [wordCommand false [98]]

/-- A shell that has started it. -/
def pipelineWorld : World := (runSteps [backgroundPipeline] (freshShell [])).state

/-- A `fork` that gives no pid of an entry. -/
def Event.forkIsNew : Event → Bool
  | .call (.fork p) _ js => p ∉ js.flatMap Job.pids
  | _ => true

/-- The two children have one entry each, and `job_shutdown` leaves none of them. -/
theorem pipelineWorld_accounted :
    (∀ p ∈ [101, 102], ∃ process, (pipelineWorld.jobs.flatMap Job.processes).filter (·.pid == p) =
      [process] ∧
      process.status ≠ .done) ∧ (jobShutdown pipelineWorld).state.kernel.pids = [] := by
  have hreach : Reachable pipelineWorld :=
    ⟨freshShell [], [backgroundPipeline], ⟨rfl, rfl, rfl⟩, by decide +kernel⟩
  have hpids : pipelineWorld.kernel.pids = [101, 102] := by decide +kernel
  have hfresh : ForksFresh pipelineWorld.log := by
    have h : pipelineWorld.log.all Event.forkIsNew = true := by decide +kernel
    intro p k js hm _
    simpa [Event.forkIsNew] using List.all_eq_true.mp h _ hm
  have hdown : jobShutdown pipelineWorld = .done () (jobShutdown pipelineWorld).state := by decide +kernel
  obtain ⟨-, hunique, hleft⟩ := reachable_children_accounted hreach
  exact ⟨fun p hp => hunique hfresh p (hpids ▸ hp), hleft _ hdown⟩

/-! A pipeline is started in the background, its second process exits and is collected, and the kernel gives its
pid to the next command. -/

def reuseScript : List Item :=
  List.replicate 13 (.res .ok) ++ [.env (.terminate 102 (.exited 0)), .res .ok, .res .ok] ++
    List.replicate 3 (.res .ok) ++ [.res (.pick 102)]

def reuseSteps : List Step := [backgroundPipeline, .child, .command (wordCommand true [99]) []]

/-- The world after these steps. -/
def reuseWorld : World := (runSteps reuseSteps (freshShell reuseScript)).state

theorem reuseWorld_reachable : Reachable reuseWorld :=
  ⟨freshShell reuseScript, reuseSteps, ⟨rfl, rfl, rfl⟩, by decide +kernel⟩

theorem reuseWorld_table :
    reuseWorld.kernel.pids = [101, 102] ∧ reuseWorld.jobs.map Job.pids = [[102], [101, 102]] := by
  decide +kernel

/-- A `fork` that gives no pid of a child or of a group. -/
def Event.forkIsFree : Event → Bool
  | .call (.fork p) k js => p ∉ k.pids ∧ p ∉ js.map Job.pgid
  | _ => true

theorem reuseWorld_forks : ForksAllowed reuseWorld.log := by
  have h : reuseWorld.log.all Event.forkIsFree = true := by decide +kernel
  intro p k js hm _
  simpa [Event.forkIsFree] using List.all_eq_true.mp h _ hm

/-- A child can have two entries in the table. -/
theorem reused_pid_listed_twice : ∃ w, Reachable w ∧ ForksAllowed w.log ∧ ∃ p ∈ w.kernel.pids,
    ¬ ∃ process, (w.jobs.flatMap Job.processes).filter (·.pid == p) = [process] := by
  obtain ⟨hpids, hjobs⟩ := reuseWorld_table
  refine ⟨reuseWorld, reuseWorld_reachable, reuseWorld_forks, 102, by simp [hpids], ?_⟩
  rintro ⟨process, hf⟩
  have hmap : (reuseWorld.jobs.flatMap Job.processes).map Process.pid = [102, 101, 102] := by
    rw [List.map_flatMap, show (fun job => job.processes.map Process.pid) = Job.pids from rfl, List.flatMap_def,
      hjobs]
    rfl
  have hlen := congrArg List.length hf
  rw [← List.countP_eq_length_filter] at hlen
  have hcount : ((reuseWorld.jobs.flatMap Job.processes).map Process.pid).countP (· == 102) = 1 := by
    rw [List.countP_map]
    exact hlen
  rw [hmap] at hcount
  exact absurd hcount (by decide)

end MiniShell
