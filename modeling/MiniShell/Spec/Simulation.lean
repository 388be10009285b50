import MiniShell.Spec.Atomic
import MiniShell.Spec.Bystander
import MiniShell.Spec.Record
import MiniShell.Spec.Representation
import MiniShell.Spec.Synced

/-!
# The table simulates the kernel

* `TableAct` — what can happen: something outside, a launch, a foreground wait, a continuation, `job_reap`, the
  clean-up; `Synced.step` says that each keeps the table and the kernel together;
* **`table_simulates`** — in every run, after a `job_reap` in which no child changes once it has been asked
  about, the table shows the kernel, and the clean-up that follows removes the jobs whose children have terminated.
-/

namespace MiniShell

open MiniShell.Lib

/-! ### Launching -/

/-- Every child with an open entry is in the group of its job. -/
def World.InGroups (w : World) : Prop :=
  ∀ job ∈ w.jobs, ∀ process ∈ job.processes, process.status ≠ .done →
  ∀ c ∈ w.kernel.children, c.pid = process.pid → c.pgid = job.pgid

section Launch

variable {com : Command} {w w' : World} {script : List Item}

theorem members_cons (job : Job) (jobs : List Job) : members (job :: jobs) = job.members ++ members jobs := by
  simp [members]

theorem World.InGroups.group (h : w.InGroups) : ∀ m ∈ members w.jobs, m.2.status ≠ .done →
    ∀ c ∈ w.kernel.children, c.pid = m.2.pid → c.pgid = m.1 := by
  intro m hm
  obtain ⟨job, hj, process, hp, rfl⟩ := mem_tableMembers.mp hm
  exact h job hj process hp

/-- A launch that fails leaves the table and the children as they were. -/
theorem Synced.undone (h : Synced w) (hu : Undone com { w with script := script } w.jobs w')
    (ht : Tended (members w.jobs) w'.kernel) (hg : w'.InGroups) : Synced w' := by
  obtain ⟨n, -, hctx⟩ := hu.ctx
  have hjobs : w'.jobs = w.jobs := by simp [World.jobs, hctx]
  have hpids : w'.kernel.pids = w.kernel.pids := hu.pids
  have hlog : w.log <+: w'.log := by
    obtain ⟨seg, hseg, -⟩ := hu.log
    exact ⟨seg, hseg.symm⟩
  have hgroup := hg.group
  rw [hjobs] at hgroup
  refine ⟨?_, by rw [hjobs]; exact h.status⟩
  rw [hjobs]
  exact h.core.kernel ⟨by rw [hpids]; exact h.core.mirrored.distinct, h.core.mirrored.once,
    fun p => by rw [hpids]; exact h.core.mirrored.open_iff p, ht.lags, hgroup⟩ hlog

/-- The entries of a new job are open. -/
theorem openPids_new (n : ℕ) (pgid : Int) (c : Bytes) (ps : List Int) :
    openPids (Job.members { Job.new n pgid c with processes := ps.map Process.new }) = ps := by
  induction ps with
  | nil => rfl
  | cons p ps ih => exact congrArg (p :: ·) ih

/-- **A launch that succeeds** adds a job whose entries are those of the new children. -/
theorem Synced.launched {pgid : Int} {ps : List Int} (h : Synced w)
    (hl : Launched com { w with script := script } pgid ps w') (ht : Tended (members w.jobs) w'.kernel)
    (hg : w'.InGroups) (hfree : ∀ c ∈ w.kernel.children, c.pgid ≠ pgid) : Synced w' := by
  obtain ⟨n, m, c, -, hctx⟩ := hl.ctx
  have hjobs : w'.jobs = { Job.new n pgid c with processes := ps.map Process.new } :: w.jobs := by
    simp only [World.jobs, hctx]
  have hpids : w'.kernel.pids = w.kernel.pids ++ ps := hl.pids
  have hlog : w.log <+: w'.log := by
    obtain ⟨seg, hseg, -⟩ := hl.log
    exact ⟨seg, hseg.symm⟩
  have hgroup := hg.group
  rw [hjobs] at hgroup
  have hne : ps ≠ [] := by
    intro hnil
    have hlead := hl.leader
    rw [hnil] at hlead
    cases hlead
  have hlead : pgid ∈ ps := List.mem_of_head? hl.leader
  have hopen : openPids (members ({ Job.new n pgid c with processes := ps.map Process.new } :: w.jobs)) =
      ps ++ openPids (members w.jobs) := by
    rw [members_cons, openPids_append, openPids_new]
  have hold : ∀ p ∈ openPids (members w.jobs), p ∈ w.kernel.pids := fun p => (h.core.mirrored.open_iff p).mp
  refine ⟨?_, ?_⟩
  · rw [hjobs]
    refine ⟨⟨?_, ?_, fun p => ?_, fun m hm hmo x hx hpid => ?_, hgroup⟩, ?_, ?_, ?_, ?_, ?_, ?_⟩
    · rw [hpids]
      exact h.core.mirrored.distinct.append hl.nodup fun p hp hps => hl.fresh p hps hp
    · rw [hopen]
      exact hl.nodup.append h.core.mirrored.once fun p hps hp => hl.fresh p hps (hold p hp)
    · rw [hopen, hpids, List.mem_append, List.mem_append, h.core.mirrored.open_iff, or_comm]
    · rw [members_cons] at hm
      rcases List.mem_append.mp hm with hm | hm
      · obtain ⟨process, hprocess, rfl⟩ := List.mem_map.mp hm
        obtain ⟨p, hp, rfl⟩ := List.mem_map.mp hprocess
        replace hpid : x.pid = p := hpid
        exact ht.others x hx fun hxp => hl.fresh p hp (hold p (hpid ▸ hxp))
      · exact ht.lags m hm hmo x hx hpid
    · intro job hj
      rcases List.mem_cons.mp hj with rfl | hj
      · simpa using hne
      · exact h.core.nonempty job hj
    · intro job hj
      rcases List.mem_cons.mp hj with rfl | hj
      · exact hl.pos pgid hlead
      · exact h.core.pgid job hj
    · intro job hj process hprocess
      rcases List.mem_cons.mp hj with rfl | hj
      · obtain ⟨p, hp, rfl⟩ := List.mem_map.mp hprocess
        exact hl.pos p hp
      · exact h.core.pos job hj process hprocess
    · intro job hj
      rcases List.mem_cons.mp hj with rfl | hj
      · simpa [Job.pids, Function.comp_def, Process.new] using hl.nodup
      · exact h.core.nodup job hj
    · refine List.pairwise_cons.mpr ⟨fun job hj heq => Or.inr fun process hp => ?_, h.core.apart⟩
      -- an open entry would have a child in the new group
      by_contra hd
      have hm : (job.pgid, process) ∈ members w.jobs := mem_tableMembers.mpr ⟨job, hj, process, hp, rfl⟩
      obtain ⟨x, hx, hpid⟩ := h.core.mirrored.child hm hd
      exact hfree x hx ((h.core.mirrored.group _ hm hd x hx hpid).trans heq.symm)
    · intro job hj process hp hd
      rcases List.mem_cons.mp hj with rfl | hj
      · obtain ⟨p, -, rfl⟩ := List.mem_map.mp hp
        cases hd
      · exact (h.core.ended job hj process hp hd).mono hlog
  · rw [hjobs]
    intro job hj
    rcases List.mem_cons.mp hj with rfl | hj
    · refine jobUpdateStatus_running.mpr (Or.inr ?_)
      exact ⟨Process.new pgid, List.mem_map_of_mem hlead, rfl⟩
    · exact h.status job hj

end Launch

/-! ### Runs -/

/-- What happens to the table and the children of a shell: something outside, a launch, a foreground wait for the job at
position `i`, its continuation, `job_reap` and `job_cleanup_done`.  Each call meets a script of its own. -/
inductive TableAct : World → World → Prop where
  | happens {w : World} (e : Env) (he : e.Stays) :
      TableAct w { w with kernel := w.kernel.happen e, log := w.log ++ [.env e] }
  | launchesSingle {w w' : World} {script : List Item} {com : Command} {r : Except Int (Int × Bool)}
      (hrun : launchSingle com { w with script := script } = .done r w') (hgroups : w'.InGroups)
      (hfree : ∀ x, r = .ok x → ∀ c ∈ w.kernel.children, c.pgid ≠ x.1) : TableAct w w'
  | launchesPipeline {w w' : World} {script : List Item} {com : Command} {next : List Command}
      {r : Except Int (Launch × Bool)} (hrun : launchPipeline com next { w with script := script } = .done r w')
      (hgroups : w'.InGroups) (hfree : ∀ x, r = .ok x → ∀ c ∈ w.kernel.children, c.pgid ≠
        x.1.pgid) : TableAct w w'
  | waits {w w' : World} {script : List Item} {i : ℕ} {job : Job} {r : Int × Job} (hi : w.jobs[i]? = some job)
      (hs : KeepsGroups script) (hrun : jobWaitForeground job { w with script := script } = .done r w') :
      TableAct w (w'.updateJob i fun _ => r.2)
  | continues {w w' : World} {script : List Item} {i : ℕ} {job : Job} {r : Int × Job}
    (hi : w.jobs[i]? = some job)
      (hs : KeepsGroups script) (hrun : jobContinue job { w with script := script } = .done r w') :
      TableAct w (w'.updateJob i fun _ => r.2)
  | reaps {w w' : World} {script : List Item} (hs : KeepsGroups script)
      (hrun : jobReap { w with script := script } = .done () w') : TableAct w w'
  | cleans {w : World} : TableAct w (w.updateManager jobCleanupDone)

section Runs

variable {w₀ w w' : World} {script : List Item}

/-- The job at position `i` is replaced by what a call has made of it. -/
theorem Synced.put {i : ℕ} {job : Job} {m : Sh (Int × Job)} {r : Int × Job} (h : Synced w)
    (hi : w.jobs[i]? = some job) (hctx : Prog.Keeps World.ctx m) (hrun : m { w with script := script } = .done r w')
    (hwp : ∀ js₁ js₂, Core (js₁ ++ job :: js₂) w.kernel w.log →
      (jobUpdateStatus job).status = job.status →
      Prog.wp m (fun r w' => Core (js₁ ++ r.2 :: js₂) w'.kernel w'.log ∧
        (jobUpdateStatus r.2).status = r.2.status)
        (fun _ => True) { w with script := script }) : Synced (w'.updateJob i fun _ => r.2) := by
  obtain ⟨hlt, hget⟩ := List.getElem?_eq_some_iff.mp hi
  have hsplit : w.jobs = w.jobs.take i ++ job :: w.jobs.drop (i + 1) := by
    rw [← hget, List.getElem_cons_drop, List.take_append_drop]
  have hcore := h.core
  rw [hsplit] at hcore
  obtain ⟨hcore', hstatus⟩ := Prog.wp_done (hwp _ _ hcore (h.status job (List.mem_of_getElem? hi))) hrun
  have hjobs : w'.jobs = w.jobs := by
    have hkeeps := hctx { w with script := script }
    rw [hrun, Outcome.state_done] at hkeeps
    simp only [World.jobs, hkeeps]
  have hnew : (w'.updateJob i fun _ => r.2).jobs = w.jobs.take i ++ r.2 :: w.jobs.drop (i + 1) := by
    have : (w'.updateJob i fun _ => r.2).jobs = w'.jobs.modify i fun _ => r.2 := rfl
    rw [this, hjobs, List.modify_eq_take_cons_drop hlt]
  refine ⟨by rw [hnew]; exact hcore', fun j hj => ?_⟩
  rw [hnew] at hj
  rcases List.mem_append.mp hj with hj | hj
  · exact h.status j (List.mem_of_mem_take hj)
  · rcases List.mem_cons.mp hj with rfl | hj
    · exact hstatus
    · exact h.status j (List.mem_of_mem_drop hj)

/-- **What happens keeps the table and the kernel together.** -/
theorem Synced.step (h : Synced w) (hact : TableAct w w') : Synced w' := by
  cases hact with
  | happens e he => exact ⟨h.core.kernel (h.core.mirrored.happen he) (List.prefix_append ..), h.status⟩
  | @launchesSingle _ script com r hrun hgroups hfree =>
    have htended := Prog.wp_done (minds_launchSingle com { w with script := script } h.core.mirrored.tended) hrun
    have hspec := Prog.wp_done (@wp_launchSingle (fun _ => True) com { w with script := script }) hrun
    cases r with
    | error e => exact h.undone hspec.2 htended hgroups
    | ok x => exact h.launched hspec.2 htended hgroups (hfree x rfl)
  | @launchesPipeline _ script com next r hrun hgroups hfree =>
    have htended := Prog.wp_done (minds_launchPipeline com next
      { w with script := script } h.core.mirrored.tended) hrun
    have hspec := Prog.wp_done (@wp_launchPipeline (fun _ => True) com next { w with script := script }) hrun
    cases r with
    | error e => exact h.undone hspec.2 htended hgroups
    | ok x => exact h.launched hspec.2.2.2 htended hgroups (hfree x rfl)
  | @waits _ _ _ job _ hi hs hrun =>
    have hctx := closed_jobWaitForeground (K := fun _ m => Prog.Keeps World.ctx m) sameCtx_tty.toClosed job
    exact h.put hi hctx hrun fun js₁ js₂ hcore hstatus => wp_jobWaitForeground_core hcore hstatus hs
  | @continues _ _ _ job _ hi hs hrun =>
    have hctx := closed_jobContinue (K := fun _ m => Prog.Keeps World.ctx m) sameCtx_tty.toClosed job
    exact h.put hi hctx hrun fun js₁ js₂ hcore hstatus => wp_jobContinue_core hcore hstatus hs
  | @reaps _ script hs hrun =>
    have hsynced : Synced { w with script := script } := ⟨h.core, h.status⟩
    exact (Prog.wp_done (wp_jobReap_synced hsynced hs) hrun).1
  | cleans => exact h.cleanup

/-- A shell without jobs and children. -/
theorem synced_start (hjobs : w.jobs = []) (hchildren : w.kernel.children = []) : Synced w := by
  refine ⟨?_, by rw [hjobs]; simp⟩
  rw [hjobs]
  refine ⟨⟨?_, by simp [members, openPids], fun p => ?_, by simp [members], by simp [members]⟩,
    by simp, by simp, by simp,
    by simp, .nil, by simp⟩
  · simp [Kernel.pids, hchildren]
  · simp [members, openPids, Kernel.pids, hchildren]

theorem synced_run (h : Synced w₀) (hrun : Relation.ReflTransGen TableAct w₀ w) : Synced w := by
  induction hrun with
  | refl => exact h
  | tail _ hact ih => exact ih.step hact

end Runs

/-! ### After `job_reap` -/

/-- No call of `job_reap` is interrupted: a `waitpid` with `WNOHANG` does not sleep. -/
def Uninterrupted (seg : List Event) : Prop := ∀ pid, .waited pid reapOpts (.err .EINTR) ∉ calls seg

/-- No child changes between its own `waitpid` and the end. -/
def Undisturbed (seg : List Event) : Prop :=
  ∀ pre pid r k js post, seg = pre ++ .call (.waited pid reapOpts r) k js :: post →
    ∀ e ∈ post, ¬ e.Changes pid

/-- The job has a child that has not terminated. -/
def Job.Alive (k : Kernel) (job : Job) : Prop :=
  ∃ process ∈ job.processes, process.status ≠ .done ∧ ∃ c ∈ k.children, c.pid = process.pid ∧
    ∀ t, c.state ≠ .zombie t

/-- **The table shows the kernel.** -/
structure World.Reflects (w : World) : Prop where
  /-- an entry is done and the end of its child was reported, or it shows what its child does -/
  entry : ∀ job ∈ w.jobs, ∀ process ∈ job.processes,
    (process.status = .done ∧ EndReported w.log process.pid) ∨
      ∃ c ∈ w.kernel.children, c.pid = process.pid ∧ process.status.Shows c.state
  /-- a child has one entry that is not done -/
  child : ∀ c ∈ w.kernel.children, ∃ process,
    ((w.jobs.flatMap Job.processes).filter fun e => e.status != .done && e.pid == c.pid) = [process]
  /-- a job has the status its entries add up to -/
  status : ∀ job ∈ w.jobs, job.status = aggregate job.processes
  /-- the clean-up that follows removes the jobs all of whose children have terminated -/
  cleanup : ∀ job, job ∈ (jobCleanupDone w.ctx.jobs).head ↔ job ∈ w.jobs ∧ job.Alive w.kernel

section Reflects

variable {w₀ w w' : World} {script : List Item}

/-- Of the entries with different pids, one has the pid. -/
theorem filter_pid_singleton {l : List Process} (hnodup : (l.map Process.pid).Nodup) {p : Int}
    (hp : p ∈ l.map Process.pid) : ∃ process, l.filter (·.pid == p) = [process] := by
  have hmap : (l.filter (·.pid == p)).map Process.pid = [p] := by
    have hfun : (fun e : Process => e.pid == p) = (· == p) ∘ Process.pid := rfl
    rw [hfun, ← List.filter_map, List.filter_beq, List.count_eq_one_of_mem hnodup hp]
    rfl
  cases hl : l.filter (·.pid == p) with
  | nil =>
    rw [hl] at hmap
    cases hmap
  | cons process rest =>
    rw [hl, List.map_cons] at hmap
    obtain rfl : rest = [] := List.map_eq_nil_iff.mp (List.cons.inj hmap).2
    exact ⟨process, rfl⟩

/-- The open entries, without the groups of their jobs. -/
theorem openPids_members (jobs : List Job) :
    openPids (members jobs) = ((jobs.flatMap Job.processes).filter fun e => e.status != .done).map Process.pid := by
  have hmap : (members jobs).map Prod.snd = jobs.flatMap Job.processes := by
    simp [members, Job.members, List.map_flatMap, Function.comp_def]
  rw [← hmap, List.filter_map, List.map_map]
  rfl

/-- When every entry has been asked about, and nothing has changed since, the table shows the kernel. -/
theorem Synced.reflects {seg : List Event} (h : Synced w) {base : List Event}
    (ha : Consulted base (members w.jobs) w) (hlog : w.log = base ++ seg) (hreap : Uninterrupted seg)
    (hquiet : Undisturbed seg) : w.Reflects := by
  obtain ⟨seg', hseg', hsince⟩ := ha
  obtain rfl : seg' = seg := List.append_cancel_left (hseg'.symm.trans hlog)
  have hshows : ∀ m ∈ members w.jobs, m.2.status ≠ .done →
      ∃ c ∈ w.kernel.children, c.pid = m.2.pid ∧ m.2.status.Shows c.state := by
    intro m hm hmo
    obtain ⟨c, hc, hpid⟩ := h.core.mirrored.child hm hmo
    obtain ⟨pre, r, k, js, post, hsplit, hs⟩ := hsince m hm hmo
    refine ⟨c, hc, hpid, hs ?_ (hquiet pre _ r k js post hsplit) c hc hpid⟩
    rintro rfl
    exact hreap m.2.pid (by rw [hsplit]; simp)
  have hentry : ∀ job ∈ w.jobs, ∀ process ∈ job.processes, process.status ≠ .done →
      ∃ c ∈ w.kernel.children, c.pid = process.pid ∧ process.status.Shows c.state :=
    fun job hj process hp ho => hshows (job.pgid, process) (mem_tableMembers.mpr ⟨job, hj, process, hp, rfl⟩) ho
  refine ⟨fun job hj process hp => ?_, fun c hc => ?_, fun job hj => ?_, fun job => ?_⟩
  · by_cases hd : process.status = .done
    · exact Or.inl ⟨hd, h.core.ended job hj process hp hd⟩
    · exact Or.inr (hentry job hj process hp hd)
  · have honce := h.core.mirrored.once
    have hmem := (h.core.mirrored.open_iff c.pid).mpr (List.mem_map_of_mem hc)
    rw [openPids_members] at honce hmem
    obtain ⟨process, hfilter⟩ := filter_pid_singleton honce hmem
    refine ⟨process, ?_⟩
    rw [List.filter_filter] at hfilter
    rw [← hfilter]
    exact List.filter_congr fun e _ => Bool.and_comm ..
  · rw [← h.status job hj]
    have hne : (jobUpdateStatus job).processes ≠ [] := by
      rw [jobUpdateStatus_processes]
      exact h.core.nonempty job hj
    rw [jobUpdateStatus_aggregate hne, jobUpdateStatus_processes]
  · unfold jobCleanupDone
    rw [List.mem_filter]
    apply and_congr_right
    intro hj
    rw [bne_iff_ne, ← h.status job hj, ne_eq, jobUpdateStatus_done (h.core.nonempty job hj)]
    constructor
    · intro hopen
      push Not at hopen
      obtain ⟨process, hp, ho⟩ := hopen
      obtain ⟨c, hc, hpid, hs⟩ := hentry job hj process hp ho
      refine ⟨process, hp, ho, c, hc, hpid, fun t ht => ?_⟩
      rw [ht] at hs
      cases hst : process.status <;> rw [hst] at hs <;> exact hs
    · rintro ⟨process, hp, ho, -⟩ hall
      exact ho (hall process hp)

/-- **The table simulates the kernel at every reap.** -/
theorem table_simulates (hjobs : w₀.jobs = []) (hchildren : w₀.kernel.children = [])
    (hrun : Relation.ReflTransGen TableAct w₀ w) (hgroups : KeepsGroups script)
    (hreap : jobReap { w with script := script } = .done () w')
    (hcalls : Uninterrupted (logOf jobReap { w with script := script }))
    (hquiet : Undisturbed (logOf jobReap { w with script := script })) : w'.Reflects := by
  have hsynced := synced_run (synced_start hjobs hchildren) hrun
  have hstart : Synced { w with script := script } := ⟨hsynced.core, hsynced.status⟩
  obtain ⟨hend, hconsulted⟩ := Prog.wp_done (wp_jobReap_synced hstart hgroups) hreap
  refine hend.reflects hconsulted ?_ hcalls hquiet
  obtain ⟨seg, hseg, -⟩ := hconsulted
  unfold logOf
  rw [hreap, Outcome.state_done, hseg, List.drop_left]

end Reflects

/-! ### A run -/

/-- The call was interrupted. -/
def Call.isInterrupted : Call → Bool
  | .waited _ _ r => r == .err .EINTR
  | _ => false

theorem uninterrupted_of_all {seg : List Event} (h : (calls seg).all (fun c => !c.isInterrupted) = true) :
    Uninterrupted seg := by
  intro pid hm
  have hc := List.all_eq_true.mp h _ hm
  simp [Call.isInterrupted] at hc

/-- No event changes a child. -/
def Event.changesNobody : Event → Bool
  | .env (.terminate _ _) => false
  | .env (.stop _ _) => false
  | .env (.resume _) => false
  | _ => true

/-- The event is the answer of a `waitpid`. -/
def Event.isAnswer : Event → Bool
  | .call (.waited _ _ _) _ _ => true
  | _ => false

/-- When no child changes after the first answer, none changes after its own. -/
theorem undisturbed_of_all {seg : List Event}
    (h : (seg.dropWhile fun e => !e.isAnswer).all Event.changesNobody = true) : Undisturbed seg := by
  intro pre pid r k js post hsplit e he hchanges
  have hmem : e ∈ seg.dropWhile fun e => !e.isAnswer := by
    rw [hsplit, List.dropWhile_append]
    split
    · rw [List.dropWhile_cons_of_neg (by simp [Event.isAnswer])]
      exact List.mem_cons_of_mem _ he
    · simp [he]
  have hnobody := List.all_eq_true.mp h e hmem
  cases e with
  | call c k' js' => exact hchanges
  | env e =>
    cases e with
    | terminate p t => cases hnobody
    | stop p sig => cases hnobody
    | resume p => cases hnobody
    | regroup p g => exact hchanges
    | ttyModes m => exact hchanges
    | ttyPgrp g => exact hchanges

/-- `&` after a word: a command in the background. -/
def backgroundWord : Command :=
  { argc := 1, argv := [[97]], background := true, redirect := ⟨none, none, false⟩ }

/-- A shell without jobs. -/
def bareWorld : World where
  kernel := { shellPgrp := 100, children := [], fds := [], created := 0, ttyPgrp := 100, ttyModes := 0 }
  ctx := { running := true, jobs := jobmanagerInit, lastExitStatus := 0, config := ⟨[], 16, 0⟩ }
  term := ⟨100, false, false, 0⟩
  script := []
  log := []

/-- The shell after a command was started in the background. -/
def launchedWorld : World := (launchSingle backgroundWord bareWorld).state

/-- The command is stopped before it is asked for. -/
def stoppedScript : List Item := [.env (.stop 101 SIGTSTP)]

theorem launchedWorld_reflects : ∃ w', jobReap { launchedWorld with script := stoppedScript } = .done () w' ∧
    w'.jobs.map Job.status = [.stopped] ∧ w'.Reflects := by
  have hgroups : launchedWorld.InGroups := by
    intro job hj process hp _ c hc _
    have hall : launchedWorld.jobs.all (fun job => launchedWorld.kernel.children.all
        fun c => c.pgid == job.pgid) = true := by
      decide +kernel
    have hc := List.all_eq_true.mp (List.all_eq_true.mp hall job hj) c hc
    simpa using hc
  have hact : TableAct bareWorld launchedWorld := @TableAct.launchesSingle bareWorld launchedWorld [] backgroundWord
    (.ok (101, false)) (by decide +kernel) hgroups fun x _ c hc => absurd hc List.not_mem_nil
  have hscript : KeepsGroups stoppedScript := fun pid pgid hm => by simp [stoppedScript] at hm
  refine ⟨(jobReap { launchedWorld with script := stoppedScript }).state,
    by decide +kernel, by decide +kernel, ?_⟩
  exact table_simulates rfl rfl (.single hact) hscript (by decide +kernel)
    (uninterrupted_of_all (by decide +kernel)) (undisturbed_of_all (by decide +kernel))

end MiniShell
