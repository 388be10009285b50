import MiniShell.Spec.Mirror

/-!
# The job table and the children between two calls

`Synced w` — the open entries of the table are those of the children, each lags behind its child at most, and
every job has the status its entries add up to.  `job_reap`, `job_wait_foreground`, `job_continue` and
`job_cleanup_done` keep this, and `Consulted` says of which entries a `job_reap` has asked the kernel, and what it
knows of their children since.
-/

namespace MiniShell

open MiniShell.Lib

/-! ### What is true between two calls -/

/-- The job has no open entry. -/
def Job.Closed (job : Job) : Prop := ∀ process ∈ job.processes, process.status = .done

/-- The entries of the table, with the groups of their jobs. -/
def members (jobs : List Job) : List (Int × Process) := jobs.flatMap Job.members

/-- The end of the child `pid` has been reported. -/
def EndReported (log : List Event) (pid : Int) : Prop :=
  ∃ target opts, ∃ t : Termination, .waited target opts (.report pid t.status) ∈ calls log

/-- The table `jobs` and the kernel agree, but for the status of the jobs. -/
structure Core (jobs : List Job) (k : Kernel) (log : List Event) : Prop where
  mirrored : Mirrored (members jobs) k
  nonempty : ∀ job ∈ jobs, job.processes ≠ []
  pgid : ∀ job ∈ jobs, 0 < job.pgid
  pos : ∀ job ∈ jobs, ∀ process ∈ job.processes, 0 < process.pid
  nodup : ∀ job ∈ jobs, job.pids.Nodup
  apart : jobs.Pairwise fun job job' => job.pgid = job'.pgid → job.Closed ∨ job'.Closed
  ended : ∀ job ∈ jobs, ∀ process ∈ job.processes, process.status = .done → EndReported log process.pid

/-- The table and the kernel agree. -/
structure Synced (w : World) : Prop where
  core : Core w.jobs w.kernel w.log
  status : ∀ job ∈ w.jobs, (jobUpdateStatus job).status = job.status

section Core

variable {jobs js₁ js₂ : List Job} {job job' : Job} {k k' : Kernel} {log log' : List Event}

theorem members_append (jobs jobs' : List Job) : members (jobs ++ jobs') = members jobs ++ members jobs' := by
  simp [members]

/-- The entries of one job, between those of the others. -/
theorem members_around (js₁ js₂ : List Job) (job : Job) :
    members (js₁ ++ job :: js₂) = members js₁ ++ job.members ++ members js₂ := by
  simp [members]

theorem mem_tableMembers {m : Int × Process} :
    m ∈ members jobs ↔ ∃ job ∈ jobs, ∃ process ∈ job.processes, m = (job.pgid, process) := by
  simp only [members, Job.members, List.mem_flatMap, List.mem_map]
  exact ⟨fun ⟨job, hj, process, hp, he⟩ => ⟨job, hj, process, hp, he.symm⟩,
    fun ⟨job, hj, process, hp, he⟩ => ⟨job, hj, process, hp, he.symm⟩⟩

theorem EndReported.mono {pid : Int} (h : EndReported log pid) (hlog : log <+: log') : EndReported log' pid := by
  obtain ⟨target, opts, t, hm⟩ := h
  obtain ⟨seg, rfl⟩ := hlog
  exact ⟨target, opts, t, by simp [hm]⟩

/-- The kernel changes and the table does not. -/
theorem Core.kernel (h : Core jobs k log) (hm : Mirrored (members jobs) k') (hlog : log <+: log') :
    Core jobs k' log' :=
  { h with mirrored := hm, ended := fun job hj process hp hd => (h.ended job hj process hp hd).mono hlog }

/-- **One job of the table is replaced.** -/
theorem Core.replace (h : Core (js₁ ++ job :: js₂) k log) (hlog : log <+: log') (hpgid : job'.pgid = job.pgid)
    (hpids : job'.pids = job.pids) (hclosed : job.Closed → job'.Closed)
    (hm : Mirrored (members (js₁ ++ job' :: js₂)) k')
    (hended : ∀ process ∈ job'.processes, process.status = .done → EndReported log' process.pid) :
    Core (js₁ ++ job' :: js₂) k' log' := by
  have hall : ∀ {P : Job → Prop}, (∀ j ∈ js₁ ++ job :: js₂, P j) → P job' →
      ∀ j ∈ js₁ ++ job' :: js₂, P j := by
    intro P hP hj' j hj
    rcases List.mem_append.mp hj with hj | hj
    · exact hP j (by simp [hj])
    · rcases List.mem_cons.mp hj with rfl | hj
      · exact hj'
      · exact hP j (by simp [hj])
  have hin : job ∈ js₁ ++ job :: js₂ := by simp
  refine ⟨hm, hall h.nonempty ?_, hall h.pgid (hpgid ▸ h.pgid job hin), hall h.pos fun process hp => ?_,
    hall h.nodup (hpids ▸ h.nodup job hin), ?_,
    hall (fun j hj process hp hd => (h.ended j hj process hp hd).mono hlog) hended⟩
  · intro hnil
    have hjob : job.pids = [] := by rw [← hpids, Job.pids, hnil, List.map_nil]
    exact h.nonempty job hin (List.map_eq_nil_iff.mp hjob)
  · have hmem : process.pid ∈ job.pids := hpids ▸ List.mem_map_of_mem hp
    obtain ⟨process₀, hp₀, heq⟩ := List.mem_map.mp hmem
    exact heq ▸ h.pos job hin process₀ hp₀
  · have hapart := h.apart
    rw [List.pairwise_append, List.pairwise_cons] at hapart ⊢
    obtain ⟨h₁, ⟨hjob, h₂⟩, hcross⟩ := hapart
    refine ⟨h₁, ⟨fun j hj heq => ?_, h₂⟩, fun j hj j' hj' => ?_⟩
    · exact (hjob j hj (hpgid ▸ heq)).imp_left hclosed
    · rcases List.mem_cons.mp hj' with rfl | hj'
      · intro heq
        exact (hcross j hj job (by simp) (heq.trans hpgid)).imp_right hclosed
      · exact hcross j hj j' (by simp [hj'])

/-- Nothing regroups a process in the script. -/
def KeepsGroups (script : List Item) : Prop := ∀ pid pgid, .env (.regroup pid pgid) ∉ script

theorem KeepsGroups.stays {script used rest : List Item} (h : KeepsGroups script) (hsplit : script = used ++ rest) :
    (∀ e ∈ envs used, e.Stays) ∧ KeepsGroups rest := by
  subst hsplit
  refine ⟨fun e he => ?_, fun pid pgid hm => h pid pgid (by simp [hm])⟩
  have hmem : ∀ l : List Item, e ∈ envs l → .env e ∈ l := by
    intro l
    induction l with
    | nil => simp [envs]
    | cons x l ih =>
      cases x with
      | env e' =>
        intro hm
        rcases List.mem_cons.mp hm with rfl | hm
        · simp
        · simp [ih hm]
      | res c => exact fun hm => by simp [ih hm]
  cases e with
  | regroup pid pgid => exact h pid pgid (List.mem_append_left _ (hmem used he))
  | _ => trivial

/-- **What happens outside while the script goes on.** -/
theorem Core.drift {w : World} {used rest : List Item} (h : Core jobs w.kernel w.log)
    (hes : ∀ e ∈ envs used, e.Stays) : Core jobs (w.drift used rest).kernel (w.drift used rest).log :=
  h.kernel (h.mirrored.happens hes) (by rw [drift_log]; exact List.prefix_append ..)

end Core

/-! ### What a child has done since it was asked for -/

/-- The event changes the state of the child `pid`. -/
def Env.Changes (pid : Int) : Env → Prop
  | .terminate p _ => p = pid
  | .stop p _ => p = pid
  | .resume p => p = pid
  | _ => False

def Event.Changes (pid : Int) : Event → Prop
  | .env e => e.Changes pid
  | .call _ _ _ => False

/-- The child `pid` is as before, if it is still there. -/
def Kernel.Same (pid : Int) (k k' : Kernel) : Prop :=
  ∀ c' ∈ k'.children, c'.pid = pid → ∃ c ∈ k.children, c.pid = pid ∧ c.state = c'.state

/-- The child `pid` was asked for in `seg`, and if the call was not interrupted and the child has not changed since, its
entry shows what it does. -/
def SeenSince (pid : Int) (status : ProcessStatus) (k : Kernel) (seg : List Event) : Prop :=
  ∃ pre r k' js post, seg = pre ++ .call (.waited pid reapOpts r) k' js :: post ∧
    (r ≠ .err .EINTR → (∀ e ∈ post, ¬ e.Changes pid) → ∀ c ∈ k.children, c.pid = pid →
      status.Shows c.state)

section SeenSince

variable {k k' k'' : Kernel} {pid : Int}

theorem Kernel.Same.refl (pid : Int) (k : Kernel) : k.Same pid k := fun c hc hpid => ⟨c, hc, hpid, rfl⟩

theorem Kernel.Same.trans (h : k.Same pid k') (h' : k'.Same pid k'') : k.Same pid k'' := by
  intro c hc hpid
  obtain ⟨c', hc', hpid', hs'⟩ := h' c hc hpid
  obtain ⟨c'', hc'', hpid'', hs''⟩ := h c' hc' hpid'
  exact ⟨c'', hc'', hpid'', hs''.trans hs'⟩

/-- The states of other children change. -/
theorem same_update {p : Child → Bool} {f : ChildState → ChildState}
    (hp : ∀ c ∈ k.children, c.pid = pid → p c = false) :
    k.Same pid (k.updateChildren p f) := by
  intro c hc hpid
  obtain ⟨c₀, hc₀, rfl⟩ := Kernel.mem_updateChildren.mp hc
  have hpid₀ : c₀.pid = pid := by split at hpid <;> exact hpid
  refine ⟨c₀, hc₀, hpid₀, ?_⟩
  rw [if_neg (by rw [hp c₀ hc₀ hpid₀]; decide)]

theorem same_happen {e : Env} (he : ¬ e.Changes pid) : k.Same pid (k.happen e) := by
  have other : ∀ q, ¬ q = pid → ∀ c ∈ k.children, c.pid = pid → decide (c.pid = q) = false :=
    fun q hq c _ hpid => decide_eq_false fun heq => hq (heq.symm.trans hpid)
  cases e with
  | terminate q t => exact same_update (other q he)
  | stop q sig => exact same_update (other q he)
  | resume q => exact same_update (other q he)
  | regroup q g =>
    intro c hc hpid
    obtain ⟨c₀, hc₀, rfl⟩ := Kernel.mem_moveChild.mp hc
    exact ⟨c₀, hc₀, by split at hpid <;> exact hpid, by split <;> rfl⟩
  | ttyModes m => exact .refl pid k
  | ttyPgrp g => exact .refl pid k

theorem same_happens {es : List Env} (hes : ∀ e ∈ es, ¬ e.Changes pid) :
    k.Same pid (es.foldl Kernel.happen k) := by
  induction es generalizing k with
  | nil => exact .refl pid k
  | cons e es ih => exact (same_happen (hes e (by simp))).trans (ih fun e' he' => hes e' (by simp [he']))

/-- Another child is collected. -/
theorem same_collect {q : Int} (hq : q ≠ pid) (change : Change) : k.Same pid (k.collect q change) := by
  have other : ∀ c ∈ k.children, c.pid = pid → decide (c.pid = q) = false :=
    fun c _ hpid => decide_eq_false fun heq => hq (heq.symm.trans hpid)
  cases change with
  | ended t => exact fun c hc hpid => ⟨c, (List.mem_filter.mp hc).1, hpid, rfl⟩
  | stopped sig => exact same_update other
  | continued => exact same_update other

theorem SeenSince.later {status : ProcessStatus} {seg more : List Event} (h : SeenSince pid status k seg)
    (hsame : (∀ e ∈ more, ¬ e.Changes pid) → k.Same pid k') : SeenSince pid status k' (seg ++ more) := by
  obtain ⟨pre, r, kk, js, post, rfl, hshows⟩ := h
  refine ⟨pre, r, kk, js, post ++ more, by simp, fun hr hpost c hc hpid => ?_⟩
  obtain ⟨c₀, hc₀, hpid₀, hs⟩ := hsame (fun e he => hpost e (by simp [he])) c hc hpid
  rw [← hs]
  exact hshows hr (fun e he => hpost e (by simp [he])) c₀ hc₀ hpid₀

end SeenSince

/-! ### `job_reap` -/

/-- The entries `ms` have been asked about in what has been logged since `base`. -/
def Consulted (base : List Event) (ms : List (Int × Process)) (w : World) : Prop :=
  ∃ seg, w.log = base ++ seg ∧ ∀ m ∈ ms, m.2.status ≠ .done → SeenSince m.2.pid m.2.status w.kernel seg

section Reap

variable {base : List Event} {js₁ js₂ : List Job} {job : Job} {l₁ l₂ : List Process}
  {process : Process} {w : World}

/-- The entries before an entry are the first ones of the table. -/
theorem members_entry (js₁ js₂ : List Job) (job : Job) (l₁ l₂ : List Process) (process : Process) :
    members (js₁ ++ { job with processes := l₁ ++ process :: l₂ } :: js₂) =
      (members js₁ ++ l₁.map (job.pgid, ·)) ++ (job.pgid, process) ::
        (l₂.map (job.pgid, ·) ++ members js₂) := by
  rw [members_around]
  simp [Job.members]

/-- **One entry is replaced.** -/
theorem Core.entry {k k' : Kernel} {log log' : List Event} {process' : Process}
    (h : Core (js₁ ++ { job with processes := l₁ ++ process :: l₂ } :: js₂) k log) (hlog : log <+: log')
    (ho : process.status ≠ .done) (hpid : process'.pid = process.pid)
    (hm : Mirrored (members (js₁ ++ { job with processes := l₁ ++ process' :: l₂ } :: js₂)) k')
    (hended : process'.status = .done → EndReported log' process'.pid) :
    Core (js₁ ++ { job with processes := l₁ ++ process' :: l₂ } :: js₂) k' log' := by
  refine h.replace hlog rfl ?_ (fun hclosed => absurd (hclosed process (by simp)) ho) hm fun e he hd => ?_
  · simp [Job.pids, hpid]
  · have hold : ∀ e ∈ l₁ ++ process :: l₂, e.status = .done → EndReported log e.pid :=
      h.ended _ (List.mem_append_right _ List.mem_cons_self)
    rcases List.mem_append.mp he with he | he
    · exact (hold e (List.mem_append_left _ he) hd).mono hlog
    · rcases List.mem_cons.mp he with rfl | he
      · exact hended hd
      · exact (hold e (by simp [he]) hd).mono hlog

/-- A child whose change has been collected has nothing more to report. -/
theorem collect_nothing {k : Kernel} {pid : Int} {change : Change} {c : Child}
    (hc : c ∈ (k.collect pid change).children) (hpid : c.pid = pid) : c.state.report reapOpts = none := by
  cases change with
  | ended t => exact absurd hpid (by simpa using (List.mem_filter.mp hc).2)
  | stopped sig =>
    obtain ⟨c₀, -, rfl⟩ := Kernel.mem_updateChildren.mp hc
    have hpid₀ : c₀.pid = pid := by split at hpid <;> exact hpid
    rw [if_pos (by simpa using hpid₀)]
    rfl
  | continued =>
    obtain ⟨c₀, -, rfl⟩ := Kernel.mem_updateChildren.mp hc
    have hpid₀ : c₀.pid = pid := by split at hpid <;> exact hpid
    rw [if_pos (by simpa using hpid₀)]
    rfl

/-- Only the report of an end makes an entry done. -/
theorem endReported_last {change : Change}
    (hd : (processApplyWaitStatus process change.status).status = .done) (w : World) (target : Int)
    (opts : WaitOpts) (pid : Int) :
    EndReported (w.record (.waited target opts (.report pid change.status))).log pid := by
  cases change with
  | ended t => exact ⟨target, opts, t, by simp [World.record]; exact Or.inr rfl⟩
  | stopped sig => simp at hd
  | continued => simp at hd

/-- An entry that is done has no answer to wait for. -/
theorem Consulted.done {ms : List (Int × Process)} {m : Int × Process} (ha : Consulted base ms w)
    (hd : m.2.status = .done) : Consulted base (ms ++ [m]) w := by
  obtain ⟨seg, hseg, hasked⟩ := ha
  refine ⟨seg, hseg, ?_⟩
  intro x hx ho
  rcases List.mem_append.mp hx with hx | hx
  · exact hasked x hx ho
  · rw [List.mem_singleton.mp hx] at ho
    exact absurd hd ho

/-- One more entry has been asked about, and the answer has changed no other child. -/
theorem Consulted.asked {ms : List (Int × Process)} {m : Int × Process} {used rest : List Item} {r : WaitRes}
    {k : Kernel} (ha : Consulted base ms w) (hne : ∀ x ∈ ms, x.2.status ≠ .done → x.2.pid ≠ m.2.pid)
    (hsame : ∀ p, p ≠ m.2.pid → (w.drift used rest).kernel.Same p k)
    (hshows : r ≠ .err .EINTR → m.2.status ≠ .done → ∀ c ∈ k.children, c.pid = m.2.pid →
      m.2.status.Shows c.state) :
    Consulted base (ms ++ [m])
      { ((w.record (.waitpid m.2.pid reapOpts)).drift used rest).record (.waited m.2.pid reapOpts r) with
        kernel := k } := by
  obtain ⟨seg, hseg, hasked⟩ := ha
  have hlog : (((w.record (.waitpid m.2.pid reapOpts)).drift used rest).record
      (.waited m.2.pid reapOpts r)).log =
        base ++ (seg ++ ((.call (.waitpid m.2.pid reapOpts) w.kernel w.jobs :: (envs used).map Event.env) ++
          [.call (.waited m.2.pid reapOpts r) (w.drift used rest).kernel w.jobs])) := by
    simp [World.record, World.drift, World.jobs, hseg]
  refine ⟨_, hlog, ?_⟩
  intro x hx ho
  rcases List.mem_append.mp hx with hx | hx
  · refine (hasked x hx ho).later ?_
    intro hquiet
    refine (same_happens fun e he => ?_).trans (hsame x.2.pid (hne x hx ho))
    exact hquiet (.env e) (by simp [he])
  · obtain rfl := List.mem_singleton.mp hx
    refine ⟨seg ++ (.call (.waitpid x.2.pid reapOpts) w.kernel w.jobs :: (envs used).map Event.env),
      r, _, _, [], by rw [List.append_assoc], ?_⟩
    intro hr _
    exact hshows hr ho

/-- **The round of `job_reap` for one entry.** -/
theorem wp_reapProcess_core
    (h : Core (js₁ ++ { job with processes := l₁ ++ process :: l₂ } :: js₂) w.kernel w.log)
    (hs : KeepsGroups w.script) (ha : Consulted base (members js₁ ++ l₁.map (job.pgid, ·)) w) :
    Prog.wp (reapProcess process) (fun process' w' =>
      Core (js₁ ++ { job with processes := l₁ ++ process' :: l₂ } :: js₂) w'.kernel w'.log ∧
        KeepsGroups w'.script ∧
      Consulted base (members js₁ ++ (l₁ ++ [process']).map (job.pgid, ·)) w') (fun _ => True) w := by
  unfold reapProcess reapProcessWith
  split
  · -- the entry is done, and nobody is asked
    rename_i hd
    refine ⟨h, hs, ?_⟩
    rw [List.map_append, ← List.append_assoc]
    exact ha.done hd
  rename_i ho
  rw [Prog.wp_bind]
  apply wp_waitpid_nohang rfl
  intro used c rest r k ht hpoll
  have hpos : 0 < process.pid := h.pos _ (List.mem_append_right _ List.mem_cons_self) process (by simp)
  have hstay := hs.stays ht.split
  -- the world in which the kernel answers
  have hrecord : Core (js₁ ++ { job with processes := l₁ ++ process :: l₂ } :: js₂)
      (w.record (.waitpid process.pid reapOpts)).kernel (w.record (.waitpid process.pid reapOpts)).log :=
    h.kernel h.mirrored (List.prefix_append ..)
  have hdrift := @Core.drift _ _ used rest hrecord hstay.1
  -- what is left to show of the answer
  have step : ∀ process' k', process'.pid = process.pid →
      (∀ p, p ≠ process.pid → (w.drift used rest).kernel.Same p k') →
      (r ≠ .err .EINTR → process'.status ≠ .done → ∀ c ∈ k'.children, c.pid = process'.pid →
        process'.status.Shows c.state) →
      Consulted base (members js₁ ++ (l₁ ++ [process']).map (job.pgid, ·))
        { ((w.record (.waitpid process.pid reapOpts)).drift used rest).record (.waited process.pid reapOpts r) with
          kernel := k' } := by
    intro process' k' hpid hsame hshows
    have hmir := h.mirrored
    rw [members_entry] at hmir
    rw [List.map_append, ← List.append_assoc, ← hpid]
    refine Consulted.asked (m := (job.pgid, process')) ha ?_ (fun p hp => hsame p (hpid ▸ hp)) hshows
    intro x hx hxo
    rw [hpid]
    exact hmir.entry_unique ho (Or.inl hx) hxo
  have hprefix : ((w.record (.waitpid process.pid reapOpts)).drift used rest).log <+:
      (((w.record (.waitpid process.pid reapOpts)).drift used rest).record (.waited process.pid reapOpts r)).log :=
    List.prefix_append ..
  have hmember : (job.pgid, process) ∈ members
      (js₁ ++ { job with processes := l₁ ++ process :: l₂ } :: js₂) := by
    rw [members_entry]
    simp
  rcases hpoll with hpoll | ⟨hpoll, rfl, rfl⟩
  · rcases Kernel.poll_cases hpoll with ⟨-, rfl, rfl⟩ | ⟨hnone, -, -⟩ |
      ⟨x, change, hx, hnamed, hreport, rfl, rfl⟩
    · exact ⟨hdrift.kernel hdrift.mirrored hprefix, hstay.2, step _ _ rfl (fun p _ => .refl p _)
        fun hr => absurd rfl hr⟩
    · -- the entry is open, and so it has a child
      obtain ⟨c, hc, hpid⟩ := hdrift.mirrored.child hmember ho
      have hfalse := hnone c hc
      simp [Child.named, hpos, hpid] at hfalse
    · have hpid : x.pid = process.pid := by simpa [Child.named, hpos] using hnamed
      rw [hpid] at hprefix step ⊢
      have hmir := hdrift.mirrored
      rw [members_entry] at hmir
      have hmir' := hmir.report ho change
      rw [← members_entry] at hmir'
      have hcore := hdrift.entry hprefix ho (processApplyWaitStatus_pid process change.status) hmir' fun hd => by
        rw [processApplyWaitStatus_pid]
        exact endReported_last hd (w.record
          (.waitpid process.pid reapOpts) |>.drift used rest) process.pid reapOpts process.pid
      have hm : (job.pgid, processApplyWaitStatus process change.status) ∈
          members (js₁ ++ { job with processes := l₁ ++ processApplyWaitStatus process change.status :: l₂ } :: js₂) := by
        rw [members_entry]
        simp
      dsimp only
      rw [Prog.wp_pure, if_pos rfl]
      refine ⟨hcore, hstay.2, step _ _ (processApplyWaitStatus_pid ..) (fun p hp => same_collect hp.symm change)
        fun _ hmo c hc hcp => ?_⟩
      exact (hcore.mirrored.lags _ hm hmo c hc hcp).shows
        (collect_nothing hc (hcp.trans (processApplyWaitStatus_pid ..)))
  · refine ⟨hdrift.kernel hdrift.mirrored hprefix, hstay.2, step _ _ rfl (fun p _ => .refl p _)
      fun _ hmo c hc hcp => ?_⟩
    obtain ⟨-, -, hnothing⟩ := Kernel.poll_none hpoll
    exact (hdrift.mirrored.lags _ hmember hmo c hc hcp).shows (hnothing c hc (by simp [Child.named, hpos, hcp]))

@[simp] theorem members_jobUpdateStatus (job : Job) : (jobUpdateStatus job).members = job.members := by
  simp [Job.members]

/-- The status of a job is brought up to date. -/
theorem Core.updateStatus {k : Kernel} {log : List Event} (h : Core (js₁ ++ job :: js₂) k log) :
    Core (js₁ ++ jobUpdateStatus job :: js₂) k log := by
  refine h.replace (List.prefix_refl _) (jobUpdateStatus_pgid job) (by simp [Job.pids])
    (fun hclosed process hp => hclosed process (by simpa using hp)) ?_ fun process hp => ?_
  · have hm := h.mirrored
    rw [members_around] at hm ⊢
    simpa using hm
  · exact h.ended job (by simp) process (by simpa using hp)

/-- The status that `job_update_status` computes is the one of the entries. -/
theorem jobUpdateStatus_idem {job : Job} (h : job.processes ≠ []) :
    (jobUpdateStatus (jobUpdateStatus job)).status = (jobUpdateStatus job).status :=
  jobUpdateStatus_status_congr (jobUpdateStatus_processes job) (by simpa using h)

/-- **The round of `job_reap` for one job.** -/
theorem wp_reapJob_core (h : Core (js₁ ++ job :: js₂) w.kernel w.log) (hs : KeepsGroups w.script)
    (ha : Consulted base (members js₁) w) :
    Prog.wp (reapJob job) (fun job' w' => Core (js₁ ++ job' :: js₂) w'.kernel w'.log ∧
        KeepsGroups w'.script ∧
      Consulted base (members (js₁ ++ [job'])) w' ∧ (jobUpdateStatus job').status = job'.status)
        (fun _ => True) w := by
  unfold reapJob reapJobWith
  rw [Prog.wp_bind]
  refine Prog.wp_mono (Prog.wp_mapList (fun bs rest w' =>
    Core (js₁ ++ { job with processes := bs ++ rest } :: js₂) w'.kernel w'.log ∧ KeepsGroups w'.script ∧
      Consulted base (members js₁ ++ bs.map (job.pgid, ·)) w')
        (fun bs process rest v hI => ?_) job.processes w ?_)
    (fun bs w' hI => ?_) fun _ h => h
  · obtain ⟨hcore, hscript, hasked⟩ := hI
    refine Prog.wp_mono (wp_reapProcess_core hcore hscript hasked) ?_ fun _ h => h
    intro process' v' hI'
    obtain ⟨hcore', hscript', hasked'⟩ := hI'
    exact ⟨by simpa using hcore', hscript', hasked'⟩
  · exact ⟨h, hs, by simpa using ha⟩
  · obtain ⟨hcore, hscript, hasked⟩ := hI
    rw [List.append_nil] at hcore
    refine ⟨hcore.updateStatus, hscript, ?_, jobUpdateStatus_idem (hcore.nonempty _ (by simp))⟩
    rw [members_append]
    simpa [members, Job.members] using hasked

/-- **`job_reap` keeps the table and the kernel together**, and asks about every open entry. -/
theorem wp_jobReap_synced (h : Synced w) (hs : KeepsGroups w.script) :
    Prog.wp jobReap (fun _ w' => Synced w' ∧ Consulted w.log (members w'.jobs) w') (fun _ => True) w := by
  unfold jobReap
  rw [Prog.wp_get_bind, Prog.wp_bind]
  refine Prog.wp_mono (Prog.wp_mapList (fun bs rest w' => Core (bs ++ rest) w'.kernel w'.log ∧
    KeepsGroups w'.script ∧
    Consulted w.log (members bs) w' ∧ ∀ job ∈ bs, (jobUpdateStatus job).status = job.status)
    (fun bs job rest v hI => ?_) w.jobs w ?_) (fun bs w' hI => ?_) fun _ h => h
  · obtain ⟨hcore, hscript, hasked, hstatus⟩ := hI
    refine Prog.wp_mono (wp_reapJob_core hcore hscript hasked) ?_ fun _ h => h
    intro job' v' hI'
    obtain ⟨hcore', hscript', hasked', hstatus'⟩ := hI'
    refine ⟨by simpa using hcore', hscript', hasked', fun j hj => ?_⟩
    rcases List.mem_append.mp hj with hj | hj
    · exact hstatus j hj
    · rwa [List.mem_singleton.mp hj]
  · exact ⟨h.core, hs, ⟨[], by simp, by simp [members]⟩, by simp⟩
  · obtain ⟨hcore, -, hasked, hstatus⟩ := hI
    rw [List.append_nil] at hcore
    exact ⟨⟨hcore, hstatus⟩, hasked⟩

end Reap

/-! ### `job_wait_foreground` -/

section Wait

variable {js₁ js₂ : List Job} {job : Job} {k : Kernel} {log : List Event} {w : World}

/-- A child in the group of a job that is not finished has its entry in that job. -/
theorem Core.reporter (h : Core (js₁ ++ job :: js₂) k log) (ho : ¬ job.Closed) {c : Child}
    (hc : c ∈ k.children) (hgroup : c.pgid = job.pgid) :
    ∃ l₁ process l₂, job.processes = l₁ ++ process :: l₂ ∧ process.status ≠ .done ∧
      process.pid = c.pid ∧ ∀ p ∈ l₁, p.pid ≠ c.pid := by
  obtain ⟨m, hm, hmo, hpid⟩ := h.mirrored.member hc
  have hmg := h.mirrored.group m hm hmo c hc hpid.symm
  obtain ⟨job₀, hj, process, hp, rfl⟩ := mem_tableMembers.mp hm
  have hopen : ¬ job₀.Closed := fun hclosed => hmo (hclosed process hp)
  have heq : job₀.pgid = job.pgid := hmg.symm.trans hgroup
  have hapart := h.apart
  rw [List.pairwise_append, List.pairwise_cons] at hapart
  obtain ⟨-, ⟨hafter, -⟩, hbefore⟩ := hapart
  obtain rfl : job₀ = job := by
    rcases List.mem_append.mp hj with hj | hj
    · rcases hbefore job₀ hj job (by simp) heq with hclosed | hclosed
      · exact absurd hclosed hopen
      · exact absurd hclosed ho
    · rcases List.mem_cons.mp hj with hj | hj
      · exact hj
      · rcases hafter job₀ hj heq.symm with hclosed | hclosed
        · exact absurd hclosed ho
        · exact absurd hclosed hopen
  obtain ⟨l₁, l₂, hl⟩ := List.append_of_mem hp
  refine ⟨l₁, process, l₂, hl, hmo, hpid, fun p hp₁ heq₁ => ?_⟩
  have hnodup := h.nodup job₀ hj
  rw [Job.pids, hl, List.map_append, List.map_cons] at hnodup
  exact (List.nodup_append.mp hnodup).2.2 p.pid (List.mem_map_of_mem hp₁) process.pid List.mem_cons_self
    (heq₁.trans hpid.symm)

theorem applyToFirst_split {pid : Int} {process : Process} (status : ℕ) {l₁ : List Process}
    (l₂ : List Process) (hpid : process.pid = pid) (h : ∀ p ∈ l₁, p.pid ≠ pid) :
    applyToFirst status pid (l₁ ++ process :: l₂) = l₁ ++ processApplyWaitStatus process status :: l₂ := by
  induction l₁ with
  | nil => rw [List.nil_append, applyToFirst, if_pos hpid, List.nil_append]
  | cons p l₁ ih =>
    rw [List.cons_append, applyToFirst, if_neg (h p (by simp)), ih fun q hq => h q (by simp [hq]), List.cons_append]

/-- A job that runs has an open entry. -/
theorem not_closed_of_running (hne : job.processes ≠ []) (hstatus : (jobUpdateStatus job).status = job.status)
    (hr : job.status ≠ .done) : ¬ job.Closed := fun hclosed =>
  hr (hstatus.symm.trans ((jobUpdateStatus_done hne).mpr hclosed))

/-- A job that is not finished has a child in its group. -/
theorem Core.open_child (h : Core (js₁ ++ job :: js₂) k log) (ho : ¬ job.Closed) :
    ∃ c ∈ k.children, c.pgid = job.pgid := by
  unfold Job.Closed at ho
  push Not at ho
  obtain ⟨process, hp, hpo⟩ := ho
  have hm : (job.pgid, process) ∈ members (js₁ ++ job :: js₂) :=
    mem_tableMembers.mpr ⟨job, by simp, process, hp, rfl⟩
  obtain ⟨c, hc, hpid⟩ := h.mirrored.child hm hpo
  exact ⟨c, hc, h.mirrored.group _ hm hpo c hc hpid⟩

/-- A group has the processes whose children are in it. -/
theorem named_group {g : Int} (hg : 0 < g) (c : Child) : c.named (-g) = true ↔ c.pgid = g := by
  simp [Child.named, show ¬ g < 0 by omega]

/-- Every round of the wait that asks for a further one has used up something. -/
theorem waitRound_decreases : Prog.Decreases waitMeasure (waitRoundWith waitpid) := by
  intro job w job' w' hrun
  have h : Prog.wp (waitRoundWith waitpid job)
      (fun x w' => x.isLeft = true → waitMeasure w' < waitMeasure w) (fun _ => True) w := by
    unfold waitRoundWith
    split
    · exact fun h => by cases h
    rw [Prog.wp_bind]
    refine wp_wait rfl ?_ fun _ _ => trivial
    intro r w'' _ _ hlt
    cases r with
    | report pid status =>
      dsimp only
      split
      · exact fun h => by cases h
      · exact fun _ => hlt (by simp) rfl
    | nothing => exact fun h => by cases h
    | err e =>
      cases e with
      | EINTR => exact fun _ => hlt (by simp) rfl
      | _ => exact fun h => by cases h
  exact Prog.wp_done h hrun rfl

/-- **`job_wait_foreground` keeps the table and the kernel together**: it does not fail, and while it waits there is a
child of the job that has nothing to report. -/
theorem wp_jobWaitForeground_awaits (h : Core (js₁ ++ job :: js₂) w.kernel w.log)
    (hstatus : (jobUpdateStatus job).status = job.status) (hs : KeepsGroups w.script) :
    Prog.wp (jobWaitForeground job) (fun r w' => r.1 = 0 ∧ Core (js₁ ++ r.2 :: js₂) w'.kernel w'.log ∧
      (jobUpdateStatus r.2).status = r.2.status) (fun w' => ∃ c ∈ w'.kernel.children, c.pgid = job.pgid ∧
        c.pid ∈ job.pids ∧ c.state.report WUNTRACED = none) w := by
  have hpgid : 0 < job.pgid := h.pgid job (by simp)
  unfold jobWaitForeground jobWaitForegroundWith
  rw [if_neg (by omega)]
  refine Prog.wp_loop_decreases waitRound_decreases
    (fun job' w' => Core (js₁ ++ job' :: js₂) w'.kernel w'.log ∧
    (jobUpdateStatus job').status = job'.status ∧ KeepsGroups w'.script ∧ job'.pgid = job.pgid ∧
      job'.pids = job.pids)
    ?_ job w ⟨h, hstatus, hs, rfl, rfl⟩
  intro job' v hI
  obtain ⟨hcore, hstatus, hscript, hg, hpids⟩ := hI
  unfold waitRoundWith
  split
  · exact ⟨rfl, hcore, hstatus⟩
  rename_i hr
  rw [not_not] at hr
  have hopen := not_closed_of_running (hcore.nonempty job' (by simp)) hstatus (by rw [hr]; decide)
  have hrecord : Core (js₁ ++ job' :: js₂) (v.record (.waitpid (-job'.pgid) WUNTRACED)).kernel
      (v.record (.waitpid (-job'.pgid) WUNTRACED)).log := hcore.kernel hcore.mirrored (List.prefix_append ..)
  rw [← hg] at hpgid
  rw [Prog.wp_bind]
  refine wp_waitpid rfl (fun used c rest r k ht hpoll => ?_) fun hpoll => ?_
  · have hstay := hscript.stays ht.split
    have hdrift := @Core.drift _ _ used rest hrecord hstay.1
    have hprefix : ((v.record (.waitpid (-job'.pgid) WUNTRACED)).drift used rest).log <+:
        (((v.record (.waitpid (-job'.pgid) WUNTRACED)).drift used rest).record
          (.waited (-job'.pgid) WUNTRACED r)).log :=
      List.prefix_append ..
    rcases Kernel.poll_cases hpoll with ⟨-, rfl, rfl⟩ | ⟨hnone, rfl, rfl⟩ |
      ⟨x, change, hx, hnamed, -, rfl, rfl⟩
    · exact ⟨hdrift.kernel hdrift.mirrored hprefix, hstatus, hstay.2, hg, hpids⟩
    · -- an open entry has a child in the group
      obtain ⟨c, hc, hgroup⟩ := hdrift.open_child hopen
      have hfalse := hnone c hc
      rw [(named_group hpgid c).mpr hgroup] at hfalse
      cases hfalse
    · obtain ⟨l₁, process, l₂, hl, ho, hpid, hbefore⟩ :=
        hdrift.reporter hopen hx ((named_group hpgid x).mp hnamed)
      have hfind : processFind job' x.pid ≠ none := by
        have hpos : 0 < process.pid := hcore.pos job' (by simp) process (by simp [hl])
        unfold processFind
        rw [if_neg (by omega), ne_eq, List.find?_eq_none, not_forall]
        exact ⟨process, by simp [hl, hpid]⟩
      have hjob : job' = { job' with processes := l₁ ++ process :: l₂ } := by rw [← hl]
      have hpids' : (l₁ ++ processApplyWaitStatus process change.status :: l₂).map Process.pid = job.pids := by
        rw [← hpids, Job.pids, hl]
        simp
      rw [hjob] at hdrift
      have hmir := hdrift.mirrored
      rw [members_entry] at hmir
      have hmir' := hmir.report ho change
      rw [← members_entry, hpid] at hmir'
      have hcore' := hdrift.entry hprefix ho (processApplyWaitStatus_pid process change.status) hmir' fun hd => by
        rw [processApplyWaitStatus_pid, hpid]
        exact endReported_last hd _ _ _ x.pid
      dsimp only
      cases hf : processFind job' x.pid with
      | none => exact absurd hf hfind
      | some _ =>
        dsimp only
        rw [Prog.wp_pure, hl, applyToFirst_split _ _ hpid hbefore]
        refine ⟨hcore'.updateStatus, jobUpdateStatus_idem (by simp), hstay.2, by simpa using hg, ?_⟩
        rw [Job.pids, jobUpdateStatus_processes]
        exact hpids'
  · have hstay := hscript.stays (List.append_nil v.script).symm
    have hdrift := @Core.drift _ _ v.script [] hrecord hstay.1
    obtain ⟨-, ⟨c, hc, hnamed⟩, hnothing⟩ := Kernel.poll_none hpoll
    have hgroup := (named_group hpgid c).mp hnamed
    obtain ⟨l₁, process, l₂, hl, -, hpid, -⟩ := hdrift.reporter hopen hc hgroup
    refine ⟨c, hc, hgroup.trans hg, ?_, hnothing c hc hnamed⟩
    rw [← hpids, Job.pids, hl, ← hpid]
    simp

theorem wp_jobWaitForeground_core (h : Core (js₁ ++ job :: js₂) w.kernel w.log)
    (hstatus : (jobUpdateStatus job).status = job.status) (hs : KeepsGroups w.script) :
    Prog.wp (jobWaitForeground job) (fun r w' => Core (js₁ ++ r.2 :: js₂) w'.kernel w'.log ∧
      (jobUpdateStatus r.2).status = r.2.status) (fun _ => True) w :=
  Prog.wp_mono (wp_jobWaitForeground_awaits h hstatus hs) (fun _ _ h => h.2) fun _ _ => trivial

/-! ### `job_continue` -/

/-- A job that is stopped has a child in its group. -/
theorem Core.stopped_child (h : Core (js₁ ++ job :: js₂) k log)
    (hstatus : (jobUpdateStatus job).status = job.status)
    (hs : job.status = .stopped) : k.children.any (Child.named (-job.pgid)) = true := by
  have hin : job ∈ js₁ ++ job :: js₂ := by simp
  obtain ⟨c, hc, hgroup⟩ :=
    h.open_child (not_closed_of_running (h.nonempty job hin) hstatus (by rw [hs]; decide))
  exact List.any_eq_true.mpr ⟨c, hc, (named_group (h.pgid job hin) c).mpr hgroup⟩

theorem resumeProcesses_done (l : List Process) (h : ∀ process ∈ l, process.status = .done) :
    ∀ process ∈ resumeProcesses l, process.status = .done := by
  intro process hp
  obtain ⟨process₀, hp₀, rfl⟩ := List.mem_map.mp hp
  rw [if_neg (by rw [h process₀ hp₀]; decide)]
  exact h process₀ hp₀

/-- The entries that are done after the job was continued were done before. -/
theorem done_of_resumed {l : List Process} {process : Process} (hp : process ∈ resumeProcesses l)
    (hd : process.status = .done) : process ∈ l := by
  obtain ⟨process₀, hp₀, rfl⟩ := List.mem_map.mp hp
  split at hd
  · cases hd
  · rwa [if_neg (by assumption)]

/-- **`job_continue` keeps the table and the kernel together.** -/
theorem wp_jobContinue_core (h : Core (js₁ ++ job :: js₂) w.kernel w.log)
    (hstatus : (jobUpdateStatus job).status = job.status) (hs : KeepsGroups w.script) :
    Prog.wp (jobContinue job) (fun r w' => Core (js₁ ++ r.2 :: js₂) w'.kernel w'.log ∧
      (jobUpdateStatus r.2).status = r.2.status) (fun _ => True) w := by
  unfold jobContinue jobContinueWith
  split
  · exact ⟨h, hstatus⟩
  rename_i hpgid
  split
  · exact ⟨h, hstatus⟩
  rename_i hstopped
  rw [not_not] at hstopped
  rw [Prog.wp_bind]
  refine Prog.wp_mono (Q := fun r w' => r = .ok ∧
    Core (js₁ ++ { job with processes := resumeProcesses job.processes } :: js₂) w'.kernel w'.log) ?_
      (fun r w' hI => ?_)
    fun _ h => h
  · refine Prog.wp_loop_partial (fun _ v => Core (js₁ ++ job :: js₂) v.kernel v.log ∧ KeepsGroups v.script)
      ?_ () w ⟨h, hs⟩
    intro _ v hI
    obtain ⟨hcore, hscript⟩ := hI
    rw [Prog.wp_bind]
    apply wp_syscall
    intro used c rest ht
    have hstay := hscript.stays ht.split
    have hdrift := @Core.drift _ _ used rest hcore hstay.1
    have hany := hdrift.stopped_child hstatus hstopped
    have hkill : (v.drift used rest).kernel.kill (-job.pgid) SIGCONT c =
        (.ok, (v.drift used rest).kernel.updateChildren (Child.named (-job.pgid)) (·.deliver SIGCONT)) := by
      unfold Kernel.kill
      rw [if_pos hany]
    rw [hkill]
    refine ⟨rfl, hdrift.replace (List.prefix_append ..) rfl (resumeProcesses_pids _)
      (fun hclosed => resumeProcesses_done _ hclosed) ?_ fun process hp hd => ?_⟩
    · have hm := hdrift.mirrored
      rw [members_around] at hm ⊢
      exact hm.resume (by omega)
    · exact (hdrift.ended job (by simp) process (done_of_resumed hp hd) hd).mono (List.prefix_append ..)
  · obtain ⟨rfl, hcore⟩ := hI
    exact ⟨hcore.updateStatus, jobUpdateStatus_idem (hcore.nonempty _ (by simp))⟩

end Wait

/-! ### `job_cleanup_done` -/

section Cleanup

variable {jobs : List Job} {k : Kernel} {log : List Event} {w : World}

/-- A finished job has no open entry. -/
theorem openPids_closed {job : Job} (h : job.Closed) : openPids job.members = [] := by
  apply List.eq_nil_iff_forall_not_mem.mpr
  intro p hp
  obtain ⟨m, hm, hmo, -⟩ := mem_openPids.mp hp
  obtain ⟨process, hp, rfl⟩ := List.mem_map.mp hm
  exact hmo (h process hp)

theorem openPids_filter {q : Job → Bool} (hq : ∀ job ∈ jobs, q job = false → job.Closed) :
    openPids (members (jobs.filter q)) = openPids (members jobs) := by
  induction jobs with
  | nil => rfl
  | cons job jobs ih =>
    have hrest := ih fun j hj => hq j (List.mem_cons_of_mem _ hj)
    have hcons : members (job :: jobs) = job.members ++ members jobs :=
      members_append [job] jobs |>.trans (by simp [members])
    rw [hcons, openPids_append, ← hrest]
    cases hqj : q job with
    | true =>
      rw [List.filter_cons_of_pos hqj]
      have hcons' : members (job :: jobs.filter q) = job.members ++ members (jobs.filter q) := by simp [members]
      rw [hcons', openPids_append]
    | false =>
      rw [List.filter_cons_of_neg (by simp [hqj]), openPids_closed (hq job (by simp) hqj), List.nil_append]

/-- Finished jobs are taken out of the table. -/
theorem Core.filter (h : Core jobs k log) {q : Job → Bool} (hq : ∀ job ∈ jobs, q job = false → job.Closed) :
    Core (jobs.filter q) k log where
  mirrored := by
    have hopen := openPids_filter hq
    have hsub : ∀ m ∈ members (jobs.filter q), m ∈ members jobs := by
      intro m hm
      obtain ⟨job, hj, process, hp, rfl⟩ := mem_tableMembers.mp hm
      exact mem_tableMembers.mpr ⟨job, (List.mem_filter.mp hj).1, process, hp, rfl⟩
    exact ⟨h.mirrored.distinct, by rw [hopen]; exact h.mirrored.once, fun p => by rw [hopen]; exact h.mirrored.open_iff p,
      fun m hm => h.mirrored.lags m (hsub m hm), fun m hm => h.mirrored.group m (hsub m hm)⟩
  nonempty job hj := h.nonempty job (List.mem_filter.mp hj).1
  pgid job hj := h.pgid job (List.mem_filter.mp hj).1
  pos job hj := h.pos job (List.mem_filter.mp hj).1
  nodup job hj := h.nodup job (List.mem_filter.mp hj).1
  apart := h.apart.sublist List.filter_sublist
  ended job hj := h.ended job (List.mem_filter.mp hj).1

/-- **`job_cleanup_done` keeps the table and the kernel together.** -/
theorem Synced.cleanup (h : Synced w) : Synced (w.updateManager jobCleanupDone) where
  core := h.core.filter fun job hj hd => by
    have hdone : job.status = .done := by simpa using hd
    exact (jobUpdateStatus_done (h.core.nonempty job hj)).mp ((h.status job hj).trans hdone)
  status job hj := h.status job (List.mem_filter.mp hj).1

end Cleanup

end MiniShell
