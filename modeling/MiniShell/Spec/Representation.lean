import MiniShell.Lib.Pointwise
import MiniShell.Model.JobTable
import MiniShell.Model.Dispatcher

/-!
# The representation of the job table

Every state that the functions of `job.c` reach, whatever the kernel reports and whichever calls fail: the ids
decrease along the list and are never used twice, the entries stand in the order in which they were added, and the
status of a job is the one its entries add up to.  An entry that is `PROCESS_DONE` stays so as long as the kernel
reports nothing more about a child that it has declared gone.
-/

namespace MiniShell

open MiniShell.Lib

/-! ### What the kernel has told -/

/-- The answer declares `pid` gone: it reports the termination, or `waitpid(pid, ..)` has failed with `ECHILD`. -/
def Told.ends (t : Told) (pid : Int) : Bool :=
  match t.answer with
  | .report p status => p == pid && (WIFEXITED status || WIFSIGNALED status)
  | .err .ECHILD => t.target == pid
  | _ => false

def Gone (told : List Told) (pid : Int) : Prop := ∃ t ∈ told, t.ends pid = true

instance (told : List Told) (pid : Int) : Decidable (Gone told pid) := by unfold Gone; infer_instance

/-- Nothing is reported about a child that has been declared gone. -/
def Consistent (told : List Told) : Prop :=
  ∀ pre t post pid status, told = pre ++ t :: post → t.answer = .report pid status → ¬ Gone pre pid

theorem Gone.mono {told told' : List Told} {pid : Int} (h : Gone told pid) (hp : told <+: told') :
    Gone told' pid := by
  obtain ⟨t, ht, he⟩ := h
  exact ⟨t, hp.subset ht, he⟩

theorem Consistent.of_prefix {told told' : List Told} (h : Consistent told') (hp : told <+: told') :
    Consistent told := by
  obtain ⟨l, rfl⟩ := hp
  intro pre t post pid status ht hr
  exact h pre t (post ++ l) pid status (by simp [ht]) hr

theorem Consistent.not_gone {told told' : List Told} (h : Consistent told') {t : Told} {pid : Int} {status : ℕ}
    (hp : told ++ [t] <+: told') (ht : t.answer = .report pid status) : ¬ Gone told pid :=
  (h.of_prefix hp) told t [] pid status rfl ht

/-- Consistency, checked report by report. -/
theorem consistent_of_all {told : List Told} (h : ((List.range told.length).all fun i => match told[i]? with
    | some ⟨_, .report pid _⟩ => !decide (Gone (told.take i) pid)
    | _ => true) = true) : Consistent told := by
  rintro pre ⟨target, answer⟩ post pid status rfl rfl
  have hi := List.all_eq_true.mp h pre.length (by simp)
  simpa using hi

/-! ### Entries and jobs -/

/-- The status that entries add up to. -/
def aggregate (processes : List Process) : JobStatus :=
  if ∃ p ∈ processes, p.status = .running then .running
  else if ∃ p ∈ processes, p.status = .stopped then .stopped
  else .done

/-- A job with entries has the status they add up to, and one without entries still has its first status. -/
structure Job.Aggregated (job : Job) : Prop where
  entries : job.processes ≠ [] → job.status = aggregate job.processes
  empty : job.processes = [] → job.status = .running

theorem jobUpdateStatus_aggregate {job : Job} (h : (jobUpdateStatus job).processes ≠ []) :
    (jobUpdateStatus job).status = aggregate (jobUpdateStatus job).processes := by
  rw [jobUpdateStatus_processes] at h ⊢
  unfold jobUpdateStatus aggregate
  rw [if_neg h]
  simp only [List.any_eq_true, beq_iff_eq]
  split
  · rfl
  · split <;> rfl

/-- A report leaves an entry `PROCESS_DONE` only if it reports the termination, or the entry was before. -/
theorem processApplyWaitStatus_done {process : Process} {status : ℕ}
    (h : (processApplyWaitStatus process status).status = .done) :
    (WIFEXITED status || WIFSIGNALED status) = true ∨ process.status = .done := by
  unfold processApplyWaitStatus at h
  dsimp only at h
  split at h
  · exact Or.inl (by assumption)
  · split at h
    · cases h
    · split at h
      · cases h
      · exact Or.inr h

/-- What happens to an entry while the kernel goes on telling. -/
structure EntryStep (told told' : List Told) (process process' : Process) : Prop where
  pid : process'.pid = process.pid
  gone : process'.status = .done → process.status = .done ∨ Gone told' process.pid
  kept : Consistent told' → Gone told process.pid → process.status = .done → process'.status = .done

namespace EntryStep

variable {told told' told'' : List Told} {process process' process'' : Process}

theorem refl (told told' : List Told) (process : Process) : EntryStep told told' process process :=
  ⟨rfl, Or.inl, fun _ _ h => h⟩

theorem earlier (hp : told <+: told') (h : EntryStep told' told'' process process') :
    EntryStep told told'' process process' :=
  ⟨h.pid, h.gone, fun hc hg => h.kept hc (hg.mono hp)⟩

theorem later (h : EntryStep told told' process process') (hp : told' <+: told'') :
    EntryStep told told'' process process' :=
  ⟨h.pid, fun hd => (h.gone hd).imp_right fun hg => hg.mono hp, fun hc => h.kept (hc.of_prefix hp)⟩

theorem trans (h : EntryStep told told' process process') (h' : EntryStep told' told'' process' process'')
    (hp : told <+: told') (hp' : told' <+: told'') : EntryStep told told'' process process'' where
  pid := h'.pid.trans h.pid
  gone hd := by
    rcases h'.gone hd with hd | hg
    · exact (h.later hp').gone hd
    · exact Or.inr (h.pid ▸ hg)
  kept hc hg hd := h'.kept hc (h.pid ▸ hg.mono hp) (h.kept (hc.of_prefix hp') hg hd)

/-- A report is stored in the entry of its pid. -/
theorem report {target : Int} {status : ℕ} :
    EntryStep told (told ++ [⟨target, .report process.pid status⟩]) process
      (processApplyWaitStatus process status)
    where
  pid := processApplyWaitStatus_pid ..
  gone hd := by
    rcases processApplyWaitStatus_done hd with he | hd
    · refine Or.inr ⟨⟨target, .report process.pid status⟩, by simp, ?_⟩
      simpa [Told.ends] using he
    · exact Or.inl hd
  kept hc hg _ := absurd hg (hc.not_gone (List.prefix_refl _) rfl)

end EntryStep

/-- What happens to a job while the kernel goes on telling. -/
structure JobStep (told told' : List Told) (job job' : Job) : Prop where
  id : job'.id = job.id
  pgid : job'.pgid = job.pgid
  command : job'.command = job.command
  entries : List.Forall₂ (EntryStep told told') job.processes job'.processes
  aggregated : job.Aggregated → job'.Aggregated

namespace JobStep

variable {told told' told'' : List Told} {job job' job'' : Job}

theorem refl (told told' : List Told) (job : Job) : JobStep told told' job job :=
  ⟨rfl, rfl, rfl, List.forall₂_same.mpr fun _ _ => .refl .., fun h => h⟩

theorem earlier (hp : told <+: told') (h : JobStep told' told'' job job') : JobStep told told'' job job' :=
  ⟨h.id, h.pgid, h.command, h.entries.imp fun _ _ => .earlier hp, h.aggregated⟩

theorem later (h : JobStep told told' job job') (hp : told' <+: told'') : JobStep told told'' job job' :=
  ⟨h.id, h.pgid, h.command, h.entries.imp fun _ _ h => h.later hp, h.aggregated⟩

/-- The entries have been replaced, and the status has been computed again. -/
theorem of_entries {processes : List Process} (h : List.Forall₂ (EntryStep told told') job.processes processes) :
    JobStep told told' job (jobUpdateStatus { job with processes := processes }) := by
  refine ⟨jobUpdateStatus_id .., jobUpdateStatus_pgid .., ?_, by rwa [jobUpdateStatus_processes], fun ha =>
    ⟨jobUpdateStatus_aggregate, fun hnil => ?_⟩⟩
  · unfold jobUpdateStatus
    repeat' split
    all_goals rfl
  · rw [jobUpdateStatus_processes] at hnil
    obtain rfl : processes = [] := hnil
    have hempty : job.processes = [] := List.forall₂_nil_right_iff.mp h
    exact ha.empty hempty

theorem trans (h : JobStep told told' job job') (h' : JobStep told' told'' job' job'') (hp : told <+: told')
    (hp' : told' <+: told'') : JobStep told told'' job job'' where
  id := h'.id.trans h.id
  pgid := h'.pgid.trans h.pgid
  command := h'.command.trans h.command
  entries := forall₂_comp (fun _ _ _ h₁ h₂ => h₁.trans h₂ hp hp') h.entries h'.entries
  aggregated ha := h'.aggregated (h.aggregated ha)

theorem pids (h : JobStep told told' job job') : job'.pids = job.pids :=
  forall₂_map_eq (fun _ _ h => h.pid) h.entries

end JobStep

/-! ### The functions -/

/-- Only the kernel has been asked. -/
structure Desk.Asked (d d' : Desk) : Prop where
  manager : d'.manager = d.manager
  added : d'.added = d.added
  told : d.told <+: d'.told

theorem Desk.Asked.refl (d : Desk) : Desk.Asked d d := ⟨rfl, rfl, List.prefix_refl _⟩

theorem Desk.Asked.trans {d d' d'' : Desk} (h : Desk.Asked d d') (h' : Desk.Asked d' d'') : Desk.Asked d d'' :=
  ⟨h'.manager.trans h.manager, h'.added.trans h.added, h.told.trans h'.told⟩

section Functions

variable {d : Desk}

theorem wp_deskWait {target : Int} {opts : WaitOpts} {Q : WaitRes → Desk → Prop}
    (h : ∀ r rs, d.waits = r :: rs → Q r { d with waits := rs, told := d.told ++ [⟨target, r⟩] }) :
    Prog.wp (Desk.wait target opts) Q (fun _ => True) d := by
  unfold Prog.wp Desk.wait
  cases hw : d.waits with
  | nil => trivial
  | cons r rs => exact h r rs hw

theorem wp_deskSignal {target : Int} {sig : Sig} {Q : Res → Desk → Prop}
    (h : ∀ r rs, d.kills = r :: rs → Q r { d with kills := rs }) :
    Prog.wp (Desk.signal target sig) Q (fun _ => True) d := by
  unfold Prog.wp Desk.signal
  cases hk : d.kills with
  | nil => trivial
  | cons r rs => exact h r rs hk

theorem wp_reapProcessWith (process : Process) (d : Desk) :
    Prog.wp (reapProcessWith Desk.wait process) (fun process' d' => d.Asked d' ∧
      EntryStep d.told d'.told process process') (fun _ => True) d := by
  unfold reapProcessWith
  split
  · exact ⟨.refl d, .refl ..⟩
  · rename_i hd
    rw [Prog.wp_bind]
    apply wp_deskWait
    intro r rs _
    have ha : d.Asked { d with waits := rs, told := d.told ++ [⟨process.pid, r⟩] } :=
      ⟨rfl, rfl, List.prefix_append ..⟩
    split
    · have hends : Told.ends ⟨process.pid, .err .ECHILD⟩ process.pid = true := by simp [Told.ends]
      exact ⟨ha, rfl, fun _ => Or.inr ⟨_, by simp, hends⟩, fun _ _ h => absurd h hd⟩
    · exact ⟨ha, .refl ..⟩
    · exact ⟨ha, .refl ..⟩
    · rename_i pid status
      rw [Prog.wp_pure]
      refine ⟨ha, ?_⟩
      dsimp only
      split
      · rename_i hpid
        subst hpid
        exact .report
      · exact .refl ..

theorem wp_reapJobWith (job : Job) (d : Desk) :
    Prog.wp (reapJobWith Desk.wait job) (fun job' d' => d.Asked d' ∧ JobStep d.told d'.told job job')
      (fun _ => True) d := by
  unfold reapJobWith
  rw [Prog.wp_bind]
  refine Prog.wp_mono (Prog.wp_mapList_forall₂ Desk.Asked (fun d d' => EntryStep d.told d'.told) Desk.Asked.refl
    Desk.Asked.trans (fun h h' => h'.earlier h.told) (fun h h' => h.later h'.told) wp_reapProcessWith _ d)
    ?_ (fun _ h => h)
  intro processes d' h
  exact ⟨h.1, .of_entries h.2⟩

theorem wp_reapJobsWith (jobs : List Job) (d : Desk) :
    Prog.wp (reapJobsWith Desk.wait jobs) (fun jobs' d' => d.Asked d' ∧
      List.Forall₂ (JobStep d.told d'.told) jobs jobs') (fun _ => True) d :=
  Prog.wp_mapList_forall₂ Desk.Asked (fun d d' => JobStep d.told d'.told) Desk.Asked.refl Desk.Asked.trans
    (fun h h' => h'.earlier h.told) (fun h h' => h.later h'.told) wp_reapJobWith jobs d

theorem entryStep_applyToFirst {told : List Told} {target pid : Int} {status : ℕ} (processes : List Process) :
    List.Forall₂ (EntryStep told (told ++ [⟨target, .report pid status⟩])) processes
      (applyToFirst status pid processes) := by
  induction processes with
  | nil => exact .nil
  | cons process processes ih =>
    unfold applyToFirst
    split
    · rename_i hpid
      subst hpid
      exact .cons .report (List.forall₂_same.mpr fun _ _ => .refl ..)
    · exact .cons (.refl ..) ih

/-- A round of the wait uses an answer up. -/
theorem wp_waitRoundWith (job : Job) (d : Desk) :
    Prog.wp (waitRoundWith Desk.wait job) (fun x d' => d.Asked d' ∧ match x with
      | .inl job' => JobStep d.told d'.told job job' ∧ d'.waits.length < d.waits.length
      | .inr (_, job') => JobStep d.told d'.told job job') (fun _ => True) d := by
  unfold waitRoundWith
  split
  · exact ⟨.refl d, .refl ..⟩
  · rw [Prog.wp_bind]
    apply wp_deskWait
    intro r rs hw
    have ha : d.Asked { d with waits := rs, told := d.told ++ [⟨-job.pgid, r⟩] } :=
      ⟨rfl, rfl, List.prefix_append ..⟩
    have hlt : rs.length < d.waits.length := by rw [hw]; simp
    split
    · exact ⟨ha, .refl .., hlt⟩
    · exact ⟨ha, .refl ..⟩
    · exact ⟨ha, .refl ..⟩
    · rename_i pid status
      split
      · exact ⟨ha, .refl ..⟩
      · exact ⟨ha, .of_entries (entryStep_applyToFirst _), hlt⟩

theorem wp_jobWaitForegroundWith (job : Job) (d : Desk) :
    Prog.wp (jobWaitForegroundWith Desk.wait (fun d => d.waits.length) job)
      (fun x d' => d.Asked d' ∧ JobStep d.told d'.told job x.2) (fun _ => True) d := by
  unfold jobWaitForegroundWith
  split
  · exact ⟨.refl d, .refl ..⟩
  · refine Prog.wp_loop (fun job' d' => d.Asked d' ∧ JobStep d.told d'.told job job') ?_ job d
      ⟨.refl d, .refl ..⟩
    rintro job' d' ⟨ha, hj⟩
    refine Prog.wp_mono (wp_waitRoundWith job' d') ?_ (fun _ h => h)
    rintro (job'' | ⟨r, job''⟩) d'' ⟨ha', hj'⟩
    · exact ⟨⟨ha.trans ha', hj.trans hj'.1 ha.told ha'.told⟩, hj'.2⟩
    · exact ⟨ha.trans ha', hj.trans hj' ha.told ha'.told⟩

theorem entryStep_resume {told told' : List Told} (processes : List Process) :
    List.Forall₂ (EntryStep told told') processes (resumeProcesses processes) := by
  unfold resumeProcesses
  rw [List.forall₂_map_right_iff, List.forall₂_same]
  intro process _
  split
  · rename_i hs
    refine ⟨rfl, fun hd => ?_, fun _ _ hd => ?_⟩
    · cases hd
    · rw [hs] at hd
      cases hd
  · exact .refl ..

/-- **A `job_continue` that fails changes nothing.** -/
theorem wp_jobContinueWith (job : Job) (d : Desk) :
    Prog.wp (jobContinueWith Desk.signal (fun d => d.kills.length) job)
      (fun x d' => d.Asked d' ∧ JobStep d.told d'.told job x.2 ∧ (x.1 < 0 → x.2 = job))
      (fun _ => True) d := by
  unfold jobContinueWith retryWith
  split
  · exact ⟨.refl d, .refl .., fun _ => rfl⟩
  · split
    · exact ⟨.refl d, .refl .., fun _ => rfl⟩
    · rw [Prog.wp_bind]
      refine Prog.wp_loop (fun _ d' => d.Asked d') ?_ () d (.refl d)
      intro _ d' ha
      rw [Prog.wp_bind]
      apply wp_deskSignal
      intro r rs hk
      have ha' : d.Asked { d' with kills := rs } := ⟨ha.manager, ha.added, ha.told⟩
      split
      · exact ⟨ha', by rw [hk]; simp⟩
      · rw [Prog.wp_pure]
        dsimp only
        split
        · exact ⟨ha', .refl .., fun _ => rfl⟩
        · exact ⟨ha', .of_entries (entryStep_resume _), fun h => absurd h (lt_irrefl 0)⟩

end Functions

/-! ### What a step does -/

/-- The jobs of the table have been looked after, one by one. -/
structure Desk.Refreshed (d d' : Desk) : Prop where
  nextid : d'.manager.nextid = d.manager.nextid
  added : d'.added = d.added
  told : d.told <+: d'.told
  jobs : List.Forall₂ (JobStep d.told d'.told) d.manager.head d'.manager.head

/-- Jobs have been taken out of the table, and nothing else has happened. -/
structure Desk.Shrunk (d d' : Desk) : Prop where
  nextid : d'.manager.nextid = d.manager.nextid
  added : d'.added = d.added
  told : d'.told = d.told
  jobs : d'.manager.head.Sublist d.manager.head

section Steps

variable {fresh : Job → Bool} {d d' : Desk}

theorem Desk.Shrunk.refl (d : Desk) : d.Shrunk d := ⟨rfl, rfl, rfl, List.Sublist.refl _⟩

theorem wp_runOnJob {f : Job → Prog Desk (Int × Job)}
    (hf : ∀ job d, Prog.wp (f job) (fun x d' => d.Asked d' ∧ JobStep d.told d'.told job x.2) (fun _ => True) d)
    (i : ℕ) (d : Desk) :
    Prog.wp (TableOp.runOnJob f i) (fun _ d' => d.Refreshed d' ∨ d.Shrunk d') (fun _ => True) d := by
  unfold TableOp.runOnJob
  rw [Prog.wp_get_bind]
  split
  · exact Or.inr (.refl d)
  · rename_i job hi
    rw [Prog.wp_bind]
    refine Prog.wp_mono (hf job d) (fun x d' h => Or.inl ?_) (fun _ h => h)
    obtain ⟨ha, hj⟩ := h
    refine ⟨show d'.manager.nextid = _ by rw [ha.manager], ha.added, ha.told, ?_⟩
    show List.Forall₂ (JobStep d.told d'.told) d.manager.head (d'.manager.head.set i x.2)
    rw [ha.manager]
    exact forall₂_set (fun _ => .refl ..) hi hj

/-- **What one call can do**: add a job, add an entry to the newest job, look after the jobs, or take some out. -/
theorem tableStep_cases {op : TableOp} (h : tableStep fresh d op = some d') :
    (∃ pgid command, (∃ c m, op = .jobAdd pgid c m) ∧ 0 < pgid ∧
      d' = { d with manager := ⟨Job.new d.manager.nextid pgid command :: d.manager.head, d.manager.nextid + 1⟩ }) ∨
    (∃ pid job jobs, d.manager.head = job :: jobs ∧ fresh job = true ∧
      d' = { d.setJobs ({ job with processes := job.processes ++ [Process.new pid] } :: jobs) with
        added := d.added ++ [(job.id, pid)] }) ∨
    d.Refreshed d' ∨ d.Shrunk d' := by
  unfold tableStep at h
  split at h
  swap
  · cases h
  rename_i hallowed
  have hrun : op.run d = .done () d' := by
    split at h
    · rename_i x d₁ hr
      obtain rfl := Option.some.inj h
      exact hr
    · cases h
  clear h
  have key : ∀ {Q : Desk → Prop}, Prog.wp op.run (fun _ => Q) (fun _ => True) d → Q d' :=
    fun hwp => Prog.wp_done hwp hrun
  cases op with
  | jobAdd pgid command malloc =>
    obtain rfl : TableOp.runJobAdd pgid command malloc d = d' := Outcome.done.inj hrun |>.2
    unfold TableOp.runJobAdd
    split
    · split
      · exact Or.inr (Or.inr (Or.inr (.refl d)))
      · exact Or.inl ⟨pgid, _, ⟨_, _, rfl⟩, by omega, rfl⟩
    · exact Or.inr (Or.inr (Or.inr (.refl d)))
  | processAdd pid malloc =>
    obtain rfl : TableOp.runProcessAdd pid malloc d = d' := Outcome.done.inj hrun |>.2
    unfold TableOp.runProcessAdd
    split
    · rename_i job jobs hh
      split
      · exact Or.inr (Or.inr (Or.inr (.refl d)))
      · refine Or.inr (Or.inl ⟨pid, job, jobs, hh, ?_, rfl⟩)
        simpa [TableOp.allowed, hh] using hallowed
    · exact Or.inr (Or.inr (Or.inr (.refl d)))
  | reap =>
    refine Or.inr (Or.inr (Or.inl (key ?_)))
    show Prog.wp (Prog.get >>= fun d => reapJobsWith Desk.wait d.manager.head >>= fun jobs =>
      Prog.modify (Desk.setJobs jobs)) _ _ d
    rw [Prog.wp_get_bind, Prog.wp_bind]
    refine Prog.wp_mono (wp_reapJobsWith d.manager.head d) ?_ (fun _ h => h)
    intro jobs d' h
    exact ⟨show d'.manager.nextid = _ by rw [h.1.manager], h.1.added, h.1.told, h.2⟩
  | waitForeground i => exact Or.inr (Or.inr (key (wp_runOnJob wp_jobWaitForegroundWith i d)))
  | «continue» i =>
    refine Or.inr (Or.inr (key (wp_runOnJob ?_ i d)))
    intro job d
    exact Prog.wp_mono (wp_jobContinueWith job d) (fun x d' h => ⟨h.1, h.2.1⟩) (fun _ h => h)
  | cleanupDone =>
    obtain rfl : { d with manager := jobCleanupDone d.manager } = d' := Outcome.done.inj hrun |>.2
    exact Or.inr (Or.inr (Or.inr ⟨rfl, rfl, rfl, List.filter_sublist⟩))
  | remove pgid =>
    obtain rfl : { d with manager := jobRemove pgid d.manager } = d' := Outcome.done.inj hrun |>.2
    refine Or.inr (Or.inr (Or.inr ?_))
    show d.Shrunk { d with manager := jobRemove pgid d.manager }
    unfold jobRemove
    split
    · exact .refl d
    · exact ⟨rfl, rfl, rfl, List.eraseP_sublist⟩

end Steps

/-! ### The invariant of the table -/

/-- The pids that have been added to the job `id`, in order. -/
def addedTo (id : ℕ) (added : List (ℕ × Int)) : List Int := (added.filter fun x => x.1 == id).map Prod.snd

/-- Nothing has been reported for the job: its entries are as `process_add` has made them. -/
def Job.untouched (job : Job) : Bool := job.processes.all fun process => process == Process.new process.pid

/-- The table as the functions keep it. -/
structure Desk.Represented (d : Desk) : Prop where
  start : 1 ≤ d.manager.nextid
  decreasing : (d.manager.head.map Job.id).Pairwise (· > ·)
  range : ∀ job ∈ d.manager.head, 1 ≤ job.id ∧ job.id < d.manager.nextid
  pgid : ∀ job ∈ d.manager.head, 0 < job.pgid
  known : ∀ x ∈ d.added, x.1 < d.manager.nextid
  order : ∀ job ∈ d.manager.head, job.pids = addedTo job.id d.added
  aggregated : ∀ job ∈ d.manager.head, job.Aggregated
  gone : ∀ job ∈ d.manager.head, ∀ process ∈ job.processes, process.status = .done →
    Gone d.told process.pid

theorem represented_init (waits : List WaitRes) (kills : List Res) : (Desk.init waits kills).Represented := by
  have hnil : ∀ {P : Job → Prop}, ∀ job ∈ (Desk.init waits kills).manager.head, P job := fun job hj =>
    absurd hj List.not_mem_nil
  exact ⟨le_refl 1, .nil, hnil, hnil, fun x hx => absurd hx List.not_mem_nil, hnil, hnil, hnil⟩

theorem addedTo_append (id : ℕ) (added : List (ℕ × Int)) (x : ℕ × Int) :
    addedTo id (added ++ [x]) = addedTo id added ++ if x.1 = id then [x.2] else [] := by
  unfold addedTo
  rw [List.filter_append, List.map_append]
  congr 1
  by_cases hx : x.1 = id
  · rw [if_pos hx, List.filter_cons_of_pos (by simpa using hx)]
    rfl
  · rw [if_neg hx, List.filter_cons_of_neg (by simpa using hx)]
    rfl

theorem untouched_running {job : Job} (h : job.untouched = true) :
    ∀ process ∈ job.processes, process.status = .running := by
  intro process hp
  have := List.all_eq_true.mp h process hp
  rw [eq_of_beq this]
  rfl

section Invariant

variable {d d' : Desk}

theorem Desk.Represented.jobAdd (h : d.Represented) {pgid : Int} (hp : 0 < pgid) (command : Bytes) :
    Desk.Represented { d with manager :=
      ⟨Job.new d.manager.nextid pgid command :: d.manager.head, d.manager.nextid + 1⟩ } := by
  have hstart := h.start
  refine ⟨by show 1 ≤ d.manager.nextid + 1; omega, ?_, ?_, ?_, fun x hx => Nat.lt_succ_of_lt (h.known x hx), ?_, ?_, ?_⟩
  · refine List.Pairwise.cons ?_ h.decreasing
    intro id hid
    obtain ⟨job, hj, rfl⟩ := List.mem_map.mp hid
    exact (h.range job hj).2
  · refine List.forall_mem_cons.mpr ⟨⟨hstart, Nat.lt_succ_self _⟩, fun job hj => ?_⟩
    exact ⟨(h.range job hj).1, Nat.lt_succ_of_lt (h.range job hj).2⟩
  · exact List.forall_mem_cons.mpr ⟨hp, h.pgid⟩
  · refine List.forall_mem_cons.mpr ⟨?_, h.order⟩
    have hnone : d.added.filter (fun x => x.1 == d.manager.nextid) = [] := by
      apply List.filter_eq_nil_iff.mpr
      intro x hx
      have := h.known x hx
      simp only [beq_iff_eq]
      omega
    show [] = addedTo d.manager.nextid d.added
    rw [addedTo, hnone, List.map_nil]
  · exact List.forall_mem_cons.mpr ⟨⟨fun hne => absurd rfl hne, fun _ => rfl⟩, h.aggregated⟩
  · exact List.forall_mem_cons.mpr ⟨fun process hp => absurd hp List.not_mem_nil, h.gone⟩

theorem Desk.Represented.processAdd (h : d.Represented) {pid : Int} {job : Job} {jobs : List Job}
    (hh : d.manager.head = job :: jobs) (hf : job.untouched = true) :
    Desk.Represented { d.setJobs ({ job with processes := job.processes ++ [Process.new pid] } :: jobs) with
      added := d.added ++ [(job.id, pid)] } := by
  obtain ⟨hstart, hdec, hrange, hpgid, hknown, horder, hagg, hgone⟩ := h
  rw [hh] at hdec hrange hpgid horder hagg hgone
  have hbelow : ∀ j ∈ jobs, j.id < job.id := fun j hj =>
    (List.pairwise_cons.mp hdec).1 j.id (List.mem_map_of_mem hj)
  refine ⟨hstart, hdec, ?_, ?_, ?_, ?_, ?_, ?_⟩
  · exact List.forall_mem_cons.mpr ⟨hrange job (by simp), fun j hj => hrange j (by simp [hj])⟩
  · exact List.forall_mem_cons.mpr ⟨hpgid job (by simp), fun j hj => hpgid j (by simp [hj])⟩
  · intro x hx
    rcases List.mem_append.mp hx with hx | hx
    · exact hknown x hx
    · rw [List.mem_singleton.mp hx]
      exact (hrange job (by simp)).2
  · refine List.forall_mem_cons.mpr ⟨?_, fun j hj => ?_⟩
    · show List.map Process.pid (job.processes ++ [Process.new pid]) = addedTo job.id (d.added ++ [(job.id, pid)])
      rw [addedTo_append, if_pos rfl, List.map_append, ← horder job (by simp)]
      rfl
    · show j.pids = addedTo j.id (d.added ++ [(job.id, pid)])
      have hne : job.id ≠ j.id := (hbelow j hj).ne'
      rw [addedTo_append, if_neg hne, List.append_nil]
      exact horder j (by simp [hj])
  · refine List.forall_mem_cons.mpr ⟨⟨fun _ => ?_, fun hnil => ?_⟩, fun j hj => hagg j (by simp [hj])⟩
    · -- all its entries are running, the new one among them
      have hrun : job.status = .running := by
        by_cases hempty : job.processes = []
        · exact (hagg job (by simp)).empty hempty
        · obtain ⟨p, hp⟩ := List.exists_mem_of_ne_nil _ hempty
          rw [(hagg job (by simp)).entries hempty, aggregate, if_pos ⟨p, hp, untouched_running hf p hp⟩]
      have hnew : ∃ p ∈ job.processes ++ [Process.new pid], p.status = .running :=
        ⟨Process.new pid, by simp, rfl⟩
      show job.status = aggregate (job.processes ++ [Process.new pid])
      rw [aggregate, if_pos hnew, hrun]
    · simp at hnil
  · refine List.forall_mem_cons.mpr ⟨fun process hp hd => ?_, fun j hj => hgone j (by simp [hj])⟩
    rcases List.mem_append.mp hp with hp | hp
    · exact hgone job (by simp) process hp hd
    · rw [List.mem_singleton.mp hp] at hd
      cases hd

theorem Desk.Represented.refreshed (h : d.Represented) (hr : d.Refreshed d') : d'.Represented := by
  have hold : ∀ {job'}, job' ∈ d'.manager.head →
      ∃ job ∈ d.manager.head, JobStep d.told d'.told job job' :=
    fun hj => forall₂_mem_right hr.jobs hj
  refine ⟨by rw [hr.nextid]; exact h.start, ?_, ?_, ?_, ?_, ?_, ?_, ?_⟩
  · rw [forall₂_map_eq (fun _ _ hj => hj.id) hr.jobs]
    exact h.decreasing
  · intro job' hj'
    obtain ⟨job, hj, hs⟩ := hold hj'
    rw [hs.id, hr.nextid]
    exact h.range job hj
  · intro job' hj'
    obtain ⟨job, hj, hs⟩ := hold hj'
    rw [hs.pgid]
    exact h.pgid job hj
  · rw [hr.added, hr.nextid]
    exact h.known
  · intro job' hj'
    obtain ⟨job, hj, hs⟩ := hold hj'
    rw [hs.pids, hs.id, hr.added]
    exact h.order job hj
  · intro job' hj'
    obtain ⟨job, hj, hs⟩ := hold hj'
    exact hs.aggregated (h.aggregated job hj)
  · intro job' hj' process' hp' hd
    obtain ⟨job, hj, hs⟩ := hold hj'
    obtain ⟨process, hp, he⟩ := forall₂_mem_right hs.entries hp'
    rw [he.pid]
    rcases he.gone hd with hd | hg
    · exact (h.gone job hj process hp hd).mono hr.told
    · exact hg

theorem Desk.Represented.shrunk (h : d.Represented) (hs : d.Shrunk d') : d'.Represented := by
  have hold : ∀ {job}, job ∈ d'.manager.head → job ∈ d.manager.head := fun hj => hs.jobs.subset hj
  refine ⟨by rw [hs.nextid]; exact h.start, h.decreasing.sublist (hs.jobs.map _), fun job hj => ?_,
    fun job hj => h.pgid job (hold hj), ?_, fun job hj => ?_, fun job hj => h.aggregated job (hold hj),
    fun job hj => ?_⟩
  · rw [hs.nextid]
    exact h.range job (hold hj)
  · rw [hs.added, hs.nextid]
    exact h.known
  · rw [hs.added]
    exact h.order job (hold hj)
  · rw [hs.told]
    exact h.gone job (hold hj)

/-- **Every step keeps the representation.** -/
theorem represented_step {op : TableOp} (h : d.Represented) (hs : tableStep Job.untouched d op = some d') :
    d'.Represented := by
  rcases tableStep_cases hs with ⟨pgid, command, -, hp, rfl⟩ | ⟨pid, job, jobs, hh, hf, rfl⟩ | hr | hr
  · exact h.jobAdd hp command
  · exact h.processAdd hh hf
  · exact h.refreshed hr
  · exact h.shrunk hr

end Invariant

/-! ### What a table keeps of an earlier one -/

/-- A job some steps later: it has got entries at the end, and entries that were done are done. -/
structure Job.Later (job job' : Job) : Prop where
  id : job'.id = job.id
  pgid : job'.pgid = job.pgid
  command : job'.command = job.command
  entries : ∃ l, l <+: job'.processes ∧ List.Forall₂ (fun process process' : Process =>
    process'.pid = process.pid ∧ (process.status = .done → process'.status = .done)) job.processes l

theorem Job.Later.refl (job : Job) : job.Later job :=
  ⟨rfl, rfl, rfl, _, List.prefix_refl _, List.forall₂_same.mpr fun _ _ => ⟨rfl, fun h => h⟩⟩

theorem Job.Later.trans {job job' job'' : Job} (h : job.Later job') (h' : job'.Later job'') : job.Later job'' := by
  obtain ⟨l, ⟨t, ht⟩, hl⟩ := h.entries
  obtain ⟨l', hp', hl'⟩ := h'.entries
  rw [← ht] at hl'
  -- the entries of `job` are the first ones of `job'`, hence of what `job''` has kept
  have hl₁ := (List.forall₂_take_append l' l t hl'.flip).flip
  refine ⟨h'.id.trans h.id, h'.pgid.trans h.pgid, h'.command.trans h.command, l'.take l.length,
    (List.take_prefix _ _).trans hp', forall₂_comp (fun _ _ _ h₁ h₂ => ?_) hl hl₁⟩
  exact ⟨h₂.1.trans h₁.1, fun hd => h₂.2 (h₁.2 hd)⟩

/-- A table some steps later: its jobs are new ones, with new ids, or jobs that were there. -/
structure Desk.Later (d d' : Desk) : Prop where
  nextid : d.manager.nextid ≤ d'.manager.nextid
  told : d.told <+: d'.told
  jobs : ∀ job' ∈ d'.manager.head, d.manager.nextid ≤ job'.id ∨ ∃ job ∈ d.manager.head, job.Later job'

section Later

variable {d d' d'' : Desk}

theorem Desk.Later.refl (d : Desk) : d.Later d :=
  ⟨le_rfl, List.prefix_refl _, fun job hj => Or.inr ⟨job, hj, .refl job⟩⟩

theorem Desk.Later.trans (h : d.Later d') (h' : d'.Later d'') : d.Later d'' where
  nextid := h.nextid.trans h'.nextid
  told := h.told.trans h'.told
  jobs job'' hj'' := by
    rcases h'.jobs job'' hj'' with hnew | ⟨job', hj', hl'⟩
    · exact Or.inl (h.nextid.trans hnew)
    · rcases h.jobs job' hj' with hnew | ⟨job, hj, hl⟩
      · exact Or.inl (by rw [hl'.id]; exact hnew)
      · exact Or.inr ⟨job, hj, hl.trans hl'⟩

theorem JobStep.later_job {told told' : List Told} {job job' : Job} (h : JobStep told told' job job')
    (hc : Consistent told') (hg : ∀ process ∈ job.processes, process.status = .done → Gone told process.pid) :
    job.Later job' := by
  refine ⟨h.id, h.pgid, h.command, job'.processes, List.prefix_refl _, ?_⟩
  refine (List.forall₂_iff_get.mpr ⟨h.entries.length_eq, fun i hi hi' => ?_⟩)
  have he := (List.forall₂_iff_get.mp h.entries).2 i hi hi'
  exact ⟨he.pid, fun hd => he.kept hc (hg _ (List.get_mem _ _) hd) hd⟩

/-- **A step keeps the jobs that are there**, and gives new jobs new ids. -/
theorem later_step {op : TableOp} (h : d.Represented) (hs : tableStep Job.untouched d op = some d')
    (hc : Consistent d'.told) : d.Later d' := by
  rcases tableStep_cases hs with ⟨pgid, command, -, -, rfl⟩ | ⟨pid, job, jobs, hh, -, rfl⟩ | hr | hr
  · refine ⟨Nat.le_succ _, List.prefix_refl _, List.forall_mem_cons.mpr ⟨Or.inl le_rfl, fun job hj => ?_⟩⟩
    exact Or.inr ⟨job, hj, .refl job⟩
  · refine ⟨le_rfl, List.prefix_refl _, List.forall_mem_cons.mpr ⟨?_, fun j hj => ?_⟩⟩
    · refine Or.inr ⟨job, by rw [hh]; simp, rfl, rfl, rfl, job.processes, List.prefix_append .., ?_⟩
      exact List.forall₂_same.mpr fun _ _ => ⟨rfl, fun h => h⟩
    · exact Or.inr ⟨j, by rw [hh]; simp [hj], .refl j⟩
  · refine ⟨hr.nextid.ge, hr.told, fun job' hj' => Or.inr ?_⟩
    obtain ⟨job, hj, hstep⟩ := forall₂_mem_right hr.jobs hj'
    exact ⟨job, hj, hstep.later_job hc (h.gone job hj)⟩
  · exact ⟨hr.nextid.ge, hr.told ▸ List.prefix_refl _, fun job hj => Or.inr
      ⟨job, hr.jobs.subset hj, .refl job⟩⟩

theorem told_step {fresh : Job → Bool} {op : TableOp} (hs : tableStep fresh d op = some d') :
    d.told <+: d'.told := by
  rcases tableStep_cases hs with ⟨_, _, -, -, rfl⟩ | ⟨_, _, _, -, -, rfl⟩ | hr | hr
  · exact List.prefix_refl _
  · exact List.prefix_refl _
  · exact hr.told
  · exact hr.told ▸ List.prefix_refl _

theorem nextid_step {fresh : Job → Bool} {op : TableOp} (hs : tableStep fresh d op = some d') :
    d'.manager.nextid ≤ d.manager.nextid + jobAdds [op] := by
  rcases tableStep_cases hs with ⟨_, _, ⟨c, m, rfl⟩, -, rfl⟩ | ⟨_, _, _, -, -, rfl⟩ | hr | hr
  · exact le_rfl
  · exact Nat.le_add_right ..
  · exact hr.nextid.le.trans (Nat.le_add_right ..)
  · exact hr.nextid.le.trans (Nat.le_add_right ..)

/-- **Every run keeps the representation**, and the jobs that are not taken out. -/
theorem represented_run {tr : List TableOp} (hd : d.Represented) (h : Run (tableStep Job.untouched) d tr d') :
    d'.Represented ∧ (Consistent d'.told → d.Later d') ∧
      d'.manager.nextid ≤ d.manager.nextid + jobAdds tr := by
  refine @Run.invariant _ _ (tableStep Job.untouched) d d' tr (fun tr d' => d'.Represented ∧
    (Consistent d'.told → d.Later d') ∧ d'.manager.nextid ≤ d.manager.nextid + jobAdds tr) ?_ ?_ h
  · exact ⟨hd, fun _ => .refl d, Nat.le_add_right ..⟩
  · rintro tr d₁ op d₂ - ⟨hrep, hlater, hnext⟩ hs
    refine ⟨represented_step hrep hs, fun hc => ?_, ?_⟩
    · exact (hlater (hc.of_prefix (told_step hs))).trans (later_step hrep hs hc)
    · have := nextid_step hs
      unfold jobAdds at *
      rw [List.countP_append]
      omega

end Later

/-! ### Taking jobs out, and picking one -/

/-- `job_cleanup_done`, `job_remove` and a failed `job_continue`: what they take out of the table, and that nothing
else changes. -/
structure Desk.TakesOut (d : Desk) : Prop where
  cleanupDone : ∀ d', tableStep Job.untouched d .cleanupDone = some d' →
    d'.manager.nextid = d.manager.nextid ∧ d'.manager.head.Sublist d.manager.head ∧
      ∀ job, job ∈ d'.manager.head ↔ job ∈ d.manager.head ∧ job.status ≠ .done
  remove : ∀ pgid d', tableStep Job.untouched d (.remove pgid) = some d' →
    d'.manager.nextid = d.manager.nextid ∧
      ((∃ pre job post, d.manager.head = pre ++ job :: post ∧ (∀ j ∈ pre, j.pgid ≠ pgid) ∧
        job.pgid = pgid ∧
          d'.manager.head = pre ++ post) ∨
        ((∀ j ∈ d.manager.head, j.pgid ≠ pgid) ∧ d'.manager.head = d.manager.head))
  failedContinue : ∀ job ∈ d.manager.head, ∀ r job' d',
    jobContinueWith Desk.signal (fun d => d.kills.length) job d = .done (r, job') d' → r < 0 →
      job' = job ∧ d'.manager = d.manager

theorem Desk.Represented.takesOut {d : Desk} (h : d.Represented) : d.TakesOut where
  cleanupDone d' hs := by
    obtain rfl : { d with manager := jobCleanupDone d.manager } = d' := Option.some.inj hs
    refine ⟨rfl, List.filter_sublist, fun job => ?_⟩
    simp [jobCleanupDone]
  remove pgid d' hs := by
    obtain rfl : { d with manager := jobRemove pgid d.manager } = d' := Option.some.inj hs
    dsimp only
    unfold jobRemove
    split
    · rename_i hp
      refine ⟨rfl, Or.inr ⟨fun j hj => ?_, rfl⟩⟩
      have := h.pgid j hj
      omega
    · refine ⟨rfl, ?_⟩
      rcases List.exists_or_eq_self_of_eraseP (fun job : Job => job.pgid == pgid) d.manager.head with
        heq | ⟨job, pre, post, hpre, hjob, hsplit, herase⟩
      · refine Or.inr ⟨fun j hj hjp => ?_, heq⟩
        have hlen := List.length_eraseP_of_mem (p := fun job : Job => job.pgid == pgid) hj (by simpa using hjp)
        rw [heq] at hlen
        have := List.length_pos_of_mem hj
        omega
      · exact Or.inl ⟨pre, job, post, hsplit,
          fun j hj => by simpa using hpre j hj, by simpa using hjob, herase⟩
  failedContinue job _ r job' d' hrun hr := by
    have h := Prog.wp_done (wp_jobContinueWith job d) hrun
    exact ⟨h.2.2 hr, h.1.manager⟩

/-- What `findJob` returns is the job with the largest id among those that satisfy `p`. -/
def PicksLargest (p : Job → Bool) (jobs : List Job) : Prop :=
  match findJob p jobs with
  | none => ∀ job ∈ jobs, p job = false
  | some (i, job) => jobs[i]? = some job ∧ p job = true ∧ ∀ j ∈ jobs, p j = true → j.id ≤ job.id

theorem picksLargest (p : Job → Bool) {jobs : List Job} (h : (jobs.map Job.id).Pairwise (· > ·)) :
    PicksLargest p jobs := by
  induction jobs with
  | nil => exact fun job hj => absurd hj List.not_mem_nil
  | cons job jobs ih =>
    obtain ⟨hbelow, hrest⟩ := List.pairwise_cons.mp h
    have ih := ih hrest
    unfold PicksLargest at ih ⊢
    unfold findJob
    by_cases hp : p job = true
    · rw [if_pos hp]
      refine ⟨rfl, hp, List.forall_mem_cons.mpr ⟨fun _ => le_rfl, fun j hj _ => ?_⟩⟩
      exact (hbelow j.id (List.mem_map_of_mem hj)).le
    · rw [if_neg hp]
      cases hf : findJob p jobs with
      | none =>
        rw [hf] at ih
        exact List.forall_mem_cons.mpr ⟨by simpa using hp, ih⟩
      | some x =>
        rw [hf] at ih
        exact ⟨ih.1, ih.2.1, List.forall_mem_cons.mpr ⟨fun h => absurd h hp, ih.2.2⟩⟩

/-! ### Runs -/

/-- **The representation of the job table.**  Take any run from `jobmanager_init`, whatever `waitpid` reports and
whichever calls fail, in which entries are added to the newest job before anything is reported for it and nothing is
reported about a process that is gone.  After any part of it the table is represented, no id has overflowed, each job
is new or has kept what was done, the removals take out what they should, and `fg` and `bg` pick the largest ids. -/
theorem table_run (waits : List WaitRes) (kills : List Res) (tr tr' : List TableOp) (d d' : Desk)
    (h : Run (tableStep Job.untouched) (Desk.init waits kills) tr d) (h' : Run (tableStep Job.untouched) d tr' d')
    (hadds : jobAdds (tr ++ tr') < INT_MAX) (hc : Consistent d'.told) :
    d'.Represented ∧ d'.manager.nextid ≤ INT_MAX ∧ d.Later d' ∧ d'.TakesOut ∧
      PicksLargest Job.isActive d'.manager.head ∧ PicksLargest Job.isStopped d'.manager.head := by
  obtain ⟨hd, -, hn⟩ := represented_run (represented_init waits kills) h
  obtain ⟨hd', hlater, hn'⟩ := represented_run hd h'
  refine ⟨hd', ?_, hlater hc, hd'.takesOut, picksLargest _ hd'.decreasing, picksLargest _ hd'.decreasing⟩
  have hstart : (Desk.init waits kills).manager.nextid = 1 := rfl
  unfold jobAdds at *
  rw [List.countP_append] at hadds
  omega

/-! A job of two processes.  One is stopped, the job is continued and waited for, and both terminate. -/

def twoSteps : List TableOp :=
  [.jobAdd 5 (some []) .ok, .processAdd 5 .ok, .processAdd 6 .ok, .reap, .waitForeground 0]

def twoStepsLater : List TableOp := [.continue 0, .waitForeground 0, .cleanupDone]

/-- What `waitpid` answers to it. -/
def twoWaits : List WaitRes :=
  [.report 5 (Change.ended (.exited 0)).status, .nothing, .err .EINTR, .report 6 (Change.stopped SIGTSTP).status,
    .report 6 (Change.ended (.signaled SIGINT false)).status]

/-- The desk after the first steps, and after all of them. -/
def twoDesk : Desk := (runFrom (tableStep Job.untouched) (Desk.init twoWaits [.ok]) twoSteps).getD (Desk.init [] [])
def twoDeskLater : Desk := (runFrom (tableStep Job.untouched) twoDesk twoStepsLater).getD (Desk.init [] [])

theorem twoDesk_table : twoDesk.manager.head.map Job.status = [.stopped] ∧ twoDeskLater.manager.head = [] ∧
    twoDesk.Later twoDeskLater ∧ twoDeskLater.manager.nextid ≤ INT_MAX := by
  have h : Run (tableStep Job.untouched) (Desk.init twoWaits [.ok]) twoSteps twoDesk := Run.of_runFrom (by decide)
  have h' : Run (tableStep Job.untouched) twoDesk twoStepsLater twoDeskLater := Run.of_runFrom (by decide)
  have hc : Consistent twoDeskLater.told := consistent_of_all (by decide)
  obtain ⟨-, hn, hl, -⟩ := table_run twoWaits [.ok] twoSteps twoStepsLater _ _ h h' (by decide) hc
  exact ⟨by decide, by decide, hl, hn⟩

/-! Entries are added before anything is reported, but after `waitpid` has failed with `ECHILD`. -/

/-- No report has been stored in the job. -/
def Job.unreported (job : Job) : Bool := job.processes.all fun process => !process.waitStatusValid

def strandedSteps : List TableOp := [.jobAdd 5 (some []) .ok, .processAdd 5 .ok, .reap, .processAdd 6 .ok]

/-- A job then has a status that its entries do not add up to. -/
theorem stranded_not_aggregated :
    ∃ d, Run (tableStep Job.unreported) (Desk.init [.err .ECHILD] []) strandedSteps d ∧
    jobAdds strandedSteps < INT_MAX ∧ (∀ t ∈ d.told, ∀ pid status, t.answer ≠ .report pid status) ∧
    ∃ job ∈ d.manager.head, job.processes ≠ [] ∧ job.status ≠ aggregate job.processes := by
  let d : Desk := (runFrom (tableStep Job.unreported) (Desk.init [.err .ECHILD] []) strandedSteps).getD
    (Desk.init [] [])
  have htold : d.told = [⟨5, .err .ECHILD⟩] := by decide
  refine ⟨d, Run.of_runFrom (by decide), by decide, fun t ht pid status => ?_, ?_⟩
  · rw [htold, List.mem_singleton] at ht
    rw [ht]
    simp
  · decide

end MiniShell
