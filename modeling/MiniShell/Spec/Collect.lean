import MiniShell.Spec.Representation

/-!
# Collecting the processes of a job

The reports on the processes of a job are collected by `job_reap` and `job_wait_foreground`, in any order and between
stops and continuations.  At any point an entry whose termination has been reported is what this report makes of it,
and any other entry is not `PROCESS_DONE`; so what the job is in the end does not depend on who has collected what.
-/

namespace MiniShell

open MiniShell.Lib

/-! ### Reports on the processes of one job -/

/-- The answer reports the termination of `pid`. -/
def Told.terminates (t : Told) (pid : Int) : Bool :=
  match t.answer with
  | .report p status => p == pid && (WIFEXITED status || WIFSIGNALED status)
  | _ => false

/-- The termination of `pid` has been collected. -/
def Ended (told : List Told) (pid : Int) : Prop := ∃ t ∈ told, t.terminates pid = true

instance (told : List Told) (pid : Int) : Decidable (Ended told pid) := by unfold Ended; infer_instance

/-- What the kernel may tell about the children `pids`, which stay in the group `g` and terminate as `fin` says. -/
structure Reports (fin : Int → Termination) (g : Int) (pids : List Int) (told : List Told) : Prop where
  /-- they answer to their pid and to their group -/
  stays : ∀ t ∈ told, ∀ p status, t.answer = .report p status → p ∈ pids →
    t.target = p ∨ t.target = -g
  final : ∀ t ∈ told, ∀ p status, t.answer = .report p status → p ∈ pids →
    (WIFEXITED status || WIFSIGNALED status) = true → status = (fin p).status
  /-- nothing is reported after the termination -/
  once : ∀ pre t post p status, told = pre ++ t :: post → t.answer = .report p status → p ∈ pids →
    ¬ Ended pre p
  /-- a child exists until its termination has been collected -/
  exist : ∀ pre t post, told = pre ++ t :: post → t.target ∈ pids → t.answer = .err .ECHILD →
    Ended pre t.target

/-- The entry of a process that has terminated. -/
def finished (fin : Int → Termination) (pid : Int) : Process :=
  { pid := pid, status := .done, waitStatus := (fin pid).status, waitStatusValid := true }

/-- The entry is what the reports so far make of it. -/
structure Collected (fin : Int → Termination) (told : List Told) (process : Process) : Prop where
  ended : Ended told process.pid → process = finished fin process.pid
  alive : ¬ Ended told process.pid → process.status ≠ .done

/-- A job that has nothing to do with the children `pids` of the group `g`. -/
structure Job.Apart (g : Int) (pids : List Int) (job : Job) : Prop where
  pgid : job.pgid ≠ g
  pos : ∀ process ∈ job.processes, 0 < process.pid
  entries : ∀ process ∈ job.processes, process.pid ∈ pids → process.status = .done

section Entries

variable {fin : Int → Termination} {g : Int} {pids : List Int} {told told' : List Told} {process : Process}

theorem Reports.of_prefix (h : Reports fin g pids told') (hp : told <+: told') : Reports fin g pids told := by
  obtain ⟨l, rfl⟩ := hp
  refine ⟨fun t ht => h.stays t (by simp [ht]), fun t ht => h.final t (by simp [ht]), ?_, ?_⟩
  · exact fun pre t post p status hs => h.once pre t (post ++ l) p status (by simp [hs])
  · exact fun pre t post hs => h.exist pre t (post ++ l) (by simp [hs])

theorem ended_append (told : List Told) (t : Told) (pid : Int) :
    Ended (told ++ [t]) pid ↔ Ended told pid ∨ t.terminates pid = true := by
  simp [Ended, or_and_right, exists_or]

/-- An answer that does not report the termination of an entry leaves it alone. -/
theorem Collected.untold (h : Collected fin told process) {t : Told} (ht : t.terminates process.pid = false) :
    Collected fin (told ++ [t]) process where
  ended he := h.ended (((ended_append ..).mp he).resolve_right (by simp [ht]))
  alive hn := h.alive fun he => hn ((ended_append ..).mpr (Or.inl he))

/-- An answer to a question about other processes and another group leaves an entry alone. -/
theorem Collected.apart (h : Collected fin told process) {t : Told} (hr : Reports fin g pids (told ++ [t]))
    (hp : process.pid ∈ pids) (htarget : t.target ≠ process.pid) (hgroup : t.target ≠ -g) :
    Collected fin (told ++ [t]) process := by
  refine h.untold ?_
  unfold Told.terminates
  split
  · rename_i p status ha
    by_contra hends
    simp only [Bool.not_eq_false, Bool.and_eq_true, beq_iff_eq] at hends
    obtain ⟨rfl, -⟩ := hends
    rcases hr.stays t (by simp) process.pid status ha hp with h | h
    · exact htarget h
    · exact hgroup h
  · rfl

/-- **A report is stored in its entry.** -/
theorem Collected.report (h : Collected fin told process) {target : Int} {status : ℕ}
    (hr : Reports fin g pids (told ++ [⟨target, .report process.pid status⟩])) (hp : process.pid ∈ pids) :
    Collected fin (told ++ [⟨target, .report process.pid status⟩]) (processApplyWaitStatus process status) := by
  have hnot : ¬ Ended told process.pid := hr.once told _ [] _ _ rfl rfl hp
  have halive := h.alive hnot
  cases hends : WIFEXITED status || WIFSIGNALED status with
  | true =>
    obtain rfl : status = (fin process.pid).status :=
      hr.final ⟨target, .report process.pid status⟩ (by simp) _ _ rfl hp hends
    rw [processApplyWaitStatus_ended]
    have hterm : Told.terminates ⟨target, .report process.pid (fin process.pid).status⟩ process.pid = true := by
      simp [Told.terminates]
    exact ⟨fun _ => rfl, fun hn => absurd ((ended_append ..).mpr (Or.inr hterm)) hn⟩
  | false =>
    constructor
    · intro he
      rw [processApplyWaitStatus_pid] at he
      rcases (ended_append ..).mp he with he | he
      · exact absurd he hnot
      · simp only [Told.terminates, Bool.and_eq_true, hends] at he
        exact absurd he.2 (by simp)
    · intro _ hd
      rcases processApplyWaitStatus_done hd with he | hd
      · rw [hends] at he
        cases he
      · exact halive hd

end Entries

/-! ### The collectors -/

section Collectors

variable (fin : Int → Termination) (g : Int) (pids : List Int)

/-- The kernel has been asked about other processes only. -/
structure Desk.Quiet (d d' : Desk) : Prop where
  asked : d.Asked d'
  entries : ∀ process : Process, process.pid ∈ pids → Reports fin g pids d'.told →
    Collected fin d.told process →
    Collected fin d'.told process

/-- The job with the processes `pids` has been told what the kernel has reported. -/
structure Job.Holds (told : List Told) (job : Job) : Prop where
  pgid : job.pgid = g
  listed : job.pids = pids
  aggregated : job.Aggregated
  entries : Reports fin g pids told → ∀ process ∈ job.processes, Collected fin told process

variable {fin g pids}

theorem Desk.Quiet.refl (d : Desk) : Desk.Quiet fin g pids d d := ⟨.refl d, fun _ _ _ h => h⟩

theorem Desk.Quiet.trans {d d' d'' : Desk} (h : Desk.Quiet fin g pids d d') (h' : Desk.Quiet fin g pids d' d'') :
    Desk.Quiet fin g pids d d'' :=
  ⟨h.asked.trans h'.asked, fun process hp hr hc =>
    h'.entries process hp hr (h.entries process hp (hr.of_prefix h'.asked.told) hc)⟩

theorem Job.Holds.quiet {d d' : Desk} {job : Job} (h : job.Holds fin g pids d.told)
    (hq : Desk.Quiet fin g pids d d') : job.Holds fin g pids d'.told where
  pgid := h.pgid
  listed := h.listed
  aggregated := h.aggregated
  entries hr process hp := by
    have hpid : process.pid ∈ pids := h.listed ▸ List.mem_map_of_mem hp
    exact hq.entries process hpid hr (h.entries (hr.of_prefix hq.asked.told) process hp)

/-- A question about a process that is not among `pids`, or about another group. -/
theorem quiet_ask {d : Desk} {r : WaitRes} {rs : List WaitRes} {target : Int} (htarget : target ∉ pids)
    (hgroup : target ≠ -g) :
    Desk.Quiet fin g pids d { d with waits := rs, told := d.told ++ [⟨target, r⟩] } where
  asked := ⟨rfl, rfl, List.prefix_append ..⟩
  entries process hp hr hc := hc.apart hr hp (fun h : target = process.pid => htarget (h ▸ hp)) hgroup

/-! Other jobs. -/

variable (fin)

theorem wp_reapProcess_apart (hg : 0 < g) {process : Process} (hpos : 0 < process.pid)
    (hd : process.pid ∈ pids → process.status = .done) (d : Desk) :
    Prog.wp (reapProcessWith Desk.wait process) (fun process' d' => Desk.Quiet fin g pids d d' ∧
      process'.pid = process.pid ∧ (process'.pid ∈ pids → process'.status = .done)) (fun _ => True) d := by
  unfold reapProcessWith
  split
  · exact ⟨.refl d, rfl, hd⟩
  · rename_i hne
    have hout : process.pid ∉ pids := fun hp => hne (hd hp)
    rw [Prog.wp_bind]
    apply wp_deskWait
    intro r rs _
    have hq : Desk.Quiet fin g pids d { d with waits := rs, told := d.told ++ [⟨process.pid, r⟩] } :=
      quiet_ask hout (by omega)
    split
    · exact ⟨hq, rfl, fun hp => absurd hp hout⟩
    · exact ⟨hq, rfl, fun hp => absurd hp hout⟩
    · exact ⟨hq, rfl, fun hp => absurd hp hout⟩
    · rename_i pid status hw
      rw [Prog.wp_pure]
      have hpid : (if pid = process.pid then processApplyWaitStatus process status else process).pid =
          process.pid := by
        split
        · exact processApplyWaitStatus_pid ..
        · rfl
      exact ⟨hq, hpid, fun hp => absurd (by rwa [hpid] at hp) hout⟩

theorem Job.Apart.of_entries {job : Job} (h : job.Apart g pids) {processes : List Process}
    (hp : ∀ process ∈ processes, 0 < process.pid ∧ (process.pid ∈ pids → process.status = .done)) :
    (jobUpdateStatus { job with processes := processes }).Apart g pids := by
  refine ⟨?_, ?_, ?_⟩
  · rw [jobUpdateStatus_pgid]
    exact h.pgid
  · rw [jobUpdateStatus_processes]
    exact fun process hm => (hp process hm).1
  · rw [jobUpdateStatus_processes]
    exact fun process hm => (hp process hm).2

theorem wp_reapJob_apart (hg : 0 < g) {job : Job} (h : job.Apart g pids) (d : Desk) :
    Prog.wp (reapJobWith Desk.wait job) (fun job' d' => Desk.Quiet fin g pids d d' ∧ job'.Apart g pids)
      (fun _ => True) d := by
  unfold reapJobWith
  rw [Prog.wp_bind]
  let ok : Process → Prop := fun process => 0 < process.pid ∧ (process.pid ∈ pids → process.status = .done)
  refine Prog.wp_mono (Prog.wp_mapList (fun bs l d' => Desk.Quiet fin g pids d d' ∧ (∀ b ∈ bs, ok b) ∧
    ∀ a ∈ l, ok a)
    ?_ job.processes d ⟨.refl d, by simp, fun process hp => ⟨h.pos process hp, h.entries process hp⟩⟩)
    (fun processes d' h' => ⟨h'.1, h.of_entries h'.2.1⟩) (fun _ h => h)
  rintro bs process l d' ⟨hq, hbs, hl⟩
  have hok := hl process (by simp)
  refine Prog.wp_mono (wp_reapProcess_apart fin hg hok.1 hok.2 d') ?_ (fun _ h => h)
  intro process' d'' h'
  obtain ⟨hq', hpid, hd⟩ := h'
  refine ⟨hq.trans hq', fun b hb => ?_, fun a ha => hl a (by simp [ha])⟩
  rcases List.mem_append.mp hb with hb | hb
  · exact hbs b hb
  · rw [List.mem_singleton.mp hb]
    exact ⟨hpid ▸ hok.1, hd⟩

theorem wp_reapJobs_apart (hg : 0 < g) {jobs : List Job} (h : ∀ job ∈ jobs, job.Apart g pids) (d : Desk) :
    Prog.wp (reapJobsWith Desk.wait jobs) (fun jobs' d' => Desk.Quiet fin g pids d d' ∧
      (∀ job ∈ jobs', job.Apart g pids) ∧ jobs'.length = jobs.length) (fun _ => True) d := by
  have hinv := Prog.wp_mapList (f := reapJobWith Desk.wait) (R := fun _ => True)
    (fun bs l d' => Desk.Quiet fin g pids d d' ∧ (∀ b ∈ bs, Job.Apart g pids b) ∧
      (∀ a ∈ l, Job.Apart g pids a) ∧
      bs.length + l.length = jobs.length) ?_ jobs d ⟨.refl d, by simp, h, by simp⟩
  · exact Prog.wp_mono hinv (fun jobs' d' h' => ⟨h'.1, h'.2.1, by simpa using h'.2.2.2⟩) (fun _ h => h)
  · rintro bs job l d' ⟨hq, hbs, hl, hlen⟩
    refine Prog.wp_mono (wp_reapJob_apart fin hg (hl job (by simp)) d') ?_ (fun _ h => h)
    intro job' d'' h'
    refine ⟨hq.trans h'.1, fun b hb => ?_, fun a ha => hl a (by simp [ha]), by simp at hlen ⊢; omega⟩
    rcases List.mem_append.mp hb with hb | hb
    · exact hbs b hb
    · rw [List.mem_singleton.mp hb]
      exact h'.2

theorem applyToFirst_mem {status : ℕ} {pid : Int} {l : List Process} {process' : Process}
    (h : process' ∈ applyToFirst status pid l) :
    process' ∈ l ∨ ∃ process ∈ l, process.pid = pid ∧
      process' = processApplyWaitStatus process status := by
  induction l with
  | nil => simp [applyToFirst] at h
  | cons process l ih =>
    unfold applyToFirst at h
    split at h
    · rename_i hp
      rcases List.mem_cons.mp h with rfl | h
      · exact Or.inr ⟨process, by simp, hp, rfl⟩
      · exact Or.inl (List.mem_cons_of_mem _ h)
    · rcases List.mem_cons.mp h with rfl | h
      · exact Or.inl (by simp)
      · rcases ih h with h | ⟨e, he, hp, rfl⟩
        · exact Or.inl (List.mem_cons_of_mem _ h)
        · exact Or.inr ⟨e, List.mem_cons_of_mem _ he, hp, rfl⟩

/-- When no pid has two entries, the entry of `pid` is the only one that is changed. -/
theorem applyToFirst_mem_nodup {status : ℕ} {pid : Int} {l : List Process} (hnd : (l.map Process.pid).Nodup)
    {process' : Process} (h : process' ∈ applyToFirst status pid l) :
    (process' ∈ l ∧ process'.pid ≠ pid) ∨
      ∃ process ∈ l, process.pid = pid ∧ process' = processApplyWaitStatus process status := by
  rcases applyToFirst_mem h with hm | h
  · by_cases hp : process'.pid = pid
    · -- the first entry of `pid` has been changed, and there is no second one
      subst hp
      induction l with
      | nil => simp at hm
      | cons process l ih =>
        obtain ⟨hne, hnd⟩ := List.nodup_cons.mp hnd
        unfold applyToFirst at h
        split at h
        · rename_i hp
          rcases List.mem_cons.mp h with heq | h
          · exact Or.inr ⟨process, by simp, hp, heq⟩
          · exact absurd (hp ▸ List.mem_map_of_mem h) hne
        · rename_i hp
          rcases List.mem_cons.mp hm with rfl | hm
          · exact absurd rfl hp
          · rcases List.mem_cons.mp h with rfl | h
            · exact absurd rfl hp
            · rcases ih hnd hm h with h | ⟨e, he, hpid, heq⟩
              · exact absurd rfl h.2
              · exact Or.inr ⟨e, List.mem_cons_of_mem _ he, hpid, heq⟩
    · exact Or.inl ⟨hm, hp⟩
  · exact Or.inr h

variable (hpos : ∀ p ∈ pids, 0 < p)

include hpos in
theorem wp_wait_apart {job : Job} (h : job.Apart g pids) (d : Desk) :
    Prog.wp (jobWaitForegroundWith Desk.wait (fun d => d.waits.length) job)
      (fun x d' => Desk.Quiet fin g pids d d' ∧
      (Reports fin g pids d'.told → x.2.Apart g pids)) (fun _ => True) d := by
  unfold jobWaitForegroundWith
  split
  · exact ⟨.refl d, fun _ => h⟩
  rename_i hjg
  refine Prog.wp_loop (fun job' d' => Desk.Quiet fin g pids d d' ∧ job'.pgid = job.pgid ∧
    (Reports fin g pids d'.told → job'.Apart g pids)) ?_ job d ⟨.refl d, rfl, fun _ => h⟩
  rintro job' d' ⟨hq, hpg, hap⟩
  unfold waitRoundWith
  split
  · exact ⟨hq, hap⟩
  rw [Prog.wp_bind]
  apply wp_deskWait
  intro r rs hw
  have hout : -job'.pgid ∉ pids := by
    intro hm
    have := hpos _ hm
    omega
  have hgroup : -job'.pgid ≠ -g := fun he => h.pgid (by omega)
  have hq' : Desk.Quiet fin g pids d { d' with waits := rs, told := d'.told ++ [⟨-job'.pgid, r⟩] } :=
    hq.trans (quiet_ask hout hgroup)
  have hap' : Reports fin g pids (d'.told ++ [⟨-job'.pgid, r⟩]) → job'.Apart g pids :=
    fun hr => hap (hr.of_prefix (List.prefix_append ..))
  have hlt : rs.length < d'.waits.length := by rw [hw]; simp
  split
  · exact ⟨⟨hq', hpg, hap'⟩, hlt⟩
  · exact ⟨hq', hap'⟩
  · exact ⟨hq', hap'⟩
  · rename_i pid status
    split
    · exact ⟨hq', hap'⟩
    · refine ⟨⟨hq', by rw [jobUpdateStatus_pgid]; exact hpg, fun hr => ?_⟩, hlt⟩
      have hnot : pid ∉ pids := by
        intro hm
        rcases hr.stays ⟨-job'.pgid, .report pid status⟩ (by simp) pid status rfl hm with he | he
        · have he : -job'.pgid = pid := he
          exact hout (he ▸ hm)
        · exact hgroup he
      have hold := hap' hr
      apply hold.of_entries
      intro process' hm
      rcases applyToFirst_mem hm with hm | ⟨process, hmem, rfl, rfl⟩
      · exact ⟨hold.pos _ hm, hold.entries _ hm⟩
      · rw [processApplyWaitStatus_pid]
        exact ⟨hold.pos _ hmem, fun hin => absurd hin hnot⟩

theorem resume_mem {l : List Process} {process' : Process} (h : process' ∈ resumeProcesses l) :
    ∃ process ∈ l, process'.pid = process.pid ∧ ((process' = process) ∨
      (process.status = .stopped ∧ process'.status = .running)) := by
  obtain ⟨process, hm, rfl⟩ := List.mem_map.mp h
  refine ⟨process, hm, ?_⟩
  split
  · rename_i hs
    exact ⟨rfl, Or.inr ⟨hs, rfl⟩⟩
  · exact ⟨rfl, Or.inl rfl⟩

/-- What `job_continue` does to its job, and to nothing else. -/
theorem wp_continue_jobs {P : Job → Prop} {job : Job} (h : P job)
    (hresume : P (jobUpdateStatus { job with processes := resumeProcesses job.processes })) (d : Desk) :
    Prog.wp (jobContinueWith Desk.signal (fun d => d.kills.length) job)
      (fun x d' => d'.manager = d.manager ∧ d'.added = d.added ∧ d'.told = d.told ∧ P x.2)
        (fun _ => True) d := by
  unfold jobContinueWith retryWith
  split
  · exact ⟨rfl, rfl, rfl, h⟩
  split
  · exact ⟨rfl, rfl, rfl, h⟩
  rw [Prog.wp_bind]
  refine Prog.wp_loop (fun _ d' => d'.manager = d.manager ∧ d'.added = d.added ∧ d'.told = d.told)
    ?_ () d ⟨rfl, rfl, rfl⟩
  intro _ d' hd
  rw [Prog.wp_bind]
  apply wp_deskSignal
  intro r rs hk
  split
  · exact ⟨hd, by rw [hk]; simp⟩
  · rw [Prog.wp_pure]
    dsimp only
    split
    · exact ⟨hd.1, hd.2.1, hd.2.2, h⟩
    · exact ⟨hd.1, hd.2.1, hd.2.2, hresume⟩

theorem Job.Apart.resume {job : Job} (h : job.Apart g pids) :
    (jobUpdateStatus { job with processes := resumeProcesses job.processes }).Apart g pids := by
  apply h.of_entries
  intro process' hm
  obtain ⟨process, hm, hpid, hs⟩ := resume_mem hm
  rw [hpid]
  refine ⟨h.pos process hm, fun hin => ?_⟩
  have hd := h.entries process hm hin
  rcases hs with rfl | ⟨hs, -⟩
  · exact hd
  · rw [hs] at hd
    cases hd

/-! The job itself. -/

theorem Job.Holds.of_entries {told told' : List Told} {job : Job} (h : job.Holds fin g pids told)
    {processes : List Process} (hpids : processes.map Process.pid = pids) (hne : pids ≠ [])
    (hc : Reports fin g pids told' → ∀ process ∈ processes, Collected fin told' process) :
    (jobUpdateStatus { job with processes := processes }).Holds fin g pids told' where
  pgid := by rw [jobUpdateStatus_pgid]; exact h.pgid
  listed := by
    unfold Job.pids
    rw [jobUpdateStatus_processes]
    exact hpids
  aggregated := by
    refine ⟨jobUpdateStatus_aggregate, fun hnil => ?_⟩
    rw [jobUpdateStatus_processes] at hnil
    obtain rfl : processes = [] := hnil
    exact absurd hpids.symm hne
  entries := by
    rw [jobUpdateStatus_processes]
    exact hc

theorem Job.Holds.resume {told : List Told} {job : Job} (h : job.Holds fin g pids told) (hne : pids ≠ []) :
    (jobUpdateStatus { job with processes := resumeProcesses job.processes }).Holds fin g pids told := by
  apply h.of_entries fin ((resumeProcesses_pids _).trans h.listed) hne
  intro hr process' hm
  obtain ⟨process, hm, hpid, rfl | ⟨hs, hs'⟩⟩ := resume_mem hm
  · exact h.entries hr process' hm
  · -- a stopped process has not terminated
    have hc := h.entries hr process hm
    refine ⟨fun he => ?_, fun _ hd => by rw [hs'] at hd; cases hd⟩
    rw [hpid] at he
    rw [hc.ended he] at hs
    cases hs

include hpos in
/-- `job_reap` on one of the processes tells its entry, and leaves the other ones alone. -/
theorem wp_reapProcess_held (hg : 0 < g) {process : Process} (hp : process.pid ∈ pids) (d : Desk) :
    Prog.wp (reapProcessWith Desk.wait process) (fun process' d' => d.Asked d' ∧ process'.pid = process.pid ∧
      (Reports fin g pids d'.told → Collected fin d.told process → Collected fin d'.told process') ∧
      ∀ e : Process, e.pid ∈ pids → e.pid ≠ process.pid → Reports fin g pids d'.told →
        Collected fin d.told e →
        Collected fin d'.told e) (fun _ => True) d := by
  unfold reapProcessWith
  split
  · exact ⟨.refl d, rfl, fun _ h => h, fun _ _ _ _ h => h⟩
  rename_i hnd
  rw [Prog.wp_bind]
  apply wp_deskWait
  intro r rs hw
  have ha : d.Asked { d with waits := rs, told := d.told ++ [⟨process.pid, r⟩] } :=
    ⟨rfl, rfl, List.prefix_append ..⟩
  have hothers : ∀ e : Process, e.pid ∈ pids → e.pid ≠ process.pid →
      Reports fin g pids (d.told ++ [⟨process.pid, r⟩]) → Collected fin d.told e →
        Collected fin (d.told ++ [⟨process.pid, r⟩]) e := by
    intro e he hne hr hc
    have := hpos _ hp
    exact hc.apart hr he (Ne.symm hne) (show process.pid ≠ -g by omega)
  split
  · refine ⟨ha, rfl, fun hr hc => ?_, hothers⟩
    have hended : Ended d.told process.pid := hr.exist d.told ⟨process.pid, .err .ECHILD⟩ [] rfl hp rfl
    exact absurd (by rw [hc.ended hended]; rfl) hnd
  · refine ⟨ha, rfl, fun _ hc => hc.untold ?_, hothers⟩
    simp [Told.terminates]
  · exact ⟨ha, rfl, fun _ hc => hc.untold rfl, hothers⟩
  · rename_i pid status
    rw [Prog.wp_pure]
    by_cases hpid : pid = process.pid
    · subst hpid
      rw [if_pos rfl]
      exact ⟨ha, processApplyWaitStatus_pid .., fun hr hc => hc.report hr hp, hothers⟩
    · rw [if_neg hpid]
      refine ⟨ha, rfl, fun _ hc => hc.untold ?_, hothers⟩
      simp [Told.terminates, hpid]

include hpos in
theorem wp_reapJob_held (hg : 0 < g) (hnd : pids.Nodup) (hne : pids ≠ []) {job : Job} (d : Desk)
    (h : job.Holds fin g pids d.told) :
    Prog.wp (reapJobWith Desk.wait job) (fun job' d' => d.Asked d' ∧ job'.Holds fin g pids d'.told)
      (fun _ => True) d := by
  unfold reapJobWith
  rw [Prog.wp_bind]
  have hinv := Prog.wp_mapList (f := reapProcessWith Desk.wait) (R := fun _ => True)
    (fun bs l d' => d.Asked d' ∧ (bs ++ l).map Process.pid = pids ∧
      (Reports fin g pids d'.told → ∀ e ∈ bs ++ l, Collected fin d'.told e)) ?_ job.processes d
    ⟨.refl d, by simpa [Job.pids] using h.listed, by simpa using h.entries⟩
  · refine Prog.wp_mono hinv ?_ (fun _ h => h)
    intro processes d' h'
    exact ⟨h'.1, h.of_entries fin (by simpa using h'.2.1) hne (by simpa using h'.2.2)⟩
  rintro bs process l d' ⟨ha, hl, hc⟩
  have hp : process.pid ∈ pids := by rw [← hl]; simp
  refine Prog.wp_mono (wp_reapProcess_held fin hpos hg hp d') ?_ (fun _ h => h)
  intro process' d'' h'
  obtain ⟨ha', hpid, hself, hothers⟩ := h'
  refine ⟨ha.trans ha', by rw [← hl]; simp [hpid], fun hr e he => ?_⟩
  have hold := hc (hr.of_prefix ha'.told)
  -- the other entries have other pids
  rw [← hl, List.map_append, List.map_cons] at hnd
  have hmem : e = process' ∨ (e ∈ bs ++ process :: l ∧ e.pid ≠ process.pid) := by
    rw [List.nodup_append] at hnd
    obtain ⟨-, hnd', hdisj⟩ := hnd
    rcases List.mem_append.mp he with he | he
    · rcases List.mem_append.mp he with he | he
      · exact Or.inr ⟨by simp [he], hdisj _ (List.mem_map_of_mem he) _ (by simp)⟩
      · exact Or.inl (List.mem_singleton.mp he)
    · refine Or.inr ⟨by simp [he], fun heq => ?_⟩
      exact (List.nodup_cons.mp hnd').1 (heq ▸ List.mem_map_of_mem he)
  rcases hmem with rfl | ⟨hm, hne'⟩
  · exact hself hr (hold process (by simp))
  · have hin : e.pid ∈ pids := by rw [← hl]; exact List.mem_map_of_mem hm
    exact hothers e hin hne' hr (hold e hm)

theorem Job.Holds.untold {told : List Told} {t : Told} {job : Job} (h : job.Holds fin g pids told)
    (ht : ∀ p ∈ pids, t.terminates p = false) : job.Holds fin g pids (told ++ [t]) :=
  ⟨h.pgid, h.listed, h.aggregated, fun hr e he => (h.entries (hr.of_prefix (List.prefix_append ..)) e he).untold
    (ht e.pid (h.listed ▸ List.mem_map_of_mem he))⟩

include hpos in
theorem wp_wait_held (hnd : pids.Nodup) (hne : pids ≠ []) {job : Job} (d : Desk)
    (h : job.Holds fin g pids d.told) :
    Prog.wp (jobWaitForegroundWith Desk.wait (fun d => d.waits.length) job)
      (fun x d' => d.Asked d' ∧ x.2.Holds fin g pids d'.told) (fun _ => True) d := by
  unfold jobWaitForegroundWith
  split
  · exact ⟨.refl d, h⟩
  refine Prog.wp_loop (fun job' d' => d.Asked d' ∧ job'.Holds fin g pids d'.told) ?_ job d ⟨.refl d, h⟩
  rintro job' d' ⟨ha, hj⟩
  unfold waitRoundWith
  split
  · exact ⟨ha, hj⟩
  rw [Prog.wp_bind]
  apply wp_deskWait
  intro r rs hw
  have ha' : d.Asked { d' with waits := rs, told := d'.told ++ [⟨-job'.pgid, r⟩] } :=
    ha.trans ⟨rfl, rfl, List.prefix_append ..⟩
  have hlt : rs.length < d'.waits.length := by rw [hw]; simp
  split
  · exact ⟨⟨ha', hj.untold fin fun _ _ => rfl⟩, hlt⟩
  · exact ⟨ha', hj.untold fin fun _ _ => by simp [Told.terminates]⟩
  · exact ⟨ha', hj.untold fin fun _ _ => rfl⟩
  · rename_i pid status
    split
    · rename_i hf
      -- a process that the job does not list
      refine ⟨ha', hj.untold fin fun p hp => ?_⟩
      have hne : pid ≠ p := by
        intro heq
        subst heq
        have := hpos pid hp
        rw [← hj.listed] at hp
        obtain ⟨e, he, hpe⟩ := List.mem_map.mp hp
        unfold processFind at hf
        rw [if_neg (by omega), List.find?_eq_none] at hf
        exact hf e he (by simpa using hpe)
      simp [Told.terminates, hne]
    · refine ⟨⟨ha', hj.of_entries fin ((applyToFirst_pids ..).trans hj.listed) hne fun hr e he => ?_⟩, hlt⟩
      have hold := hj.entries (hr.of_prefix (List.prefix_append ..))
      have hnd' : job'.pids.Nodup := hj.listed ▸ hnd
      rcases applyToFirst_mem_nodup hnd' he with ⟨hm, hpe⟩ | ⟨process, hm, rfl, rfl⟩
      · refine (hold e hm).untold ?_
        simp [Told.terminates, Ne.symm hpe]
      · exact (hold process hm).report hr (hj.listed ▸ List.mem_map_of_mem hm)

end Collectors

/-! ### Runs of the collectors -/

/-- `job_reap`, `job_wait_foreground` and `job_continue`. -/
def TableOp.collects : TableOp → Bool
  | .reap | .waitForeground _ | .continue _ => true
  | _ => false

/-- The job at position `i` holds what has been reported about its processes, and no other job has to do with them. -/
structure Desk.Holds (fin : Int → Termination) (g : Int) (pids : List Int) (i : ℕ) (d : Desk) : Prop where
  jobs : ∃ pre job post, d.manager.head = pre ++ job :: post ∧ pre.length = i ∧
    job.Holds fin g pids d.told ∧
    (∀ j ∈ pre, Job.Apart g pids j) ∧ ∀ j ∈ post, Job.Apart g pids j

section Runs

variable {fin : Int → Termination} {g : Int} {pids : List Int} {i : ℕ} {fresh : Job → Bool} {d d' : Desk}

theorem wp_runOnJob_holds {f : Job → Prog Desk (Int × Job)} (hne : Desk.Holds fin g pids i d)
    (hself : ∀ job, Job.Holds fin g pids d.told job →
      Prog.wp (f job) (fun x d' => d.Asked d' ∧ x.2.Holds fin g pids d'.told) (fun _ => True) d)
    (hother : ∀ job, Job.Apart g pids job → Prog.wp (f job) (fun x d' => Desk.Quiet fin g pids d d' ∧
      (Reports fin g pids d'.told → x.2.Apart g pids)) (fun _ => True) d) (k : ℕ) :
    Prog.wp (TableOp.runOnJob f k) (fun _ d' => Reports fin g pids d'.told → Desk.Holds fin g pids i d')
      (fun _ => True) d := by
  obtain ⟨pre, job, post, hhead, hlen, hjob, hpre, hpost⟩ := hne.jobs
  unfold TableOp.runOnJob
  rw [Prog.wp_get_bind]
  split
  · exact fun _ => hne
  rename_i j hk
  rw [Prog.wp_bind]
  rw [hhead] at hk
  rcases Nat.lt_trichotomy k pre.length with hlt | rfl | hgt
  · rw [List.getElem?_append_left hlt] at hk
    refine Prog.wp_mono (hother j (hpre j (List.mem_of_getElem? hk))) ?_ (fun _ h => h)
    intro x d' h hr
    have hjob' := hjob.quiet h.1
    refine ⟨pre.set k x.2, job, post, ?_, by simpa using hlen, hjob', fun j' hj' => ?_, hpost⟩
    · show d'.manager.head.set k x.2 = _
      rw [h.1.asked.manager, hhead, List.set_append_left _ _ hlt]
    · rcases List.mem_or_eq_of_mem_set hj' with hj' | rfl
      · exact hpre j' hj'
      · exact h.2 hr
  · obtain rfl : job = j := by simpa using hk
    refine Prog.wp_mono (hself job hjob) ?_ (fun _ h => h)
    intro x d' h hr
    refine ⟨pre, x.2, post, ?_, hlen, h.2, hpre, hpost⟩
    show d'.manager.head.set pre.length x.2 = _
    rw [h.1.manager, hhead, List.set_append_right _ _ le_rfl, Nat.sub_self, List.set_cons_zero]
  · obtain ⟨m, rfl⟩ : ∃ m, k = pre.length + (m + 1) := ⟨k - pre.length - 1, by omega⟩
    rw [List.getElem?_append_right (by omega), Nat.add_sub_cancel_left, List.getElem?_cons_succ] at hk
    refine Prog.wp_mono (hother j (hpost j (List.mem_of_getElem? hk))) ?_ (fun _ h => h)
    intro x d' h hr
    have hjob' := hjob.quiet h.1
    refine ⟨pre, job, post.set m x.2, ?_, hlen, hjob', hpre, fun j' hj' => ?_⟩
    · show d'.manager.head.set (pre.length + (m + 1)) x.2 = _
      rw [h.1.asked.manager, hhead, List.set_append_right _ _ (by omega), Nat.add_sub_cancel_left,
        List.set_cons_succ]
    · rcases List.mem_or_eq_of_mem_set hj' with hj' | rfl
      · exact hpost j' hj'
      · exact h.2 hr

/-- **A collector keeps it.** -/
theorem deskHolds_step (hg : 0 < g) (hpos : ∀ p ∈ pids, 0 < p) (hnd : pids.Nodup) (hne : pids ≠ [])
    {op : TableOp} (hop : op.collects = true) (h : Desk.Holds fin g pids i d) (hs : tableStep fresh d op = some d')
    (hr : Reports fin g pids d'.told) : Desk.Holds fin g pids i d' := by
  have hwp : Prog.wp op.run (fun _ d' => Reports fin g pids d'.told → Desk.Holds fin g pids i d')
      (fun _ => True) d := by
    cases op with
    | reap =>
      obtain ⟨pre, job, post, hhead, hlen, hjob, hpre, hpost⟩ := h.jobs
      show Prog.wp (Prog.get >>= fun d => reapJobsWith Desk.wait d.manager.head >>= fun jobs =>
        Prog.modify (Desk.setJobs jobs)) _ _ d
      rw [Prog.wp_get_bind, Prog.wp_bind, hhead]
      unfold reapJobsWith
      rw [Prog.wp_mapList_append]
      refine Prog.wp_mono (wp_reapJobs_apart fin hg hpre d) ?_ (fun _ h => h)
      intro pre' d₁ h₁
      simp only [Prog.mapList, Prog.wp_bind, Prog.wp_pure]
      refine Prog.wp_mono (wp_reapJob_held fin hpos hg hnd hne d₁ (hjob.quiet h₁.1)) ?_
        (fun _ h => h)
      intro job' d₂ h₂
      refine Prog.wp_mono (wp_reapJobs_apart fin hg hpost d₂) ?_ (fun _ h => h)
      intro post' d₃ h₃ _
      have hjob' := h₂.2.quiet h₃.1
      exact ⟨pre', job', post', rfl, h₁.2.2.trans hlen, hjob', h₁.2.1, h₃.2.1⟩
    | waitForeground k =>
      exact wp_runOnJob_holds h (fun job hj => wp_wait_held fin hpos hnd hne d hj)
        (fun job hj => wp_wait_apart fin hpos hj d) k
    | «continue» k =>
      refine wp_runOnJob_holds h (fun job hj => ?_) (fun job hj => ?_) k
      · refine Prog.wp_mono (wp_continue_jobs (P := Job.Holds fin g pids d.told) hj (hj.resume fin hne) d)
          ?_ (fun _ h => h)
        intro x d' h'
        exact ⟨⟨h'.1, h'.2.1, h'.2.2.1 ▸ List.prefix_refl _⟩, h'.2.2.1 ▸ h'.2.2.2⟩
      · refine Prog.wp_mono (wp_continue_jobs (P := Job.Apart g pids) hj hj.resume d) ?_
          (fun _ h => h)
        intro x d' h'
        refine ⟨⟨⟨h'.1, h'.2.1, h'.2.2.1 ▸ List.prefix_refl _⟩, fun e _ _ hc => ?_⟩,
          fun _ => h'.2.2.2⟩
        rw [h'.2.2.1]
        exact hc
    | _ => cases hop
  unfold tableStep at hs
  split at hs
  · split at hs
    · rename_i u d₁ hrun
      obtain rfl := Option.some.inj hs
      exact Prog.wp_done hwp hrun hr
    · cases hs
  · cases hs

theorem deskHolds_run (hg : 0 < g) (hpos : ∀ p ∈ pids, 0 < p) (hnd : pids.Nodup) (hne : pids ≠ [])
    {tr : List TableOp} (hops : ∀ op ∈ tr, op.collects = true) (h : Desk.Holds fin g pids i d)
    (hrun : Run (tableStep fresh) d tr d') (hr : Reports fin g pids d'.told) : Desk.Holds fin g pids i d' := by
  have hinv := @Run.invariant _ _ (tableStep fresh) d d' tr (fun tr d' => (∀ op ∈ tr, op.collects = true) →
    Reports fin g pids d'.told → Desk.Holds fin g pids i d') (fun _ _ => h) ?_ hrun
  · exact hinv hops hr
  · intro tr d₁ op d₂ _ ih hs hops hr
    have hold := ih (fun o ho => hops o (by simp [ho])) (hr.of_prefix (told_step hs))
    exact deskHolds_step hg hpos hnd hne (hops op (by simp)) hold hs hr

end Runs

/-! ### The result -/

section Result

variable {fin : Int → Termination} {g : Int} {pids : List Int} {told : List Told} {job : Job}

theorem Job.Holds.finished (h : job.Holds fin g pids told) (hne : pids ≠ []) (hr : Reports fin g pids told)
    (hall : ∀ p ∈ pids, Ended told p) : job.status = .done ∧ job.processes = pids.map (finished fin) := by
  have hentries : ∀ e ∈ job.processes, e = MiniShell.finished fin e.pid := fun e he =>
    (h.entries hr e he).ended (hall _ (h.listed ▸ List.mem_map_of_mem he))
  have hprocesses : job.processes = pids.map (MiniShell.finished fin) := by
    rw [← h.listed, Job.pids, List.map_map]
    exact (List.map_id'' (fun _ => rfl) _).symm.trans (List.map_congr_left hentries)
  refine ⟨?_, hprocesses⟩
  have hne' : job.processes ≠ [] := by
    intro hnil
    rw [hnil] at hprocesses
    exact hne (List.map_eq_nil_iff.mp hprocesses.symm)
  have hdone : ∀ e ∈ job.processes, e.status = .done := fun e he => by rw [hentries e he]; rfl
  rw [h.aggregated.entries hne', aggregate, if_neg, if_neg]
  · rintro ⟨e, he, hs⟩
    rw [hdone e he] at hs
    cases hs
  · rintro ⟨e, he, hs⟩
    rw [hdone e he] at hs
    cases hs

theorem jobExitStatus_finished (h : job.processes = pids.map (finished fin)) {last : Int}
    (hlast : pids.getLast? = some last) : jobExitStatus job = (fin last).exitStatus := by
  have hl : jobLastProcess job = some (finished fin last) := by
    unfold jobLastProcess
    rw [h, List.getLast?_map, hlast]
    rfl
  have hmacros := exitStatus_macros (fin last)
  have hended := ended_macros (fin last)
  unfold jobExitStatus
  rw [hl]
  dsimp only [finished]
  rw [if_pos rfl]
  cases hx : WIFEXITED (fin last).status with
  | true =>
    rw [if_pos hx] at hmacros
    rw [if_pos rfl]
    exact hmacros
  | false =>
    rw [hx, Bool.false_or] at hended
    rw [hx, if_neg (by decide)] at hmacros
    rw [if_neg (by decide), if_pos hended]
    exact hmacros

theorem Job.Holds.not_done (h : job.Holds fin g pids told) (hr : Reports fin g pids told) {p : Int}
    (hp : p ∈ pids) (hn : ¬ Ended told p) : job.status ≠ .done := by
  rw [← h.listed] at hp
  obtain ⟨e, he, rfl⟩ := List.mem_map.mp hp
  have halive := (h.entries hr e he).alive hn
  rw [h.aggregated.entries (List.ne_nil_of_mem he), aggregate]
  split
  · simp
  · rename_i hrun
    rw [if_pos]
    · simp
    · refine ⟨e, he, ?_⟩
      cases hs : e.status with
      | running => exact absurd ⟨e, he, hs⟩ hrun
      | stopped => rfl
      | done => exact absurd hs halive

end Result

/-- **Who collects, and in which order, makes no difference.**  A job is started with the processes `pids`, which stay
in its group and terminate as `fin` says, and whatever is reported about them in between is collected by `job_reap`
and `job_wait_foreground` in any order.  When all terminations have been collected the job is done and every entry
holds the status of its own process, so that the exit status is that of the last one; before, the job is not done. -/
theorem job_collected (fin : Int → Termination) (d d' : Desk) (i : ℕ) (job : Job) (pids : List Int)
    (fresh : Job → Bool) (tr : List TableOp) (hjob : d.manager.head[i]? = some job)
    (hprocesses : job.processes = pids.map Process.new) (hstatus : job.status = .running) (hpgid : 0 < job.pgid)
    (hne : pids ≠ []) (hpos : ∀ p ∈ pids, 0 < p) (hnd : pids.Nodup)
    (hapart : ∀ k j, k ≠ i → d.manager.head[k]? = some j → j.Apart job.pgid pids) (htold : d.told = [])
    (hops : ∀ op ∈ tr, op.collects = true) (hrun : Run (tableStep fresh) d tr d')
    (hr : Reports fin job.pgid pids d'.told) :
    ∃ job', d'.manager.head[i]? = some job' ∧ job'.pids = pids ∧
      ((∀ p ∈ pids, Ended d'.told p) → job'.status = .done ∧ job'.processes = pids.map (finished fin) ∧
        ∀ last, pids.getLast? = some last → jobExitStatus job' = (fin last).exitStatus) ∧
      ((∃ p ∈ pids, ¬ Ended d'.told p) → job'.status ≠ .done) := by
  have hlt : i < d.manager.head.length := (List.getElem?_eq_some_iff.mp hjob).1
  have hrunning : ∀ p ∈ job.processes, p.status = .running ∧ ¬ Ended d.told p.pid := by
    intro p hp
    rw [hprocesses] at hp
    obtain ⟨q, -, rfl⟩ := List.mem_map.mp hp
    exact ⟨rfl, by rw [htold]; simp [Ended]⟩
  have hholds : job.Holds fin job.pgid pids d.told := by
    refine ⟨rfl, ?_, ⟨fun hne' => ?_, fun _ => hstatus⟩, fun _ p hp => ?_⟩
    · rw [Job.pids, hprocesses, List.map_map]
      exact List.map_id'' (fun _ => rfl) _
    · obtain ⟨p, hp⟩ := List.exists_mem_of_ne_nil _ hne'
      rw [aggregate, if_pos ⟨p, hp, (hrunning p hp).1⟩, hstatus]
    · refine ⟨fun he => absurd he (hrunning p hp).2, fun _ hd => ?_⟩
      rw [(hrunning p hp).1] at hd
      cases hd
  have hstart : Desk.Holds fin job.pgid pids i d := by
    refine ⟨d.manager.head.take i, job, d.manager.head.drop (i + 1), ?_, by simp; omega, hholds, ?_, ?_⟩
    · have hdrop := List.drop_eq_getElem_cons hlt
      rw [(List.getElem?_eq_some_iff.mp hjob).2] at hdrop
      rw [← hdrop, List.take_append_drop]
    · intro j hj
      obtain ⟨k, hk⟩ := List.mem_iff_getElem?.mp hj
      have hki : k < i := by
        have := (List.getElem?_eq_some_iff.mp hk).1
        simp at this
        omega
      rw [List.getElem?_take_of_lt hki] at hk
      exact hapart k j (by omega) hk
    · intro j hj
      obtain ⟨k, hk⟩ := List.mem_iff_getElem?.mp hj
      rw [List.getElem?_drop] at hk
      exact hapart (i + 1 + k) j (by omega) hk
  obtain ⟨pre, job', post, hhead, hlen, hjob', -, -⟩ :=
    (deskHolds_run hpgid hpos hnd hne hops hstart hrun hr).jobs
  refine ⟨job', by rw [hhead, ← hlen]; simp, hjob'.listed, fun hall => ?_, fun hleft => ?_⟩
  · obtain ⟨hdone, hfin⟩ := hjob'.finished hne hr hall
    exact ⟨hdone, hfin, fun last hlast => jobExitStatus_finished hfin hlast⟩
  · obtain ⟨p, hp, hn⟩ := hleft
    exact hjob'.not_done hr hp hn

/-! A pipeline of two.  Its first process is stopped, the second one terminates and is collected by the wait, and
the first one is continued, terminates and is collected by `job_reap`. -/

/-- What the kernel may tell, checked answer by answer. -/
theorem reports_of_all {fin : Int → Termination} {g : Int} {pids : List Int} {told : List Told}
    (hall : (told.all fun t => match t.answer with
      | .report p status => !decide (p ∈ pids) || ((t.target == p || t.target == -g) &&
          (!(WIFEXITED status || WIFSIGNALED status) || status == (fin p).status))
      | _ => true) = true)
    (horder : ((List.range told.length).all fun i => match told[i]? with
      | some ⟨_, .report p _⟩ => !decide (p ∈ pids) || !decide (Ended (told.take i) p)
      | some ⟨target, .err .ECHILD⟩ => !decide (target ∈ pids) || decide (Ended (told.take i) target)
      | _ => true) = true) : Reports fin g pids told := by
  refine ⟨?_, ?_, ?_, ?_⟩
  · rintro ⟨target, answer⟩ ht p status rfl hp
    have h := List.all_eq_true.mp hall _ ht
    simp only [hp, decide_true, Bool.not_true, Bool.false_or, Bool.and_eq_true, Bool.or_eq_true, beq_iff_eq] at h
    exact h.1
  · rintro ⟨target, answer⟩ ht p status rfl hp hends
    have h := List.all_eq_true.mp hall _ ht
    simp only [hp, hends, decide_true, Bool.not_true, Bool.false_or, Bool.and_eq_true, beq_iff_eq] at h
    exact h.2
  · rintro pre ⟨target, answer⟩ post p status rfl rfl hp
    have h := List.all_eq_true.mp horder pre.length (by simp)
    simpa [hp] using h
  · rintro pre ⟨target, answer⟩ post rfl hp rfl
    have h := List.all_eq_true.mp horder pre.length (by simp)
    simpa [show target ∈ pids from hp] using h

/-- The pipeline, as it has been launched after another job. -/
def pairJob : Job := { Job.new 2 5 [] with processes := [Process.new 5, Process.new 6] }
def pairWaits : List WaitRes :=
  [.report 5 (Change.stopped SIGTSTP).status, .nothing, .nothing, .err .EINTR,
    .report 6 (Change.ended (.exited 3)).status, .report 5 Change.continued.status, .nothing,
    .report 5 (Change.ended (.exited 0)).status, .nothing]
def pairDesk : Desk :=
  ⟨⟨[pairJob, { Job.new 1 4 [] with processes := [Process.new 4] }], 3⟩, pairWaits, [], [], []⟩
def pairSteps : List TableOp := [.reap, .waitForeground 0, .reap, .reap]
def pairFin (pid : Int) : Termination := if pid = 6 then .exited 3 else .exited 0
def pairEnd : Desk := (runFrom (tableStep fun _ => true) pairDesk pairSteps).getD pairDesk

/-- The exit status of the pipeline is that of its second process. -/
theorem pairEnd_status : ∃ job, pairEnd.manager.head[0]? = some job ∧ job.status = .done ∧
    jobExitStatus job = 3 := by
  have hapart : ∀ k j, k ≠ 0 → pairDesk.manager.head[k]? = some j → j.Apart pairJob.pgid [5, 6] := by
    intro k j hk hj
    obtain rfl : j = { Job.new 1 4 [] with processes := [Process.new 4] } := by
      rcases k with _ | _ | k
      · exact absurd rfl hk
      · exact (Option.some.inj hj).symm
      · cases hj
    exact ⟨by decide, by decide, by decide⟩
  have hrun : Run (tableStep fun _ => true) pairDesk pairSteps pairEnd := Run.of_runFrom (by decide +kernel)
  have hr : Reports pairFin pairJob.pgid [5, 6] pairEnd.told :=
    reports_of_all (by decide +kernel) (by decide +kernel)
  obtain ⟨job, hjob, -, hdone, -⟩ :=
    job_collected pairFin pairDesk pairEnd 0 pairJob [5, 6] (fun _ => true) pairSteps
    rfl rfl rfl (by decide) (by decide) (by decide) (by decide) hapart rfl (by decide) hrun hr
  obtain ⟨hs, -, hstatus⟩ := hdone (by decide +kernel)
  exact ⟨job, hjob, hs, hstatus 6 rfl⟩

end MiniShell
