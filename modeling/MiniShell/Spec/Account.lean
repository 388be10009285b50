import MiniShell.Lib.FirstOpen
import MiniShell.Spec.Atomic
import MiniShell.Spec.Wait

/-!
# Accounting for children

`Accounted pids jobs` — every child that has not been collected is open in the newest job that lists it: it
has exactly one entry there, and that entry is not `PROCESS_DONE`.  `Keeps live job job'` is what the
functions that wait do to a job when `live` are the children left afterwards.
-/

namespace MiniShell

open MiniShell.Lib

/-- The child `p` has one entry in the job, and it is not done. -/
def Job.Opens (p : Int) (job : Job) : Prop :=
  ∃ process, job.processes.filter (·.pid == p) = [process] ∧ process.status ≠ .done

/-- A job as the shell keeps it: with entries, of positive pids, and with the status they add up to. -/
structure Job.Tidy (job : Job) : Prop where
  nonempty : job.processes ≠ []
  pos : ∀ process ∈ job.processes, 0 < process.pid
  pgid : 0 < job.pgid
  status : (jobUpdateStatus job).status = job.status

/-- Every child that has not been collected is open in the newest job that lists it. -/
structure Accounted (pids : List Int) (jobs : List Job) : Prop where
  covered : ∀ p ∈ pids, FirstOpen (p ∈ Job.pids ·) (Job.Opens p) jobs
  tidy : ∀ job ∈ jobs, job.Tidy

/-- What waiting does to a job, when `live` are the children left afterwards. -/
structure Keeps (live : List Int) (job job' : Job) : Prop where
  pids : job'.pids = job.pids
  pgid : job'.pgid = job.pgid
  opens : job.Tidy → ∀ p ∈ live, job.Opens p → job'.Opens p
  tidy : job.Tidy → job'.Tidy

section Keeps

variable {live live' : List Int} {job job' job'' : Job}

theorem Keeps.refl (live : List Int) (job : Job) : Keeps live job job :=
  ⟨rfl, rfl, fun _ _ _ h => h, fun h => h⟩

theorem Keeps.trans (h : Keeps live job job') (h' : Keeps live' job' job'') (hl : ∀ p ∈ live', p ∈ live) :
    Keeps live' job job'' where
  pids := h'.pids.trans h.pids
  pgid := h'.pgid.trans h.pgid
  opens ht p hp ho := h'.opens (h.tidy ht) p hp (h.opens ht p (hl p hp) ho)
  tidy ht := h'.tidy (h.tidy ht)

theorem Keeps.mono (h : Keeps live job job') (hl : ∀ p ∈ live', p ∈ live) : Keeps live' job job' :=
  h.trans (Keeps.refl live' job') hl

theorem jobUpdateStatus_status_congr {job job' : Job} (h : job.processes = job'.processes)
    (hne : job.processes ≠ []) : (jobUpdateStatus job).status = (jobUpdateStatus job').status := by
  have hne' : job'.processes ≠ [] := h ▸ hne
  unfold jobUpdateStatus
  rw [if_neg hne, if_neg hne', h]
  split
  · rfl
  · split <;> rfl

/-- `job_update_status` makes a job tidy. -/
theorem tidy_jobUpdateStatus {job : Job} (hne : job.processes ≠ []) (hpos : ∀ e ∈ job.processes, 0 < e.pid)
    (hpgid : 0 < job.pgid) : (jobUpdateStatus job).Tidy where
  nonempty := by simpa using hne
  pos := by simpa using hpos
  pgid := by simpa using hpgid
  status := jobUpdateStatus_status_congr (jobUpdateStatus_processes job) (by simpa using hne)

/-- A tidy job that is done has no open entry. -/
theorem Job.Tidy.not_opens (h : job.Tidy) (hs : job.status = .done) (p : Int) : ¬ job.Opens p := by
  rintro ⟨process, hf, hd⟩
  have hall := (jobUpdateStatus_done h.nonempty).mp (h.status.trans hs)
  have hm : process ∈ job.processes.filter (·.pid == p) := by simp [hf]
  exact hd (hall process (List.mem_filter.mp hm).1)

/-- The entries are replaced one by one, and an entry stays open as long as its child is there. -/
structure KeepsEntry (live : List Int) (process process' : Process) : Prop where
  pid : process'.pid = process.pid
  opens : 0 < process.pid → process.pid ∈ live → process.status ≠ .done → process'.status ≠ .done

theorem keepsEntry_pids {l l' : List Process} (h : List.Forall₂ (KeepsEntry live) l l') :
    l'.map Process.pid = l.map Process.pid := by
  induction h with
  | nil => rfl
  | cons hr _ ih => simp [hr.pid, ih]

theorem keepsEntry_filter {l l' : List Process} (h : List.Forall₂ (KeepsEntry live) l l') (p : Int) :
    List.Forall₂ (KeepsEntry live) (l.filter (·.pid == p)) (l'.filter (·.pid == p)) := by
  induction h with
  | nil => exact .nil
  | cons hr _ ih =>
    rename_i e e' l l' _
    rw [List.filter_cons, List.filter_cons, hr.pid]
    split
    · exact .cons hr ih
    · exact ih

/-- **Replacing the entries of a job and aggregating its status.** -/
theorem keeps_of_entries {l' : List Process} (h : List.Forall₂ (KeepsEntry live) job.processes l') :
    Keeps live job (jobUpdateStatus { job with processes := l' }) where
  pids := by simpa [Job.pids] using keepsEntry_pids h
  pgid := by simp
  opens := by
    rintro ht p hp ⟨process, hf, hd⟩
    have hfl := keepsEntry_filter h p
    rw [hf] at hfl
    obtain ⟨process', hr, hl'⟩ : ∃ e, KeepsEntry live process e ∧ l'.filter (·.pid == p) = [e] := by
      cases hl : l'.filter (·.pid == p) with
      | nil => rw [hl] at hfl; cases hfl
      | cons e rest =>
        rw [hl] at hfl
        obtain ⟨hr, hrest⟩ := List.forall₂_cons.mp hfl
        exact ⟨e, hr, by rw [List.forall₂_nil_left_iff.mp hrest]⟩
    have hm : process ∈ job.processes.filter (·.pid == p) := by simp [hf]
    obtain ⟨hm, heq⟩ := List.mem_filter.mp hm
    simp only [beq_iff_eq] at heq
    exact ⟨process', by simpa using hl', hr.opens (ht.pos process hm) (heq ▸ hp) hd⟩
  tidy ht := by
    have hpids := keepsEntry_pids h
    refine tidy_jobUpdateStatus (fun hnil => ?_) (fun e he => ?_) ht.pgid
    · have : job.processes.map Process.pid = [] := by rw [← hpids]; simpa using hnil
      exact ht.nonempty (List.map_eq_nil_iff.mp this)
    · have : e.pid ∈ l'.map Process.pid := List.mem_map_of_mem he
      rw [hpids] at this
      obtain ⟨e₀, he₀, heq⟩ := List.mem_map.mp this
      exact heq ▸ ht.pos e₀ he₀

theorem keepsEntry_refl (live : List Int) (process : Process) : KeepsEntry live process process :=
  ⟨rfl, fun _ _ h => h⟩

/-- A report that is not a termination leaves an entry open. -/
theorem keepsEntry_apply {process : Process} {status : ℕ}
    (h : process.pid ∈ live → (WIFEXITED status || WIFSIGNALED status) = false) :
    KeepsEntry live process (processApplyWaitStatus process status) where
  pid := processApplyWaitStatus_pid ..
  opens _ hp hd := by
    unfold processApplyWaitStatus
    dsimp only
    rw [if_neg (by rw [h hp]; decide)]
    split
    · simp
    · split
      · simp
      · exact hd

theorem keepsEntry_applyToFirst {pid : Int} {status : ℕ}
    (h : pid ∈ live → (WIFEXITED status || WIFSIGNALED status) = false) (l : List Process) :
    List.Forall₂ (KeepsEntry live) l (applyToFirst status pid l) := by
  induction l with
  | nil => exact .nil
  | cons process rest ih =>
    unfold applyToFirst
    split
    · rename_i hpid
      exact .cons (keepsEntry_apply fun hp => h (hpid ▸ hp))
        (List.forall₂_same.mpr fun e _ => keepsEntry_refl live e)
    · exact .cons (keepsEntry_refl live process) ih

theorem keeps_store {pid : Int} {status : ℕ}
    (h : pid ∈ live → (WIFEXITED status || WIFSIGNALED status) = false) :
    Keeps live job (job.store pid status) :=
  keeps_of_entries (keepsEntry_applyToFirst h job.processes)

/-- Entries that are set running again stay open. -/
theorem keepsEntry_resume (l : List Process) : List.Forall₂ (KeepsEntry live) l (resumeProcesses l) := by
  unfold resumeProcesses
  rw [List.forall₂_map_right_iff, List.forall₂_same]
  intro process _
  refine ⟨by split <;> rfl, fun _ _ hd => ?_⟩
  split
  · simp
  · exact hd

/-- The saved modes of the terminal do not matter. -/
theorem keeps_modes (modes : Termios) :
    Keeps live job { job with terminalModes := modes, terminalModesValid := true } where
  pids := rfl
  pgid := rfl
  opens _ _ _ h := h
  tidy h := by
    let saved := { job with terminalModes := modes, terminalModesValid := true }
    have hs : (jobUpdateStatus saved).status = (jobUpdateStatus job).status :=
      jobUpdateStatus_status_congr rfl h.nonempty
    exact ⟨h.nonempty, h.pos, h.pgid, hs.trans h.status⟩

/-- **What a foreground wait does to its job.** -/
theorem Pends.keeps {as : List WaitRes} (h : Pends job as job') (hl : ∀ p ∈ live, p ∉ collected as) :
    Keeps live job job' := by
  induction h with
  | start => exact Keeps.refl live job
  | interrupted _ _ ih => exact ih fun p hp hc => hl p hp (by simp [hc])
  | @stored as job' pid status _ _ _ ih =>
    refine (ih fun p hp hc => hl p hp (by simp [hc])).trans (keeps_store fun hp => ?_) fun _ hp => hp
    by_contra hended
    simp only [Bool.not_eq_false] at hended
    refine hl pid hp ?_
    rw [collected_append, collected_report, if_pos hended]
    simp

theorem Waits.keeps {as : List WaitRes} {r : Int} (h : Waits job as r job')
    (hl : ∀ p ∈ live, p ∉ collected as) : Keeps live job job' := by
  cases h with
  | settled h _ => exact h.keeps hl
  | failed h _ => exact h.keeps fun p hp hc => hl p hp (by simp [hc])
  | stray h _ _ => exact h.keeps fun p hp hc => hl p hp (by simp [hc])

end Keeps

/-! ### The table -/

section Table

variable {pids pids' : List Int} {jobs jobs' : List Job}

/-- The jobs of the table are replaced one by one. -/
theorem Accounted.keeps (h : Accounted pids jobs) (hl : ∀ p ∈ pids', p ∈ pids)
    (hk : List.Forall₂ (Keeps pids') jobs jobs') : Accounted pids' jobs' where
  covered p hp := by
    refine FirstOpen.forall₂ ?_ (h.covered p (hl p hp))
    have hmem : ∀ {l l' : List Job}, List.Forall₂ (Keeps pids') l l' → (∀ job ∈ l, job.Tidy) →
        List.Forall₂ (fun job job' : Job => (p ∈ job.pids ↔ p ∈ job'.pids) ∧
          (job.Opens p → job'.Opens p)) l l' := by
      intro l l' hk
      induction hk with
      | nil => exact fun _ => .nil
      | cons hr _ ih =>
        intro ht
        exact .cons ⟨by rw [hr.pids], hr.opens (ht _ (by simp)) p hp⟩
          (ih fun job hj => ht job (List.mem_cons_of_mem _ hj))
    exact hmem hk h.tidy
  tidy := by
    have ht := h.tidy
    clear h hl
    induction hk with
    | nil => exact ht
    | cons hr _ ih =>
      intro job hj
      rcases List.mem_cons.mp hj with rfl | hj
      · exact hr.tidy (ht _ (by simp))
      · exact ih (fun job hj => ht job (List.mem_cons_of_mem _ hj)) job hj

theorem Accounted.mono (h : Accounted pids jobs) (hl : ∀ p ∈ pids', p ∈ pids) : Accounted pids' jobs :=
  ⟨fun p hp => h.covered p (hl p hp), h.tidy⟩

theorem forall₂_modify {live : List Int} {i : ℕ} {job : Job} {f : Job → Job} (hi : jobs[i]? = some job)
    (hk : Keeps live job (f job)) : List.Forall₂ (Keeps live) jobs (jobs.modify i f) := by
  induction jobs generalizing i with
  | nil => simp at hi
  | cons j js ih =>
    cases i with
    | zero =>
      obtain rfl : j = job := by simpa using hi
      exact .cons hk (List.forall₂_same.mpr fun _ _ => Keeps.refl ..)
    | succ i => exact .cons (Keeps.refl ..) (ih (by simpa using hi))

/-- All jobs before position `i` are done. -/
def DoneBefore (i : ℕ) (jobs : List Job) : Prop := ∀ j < i, ∀ job, jobs[j]? = some job → job.status = .done

/-- When the job at `i` and all before it are done, so is the first one of its group. -/
theorem DoneBefore.find_done {i : ℕ} {job : Job} (h : DoneBefore i jobs) (hi : jobs[i]? = some job)
    (hd : job.status = .done) :
    ∀ job', jobs.find? (fun job' => job'.pgid == job.pgid) = some job' → job'.status = .done := by
  intro job' hf
  obtain ⟨hp, j, hj, hget, hbefore⟩ := List.find?_eq_some_iff_getElem.mp hf
  have hlt : i < jobs.length := (List.getElem?_eq_some_iff.mp hi).1
  rcases Nat.lt_trichotomy j i with hji | rfl | hij
  · exact h j hji job' (by rw [List.getElem?_eq_getElem hj, hget])
  · obtain rfl : job = job' := by
      rw [List.getElem?_eq_getElem hj, hget] at hi
      exact (Option.some.inj hi).symm
    exact hd
  · have := hbefore i hij
    rw [(List.getElem?_eq_some_iff.mp hi).2] at this
    simp at this

/-- The children of a new job are open in it. -/
theorem Accounted.launched (h : Accounted pids jobs) {ps : List Int} (hne : ps ≠ []) (hpos : ∀ p ∈ ps, 0 < p)
    (hnew : ∀ p ∈ ps, p ∉ pids) (hnd : ps.Nodup) {n : ℕ} {pgid : Int} {c : Bytes} (hpgid : 0 < pgid) :
    Accounted (pids ++ ps) ({ Job.new n pgid c with processes := ps.map Process.new } :: jobs) where
  covered p hp := by
    have hlist : p ∈ Job.pids { Job.new n pgid c with processes := ps.map Process.new } ↔ p ∈ ps := by
      simp [Job.pids, Function.comp_def, Process.new]
    rcases List.mem_append.mp hp with hp | hp
    · exact .skip (fun hm => hnew p (hlist.mp hm) hp) (h.covered p hp)
    · refine .head (hlist.mpr hp) ⟨Process.new p, ?_, by simp [Process.new]⟩
      have hfun : (fun e : Process => e.pid == p) ∘ Process.new = fun q => q == p := rfl
      simp only [List.filter_map, hfun]
      rw [List.filter_beq, List.count_eq_one_of_mem hnd hp]
      rfl
  tidy job hj := by
    rcases List.mem_cons.mp hj with rfl | hj
    · refine ⟨by simpa using hne, ?_, hpgid, ?_⟩
      · intro e he
        obtain ⟨p, hp, rfl⟩ := List.mem_map.mp he
        exact hpos p hp
      · refine jobUpdateStatus_running.mpr (Or.inr ?_)
        obtain ⟨p, hp⟩ := List.exists_mem_of_ne_nil ps hne
        exact ⟨Process.new p, List.mem_map_of_mem hp, rfl⟩
    · exact h.tidy job hj

/-- Jobs that are done may be cleaned up. -/
theorem Accounted.cleanup (h : Accounted pids jobs) :
    Accounted pids (jobs.filter fun job => job.status != .done) where
  covered p hp := by
    have hmem : ∀ job ∈ jobs, job.Opens p → (job.status != .done) = true := by
      intro job hj ho
      by_contra hd
      exact (h.tidy job hj).not_opens (by simpa using hd) p ho
    exact FirstOpen.filter hmem (h.covered p hp)
  tidy job hj := h.tidy job (List.mem_filter.mp hj).1

/-- The first job of a group may be removed when it is done. -/
theorem Accounted.remove (h : Accounted pids jobs) {g : Int}
    (hd : ∀ job, jobs.find? (fun job => job.pgid == g) = some job → job.status = .done) :
    Accounted pids (jobs.eraseP fun job => job.pgid == g) where
  covered p hp := FirstOpen.eraseP
    (fun job hj => (h.tidy job (List.mem_of_find?_eq_some hj)).not_opens (hd job hj) p) (h.covered p hp)
  tidy job hj := h.tidy job (List.mem_of_mem_eraseP hj)

end Table

end MiniShell
