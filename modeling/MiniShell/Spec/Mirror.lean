import MiniShell.Spec.Stopped

/-!
# The entries of the table and the children of the kernel

* `ProcessStatus.Shows` — an entry says what its child does; `ProcessStatus.Lags` — it does, or the child has a
  change to report;
* `Mirrored ms k` — the children that have not been collected are those of the open entries of `ms`, which lag
  behind them at most, and they are in the groups of their jobs;
* the lemmas of `Mirrored` say that it is kept by what happens outside, by a report that is stored in its entry,
  and by a `SIGCONT` together with the entries it sets running.
-/

namespace MiniShell

open MiniShell.Lib

/-! ### One entry and one child -/

/-- The entry says what the child does. -/
def ProcessStatus.Shows : ProcessStatus → ChildState → Prop
  | .running, .running _ => True
  | .stopped, .stopped _ _ => True
  | _, _ => False

/-- The entry is open and says what the child does, or `job_reap` would be told of a change. -/
def ProcessStatus.Lags (status : ProcessStatus) (state : ChildState) : Prop :=
  status ≠ .done ∧ (status.Shows state ∨ (state.report reapOpts).isSome = true)

section

variable {status : ProcessStatus} {state state' : ChildState}

/-- A child that does something else than before has a change to report. -/
theorem ProcessStatus.Lags.change (h : status.Lags state)
    (hs : state' = state ∨ (state'.report reapOpts).isSome = true) :
    status.Lags state' := by
  rcases hs with rfl | hs
  · exact h
  · exact ⟨h.1, Or.inr hs⟩

theorem terminate_change (t : Termination) (s : ChildState) :
    s.terminate t = s ∨ ((s.terminate t).report reapOpts).isSome = true := by
  cases s with
  | running r => exact Or.inr rfl
  | stopped sig r => cases t <;> first | exact Or.inl rfl | exact Or.inr rfl
  | zombie t' => exact Or.inl rfl

theorem stop_change (sig : Sig) (s : ChildState) :
    s.stop sig = s ∨ ((s.stop sig).report reapOpts).isSome = true := by
  cases s <;> first | exact Or.inl rfl | exact Or.inr rfl

theorem resume_change (s : ChildState) : s.resume = s ∨ (s.resume.report reapOpts).isSome = true := by
  cases s <;> first | exact Or.inl rfl | exact Or.inr rfl

theorem deliver_change (sig : Sig) (s : ChildState) :
    s.deliver sig = s ∨ ((s.deliver sig).report reapOpts).isSome = true := by
  unfold ChildState.deliver
  split
  · exact terminate_change ..
  · split
    · exact resume_change s
    · exact Or.inl rfl

/-- A child that has been continued is not stopped, and an entry that is set running lags behind it at most. -/
theorem lags_running_continued (s : ChildState) : ProcessStatus.running.Lags (s.deliver SIGCONT) := by
  refine ⟨by decide, ?_⟩
  cases s with
  | running r => exact Or.inl trivial
  | stopped sig r => exact Or.inl trivial
  | zombie t => exact Or.inr rfl

/-- A new child runs. -/
theorem lags_running_new : ProcessStatus.running.Lags (.running false) := ⟨by decide, Or.inl trivial⟩

/-- When the child has nothing to report the entry shows what it does. -/
theorem ProcessStatus.Lags.shows (h : status.Lags state) (hnone : state.report reapOpts = none) :
    status.Shows state := by
  rcases h.2 with hs | hs
  · exact hs
  · rw [hnone] at hs
    cases hs

end

/-! ### The entries and the children -/

/-- The entries of a job, with its group. -/
def Job.members (job : Job) : List (Int × Process) := job.processes.map (job.pgid, ·)

/-- The pids of the entries that are not done. -/
def openPids (ms : List (Int × Process)) : List Int :=
  (ms.filter fun m => m.2.status != .done).map fun m => m.2.pid

/-- The children that have not been collected are those of the open entries. -/
structure Mirrored (ms : List (Int × Process)) (k : Kernel) : Prop where
  distinct : k.pids.Nodup
  once : (openPids ms).Nodup
  open_iff : ∀ p, p ∈ openPids ms ↔ p ∈ k.pids
  lags : ∀ m ∈ ms, m.2.status ≠ .done → ∀ c ∈ k.children, c.pid = m.2.pid → m.2.status.Lags c.state
  group : ∀ m ∈ ms, m.2.status ≠ .done → ∀ c ∈ k.children, c.pid = m.2.pid → c.pgid = m.1

section

variable {ms ms' pre post : List (Int × Process)} {k : Kernel}

theorem openPids_append (ms ms' : List (Int × Process)) : openPids (ms ++ ms') = openPids ms ++ openPids ms' := by
  simp [openPids]

theorem openPids_cons_open {m : Int × Process} (h : m.2.status ≠ .done) (ms : List (Int × Process)) :
    openPids (m :: ms) = m.2.pid :: openPids ms := by
  simp [openPids, h]

theorem openPids_cons_done {m : Int × Process} (h : m.2.status = .done) (ms : List (Int × Process)) :
    openPids (m :: ms) = openPids ms := by
  simp [openPids, h]

theorem mem_openPids {p : Int} : p ∈ openPids ms ↔ ∃ m ∈ ms, m.2.status ≠ .done ∧ m.2.pid = p := by
  simp only [openPids, List.mem_map, List.mem_filter, bne_iff_ne, and_assoc]

/-- Entries that keep their pids and stay open or done. -/
theorem openPids_congr (h : List.Forall₂ (fun m m' : Int × Process => m'.2.pid = m.2.pid ∧
    (m'.2.status = .done ↔ m.2.status = .done)) ms ms') : openPids ms' = openPids ms := by
  induction h with
  | nil => rfl
  | @cons m m' ms ms' hm _ ih =>
    by_cases hd : m.2.status = .done
    · rw [openPids_cons_done hd, openPids_cons_done (hm.2.mpr hd), ih]
    · rw [openPids_cons_open hd, openPids_cons_open fun h' => hd (hm.2.mp h'), ih, hm.1]

/-- An open entry has a child. -/
theorem Mirrored.child (h : Mirrored ms k) {m : Int × Process} (hm : m ∈ ms) (ho : m.2.status ≠ .done) :
    ∃ c ∈ k.children, c.pid = m.2.pid :=
  List.mem_map.mp ((h.open_iff m.2.pid).mp (mem_openPids.mpr ⟨m, hm, ho, rfl⟩))

/-- A child has an open entry. -/
theorem Mirrored.member (h : Mirrored ms k) {c : Child} (hc : c ∈ k.children) :
    ∃ m ∈ ms, m.2.status ≠ .done ∧ m.2.pid = c.pid :=
  mem_openPids.mp ((h.open_iff c.pid).mpr (List.mem_map_of_mem hc))

/-! ### What keeps the entries and the children together -/

/-- A change of the states of some children that each of them has to report. -/
theorem Mirrored.update (h : Mirrored ms k) (p : Child → Bool) {f : ChildState → ChildState}
    (hf : ∀ s, f s = s ∨ ((f s).report reapOpts).isSome = true) : Mirrored ms (k.updateChildren p f) where
  distinct := by
    rw [Kernel.updateChildren_pids]
    exact h.distinct
  once := h.once
  open_iff q := by rw [Kernel.updateChildren_pids, h.open_iff]
  lags m hm ho c hc hpid := by
    obtain ⟨c₀, hc₀, rfl⟩ := Kernel.mem_updateChildren.mp hc
    split at hpid
    · rw [if_pos (by assumption)]
      exact (h.lags m hm ho c₀ hc₀ hpid).change (hf _)
    · rw [if_neg (by assumption)]
      exact h.lags m hm ho c₀ hc₀ hpid
  group m hm ho c hc hpid := by
    obtain ⟨c₀, hc₀, rfl⟩ := Kernel.mem_updateChildren.mp hc
    split at hpid
    · rw [if_pos (by assumption)]
      exact h.group m hm ho c₀ hc₀ hpid
    · rw [if_neg (by assumption)]
      exact h.group m hm ho c₀ hc₀ hpid

/-- The event leaves every process in its group. -/
def Env.Stays : Env → Prop
  | .regroup _ _ => False
  | _ => True

/-- **What happens outside.** -/
theorem Mirrored.happen (h : Mirrored ms k) {e : Env} (he : e.Stays) : Mirrored ms (k.happen e) := by
  cases e with
  | terminate p t => exact h.update _ (terminate_change t)
  | stop p sig => exact h.update _ (stop_change sig)
  | resume p => exact h.update _ resume_change
  | regroup p g => exact absurd he id
  | ttyModes m => exact ⟨h.distinct, h.once, h.open_iff, h.lags, h.group⟩
  | ttyPgrp g => exact ⟨h.distinct, h.once, h.open_iff, h.lags, h.group⟩

theorem Mirrored.happens (h : Mirrored ms k) {es : List Env} (hes : ∀ e ∈ es, e.Stays) :
    Mirrored ms (es.foldl Kernel.happen k) := by
  induction es generalizing k with
  | nil => exact h
  | cons e es ih => exact ih (h.happen (hes e (by simp))) fun e' he' => hes e' (by simp [he'])

/-- The entry of a child is the only open one with its pid. -/
theorem Mirrored.entry_unique {g : Int} {process : Process} (h : Mirrored (pre ++ (g, process) :: post) k)
    (ho : process.status ≠ .done) {m : Int × Process} (hm : m ∈ pre ∨ m ∈ post)
    (hmo : m.2.status ≠ .done) :
    m.2.pid ≠ process.pid := by
  intro heq
  have honce := h.once
  rw [openPids_append, openPids_cons_open ho] at honce
  obtain ⟨-, hcons, hdisj⟩ := List.nodup_append.mp honce
  rcases hm with hm | hm
  · exact hdisj _ (mem_openPids.mpr ⟨m, hm, hmo, heq⟩) _ List.mem_cons_self rfl
  · exact (List.nodup_cons.mp hcons).1 (mem_openPids.mpr ⟨m, hm, hmo, heq⟩)

/-- The entry is set to what its child is set to. -/
theorem Mirrored.set {g : Int} {process process' : Process} (h : Mirrored (pre ++ (g, process) :: post) k)
    (ho : process.status ≠ .done) (hpid : process'.pid = process.pid) {state : ChildState}
    (hshows : process'.status.Shows state) :
    Mirrored (pre ++ (g, process') :: post) (k.updateChildren (fun c => c.pid = process.pid) fun _ => state) := by
  have ho' : process'.status ≠ .done := by
    intro hd
    rw [hd] at hshows
    exact hshows
  have hopen : openPids (pre ++ (g, process') :: post) = openPids (pre ++ (g, process) :: post) := by
    have hnew : openPids ((g, process') :: post) = process'.pid :: openPids post := openPids_cons_open ho' post
    have hold : openPids ((g, process) :: post) = process.pid :: openPids post := openPids_cons_open ho post
    rw [openPids_append, openPids_append, hold, hnew, hpid]
  have hcases : ∀ m ∈ pre ++ (g, process') :: post, m = (g, process') ∨
      m ∈ pre ++ (g, process) :: post ∧ (m.2.status ≠ .done → m.2.pid ≠ process.pid) := by
    intro m hm
    rcases List.mem_append.mp hm with hm | hm
    · exact Or.inr ⟨by simp [hm], fun hmo => h.entry_unique ho (Or.inl hm) hmo⟩
    · rcases List.mem_cons.mp hm with rfl | hm
      · exact Or.inl rfl
      · exact Or.inr ⟨by simp [hm], fun hmo => h.entry_unique ho (Or.inr hm) hmo⟩
  refine ⟨?_, by rw [hopen]; exact h.once, fun p => ?_, fun m hm hmo c hc hcm => ?_, fun m hm hmo c hc hcm => ?_⟩
  · rw [Kernel.updateChildren_pids]
    exact h.distinct
  · rw [hopen, Kernel.updateChildren_pids, h.open_iff]
  · obtain ⟨c₀, hc₀, rfl⟩ := Kernel.mem_updateChildren.mp hc
    rcases hcases m hm with rfl | ⟨hm, hne⟩
    · have hp : c₀.pid = process.pid := by
        split at hcm <;> exact hcm.trans hpid
      rw [if_pos (by simpa using hp)]
      exact ⟨ho', Or.inl hshows⟩
    · have hp : ¬ c₀.pid = process.pid := fun hp => hne hmo (by split at hcm <;> exact hcm.symm.trans hp)
      rw [if_neg (by simpa using hp)] at hcm ⊢
      exact h.lags m hm hmo c₀ hc₀ hcm
  · obtain ⟨c₀, hc₀, rfl⟩ := Kernel.mem_updateChildren.mp hc
    have hcm₀ : c₀.pid = m.2.pid := by split at hcm <;> exact hcm
    have hgroup : c₀.pgid = m.1 := by
      rcases hcases m hm with rfl | ⟨hm, -⟩
      · exact h.group (g, process) (by simp) ho c₀ hc₀ (hcm₀.trans hpid)
      · exact h.group m hm hmo c₀ hc₀ hcm₀
    split <;> exact hgroup

/-- The entry is done and its child is collected. -/
theorem Mirrored.finish {g : Int} {process process' : Process} (h : Mirrored (pre ++ (g, process) :: post) k)
    (ho : process.status ≠ .done) (hd : process'.status = .done) (t : Termination) :
    Mirrored (pre ++ (g, process') :: post) (k.collect process.pid (.ended t)) := by
  have hopen : openPids (pre ++ (g, process') :: post) = openPids pre ++ openPids post := by
    have hnew : openPids ((g, process') :: post) = openPids post := openPids_cons_done hd post
    rw [openPids_append, hnew]
  have honce := h.once
  have hiff := h.open_iff
  rw [openPids_append, openPids_cons_open ho] at honce hiff
  have hmem : ∀ m ∈ pre ++ (g, process') :: post, m.2.status ≠ .done →
      m ∈ pre ++ (g, process) :: post := by
    intro m hm hmo
    rcases List.mem_append.mp hm with hm | hm
    · simp [hm]
    · rcases List.mem_cons.mp hm with rfl | hm
      · exact absurd hd hmo
      · simp [hm]
  have hsub : ∀ c ∈ (k.collect process.pid (.ended t)).children, c ∈ k.children := fun c hc =>
    (List.mem_filter.mp hc).1
  refine ⟨?_, ?_, fun p => ?_, fun m hm hmo c hc => h.lags m (hmem m hm hmo) hmo c (hsub c hc),
    fun m hm hmo c hc => h.group m (hmem m hm hmo) hmo c (hsub c hc)⟩
  · rw [Kernel.collect_pids]
    exact h.distinct.filter _
  · rw [hopen]
    exact List.Nodup.sublist (List.Sublist.append_left (List.sublist_cons_self ..) _) honce
  · have hnot : process.pid ∉ openPids pre ++ openPids post := (List.nodup_middle.mp honce).notMem
    rw [hopen, Kernel.collect_pids]
    simp only [List.mem_filter, ← hiff, List.mem_append, List.mem_cons, ne_eq, decide_not, Bool.not_eq_eq_eq_not,
      Bool.not_true, decide_eq_false_iff_not]
    constructor
    · rintro hp
      refine ⟨?_, ?_⟩
      · rcases hp with hp | hp
        · exact Or.inl hp
        · exact Or.inr (Or.inr hp)
      · rintro rfl
        exact hnot (List.mem_append.mpr hp)
    · rintro ⟨hp | hp | hp, hne⟩
      · exact Or.inl hp
      · exact absurd hp hne
      · exact Or.inr hp

/-- **A report that is stored in the entry of its child.** -/
theorem Mirrored.report {g : Int} {process : Process} (h : Mirrored (pre ++ (g, process) :: post) k)
    (ho : process.status ≠ .done) (change : Change) :
    Mirrored (pre ++ (g, processApplyWaitStatus process change.status) :: post) (k.collect process.pid change) := by
  cases change with
  | ended t =>
    exact h.finish ho (by rw [show (Change.ended t).status = t.status from rfl, processApplyWaitStatus_ended]) t
  | stopped sig => exact h.set ho (processApplyWaitStatus_pid ..) (by rw [processApplyWaitStatus_stopped]; trivial)
  | continued => exact h.set ho (processApplyWaitStatus_pid ..) (by rw [processApplyWaitStatus_continued]; trivial)

/-- **A `SIGCONT` to the group of a job whose stopped entries are set running.** -/
theorem Mirrored.resume {job : Job} (h : Mirrored (pre ++ job.members ++ post) k) (hg : 0 < job.pgid) :
    Mirrored (pre ++ Job.members { job with processes := resumeProcesses job.processes } ++ post)
      (k.updateChildren (Child.named (-job.pgid)) (·.deliver SIGCONT)) := by
  have hupdate := h.update (Child.named (-job.pgid)) (deliver_change SIGCONT)
  have hmembers : Job.members { job with processes := resumeProcesses job.processes } =
      job.members.map fun m => if m.2.status = .stopped then (m.1, { m.2 with status := .running }) else m := by
    unfold Job.members resumeProcesses
    rw [List.map_map, List.map_map]
    apply List.map_congr_left
    intro process _
    simp only [Function.comp]
    split <;> rfl
  have hopen : openPids (pre ++ Job.members { job with processes := resumeProcesses job.processes } ++ post) =
      openPids (pre ++ job.members ++ post) := by
    simp only [openPids_append]
    congr 2
    rw [hmembers]
    refine openPids_congr ?_
    rw [List.forall₂_map_right_iff, List.forall₂_same]
    intro m _
    split
    · rename_i hs
      exact ⟨rfl, by simp [hs]⟩
    · exact ⟨rfl, Iff.rfl⟩
  -- an entry of the new list is an old one, or it was stopped and runs now
  have hcases : ∀ m ∈ pre ++ Job.members { job with processes := resumeProcesses job.processes } ++ post,
      m ∈ pre ++ job.members ++ post ∨ ∃ m₀ ∈ pre ++ job.members ++ post, m₀.2.status =
        .stopped ∧ m₀.1 = job.pgid ∧
        m = (m₀.1, { m₀.2 with status := .running }) := by
    intro m hm
    rw [hmembers] at hm
    rcases List.mem_append.mp hm with hm | hm
    · rcases List.mem_append.mp hm with hm | hm
      · exact Or.inl (by simp [hm])
      · obtain ⟨m₀, hm₀, rfl⟩ := List.mem_map.mp hm
        have hgroup : m₀.1 = job.pgid := by
          obtain ⟨process, -, rfl⟩ := List.mem_map.mp hm₀
          rfl
        split
        · rename_i hs
          exact Or.inr ⟨m₀, by simp [hm₀], hs, hgroup, rfl⟩
        · exact Or.inl (by simp [hm₀])
    · exact Or.inl (by simp [hm])
  refine ⟨hupdate.distinct, by rw [hopen]; exact hupdate.once, fun p => by rw [hopen]; exact hupdate.open_iff p,
    fun m hm hmo c hc hpid => ?_, fun m hm hmo c hc hpid => ?_⟩
  · rcases hcases m hm with hm | ⟨m₀, hm₀, hs, hg₀, rfl⟩
    · exact hupdate.lags m hm hmo c hc hpid
    · have hgroup := hupdate.group m₀ hm₀ (by rw [hs]; decide) c hc hpid
      obtain ⟨c₀, hc₀, rfl⟩ := Kernel.mem_updateChildren.mp hc
      have hnamed : Child.named (-job.pgid) c₀ = true := by
        have : c₀.pgid = job.pgid := by
          rw [← hg₀, ← hgroup]
          split <;> rfl
        simp [Child.named, this, show ¬ job.pgid < 0 by omega]
      rw [if_pos hnamed]
      exact lags_running_continued _
  · rcases hcases m hm with hm | ⟨m₀, hm₀, hs, -, rfl⟩
    · exact hupdate.group m hm hmo c hc hpid
    · exact hupdate.group m₀ hm₀ (by rw [hs]; decide) c hc hpid

end

end MiniShell
