import MiniShell.Spec.Run

/-!
# Signals to single processes

The shell signals a single process only when it rolls a launch or a failed wait back.  `execute_pipeline` rolls back
every child it has started, also one that the failed wait has already collected; no other function signals a
process that has been collected.
-/

namespace MiniShell

open MiniShell.Lib

section

variable {w w' : World}

theorem After.logOf {K : List Event → Prop} (h : After K w w') : LogOf K w w' := by
  obtain ⟨seg, hseg, hk, -⟩ := h.log
  exact ⟨seg, hseg, hk⟩

/-- What only looks after the jobs signals no single process. -/
theorem killSound_logOf {α : Type} {m : Sh α} (h : Prog.wp m (fun _ w' => LogExt (Event.Of Call.Tame) w w')
    (LogExt (Event.Of Call.Tame) w) w) : ∀ e ∈ logOf m w, e.KillSound :=
  fun e he => killSound_of_tame (@logOf_of_wp _ m (fun seg => ∀ e ∈ seg, e.Of Call.Tame) w h e he)

theorem Upkeeps.killSound {α : Type} {m : Sh α} (h : Upkeeps m) (w : World) : ∀ e ∈ logOf m w, e.KillSound :=
  killSound_logOf (Prog.wp_mono (h w) (fun _ _ h => h.log) (fun _ h => h))

/-- **Who is signalled.**  In every run of `execute_pipeline` the signals to single processes go to children that
have not been collected if and only if its wait does not fail after it has collected one of its children; in every
run of `execute_single`, `builtin_fg`, `job_reap` and `job_shutdown` they always do. -/
theorem kill_targets_uncollected (com : Command) (next : List Command) (w : World) :
    ((∀ e ∈ logOf (executePipeline com next) w, e.KillSound) ↔
      ¬ FailsAfterCollecting (forks (logOf (executePipeline com next) w))
        (answers (logOf (executePipeline com next) w))) ∧
    (∀ e ∈ logOf (executeSingle com) w, e.KillSound) ∧ (∀ e ∈ logOf builtinFg w, e.KillSound) ∧
    (∀ e ∈ logOf jobReap w, e.KillSound) ∧ ∀ e ∈ logOf jobShutdown w, e.KillSound := by
  refine ⟨?_, ?_, upkeeps_builtinFg.killSound w, ?_, ?_⟩
  · exact @logOf_of_wp _ _ KillsIff w
      (Prog.wp_mono (wp_executePipeline com next w) (fun _ _ h => h.logOf) (fun _ h => h))
  · exact (@logOf_of_wp _ _ (fun seg => (∀ e ∈ seg, e.KillSound) ∧ KillsIff seg) w
      (Prog.wp_mono (wp_executeSingle com w) (fun _ _ h => h.logOf) (fun _ h => h))).1
  · exact killSound_logOf (Prog.wp_mono (wp_jobReap w)
      (fun _ _ h => h.log.mono fun _ => Event.Of.mono fun _ => tame_of_asking) (fun _ h => h))
  · exact killSound_logOf (Prog.wp_mono (wp_jobShutdown w) (fun _ _ h => h.log) (fun _ h => h))

/-! A pipeline of two runs in the foreground.  Its first process exits and is collected, the second one has moved to
a group of its own, so that the next `waitpid` finds no child in the group of the pipeline. -/

def leaverScript : List Item :=
  List.replicate 13 (.res .ok) ++ [.env (.terminate 101 (.exited 0)), .env (.regroup 102 102), .res .ok]

/-- What `execute_pipeline` logs then. -/
def leaverLog : List Event :=
  logOf (executePipeline (wordCommand false [97]) [wordCommand false [98]]) (freshShell leaverScript)

/-- A `kill` of a pid that is no child's. -/
def Event.killsStranger : Event → Bool
  | .call (.kill target _ _) k _ => 0 < target && target ∉ k.pids
  | _ => false

/-- A child that has been collected is sent a `SIGKILL`. -/
theorem collected_child_killed : ∃ e ∈ leaverLog, ¬ e.KillSound := by
  have h : leaverLog.any Event.killsStranger = true := by decide +kernel
  obtain ⟨e, he, hk⟩ := List.any_eq_true.mp h
  refine ⟨e, he, ?_⟩
  cases e with
  | env e => cases hk
  | call c k js =>
    cases c with
    | kill target sig r =>
      simp only [Event.killsStranger, Bool.and_eq_true, decide_eq_true_eq] at hk
      exact fun hs => hk.2 (hs hk.1)
    | _ => cases hk

end

end MiniShell
