import MiniShell.Spec.Run

/-!
# The processes `job_shutdown` waits for

The last loop of `job_shutdown` waits for single processes, the loop before it signals groups.  So it waits only for
processes it has killed if and only if no process that is left when the grace period ends has moved out of the
groups of the table.
-/

namespace MiniShell

open MiniShell.Lib

/-! ### Groups and their members -/

/-- The pids of the children, with their groups. -/
def Kernel.members (k : Kernel) : List (Int × Int) := k.children.map fun c => (c.pid, c.pgid)

/-- The members of the groups after something has happened outside the shell. -/
def regroup (ms : List (Int × Int)) : Env → List (Int × Int)
  | .regroup pid pgid => ms.map fun m => if m.1 = pid then (m.1, pgid) else m
  | _ => ms

/-- When the groups are signalled in this order, each after what the script holds before it, the process `pid` is at
that moment a member of one that is signalled. -/
def Reached (pid : Int) (ms : List (Int × Int)) (script : List Item) : List Int → Prop
  | [] => False
  | pgid :: pgids =>
    let (used, _, rest) := nextChoice script
    let ms := (envs used).foldl regroup ms
    (0 < pid ∧ (pid, pgid) ∈ ms) ∨ Reached pid ms rest pgids

/-- The groups `job_shutdown` signals. -/
def jobGroups (jobs : List Job) : List Int := (jobs.map Job.pgid).filter (0 < ·)

/-- The pid of an entry that is not done. -/
def Process.unfinished (process : Process) : List Int := if process.status = .done then [] else [process.pid]

/-- The pids of the entries that are not done. -/
def unfinished (jobs : List Job) : List Int := jobs.flatMap fun job => job.processes.flatMap Process.unfinished

/-- A `SIGKILL` that is delivered to the process `pid`. -/
def Event.Strikes (pid : Int) : Event → Prop
  | .call (.kill target sig _) k _ =>
    sig = SIGKILL ∧ 0 < pid ∧ ∃ c ∈ k.children, c.pid = pid ∧ c.named target = true
  | _ => False

/-- Every `waitpid(pid, &status, 0)` is preceded by a `SIGKILL` that was delivered to the process `pid`. -/
def WaitsKilled (seg : List Event) : Prop :=
  ∀ front rest pid k js, seg = front ++ .call (.waitpid pid noOpts) k js :: rest →
    ∃ e ∈ front, e.Strikes pid

section Members

variable {k : Kernel} {pid : Int}

theorem updateChildren_members (p : Child → Bool) (f : ChildState → ChildState) :
    (k.updateChildren p f).members = k.members := by
  unfold Kernel.members Kernel.updateChildren
  rw [List.map_map]
  apply List.map_congr_left
  intro c _
  simp only [Function.comp]
  split <;> rfl

theorem happen_members (e : Env) : (k.happen e).members = regroup k.members e := by
  cases e with
  | regroup pid pgid =>
    simp only [Kernel.happen, Kernel.members, Kernel.moveChild, regroup, List.map_map]
    apply List.map_congr_left
    intro c _
    simp only [Function.comp]
    split <;> rfl
  | terminate pid t => exact updateChildren_members ..
  | stop pid sig => exact updateChildren_members ..
  | resume pid => exact updateChildren_members ..
  | ttyModes modes => rfl
  | ttyPgrp pgid => rfl

theorem foldl_happen_members (es : List Env) : (es.foldl Kernel.happen k).members = es.foldl regroup k.members := by
  induction es generalizing k with
  | nil => rfl
  | cons e es ih => rw [List.foldl_cons, List.foldl_cons, ih, happen_members]

theorem kill_members {target : Int} {sig : Sig} {c : Choice} : (k.kill target sig c).2.members = k.members := by
  unfold Kernel.kill
  split
  · exact updateChildren_members ..
  · split <;> rfl

/-- A group is signalled through its number. -/
theorem mem_members {pgid : Int} (hpgid : 0 < pgid) :
    (pid, pgid) ∈ k.members ↔ ∃ c ∈ k.children, c.pid = pid ∧ c.named (-pgid) = true := by
  have hneg : ¬ 0 < -pgid := by omega
  simp only [Kernel.members, List.mem_map, Prod.mk.injEq, Child.named, if_neg hneg, neg_neg, beq_iff_eq]

end Members

/-! ### The `SIGKILL` loop -/

/-- What the `SIGKILL` loop does on the jobs `l`. -/
structure Struck (l : List Job) (w w' : World) : Prop where
  ctx : w'.ctx = w.ctx
  dead : ∀ pid, w.kernel.Dead pid ∨ Reached pid w.kernel.members w.script (jobGroups l) → w'.kernel.Dead pid
  log : ∃ seg, w'.log = w.log ++ seg ∧ (∀ e ∈ seg, e.Of (Call.ToGroup SIGKILL)) ∧
    ∀ pid, (∃ e ∈ seg, e.Strikes pid) ↔ Reached pid w.kernel.members w.script (jobGroups l)

theorem Struck.refl (w : World) : Struck [] w w where
  ctx := rfl
  dead pid h := h.resolve_right id
  log := ⟨[], by simp, by simp, fun pid => by simp [Reached, jobGroups]⟩

/-- One more group is signalled. -/
theorem Struck.step {l : List Job} {job : Job} {w w₂ : World} (hpgid : 0 < job.pgid) {used rest : List Item}
    {c : Choice} (hnext : nextChoice w.script = (used, c, rest)) {r : Res}
    (h : Struck l { (w.drift used rest).record (.kill (-job.pgid) SIGKILL r) with
      kernel := ((w.drift used rest).kernel.kill (-job.pgid) SIGKILL c).2 } w₂) : Struck (job :: l) w w₂ := by
  let v := w.drift used rest
  have hms : v.kernel.members = (envs used).foldl regroup w.kernel.members := foldl_happen_members ..
  have hreached : ∀ pid, Reached pid w.kernel.members w.script (jobGroups (job :: l)) ↔
      (0 < pid ∧ ∃ c ∈ v.kernel.children, c.pid = pid ∧ c.named (-job.pgid) = true) ∨
        Reached pid v.kernel.members rest (jobGroups l) := by
    intro pid
    have hg : jobGroups (job :: l) = job.pgid :: jobGroups l := by simp [jobGroups, hpgid]
    rw [hg, ← mem_members hpgid, hms, Reached, hnext]
  obtain ⟨seg, hseg, hev, hiff⟩ := h.log
  have hrest : ∀ pid, (∃ e ∈ seg, e.Strikes pid) ↔
      Reached pid v.kernel.members rest (jobGroups l) := by
    intro pid
    have := hiff pid
    rwa [kill_members] at this
  refine ⟨h.ctx, fun pid hpid => ?_, (envs used).map Event.env ++
    .call (.kill (-job.pgid) SIGKILL r) v.kernel w.jobs :: seg, ?_, ?_, fun pid => ?_⟩
  · have hdead := h.dead pid
    rw [kill_members] at hdead
    rcases hpid with hd | hr
    · exact hdead (Or.inl (dead_kill (dead_drift hd)))
    · rcases (hreached pid).mp hr with ⟨-, x, hx, rfl, hn⟩ | hr
      · exact hdead (Or.inl (kill_reached hx hn))
      · exact hdead (Or.inr hr)
  · rw [hseg]
    simp [World.record, drift_log, v, World.jobs]
  · intro e he
    rcases List.mem_append.mp he with he | he
    · obtain ⟨x, -, rfl⟩ := List.mem_map.mp he
      trivial
    · rcases List.mem_cons.mp he with rfl | he
      · exact ⟨by omega, rfl⟩
      · exact hev e he
  · rw [hreached, ← hrest]
    constructor
    · rintro ⟨e, he, hs⟩
      rcases List.mem_append.mp he with he | he
      · obtain ⟨x, -, rfl⟩ := List.mem_map.mp he
        exact hs.elim
      · rcases List.mem_cons.mp he with rfl | he
        · exact Or.inl hs.2
        · exact Or.inr ⟨e, he, hs⟩
    · rintro (hs | ⟨e, he, hs⟩)
      · exact ⟨_, List.mem_append_right _ (List.mem_cons_self ..), rfl, hs⟩
      · exact ⟨e, by simp [he], hs⟩

/-- **The `SIGKILL` loop** strikes exactly the processes that are in a group when it is signalled. -/
theorem wp_killJobs_struck (w : World) {R : World → Prop} :
    Prog.wp killJobs (fun _ w' => Struck w.jobs w w') R w := by
  have key : ∀ l w, Prog.wp (Prog.forList (fun job : Job => do
      if job.pgid > 0 then
        let _ ← kill (-job.pgid) SIGKILL) l : Sh Unit) (fun _ w' => Struck l w w') R w := by
    intro l
    induction l with
    | nil => exact fun w => Struck.refl w
    | cons job l ih =>
      intro w
      unfold Prog.forList
      rw [Prog.wp_bind]
      split
      · rename_i hpgid
        rw [Prog.wp_bind]
        obtain ⟨⟨used, c, rest⟩, hnext⟩ : ∃ t, nextChoice w.script = t := ⟨_, rfl⟩
        refine wp_syscall_next hnext ?_
        change Prog.wp (Prog.forList _ l) _ _ _
        exact Prog.wp_mono (ih _) (fun _ w₂ h => h.step hpgid hnext) (fun _ h => h)
      · rename_i hpgid
        change Prog.wp (Prog.forList _ l) _ _ w
        refine Prog.wp_mono (ih w) ?_ (fun _ h => h)
        intro _ w₂ h
        have hg : jobGroups (job :: l) = jobGroups l := by simp [jobGroups, show ¬ 0 < job.pgid by omega]
        exact ⟨h.ctx, hg ▸ h.dead, hg ▸ h.log⟩
  exact key w.jobs w

/-! ### The last loop -/

/-- The calls of the last loop, when it waits for the processes `pids`. -/
def Call.ForcesOf (pids : List Int) : Call → Prop
  | .waitpid pid opts => opts = noOpts ∧ pid ∈ pids
  | .waited _ opts _ => opts = noOpts
  | _ => False

/-- Between `w` and `w'` the last loop has waited for each of `pids`. -/
structure Forced (pids : List Int) (w w' : World) : Prop where
  dead : ∀ pid, w.kernel.Dead pid → w'.kernel.Dead pid
  log : ∃ seg, w'.log = w.log ++ seg ∧ (∀ e ∈ seg, e.Of (Call.ForcesOf pids)) ∧
    ∀ pid ∈ pids, ∃ k js, .call (.waitpid pid noOpts) k js ∈ seg

/-- The last loop waits for ever, for one of `pids` that was not dead. -/
structure Stuck (pids : List Int) (w w' : World) : Prop where
  log : ∃ seg, w'.log = w.log ++ seg ∧ (∀ e ∈ seg, e.Of (Call.ForcesOf pids)) ∧
    ∃ pid ∈ pids, ¬ (0 < pid ∧ w.kernel.Dead pid) ∧ ∃ k js, .call (.waitpid pid noOpts) k js ∈ seg

section Forced

variable {pids pids' : List Int} {w w₁ w₂ : World}

theorem forcesOf_mono (h : ∀ p ∈ pids, p ∈ pids') {e : Event} (he : e.Of (Call.ForcesOf pids)) :
    e.Of (Call.ForcesOf pids') := by
  refine Event.Of.mono ?_ he
  intro c hc
  cases c with
  | waitpid pid opts => exact ⟨hc.1, h pid hc.2⟩
  | waited target opts r => exact hc
  | _ => exact hc.elim

theorem Forced.refl (w : World) : Forced [] w w := ⟨fun _ h => h, [], by simp, by simp, by simp⟩

theorem Forced.trans (h : Forced pids w w₁) (h' : Forced pids' w₁ w₂) : Forced (pids ++ pids') w w₂ := by
  obtain ⟨seg, hseg, hev, hm⟩ := h.log
  obtain ⟨seg', hseg', hev', hm'⟩ := h'.log
  refine ⟨fun p hp => h'.dead p (h.dead p hp), seg ++ seg',
    by rw [hseg', hseg, List.append_assoc], fun e he => ?_,
    fun p hp => ?_⟩
  · rcases List.mem_append.mp he with he | he
    · exact forcesOf_mono (fun p hp => List.mem_append_left _ hp) (hev e he)
    · exact forcesOf_mono (fun p hp => List.mem_append_right _ hp) (hev' e he)
  · rcases List.mem_append.mp hp with hp | hp
    · obtain ⟨k, js, hk⟩ := hm p hp
      exact ⟨k, js, List.mem_append_left _ hk⟩
    · obtain ⟨k, js, hk⟩ := hm' p hp
      exact ⟨k, js, List.mem_append_right _ hk⟩

theorem Forced.stuck (h : Forced pids w w₁) (h' : Stuck pids' w₁ w₂) : Stuck (pids ++ pids') w w₂ := by
  obtain ⟨seg, hseg, hev, -⟩ := h.log
  obtain ⟨seg', hseg', hev', p, hp, hd, k, js, hk⟩ := h'.log
  refine ⟨seg ++ seg', by rw [hseg', hseg, List.append_assoc], fun e he => ?_, p, List.mem_append_right _ hp,
    fun hpd => hd ⟨hpd.1, h.dead p hpd.2⟩, k, js, List.mem_append_right _ hk⟩
  rcases List.mem_append.mp he with he | he
  · exact forcesOf_mono (fun p hp => List.mem_append_left _ hp) (hev e he)
  · exact forcesOf_mono (fun p hp => List.mem_append_right _ hp) (hev' e he)

theorem Stuck.mono (h : Stuck pids w w₁) (hp : ∀ p ∈ pids, p ∈ pids') : Stuck pids' w w₁ := by
  obtain ⟨seg, hseg, hev, p, hm, hd, hk⟩ := h.log
  exact ⟨seg, hseg, fun e he => forcesOf_mono hp (hev e he), p, hp p hm, hd, hk⟩

/-- The last loop over a list. -/
theorem wp_mapList_forced {α β : Type} {f : α → Sh β} (pids : α → List Int)
    (hf : ∀ a w, Prog.wp (f a) (fun _ w' => Forced (pids a) w w') (Stuck (pids a) w) w) (l : List α)
    (w : World) :
    Prog.wp (Prog.mapList f l) (fun _ w' => Forced (l.flatMap pids) w w') (Stuck (l.flatMap pids) w) w := by
  refine Prog.wp_mono (Prog.wp_mapList (fun _ rest w' => ∃ front, l = front ++ rest ∧
    Forced (front.flatMap pids) w w') ?_ l w ⟨[], rfl, .refl w⟩) ?_ (fun _ h => h)
  · rintro bs a rest w₁ ⟨front, rfl, h₁⟩
    refine Prog.wp_mono (hf a w₁) (fun b w₂ h₂ => ⟨front ++ [a], by simp, ?_⟩) (fun w₂ h₂ => ?_)
    · simpa using h₁.trans h₂
    · apply (h₁.stuck h₂).mono
      intro p hp
      rw [List.flatMap_append, List.flatMap_cons, ← List.append_assoc]
      exact List.mem_append_left _ hp
  · rintro bs w' ⟨front, hl, h⟩
    obtain rfl : l = front := by simpa using hl
    exact h

theorem Forced.congr (h : Forced pids w w₁) (hp : ∀ p, p ∈ pids ↔ p ∈ pids') : Forced pids' w w₁ := by
  obtain ⟨seg, hseg, hev, hm⟩ := h.log
  exact ⟨h.dead, seg, hseg, fun e he => forcesOf_mono (fun p => (hp p).mp) (hev e he), fun p hq => hm p
    ((hp p).mpr hq)⟩

/-- One answer. -/
theorem Asked.forced {pid : Int} {r : WaitRes} (h : Asked pid noOpts r w w₁) : Forced [pid] w w₁ := by
  obtain ⟨es, k, -, -, hlog⟩ := h.answer
  obtain ⟨seg, hseg, hev⟩ := @Asked.logExt _ _ _ _ _ h (Call.ForcesOf [pid]) ⟨rfl, by simp⟩ fun _ => rfl
  refine ⟨fun _ => h.dead, seg, hseg, hev, fun p hp => ⟨w.kernel, w.jobs, ?_⟩⟩
  rw [List.append_cancel_left (hseg.symm.trans hlog), List.mem_singleton.mp hp]
  exact List.mem_cons_self ..

/-- No answer: the process was not dead. -/
theorem Unanswered.stuck {pid : Int} (h : Unanswered pid noOpts w w₁) : Stuck [pid] w w₁ := by
  obtain ⟨es, hk, hlog⟩ := h.log
  obtain ⟨seg, hseg, hev⟩ := @Unanswered.logExt _ _ _ _ h (Call.ForcesOf [pid]) ⟨rfl, by simp⟩ fun _ => rfl
  refine ⟨seg, hseg, hev, pid, by simp, fun ⟨hpos, hd⟩ => ?_, w.kernel, w.jobs, ?_⟩
  · exact dead_poll hpos (hk ▸ foldl_happen_dead es hd) h.none
  · rw [List.append_cancel_left (hseg.symm.trans hlog)]
    exact List.mem_cons_self ..

/-- `process_force_reap` waits for its process when it is not done. -/
theorem wp_processForceReap_forced (process : Process) (w : World) :
    Prog.wp (processForceReap process) (fun _ w' => Forced process.unfinished w w')
      (Stuck process.unfinished w) w := by
  unfold processForceReap Process.unfinished
  split
  · exact Forced.refl w
  refine Prog.wp_loop (fun _ w' => w' = w ∨ Forced [process.pid] w w') ?_ () w (Or.inl rfl)
  rintro - w₁ h₁
  have more : ∀ {r w₂}, Asked process.pid noOpts r w₁ w₂ → Forced [process.pid] w w₂ := by
    intro r w₂ ha
    rcases h₁ with rfl | h₁
    · exact ha.forced
    · exact (h₁.trans ha.forced).congr (by simp)
  have stuck : ∀ {w₂}, Unanswered process.pid noOpts w₁ w₂ → Stuck [process.pid] w w₂ := by
    intro w₂ hu
    rcases h₁ with rfl | h₁
    · exact hu.stuck
    · exact (h₁.stuck hu.stuck).mono (by simp)
  rw [Prog.wp_bind]
  refine wp_ask ?_ fun _ w₂ hu => stuck hu
  intro r w₂ ha hlt _
  cases r with
  | nothing => exact more ha
  | report pid status =>
    dsimp only
    split <;> exact more ha
  | err e =>
    cases e with
    | EINTR => exact ⟨Or.inr (more ha), hlt rfl⟩
    | _ => exact more ha

/-- **The last loop** waits for the processes that are not done. -/
theorem wp_forceReapJobs_forced (w : World) :
    Prog.wp forceReapJobs (fun _ w' => Forced (unfinished w.jobs) w w') (Stuck (unfinished w.jobs) w) w := by
  have hjob : ∀ job w, Prog.wp (forceReapJob job)
      (fun _ w' => Forced (job.processes.flatMap Process.unfinished) w w')
      (Stuck (job.processes.flatMap Process.unfinished) w) w := by
    intro job w
    unfold forceReapJob
    rw [Prog.wp_bind]
    exact wp_mapList_forced Process.unfinished wp_processForceReap_forced job.processes w
  unfold forceReapJobs
  rw [Prog.wp_get_bind, Prog.wp_bind]
  exact Prog.wp_mono (wp_mapList_forced _ hjob w.jobs w) (fun _ w' h => ⟨h.dead, h.log⟩) (fun _ h => h)

end Forced

/-! ### `job_shutdown` -/

/-- Only the `SIGKILL` loop strikes, and only the last loop waits. -/
theorem waitsKilled_append {a b c : List Event} {pids : List Int} (ha : ∀ e ∈ a, e.Of Call.Gentle)
    (hb : ∀ e ∈ b, e.Of (Call.ToGroup SIGKILL)) (hc : ∀ e ∈ c, e.Of (Call.ForcesOf pids)) :
    WaitsKilled (a ++ (b ++ c)) ↔
      ∀ pid k js, .call (.waitpid pid noOpts) k js ∈ c → ∃ e ∈ b, e.Strikes pid := by
  have quiet : ∀ {P : Call → Prop}, (∀ target r, ¬ P (.kill target SIGKILL r)) →
    ∀ {e : Event} {pid : Int},
      e.Of P → ¬ e.Strikes pid := by
    intro P hP e pid he hs
    cases e with
    | env e => exact hs
    | call x k js =>
      cases x with
      | kill target sig r => exact hP target r (hs.1 ▸ he)
      | _ => exact hs
  constructor
  · intro h pid k js hm
    obtain ⟨c₁, c₂, rfl⟩ := List.append_of_mem hm
    obtain ⟨e, he, hs⟩ := h (a ++ (b ++ c₁)) c₂ pid k js (by simp)
    rcases List.mem_append.mp he with he | he
    · exact absurd hs (quiet (fun _ _ h => h.2 rfl) (ha e he))
    · rcases List.mem_append.mp he with he | he
      · exact ⟨e, he, hs⟩
      · exact absurd hs (quiet (fun _ _ h => h) (hc e (List.mem_append_left _ he)))
  · intro h front rest pid k js heq
    obtain ⟨f₁, rfl, h₁⟩ := split_after
      (fun hm => absurd (ha _ hm) (by simp [Event.Of, Call.Gentle, noOpts, WNOHANG])) heq
    obtain ⟨f₂, rfl, h₂⟩ := split_after (fun hm => absurd (hb _ hm) id) h₁
    obtain ⟨e, he, hs⟩ := h pid k js (by simp [h₂])
    exact ⟨e, by simp [he], hs⟩

theorem strikes_pos {e : Event} {pid : Int} (h : e.Strikes pid) : 0 < pid := by
  cases e with
  | env e => exact h.elim
  | call c k js => cases c <;> first | exact h.2.1 | exact h.elim

theorem unfinished_subset {jobs : List Job} {pid : Int} (h : pid ∈ unfinished jobs) :
    pid ∈ jobs.flatMap Job.pids := by
  obtain ⟨job, hj, h⟩ := List.mem_flatMap.mp h
  obtain ⟨process, hp, h⟩ := List.mem_flatMap.mp h
  refine List.mem_flatMap.mpr ⟨job, hj, List.mem_map.mpr ⟨process, hp, ?_⟩⟩
  unfold Process.unfinished at h
  split at h
  · simp at h
  · exact (List.mem_singleton.mp h).symm

/-- Every process that is not done is reached by the signals to the groups of the table. -/
def World.AllReached (w : World) : Prop :=
  ∀ pid ∈ unfinished w.jobs, Reached pid w.kernel.members w.script (jobGroups w.jobs)

/-- The two last loops, after a log of the grace period. -/
theorem wp_killAndReap {w w₁ : World} {a : List Event} (ha : w₁.log = w.log ++ a)
    (hgentle : ∀ e ∈ a, e.Of Call.Gentle) :
    Prog.wp (do
      killJobs
      forceReapJobs
      Prog.modify (World.updateManager jobDestroy) : Sh Unit)
      (fun _ w' => LogOf (fun seg => WaitsKilled seg ↔ w₁.AllReached) w w')
      (LogOf (fun seg => WaitsKilled seg ↔ w₁.AllReached) w) w₁ := by
  rw [Prog.wp_bind]
  refine Prog.wp_mono (wp_killJobs_struck w₁) ?_ (fun _ h => h)
  intro _ w₂ h₂
  have hjobs : w₂.jobs = w₁.jobs := by simp [World.jobs, h₂.ctx]
  obtain ⟨b, hb, hgroup, hstruck⟩ := h₂.log
  rw [Prog.wp_bind]
  refine Prog.wp_mono (wp_forceReapJobs_forced w₂) (fun _ w₃ h₃ => ?_) (fun w₃ h₃ => ?_)
  · obtain ⟨c, hc, hforces, hall⟩ := h₃.log
    refine ⟨a ++ (b ++ c), by rw [← List.append_assoc, ← List.append_assoc, ← ha, ← hb, ← hc]; rfl, ?_⟩
    refine (waitsKilled_append hgentle hgroup hforces).trans ⟨fun h pid hp => ?_, fun h pid k js hm => ?_⟩
    · obtain ⟨k, js, hm⟩ := hall pid (hjobs ▸ hp)
      exact (hstruck pid).mp (h pid k js hm)
    · exact (hstruck pid).mpr (h pid (hjobs ▸ (hforces _ hm).2))
  · obtain ⟨c, hc, hforces, p, hp, hdead, k, js, hm⟩ := h₃.log
    -- the process that is waited for without end has not been struck
    have hnot : ¬ ∃ e ∈ b, e.Strikes p := fun hs =>
      hdead ⟨hs.elim fun _ h => strikes_pos h.2, h₂.dead p (Or.inr ((hstruck p).mp hs))⟩
    refine ⟨a ++ (b ++ c), by rw [← List.append_assoc, ← List.append_assoc, ← ha, ← hb, ← hc], ?_⟩
    refine (waitsKilled_append hgentle hgroup hforces).trans ⟨fun h => ?_, fun h => ?_⟩
    · exact absurd (h p k js hm) hnot
    · exact absurd ((hstruck p).mpr (h p (hjobs ▸ hp))) hnot

/-- **Whom `job_shutdown` waits for.**  Every process it waits for without `WNOHANG` has been killed by it before if
and only if every process that is not done when the grace period ends is reached by the signals to the groups. -/
theorem shutdown_waits_killed (w : World) :
    WaitsKilled (logOf jobShutdown w) ↔ (shutdownGrace w).state.AllReached := by
  obtain ⟨_, w₁, hrun, hu⟩ := Prog.wp_total.mp (wp_shutdownGrace w)
  rw [hrun, Outcome.state_done]
  by_cases hnil : w.jobs = []
  · -- nothing is done for an empty table
    have hlog : logOf jobShutdown w = [] := by
      simp [logOf, jobShutdown, Prog.bind_apply, Prog.get, hnil, Prog.modify, World.updateManager]
    rw [hlog]
    refine ⟨fun _ pid hp => ?_, fun _ front rest pid k js heq => by simp at heq⟩
    have hsub := hu.table.subset (unfinished_subset hp)
    simp [hnil] at hsub
  · obtain ⟨a, ha, hgentle⟩ := hu.log
    refine @logOf_of_wp _ _ (fun seg => WaitsKilled seg ↔ w₁.AllReached) w ?_
    unfold Prog.wp
    rw [jobShutdown_eq w hnil, Prog.bind_done hrun]
    exact wp_killAndReap ha hgentle

/-! A pipeline of two runs in the background, and its second process moves to a group of its own. -/

def leftScript : List Item := List.replicate 13 (.res .ok) ++ [.env (.regroup 102 102)]

/-- The world when the shell exits then. -/
def leftWorld : World := (runSteps [backgroundPipeline] (freshShell leftScript)).state

theorem leftWorld_reachable : Reachable leftWorld :=
  ⟨freshShell leftScript, [backgroundPipeline], ⟨rfl, rfl, rfl⟩, by decide +kernel⟩

/-- A `waitpid` that waits for the process 102. -/
def Event.waitsFor102 : Event → Bool
  | .call (.waitpid pid opts) _ _ => pid == 102 && opts == noOpts
  | _ => false

/-- Other than a `SIGKILL` for the process 102. -/
def Event.spares102 : Event → Bool
  | .call (.kill target sig _) k _ => !(sig == SIGKILL && k.children.any fun c => c.pid == 102 && c.named target)
  | _ => true

/-- `job_shutdown` waits, for ever, for a process it has not killed. -/
theorem shutdown_waits_unkilled : ∃ w, Reachable w ∧ ¬ WaitsKilled (logOf jobShutdown w) := by
  refine ⟨leftWorld, leftWorld_reachable, fun h => ?_⟩
  have hwait : (logOf jobShutdown leftWorld).any Event.waitsFor102 = true := by decide +kernel
  have hspared : (logOf jobShutdown leftWorld).all Event.spares102 = true := by decide +kernel
  obtain ⟨e, he, hw⟩ := List.any_eq_true.mp hwait
  obtain ⟨front, rest, hsplit⟩ := List.append_of_mem he
  obtain ⟨k, js, rfl⟩ : ∃ k js, e = .call (.waitpid 102 noOpts) k js := by
    cases e with
    | env e => cases hw
    | call c k js =>
      cases c with
      | waitpid pid opts =>
        simp only [Event.waitsFor102, Bool.and_eq_true, beq_iff_eq] at hw
        exact ⟨k, js, by rw [hw.1, hw.2]⟩
      | _ => cases hw
  obtain ⟨e, he, hs⟩ := h front rest 102 k js hsplit
  have hnot := List.all_eq_true.mp hspared e (by simp [hsplit, he])
  cases e with
  | env e => exact hs
  | call c k js =>
    cases c with
    | kill target sig r =>
      obtain ⟨rfl, -, x, hx, hxp, hn⟩ := hs
      simp only [Event.spares102, BEq.rfl, Bool.true_and, Bool.not_eq_true', List.any_eq_false] at hnot
      simpa [hxp, hn] using hnot x hx
    | _ => exact hs

end MiniShell
