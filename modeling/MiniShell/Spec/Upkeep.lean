import MiniShell.Spec.Account

/-!
# Looking after the jobs

Between `w` and `w'` the shell has only looked after its jobs, `Upkeep P w w'`: it has made calls that satisfy
`P`, it has no new children, and whatever was accounted for still is.  The functions of `job.c`, `builtin.c`
and `dispatcher.c` that start nothing are all of this kind.
-/

namespace MiniShell

open MiniShell.Lib MiniShellError

/-- The calls that neither fork nor signal a single process. -/
def Call.Tame : Call → Prop
  | .fork .. => False
  | .kill target .. => target ≤ 0
  | _ => True

theorem tame_of_neutral {c : Call} (h : c.Neutral) : c.Tame := by
  cases c <;> first | exact absurd h id | trivial

/-- Between `w` and `w'` the table was left alone, and children can only have gone. -/
structure Watched (P : Call → Prop) (w w' : World) : Prop where
  ctx : w'.ctx = w.ctx
  live : ∀ p ∈ w'.kernel.pids, p ∈ w.kernel.pids
  log : LogExt (Event.Of P) w w'

/-- Between `w` and `w'` the shell has only looked after its jobs. -/
structure Upkeep (P : Call → Prop) (w w' : World) : Prop where
  live : ∀ p ∈ w'.kernel.pids, p ∈ w.kernel.pids
  log : LogExt (Event.Of P) w w'
  table : (w'.jobs.flatMap Job.pids).Sublist (w.jobs.flatMap Job.pids)
  accounted : Accounted w.kernel.pids w.jobs → Accounted w'.kernel.pids w'.jobs

section

variable {P P' : Call → Prop} {w w' w₁ w₂ w₃ : World}

theorem Watched.refl (w : World) : Watched P w w := ⟨rfl, fun _ h => h, .refl w⟩

theorem Watched.trans (h : Watched P w₁ w₂) (h' : Watched P w₂ w₃) : Watched P w₁ w₃ :=
  ⟨h'.ctx.trans h.ctx, fun p hp => h.live p (h'.live p hp), h.log.trans h'.log⟩

theorem Watched.jobs (h : Watched P w w') : w'.jobs = w.jobs := by simp [World.jobs, h.ctx]

theorem Watched.mono (h : Watched P w w') (hP : ∀ c, P c → P' c) : Watched P' w w' :=
  ⟨h.ctx, h.live, h.log.mono fun _ => Event.Of.mono hP⟩

theorem Quiet.logExt (h : Quiet P w w') : LogExt (Event.Of P) w w' := by
  obtain ⟨seg, hseg, hev, -⟩ := h.log
  exact ⟨seg, hseg, hev⟩

theorem Quiet.watched (h : Quiet P w w') (hP : ∀ c, P c → P' c) : Watched P' w w' :=
  ⟨h.ctx, fun _ hp => h.pids ▸ hp, h.logExt.mono fun _ => Event.Of.mono hP⟩

/-- A call that satisfies `P` and lets no children come. -/
theorem watched_record {c : Call} (hc : P c) {k : Kernel} (hk : ∀ p ∈ k.pids, p ∈ w.kernel.pids) :
    Watched P w { w.record c with kernel := k } where
  ctx := rfl
  live := hk
  log := ⟨[.call c w.kernel w.jobs], rfl, fun e he => by rw [List.mem_singleton.mp he]; exact hc⟩

theorem watched_drift (used rest : List Item) (w : World) : Watched P w (w.drift used rest) :=
  (quiet_drift used rest w).watched fun _ h => h

theorem Upkeep.refl (w : World) : Upkeep P w w := ⟨fun _ h => h, .refl w, .refl _, fun h => h⟩

theorem Upkeep.trans (h : Upkeep P w₁ w₂) (h' : Upkeep P w₂ w₃) : Upkeep P w₁ w₃ :=
  ⟨fun p hp => h.live p (h'.live p hp), h.log.trans h'.log, h'.table.trans h.table,
    fun ha => h'.accounted (h.accounted ha)⟩

theorem Upkeep.mono (h : Upkeep P w w') (hP : ∀ c, P c → P' c) : Upkeep P' w w' :=
  ⟨h.live, h.log.mono fun _ => Event.Of.mono hP, h.table, h.accounted⟩

theorem Watched.upkeep (h : Watched P w w') : Upkeep P w w' where
  live := h.live
  log := h.log
  table := by rw [h.jobs]
  accounted ha := by
    rw [h.jobs]
    exact ha.mono h.live

theorem keeps_flatMap {live : List Int} {jobs jobs' : List Job} (h : List.Forall₂ (Keeps live) jobs jobs') :
    jobs'.flatMap Job.pids = jobs.flatMap Job.pids := by
  induction h with
  | nil => rfl
  | cons hr _ ih => simp [hr.pids, ih]

/-- The jobs are written back after they have been looked after. -/
theorem Watched.setJobs (h : Watched P w w') {jobs : List Job}
    (hk : List.Forall₂ (Keeps w'.kernel.pids) w.jobs jobs) : Upkeep P w (w'.setJobs jobs) where
  live := h.live
  log := h.log
  table := by
    have : (w'.setJobs jobs).jobs = jobs := rfl
    rw [this, keeps_flatMap hk]
  accounted ha := ha.keeps h.live hk

/-- One job is written back. -/
theorem Watched.updateJob (h : Watched P w w') {i : ℕ} {job : Job} {f : Job → Job} (hi : w.jobs[i]? = some job)
    (hk : Keeps w'.kernel.pids job (f job)) : Upkeep P w (w'.updateJob i f) := by
  refine h.setJobs ?_
  rw [h.jobs]
  exact forall₂_modify hi hk

theorem updateJob_get {i : ℕ} {job : Job} (hi : w.jobs[i]? = some job) (f : Job → Job) :
    (w.updateJob i f).jobs[i]? = some (f job) := by
  have : (w.updateJob i f).jobs = w.jobs.modify i f := rfl
  simp [this, hi]

theorem updateJob_doneBefore {i : ℕ} {f : Job → Job} (h : DoneBefore i w.jobs) :
    DoneBefore i (w.updateJob i f).jobs := by
  intro j hj job hget
  have : (w.updateJob i f).jobs = w.jobs.modify i f := rfl
  rw [this, List.getElem?_modify] at hget
  simp only [show i ≠ j by omega, if_false, Option.map_eq_map, Option.map_id'] at hget
  exact h j hj job hget

/-- What does not touch the kernel, the log and the list of jobs does not matter. -/
theorem Upkeep.ctx (h : Upkeep P w w') {w'' : World} (hk : w''.kernel = w'.kernel) (hl : w''.log = w'.log)
    (hj : w''.jobs = w'.jobs) : Upkeep P w w'' where
  live := by rw [hk]; exact h.live
  log := by
    obtain ⟨seg, hseg, hev⟩ := h.log
    exact ⟨seg, hl.trans hseg, hev⟩
  table := by rw [hj]; exact h.table
  accounted := by rw [hk, hj]; exact h.accounted

end

/-! ### Asking about children -/

/-- A `waitpid`, with `WNOHANG` or without, has been answered. -/
structure Asked (target : Int) (opts : WaitOpts) (r : WaitRes) (w w' : World) : Prop where
  ctx : w'.ctx = w.ctx
  answer : ∃ (es : List Env) (k : Kernel), k = es.foldl Kernel.happen w.kernel ∧
    ((∃ c, k.poll target opts c = some (r, w'.kernel)) ∨
      (opts.nohang = true ∧ r = .nothing ∧ w'.kernel = k)) ∧
    w'.log = w.log ++ (.call (.waitpid target opts) w.kernel w.jobs ::
      (es.map Event.env ++ [.call (.waited target opts r) k w.jobs]))

section

variable {target : Int} {opts : WaitOpts} {r : WaitRes} {w w' : World}

theorem asked_log (es : List Env) {k : Kernel} {js : List Job}
    (hlog : w'.log = w.log ++ (.call (.waitpid target opts) w.kernel w.jobs ::
      (es.map Event.env ++ [.call (.waited target opts r) k js])))
    {P : Call → Prop} (h : P (.waitpid target opts)) (h' : ∀ r, P (.waited target opts r)) :
    LogExt (Event.Of P) w w' := by
  refine ⟨_, hlog, fun e he => ?_⟩
  rcases List.mem_cons.mp he with rfl | he
  · exact h
  · rcases List.mem_append.mp he with he | he
    · obtain ⟨x, -, rfl⟩ := List.mem_map.mp he
      trivial
    · rw [List.mem_singleton.mp he]
      exact h' r

/-- **The rule of `waitpid`**, whatever its options. -/
theorem wp_ask {Q : WaitRes → World → Prop} {R : World → Prop}
    (hdone : ∀ r w', Asked target opts r w w' →
      (r = .err .EINTR → w'.script.length < w.script.length) → (r = .nothing → opts.nohang = true) → Q r w')
    (hblock : opts.nohang = false → ∀ w', Unanswered target opts w w' → R w') :
    Prog.wp (waitpid target opts) Q R w := by
  have hlog : ∀ used rest r, (((w.record (.waitpid target opts)).drift used rest).record
      (.waited target opts r)).log = w.log ++ (.call (.waitpid target opts) w.kernel w.jobs ::
        ((envs used).map Event.env ++ [.call (.waited target opts r)
          ((w.record (.waitpid target opts)).drift used rest).kernel w.jobs])) := by
    intro used rest r
    simp [World.record, World.drift, World.jobs]
  have eintr : ∀ {c : Choice} {k k' : Kernel} {r : WaitRes}, k.poll target opts c = some (r, k') →
      (r = .err .EINTR → c ≠ .ok) ∧ r ≠ .nothing := by
    rintro c k k' r hpoll
    rcases Kernel.poll_cases hpoll with ⟨rfl, rfl, -⟩ | ⟨-, rfl, -⟩ | ⟨_, _, -, -, -, rfl, -⟩
    all_goals simp
  cases hn : opts.nohang with
  | true =>
    apply wp_waitpid_nohang hn
    intro used c rest r k ht h
    rcases h with hpoll | ⟨-, rfl, rfl⟩
    · exact hdone r _ ⟨rfl, envs used, _, rfl, Or.inl ⟨c, hpoll⟩, hlog used rest r⟩
        (fun hr => ht.length_lt ((eintr hpoll).1 hr)) fun _ => hn
    · exact hdone _ _ ⟨rfl, envs used, _, rfl, Or.inr ⟨hn, rfl, rfl⟩, hlog used rest .nothing⟩
        (fun hr => by cases hr) fun _ => hn
  | false =>
    refine wp_waitpid hn (fun used c rest r k ht hpoll => ?_) fun hnone => ?_
    · exact hdone r _ ⟨rfl, envs used, _, rfl, Or.inl ⟨c, hpoll⟩, hlog used rest r⟩
        (fun hr => ht.length_lt ((eintr hpoll).1 hr)) fun hr => absurd hr (eintr hpoll).2
    · exact hblock hn _ ⟨rfl, rfl, hnone, envs w.script, rfl, hlog w.script [] .nothing⟩

theorem Asked.pids (h : Asked target opts r w w') :
    w'.kernel.pids = w.kernel.pids.filter (· ∉ collected [r]) := by
  obtain ⟨es, k, rfl, ⟨c, hpoll⟩ | ⟨-, rfl, hk⟩, -⟩ := h.answer
  · rw [poll_pids hpoll, World.foldl_happen_pids]
  · rw [hk, World.foldl_happen_pids]
    simp [collected]

/-- What an answer says. -/
theorem Asked.known (h : Asked target opts r w w') :
    r = .err .EINTR ∨ r = .nothing ∨ (r = .err .ECHILD ∧ (0 < target → target ∉ w.kernel.pids)) ∨
      ∃ pid change, r = .report pid (Change.status change) ∧ (0 < target → pid = target) ∧
        ∃ state, ChildState.report opts state = some change := by
  obtain ⟨es, k, rfl, ⟨c, hpoll⟩ | ⟨-, rfl, -⟩, -⟩ := h.answer
  · rw [← World.foldl_happen_pids es]
    rcases Kernel.poll_cases hpoll with ⟨-, rfl, -⟩ | ⟨hnone, rfl, -⟩ | ⟨x, change, -, hn, hrep, rfl, -⟩
    · exact Or.inl rfl
    · refine Or.inr (Or.inr (Or.inl ⟨rfl, fun hpos hm => ?_⟩))
      obtain ⟨x, hx, hxp⟩ := List.mem_map.mp hm
      simpa [Child.named, hpos, hxp] using hnone x hx
    · exact Or.inr (Or.inr (Or.inr ⟨_, change, rfl,
        fun hpos => by simpa [Child.named, hpos] using hn, _, hrep⟩))
  · exact Or.inr (Or.inl rfl)

/-- Waiting for terminations leaves the dead dead. -/
theorem Asked.dead (h : Asked target noOpts r w w') {p : Int} (hp : w.kernel.Dead p) : w'.kernel.Dead p := by
  obtain ⟨es, k, rfl, ⟨c, hpoll⟩ | ⟨hn, -, -⟩, -⟩ := h.answer
  · have hd := foldl_happen_dead es hp
    rcases Kernel.poll_cases hpoll with ⟨-, -, hk⟩ | ⟨-, -, hk⟩ | ⟨x, change, -, -, hrep, -, hk⟩
    · exact hk ▸ hd
    · exact hk ▸ hd
    · obtain ⟨t, rfl⟩ := report_noOpts hrep
      exact hk ▸ dead_collect hd fun _ => ⟨t, rfl⟩
  · cases hn

theorem Asked.logExt (h : Asked target opts r w w') {P : Call → Prop} (hP : P (.waitpid target opts))
    (hP' : ∀ r, P (.waited target opts r)) : LogExt (Event.Of P) w w' := by
  obtain ⟨es, k, -, -, hlog⟩ := h.answer
  exact asked_log es hlog hP hP'

theorem Unanswered.logExt (h : Unanswered target opts w w') {P : Call → Prop} (hP : P (.waitpid target opts))
    (hP' : ∀ r, P (.waited target opts r)) : LogExt (Event.Of P) w w' := by
  obtain ⟨es, -, hlog⟩ := h.log
  exact asked_log es hlog hP hP'

theorem Asked.watched (h : Asked target opts r w w') {P : Call → Prop} (hP : P (.waitpid target opts))
    (hP' : ∀ r, P (.waited target opts r)) : Watched P w w' where
  ctx := h.ctx
  live p hp := by
    rw [h.pids] at hp
    exact (List.mem_filter.mp hp).1
  log := h.logExt hP hP'

/-- What an answer about one child means for its entry. -/
theorem Asked.keepsEntry {process : Process} (h : Asked process.pid opts r w w') {pid : Int}
    {status : ℕ} (hr : r = .report pid status) :
    KeepsEntry w'.kernel.pids process (processApplyWaitStatus process status) where
  pid := processApplyWaitStatus_pid ..
  opens h0 hp hd := by
    subst hr
    rcases h.known with h' | h' | ⟨h', -⟩ | ⟨q, change, h', hpid, -⟩
    · cases h'
    · cases h'
    · cases h'
    · cases h'
      refine (keepsEntry_apply ?_).opens h0 hp hd
      intro hl
      rw [h.pids] at hl
      by_contra hended
      simp only [Bool.not_eq_false] at hended
      have hm : process.pid ∈ collected [.report pid change.status] := by
        rw [collected_report, if_pos hended]
        simp [hpid h0]
      simp [hm] at hl

end

/-! ### `job.c` -/

section Job

variable {P : Call → Prop} {w : World}

/-- The calls of a function that only asks about children, with the options `opts`. -/
def Call.Asking (opts : WaitOpts) : Call → Prop
  | .waitpid _ opts' => opts' = opts
  | .waited _ opts' _ => opts' = opts
  | .nanosleep => True
  | _ => False

theorem tame_of_asking {opts : WaitOpts} {c : Call} (h : c.Asking opts) : c.Tame := by
  cases c <;> first | exact absurd h id | trivial

/-- A signal `sig` to a group. -/
def Call.ToGroup (sig : Sig) : Call → Prop
  | .kill target sig' _ => target ≤ 0 ∧ sig' = sig
  | _ => False

theorem tame_of_toGroup {sig : Sig} {c : Call} (h : c.ToGroup sig) : c.Tame := by
  cases c <;> first | exact absurd h id | exact h.1

theorem keepsEntry_mono {live live' : List Int} {a b : Process} (hl : ∀ p ∈ live', p ∈ live)
    (h : KeepsEntry live a b) : KeepsEntry live' a b := ⟨h.pid, fun h0 hp => h.opens h0 (hl _ hp)⟩

/-- A child that `waitpid` does not know is not there. -/
theorem Asked.keepsEntry_gone {opts : WaitOpts} {process : Process} {w' : World}
    (h : Asked process.pid opts (.err .ECHILD) w w') :
    KeepsEntry w'.kernel.pids process { process with status := .done } where
  pid := rfl
  opens h0 hp _ := by
    rcases h.known with h' | h' | ⟨-, hn⟩ | ⟨_, _, h', -, -⟩
    · cases h'
    · cases h'
    · rw [h.pids] at hp
      exact absurd (List.mem_filter.mp hp).1 (hn h0)
    · cases h'

/-- `job_reap` on one entry. -/
theorem wp_reapProcess {R : World → Prop} (process : Process) (w : World) :
    Prog.wp (reapProcess process) (fun process' w' => Watched (Call.Asking reapOpts) w w' ∧
      KeepsEntry w'.kernel.pids process process') R w := by
  unfold reapProcess reapProcessWith
  split
  · exact ⟨.refl w, keepsEntry_refl ..⟩
  · rw [Prog.wp_bind]
    refine wp_ask ?_ fun hn => absurd hn (by decide)
    intro r w' ha _ _
    have hw : Watched (Call.Asking reapOpts) w w' := ha.watched rfl fun _ => rfl
    cases r with
    | nothing => exact ⟨hw, keepsEntry_refl ..⟩
    | report pid status =>
      refine ⟨hw, ?_⟩
      split
      · exact ha.keepsEntry rfl
      · exact keepsEntry_refl ..
    | err e =>
      cases e with
      | ECHILD => exact ⟨hw, ha.keepsEntry_gone⟩
      | _ => exact ⟨hw, keepsEntry_refl ..⟩

section Lists

/-! `R` is what is known when one of the runs waits for ever. -/

variable {R : World → World → Prop} (hR : ∀ w w₁ w₂, Watched P w w₁ → R w₁ w₂ → R w w₂)

include hR

/-- `f` is run on every element and keeps what `Rel` says of the element and its result as long as children
only go. -/
theorem wp_mapList_watched {α β : Type} {f : α → Sh β} (Rel : List Int → α → β → Prop)
    (hmono : ∀ live live' a b, (∀ p ∈ live', p ∈ live) → Rel live a b → Rel live' a b)
    (hf : ∀ a w, Prog.wp (f a) (fun b w' => Watched P w w' ∧ Rel w'.kernel.pids a b) (R w) w) (l : List α)
    (w : World) :
    Prog.wp (Prog.mapList f l) (fun bs w' => Watched P w w' ∧
        List.Forall₂ (Rel w'.kernel.pids) l bs) (R w) w := by
  refine Prog.wp_mono (Prog.wp_mapList (fun bs rest w' => Watched P w w' ∧ ∃ front, l = front ++ rest ∧
    List.Forall₂ (Rel w'.kernel.pids) front bs) ?_ l w ⟨.refl w, [], rfl, .nil⟩) ?_ (fun _ h => h)
  · rintro bs a rest w₁ ⟨hw, front, rfl, hr⟩
    refine Prog.wp_mono (hf a w₁) ?_ (fun w₂ h => hR _ _ _ hw h)
    rintro b w₂ ⟨hw', hrel⟩
    refine ⟨hw.trans hw', front ++ [a], by simp, ?_⟩
    exact List.rel_append (hr.imp fun _ _ => hmono _ _ _ _ hw'.live) (.cons hrel .nil)
  · rintro bs w' ⟨hw, front, hl, hr⟩
    obtain rfl : l = front := by simpa using hl
    exact ⟨hw, hr⟩

/-- A function that looks after the entries one by one, and then aggregates. -/
theorem wp_entries {f : Process → Sh Process}
    (hf : ∀ a w, Prog.wp (f a) (fun b w' => Watched P w w' ∧ KeepsEntry w'.kernel.pids a b) (R w) w)
    (job : Job) (w : World) :
    Prog.wp (do
      let processes ← Prog.mapList f job.processes
      pure (jobUpdateStatus { job with processes := processes }) : Sh Job)
      (fun job' w' => Watched P w w' ∧ Keeps w'.kernel.pids job job') (R w) w := by
  rw [Prog.wp_bind]
  refine Prog.wp_mono (wp_mapList_watched hR KeepsEntry (fun _ _ _ _ => keepsEntry_mono) hf job.processes w)
    (fun l w' ⟨hw, hr⟩ => ⟨hw, keeps_of_entries hr⟩) (fun _ h => h)

/-- A function that looks after the jobs one by one, and then writes them back. -/
theorem wp_jobs {f : Job → Sh Job}
    (hf : ∀ a w, Prog.wp (f a) (fun b w' => Watched P w w' ∧ Keeps w'.kernel.pids a b) (R w) w) (w : World) :
    Prog.wp (do
      let w ← Prog.get
      let jobs ← Prog.mapList f w.jobs
      Prog.modify (World.setJobs jobs) : Sh Unit)
      (fun _ w' => Upkeep P w w') (R w) w := by
  rw [Prog.wp_get_bind, Prog.wp_bind]
  refine Prog.wp_mono (wp_mapList_watched hR Keeps (fun _ _ _ _ hl h => Keeps.mono h hl) hf w.jobs w)
    ?_ (fun _ h => h)
  rintro jobs w' ⟨hw, hr⟩
  exact hw.setJobs hr

end Lists

/-- **`job_reap`**; it always returns. -/
theorem wp_jobReap (w : World) {R : World → Prop} :
    Prog.wp jobReap (fun _ w' => Upkeep (Call.Asking reapOpts) w w') R w :=
  @wp_jobs _ (fun _ => R) (fun _ _ _ _ h => h) _ (wp_entries (fun _ _ _ _ h => h) wp_reapProcess) w

/-- **`job_cleanup_done`.** -/
theorem wp_jobCleanup (w : World) {R : World → Prop} :
    Prog.wp jobCleanup (fun _ w' => Upkeep P w w') R w := by
  refine ⟨fun _ h => h, ⟨[], by simp [World.updateManager], by simp⟩, ?_, fun ha => ha.cleanup⟩
  exact List.Sublist.flatMap List.filter_sublist _

/-- A `SIGCONT` for a whole group. -/
theorem quietRes_kill {target : Int} (ht : target ≤ 0) (sig : Sig) :
    QuietRes (Call.ToGroup sig) (Kernel.kill target sig) (Call.kill target sig) where
  pids _ _ := kill_pids
  fds _ _ := kill_fds
  sort _ := ⟨ht, rfl⟩
  eintr c k h := by
    rintro rfl
    unfold Kernel.kill at h
    split at h <;> cases h

theorem wp_killGroup {target : Int} (ht : target ≤ 0) {sig : Sig} {Q : Res → World → Prop}
    {R : World → Prop} (h : ∀ r w', Watched (Call.ToGroup sig) w w' → Q r w') :
    Prog.wp (kill target sig) Q R w :=
  wp_syscall_quiet (quietRes_kill ht sig).toQuietCall fun _ _ w' hq _ _ _ => h _ w' (hq.watched fun _ h => h)

/-- `job_continue`. -/
theorem wp_jobContinue (job : Job) {Q : Int × Job → World → Prop} {R : World → Prop}
    (h : ∀ r job' w', Watched (Call.ToGroup SIGCONT) w w' → (∀ live, Keeps live job job') →
      Q (r, job') w') :
    Prog.wp (jobContinue job) Q R w := by
  unfold jobContinue jobContinueWith
  split
  · exact h _ _ _ (.refl w) fun live => Keeps.refl live job
  · split
    · exact h _ _ _ (.refl w) fun live => Keeps.refl live job
    · rw [Prog.wp_bind]
      apply wp_retry_quiet (quietRes_kill (by omega) SIGCONT)
      intro r w' _ hq _ _
      split
      · exact h _ _ _ (hq.watched fun _ h => h) fun live => Keeps.refl live job
      · exact h _ _ _ (hq.watched fun _ h => h) fun live => keeps_of_entries (keepsEntry_resume _)

theorem WaitedFor.watched {g : Int} {as : List WaitRes} {w' : World} (h : WaitedFor g as w w') :
    Watched Call.Tame w w' where
  ctx := h.ctx
  live p hp := by
    rw [h.pids] at hp
    exact (List.mem_filter.mp hp).1
  log := by
    obtain ⟨seg, hseg, -, hev⟩ := h.log
    refine ⟨seg, hseg, fun e he => Event.Of.mono (fun c hc => ?_) (hev e he)⟩
    cases c <;> first | exact absurd hc id | trivial

/-- `job_wait_foreground`, as far as the accounting goes. -/
theorem wp_jobWait (job : Job) (w : World) :
    Prog.wp (jobWaitForeground job) (fun x w' => Watched Call.Tame w w' ∧ Keeps w'.kernel.pids job x.2)
      (LogExt (Event.Of Call.Tame) w) w := by
  by_cases hpgid : 0 < job.pgid
  · refine wp_jobWaitForeground hpgid (fun as r job' w' hw hf => ⟨hf.watched, hw.keeps fun p hp => ?_⟩)
      fun as job' w₁ w' _ _ hf hu => hf.watched.log.trans (hu.logExt trivial fun _ => trivial)
    rw [hf.pids] at hp
    simpa using (List.mem_filter.mp hp).2
  · unfold jobWaitForeground jobWaitForegroundWith
    rw [if_pos (by omega)]
    exact ⟨.refl w, Keeps.refl ..⟩

/-- `job_remove` of the group of a job that is done, as are all before it. -/
theorem wp_jobRemoveDone {i : ℕ} {job : Job} (hi : w.jobs[i]? = some job) (hb : DoneBefore i w.jobs)
    (hd : job.status = .done) {R : World → Prop} :
    Prog.wp (jobRemoveM job.pgid) (fun _ w' => Upkeep P w w') R w := by
  unfold jobRemoveM
  rw [Prog.wp_modify]
  have hlog : LogExt (Event.Of P) w (w.updateManager (jobRemove job.pgid)) :=
    ⟨[], by simp [World.updateManager], by simp⟩
  by_cases hpg : job.pgid ≤ 0
  · have hj : jobRemove job.pgid w.ctx.jobs = w.ctx.jobs := by simp [jobRemove, hpg]
    have hw : w.updateManager (jobRemove job.pgid) = w := by simp [World.updateManager, hj]
    show Upkeep P w (w.updateManager (jobRemove job.pgid))
    rw [hw]
    exact .refl w
  · have hj : (w.updateManager (jobRemove job.pgid)).jobs = w.jobs.eraseP fun j => j.pgid == job.pgid := by
      simp [World.updateManager, World.jobs, jobRemove, hpg]
    refine ⟨fun _ h => h, hlog, ?_, fun ha => ?_⟩
    · rw [hj]
      exact List.Sublist.flatMap List.eraseP_sublist _
    · rw [hj]
      exact ha.remove (hb.find_done hi hd)

/-- What is left of `finish_foreground_job` when the terminal is back. -/
theorem wp_finishRestored {i : ℕ} {job job' : Job} (hi : w.jobs[i]? = some job') (hb : DoneBefore i w.jobs)
    (hpgid : job'.pgid = job.pgid) (hs : job'.status = job.status) (restored : Int) {R : World → Prop} :
    Prog.wp (finishRestored job restored) (fun _ w' => Upkeep P w w') R w := by
  unfold finishRestored
  split
  · exact (Upkeep.refl w).ctx rfl rfl rfl
  · split
    · exact .refl w
    · split
      · exact .refl w
      · rename_i hd
        rw [Prog.wp_bind, ← hpgid]
        exact Prog.wp_mono (wp_jobRemoveDone hi hb (hs.trans (by simpa using hd))) (fun _ _ h => h) (fun _ h => h)

/-- The job at `i` is still there, and only its saved modes may have changed. -/
structure Saved (i : ℕ) (job : Job) (w w' : World) : Prop where
  upkeep : Upkeep Call.Neutral w w'
  get : ∃ job', w'.jobs[i]? = some job' ∧ job'.pgid = job.pgid ∧ job'.status = job.status
  before : DoneBefore i w'.jobs

theorem wp_saveTerminalModes {i : ℕ} {job : Job} (hi : w.jobs[i]? = some job) (hb : DoneBefore i w.jobs)
    {Q : Unit → World → Prop} {R : World → Prop} (h : ∀ w', Saved i job w w' → Q () w') :
    Prog.wp (saveTerminalModes i job) Q R w := by
  unfold saveTerminalModes
  rw [Prog.wp_bind]
  apply wp_terminalGetModes
  intro r w₁ hq
  have hw : Watched Call.Neutral w w₁ := hq.watched fun _ h => h
  have hi₁ : w₁.jobs[i]? = some job := hw.jobs ▸ hi
  have hb₁ : DoneBefore i w₁.jobs := hw.jobs ▸ hb
  dsimp only
  split
  · exact h _ ⟨hw.updateJob hi (keeps_modes r.2), ⟨_, updateJob_get hi₁ _, rfl, rfl⟩,
      updateJob_doneBefore hb₁⟩
  · exact h _ ⟨hw.upkeep, ⟨job, hi₁, rfl, rfl⟩, hb₁⟩

/-- The terminal is taken back and the job is finished. -/
theorem wp_restoreAndFinish {i : ℕ} {job : Job} {w₁ : World} (hs : Saved i job w w₁) {R : World → Prop} :
    Prog.wp (terminalRestore >>= finishRestored job) (fun _ w' => Upkeep Call.Neutral w w') R w₁ := by
  rw [Prog.wp_bind]
  apply wp_terminalRestore
  intro r w₂ hq
  obtain ⟨job', hi, hpgid, hst⟩ := hs.get
  have hw : Watched Call.Neutral w₁ w₂ := hq.watched fun _ h => h
  exact Prog.wp_mono (wp_finishRestored (hw.jobs ▸ hi) (hw.jobs ▸ hs.before) hpgid hst r)
    (fun _ w₃ h₃ => (hs.upkeep.trans hw.upkeep).trans h₃) (fun _ h => h)

/-- **`finish_foreground_job`** on a job before which all are done. -/
theorem wp_finishForegroundJob {i : ℕ} {job : Job} (hi : w.jobs[i]? = some job) (hb : DoneBefore i w.jobs)
    (terminalActive : Bool) {R : World → Prop} :
    Prog.wp (finishForegroundJob i terminalActive) (fun _ w' => Upkeep Call.Neutral w w') R w := by
  have same : Saved i job w w := ⟨.refl w, ⟨job, hi, rfl, rfl⟩, hb⟩
  unfold finishForegroundJob
  rw [Prog.wp_get_bind, hi]
  cases terminalActive with
  | false =>
    simp only [Bool.false_eq_true, false_and, if_false, pure_bind]
    exact wp_finishRestored hi hb rfl rfl 0
  | true =>
    simp only [true_and, if_true]
    split
    · rw [Prog.wp_bind]
      exact wp_saveTerminalModes hi hb fun w₁ hs => wp_restoreAndFinish hs
    · exact wp_restoreAndFinish same

theorem wp_fgFinish {i : ℕ} {job : Job} (hi : w.jobs[i]? = some job) (hb : DoneBefore i w.jobs)
    {R : World → Prop} : Prog.wp (fgFinish i job) (fun _ w' => Upkeep Call.Neutral w w') R w := by
  unfold fgFinish
  split
  · rw [Prog.wp_bind]
    exact wp_saveTerminalModes hi hb fun w₁ hs => wp_restoreAndFinish hs
  · exact wp_restoreAndFinish ⟨.refl w, ⟨job, hi, rfl, rfl⟩, hb⟩

end Job

end MiniShell
