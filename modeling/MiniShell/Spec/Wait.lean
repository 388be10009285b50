import MiniShell.Spec.Rollback
import MiniShell.Model.Dispatcher

/-!
# Waiting for a job

`Answered` says what a blocking `waitpid` that returns has done, and `Waits job as r job'` is the loop of
`job_wait_foreground` on the answers `as` alone: it goes from `job` to `job'` and returns `r`.
`wp_jobWaitForeground` says that the function is that loop on the answers it gets from the kernel.
-/

namespace MiniShell

open MiniShell.Lib

/-! ### One answer -/

/-- A blocking `waitpid` has been answered with `r`. -/
structure Answered (target : Int) (opts : WaitOpts) (r : WaitRes) (w w' : World) : Prop where
  ctx : w'.ctx = w.ctx
  term : w'.term = w.term
  answer : ∃ (es : List Env) (k : Kernel) (c : Choice), k = es.foldl Kernel.happen w.kernel ∧
    k.poll target opts c = some (r, w'.kernel) ∧
    w'.log = w.log ++ (.call (.waitpid target opts) w.kernel w.jobs ::
      (es.map Event.env ++ [.call (.waited target opts r) k w.jobs]))

/-- A blocking `waitpid` waits for ever. -/
structure Unanswered (target : Int) (opts : WaitOpts) (w w' : World) : Prop where
  ctx : w'.ctx = w.ctx
  term : w'.term = w.term
  none : w'.kernel.poll target opts .ok = none
  log : ∃ es : List Env, w'.kernel = es.foldl Kernel.happen w.kernel ∧
    w'.log = w.log ++ (.call (.waitpid target opts) w.kernel w.jobs ::
      (es.map Event.env ++ [.call (.waited target opts .nothing) w'.kernel w.jobs]))

/-! ### The measure of the wait -/

theorem pending_le (k : Kernel) : k.pending ≤ k.children.length := List.countP_le_length

theorem collect_length_le (pid : Int) (change : Change) (k : Kernel) :
    (k.collect pid change).children.length ≤ k.children.length := by
  cases change with
  | ended t => exact List.length_filter_le ..
  | stopped sig => exact le_of_eq (List.length_map ..)
  | continued => exact le_of_eq (List.length_map ..)

theorem foldl_happen_length (es : List Env) (k : Kernel) :
    (es.foldl Kernel.happen k).children.length = k.children.length := by
  have h := congrArg List.length (World.foldl_happen_pids es k)
  simpa [Kernel.pids] using h

/-- A count gets smaller when nothing is gained and something is lost. -/
theorem countP_lt {α : Type} {p q : α → Bool} : ∀ {l : List α}, (∀ a ∈ l, q a = true → p a = true) →
    (∃ a ∈ l, p a = true ∧ q a = false) → l.countP q < l.countP p
  | [], _, h => by simp at h
  | a :: l, hpq, h => by
    have hle : l.countP q ≤ l.countP p :=
      List.countP_mono_left fun x hx => hpq x (List.mem_cons_of_mem _ hx)
    rw [List.countP_cons, List.countP_cons]
    obtain ⟨x, hx, hp, hq⟩ := h
    rcases List.mem_cons.mp hx with rfl | hx
    · simp [hp, hq]
      omega
    · have := countP_lt (fun y hy => hpq y (List.mem_cons_of_mem _ hy)) ⟨x, hx, hp, hq⟩
      have ha := hpq a (by simp)
      split <;> split <;> simp_all

/-- A report that is collected is no longer pending. -/
theorem collect_pending_lt {k : Kernel} {c : Child} {change : Change} (hc : c ∈ k.children)
    (hr : c.state.report WUNTRACED = some change) :
    (k.collect c.pid change).pending < k.pending := by
  have hcount : (c.state.report WUNTRACED).isSome = true := by rw [hr]; rfl
  unfold Kernel.pending
  cases change with
  | ended t =>
    simp only [Kernel.collect, List.countP_filter]
    refine countP_lt (fun x _ hx => ?_) ⟨c, hc, hcount, by simp⟩
    simp only [Bool.and_eq_true] at hx
    exact hx.1
  | stopped sig =>
    simp only [Kernel.collect, Kernel.updateChildren, List.countP_map]
    refine countP_lt (fun x _ hx => ?_) ⟨c, hc, hcount, by simp [ChildState.report]⟩
    simp only [Function.comp] at hx
    split at hx
    · simp [ChildState.report] at hx
    · exact hx
  | continued =>
    cases hs : c.state <;> simp [hs, ChildState.report, WUNTRACED] at hr

theorem waitMeasure_lt_of_script {w w' : World} (hs : w'.script.length < w.script.length)
    (hk : w'.kernel.children.length ≤ w.kernel.children.length) : waitMeasure w' < waitMeasure w := by
  have hp := pending_le w'.kernel
  unfold waitMeasure
  have h1 : w'.script.length * (w'.kernel.children.length + 1) ≤
      w'.script.length * (w.kernel.children.length + 1) := Nat.mul_le_mul_left _ (by omega)
  have h2 : (w'.script.length + 1) * (w.kernel.children.length + 1) ≤
      w.script.length * (w.kernel.children.length + 1) := Nat.mul_le_mul_right _ hs
  rw [Nat.succ_mul] at h2
  omega

/-- **The rule of a blocking `waitpid` on a group**: an answer other than `ECHILD` makes the measure of the
wait smaller. -/
theorem wp_wait {target : Int} {opts : WaitOpts} (hopts : opts.nohang = false)
    {Q : WaitRes → World → Prop} {R : World → Prop} {w : World}
    (hdone : ∀ r w', Answered target opts r w w' → w'.script.length ≤ w.script.length →
      (r ≠ .err .ECHILD → opts = WUNTRACED → waitMeasure w' < waitMeasure w) → Q r w')
    (hblock : ∀ w', Unanswered target opts w w' → R w') :
    Prog.wp (waitpid target opts) Q R w := by
  refine wp_waitpid hopts (fun used c rest r k ht hpoll => hdone r _ ?_ ht.length_le fun hr ho => ?_)
    fun hnone => hblock _ ?_
  · refine ⟨rfl, rfl, envs used, _, c, rfl, hpoll, ?_⟩
    simp [World.record, World.drift, World.jobs]
  · have hlen : k.children.length ≤ w.kernel.children.length := by
      have hd : ((w.record (.waitpid target opts)).drift used rest).kernel.children.length =
          w.kernel.children.length := foldl_happen_length ..
      rcases Kernel.poll_cases hpoll with ⟨-, -, rfl⟩ | ⟨-, -, rfl⟩ | ⟨x, change, -, -, -, -, rfl⟩
      · omega
      · omega
      · have := collect_length_le x.pid change
          ((w.record (.waitpid target opts)).drift used rest).kernel
        omega
    by_cases hu : used = []
    · -- the script had run out, and the answer is a report
      subst hu
      have hs : w.script = [] := ht.spent rfl
      have hc : c = .ok := by
        by_contra hc
        exact ht.cause hc rfl
      subst hc
      rcases Kernel.poll_cases hpoll with ⟨h, -⟩ | ⟨-, h, -⟩ | ⟨x, change, hx, -, hrep, -, rfl⟩
      · cases h
      · exact absurd h hr
      · have hlt := collect_pending_lt hx (ho ▸ hrep)
        have hrest : rest = [] := by simpa [hs] using ht.split.symm
        subst hrest
        unfold waitMeasure
        simpa [World.record, World.drift, hs, envs] using hlt
    · refine waitMeasure_lt_of_script ?_ hlen
      have := List.length_pos_iff.mpr hu
      rw [ht.split, List.length_append]
      simpa using by omega
  · refine ⟨rfl, rfl, hnone, envs w.script, rfl, ?_⟩
    simp [World.record, World.drift, World.jobs]

/-! ### The loop of `job_wait_foreground` -/

/-- The job with the report of `pid` stored in its entry. -/
def Job.store (job : Job) (pid : Int) (status : ℕ) : Job :=
  jobUpdateStatus { job with processes := applyToFirst status pid job.processes }

@[simp] theorem store_pgid (job : Job) (pid : Int) (status : ℕ) : (job.store pid status).pgid = job.pgid := by
  simp [Job.store]

@[simp] theorem store_pids (job : Job) (pid : Int) (status : ℕ) : (job.store pid status).pids = job.pids := by
  simp [Job.store, Job.pids]

/-- The wait has gone from `job` to `job'` on the answers `as`, and has not ended. -/
inductive Pends (job : Job) : List WaitRes → Job → Prop where
  | start : Pends job [] job
  | interrupted {as : List WaitRes} {job' : Job} (h : Pends job as job') (hr : job'.status = .running) :
      Pends job (as ++ [.err .EINTR]) job'
  | stored {as : List WaitRes} {job' : Job} {pid : Int} {status : ℕ} (h : Pends job as job')
      (hr : job'.status = .running) (hf : processFind job' pid ≠ none) :
      Pends job (as ++ [.report pid status]) (job'.store pid status)

/-- The wait that starts with `job` ends on the answers `as`, with its result and the job it leaves. -/
inductive Waits (job : Job) : List WaitRes → Int → Job → Prop where
  | settled {as : List WaitRes} {job' : Job} (h : Pends job as job') (hs : job'.status ≠ .running) :
      Waits job as 0 job'
  | failed {as : List WaitRes} {job' : Job} (h : Pends job as job') (hr : job'.status = .running) :
      Waits job (as ++ [.err .ECHILD]) (-1) job'
  | stray {as : List WaitRes} {job' : Job} {pid : Int} {status : ℕ} (h : Pends job as job')
      (hr : job'.status = .running) (hf : processFind job' pid = none) :
      Waits job (as ++ [.report pid status]) (-1) job'

theorem Pends.pgid {job job' : Job} {as : List WaitRes} (h : Pends job as job') : job'.pgid = job.pgid := by
  induction h with
  | start => rfl
  | interrupted _ _ ih => exact ih
  | stored _ _ _ ih => rw [store_pgid, ih]

theorem Pends.pids {job job' : Job} {as : List WaitRes} (h : Pends job as job') : job'.pids = job.pids := by
  induction h with
  | start => rfl
  | interrupted _ _ ih => exact ih
  | stored _ _ _ ih => rw [store_pids, ih]

theorem Waits.pgid {job job' : Job} {as : List WaitRes} {r : Int} (h : Waits job as r job') :
    job'.pgid = job.pgid := by
  cases h with
  | settled h _ => exact h.pgid
  | failed h _ => exact h.pgid
  | stray h _ _ => exact h.pgid

/-! ### The wait in the world -/

/-- The pids whose termination is among the answers. -/
def collected (as : List WaitRes) : List Int :=
  as.filterMap fun r => match r with
    | .report pid status => if WIFEXITED status || WIFSIGNALED status then some pid else none
    | _ => none

@[simp] theorem collected_append (as bs : List WaitRes) :
    collected (as ++ bs) = collected as ++ collected bs := List.filterMap_append

/-- A report of a termination collects its pid, another report collects nothing. -/
theorem collected_report (pid : Int) (status : ℕ) : collected [.report pid status] =
    if WIFEXITED status || WIFSIGNALED status then [pid] else [] := by
  simp only [collected, List.filterMap_cons, List.filterMap_nil]
  split <;> simp_all

/-- The calls of a foreground wait for the group `g`. -/
def Call.OfWait (g : Int) : Call → Prop
  | .waitpid target opts => target = -g ∧ opts = WUNTRACED
  | .waited target opts _ => target = -g ∧ opts = WUNTRACED
  | _ => False

/-- A foreground wait for the group `g` has been answered with `as` between `w` and `w'`. -/
structure WaitedFor (g : Int) (as : List WaitRes) (w w' : World) : Prop where
  ctx : w'.ctx = w.ctx
  term : w'.term = w.term
  fds : w'.kernel.fds = w.kernel.fds
  pids : w'.kernel.pids = w.kernel.pids.filter (· ∉ collected as)
  log : ∃ seg, w'.log = w.log ++ seg ∧ answers seg = as ∧ ∀ e ∈ seg, e.Of (Call.OfWait g)

theorem WaitedFor.refl (g : Int) (w : World) : WaitedFor g [] w w :=
  ⟨rfl, rfl, rfl, by simp [collected], [], by simp, rfl, by simp⟩

/-- What an answer of the kernel does to the pids. -/
theorem poll_pids {target : Int} {opts : WaitOpts} {c : Choice} {k k' : Kernel} {r : WaitRes}
    (h : k.poll target opts c = some (r, k')) : k'.pids = k.pids.filter (· ∉ collected [r]) := by
  have hnil : k.pids = k.pids.filter (· ∉ ([] : List Int)) := by simp
  rcases Kernel.poll_cases h with ⟨-, rfl, rfl⟩ | ⟨-, rfl, rfl⟩ | ⟨x, change, -, -, -, rfl, rfl⟩
  · exact hnil
  · exact hnil
  · rw [Kernel.collect_pids]
    cases change with
    | ended t =>
      simp [collected_report, Change.status]
    | stopped sig => simp [collected_report]
    | continued => simp [collected_report]

theorem poll_fds {target : Int} {opts : WaitOpts} {c : Choice} {k k' : Kernel} {r : WaitRes}
    (h : k.poll target opts c = some (r, k')) : k'.fds = k.fds := by
  rcases Kernel.poll_cases h with ⟨-, -, rfl⟩ | ⟨-, -, rfl⟩ | ⟨x, change, -, -, -, -, rfl⟩
  · rfl
  · rfl
  · exact Kernel.collect_fds ..

/-- One more answer of the wait. -/
theorem WaitedFor.answered {g : Int} {as : List WaitRes} {w w₁ w₂ : World} {r : WaitRes}
    (h : WaitedFor g as w w₁) (ha : Answered (-g) WUNTRACED r w₁ w₂) : WaitedFor g (as ++ [r]) w w₂ := by
  obtain ⟨es, k, c, rfl, hpoll, hlog⟩ := ha.answer
  obtain ⟨seg, hseg, hans, hev⟩ := h.log
  refine ⟨ha.ctx.trans h.ctx, ha.term.trans h.term, ?_, ?_, seg ++ _, by rw [hlog, hseg, List.append_assoc], ?_,
    ?_⟩
  · rw [poll_fds hpoll, World.foldl_happen_fds, h.fds]
  · rw [poll_pids hpoll, World.foldl_happen_pids, h.pids, List.filter_filter]
    apply List.filter_congr
    intro p _
    simp only [collected_append, List.mem_append, not_or, Bool.decide_and]
    exact Bool.and_comm ..
  · rw [answers_append, hans]
    simp [answers]
  · intro e he
    rcases List.mem_append.mp he with he | he
    · exact hev e he
    · rcases List.mem_cons.mp he with rfl | he
      · exact ⟨rfl, rfl⟩
      · rcases List.mem_append.mp he with he | he
        · obtain ⟨x, -, rfl⟩ := List.mem_map.mp he
          trivial
        · rw [List.mem_singleton.mp he]
          exact ⟨rfl, rfl⟩

/-- **`job_wait_foreground` is its loop on the answers it gets.** -/
theorem wp_jobWaitForeground {job : Job} (hpgid : 0 < job.pgid) {Q : Int × Job → World → Prop}
    {R : World → Prop} {w : World}
    (hdone : ∀ as r job' w', Waits job as r job' → WaitedFor job.pgid as w w' → Q (r, job') w')
    (hblock : ∀ as job' w₁ w', Pends job as job' → job'.status = .running → WaitedFor job.pgid as w w₁ →
      Unanswered (-job.pgid) WUNTRACED w₁ w' → R w') :
    Prog.wp (jobWaitForeground job) Q R w := by
  unfold jobWaitForeground jobWaitForegroundWith
  rw [if_neg (by omega)]
  refine Prog.wp_loop (fun job' w' => ∃ as, Pends job as job' ∧ WaitedFor job.pgid as w w') ?_ job w
    ⟨[], .start, .refl _ _⟩
  rintro job' w' ⟨as, hp, hw⟩
  unfold waitRoundWith
  split
  · rename_i hs
    exact hdone as 0 job' w' (.settled hp hs) hw
  · rename_i hs
    have hr : job'.status = .running := by simpa using hs
    rw [Prog.wp_bind, show -job'.pgid = -job.pgid by rw [hp.pgid]]
    refine wp_wait rfl ?_ fun w'' hu => hblock as job' w' w'' hp hr hw hu
    intro r w'' ha hle hlt
    have hw' := hw.answered ha
    obtain ⟨es, k, c, -, hpoll, -⟩ := ha.answer
    rcases Kernel.poll_cases hpoll with ⟨-, rfl, -⟩ | ⟨-, rfl, -⟩ | ⟨x, change, -, -, -, rfl, -⟩
    · exact ⟨⟨_, .interrupted hp hr, hw'⟩, hlt (by simp) rfl⟩
    · exact hdone _ _ _ _ (.failed hp hr) hw'
    · cases hf : processFind job' x.pid with
      | none =>
        dsimp only
        rw [hf]
        exact hdone _ _ _ _ (.stray hp hr hf) hw'
      | some process =>
        dsimp only
        rw [hf]
        exact ⟨⟨_, .stored hp hr (by rw [hf]; exact Option.some_ne_none _), hw'⟩, hlt (by simp) rfl⟩

end MiniShell
