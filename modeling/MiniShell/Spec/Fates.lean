import MiniShell.Spec.Execute
import MiniShell.Spec.Redirect

/-!
# Children that end as they are said to

When nobody stops a child and it ends in one way only, the shell can learn nothing else of it.

* `EndsAs fate seg` — in the log every child that has been forked ends as `fate` says, and is not stopped;
* `Fated fate seg k` — so far it has not ended otherwise, and nothing else has been reported of it;
* `FateSafe fate m` — the program keeps this up unless it sends `SIGKILL` itself; every function of the shell does,
  `fateSafe_tty` and `fateSafe_vars`.
-/

namespace MiniShell

open MiniShell.Lib MiniShellError

/-! ### What is said of a child -/

/-- The event is the fork of the child `pid`. -/
def Event.ForkOf (pid : Int) : Event → Prop
  | .call (.fork p) _ _ => p = pid ∧ 0 < pid
  | _ => False

/-- The event does not stop the child `pid`, nor end it in another way than `t`. -/
def Event.EndsAs (t : Termination) (pid : Int) : Event → Prop
  | .env (.stop p _) => p ≠ pid
  | .env (.terminate p t') => p = pid → t' = t
  | _ => True

/-- When the event reports something of the child `pid` it is the termination `t`, or a continuation that was asked
for. -/
def Event.ReportsAs (t : Termination) (pid : Int) : Event → Prop
  | .call (.waited _ opts (.report p status)) _ _ => p = pid → opts.continued = false → status = t.status
  | _ => True

/-- Every child forked in the log ends as `fate` says, after its fork. -/
def EndsAs (fate : Int → Termination) (seg : List Event) : Prop :=
  seg.Pairwise fun e e' => ∀ pid, e.ForkOf pid → e'.EndsAs (fate pid) pid

/-- Every report of a child forked in the log, after its fork, is what `fate` says. -/
def ReportsAs (fate : Int → Termination) (seg : List Event) : Prop :=
  seg.Pairwise fun e e' => ∀ pid, e.ForkOf pid → e'.ReportsAs (fate pid) pid

/-- The child `pid` is running, or has ended as `t`. -/
def Kernel.EndsAs (t : Termination) (pid : Int) (k : Kernel) : Prop :=
  ∀ c ∈ k.children, c.pid = pid → (∃ b, c.state = .running b) ∨ c.state = .zombie t

/-- What the shell and the kernel know of the children forked in the log. -/
structure Fated (fate : Int → Termination) (seg : List Event) (k : Kernel) : Prop where
  children : ∀ pid ∈ forks seg, k.EndsAs (fate pid) pid
  reports : ReportsAs fate seg

/-- No `SIGKILL` has been sent. -/
def NoKill (seg : List Event) : Prop := ∀ target r, .kill target SIGKILL r ∉ calls seg

theorem mem_forks_iff {seg : List Event} {pid : Int} : pid ∈ forks seg ↔ ∃ e ∈ seg, e.ForkOf pid := by
  rw [mem_forks, mem_calls]
  constructor
  · rintro ⟨hpos, k, js, hm⟩
    exact ⟨_, hm, rfl, hpos⟩
  · rintro ⟨e, he, hfork⟩
    cases e with
    | env e => exact absurd hfork id
    | call c k js =>
      cases c with
      | fork p =>
        obtain ⟨rfl, hpos⟩ := hfork
        exact ⟨hpos, k, js, he⟩
      | _ => exact absurd hfork id

/-! ### What the kernel does to a child -/

section Kernel

variable {t : Termination} {pid : Int} {k : Kernel}

/-- A change of the children that leaves their pids alone. -/
theorem Kernel.EndsAs.update {p : Child → Bool} {f : ChildState → ChildState} (h : k.EndsAs t pid)
    (hf : ∀ c, p c = true → c.pid = pid → ((∃ b, c.state = .running b) ∨ c.state = .zombie t) →
      (∃ b, f c.state = .running b) ∨ f c.state = .zombie t) : (k.updateChildren p f).EndsAs t pid := by
  intro c hc hpid
  obtain ⟨c₀, hc₀, rfl⟩ := Kernel.mem_updateChildren.mp hc
  split at hpid
  · rename_i hp
    rw [if_pos hp]
    exact hf c₀ hp hpid (h c₀ hc₀ hpid)
  · rename_i hp
    rw [if_neg hp]
    exact h c₀ hc₀ hpid

theorem Kernel.EndsAs.happen (h : k.EndsAs t pid) {e : Env} (he : (Event.env e).EndsAs t pid) :
    (k.happen e).EndsAs t pid := by
  cases e with
  | terminate p t' =>
    apply h.update
    intro c hp hpid hc
    have htt : t' = t := he ((of_decide_eq_true hp).symm.trans hpid)
    rcases hc with ⟨b, hb⟩ | hz
    · exact Or.inr (by rw [hb, ← htt]; rfl)
    · exact Or.inr (by rw [hz]; rfl)
  | stop p sig => exact h.update fun c hp hpid _ => absurd ((of_decide_eq_true hp).symm.trans hpid) he
  | resume p =>
    apply h.update
    intro c _ _ hc
    rcases hc with ⟨b, hb⟩ | hz
    · exact Or.inl ⟨b, by rw [hb]; rfl⟩
    · exact Or.inr (by rw [hz]; rfl)
  | regroup p pgid =>
    intro c hc hpid
    obtain ⟨c₀, hc₀, rfl⟩ := Kernel.mem_moveChild.mp hc
    split at hpid
    · rename_i hp
      rw [if_pos hp]
      exact h c₀ hc₀ hpid
    · rename_i hp
      rw [if_neg hp]
      exact h c₀ hc₀ hpid
  | ttyModes modes => exact h
  | ttyPgrp pgid => exact h

theorem Kernel.EndsAs.happens (h : k.EndsAs t pid) {es : List Env}
    (hes : ∀ e ∈ es, (Event.env e).EndsAs t pid) :
    (es.foldl Kernel.happen k).EndsAs t pid := by
  induction es generalizing k with
  | nil => exact h
  | cons e es ih =>
    exact ih (h.happen (hes e List.mem_cons_self)) fun e he => hes e (List.mem_cons_of_mem _ he)

/-- A signal other than `SIGKILL` ends nobody. -/
theorem Kernel.EndsAs.kill (h : k.EndsAs t pid) {target : Int} {sig : Sig} (hsig : sig ≠ SIGKILL) (c : Choice) :
    (k.kill target sig c).2.EndsAs t pid := by
  unfold Kernel.kill
  split
  · apply h.update
    intro c _ _ hc
    unfold ChildState.deliver
    rw [if_neg hsig]
    split
    · rcases hc with ⟨b, hb⟩ | hz
      · exact Or.inl ⟨b, by rw [hb]; rfl⟩
      · exact Or.inr (by rw [hz]; rfl)
    · exact hc
  · split <;> exact h

theorem Kernel.EndsAs.setpgid (h : k.EndsAs t pid) (p pgid : Int) (c : Choice) :
    (k.setpgid p pgid c).2.EndsAs t pid := by
  unfold Kernel.setpgid
  split
  · exact h
  · exact h.happen (e := .regroup p pgid) trivial

/-- What `waitpid` reports of the child is its end, and then the child is gone; or it was continued, which does not
matter. -/
theorem Kernel.EndsAs.poll (h : k.EndsAs t pid) {target : Int} {opts : WaitOpts} {c : Choice}
    {r : WaitRes} {k' : Kernel} (hpoll : k.poll target opts c = some (r, k')) : k'.EndsAs t pid ∧
      ∀ status, r = .report pid status → opts.continued = false → status = t.status := by
  rcases Kernel.poll_cases hpoll with ⟨-, rfl, rfl⟩ | ⟨-, rfl, rfl⟩ | ⟨x, change, hx, -, hrep, rfl, rfl⟩
  · exact ⟨h, fun _ hr => by cases hr⟩
  · exact ⟨h, fun _ hr => by cases hr⟩
  · -- a child with this pid has nothing to report but its end
    have hown : x.pid = pid → change = .ended t ∨ (change = .continued ∧ opts.continued = true) := by
      intro hpid
      rcases h x hx hpid with ⟨b, hb⟩ | hz
      · rw [hb, ChildState.report] at hrep
        split at hrep
        · rename_i hcont
          exact Or.inr ⟨(Option.some.inj hrep).symm, (Bool.and_eq_true_iff.mp hcont).1⟩
        · cases hrep
      · rw [hz] at hrep
        exact Or.inl (Option.some.inj hrep).symm
    refine ⟨?_, fun status hr hopts => ?_⟩
    · cases change with
      | ended t' => exact fun c hc => h c (List.mem_of_mem_filter hc)
      | stopped sig =>
        apply h.update
        intro c hp hpid _
        rcases hown ((of_decide_eq_true hp).symm.trans hpid) with hc | ⟨hc, -⟩ <;> cases hc
      | continued => exact h.update fun c _ _ _ => Or.inl ⟨false, rfl⟩
    · cases hr
      rcases hown rfl with rfl | ⟨-, hc⟩
      · rfl
      · rw [hopts] at hc
        cases hc

theorem Kernel.EndsAs.fork (h : k.EndsAs t pid) (c : Choice) : (k.fork c).2.EndsAs t pid := by
  have new : ∀ p, Kernel.EndsAs t pid { k with children := k.children ++ [⟨p, k.shellPgrp, .running false⟩] } :=
    fun p => List.forall_mem_append.mpr ⟨h, List.forall_mem_singleton.mpr fun _ => Or.inl ⟨false, rfl⟩⟩
  unfold Kernel.fork
  split
  · exact h
  · exact new _

/-- A new child is running. -/
theorem endsAs_forked (t : Termination) {c : Choice} (hpos : 0 < (k.fork c).1) :
    (k.fork c).2.EndsAs t (k.fork c).1 := by
  have new : Kernel.EndsAs t (k.forkPid c)
      { k with children := k.children ++ [⟨k.forkPid c, k.shellPgrp, .running false⟩] } :=
    List.forall_mem_append.mpr ⟨fun x hx hpid => absurd (hpid ▸ List.mem_map_of_mem hx) (k.forkPid_spec c).2,
      List.forall_mem_singleton.mpr fun _ => Or.inl ⟨false, rfl⟩⟩
  cases c with
  | fail e =>
    have hneg : (-1 : Int) > 0 := hpos
    omega
  | ok => exact new
  | pick n => exact new

end Kernel

/-! ### Programs -/

section Programs

variable {fate : Int → Termination} {α β : Type}

/-- The program keeps up what is known of the children, unless it sends `SIGKILL`. -/
def FateSafe (fate : Int → Termination) (m : Sh α) : Prop :=
  LogGrows m ∧ ∀ w seg seg', Fated fate seg w.kernel → (m w).state.log = w.log ++ seg' →
    EndsAs fate (seg ++ seg') →
    NoKill seg' → Fated fate (seg ++ seg') (m w).state.kernel

/-- A new piece of the log in which nothing is forked. -/
theorem Fated.extend {seg seg' : List Event} {k k' : Kernel} (h : Fated fate seg k)
    (hforks : ∀ pid, ∀ e ∈ seg', ¬ e.ForkOf pid)
    (hk : ∀ pid ∈ forks seg, k'.EndsAs (fate pid) pid ∧ ∀ e ∈ seg', e.ReportsAs (fate pid) pid) :
    Fated fate (seg ++ seg') k' := by
  refine ⟨fun pid hpid => ?_, List.pairwise_append.mpr ⟨h.reports, ?_, fun e he e' he' pid hfork => ?_⟩⟩
  · rw [forks_append] at hpid
    rcases List.mem_append.mp hpid with hpid | hpid
    · exact (hk pid hpid).1
    · obtain ⟨e, he, hfork⟩ := mem_forks_iff.mp hpid
      exact absurd hfork (hforks pid e he)
  · exact List.pairwise_of_forall_mem_list fun e he _ _ pid hfork => absurd hfork (hforks pid e he)
  · exact (hk pid (mem_forks_iff.mpr ⟨e, he, hfork⟩)).2 e' he'

/-- What the log says of the events that come after it. -/
theorem EndsAs.later {seg seg' : List Event} (h : EndsAs fate (seg ++ seg')) {pid : Int}
    (hpid : pid ∈ forks seg) :
    ∀ e ∈ seg', e.EndsAs (fate pid) pid := by
  intro e he
  obtain ⟨e₀, he₀, hfork⟩ := mem_forks_iff.mp hpid
  exact (List.pairwise_append.mp h).2.2 e₀ he₀ e he pid hfork

theorem FateSafe.pure (a : α) : FateSafe fate (Pure.pure a : Sh α) :=
  ⟨logGrows_tty.pure a, fun w seg seg' h hlog _ _ => by
    have hnil : seg' = [] := List.append_right_eq_self.mp hlog.symm
    rw [hnil, List.append_nil]
    exact h⟩

theorem FateSafe.bind {m : Sh α} {f : α → Sh β} (hm : FateSafe fate m) (hf : ∀ a, FateSafe fate (f a)) :
    FateSafe fate (m >>= f) := by
  refine ⟨hm.1.bind fun a => (hf a).1, fun w seg seg' h hlog hends hkill => ?_⟩
  obtain ⟨seg₁, hseg₁⟩ := hm.1 w
  have hfirst := hm.2 w seg seg₁ h hseg₁.symm
  rw [Prog.bind_apply] at hlog ⊢
  cases hw : m w with
  | blocked w₁ =>
    rw [hw] at hlog hfirst hseg₁
    have heq : seg₁ = seg' := List.append_cancel_left (hseg₁.trans hlog)
    subst heq
    exact hfirst hends hkill
  | done a w₁ =>
    rw [hw] at hlog hfirst hseg₁
    obtain ⟨seg₂, hseg₂⟩ := (hf a).1 w₁
    have heq : seg' = seg₁ ++ seg₂ := by
      refine @List.append_cancel_left _ w.log _ _ ?_
      rw [← List.append_assoc]
      exact hlog.symm.trans (hseg₂.symm.trans (congrArg (· ++ seg₂) hseg₁.symm))
    subst heq
    have hkills : NoKill seg₁ ∧ NoKill seg₂ :=
      ⟨fun t r hm => hkill t r (by rw [calls_append]; exact List.mem_append_left _ hm),
        fun t r hm => hkill t r (by rw [calls_append]; exact List.mem_append_right _ hm)⟩
    rw [← List.append_assoc] at hends ⊢
    exact (hf a).2 w₁ (seg ++ seg₁) seg₂
      (hfirst (List.pairwise_append.mp hends).1 hkills.1) hseg₂.symm hends hkills.2

/-- The calls that are neither `fork` nor `waitpid`. -/
def Call.Silent : Call → Prop
  | .fork .. | .waited .. => False
  | _ => True

theorem fateSafe_syscall {f : Choice → Kernel → α × Kernel} {call : α → Call}
    (hcall : ∀ a, (call a).Silent)
    (hf : ∀ c k t pid, (∀ target r, call (f c k).1 ≠ .kill target SIGKILL r) → k.EndsAs t pid →
      (f c k).2.EndsAs t pid) : FateSafe fate (syscall f call) := by
  refine ⟨logGrows_syscall f call, fun w seg seg' h hlog hends hkill => ?_⟩
  let After (w' : World) : Prop := w'.log = w.log ++ seg' → Fated fate (seg ++ seg') w'.kernel
  have hwp : Prog.wp (syscall f call) (fun _ => After) After w := by
    refine wp_syscall fun used c rest _ => ?_
    intro hlog
    obtain rfl : seg' = (envs used).map Event.env ++ [.call (call (f c (w.drift used rest).kernel).1)
        (w.drift used rest).kernel w.jobs] := by
      refine @List.append_cancel_left _ w.log _ _ (hlog.symm.trans ?_)
      exact List.append_assoc ..
    have hsilent := hcall (f c (w.drift used rest).kernel).1
    refine h.extend (fun pid e he => ?_) fun pid hpid =>
      ⟨hf c _ _ pid (fun target r heq => hkill target r ?_) ?_, ?_⟩
    · rcases List.mem_append.mp he with he | he
      · obtain ⟨_, -, rfl⟩ := List.mem_map.mp he
        exact id
      · rw [List.mem_singleton.mp he]
        intro hfork
        generalize call (f c (w.drift used rest).kernel).1 = x at hsilent hfork
        cases x <;> first | exact hfork | exact hsilent
    · rw [calls_append, calls_envs, List.nil_append]
      exact List.mem_singleton.mpr heq.symm
    · exact (h.children pid hpid).happens fun e he =>
        hends.later hpid _ (List.mem_append_left _ (List.mem_map_of_mem he))
    · intro e he
      rcases List.mem_append.mp he with he | he
      · obtain ⟨_, -, rfl⟩ := List.mem_map.mp he
        trivial
      · rw [List.mem_singleton.mp he]
        generalize call (f c (w.drift used rest).kernel).1 = x at hsilent
        cases x <;> trivial
  exact Prog.wp_state hwp hlog

/-- A call that leaves the children alone. -/
theorem fateSafe_still {f : Choice → Kernel → α × Kernel} {call : α → Call}
    (hcall : ∀ a, (call a).Silent) (hf : ∀ c k, (f c k).2.children = k.children) :
    FateSafe fate (syscall f call) :=
  fateSafe_syscall hcall fun c k _ _ _ h x hx => h x (hf c k ▸ hx)

theorem fateSafe_close (fd : ℕ) : FateSafe fate (close fd) := by
  refine ⟨logGrows_tty.close fd, fun w seg seg' h hlog _ _ => ?_⟩
  obtain rfl : seg' = [.call (.close fd) w.kernel w.jobs] := @List.append_cancel_left _ w.log _ _ hlog.symm
  refine h.extend (fun pid e he => ?_) fun pid hpid => ⟨h.children pid hpid, fun e he => ?_⟩
  · rw [List.mem_singleton.mp he]
    exact id
  · rw [List.mem_singleton.mp he]
    trivial

theorem fateSafe_kill (target : Int) (sig : Sig) : FateSafe fate (kill target sig) :=
  fateSafe_syscall (fun _ => trivial) fun c k t pid hkill h => by
    by_cases hsig : sig = SIGKILL
    · exact absurd (congrArg (Call.kill target · _) hsig) (hkill target _)
    · exact h.kill hsig c

theorem fateSafe_setpgid (pid pgid : Int) : FateSafe fate (setpgid pid pgid) :=
  fateSafe_syscall (fun _ => trivial) fun c _ _ _ _ h => h.setpgid pid pgid c

theorem fateSafe_fork : FateSafe fate fork := by
  refine ⟨logGrows_tty.fork, fun w seg seg' h hlog hends _ => ?_⟩
  let After (w' : World) : Prop := w'.log = w.log ++ seg' → Fated fate (seg ++ seg') w'.kernel
  have hwp : Prog.wp fork (fun _ => After) After w := by
    refine wp_syscall fun used c rest _ => ?_
    intro hlog
    obtain rfl : seg' = (envs used).map Event.env ++ [.call (.fork ((w.drift used rest).kernel.fork c).1)
        (w.drift used rest).kernel w.jobs] := by
      refine @List.append_cancel_left _ w.log _ _ (hlog.symm.trans ?_)
      exact List.append_assoc ..
    have hdrift : Fated fate (seg ++ (envs used).map Event.env) (w.drift used rest).kernel := by
      refine h.extend (fun pid e he => ?_) fun pid hpid => ⟨(h.children pid hpid).happens fun e he =>
        hends.later hpid _ (List.mem_append_left _ (List.mem_map_of_mem he)), fun e he => ?_⟩
      · obtain ⟨_, -, rfl⟩ := List.mem_map.mp he
        exact id
      · obtain ⟨_, -, rfl⟩ := List.mem_map.mp he
        trivial
    rw [← List.append_assoc]
    refine ⟨fun pid hpid => ?_, List.pairwise_append.mpr ⟨hdrift.reports, List.pairwise_singleton _ _, ?_⟩⟩
    · rw [forks_append] at hpid
      rcases List.mem_append.mp hpid with hpid | hpid
      · exact (hdrift.children pid hpid).fork c
      · obtain ⟨e, he, hfork⟩ := mem_forks_iff.mp hpid
        rw [List.mem_singleton.mp he] at hfork
        obtain ⟨rfl, hpos⟩ := hfork
        exact endsAs_forked _ hpos
    · intro e _ e' he' pid _
      rw [List.mem_singleton.mp he']
      trivial
  exact Prog.wp_state hwp hlog

theorem fateSafe_waitpid (target : Int) (opts : WaitOpts) : FateSafe fate (waitpid target opts) := by
  refine ⟨logGrows_waitpid target opts, fun w seg seg' h hlog hends _ => ?_⟩
  let After (w' : World) : Prop := w'.log = w.log ++ seg' → Fated fate (seg ++ seg') w'.kernel
  -- what the kernel does between the two entries of the log, and what it answers
  have answered : ∀ (es : List Env) (r : WaitRes) (k k' : Kernel) (js : List Job),
    k = es.foldl Kernel.happen w.kernel →
      seg' = .call (.waitpid target opts) w.kernel w.jobs ::
        (es.map Event.env ++ [.call (.waited target opts r) k js]) →
      (∀ t pid, k.EndsAs t pid → k'.EndsAs t pid ∧ ∀ status, r = .report pid status →
        opts.continued = false →
        status = t.status) → Fated fate (seg ++ seg') k' := by
    rintro es r _ k' js rfl rfl hk
    have hmem : ∀ e ∈ (.call (.waitpid target opts) w.kernel w.jobs :: (es.map Event.env ++
        [.call (.waited target opts r) (es.foldl Kernel.happen w.kernel) js]) : List Event),
        e = .call (.waitpid target opts) w.kernel w.jobs ∨ (∃ x ∈ es, e = .env x) ∨
          e = .call (.waited target opts r) (es.foldl Kernel.happen w.kernel) js := by
      intro e he
      simpa [eq_comm] using he
    refine h.extend (fun pid e he => ?_) fun pid hpid => ?_
    · rcases hmem e he with rfl | ⟨x, -, rfl⟩ | rfl <;> exact id
    · have hes : ∀ e ∈ es, (Event.env e).EndsAs (fate pid) pid := fun e he =>
        hends.later hpid _ (List.mem_cons_of_mem _ (List.mem_append_left _ (List.mem_map_of_mem he)))
      obtain ⟨hk', hr⟩ := hk _ _ ((h.children pid hpid).happens hes)
      refine ⟨hk', fun e he => ?_⟩
      rcases hmem e he with rfl | ⟨x, -, rfl⟩ | rfl
      · trivial
      · trivial
      · cases r with
        | report p status =>
          rintro rfl hopts
          exact hr status rfl hopts
        | _ => trivial
  have hwp : Prog.wp (waitpid target opts) (fun _ => After) After w := by
    refine wp_ask (fun r w' hasked _ _ hlog => ?_) fun _ w' hun hlog => ?_
    · obtain ⟨es, k, hk, hr, hlog'⟩ := hasked.answer
      refine answered es r k w'.kernel w.jobs hk (List.append_cancel_left (hlog.symm.trans hlog'))
        ?_
      intro t pid ht
      rcases hr with ⟨c, hpoll⟩ | ⟨-, rfl, hsame⟩
      · exact ht.poll hpoll
      · rw [hsame]
        exact ⟨ht, fun _ hr => by cases hr⟩
    · obtain ⟨es, hk, hlog'⟩ := hun.log
      exact answered es .nothing w'.kernel w'.kernel w.jobs hk (List.append_cancel_left (hlog.symm.trans hlog'))
        fun t pid ht => ⟨ht, fun _ hr => by cases hr⟩
  exact Prog.wp_state hwp hlog

/-- A change that is not the kernel's. -/
theorem fateSafe_modify {f : World → World} (hk : ∀ w, (f w).kernel = w.kernel)
    (hlog : ∀ w, (f w).log = w.log) :
    FateSafe fate (Prog.modify f) := by
  refine ⟨fun w => (hlog w).symm ▸ List.prefix_rfl, fun w seg seg' h hl _ _ => ?_⟩
  have hnil : seg' = [] := List.append_right_eq_self.mp (hl.symm.trans (hlog w))
  rw [hnil, List.append_nil]
  exact (hk w).symm ▸ h

theorem fateSafe_tty : ClosedTty fun _ m => FateSafe fate m where
  pure := FateSafe.pure
  block := ⟨logGrows_tty.block, fun w seg seg' h hlog _ _ => by
    have hnil : seg' = [] := List.append_right_eq_self.mp hlog.symm
    rw [hnil, List.append_nil]
    exact h⟩
  bind := FateSafe.bind
  get_bind := fun hf => ⟨fun w => (hf w).1 w, fun w => (hf w).2 w⟩
  pipe := fateSafe_still (fun _ => trivial) fun c _ => by cases c <;> rfl
  close := fateSafe_close
  setCloexec := fun _ => fateSafe_still (fun _ => trivial) fun c _ => by cases c <;> rfl
  openFile := fun _ _ => fateSafe_still (fun _ => trivial) fun c _ => by cases c <;> rfl
  dupfd := fun fd => fateSafe_still (fun _ => trivial) fun c k => by
    rcases dupfd_cases fd c k with h | ⟨_, _, _, _, h⟩ <;> rw [h]
  dup2 := fun old new => fateSafe_still (fun _ => trivial) fun c k => by
    rcases dup2_cases old new c k with ⟨_, _, h⟩ | ⟨_, _, h⟩ <;> rw [h]
  fflush := fateSafe_still (fun _ => trivial) fun _ _ => rfl
  fork := fateSafe_fork
  setpgid := fateSafe_setpgid
  kill := fateSafe_kill
  waitpid := fateSafe_waitpid
  malloc := fun _ => fateSafe_still (fun _ => trivial) fun _ _ => rfl
  nanosleep := fateSafe_still (fun _ => trivial) fun _ _ => rfl
  writeGate := fun _ => fateSafe_still (fun _ => trivial) fun _ _ => rfl
  tcgetattr := fateSafe_still (fun _ => trivial) fun c _ => by cases c <;> rfl
  service := fun _ => fateSafe_still (fun _ => trivial) fun _ _ => rfl
  tcsetpgrp := fun _ => fateSafe_still (fun _ => trivial) fun c _ => by cases c <;> rfl
  tcsetattr := fun _ => fateSafe_still (fun _ => trivial) fun c _ => by cases c <;> rfl

/-- **The shell learns nothing of its children but how they end**, as long as it does not kill them. -/
theorem fateSafe_vars : ClosedVars fun _ m => FateSafe fate m where
  toClosed := fateSafe_tty.toClosed
  modify := fun hf => fateSafe_modify
    (fun w => by obtain ⟨ctx, hw, -⟩ := hf w; rw [hw]) fun w => by obtain ⟨ctx, hw, -⟩ := hf w; rw [hw]

end Programs

/-! ### A foreground command whose child exits -/

section Foreground

variable {code : Fin 256} {com : Command} {w w' : World}

/-- The entry of a child that has exited. -/
def Process.exited (pid : Int) (code : Fin 256) : Process :=
  processApplyWaitStatus (Process.new pid) (Termination.exited code).status

/-- A job of one child that runs, or has exited with `code`. -/
def Job.RunsOrExited (code : Fin 256) (pid : Int) (job : Job) : Prop :=
  job.status = .running ∧ job.processes = [Process.new pid] ∨
    job.status = .done ∧ job.processes = [Process.exited pid code]

theorem jobExitStatus_exited {job : Job} {pid : Int} (h : job.processes = [Process.exited pid code]) :
    jobExitStatus job = code := by
  have hmacros := ended_macros (Termination.exited code)
  have hexit := exitStatus_macros (Termination.exited code)
  unfold jobExitStatus jobLastProcess
  rw [h]
  simp only [List.getLast?_singleton, Process.exited, processApplyWaitStatus, hmacros, if_true]
  have hexited : WIFEXITED (Termination.exited code).status = true := by
    simp [Termination.status, WIFEXITED, WTERMSIG]
    omega
  rw [if_pos hexited] at hexit ⊢
  exact hexit

/-- The wait for a child that can only exit with `code`. -/
theorem Pends.runsOrExited {job job' : Job} {as : List WaitRes} {pid : Int} (h : Pends job as job')
    (hjob : job.status = .running ∧ job.processes = [Process.new pid])
    (has : ∀ status, .report pid status ∈ as → status = (Termination.exited code).status) :
    job'.RunsOrExited code pid := by
  induction h with
  | start => exact Or.inl hjob
  | interrupted _ _ ih => exact ih fun status hm => has status (List.mem_append_left _ hm)
  | @stored as job' p status _ hr hf ih =>
    rcases ih fun status hm => has status (List.mem_append_left _ hm) with ⟨-, hl⟩ | ⟨hdone, -⟩
    · have hp : p = pid := by
        by_contra hp
        refine hf ?_
        unfold processFind
        rw [hl]
        split <;> simp [Process.new, Ne.symm hp]
      subst hp
      have hstatus := has status (List.mem_append_right _ (List.mem_singleton_self _))
      have hl' : applyToFirst status p job'.processes = [Process.exited p code] := by
        rw [hl, applyToFirst, if_pos (show (Process.new p).pid = p from rfl), hstatus]
        rfl
      have hdone : (Process.exited p code).status = .done := by
        simp only [Process.exited, processApplyWaitStatus, ended_macros, if_true]
      refine Or.inr ⟨?_, ?_⟩
      · unfold Job.store
        rw [hl']
        exact (jobUpdateStatus_done (by simp)).mpr (by simpa using hdone)
      · unfold Job.store
        rw [jobUpdateStatus_processes, hl']
    · rw [hdone] at hr
      cases hr

/-- What a foreground wait is answered about a child whose fate is known. -/
theorem ReportsAs.answers {fate : Int → Termination} {seg seg' : List Event} {pid : Int} {as : List WaitRes}
    (h : ReportsAs fate (seg ++ seg')) (hpid : pid ∈ forks seg) (has : answers seg' = as) :
    ∀ status, .report pid status ∈ as → status = (fate pid).status := by
  intro status hm
  rw [← has] at hm
  obtain ⟨c, hc, heq⟩ := List.mem_filterMap.mp hm
  obtain ⟨k, js, he⟩ := mem_calls.mp hc
  obtain ⟨e₀, he₀, hfork⟩ := mem_forks_iff.mp hpid
  have hrep := (List.pairwise_append.mp h).2.2 e₀ he₀ _ he pid hfork
  cases c with
  | waited target opts r =>
    dsimp only at heq
    split at heq
    · rename_i hopts
      cases heq
      exact hrep rfl (by rw [hopts]; rfl)
    · cases heq
  | _ => cases heq

/-- `execute_single` after `job_wait_foreground` has returned `x`. -/
def waitedSingle (pid : Int) (terminalActive : Bool) (x : Int × Job) : Sh Int := do
  Prog.modify (World.updateJob 0 fun _ => x.2)
  if x.1 < 0 then
    rollbackSingle pid
    if terminalActive then
      let _ ← terminalRestore
    jobRemoveM pid
    pure errUnknown
  else finishForegroundJob 0 terminalActive

theorem logGrows_waitedSingle (pid : Int) (terminalActive : Bool) (x : Int × Job) :
    LogGrows (waitedSingle pid terminalActive x) := by
  have h := logGrows_vars.table
  have remove : LogGrows (jobRemoveM pid >>= fun _ => pure errUnknown) := (h.remove _).bind fun _ => h.pure _
  refine LogGrows.bind (closed_updateJob (K := fun _ m => LogGrows m) logGrows_vars 0 _) fun _ =>
    h.ite (fun _ => ?_) fun _ => ?_
  · exact LogGrows.bind (closed_rollbackSingle (K := fun _ m => LogGrows m) h.toClosed pid) fun _ =>
      h.ite (fun _ => LogGrows.bind (closed_terminalRestore (K := fun _ m => LogGrows m) logGrows_tty)
        fun _ => remove)
        fun _ => remove
  · exact closed_finishForegroundJob (K := fun _ m => LogGrows m) logGrows_vars logGrows_tty 0 terminalActive

/-- What is left to do when the wait for such a child is over. -/
theorem wp_waitedSingle {pid : Int} {terminalActive : Bool} {job job' : Job} {jobs : List Job}
    {as : List WaitRes} {r : Int} (hjobs : w.jobs = job :: jobs) (hwaits : Waits job as r job')
    (hjob : job.status = .running ∧ job.processes = [Process.new pid])
    (has : ∀ status, .report pid status ∈ as → status = (Termination.exited code).status) :
    Prog.wp (waitedSingle pid terminalActive (r, job')) (fun r _ => r < 0 ∨ r = code) (fun _ => True) w := by
  have herr : errUnknown < 0 := by decide
  unfold waitedSingle
  rw [Prog.wp_modify_bind, Prog.wp_ite]
  refine ⟨fun _ => Prog.wp_bind_done fun _ w₁ _ => ?_, fun hr => ?_⟩
  · have remove : ∀ w₂, Prog.wp (jobRemoveM pid >>= fun _ => pure errUnknown) (fun r _ => r < 0 ∨ r = code)
        (fun _ => True) w₂ := fun w₂ => Prog.wp_bind_done fun _ _ _ => Or.inl herr
    cases terminalActive with
    | false => exact remove w₁
    | true => exact Prog.wp_bind_done fun _ w₂ _ => remove w₂
  · rcases hwaits.result with ⟨-, hp, hs⟩ | ⟨rfl, -⟩
    · rcases hp.runsOrExited hjob has with ⟨hrun, -⟩ | ⟨hdone, hl⟩
      · exact absurd hrun hs
      · have hget : (w.updateJob 0 fun _ => job').jobs[0]? = some job' := by
          have : (w.updateJob 0 fun _ => job').jobs = job' :: jobs := by
            unfold World.updateJob World.setJobs World.updateManager
            simp only [hjobs]
            rfl
          rw [this]
          rfl
        have hstop : ¬ (terminalActive = true ∧ job'.status = .stopped) := by
          rw [hdone]
          simp
        have finish : ∀ restored w₂, Prog.wp (finishRestored job' restored) (fun r _ => r < 0 ∨ r = code)
            (fun _ => True) w₂ := by
          intro restored w₂
          unfold finishRestored
          rw [Prog.wp_ite]
          refine ⟨fun _ => Or.inl herr, fun _ => ?_⟩
          rw [if_neg (by rw [hdone]; simp), if_neg (by simp [hdone]), jobExitStatus_exited hl]
          refine Or.inr ?_
          rw [if_neg (by omega)]
        unfold finishForegroundJob
        rw [Prog.wp_get_bind, hget]
        simp only [if_neg hstop]
        cases terminalActive with
        | false => exact finish 0 _
        | true => exact Prog.wp_bind_done fun restored w₂ _ => finish restored w₂
    · exact absurd (show (-1 : Int) < 0 by decide) hr

/-- **`execute_single` on a child that exits with `code`**: that is what it returns, unless it fails itself. -/
theorem executeSingle_exited (hfg : com.background = false) {r : Int} (hrun : executeSingle com w = .done r w')
    {seg : List Event} (hseg : w'.log = w.log ++ seg) (hends : EndsAs (fun _ => .exited code) seg) :
    r < 0 ∨ r = code := by
  unfold executeSingle at hrun
  rw [Prog.bind_apply] at hrun
  cases hlaunch : launchSingle com w with
  | blocked w₁ => rw [hlaunch] at hrun; cases hrun
  | done x w₁ =>
    rw [hlaunch] at hrun
    have hspec := Prog.wp_done (wp_launchSingle (R := fun _ => True) com w) hlaunch
    cases x with
    | error e =>
      cases hrun
      exact Or.inl (errors_neg _ hspec.1)
    | ok x =>
      obtain ⟨pid, terminalActive⟩ := x
      have hl : Launched com w pid [pid] w₁ := hspec.2
      have hpid : 0 < pid := hl.pos pid (by simp)
      obtain ⟨n, m, c, -, hctx⟩ := hl.ctx
      let job : Job := { Job.new n pid c with processes := [Process.new pid] }
      have hjobs : w₁.jobs = job :: w.jobs := by
        rw [World.jobs, hctx]
        rfl
      have hwait : waitSingle com pid terminalActive w₁ =
          (jobWaitForeground job >>= waitedSingle pid terminalActive) w₁ := by
        unfold waitSingle
        rw [if_neg (by simp [hfg]), Prog.bind_done (show Prog.get w₁ = .done w₁ w₁ from rfl), hjobs]
        rfl
      change waitSingle com pid terminalActive w₁ = _ at hrun
      rw [hwait, Prog.bind_apply] at hrun
      cases hjw : jobWaitForeground job w₁ with
      | blocked w₂ => rw [hjw] at hrun; cases hrun
      | done x w₂ =>
        obtain ⟨r₁, job'⟩ := x
        rw [hjw] at hrun
        obtain ⟨as, hwaits, hw⟩ :=
          Prog.wp_done (wp_jobWaitForeground (Q := fun x w' => ∃ as, Waits job as x.1 x.2 ∧
          WaitedFor job.pgid as w₁ w') (R := fun _ => True) hpid (fun as _ _ _ h h' => ⟨as, h, h'⟩)
          fun _ _ _ _ _ _ _ _ => trivial) hjw
        -- what has become known of the child by the end of the wait
        obtain ⟨seg₁, hseg₁, hev₁, hforks, -⟩ := hl.log
        obtain ⟨seg₂, hseg₂, hans, hev₂⟩ := hw.log
        obtain ⟨seg₃, hseg₃⟩ : w₂.log <+: w'.log := by
          have hgrow := logGrows_waitedSingle pid terminalActive (r₁, job') w₂
          change waitedSingle pid terminalActive (r₁, job') w₂ = _ at hrun
          rwa [hrun] at hgrow
        have heq : seg = seg₁ ++ seg₂ ++ seg₃ := by
          refine @List.append_cancel_left _ w.log _ _ ?_
          rw [← hseg, ← hseg₃, hseg₂, hseg₁]
          simp only [List.append_assoc]
        have hends₂ : EndsAs (fun _ => .exited code) (seg₁ ++ seg₂) :=
          (List.pairwise_append.mp (heq ▸ hends)).1
        have hkill₁ : NoKill seg₁ := by
          intro target r hm
          obtain ⟨k, js, hm⟩ := mem_calls.mp hm
          rcases hev₁ _ hm with h | h <;> exact h
        have hkill₂ : NoKill seg₂ := by
          intro target r hm
          obtain ⟨k, js, hm⟩ := mem_calls.mp hm
          exact hev₂ _ hm
        have hsafe : FateSafe (fun _ => .exited code) (launchSingle com) :=
          closed_launchSingle (K := fun _ m => FateSafe (fun _ => .exited code) m) fateSafe_vars.table
            fun _ => fateSafe_tty
        have hlaunched := hsafe.2 w [] seg₁ ⟨by simp, .nil⟩
        rw [hlaunch] at hlaunched
        have hfate₁ := hlaunched hseg₁ (List.pairwise_append.mp hends₂).1 hkill₁
        have hwaited := (closed_jobWaitForeground (K := fun _ m => FateSafe (fun _ => .exited code) m)
          fateSafe_tty.toClosed job).2 w₁ ([] ++ seg₁) seg₂ hfate₁
        rw [hjw] at hwaited
        have hfate₂ := hwaited hseg₂ hends₂ hkill₂
        have hmem : pid ∈ forks ([] ++ seg₁) := by
          rw [List.nil_append, hforks]
          exact List.mem_singleton_self pid
        have hanswers := hfate₂.reports.answers hmem hans
        have hjobs₂ : w₂.jobs = job :: w.jobs := by
          rw [← hjobs]
          exact congrArg (fun ctx : ShellContext => ctx.jobs.head) hw.ctx
        have hend : Prog.wp (waitedSingle pid terminalActive (r₁, job')) (fun r _ => r < 0 ∨ r = code)
            (fun _ => True) w₂ := wp_waitedSingle hjobs₂ hwaits ⟨rfl, rfl⟩ hanswers
        exact (Prog.wp_done hend hrun :)

end Foreground

end MiniShell
