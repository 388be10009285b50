import MiniShell.Spec.Effects

/-!
# Rolling a launch back

`rollback_single` and `rollback_pipeline` kill the children of a failed launch and collect them.  They
always return, because a killed child has terminated: `Dead k p` says that nobody has to wait for the child `p`
of the kernel, and it is kept by everything that can happen.
-/

namespace MiniShell

open MiniShell.Lib

@[simp] theorem kill_pids {k : Kernel} {target : Int} {sig : Sig} {c : Choice} :
    (k.kill target sig c).2.pids = k.pids := by
  unfold Kernel.kill
  split
  · exact Kernel.updateChildren_pids ..
  · split <;> rfl

@[simp] theorem kill_fds {k : Kernel} {target : Int} {sig : Sig} {c : Choice} :
    (k.kill target sig c).2.fds = k.fds := by
  unfold Kernel.kill
  split
  · rfl
  · split <;> rfl

/-- If there is still a child `p`, one that has terminated is. -/
def Kernel.Dead (k : Kernel) (p : Int) : Prop :=
  p ∈ k.pids → ∃ c ∈ k.children, c.pid = p ∧ ∃ t, c.state = .zombie t

section Dead

variable {k : Kernel} {p : Int}

theorem dead_updateChildren {q : Child → Bool} {f : ChildState → ChildState}
    (hf : ∀ t, f (.zombie t) = .zombie t) (h : k.Dead p) : (k.updateChildren q f).Dead p := by
  intro hp
  rw [Kernel.updateChildren_pids] at hp
  obtain ⟨c, hc, hcp, t, ht⟩ := h hp
  refine ⟨_, Kernel.mem_updateChildren.mpr ⟨c, hc, rfl⟩, ?_⟩
  split
  · exact ⟨hcp, t, by simp [ht, hf]⟩
  · exact ⟨hcp, t, ht⟩

theorem dead_moveChild {pid pgid : Int} (h : k.Dead p) : (k.moveChild pid pgid).Dead p := by
  intro hp
  rw [Kernel.moveChild_pids] at hp
  obtain ⟨c, hc, hcp, t, ht⟩ := h hp
  refine ⟨_, Kernel.mem_moveChild.mpr ⟨c, hc, rfl⟩, ?_⟩
  split <;> exact ⟨hcp, t, ht⟩

theorem dead_happen {e : Env} (h : k.Dead p) : (k.happen e).Dead p := by
  cases e with
  | terminate pid t => exact dead_updateChildren (fun _ => rfl) h
  | stop pid sig => exact dead_updateChildren (fun _ => rfl) h
  | resume pid => exact dead_updateChildren (fun _ => rfl) h
  | regroup pid pgid => exact dead_moveChild h
  | ttyModes modes => exact h
  | ttyPgrp pgid => exact h

theorem foldl_happen_dead (es : List Env) (h : k.Dead p) : (es.foldl Kernel.happen k).Dead p := by
  induction es generalizing k with
  | nil => exact h
  | cons e es ih => exact ih (dead_happen h)

theorem dead_drift {used rest : List Item} {w : World} (h : w.kernel.Dead p) :
    (w.drift used rest).kernel.Dead p := foldl_happen_dead _ h

theorem deliver_zombie (sig : Sig) (t : Termination) :
    ChildState.deliver sig (.zombie t) = .zombie t := by
  unfold ChildState.deliver
  split
  · rfl
  · split <;> rfl

theorem dead_kill {target : Int} {sig : Sig} {c : Choice} (h : k.Dead p) :
    (k.kill target sig c).2.Dead p := by
  unfold Kernel.kill
  split
  · exact dead_updateChildren (deliver_zombie sig) h
  · split <;> exact h

/-- A child that a `SIGKILL` reaches is dead. -/
theorem kill_reached {target : Int} {ch : Choice} {c : Child} (hc : c ∈ k.children)
    (hn : c.named target = true) : (k.kill target SIGKILL ch).2.Dead c.pid := by
  intro _
  unfold Kernel.kill
  rw [if_pos (List.any_eq_true.mpr ⟨c, hc, hn⟩)]
  refine ⟨_, Kernel.mem_updateChildren.mpr ⟨c, hc, rfl⟩, ?_⟩
  rw [if_pos hn, ChildState.deliver_kill]
  exact ⟨rfl, ChildState.terminate_kill ..⟩

/-- After `kill(p, SIGKILL)` the child `p` is dead. -/
theorem kill_dead {c : Choice} (hp : 0 < p) : (k.kill p SIGKILL c).2.Dead p := by
  intro hm
  rw [kill_pids] at hm
  obtain ⟨x, hx, rfl⟩ := List.mem_map.mp hm
  exact kill_reached hx (by simp [Child.named, hp]) (by rw [kill_pids]; exact hm)

theorem kill_ok {c : Choice} {sig : Sig} (hp : 0 < p) (hk : p ∈ k.pids) :
    (k.kill p sig c).1 = .ok := by
  obtain ⟨x, hx, hxp⟩ := List.mem_map.mp hk
  unfold Kernel.kill
  rw [if_pos (List.any_eq_true.mpr ⟨x, hx, by simp [Child.named, hp, hxp]⟩)]

theorem dead_collect {pid : Int} {change : Change} (h : k.Dead p) (hp : pid = p → ∃ t, change = .ended t) :
    (k.collect pid change).Dead p := by
  have keep : ∀ f, pid ≠ p → (k.updateChildren (fun c => c.pid = pid) f).Dead p := by
    intro f hne hm
    rw [Kernel.updateChildren_pids] at hm
    obtain ⟨c, hc, rfl, ht⟩ := h hm
    refine ⟨c, Kernel.mem_updateChildren.mpr ⟨c, hc, ?_⟩, rfl, ht⟩
    rw [if_neg (by simpa using fun heq => hne heq.symm)]
  cases change with
  | ended t =>
    intro hm
    rw [Kernel.collect_pids] at hm
    obtain ⟨hm, hne⟩ := List.mem_filter.mp hm
    obtain ⟨c, hc, rfl, ht⟩ := h hm
    exact ⟨c, List.mem_filter.mpr ⟨hc, hne⟩, rfl, ht⟩
  | stopped sig => exact keep _ fun heq => by obtain ⟨t, ht⟩ := hp heq; cases ht
  | continued => exact keep _ fun heq => by obtain ⟨t, ht⟩ := hp heq; cases ht

/-- Waiting for a dead child does not wait. -/
theorem dead_poll {opts : WaitOpts} {c : Choice} (hp : 0 < p) (h : k.Dead p) :
    k.poll p opts c ≠ none := by
  intro hnone
  obtain ⟨-, ⟨x, hx, hn⟩, hrep⟩ := Kernel.poll_none hnone
  have hxp : x.pid = p := by simpa [Child.named, hp] using hn
  obtain ⟨z, hz, hzp, t, ht⟩ := h (hxp ▸ List.mem_map_of_mem hx)
  have := hrep z hz (by simp [Child.named, hp, hzp])
  rw [ht] at this
  cases this

/-- Without options only a termination is reported. -/
theorem report_noOpts {state : ChildState} {change : Change} (h : state.report noOpts = some change) :
    ∃ t, change = .ended t := by
  cases state with
  | zombie t => exact ⟨t, (Option.some.inj h).symm⟩
  | _ => cases h

end Dead

/-! ### One signal, one child -/

/-- What a `kill` does between `w` and `w'`. -/
structure KillStep (target : Int) (sig : Sig) (r : Res) (w w' : World) : Prop where
  ctx : w'.ctx = w.ctx
  term : w'.term = w.term
  pids : w'.kernel.pids = w.kernel.pids
  fds : w'.kernel.fds = w.kernel.fds
  log : ∃ (es : List Env) (k : Kernel) (js : List Job),
    w'.log = w.log ++ (es.map Event.env ++ [.call (.kill target sig r) k js]) ∧
    k.pids = w.kernel.pids
  dead : ∀ p, w.kernel.Dead p → w'.kernel.Dead p
  fatal : sig = SIGKILL → 0 < target → w'.kernel.Dead target
  hit : 0 < target → target ∈ w.kernel.pids → r = .ok

theorem wp_kill {target : Int} {sig : Sig} {Q : Res → World → Prop} {R : World → Prop} {w : World}
    (h : ∀ r w', KillStep target sig r w w' → Q r w') : Prog.wp (kill target sig) Q R w := by
  refine wp_syscall fun used c rest ht => h _ _ ?_
  have hpids : (w.drift used rest).kernel.pids = w.kernel.pids := World.drift_pids ..
  refine ⟨rfl, rfl, ?_, ?_, ⟨envs used, _, w.jobs, ?_, hpids⟩, ?_, ?_, ?_⟩
  · simp
  · simp
  · simp [World.record, drift_log]
    rfl
  · exact fun p hd => dead_kill (dead_drift hd)
  · rintro rfl hpos
    exact kill_dead hpos
  · exact fun hpos hmem => kill_ok hpos (hpids ▸ hmem)

/-- What `reap_pid(p)` does between `w` and `w'`. -/
structure Reaped (p : Int) (w w' : World) : Prop where
  ctx : w'.ctx = w.ctx
  term : w'.term = w.term
  pids : w'.kernel.pids = w.kernel.pids.filter (· ≠ p)
  fds : w'.kernel.fds = w.kernel.fds
  dead : ∀ q, w.kernel.Dead q → w'.kernel.Dead q
  log : ∃ seg, w'.log = w.log ++ seg ∧ (∀ e ∈ seg, e.Of Call.Neutral) ∧
    (p ∈ w.kernel.pids → ∃ st, .waited p noOpts (.report p st) ∈ calls seg)

/-- `reap_pid` of a dead child returns, and the child is gone. -/
theorem wp_reapPid {p : Int} (hp : 0 < p) {Q : Unit → World → Prop} {R : World → Prop} {w : World}
    (hd : w.kernel.Dead p) (h : ∀ w', Reaped p w w' → Q () w') : Prog.wp (reapPid p) Q R w := by
  unfold reapPid
  rw [if_neg (by omega)]
  refine Prog.wp_loop (fun _ w' => Quiet Call.Neutral w w' ∧ ∀ q, w.kernel.Dead q → w'.kernel.Dead q) ?_ ()
    w ⟨Quiet.refl w, fun _ h => h⟩
  rintro - w₁ ⟨hq, hdead⟩
  rw [Prog.wp_bind]
  refine wp_waitpid rfl (fun used c rest r k ht hpoll => ?_) (fun hnone => ?_)
  · -- the calls up to the answer are quiet
    have hq' : Quiet Call.Neutral w ((w₁.record (.waitpid p noOpts)).drift used rest) :=
      hq.trans ((quiet_record trivial w₁).trans (quiet_drift used rest _))
    have hdead' : ∀ q, w.kernel.Dead q →
        ((w₁.record (.waitpid p noOpts)).drift used rest).kernel.Dead q :=
      fun q hq => dead_drift (hdead q hq)
    obtain ⟨seg, hseg, hneu, -⟩ := hq'.log
    have hrec : ∀ e ∈ seg ++ [.call (.waited p noOpts r)
        ((w₁.record (.waitpid p noOpts)).drift used rest).kernel w₁.jobs], e.Of Call.Neutral := by
      intro e he
      rcases List.mem_append.mp he with he | he
      · exact hneu e he
      · rw [List.mem_singleton.mp he]
        exact show noOpts ≠ WUNTRACED by decide
    have hlog : (((w₁.record (.waitpid p noOpts)).drift used rest).record (.waited p noOpts r)).log =
        w.log ++ (seg ++ [.call (.waited p noOpts r)
          ((w₁.record (.waitpid p noOpts)).drift used rest).kernel w₁.jobs]) := by
      simp only [World.record, hseg, List.append_assoc] at *
      rfl
    rcases Kernel.poll_cases hpoll with ⟨rfl, rfl, rfl⟩ | ⟨hnone, rfl, rfl⟩ |
      ⟨x, change, hx, hn, hrep, rfl, rfl⟩
    · exact ⟨⟨hq'.trans (quiet_record (show noOpts ≠ WUNTRACED by decide) _), hdead'⟩,
        ht.length_lt (by simp)⟩
    · -- there is no such child
      have hnot : p ∉ w.kernel.pids := by
        rw [← hq'.pids]
        intro hmem
        obtain ⟨x, hx, hxp⟩ := List.mem_map.mp hmem
        simpa [Child.named, hp, hxp] using hnone x hx
      refine h _ ⟨hq'.ctx, hq'.term, ?_, hq'.fds, hdead', _, hlog, hrec, fun hm => absurd hm hnot⟩
      rw [List.filter_eq_self.mpr fun q hq => by
        have : q ≠ p := fun heq => hnot (heq ▸ hq)
        simpa using this]
      exact hq'.pids
    · have hxp : x.pid = p := by simpa [Child.named, hp] using hn
      obtain ⟨t, rfl⟩ := report_noOpts hrep
      refine h _ ⟨hq'.ctx, hq'.term, ?_, ?_, ?_, _, hlog, hrec, fun _ => ⟨(Change.ended t).status, ?_⟩⟩
      · dsimp only
        rw [Kernel.collect_pids, hq'.pids, hxp]
      · dsimp only
        rw [Kernel.collect_fds, hq'.fds]
      · exact fun q hq => dead_collect (hdead' q hq) fun _ => ⟨t, rfl⟩
      · simp [hxp]
  · exact absurd hnone (dead_poll hp (dead_drift (hdead p hd)))

/-! ### The rollback -/

/-- An event of a rollback of `pids` that started with the children `live`. -/
inductive RollbackEvent (pids live : List Int) : Event → Prop where
  | neutral {e : Event} (h : e.Of Call.Neutral) : RollbackEvent pids live e
  | kill {target : Int} {r : Res} {k : Kernel} {js : List Job} (hk : k.pids = live)
      (ht : 0 < target → target ∈ pids) : RollbackEvent pids live (.call (.kill target SIGKILL r) k js)

/-- What `rollback_pipeline` on the children `ps` does between `w` and `w'`: it signals every one of
them, whether it still exists or not, and collects those that exist. -/
structure Rolled (ps : List Int) (w w' : World) : Prop where
  ctx : w'.ctx = w.ctx
  term : w'.term = w.term
  pids : w'.kernel.pids = w.kernel.pids.filter (· ∉ ps)
  fds : w'.kernel.fds = w.kernel.fds
  log : ∃ seg, w'.log = w.log ++ seg ∧ (∀ e ∈ seg, RollbackEvent ps w.kernel.pids e) ∧
    ∀ p ∈ ps, (∃ r k js, .call (.kill p SIGKILL r) k js ∈ seg ∧ k.pids = w.kernel.pids) ∧
      (p ∈ w.kernel.pids → ∃ st,
        List.Sublist [.kill p SIGKILL .ok, .waited p noOpts (.report p st)] (calls seg))

/-- The world in the middle of a rollback, when the children `killed` have been sent their signal. -/
structure Killing (ps killed : List Int) (w w' : World) : Prop where
  ctx : w'.ctx = w.ctx
  term : w'.term = w.term
  pids : w'.kernel.pids = w.kernel.pids
  fds : w'.kernel.fds = w.kernel.fds
  dead : ∀ p ∈ killed, w'.kernel.Dead p
  log : ∃ seg, w'.log = w.log ++ seg ∧ (∀ e ∈ seg, RollbackEvent ps w.kernel.pids e) ∧
    ∀ p ∈ killed, ∃ r k js, .call (.kill p SIGKILL r) k js ∈ seg ∧ k.pids = w.kernel.pids ∧
      (p ∈ w.kernel.pids → r = .ok)

theorem Killing.refl (pids : List Int) (w : World) : Killing pids [] w w :=
  ⟨rfl, rfl, rfl, rfl, by simp, [], by simp, by simp, by simp⟩

theorem Killing.step {pids killed : List Int} {w w₁ w₂ : World} {target : Int} {r : Res}
    (h : Killing pids killed w w₁) (hk : KillStep target SIGKILL r w₁ w₂)
    (ht : 0 < target → target ∈ pids) :
    Killing pids (killed ++ if 0 < target then [target] else []) w w₂ := by
  obtain ⟨seg, hseg, hev, hkill⟩ := h.log
  obtain ⟨es, k, js, hlog, hkp⟩ := hk.log
  refine ⟨hk.ctx.trans h.ctx, hk.term.trans h.term, hk.pids.trans h.pids, hk.fds.trans h.fds, ?_,
    seg ++ (es.map Event.env ++ [.call (.kill target SIGKILL r) k js]), ?_, ?_, ?_⟩
  · intro p hp
    rcases List.mem_append.mp hp with hp | hp
    · exact hk.dead p (h.dead p hp)
    · split at hp
      · rename_i hpos
        rw [List.mem_singleton.mp hp]
        exact hk.fatal rfl hpos
      · simp at hp
  · rw [hlog, hseg, List.append_assoc]
  · intro e he
    rcases List.mem_append.mp he with he | he
    · exact hev e he
    · rcases List.mem_append.mp he with he | he
      · obtain ⟨x, -, rfl⟩ := List.mem_map.mp he
        exact .neutral trivial
      · rw [List.mem_singleton.mp he]
        exact .kill (hkp.trans h.pids) ht
  · intro p hp
    rcases List.mem_append.mp hp with hp | hp
    · obtain ⟨r', k', js', hm, hk'⟩ := hkill p hp
      exact ⟨r', k', js', List.mem_append_left _ hm, hk'⟩
    · split at hp
      · rename_i hpos
        rw [List.mem_singleton.mp hp]
        exact ⟨r, k, js, by simp, hkp.trans h.pids, fun hm => hk.hit hpos (h.pids ▸ hm)⟩
      · simp at hp

/-- The reaping half of a rollback: the children `left` are still to be collected. -/
theorem wp_reapAll {pids : List Int} (hpos : ∀ p ∈ pids, 0 < p) {Q : Unit → World → Prop}
    {R : World → Prop} {w w₁ : World} (hk : Killing pids pids w w₁)
    (h : ∀ w', Rolled pids w w' → Q () w') : Prog.wp (Prog.forList reapPid pids) Q R w₁ := by
  obtain ⟨seg, hseg, hev, hkill⟩ := hk.log
  let I : List Int → World → Prop := fun left w' => ∃ reaped, pids = reaped ++ left ∧
    w'.ctx = w.ctx ∧ w'.term = w.term ∧ w'.kernel.pids = w.kernel.pids.filter (· ∉ reaped) ∧
    w'.kernel.fds = w.kernel.fds ∧ (∀ p ∈ pids, w'.kernel.Dead p) ∧
    ∃ seg', w'.log = w₁.log ++ seg' ∧ (∀ e ∈ seg', e.Of Call.Neutral) ∧
      ∀ p ∈ reaped, p ∈ w.kernel.pids → ∃ st, .waited p noOpts (.report p st) ∈ calls seg'
  refine Prog.wp_mono (Prog.wp_forList I ?_ pids w₁ ?_) ?_ (fun _ h => h)
  · rintro p left w₂ ⟨reaped, hsplit, hctx, hterm, hpids, hfds, hdead, seg', hseg', hneu, hrep⟩
    have hp : p ∈ pids := by simp [hsplit]
    apply wp_reapPid (hpos p hp) (hdead p hp)
    intro w₃ hr
    obtain ⟨seg'', hseg'', hneu', hrep'⟩ := hr.log
    refine ⟨reaped ++ [p], by simp [hsplit], hr.ctx.trans hctx, hr.term.trans hterm, ?_,
      hr.fds.trans hfds, fun q hq => hr.dead q (hdead q hq), seg' ++ seg'', ?_, ?_, ?_⟩
    · rw [hr.pids, hpids, List.filter_filter]
      apply List.filter_congr
      intro q _
      simp only [List.mem_append, List.mem_singleton, not_or, Bool.decide_and, decide_not, ne_eq]
      exact Bool.and_comm ..
    · rw [hseg'', hseg', List.append_assoc]
    · intro e he
      rcases List.mem_append.mp he with he | he
      · exact hneu e he
      · exact hneu' e he
    · intro q hq hmem
      by_cases hqr : q ∈ reaped
      · obtain ⟨st, hst⟩ := hrep q hqr hmem
        exact ⟨st, by simp [hst]⟩
      · obtain rfl : q = p := by simpa [hqr] using hq
        obtain ⟨st, hst⟩ := hrep' (by rw [hpids]; simp [hmem, hqr])
        exact ⟨st, by simp [hst]⟩
  · exact ⟨[], rfl, hk.ctx, hk.term, by simpa using hk.pids, hk.fds, hk.dead, [], by simp, by simp,
      by simp⟩
  · rintro - w' ⟨reaped, hsplit, hctx, hterm, hpids, hfds, -, seg', hseg', hneu, hrep⟩
    obtain rfl : pids = reaped := by simpa using hsplit
    refine h w' ⟨hctx, hterm, hpids, hfds, seg ++ seg', by rw [hseg', hseg, List.append_assoc], ?_, ?_⟩
    · intro e he
      rcases List.mem_append.mp he with he | he
      · exact hev e he
      · exact .neutral (hneu e he)
    · intro p hp
      obtain ⟨r, k, js, hm, hkp, hr⟩ := hkill p hp
      refine ⟨⟨r, k, js, List.mem_append_left _ hm, hkp⟩, fun hmem => ?_⟩
      obtain ⟨st, hst⟩ := hrep p hp hmem
      refine ⟨st, ?_⟩
      rw [calls_append]
      refine List.Sublist.append (List.singleton_sublist.mpr ?_) (List.singleton_sublist.mpr hst)
      exact mem_calls.mpr ⟨k, js, by rw [← hr hmem]; exact hm⟩

/-- **`rollback_pipeline` returns**, having signalled and collected the children it is given. -/
theorem wp_rollbackPipeline {pgid : Int} {pids : List Int} (hpos : ∀ p ∈ pids, 0 < p)
    {Q : Unit → World → Prop} {R : World → Prop} {w : World}
    (h : ∀ w', Rolled pids w w' → Q () w') : Prog.wp (rollbackPipeline pgid pids) Q R w := by
  have kills : ∀ w₁, Killing pids [] w w₁ → Prog.wp
      (Prog.forList (fun pid => do
        if ¬ pid ≤ 0 then
          let _ ← kill pid SIGKILL) pids)
      (fun _ w' => Killing pids pids w w') R w₁ := by
    intro w₁ h₁
    refine Prog.wp_mono (Prog.wp_forList
      (fun left w' => ∃ killed, pids = killed ++ left ∧ Killing pids killed w w') ?_ pids w₁
      ⟨[], rfl, h₁⟩) ?_ (fun _ h => h)
    · rintro p left w₂ ⟨killed, hsplit, h₂⟩
      have hp : p ∈ pids := by simp [hsplit]
      have h0 := hpos p hp
      rw [if_pos (by omega), Prog.wp_bind]
      apply wp_kill
      intro r w₃ hk
      refine ⟨killed ++ [p], by simp [hsplit], ?_⟩
      simpa [h0] using h₂.step hk fun _ => hp
    · rintro - w' ⟨killed, hsplit, h'⟩
      obtain rfl : pids = killed := by simpa using hsplit
      exact h'
  have rest : ∀ w₁, Killing pids [] w w₁ → Prog.wp
      (Prog.forList (fun pid => do
        if ¬ pid ≤ 0 then
          let _ ← kill pid SIGKILL) pids >>= fun _ => Prog.forList reapPid pids) Q R w₁ := by
    intro w₁ h₁
    rw [Prog.wp_bind]
    exact Prog.wp_mono (kills w₁ h₁) (fun _ w₂ h₂ => wp_reapAll hpos h₂ h) (fun _ h => h)
  unfold rollbackPipeline
  split
  · rename_i hpg
    rw [Prog.wp_bind]
    apply wp_kill
    intro r w₁ hk
    have h₁ := (Killing.refl pids w).step hk (fun h0 => by omega)
    rw [if_neg (by omega)] at h₁
    exact rest w₁ h₁
  · exact rest w (Killing.refl pids w)

/-- `rollback_single` is `rollback_pipeline` on the one child. -/
theorem rollbackSingle_eq {pid : Int} (hpid : 0 < pid) : rollbackSingle pid = rollbackPipeline pid [pid] := by
  have hle : ¬ pid ≤ 0 := by omega
  simp only [rollbackSingle, rollbackPipeline, Prog.forList, hle, hpid, if_true, if_false,
    not_false_eq_true, bind_assoc, pure_bind, bind_pure_unit]

theorem wp_rollbackSingle {pid : Int} (hpid : 0 < pid) {Q : Unit → World → Prop} {R : World → Prop}
    {w : World} (h : ∀ w', Rolled [pid] w w' → Q () w') : Prog.wp (rollbackSingle pid) Q R w := by
  rw [rollbackSingle_eq hpid]
  exact wp_rollbackPipeline (by simpa using hpid) h

end MiniShell
