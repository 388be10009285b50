import MiniShell.Spec.Rollback

/-!
# Launching

What `execute_single` and `execute_pipeline` do up to the opened gate, for every chain and every script.

* `Launching w₀ s w` — the launch that started in `w₀` has come to `w` and the gate is shut: the
  descriptors `s.fds` are open on top of those of `w₀`, the children `s.pids` have been forked, those of
  `s.grouped` have been put into the group of the first child, and the table holds `s.jobs`;
* `Gated com w₀ seg` — in the log of the launch the gate is opened only when everything is prepared;
* `Undone com w₀ js w` — the launch has failed and its children are gone; with `js = w₀.jobs` it has left
  nothing behind;
* `Launched com w₀ pgid ps w` — the launch has succeeded with a job of the children `ps`.
-/

namespace MiniShell

open MiniShell.Lib MiniShellError

/-- How far a launch has come. -/
structure Stage where
  fds : List ℕ
  pids : List Int
  grouped : List Int
  jobs : List Job

/-- The events of a launch up to the gate: no signals, no writes to the gate, no bad `close`. -/
def Event.OfLaunch : Event → Prop
  | .call (.close fd) k _ => k.fds.IsOpen fd
  | .call (.kill ..) _ _ => False
  | .call (.writeGate ..) _ _ => False
  | .call (.waited _ opts _) _ _ => opts ≠ WUNTRACED
  | _ => True

/-- The events of a launch from the gate on. -/
def Event.OfOpening : Event → Prop
  | .call (.close fd) k _ => k.fds.IsOpen fd
  | .call (.writeGate ..) _ _ => True
  | .call _ _ _ => False
  | _ => True

theorem ofLaunch_of_neutral {e : Event} (h : e.Of Call.Neutral) : e.OfLaunch := by
  cases e with
  | env e => trivial
  | call c k js => cases c <;> first | exact absurd h id | exact h

theorem sound_of_ofLaunch {e : Event} (h : e.OfLaunch) : e.Sound := by
  cases e with
  | env e => trivial
  | call c k js => cases c <;> first | exact h | trivial

theorem sound_of_ofOpening {e : Event} (h : e.OfOpening) : e.Sound := by
  cases e with
  | env e => trivial
  | call c k js => cases c <;> first | exact h | exact absurd h id

/-- What the launch that started in `w₀` holds in `w`. -/
structure Held (w₀ : World) (s : Stage) (w : World) : Prop where
  ctx : ∃ n ≥ w₀.ctx.jobs.nextid, w.ctx = { w₀.ctx with jobs := ⟨s.jobs, n⟩ }
  term : w.term = w₀.term
  fds : FdTable.Extra w₀.kernel.fds s.fds w.kernel.fds
  pids : w.kernel.pids = w₀.kernel.pids ++ s.pids
  pos : ∀ p ∈ s.pids, 0 < p
  fresh : ∀ p ∈ s.pids, p ∉ w₀.kernel.pids
  nodup : s.pids.Nodup

/-- The launch that started in `w₀` has come to `w`, and the gate is still shut. -/
structure Launching (w₀ : World) (s : Stage) (w : World) : Prop extends Held w₀ s w where
  log : ∃ seg, w.log = w₀.log ++ seg ∧ (∀ e ∈ seg, e.OfLaunch) ∧ forks seg = s.pids ∧
    (∀ p ∈ s.grouped, ∃ g r, s.pids.head? = some g ∧ r.Accepted ∧ .setpgid p g r ∈ calls seg) ∧
    ∀ p ∈ s.pids, ∃ k, .call (.fork p) k w₀.jobs ∈ seg

section Steps

variable {w₀ w w' : World} {s : Stage}

theorem Held.jobs_eq (h : Held w₀ s w) : w.jobs = s.jobs := by
  obtain ⟨n, -, hw⟩ := h.ctx
  simp [World.jobs, hw]

/-- Nothing changes but the descriptors. -/
theorem Held.extend (h : Held w₀ s w) {ks : List ℕ} (hctx : w'.ctx = w.ctx) (hterm : w'.term = w.term)
    (hfds : FdTable.Extra w₀.kernel.fds ks w'.kernel.fds) (hpids : w'.kernel.pids = w.kernel.pids) :
    Held w₀ { s with fds := ks } w' where
  ctx := by
    obtain ⟨n, hn, hw⟩ := h.ctx
    exact ⟨n, hn, hctx.trans hw⟩
  term := hterm.trans h.term
  fds := hfds
  pids := hpids.trans h.pids
  pos := h.pos
  fresh := h.fresh
  nodup := h.nodup

/-- The table of the shell changes, and nothing else does. -/
theorem Held.table (h : Held w₀ s w) (f : JobManager → JobManager) (hf : ∀ m, m.nextid ≤ (f m).nextid) :
    Held w₀ { s with jobs := (f w.ctx.jobs).head } (w.updateManager f) where
  ctx := by
    obtain ⟨n, hn, hw⟩ := h.ctx
    refine ⟨(f w.ctx.jobs).nextid, le_trans ?_ (hf _), ?_⟩
    · rw [hw]
      exact hn
    · simp only [World.updateManager, hw]
  term := h.term
  fds := h.fds
  pids := h.pids
  pos := h.pos
  fresh := h.fresh
  nodup := h.nodup

theorem Launching.start (w : World) : Launching w ⟨[], [], [], w.jobs⟩ w where
  ctx := ⟨w.ctx.jobs.nextid, le_refl _, rfl⟩
  term := rfl
  fds := .refl _
  pids := by simp
  pos := by simp
  fresh := by simp
  nodup := by simp
  log := ⟨[], by simp, by simp, by simp, by simp, by simp⟩

theorem Launching.perm (h : Launching w₀ s w) {ks : List ℕ} (hp : s.fds.Perm ks) :
    Launching w₀ { s with fds := ks } w :=
  { h with fds := h.fds.perm hp }

/-- A launch goes on with a piece of log in which nothing is forked. -/
theorem Launching.extend (h : Launching w₀ s w) {ks : List ℕ} {seg : List Event}
    (hctx : w'.ctx = w.ctx) (hterm : w'.term = w.term)
    (hfds : FdTable.Extra w₀.kernel.fds ks w'.kernel.fds) (hpids : w'.kernel.pids = w.kernel.pids)
    (hlog : w'.log = w.log ++ seg) (hev : ∀ e ∈ seg, e.OfLaunch) (hf : forks seg = []) :
    Launching w₀ { s with fds := ks } w' where
  toHeld := h.toHeld.extend hctx hterm hfds hpids
  log := by
    obtain ⟨seg₀, h₀, hev₀, hf₀, hg, hat⟩ := h.log
    refine ⟨seg₀ ++ seg, by rw [hlog, h₀, List.append_assoc], ?_, by simp [hf₀, hf], ?_, ?_⟩
    · intro e he
      rcases List.mem_append.mp he with he | he
      · exact hev₀ e he
      · exact hev e he
    · intro p hp
      obtain ⟨g, r, hhead, hr, hm⟩ := hg p hp
      exact ⟨g, r, hhead, hr, by simp [hm]⟩
    · intro p hp
      obtain ⟨k, hm⟩ := hat p hp
      exact ⟨k, List.mem_append_left _ hm⟩

theorem Launching.table (h : Launching w₀ s w) (f : JobManager → JobManager)
    (hf : ∀ m, m.nextid ≤ (f m).nextid) :
    Launching w₀ { s with jobs := (f w.ctx.jobs).head } (w.updateManager f) :=
  { h.toHeld.table f hf with log := h.log }

theorem Launching.quiet (h : Launching w₀ s w) (hq : Quiet Call.Neutral w w') : Launching w₀ s w' := by
  obtain ⟨seg, hseg, hev, -⟩ := hq.log
  exact h.extend hq.ctx hq.term (hq.fds ▸ h.fds) hq.pids hseg
    (fun e he => ofLaunch_of_neutral (hev e he)) (forks_of (fun _ => id) hev)

/-- One more child has been put into the group of the first. -/
theorem Launching.setpgid (h : Launching w₀ s w) (hq : Quiet Call.Neutral w w') {p g : Int}
    (hg : s.pids.head? = some g) (hc : ∃ cs r, Issued cs w w' ∧ r.Accepted ∧ .setpgid p g r ∈ cs) :
    Launching w₀ { s with grouped := s.grouped ++ [p] } w' := by
  have h' := h.quiet hq
  refine { h' with log := ?_ }
  obtain ⟨seg₀, h₀, hev₀, hf₀, hg₀, -⟩ := h.log
  obtain ⟨seg, hseg, hev, -⟩ := hq.log
  obtain ⟨cs, r, hi, hr, hm⟩ := hc
  rw [← hi.calls_eq hseg] at hm
  have hl : w'.log = w₀.log ++ (seg₀ ++ seg) := by rw [hseg, h₀, List.append_assoc]
  obtain ⟨seg₁, h₁, hev₁, hf₁, -, hat₁⟩ := h'.log
  obtain rfl : seg₁ = seg₀ ++ seg := List.append_cancel_left (h₁.symm.trans hl)
  refine ⟨_, hl, hev₁, hf₁, fun q hq => ?_, hat₁⟩
  rcases List.mem_append.mp hq with hq | hq
  · obtain ⟨g', r', hhead, hr', hm'⟩ := hg₀ q hq
    exact ⟨g', r', hhead, hr', by simp [hm']⟩
  · rw [List.mem_singleton.mp hq]
    exact ⟨g, r, hg, hr, by simp [hm]⟩

end Steps

/-! ### The calls of a launch -/

section Calls

variable {w₀ w : World} {s : Stage} {R : World → Prop}

theorem wp_close {k : ℕ} {ks : List ℕ} (h : Launching w₀ s w) (hk : s.fds = k :: ks)
    {Q : Unit → World → Prop} (hQ : ∀ w', Launching w₀ { s with fds := ks } w' → Q () w') :
    Prog.wp (close k) Q R w := by
  have hfds := h.fds
  rw [hk] at hfds
  refine hQ _ (@Launching.extend _ _ _ s h ks [_] rfl rfl hfds.close rfl rfl ?_ rfl)
  intro e he
  rw [List.mem_singleton.mp he]
  exact hfds.isOpen k (by simp)

/-- The descriptor behind a C descriptor variable: none when it is -1. -/
def fdList (fd : Int) : List ℕ := if fd ≥ 0 then [fd.toNat] else []

theorem wp_closeIf {fd : Int} {ks : List ℕ} (h : Launching w₀ s w) (hk : s.fds = fdList fd ++ ks)
    {Q : Unit → World → Prop} (hQ : ∀ w', Launching w₀ { s with fds := ks } w' → Q () w') :
    Prog.wp (closeIf fd) Q R w := by
  unfold closeIf
  unfold fdList at hk
  split at hk
  · rw [if_pos (by assumption)]
    exact wp_close h hk hQ
  · rw [if_neg (by assumption)]
    refine hQ _ ?_
    obtain rfl : s.fds = ks := by simpa using hk
    exact h

theorem wp_pipe (h : Launching w₀ s w) {Q : Option (ℕ × ℕ) → World → Prop}
    (hfail : ∀ w', Launching w₀ s w' → Q none w')
    (hok : ∀ a b w', Launching w₀ { s with fds := b :: a :: s.fds } w' → Q (some (a, b)) w') :
    Prog.wp pipe Q R w := by
  apply wp_syscall
  intro used c rest ht
  have hd : Launching w₀ s (w.drift used rest) := h.quiet (quiet_drift used rest w)
  generalize w.drift used rest = v at hd
  have ok : ∀ c, v.kernel.pipe c = v.kernel.pipe .ok → Q (v.kernel.pipe c).1
      { v.record (.pipe (v.kernel.pipe c).1) with kernel := (v.kernel.pipe c).2 } := by
    intro c hc
    rw [hc]
    refine hok _ _ _ (@Launching.extend _ _ _ s hd _ [_] rfl rfl ?_ rfl rfl ?_ rfl)
    · exact (hd.fds.cons (FdTable.lowestFree_not_open 0 _) _).cons (FdTable.lowestFree_not_open 0 _) _
    · intro e he
      rw [List.mem_singleton.mp he]
      trivial
  cases c with
  | ok => exact ok .ok rfl
  | pick n => exact ok (.pick n) rfl
  | fail e => exact hfail _ (hd.quiet (quiet_record trivial _))

theorem wp_setCloexec {fd : ℕ} (h : Launching w₀ s w) (hfd : fd ∈ s.fds) {Q : Res → World → Prop}
    (hQ : ∀ r w', Launching w₀ s w' → Q r w') : Prog.wp (setCloexec fd) Q R w := by
  refine wp_syscall fun used c rest ht => hQ _ _ ?_
  have hd : Launching w₀ s (w.drift used rest) := h.quiet (quiet_drift used rest w)
  refine @Launching.extend _ _ _ s hd s.fds [_] rfl rfl ?_ ?_ rfl ?_ rfl
  · cases c <;> first | exact hd.fds | exact hd.fds.update hfd fun d => { d with cloexec := true }
  · cases c <;> rfl
  · intro e he
    rw [List.mem_singleton.mp he]
    trivial

theorem wp_fork (h : Launching w₀ s w) (hjs : s.jobs = w₀.jobs) {Q : Int → World → Prop}
    (hfail : ∀ w', Launching w₀ s w' → Q (-1) w')
    (hok : ∀ pid w', 0 < pid → Launching w₀ { s with pids := s.pids ++ [pid] } w' → Q pid w') :
    Prog.wp fork Q R w := by
  apply wp_syscall
  intro used c rest ht
  have hd : Launching w₀ s (w.drift used rest) := h.quiet (quiet_drift used rest w)
  generalize w.drift used rest = v at hd
  have hpos : ∀ c, 0 < v.kernel.forkPid c := by
    intro c
    have := (v.kernel.forkPid_spec c).1
    omega
  have ok : ∀ c, Launching w₀ { s with pids := s.pids ++ [v.kernel.forkPid c] }
      { v.record (.fork (v.kernel.forkPid c)) with
        kernel := { v.kernel with
          children := v.kernel.children ++ [⟨v.kernel.forkPid c, v.kernel.shellPgrp, .running false⟩] } } := by
    intro c
    have hp := hpos c
    have hnew := (v.kernel.forkPid_spec c).2
    generalize v.kernel.forkPid c = pid at *
    rw [hd.pids, List.mem_append, not_or] at hnew
    obtain ⟨seg, hseg, hev, hf, hg, hat⟩ := hd.log
    refine ⟨⟨hd.ctx, hd.term, hd.fds, ?_, ?_, ?_, ?_⟩, seg ++ [.call (.fork pid) v.kernel v.jobs],
      ?_, ?_, ?_, ?_, ?_⟩
    · have : v.kernel.pids ++ [pid] = w₀.kernel.pids ++ (s.pids ++ [pid]) := by
        rw [hd.pids, List.append_assoc]
      simpa [Kernel.pids] using this
    · intro p hp'
      rcases List.mem_append.mp hp' with hp' | hp'
      · exact hd.pos p hp'
      · rw [List.mem_singleton.mp hp']
        exact hp
    · intro p hp'
      rcases List.mem_append.mp hp' with hp' | hp'
      · exact hd.fresh p hp'
      · rw [List.mem_singleton.mp hp']
        exact hnew.1
    · exact hd.nodup.append (List.nodup_singleton pid) (by simpa using hnew.2)
    · rw [← List.append_assoc, ← hseg]
      rfl
    · intro e he
      rcases List.mem_append.mp he with he | he
      · exact hev e he
      · rw [List.mem_singleton.mp he]
        trivial
    · rw [forks_append, hf]
      simp [forks, calls, hp]
    · intro p hp'
      obtain ⟨g, r, hhead, hr, hm⟩ := hg p hp'
      exact ⟨g, r, by simp [hhead], hr, by simp [hm]⟩
    · intro p hp'
      rcases List.mem_append.mp hp' with hp' | hp'
      · obtain ⟨k, hm⟩ := hat p hp'
        exact ⟨k, List.mem_append_left _ hm⟩
      · rw [List.mem_singleton.mp hp', ← hjs, ← hd.jobs_eq]
        exact ⟨v.kernel, by simp⟩
  cases c with
  | ok => exact hok _ _ (hpos .ok) (ok .ok)
  | pick n => exact hok _ _ (hpos (.pick n)) (ok (.pick n))
  | fail e =>
    refine hfail _ (@Launching.extend _ _ _ s hd s.fds [_] rfl rfl hd.fds rfl rfl ?_ rfl)
    intro e' he
    rw [List.mem_singleton.mp he]
    trivial

theorem wp_jobAdd (h : Launching w₀ s w) {pgid : Int} {command : Option Bytes} {Q : Bool → World → Prop}
    (hfail : ∀ w', Launching w₀ s w' → Q false w')
    (hok : ∀ w' n c, command = some c →
      Launching w₀ { s with jobs := Job.new n pgid c :: s.jobs } w' → Q true w') :
    Prog.wp (jobAdd pgid command) Q R w := by
  unfold jobAdd
  split
  · exact hfail w h
  · rename_i c
    split
    · exact hfail w h
    · rw [Prog.wp_bind]
      apply wp_malloc
      intro r w' hq
      have h' := h.quiet hq
      cases r with
      | err e => exact hfail w' h'
      | ok =>
        obtain ⟨n, -, hw⟩ := h'.ctx
        refine hok _ n c rfl ?_
        have ht := h'.table (fun manager =>
          { head := Job.new manager.nextid pgid c :: manager.head, nextid := manager.nextid + 1 })
          fun m => Nat.le_succ _
        simpa [hw] using ht

theorem wp_processAdd {job : Job} {js : List Job} (h : Launching w₀ s w) (hjs : s.jobs = job :: js)
    {pid : Int} (hpid : 0 < pid) {Q : Int → World → Prop}
    (hfail : ∀ w', Launching w₀ s w' → Q (-1) w')
    (hok : ∀ w', Launching w₀
      { s with jobs := { job with processes := job.processes ++ [Process.new pid] } :: js } w' → Q 0 w') :
    Prog.wp (processAdd 0 pid) Q R w := by
  unfold processAdd
  rw [if_neg (by omega), Prog.wp_bind]
  apply wp_malloc
  intro r w' hq
  have h' := h.quiet hq
  cases r with
  | err e => exact hfail w' h'
  | ok =>
    refine hok _ ?_
    have ht := h'.table (fun manager => { manager with
      head := w'.jobs.modify 0 fun job => { job with processes := job.processes ++ [Process.new pid] } })
      fun m => le_refl _
    unfold World.updateJob World.setJobs
    rw [h'.jobs_eq, hjs] at ht ⊢
    exact ht

theorem wp_processAddAll {Q : Int → World → Prop} (ps : List Int) {job : Job} {js : List Job} {s : Stage}
    {w : World} (h : Launching w₀ s w) (hjs : s.jobs = job :: js) (hpos : ∀ p ∈ ps, 0 < p)
    (hfail : ∀ (qs : List Int) w', Launching w₀
      { s with jobs := { job with processes := job.processes ++ qs.map Process.new } :: js } w' → Q (-1) w')
    (hok : ∀ w', Launching w₀
      { s with jobs := { job with processes := job.processes ++ ps.map Process.new } :: js } w' → Q 0 w') :
    Prog.wp (processAddAll ps) Q R w := by
  induction ps generalizing job s w with
  | nil =>
    refine hok w ?_
    simpa [← hjs] using h
  | cons p ps ih =>
    unfold processAddAll
    rw [Prog.wp_bind]
    refine wp_processAdd h hjs (hpos p (by simp)) (fun w' h' => ?_) (fun w' h' => ?_)
    · refine hfail [] w' ?_
      simpa [← hjs] using h'
    · refine ih h' rfl (fun q hq => hpos q (by simp [hq])) (fun qs w'' h'' => ?_) (fun w'' h'' => ?_)
      · refine hfail (p :: qs) w'' ?_
        simpa using h''
      · refine hok w'' ?_
        simpa using h''

end Calls

/-! ### The gate -/

/-- Everything is prepared for the gate to be opened, where `pre` is the log so far and `js` the table: the
children are in the group `pgid` of the first of them, the newest job is theirs, and a command in the
foreground has the terminal. -/
structure Prepared (com : Command) (w₀ : World) (pgid : Int) (pre : List Event) (js : List Job) : Prop where
  leader : (forks pre).head? = some pgid
  grouped : ∀ p ∈ forks pre, ∃ r, r.Accepted ∧ .setpgid p pgid r ∈ calls pre
  table : ∃ job, js = job :: w₀.jobs ∧ job.pgid = pgid ∧ job.pids = forks pre
  foreground : com.background = false → w₀.term.initialized = true → .tcsetpgrp pgid .ok ∈ calls pre

/-- In the log of a launch the gate is opened only when everything is prepared. -/
def Gated (com : Command) (w₀ : World) (seg : List Event) : Prop :=
  ∃ pre post, seg = pre ++ post ∧ (∀ c ∈ calls pre, ¬ c.OfGate) ∧ forks post = [] ∧
    (∀ fd r k js, .call (.writeGate fd r) k js ∈ post → ∃ pgid, Prepared com w₀ pgid pre js) ∧
    gateBytes (calls post) ≤ (forks pre).length

/-- The launch that started in `w₀` has opened the gate, or has tried to. -/
structure Opening (com : Command) (w₀ : World) (s : Stage) (w : World) : Prop extends Held w₀ s w where
  log : ∃ pre post, w.log = w₀.log ++ (pre ++ post) ∧ (∀ e ∈ pre, e.OfLaunch) ∧ forks pre = s.pids ∧
    (∀ e ∈ post, e.OfOpening) ∧
    (∀ fd r k js, .call (.writeGate fd r) k js ∈ post → ∃ pgid, Prepared com w₀ pgid pre js) ∧
    gateBytes (calls post) ≤ s.pids.length ∧ ∀ p ∈ s.pids, ∃ k, .call (.fork p) k w₀.jobs ∈ pre

section Gate

variable {com : Command} {w₀ w : World} {s : Stage} {R : World → Prop}

theorem gate_of_ofLaunch {l : List Event} (h : ∀ e ∈ l, e.OfLaunch) : ∀ c ∈ calls l, ¬ c.OfGate := by
  intro c hc hg
  obtain ⟨k, js, hm⟩ := mem_calls.mp hc
  have := h _ hm
  cases c <;> first | exact hg | exact this

theorem answers_of_ofLaunch {l : List Event} (h : ∀ e ∈ l, e.OfLaunch) : answers l = [] :=
  answers_eq_nil fun _ _ _ _ hm => h _ hm rfl

theorem answers_of_ofOpening {l : List Event} (h : ∀ e ∈ l, e.OfOpening) : answers l = [] :=
  answers_eq_nil fun _ _ _ _ hm => h _ hm

theorem forks_of_ofOpening {l : List Event} (h : ∀ e ∈ l, e.OfOpening) : forks l = [] := by
  apply List.eq_nil_iff_forall_not_mem.mpr
  intro p hp
  obtain ⟨k, js, hm⟩ := mem_calls.mp (mem_forks.mp hp).2
  exact h _ hm

/-- **Opening the gate**: everything is prepared for it, and when it succeeds there is a byte for every
child. -/
theorem wp_openGate (h : Launching w₀ s w) (hall : s.grouped = s.pids) {job : Job}
    (hjs : s.jobs = job :: w₀.jobs) (hjob : job.pids = s.pids) (hlead : s.pids.head? = some job.pgid)
    (hfg : com.background = false → w₀.term.initialized = true →
      ∃ seg, w.log = w₀.log ++ seg ∧ .tcsetpgrp job.pgid .ok ∈ calls seg) {fd : ℕ}
    {Q : Int → World → Prop} (hQ : ∀ r w', Opening com w₀ s w' →
      (0 ≤ r → ∃ seg, w'.log = w₀.log ++ seg ∧ gateBytes (calls seg) = s.pids.length) → Q r w') :
    Prog.wp (startupGateRelease fd s.pids.length) Q R w := by
  obtain ⟨pre, hpre, hev, hf, hg, hforks⟩ := h.log
  apply wp_startupGateRelease
  intro r w' cs hq hi hle heq
  obtain ⟨post, hpost, hsort, hat⟩ := hq.log
  obtain rfl := hi.calls_eq hpost
  have hlog : w'.log = w₀.log ++ (pre ++ post) := by rw [hpost, hpre, List.append_assoc]
  refine hQ r w' ⟨h.toHeld.extend hq.ctx hq.term (hq.fds ▸ h.fds) hq.pids, pre, post, hlog, hev, hf, ?_, ?_,
    hle, hforks⟩ fun hr => ⟨_, hlog, ?_⟩
  · intro e he
    have := hsort e he
    cases e with
    | env e => trivial
    | call c k js => cases c <;> first | exact absurd this id | exact trivial
  · intro fd r k js hm
    obtain rfl : js = w.jobs := hat _ hm
    refine ⟨job.pgid, by rw [hf, hlead], fun p hp => ?_, ⟨job, ?_, rfl, ?_⟩, fun hb ht => ?_⟩
    · obtain ⟨g, r, hhead, hr, hm⟩ := hg p (by rwa [hall, ← hf])
      obtain rfl : g = job.pgid := Option.some.inj (hhead.symm.trans hlead)
      exact ⟨r, hr, hm⟩
    · rw [h.jobs_eq, hjs]
    · rw [hjob, hf]
    · obtain ⟨seg, hseg, hm⟩ := hfg hb ht
      obtain rfl : seg = pre := List.append_cancel_left (hseg.symm.trans hpre)
      exact hm
  · have h0 : gateBytes (calls pre) = 0 := gateBytes_eq_zero (gate_of_ofLaunch hev)
    have := heq hr
    simp only [gateBytes, calls_append, List.countP_append] at *
    omega

theorem wp_closeGate {k : ℕ} (h : Opening com w₀ s w) (hk : s.fds = [k])
    {Q : Unit → World → Prop} (hQ : ∀ w', Opening com w₀ { s with fds := [] } w' →
      (∀ seg, w.log = w₀.log ++ seg → ∃ seg', w'.log = w₀.log ++ seg' ∧
        gateBytes (calls seg') = gateBytes (calls seg)) → Q () w') :
    Prog.wp (close k) Q R w := by
  have hfds := h.fds
  rw [hk] at hfds
  obtain ⟨pre, post, hlog, hev, hf, hpost, hprep, hle, hforks⟩ := h.log
  refine hQ _ ⟨h.toHeld.extend rfl rfl hfds.close rfl, pre, post ++ [.call (.close k) w.kernel w.jobs], ?_,
    hev, hf, ?_, ?_, ?_, hforks⟩ ?_
  · rw [← List.append_assoc, ← List.append_assoc, List.append_assoc _ pre post, ← hlog]
    rfl
  · intro e he
    rcases List.mem_append.mp he with he | he
    · exact hpost e he
    · rw [List.mem_singleton.mp he]
      exact hfds.isOpen k (by simp)
  · intro fd r k' js hm
    refine hprep fd r k' js ?_
    simpa using hm
  · simpa [gateBytes] using hle
  · intro seg hseg
    refine ⟨seg ++ [.call (.close k) w.kernel w.jobs], ?_, by simp [gateBytes]⟩
    rw [← List.append_assoc, ← hseg]
    rfl

end Gate

/-! ### Failing -/

/-- The launch has nothing left to undo but its children and its job. -/
structure Undoable (com : Command) (w₀ : World) (s : Stage) (w : World) : Prop extends Held w₀ s w where
  closed : s.fds = []
  log : ∃ seg, w.log = w₀.log ++ seg ∧ (∀ e ∈ seg, e.Sound) ∧ forks seg = s.pids ∧
    Gated com w₀ seg ∧
    answers seg = []

/-- The launch has failed: the descriptors and the children are those of `w₀` again, and every child that
was forked has been sent `SIGKILL` and collected. -/
structure Undone (com : Command) (w₀ : World) (js : List Job) (w : World) : Prop where
  ctx : ∃ n ≥ w₀.ctx.jobs.nextid, w.ctx = { w₀.ctx with jobs := ⟨js, n⟩ }
  term : w.term = w₀.term
  fds : w.kernel.fds = w₀.kernel.fds
  pids : w.kernel.pids = w₀.kernel.pids
  log : ∃ seg, w.log = w₀.log ++ seg ∧ (∀ e ∈ seg, e.Sound) ∧ Gated com w₀ seg ∧
    answers seg = [] ∧
    ∀ p ∈ forks seg, p ∉ w₀.kernel.pids ∧ ∃ st, List.Sublist
      [.fork p, .kill p SIGKILL .ok, .waited p noOpts (.report p st)] (calls seg)

section Failing

variable {com : Command} {w₀ w w' : World} {s : Stage} {js : List Job} {R : World → Prop}

/-- Before the gate is opened nothing has been written to it. -/
theorem Launching.undoable (com : Command) (h : Launching w₀ s w) (hk : s.fds = []) : Undoable com w₀ s w where
  toHeld := h.toHeld
  closed := hk
  log := by
    obtain ⟨seg, hseg, hev, hf, -⟩ := h.log
    refine ⟨seg, hseg, fun e he => sound_of_ofLaunch (hev e he), hf,
      ⟨seg, [], by simp, gate_of_ofLaunch hev, rfl, by simp, by simp [gateBytes]⟩, answers_of_ofLaunch hev⟩

theorem Opening.undoable (h : Opening com w₀ s w) (hk : s.fds = []) : Undoable com w₀ s w where
  toHeld := h.toHeld
  closed := hk
  log := by
    obtain ⟨pre, post, hlog, hev, hf, hpost, hprep, hle, -⟩ := h.log
    have hfp := forks_of_ofOpening hpost
    refine ⟨pre ++ post, hlog, fun e he => ?_, by simp [hf, hfp],
      ⟨pre, post, rfl, gate_of_ofLaunch hev, hfp, hprep, by rw [hf]; exact hle⟩,
      by simp [answers_of_ofLaunch hev, answers_of_ofOpening hpost]⟩
    rcases List.mem_append.mp he with he | he
    · exact sound_of_ofLaunch (hev e he)
    · exact sound_of_ofOpening (hpost e he)

theorem forks_of_rollback {ps live : List Int} {l : List Event} (h : ∀ e ∈ l, RollbackEvent ps live e) :
    forks l = [] := by
  apply List.eq_nil_iff_forall_not_mem.mpr
  intro p hp
  obtain ⟨k, js, hm⟩ := mem_calls.mp (mem_forks.mp hp).2
  cases h _ hm with
  | neutral hn => exact hn

theorem answers_of_rollback {ps live : List Int} {l : List Event} (h : ∀ e ∈ l, RollbackEvent ps live e) :
    answers l = [] := by
  apply answers_eq_nil
  intro _ _ _ _ hm
  cases h _ hm with
  | neutral hn => exact hn rfl

theorem gate_of_rollback {ps live : List Int} {l : List Event} (h : ∀ e ∈ l, RollbackEvent ps live e) :
    ∀ c ∈ calls l, ¬ c.OfGate := by
  intro c hc hg
  obtain ⟨k, js, hm⟩ := mem_calls.mp hc
  cases h _ hm with
  | neutral hn => cases c <;> first | exact hg | exact hn
  | kill hk ht => exact hg

/-- What follows without forks and without writes to the gate does not matter. -/
theorem Gated.append {seg seg' : List Event} (h : Gated com w₀ seg) (hf : forks seg' = [])
    (hg : ∀ c ∈ calls seg', ¬ c.OfGate) : Gated com w₀ (seg ++ seg') := by
  obtain ⟨pre, post, rfl, hpre, hpost, hprep, hle⟩ := h
  refine ⟨pre, post ++ seg', by simp, hpre, by simp [hpost, hf], fun fd r k js hm => ?_, ?_⟩
  · rcases List.mem_append.mp hm with hm | hm
    · exact hprep fd r k js hm
    · exact absurd trivial (hg _ (mem_calls.mpr ⟨k, js, hm⟩))
  · have h0 : gateBytes (calls seg') = 0 := gateBytes_eq_zero hg
    simp only [gateBytes, calls_append, List.countP_append] at *
    omega

/-- The rollback undoes the launch. -/
theorem Undoable.rolled (h : Undoable com w₀ s w) (hr : Rolled s.pids w w') : Undone com w₀ s.jobs w' where
  ctx := by
    rw [hr.ctx]
    exact h.ctx
  term := hr.term.trans h.term
  fds := by
    have hfds := h.fds
    rw [h.closed] at hfds
    rw [hr.fds]
    exact hfds.eq
  pids := by
    rw [hr.pids, h.pids, List.filter_append]
    have h1 : w₀.kernel.pids.filter (· ∉ s.pids) = w₀.kernel.pids :=
      List.filter_eq_self.mpr fun p hp => by simpa using fun hs => h.fresh p hs hp
    have h2 : s.pids.filter (· ∉ s.pids) = [] := List.filter_eq_nil_iff.mpr fun p hp => by simpa using hp
    rw [h1, h2, List.append_nil]
  log := by
    obtain ⟨seg, hseg, hsound, hf, hgate, hans⟩ := h.log
    obtain ⟨seg', hseg', hev, hkill⟩ := hr.log
    have hlive : ∀ p ∈ s.pids, p ∈ w.kernel.pids := by
      intro p hp
      rw [h.pids]
      exact List.mem_append_right _ hp
    refine ⟨seg ++ seg', by rw [hseg', hseg, List.append_assoc], fun e he => ?_,
      hgate.append (forks_of_rollback hev) (gate_of_rollback hev), by simp [hans, answers_of_rollback hev],
      fun p hp => ?_⟩
    · rcases List.mem_append.mp he with he | he
      · exact hsound e he
      · cases hev e he with
        | neutral hn => exact sound_of_neutral hn
        | kill hk ht => exact fun hpos => hk ▸ hlive _ (ht hpos)
    · rw [forks_append, forks_of_rollback hev, List.append_nil] at hp
      obtain ⟨st, hst⟩ := (hkill p (hf ▸ hp)).2 (hlive p (hf ▸ hp))
      refine ⟨h.fresh p (hf ▸ hp), st, ?_⟩
      rw [calls_append]
      exact List.Sublist.append (List.singleton_sublist.mpr (mem_forks.mp hp).2) hst

/-- A launch that has forked nothing has nothing to undo. -/
theorem Launching.undone (com : Command) (h : Launching w₀ s w) (hk : s.fds = []) (hp : s.pids = []) :
    Undone com w₀ s.jobs w := by
  refine (h.undoable com hk).rolled ?_
  rw [hp]
  exact ⟨rfl, rfl, by simp, rfl, [], by simp, by simp, by simp⟩

theorem wp_undoPipeline (h : Undoable com w₀ s w) {pgid : Int} {Q : Unit → World → Prop}
    (hQ : ∀ w', Undone com w₀ s.jobs w' → Q () w') : Prog.wp (rollbackPipeline pgid s.pids) Q R w :=
  wp_rollbackPipeline h.pos fun w' hr => hQ w' (h.rolled hr)

theorem wp_undoSingle (h : Undoable com w₀ s w) {pid : Int} (hpid : s.pids = [pid])
    {Q : Unit → World → Prop} (hQ : ∀ w', Undone com w₀ s.jobs w' → Q () w') :
    Prog.wp (rollbackSingle pid) Q R w :=
  wp_rollbackSingle (h.pos pid (by simp [hpid])) fun w' hr => hQ w' (h.rolled (hpid ▸ hr))

theorem Undone.quiet (h : Undone com w₀ js w) (hq : Quiet Call.Neutral w w') : Undone com w₀ js w' where
  ctx := by
    rw [hq.ctx]
    exact h.ctx
  term := hq.term.trans h.term
  fds := hq.fds.trans h.fds
  pids := hq.pids.trans h.pids
  log := by
    obtain ⟨seg, hseg, hsound, hgate, hans, hfk⟩ := h.log
    obtain ⟨seg', hseg', hev, -⟩ := hq.log
    have hf : forks seg' = [] := forks_of (fun _ => id) hev
    have hans' : answers seg' = [] := answers_eq_nil fun _ _ _ _ hm => hev _ hm rfl
    refine ⟨seg ++ seg', by rw [hseg', hseg, List.append_assoc], fun e he => ?_, hgate.append hf ?_,
      by simp [hans, hans'], fun p hp => ?_⟩
    · rcases List.mem_append.mp he with he | he
      · exact hsound e he
      · exact sound_of_neutral (hev e he)
    · intro c hc hg
      have := calls_of hev c hc
      cases c <;> first | exact hg | exact this
    · rw [forks_append, hf, List.append_nil] at hp
      obtain ⟨hnew, st, hst⟩ := hfk p hp
      exact ⟨hnew, st, by rw [calls_append]; exact hst.trans (List.sublist_append_left _ _)⟩

/-- The job of the launch is taken out of the table again. -/
theorem wp_undoJob {job : Job} (h : Undone com w₀ (job :: w₀.jobs) w) {pgid : Int} (hjob : job.pgid = pgid)
    (hpgid : 0 < pgid) {Q : Unit → World → Prop} (hQ : ∀ w', Undone com w₀ w₀.jobs w' → Q () w') :
    Prog.wp (jobRemoveM pgid) Q R w := by
  obtain ⟨n, hn, hw⟩ := h.ctx
  refine hQ _ ⟨⟨n, hn, ?_⟩, h.term, h.fds, h.pids, h.log⟩
  simp [World.updateManager, jobRemove, hw, hjob, show ¬ pgid ≤ 0 by omega]

theorem wp_undoTerminal (h : Undone com w₀ js w) {Q : Int → World → Prop}
    (hQ : ∀ r w', Undone com w₀ js w' → Q r w') : Prog.wp terminalRestore Q R w :=
  wp_terminalRestore fun r w' hq => hQ r w' (h.quiet hq)

end Failing

/-! ### Succeeding -/

/-- The launch has succeeded: the job of its children `ps` is the newest of the table, everything else is
as before, and nothing was signalled. -/
structure Launched (com : Command) (w₀ : World) (pgid : Int) (ps : List Int) (w : World) : Prop where
  ctx : ∃ n m c, com.argv0 = some c ∧ w.ctx = { w₀.ctx with
    jobs := ⟨{ Job.new n pgid c with processes := ps.map Process.new } :: w₀.jobs, m⟩ }
  term : w.term = w₀.term
  fds : w.kernel.fds = w₀.kernel.fds
  pids : w.kernel.pids = w₀.kernel.pids ++ ps
  pos : ∀ p ∈ ps, 0 < p
  fresh : ∀ p ∈ ps, p ∉ w₀.kernel.pids
  nodup : ps.Nodup
  leader : ps.head? = some pgid
  log : ∃ seg, w.log = w₀.log ++ seg ∧ (∀ e ∈ seg, e.OfLaunch ∨ e.OfOpening) ∧ forks seg = ps ∧
    Gated com w₀ seg ∧ gateBytes (calls seg) = ps.length ∧ ∀ p ∈ ps, ∃ k, .call
      (.fork p) k w₀.jobs ∈ seg

section Succeeding

variable {com : Command} {w₀ w w' : World} {s : Stage} {R : World → Prop}

theorem Opening.launched (h : Opening com w₀ s w) (hk : s.fds = []) {n : ℕ} {pgid : Int} {c : Bytes}
    (hc : com.argv0 = some c)
    (hjs : s.jobs = { Job.new n pgid c with processes := s.pids.map Process.new } :: w₀.jobs)
    (hlead : s.pids.head? = some pgid)
    (hbytes : ∃ seg, w.log = w₀.log ++ seg ∧ gateBytes (calls seg) = s.pids.length) :
    Launched com w₀ pgid s.pids w where
  ctx := by
    obtain ⟨m, -, hw⟩ := h.ctx
    exact ⟨n, m, c, hc, by rw [hw, hjs]⟩
  term := h.term
  fds := by
    have hfds := h.fds
    rw [hk] at hfds
    exact hfds.eq
  pids := h.pids
  pos := h.pos
  fresh := h.fresh
  nodup := h.nodup
  leader := hlead
  log := by
    obtain ⟨seg, hseg, -, hf, hgate, -⟩ := (h.undoable hk).log
    obtain ⟨pre, post, hlog, hev, -, hpost, -, -, hforks⟩ := h.log
    obtain ⟨seg', hseg', hb⟩ := hbytes
    obtain rfl : seg = pre ++ post := List.append_cancel_left (hseg.symm.trans hlog)
    obtain rfl : seg' = pre ++ post := List.append_cancel_left (hseg'.symm.trans hlog)
    refine ⟨_, hseg, fun e he => ?_, hf, hgate, hb, fun p hp => ?_⟩
    rotate_left
    · obtain ⟨k, hm⟩ := hforks p hp
      exact ⟨k, List.mem_append_left _ hm⟩
    rcases List.mem_append.mp he with he | he
    · exact Or.inl (hev e he)
    · exact Or.inr (hpost e he)

/-- The table after a launch that has succeeded. -/
theorem Launched.jobs {pgid : Int} {ps : List Int} (h : Launched com w₀ pgid ps w) :
    ∃ job, w.jobs = job :: w₀.jobs ∧ job.pids = ps := by
  obtain ⟨n, m, c, -, hctx⟩ := h.ctx
  refine ⟨_, by rw [World.jobs, hctx], ?_⟩
  simp [Job.pids, Function.comp_def, Process.new]

end Succeeding

end MiniShell
