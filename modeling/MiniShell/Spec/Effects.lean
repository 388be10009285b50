import MiniShell.Model.Executor

/-!
# What the system calls leave alone

Most calls of the shell change nothing that the accounting of children and descriptors depends on.
`Quiet P w w'` says that between `w` and `w'` only such calls were made, all of them satisfying `P`;
`wp_syscall_quiet` and `wp_retry_quiet` are their rules.  `Event.Sound` is what must hold of every
`close` and every `kill` of a single process: the descriptor is open, the process is a child that has
not been collected.
-/

namespace MiniShell

open MiniShell.Lib

/-! ### Reading a log -/

/-- The system calls of a log. -/
def calls (l : List Event) : List Call :=
  l.filterMap fun e => match e with
    | .env _ => none
    | .call c _ _ => some c

/-- The pids of the children forked in a log. -/
def forks (l : List Event) : List Int :=
  (calls l).filterMap fun c => match c with
    | .fork pid => if 0 < pid then some pid else none
    | _ => none

/-- The answers that foreground waits have got in a log. -/
def answers (l : List Event) : List WaitRes :=
  (calls l).filterMap fun c => match c with
    | .waited _ opts r => if opts = WUNTRACED then some r else none
    | _ => none

/-- The number of bytes written to the gate. -/
def gateBytes (cs : List Call) : ℕ :=
  cs.countP fun c => match c with
    | .writeGate _ .ok => true
    | _ => false

@[simp] theorem calls_nil : calls [] = [] := rfl
@[simp] theorem calls_append (l l' : List Event) : calls (l ++ l') = calls l ++ calls l' :=
  List.filterMap_append
@[simp] theorem calls_cons_call (c : Call) (k : Kernel) (js : List Job) (l : List Event) :
    calls (.call c k js :: l) = c :: calls l := rfl
@[simp] theorem calls_envs (es : List Env) : calls (es.map Event.env) = [] := by
  induction es with
  | nil => rfl
  | cons e es ih => exact ih
@[simp] theorem forks_nil : forks [] = [] := rfl
@[simp] theorem forks_append (l l' : List Event) : forks (l ++ l') = forks l ++ forks l' := by
  unfold forks
  rw [calls_append, List.filterMap_append]
@[simp] theorem forks_envs (es : List Env) : forks (es.map Event.env) = [] := by
  unfold forks
  rw [calls_envs]
  rfl

theorem mem_forks {l : List Event} {p : Int} : p ∈ forks l ↔ 0 < p ∧ .fork p ∈ calls l := by
  simp only [forks, List.mem_filterMap]
  constructor
  · rintro ⟨c, hc, h⟩
    split at h
    · split at h
      · cases h
        exact ⟨by assumption, hc⟩
      · cases h
    · cases h
  · rintro ⟨hp, hc⟩
    exact ⟨_, hc, by simp [hp]⟩

theorem mem_calls {l : List Event} {c : Call} : c ∈ calls l ↔ ∃ k js, .call c k js ∈ l := by
  simp only [calls, List.mem_filterMap]
  constructor
  · rintro ⟨e, he, h⟩
    cases e with
    | env e => cases h
    | call c' k js => cases h; exact ⟨k, js, he⟩
  · rintro ⟨k, js, h⟩
    exact ⟨_, h, rfl⟩

/-- A `close` closes an open descriptor, and a signal to one process goes to an uncollected child. -/
def Event.Sound : Event → Prop
  | .call (.close fd) k _ => k.fds.IsOpen fd
  | .call (.kill target _ _) k _ => 0 < target → target ∈ k.pids
  | _ => True

/-- An event outside the shell, or a call that satisfies `P`. -/
def Event.Of (P : Call → Prop) : Event → Prop
  | .env _ => True
  | .call c _ _ => P c

/-- The table held the jobs `js` at a call. -/
def Event.At (js : List Job) : Event → Prop
  | .env _ => True
  | .call _ _ js' => js' = js

/-- The calls other than `fork`, `kill`, `close`, the writes to the gate and the foreground waits. -/
def Call.Neutral : Call → Prop
  | .fork .. | .kill .. | .close .. | .writeGate .. => False
  | .waited _ opts _ => opts ≠ WUNTRACED
  | _ => True

/-- The writes to the gate. -/
def Call.OfGate : Call → Prop
  | .writeGate .. => True
  | _ => False

theorem gateBytes_eq_zero {cs : List Call} (h : ∀ c ∈ cs, ¬ c.OfGate) : gateBytes cs = 0 := by
  apply List.countP_eq_zero.mpr
  intro c hc hb
  cases c with
  | writeGate fd r => exact h _ hc trivial
  | _ => cases hb

theorem Event.Of.mono {P P' : Call → Prop} (h : ∀ c, P c → P' c) {e : Event} (he : e.Of P) : e.Of P' := by
  cases e with
  | env e => trivial
  | call c k js => exact h c he

theorem sound_of_neutral {e : Event} (h : e.Of Call.Neutral) : e.Sound := by
  cases e with
  | env e => trivial
  | call c k js => cases c <;> first | exact absurd h id | trivial

theorem calls_of {P : Call → Prop} {l : List Event} (h : ∀ e ∈ l, e.Of P) : ∀ c ∈ calls l, P c := by
  intro c hc
  obtain ⟨k, js, hm⟩ := mem_calls.mp hc
  exact h _ hm

/-- Without a call of `fork` there are no new children. -/
theorem forks_of {P : Call → Prop} (hP : ∀ pid, ¬ P (.fork pid)) {l : List Event}
    (h : ∀ e ∈ l, e.Of P) : forks l = [] := by
  unfold forks
  apply List.filterMap_eq_nil_iff.mpr
  intro c hc
  have hn := calls_of h c hc
  cases c <;> first | rfl | exact absurd hn (hP _)

@[simp] theorem answers_append (l l' : List Event) : answers (l ++ l') = answers l ++ answers l' := by
  simp [answers]

/-- Without a foreground wait there are no answers to one. -/
theorem answers_eq_nil {l : List Event}
    (h : ∀ target r k js, .call (.waited target WUNTRACED r) k js ∉ l) : answers l = [] := by
  unfold answers
  apply List.filterMap_eq_nil_iff.mpr
  intro c hc
  obtain ⟨k, js, hm⟩ := mem_calls.mp hc
  cases c with
  | waited target opts r =>
    dsimp only
    split
    · rename_i ho
      exact absurd (ho ▸ hm) (h target r k js)
    · rfl
  | _ => rfl

/-! ### Pieces of a run -/

/-- What comes before an element that is not in `a`. -/
theorem split_after {α : Type} {a s front rest : List α} {x : α} (hx : x ∉ a)
    (h : a ++ s = front ++ x :: rest) :
    ∃ front', front = a ++ front' ∧ s = front' ++ x :: rest := by
  rcases List.append_eq_append_iff.mp h with ⟨front', hf, hs⟩ | ⟨a', ha, hs⟩
  · exact ⟨front', hf, hs⟩
  · cases a' with
    | nil => exact ⟨[], by simpa using ha.symm, by simpa using hs.symm⟩
    | cons y a' =>
      obtain ⟨rfl, -⟩ := List.cons.inj hs
      exact absurd (by simp [ha]) hx

/-- The log of `w'` continues that of `w` with events that satisfy `P`. -/
def LogExt (P : Event → Prop) (w w' : World) : Prop := ∃ seg, w'.log = w.log ++ seg ∧ ∀ e ∈ seg, P e

theorem LogExt.refl {P : Event → Prop} (w : World) : LogExt P w w := ⟨[], by simp, by simp⟩

theorem LogExt.trans {P : Event → Prop} {w₁ w₂ w₃ : World} (h : LogExt P w₁ w₂)
    (h' : LogExt P w₂ w₃) : LogExt P w₁ w₃ := by
  obtain ⟨s, hs, hP⟩ := h
  obtain ⟨s', hs', hP'⟩ := h'
  refine ⟨s ++ s', by rw [hs', hs, List.append_assoc], fun e he => ?_⟩
  rcases List.mem_append.mp he with he | he
  · exact hP e he
  · exact hP' e he

theorem LogExt.mono {P P' : Event → Prop} {w w' : World} (h : LogExt P w w') (hPP' : ∀ e, P e → P' e) :
    LogExt P' w w' := by
  obtain ⟨s, hs, hP⟩ := h
  exact ⟨s, hs, fun e he => hPP' e (hP e he)⟩

/-- What has been logged between `w` and `w'` satisfies `K`. -/
def LogOf (K : List Event → Prop) (w w' : World) : Prop := ∃ seg, w'.log = w.log ++ seg ∧ K seg

theorem LogOf.mono {K K' : List Event → Prop} {w w' : World} (h : LogOf K w w') (hK : ∀ seg, K seg → K' seg) :
    LogOf K' w w' := by
  obtain ⟨seg, hseg, hk⟩ := h
  exact ⟨seg, hseg, hK seg hk⟩

/-- What the run of `m` from `w` logs, however it ends. -/
def logOf {α : Type} (m : Sh α) (w : World) : List Event := (m w).state.log.drop w.log.length

/-- **From the rules of a program to its log.** -/
theorem logOf_of_wp {α : Type} {m : Sh α} {K : List Event → Prop} {w : World}
    (h : Prog.wp m (fun _ w' => LogOf K w w') (LogOf K w) w) : K (logOf m w) := by
  obtain ⟨seg, hseg, hk⟩ := Prog.wp_state h
  unfold logOf
  rwa [hseg, List.drop_left]

/-- The calls made between `w` and `w'` are `cs`. -/
def Issued (cs : List Call) (w w' : World) : Prop := ∃ seg, w'.log = w.log ++ seg ∧ calls seg = cs

theorem Issued.refl (w : World) : Issued [] w w := ⟨[], by simp, rfl⟩

theorem Issued.trans {cs cs' : List Call} {w₁ w₂ w₃ : World} (h : Issued cs w₁ w₂)
    (h' : Issued cs' w₂ w₃) : Issued (cs ++ cs') w₁ w₃ := by
  obtain ⟨s, hs, rfl⟩ := h
  obtain ⟨s', hs', rfl⟩ := h'
  exact ⟨s ++ s', by rw [hs', hs, List.append_assoc], calls_append ..⟩

/-- What is said of the calls between two worlds is said of one and the same piece of the log. -/
theorem Issued.calls_eq {cs : List Call} {w w' : World} {seg : List Event} (h : Issued cs w w')
    (hseg : w'.log = w.log ++ seg) : calls seg = cs := by
  obtain ⟨s, hs, rfl⟩ := h
  rw [List.append_cancel_left (hs.symm.trans hseg)]

/-- Between `w` and `w'` there are only events outside and calls that satisfy `P`, and these have changed
neither the variables of the shell nor which children and descriptors there are. -/
structure Quiet (P : Call → Prop) (w w' : World) : Prop where
  ctx : w'.ctx = w.ctx
  term : w'.term = w.term
  pids : w'.kernel.pids = w.kernel.pids
  fds : w'.kernel.fds = w.kernel.fds
  log : ∃ seg, w'.log = w.log ++ seg ∧ (∀ e ∈ seg, e.Of P) ∧ ∀ e ∈ seg, e.At w.jobs

section Quiet

variable {P : Call → Prop}

theorem Quiet.refl (w : World) : Quiet P w w := ⟨rfl, rfl, rfl, rfl, [], by simp, by simp, by simp⟩

theorem Quiet.trans {w₁ w₂ w₃ : World} (h : Quiet P w₁ w₂) (h' : Quiet P w₂ w₃) :
    Quiet P w₁ w₃ where
  ctx := h'.ctx.trans h.ctx
  term := h'.term.trans h.term
  pids := h'.pids.trans h.pids
  fds := h'.fds.trans h.fds
  log := by
    obtain ⟨s, hs, hP, ha⟩ := h.log
    obtain ⟨s', hs', hP', ha'⟩ := h'.log
    have hj : w₂.jobs = w₁.jobs := by simp [World.jobs, h.ctx]
    refine ⟨s ++ s', by rw [hs', hs, List.append_assoc], fun e he => ?_, fun e he => ?_⟩
    · rcases List.mem_append.mp he with he | he
      · exact hP e he
      · exact hP' e he
    · rcases List.mem_append.mp he with he | he
      · exact ha e he
      · exact hj ▸ ha' e he

theorem drift_log (used rest : List Item) (w : World) :
    (w.drift used rest).log = w.log ++ (envs used).map Event.env := rfl

theorem quiet_drift (used rest : List Item) (w : World) : Quiet P w (w.drift used rest) where
  ctx := rfl
  term := rfl
  pids := World.drift_pids ..
  fds := World.drift_fds ..
  log := by
    refine ⟨_, rfl, fun e he => ?_, fun e he => ?_⟩
    all_goals
      obtain ⟨x, -, rfl⟩ := List.mem_map.mp he
      trivial

theorem quiet_record {c : Call} (hc : P c) (w : World) : Quiet P w (w.record c) where
  ctx := rfl
  term := rfl
  pids := rfl
  fds := rfl
  log := ⟨[_], rfl, fun e he => by rw [List.mem_singleton.mp he]; exact hc,
    fun e he => by rw [List.mem_singleton.mp he]; rfl⟩

theorem issued_drift (used rest : List Item) (w : World) : Issued [] w (w.drift used rest) :=
  ⟨_, rfl, calls_envs _⟩

theorem issued_record (c : Call) (w : World) : Issued [c] w (w.record c) := ⟨[_], rfl, rfl⟩

/-- A system call that changes no children and no descriptors, recorded as a call that satisfies `P`. -/
structure QuietCall {ρ : Type} (P : Call → Prop) (f : Choice → Kernel → ρ × Kernel) (call : ρ → Call) :
    Prop where
  pids : ∀ c k, (f c k).2.pids = k.pids
  fds : ∀ c k, (f c k).2.fds = k.fds
  sort : ∀ r, P (call r)

variable {ρ : Type} {R : World → Prop} {w : World}

/-- **The rule of a quiet system call.** -/
theorem wp_syscall_quiet {f : Choice → Kernel → ρ × Kernel} {call : ρ → Call}
    (hf : QuietCall P f call) {Q : ρ → World → Prop}
    (h : ∀ c k w', Quiet P w w' → Issued [call (f c k).1] w w' →
      w'.script.length ≤ w.script.length → (c ≠ .ok → w'.script.length < w.script.length) →
      Q (f c k).1 w') :
    Prog.wp (syscall f call) Q R w := by
  apply wp_syscall
  intro used c rest ht
  refine h c _ _ ?_ ?_ ht.length_le ht.length_lt
  · refine (quiet_drift used rest w).trans ⟨rfl, rfl, hf.pids .., hf.fds .., [_], rfl, fun e he => ?_,
      fun e he => ?_⟩
    · rw [List.mem_singleton.mp he]
      exact hf.sort _
    · rw [List.mem_singleton.mp he]
      rfl
  · exact (issued_drift used rest w).trans (issued_record _ _)

/-- A quiet call that returns 0 or an error, where `EINTR` only comes from the script. -/
structure QuietRes (P : Call → Prop) (f : Choice → Kernel → Res × Kernel) (call : Res → Call) :
    Prop extends
    QuietCall P f call where
  eintr : ∀ c k, (f c k).1 = .err .EINTR → c ≠ .ok

/-- **The rule of a quiet call that is repeated while it is interrupted.** -/
theorem wp_retry_quiet {f : Choice → Kernel → Res × Kernel} {call : Res → Call}
    (hf : QuietRes P f call) {Q : Res → World → Prop}
    (h : ∀ r w' n, Quiet P w w' → Issued (List.replicate n (call (.err .EINTR)) ++ [call r]) w w' →
      r ≠ .err .EINTR → Q r w') :
    Prog.wp (retry (syscall f call)) Q R w := by
  refine wp_retry (fun w' => Quiet P w w' ∧ ∃ n, Issued (List.replicate n (call (.err .EINTR))) w w')
    ?_ ⟨Quiet.refl w, 0, Issued.refl w⟩
  rintro w' ⟨hq, n, hi⟩
  refine wp_syscall_quiet hf.toQuietCall fun c k w'' hq' hi' hle hlt => ⟨fun hr => ?_, fun hr => ?_⟩
  · refine ⟨⟨hq.trans hq', n + 1, ?_⟩, hlt (hf.eintr c k hr)⟩
    rw [List.replicate_succ', ← hr]
    rw [hr] at hi'
    simpa [hr] using hi.trans hi'
  · exact h _ _ n (hq.trans hq') (hi.trans hi') hr

theorem plainRes_eintr {c : Choice} (h : plainRes c = .err .EINTR) : c ≠ .ok := by
  rintro rfl
  cases h

theorem quietRes_setpgid (pid pgid : Int) :
    QuietRes Call.Neutral (Kernel.setpgid pid pgid) (Call.setpgid pid pgid) where
  pids c k := by cases c <;> simp [Kernel.setpgid]
  fds c k := by cases c <;> rfl
  sort _ := trivial
  eintr c k h := by rintro rfl; cases h

theorem quietRes_plain {call : Res → Call} (hP : ∀ r, P (call r)) :
    QuietRes P (fun c k => (plainRes c, k)) call where
  pids _ _ := rfl
  fds _ _ := rfl
  sort := hP
  eintr _ _ := plainRes_eintr

theorem quietRes_tcsetpgrp (pgid : Int) :
    QuietRes Call.Neutral (fun c k => match c with
      | .fail e => (.err e, k)
      | _ => (.ok, { k with ttyPgrp := pgid })) (Call.tcsetpgrp pgid) where
  pids c k := by cases c <;> rfl
  fds c k := by cases c <;> rfl
  sort _ := trivial
  eintr c k h := by rintro rfl; cases h

theorem quietRes_tcsetattr (modes : Termios) :
    QuietRes Call.Neutral (fun c k => match c with
      | .fail e => (.err e, k)
      | _ => (.ok, { k with ttyModes := modes })) (Call.tcsetattr modes) where
  pids c k := by cases c <;> rfl
  fds c k := by cases c <;> rfl
  sort _ := trivial
  eintr c k h := by rintro rfl; cases h

end Quiet

/-! ### The quiet functions of the shell -/

section Functions

variable {Q : Int → World → Prop} {R : World → Prop} {w : World}

/-- The answers of `setpgid` after which the child is in its group, or needs no group any more: it has
already gone on to `execvp`, or it has exited. -/
def Res.Accepted : Res → Prop
  | .ok | .err .EACCES | .err .ESRCH => True
  | .err _ => False

/-- When `setpgid_parent` succeeds, `setpgid` has been called and its answer was accepted. -/
theorem wp_setpgidParent {pid pgid : Int}
    (h : ∀ r w', Quiet Call.Neutral w w' →
      (0 ≤ r → ∃ cs r', Issued cs w w' ∧ r'.Accepted ∧ .setpgid pid pgid r' ∈ cs) → Q r w') :
    Prog.wp (setpgidParent pid pgid) Q R w := by
  unfold setpgidParent
  rw [Prog.wp_bind]
  apply wp_retry_quiet (quietRes_setpgid pid pgid)
  intro r w' n hq hi _
  have accepted (hr : r.Accepted) : ∃ cs r', Issued cs w w' ∧ r'.Accepted ∧ .setpgid pid pgid r' ∈ cs :=
    ⟨_, r, hi, hr, by simp⟩
  split
  · exact h _ _ hq fun _ => accepted trivial
  · exact h _ _ hq fun _ => accepted trivial
  · exact h _ _ hq fun _ => accepted trivial
  · exact h _ _ hq (by simp)

/-- `startup_gate_release` writes at most `n` bytes, and `n` of them when it succeeds. -/
theorem wp_startupGateRelease {fd n : ℕ}
    (h : ∀ r w' cs, Quiet Call.OfGate w w' → Issued cs w w' → gateBytes cs ≤ n →
      (0 ≤ r → gateBytes cs = n) → Q r w') :
    Prog.wp (startupGateRelease fd n) Q R w := by
  induction n generalizing w Q with
  | zero => exact h _ _ [] (Quiet.refl w) (Issued.refl w) (by simp [gateBytes]) (by simp [gateBytes])
  | succ n ih =>
    unfold startupGateRelease
    rw [Prog.wp_bind]
    refine wp_retry_quiet (@quietRes_plain Call.OfGate (.writeGate fd) fun _ => trivial)
      ?_
    intro r w' m hq hi _
    cases r with
    | ok =>
      refine ih fun r w'' cs hq' hi' hle heq => h _ _ _ (hq.trans hq') (hi.trans hi') ?_ fun hr => ?_
      · simp only [gateBytes, List.countP_append, List.countP_replicate] at *
        simpa using by omega
      · have := heq hr
        simp only [gateBytes, List.countP_append, List.countP_replicate] at *
        simpa using by omega
    | err e => exact h _ _ _ hq hi (by simp [gateBytes, List.countP_replicate]) (by simp)

theorem wp_malloc {what : Alloc} {Q : Res → World → Prop}
    (h : ∀ r w', Quiet Call.Neutral w w' → Q r w') : Prog.wp (malloc what) Q R w :=
  wp_syscall_quiet (@quietRes_plain Call.Neutral (.malloc what) fun _ => trivial).toQuietCall
    fun _ _ w' hq _ _ _ => h _ w' hq

/-- When the terminal was handed over, `tcsetpgrp` has succeeded. -/
theorem wp_terminalSetPgrp {pgid : Int}
    (h : ∀ r w', Quiet Call.Neutral w w' →
      (0 ≤ r → ∃ cs, Issued cs w w' ∧ .tcsetpgrp pgid .ok ∈ cs) → Q r w') :
    Prog.wp (terminalSetPgrp pgid) Q R w := by
  unfold terminalSetPgrp
  rw [Prog.wp_bind]
  apply wp_retry_quiet (quietRes_tcsetpgrp pgid)
  intro r w' n hq hi _
  cases r with
  | ok => exact h _ _ hq fun _ => ⟨_, hi, by simp⟩
  | err e => exact h _ _ hq (by simp)

theorem wp_terminalSetForeground {pgid : Int}
    (h : ∀ r w', Quiet Call.Neutral w w' →
      (0 ≤ r → w.term.initialized = true → ∃ cs, Issued cs w w' ∧ .tcsetpgrp pgid .ok ∈ cs) →
      Q r w') :
    Prog.wp (terminalSetForeground pgid) Q R w := by
  unfold terminalSetForeground
  rw [Prog.wp_get_bind]
  split
  · rename_i hinit
    exact h _ _ (Quiet.refl w) fun _ hi => absurd hi hinit
  · split
    · exact h _ _ (Quiet.refl w) (by simp)
    · exact wp_terminalSetPgrp fun r w' hq hc => h r w' hq fun hr _ => hc hr

theorem wp_terminalSetModes {modes : Termios} (h : ∀ r w', Quiet Call.Neutral w w' → Q r w') :
    Prog.wp (terminalSetModes modes) Q R w := by
  unfold terminalSetModes
  rw [Prog.wp_get_bind]
  split
  · exact h _ _ (Quiet.refl w)
  · rw [Prog.wp_bind]
    apply wp_retry_quiet (quietRes_tcsetattr modes)
    intro r w' n hq _ _
    split <;> exact h _ _ hq

theorem wp_terminalRestore (h : ∀ r w', Quiet Call.Neutral w w' → Q r w') :
    Prog.wp terminalRestore Q R w := by
  unfold terminalRestore
  rw [Prog.wp_get_bind]
  split
  · exact h _ _ (Quiet.refl w)
  · split
    · exact h _ _ (Quiet.refl w)
    · rw [Prog.wp_bind]
      apply wp_terminalSetPgrp
      intro r w' hq _
      split
      · exact h _ _ hq
      · split
        · rw [Prog.wp_bind]
          apply wp_terminalSetModes
          intro r w'' hq'
          split <;> exact h _ _ (hq.trans hq')
        · exact h _ _ hq

theorem wp_terminalGetModes {modes : Termios} {Q : Int × Termios → World → Prop}
    (h : ∀ r w', Quiet Call.Neutral w w' → Q r w') : Prog.wp (terminalGetModes modes) Q R w := by
  unfold terminalGetModes
  rw [Prog.wp_get_bind]
  split
  · exact h _ _ (Quiet.refl w)
  · refine Prog.wp_loop (fun _ w' => Quiet Call.Neutral w w') ?_ () w (Quiet.refl w)
    intro _ w' hq
    rw [Prog.wp_bind]
    refine @wp_syscall_quiet Call.Neutral _ _ _ _ _ ⟨?_, ?_, ?_⟩ _ fun c k w'' hq' _ hle hlt => ?_
    · rintro (_ | _ | _) k <;> rfl
    · rintro (_ | _ | _) k <;> rfl
    · exact fun _ => trivial
    · cases c with
      | ok => exact h _ _ (hq.trans hq')
      | pick n => exact h _ _ (hq.trans hq')
      | fail e =>
        cases e with
        | EINTR => exact ⟨hq.trans hq', hlt (by simp)⟩
        | _ => exact h _ _ (hq.trans hq')

end Functions

end MiniShell
