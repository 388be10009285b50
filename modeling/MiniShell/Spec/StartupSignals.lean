import MiniShell.Spec.Gate

/-!
# Signals during start-up

A child begins with the dispositions of the shell, which handles or ignores the signals of the terminal.  From the
moment it has blocked them no such signal is lost: it stays pending until `signal_reset_child` has set its default
action and empties the mask, and is taken then.  One that comes before is lost.
-/

namespace MiniShell

open MiniShell.Lib

/-! ### What should become of a signal -/

/-- The signal has been generated after the child had blocked the signals of the terminal. -/
def Raised (sig : Sig) (acts : List ChildAct) : Prop :=
  ∃ pre post, acts = pre ++ .signal sig :: post ∧ .blockStartupSignals ∈ pre

/-- So it has, and no `SIGCONT` has taken it away since. -/
def RaisedForGood (sig : Sig) (acts : List ChildAct) : Prop :=
  ∃ pre post, acts = pre ++ .signal sig :: post ∧ .blockStartupSignals ∈ pre ∧
    (sig ∈ stopSignals → .signal SIGCONT ∉ post)

section Raised

variable {sig : Sig} {acts : List ChildAct} {a : ChildAct}

theorem Raised.snoc (h : Raised sig acts) (a : ChildAct) : Raised sig (acts ++ [a]) := by
  obtain ⟨pre, post, rfl, hb⟩ := h
  exact ⟨pre, post ++ [a], by simp, hb⟩

theorem Raised.last (h : .blockStartupSignals ∈ acts) : Raised sig (acts ++ [ChildAct.signal sig]) :=
  ⟨acts, [], by simp, h⟩

/-- The signal was there before the last step, which has not taken it away, or it is the last step. -/
theorem RaisedForGood.of_snoc (h : RaisedForGood sig (acts ++ [a])) :
    (RaisedForGood sig acts ∧ (sig ∈ stopSignals → a ≠ .signal SIGCONT)) ∨
      a = .signal sig ∧ .blockStartupSignals ∈ acts := by
  obtain ⟨pre, post, he, hb, hc⟩ := h
  rcases List.eq_nil_or_concat post with rfl | ⟨post', x, rfl⟩
  · obtain ⟨rfl, ha⟩ := List.append_inj' he rfl
    exact Or.inr ⟨by simpa using ha, hb⟩
  · rw [List.concat_eq_append] at he hc
    obtain ⟨rfl, ha⟩ := List.append_inj'
      (show acts ++ [a] = (pre ++ ChildAct.signal sig :: post') ++ [x] by simpa using he) rfl
    obtain rfl : a = x := by simpa using ha
    refine Or.inl ⟨⟨pre, post', rfl, hb, fun hs hm => hc hs (List.mem_append_left _ hm)⟩,
      fun hs ha => hc hs ?_⟩
    simp [ha]

end Raised

/-! ### The signals of a child -/

/-- The dispositions after `SIG_DFL` has been set for some signals. -/
def setDefaults (sigs : List Sig) (action : Sig → Disposition) : Sig → Disposition :=
  fun sig => if sig ∈ sigs then .default else action sig

theorem setAction_setDefaults (sig : Sig) (sigs : List Sig) (action : Sig → Disposition) :
    setAction sig .default (setDefaults sigs action) = setDefaults (sigs ++ [sig]) action := by
  funext x
  by_cases h : x = sig <;> simp [setAction, setDefaults, h]

/-- What the signals of a child are at each call, when the child has taken the steps `acts`. -/
def SignalPhase (action : Sig → Disposition) (acts : List ChildAct) (s : SignalState) : ChildPc → Prop
  | .closeGateWrite | .blockStartupSignals =>
    s.blocked = [] ∧ s.pending = [] ∧ s.action = action ∧ .blockStartupSignals ∉ acts
  | .setpgid | .closeEvent | .gateWait | .closeGateRead =>
    s.blocked = startupSignals ∧ s.pending ⊆ startupSignals ∧ s.action = action ∧
      .blockStartupSignals ∈ acts
  | .resetSignals left =>
    ∃ done, done ++ left = resetSignals ∧ s.blocked = startupSignals ∧ s.pending ⊆ startupSignals ∧
      s.action = setDefaults done action ∧ .blockStartupSignals ∈ acts
  | .prepared =>
    s.blocked = [] ∧ s.pending = [] ∧ s.action = setDefaults resetSignals action ∧
      .blockStartupSignals ∈ acts
  | .gone => True

/-- What holds of the signals of a child that has taken the steps `acts`. -/
structure SignalInv (action : Sig → Disposition) (acts : List ChildAct) (c : Starting) : Prop where
  phase : SignalPhase action acts c.signals c.pc
  sound : ∀ sig ∈ startupSignals, sig ∈ c.signals.pending ∨ sig ∈ c.signals.taken → Raised sig acts
  kept : ∀ sig ∈ startupSignals, RaisedForGood sig acts →
    c.pc = .gone ∨ sig ∈ c.signals.pending ∨ sig ∈ c.signals.taken

section Step

variable {action : Sig → Disposition} {acts : List ChildAct} {a : ChildAct} {c c' : Starting} {s : SignalState}
  {pc : ChildPc} {sig : Sig}

theorem startupSignals_subset : startupSignals ⊆ resetSignals := by
  decide

/-- What the child has blocked it has blocked. -/
theorem SignalPhase.blocked (h : SignalPhase action acts s pc) (hpc : pc ≠ .gone) (hs : sig ∈ s.blocked) :
    .blockStartupSignals ∈ acts := by
  cases pc with
  | closeGateWrite | blockStartupSignals =>
    rw [h.1] at hs
    cases hs
  | setpgid | closeEvent | gateWait | closeGateRead => exact h.2.2.2
  | resetSignals left =>
    obtain ⟨done, -, -, -, -, hb⟩ := h
    exact hb
  | prepared => exact h.2.2.2
  | gone => exact absurd rfl hpc

/-- A signal of the terminal that is not blocked has its default action after the prologue only. -/
theorem SignalPhase.unblocked (h : SignalPhase action acts s pc) (hpc : pc ≠ .gone)
    (haction : ∀ sig ∈ startupSignals, action sig ≠ .default) (hsig : sig ∈ startupSignals)
    (hs : sig ∉ s.blocked) :
    s.action sig = .default ↔ .blockStartupSignals ∈ acts := by
  have start : s.action = action ∧ .blockStartupSignals ∉ acts →
      (s.action sig = .default ↔ .blockStartupSignals ∈ acts) := by
    rintro ⟨h₁, h₂⟩
    rw [h₁]
    exact ⟨fun h => absurd h (haction sig hsig), fun h => absurd h h₂⟩
  cases pc with
  | closeGateWrite | blockStartupSignals => exact start ⟨h.2.2.1, h.2.2.2⟩
  | setpgid | closeEvent | gateWait | closeGateRead => exact absurd (h.1.symm ▸ hsig) hs
  | resetSignals left =>
    obtain ⟨done, -, hb, -⟩ := h
    exact absurd (hb.symm ▸ hsig) hs
  | prepared =>
    have hmem : sig ∈ resetSignals := startupSignals_subset hsig
    rw [h.2.2.1]
    exact ⟨fun _ => h.2.2.2, fun _ => if_pos hmem⟩
  | gone => exact absurd rfl hpc

/-- The pending signals are those of the terminal. -/
theorem SignalPhase.pending (h : SignalPhase action acts s pc) (hpc : pc ≠ .gone) : s.pending ⊆ s.blocked := by
  cases pc with
  | closeGateWrite | blockStartupSignals =>
    rw [h.2.1]
    exact List.nil_subset _
  | setpgid | closeEvent | gateWait | closeGateRead =>
    rw [h.1]
    exact h.2.1
  | resetSignals left =>
    obtain ⟨done, -, hb, hp, -⟩ := h
    rw [hb]
    exact hp
  | prepared =>
    rw [h.2.1]
    exact List.nil_subset _
  | gone => exact absurd rfl hpc

/-- A signal that is generated changes the pending signals, and the phase goes on. -/
theorem SignalPhase.signal (h : SignalPhase action acts s pc) (hpc : pc ≠ .gone) {pending taken : List Sig}
    (hp : pending ⊆ s.blocked) : SignalPhase action (acts ++ [ChildAct.signal sig])
      { s with pending := pending, taken := taken } pc := by
  have hmem : .blockStartupSignals ∈ acts ++ [ChildAct.signal sig] ↔ .blockStartupSignals ∈ acts := by simp
  cases pc with
  | closeGateWrite | blockStartupSignals =>
    rw [h.1] at hp
    exact ⟨h.1, List.subset_nil.mp hp, h.2.2.1, fun hm => h.2.2.2 (hmem.mp hm)⟩
  | setpgid | closeEvent | gateWait | closeGateRead =>
    rw [h.1] at hp
    exact ⟨h.1, hp, h.2.2.1, hmem.mpr h.2.2.2⟩
  | resetSignals left =>
    obtain ⟨done, hd, hb, -, ha, hm⟩ := h
    rw [hb] at hp
    exact ⟨done, hd, hb, hp, ha, hmem.mpr hm⟩
  | prepared =>
    rw [h.1] at hp
    exact ⟨h.1, List.subset_nil.mp hp, h.2.2.1, hmem.mpr h.2.2.2⟩
  | gone => exact absurd rfl hpc

/-- **A signal is generated for the child.** -/
theorem SignalInv.generate (h : SignalInv action acts c) (hpc : c.pc ≠ .gone)
    (haction : ∀ sig ∈ startupSignals, action sig ≠ .default) (sig : Sig) :
    SignalInv action (acts ++ [ChildAct.signal sig]) (c.generate sig) := by
  unfold Starting.generate
  dsimp only
  generalize hpending : (if sig = SIGCONT then c.signals.pending.filter (· ∉ stopSignals)
    else c.signals.pending) = pending
  have hsub : pending ⊆ c.signals.pending := by
    rw [← hpending]
    split
    · exact List.filter_sublist.subset
    · exact List.Subset.refl _
  have hsubb := List.Subset.trans hsub (h.phase.pending hpc)
  -- what was pending stays so, unless `SIGCONT` takes it away
  have hold : ∀ x ∈ startupSignals, RaisedForGood x acts →
    (x ∈ stopSignals → ChildAct.signal sig ≠ .signal SIGCONT) →
      x ∈ pending ∨ x ∈ c.signals.taken := by
    intro x hx hr hc
    rcases h.kept x hx hr with hg | hp | ht
    · exact absurd hg hpc
    · refine Or.inl ?_
      rw [← hpending]
      split
      · rename_i hcont
        refine List.mem_filter.mpr ⟨hp, ?_⟩
        rw [decide_eq_true_eq]
        exact fun hs => hc hs (by rw [hcont])
      · exact hp
    · exact Or.inr ht
  split
  · -- it is blocked, and stays pending
    rename_i hb
    have hmem := h.phase.blocked hpc hb
    refine ⟨h.phase.signal hpc (List.append_subset.mpr ⟨hsubb, by simpa using hb⟩), fun x hx hin => ?_,
      fun x hx hr => ?_⟩
    · rcases hin with hin | hin
      · rcases List.mem_append.mp hin with hin | hin
        · exact (h.sound x hx (Or.inl (hsub hin))).snoc _
        · rw [List.mem_singleton.mp hin]
          exact .last hmem
      · exact (h.sound x hx (Or.inr hin)).snoc _
    · rcases hr.of_snoc with ⟨hr, hc⟩ | ⟨heq, -⟩
      · rcases hold x hx hr hc with hp | ht
        · exact Or.inr (Or.inl (List.mem_append_left _ hp))
        · exact Or.inr (Or.inr ht)
      · cases heq
        exact Or.inr (Or.inl (by simp))
  · rename_i hb
    have hunblocked : ∀ x ∈ startupSignals, x = sig →
        (c.signals.action sig = .default ↔ .blockStartupSignals ∈ acts) := by
      rintro x hx rfl
      exact h.phase.unblocked hpc haction hx hb
    unfold Starting.deliver
    dsimp only
    split
    · -- the default action is taken
      rename_i hdef
      refine ⟨?_, fun x hx hin => ?_, fun x hx hr => ?_⟩
      · dsimp only
        split
        · trivial
        · exact h.phase.signal hpc hsubb
      · rcases hin with hin | hin
        · exact (h.sound x hx (Or.inl (hsub hin))).snoc _
        · rcases List.mem_append.mp hin with hin | hin
          · exact (h.sound x hx (Or.inr hin)).snoc _
          · obtain rfl := List.mem_singleton.mp hin
            exact .last ((hunblocked _ hx rfl).mp hdef)
      · rcases hr.of_snoc with ⟨hr, hc⟩ | ⟨heq, -⟩
        · rcases hold x hx hr hc with hp | ht
          · exact Or.inr (Or.inl hp)
          · exact Or.inr (Or.inr (List.mem_append_left _ ht))
        · cases heq
          exact Or.inr (Or.inr (by simp))
    · -- it is ignored, or handled by the shell's handler
      rename_i hdef
      refine ⟨h.phase.signal hpc hsubb, fun x hx hin => ?_, fun x hx hr => ?_⟩
      · rcases hin with hin | hin
        · exact (h.sound x hx (Or.inl (hsub hin))).snoc _
        · exact (h.sound x hx (Or.inr hin)).snoc _
      · rcases hr.of_snoc with ⟨hr, hc⟩ | ⟨heq, hm⟩
        · exact Or.inr (hold x hx hr hc)
        · cases heq
          exact absurd ((hunblocked _ hx rfl).mpr hm) hdef

theorem deliverAll_signals (sigs : List Sig) (c : Starting)
    (hdef : ∀ sig ∈ sigs, c.signals.action sig = .default) :
    (sigs.foldl Starting.deliver c).signals = { c.signals with taken := c.signals.taken ++ sigs } := by
  induction sigs generalizing c with
  | nil => simp
  | cons sig sigs ih =>
    have hone : (c.deliver sig).signals = { c.signals with taken := c.signals.taken ++ [sig] } := by
      unfold Starting.deliver
      rw [hdef sig (by simp)]
    rw [List.foldl_cons, ih _ fun x hx => by rw [hone]; exact hdef x (by simp [hx]), hone]
    simp

/-- The mask is emptied: what was pending is taken. -/
theorem SignalInv.unblock (h : SignalInv action acts c) (hpc : c.pc = .resetSignals []) :
    SignalInv action (acts ++ [ChildAct.unblock]) c.unblock := by
  have hphase := h.phase
  rw [hpc] at hphase
  obtain ⟨done, hdone, -, hp, ha, hb⟩ := hphase
  rw [List.append_nil] at hdone
  rw [hdone] at ha
  have hdef : ∀ sig ∈ c.signals.pending, c.signals.action sig = .default := by
    intro sig hm
    have hr : sig ∈ resetSignals := startupSignals_subset (hp hm)
    rw [ha]
    exact if_pos hr
  have hsig : c.unblock.signals =
      { c.signals with blocked := [], pending := [], taken := c.signals.taken ++ c.signals.pending } :=
    deliverAll_signals c.signals.pending _ hdef
  have hstop := (signalled_deliverAll c.signals.pending
    { c with pc := .prepared, signals := { c.signals with blocked := [], pending := [] } }).pc
  refine ⟨?_, fun x hx hin => ?_, fun x hx hr => ?_⟩
  · rw [hsig]
    rcases hstop with h' | h'
    · rw [Starting.unblock, h']
      exact ⟨rfl, rfl, ha, List.mem_append_left _ hb⟩
    · rw [Starting.unblock, h']
      trivial
  · rw [hsig] at hin
    refine (h.sound x hx ?_).snoc _
    rcases hin with hin | hin
    · cases hin
    · exact (List.mem_append.mp hin).symm
  · rw [hsig]
    refine Or.inr (Or.inr ?_)
    rcases hr.of_snoc with ⟨hr, -⟩ | ⟨heq, -⟩
    · rcases h.kept x hx hr with hg | h' | h'
      · rw [hpc] at hg
        cases hg
      · exact List.mem_append_right _ h'
      · exact List.mem_append_left _ h'
    · cases heq

/-- A step that leaves what is pending and what has been taken alone. -/
theorem SignalInv.quiet (h : SignalInv action acts c) (hpc : c.pc ≠ .gone) (ha : ∀ sig, a ≠ .signal sig)
    (hp : c'.signals.pending = c.signals.pending) (ht : c'.signals.taken = c.signals.taken)
    (hphase : SignalPhase action (acts ++ [a]) c'.signals c'.pc) : SignalInv action (acts ++ [a]) c' where
  phase := hphase
  sound sig hs hin := by
    rw [hp, ht] at hin
    exact (h.sound sig hs hin).snoc _
  kept sig hs hr := by
    rw [hp, ht]
    rcases hr.of_snoc with ⟨hr, -⟩ | ⟨heq, -⟩
    · exact Or.inr ((h.kept sig hs hr).resolve_left hpc)
    · exact absurd heq (ha sig)

section Cases

variable {eventPipe : Int × Int} (h : SignalInv action acts c)
include h

/-- Nothing is pending yet. -/
theorem SignalInv.blockStartupSignals (hs : childStep eventPipe c .blockStartupSignals = some c') :
    SignalInv action (acts ++ [.blockStartupSignals]) c' := by
  have hgone := present_of_step hs
  have hphase := h.phase
  simp only [childStep] at hs
  split at hs
  · rename_i hpc
    cases hs
    rw [hpc] at hphase
    refine h.quiet hgone (by simp) rfl rfl ⟨?_, ?_, hphase.2.2.1, by simp⟩
    · show startupSignals ++ c.signals.blocked = startupSignals
      rw [hphase.1, List.append_nil]
    · show c.signals.pending ⊆ startupSignals
      rw [hphase.2.1]
      exact List.nil_subset _
  · cases hs

theorem SignalInv.setpgid {r : Res} (hs : childStep eventPipe c (.setpgid r) = some c') :
    SignalInv action (acts ++ [(.setpgid r)]) c' := by
  have hgone := present_of_step hs
  have hphase := h.phase
  simp only [childStep] at hs
  split at hs
  · rename_i hpc
    cases hs
    rw [hpc] at hphase
    exact h.quiet hgone (by simp) rfl rfl ⟨hphase.1, hphase.2.1, hphase.2.2.1,
      List.mem_append_left _ hphase.2.2.2⟩
  · rename_i hpc
    cases hs
    refine h.quiet hgone (by simp) rfl rfl ?_
    rw [hpc] at hphase ⊢
    exact ⟨hphase.1, hphase.2.1, hphase.2.2.1, List.mem_append_left _ hphase.2.2.2⟩
  · cases hs
    exact h.quiet hgone (by simp) rfl rfl trivial
  · cases hs

theorem SignalInv.read {r : ReadRes} (hs : childStep eventPipe c (.read r) = some c') :
    SignalInv action (acts ++ [(.read r)]) c' := by
  have hgone := present_of_step hs
  have hphase := h.phase
  simp only [childStep] at hs
  split at hs
  · rename_i hpc
    cases hs
    rw [hpc] at hphase
    refine h.quiet hgone (by simp) rfl rfl ?_
    dsimp only
    split
    · exact ⟨hphase.1, hphase.2.1, hphase.2.2.1, List.mem_append_left _ hphase.2.2.2⟩
    · trivial
  · cases hs
    exact h.quiet hgone (by simp) rfl rfl trivial
  · rename_i hpc
    cases hs
    refine h.quiet hgone (by simp) rfl rfl ?_
    rw [hpc] at hphase ⊢
    exact ⟨hphase.1, hphase.2.1, hphase.2.2.1, List.mem_append_left _ hphase.2.2.2⟩
  · cases hs
    exact h.quiet hgone (by simp) rfl rfl trivial
  · cases hs

/-- The first of the signals is about to be set to the default. -/
theorem SignalInv.closeGateRead (hs : childStep eventPipe c .closeGateRead = some c') :
    SignalInv action (acts ++ [.closeGateRead]) c' := by
  have hgone := present_of_step hs
  have hphase := h.phase
  simp only [childStep] at hs
  split at hs
  · rename_i hpc
    cases hs
    rw [hpc] at hphase
    refine h.quiet hgone (by simp) rfl rfl
      ⟨[], rfl, hphase.1, hphase.2.1, ?_, List.mem_append_left _ hphase.2.2.2⟩
    show c.signals.action = setDefaults [] action
    rw [hphase.2.2.1]
    funext sig
    simp [setDefaults]
  · cases hs

theorem SignalInv.resetSignal (hs : childStep eventPipe c .resetSignal = some c') :
    SignalInv action (acts ++ [.resetSignal]) c' := by
  have hgone := present_of_step hs
  have hphase := h.phase
  simp only [childStep] at hs
  split at hs
  · rename_i sig left hpc
    cases hs
    rw [hpc] at hphase
    obtain ⟨done, hd, hb, hp, ha, hm⟩ := hphase
    refine h.quiet hgone (by simp) rfl rfl
      ⟨done ++ [sig], by simpa using hd, hb, hp, ?_, List.mem_append_left _ hm⟩
    show setAction sig .default c.signals.action = _
    rw [ha, setAction_setDefaults]
  · cases hs

end Cases

/-- **The invariant of the signals is kept by every step of the child.** -/
theorem SignalInv.step {eventPipe : Int × Int} (h : SignalInv action acts c)
    (haction : ∀ sig ∈ startupSignals, action sig ≠ .default) (hs : childStep eventPipe c a = some c') :
    SignalInv action (acts ++ [a]) c' := by
  have hgone := present_of_step hs
  have hphase := h.phase
  cases a with
  | blockStartupSignals => exact h.blockStartupSignals hs
  | setpgid r => exact h.setpgid hs
  | read r => exact h.read hs
  | closeGateRead => exact h.closeGateRead hs
  | resetSignal => exact h.resetSignal hs
  | signal sig =>
    simp only [childStep] at hs
    cases hs
    exact h.generate hgone haction sig
  | unblock =>
    simp only [childStep] at hs
    split at hs
    · rename_i hpc
      cases hs
      exact h.unblock hpc
    · cases hs
  | closeGateWrite =>
    simp only [childStep] at hs
    split at hs
    · rename_i hpc
      cases hs
      rw [hpc] at hphase
      exact h.quiet hgone (by simp) rfl rfl ⟨hphase.1, hphase.2.1, hphase.2.2.1, by simpa using hphase.2.2.2⟩
    · cases hs
  | closeEvent =>
    simp only [childStep] at hs
    split at hs
    · rename_i hpc
      cases hs
      rw [hpc] at hphase
      exact h.quiet hgone (by simp) rfl rfl
        ⟨hphase.1, hphase.2.1, hphase.2.2.1, List.mem_append_left _ hphase.2.2.2⟩
    · cases hs

end Step

/-! ### The children of a launch -/

/-- The steps of the child at place `i`, with the signals it gets. -/
def actsOf (i : ℕ) (tr : List StartupAct) : List ChildAct :=
  tr.filterMap fun x => match x with
    | .child j a => if j = i then some a else none
    | _ => none

@[simp] theorem actsOf_append (i : ℕ) (tr tr' : List StartupAct) :
    actsOf i (tr ++ tr') = actsOf i tr ++ actsOf i tr' :=
  List.filterMap_append

/-- The signals of the children, and the places without a child. -/
structure SignalsInv (plan : LaunchPlan) (tr : List StartupAct) (s : Startup) : Prop where
  child : ∀ i c, s.children[i]? = some c → SignalInv plan.action (actsOf i tr) c
  empty : ∀ i, s.children.length ≤ i → actsOf i tr = []

section Run

variable {plan : LaunchPlan} {tr : List StartupAct} {s s' : Startup}

theorem SignalInv.moved {action : Sig → Disposition} {acts : List ChildAct} {c : Starting}
    (h : SignalInv action acts c) (pid pgid : Int) : SignalInv action acts (c.moved pid pgid) := by
  unfold Starting.moved
  split
  · exact ⟨h.phase, h.sound, h.kept⟩
  · exact h

theorem signalInv_forked (pids : List Int) (pid pgid : Int) (fds : FdTable Fd) :
    SignalInv plan.action [] (plan.forked pids pid pgid fds) where
  phase := ⟨rfl, rfl, rfl, by simp⟩
  sound sig _ hin := by rcases hin with hin | hin <;> cases hin
  kept sig _ hr := by
    obtain ⟨pre, post, he, -⟩ := hr
    simp at he

theorem SignalsInv.parent (h : SignalsInv plan tr s) {e : Event} {left : List Event} :
    SignalsInv plan (tr ++ [StartupAct.parent]) (plan.call { s with left := left } e) := by
  have hacts : ∀ i, actsOf i (tr ++ [StartupAct.parent]) = actsOf i tr := by
    intro i
    rw [actsOf_append]
    exact List.append_nil _
  rcases call_cases plan { s with left := left } e with ⟨pid, k, js, rfl, hpid, hc⟩ |
    ⟨pid, pgid, k, js, rfl, hc⟩ |
    ⟨fd, k, js, rfl, hc⟩ | ⟨hc, hf, hg⟩
  · rw [hc]
    constructor
    · intro i c hi
      rw [hacts]
      rw [List.getElem?_append] at hi
      split at hi
      · exact h.child i c hi
      · rename_i hle
        rw [h.empty i (Nat.le_of_not_lt hle)]
        rw [List.getElem?_singleton] at hi
        split at hi
        · cases hi
          exact signalInv_forked ..
        · cases hi
    · intro i hi
      rw [List.length_append] at hi
      rw [hacts, h.empty i (Nat.le_of_add_right_le hi)]
  · rw [hc]
    constructor
    · intro i c hi
      rw [List.getElem?_map] at hi
      obtain ⟨c₀, hc₀, rfl⟩ := Option.map_eq_some_iff.mp hi
      rw [hacts]
      exact (h.child i c₀ hc₀).moved pid pgid
    · intro i hi
      rw [List.length_map] at hi
      rw [hacts, h.empty i hi]
  · rw [hc]
    exact ⟨fun i c hi => (hacts i).symm ▸ h.child i c hi, fun i hi => (hacts i).trans (h.empty i hi)⟩
  · rw [hc]
    exact ⟨fun i c hi => (hacts i).symm ▸ h.child i c hi, fun i hi => (hacts i).trans (h.empty i hi)⟩

end Run

/-- An interrupt comes too early for the child, and a stop in time. -/
def interrupted : List StartupAct :=
  List.replicate 9 .parent ++ [.child 0 .closeGateWrite, .child 0 (.signal SIGINT), .child 0 .blockStartupSignals,
    .child 0 (.signal SIGTSTP), .child 0 (.setpgid .ok), .parent, .child 0 .closeEvent,
      .child 0 (.read (.byte gateByte)),
    .child 0 .closeGateRead] ++ List.replicate 7 (.child 0 .resetSignal) ++ [.child 0 .unblock]

end MiniShell
