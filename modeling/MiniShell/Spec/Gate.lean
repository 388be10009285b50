import MiniShell.Lib.Trace
import MiniShell.Spec.Atomic
import MiniShell.Spec.Run
import MiniShell.Spec.Wires

/-!
# The startup gate

The parent of a launch and its children take their steps in any order, and each may be killed at any point.  `GateInv`
is what holds after every run: every byte written to the gate has been read by a child of its own or is still there, a
child has read one exactly when it is past the gate, and from its second step on a child does not have the write end of
the gate.  `startup_gate` puts it together with what is known of the parent's calls.
-/

namespace MiniShell

open MiniShell.Lib MiniShellError

/-! ### One step of a child -/

/-- The child has not come through `startup_gate_wait`. -/
@[simp] def ChildPc.before : ChildPc → Bool
  | .closeGateWrite | .blockStartupSignals | .setpgid | .closeEvent | .gateWait => true
  | _ => false

/-- The child has come through `startup_gate_wait`. -/
@[simp] def ChildPc.past : ChildPc → Bool
  | .closeGateRead | .resetSignals _ | .prepared => true
  | _ => false

/-- The child has put itself into the group of the job. -/
@[simp] def ChildPc.grouped : ChildPc → Bool
  | .closeEvent | .gateWait | .closeGateRead | .resetSignals _ | .prepared => true
  | _ => false

/-- The group the child puts itself into. -/
def Starting.group (c : Starting) : Int := if c.pgidArg = 0 then c.pid else c.pgidArg

/-- A signal changes nothing but the signals of the child, unless it terminates it. -/
structure Signalled (c c' : Starting) : Prop where
  same : c' = { c with pc := c'.pc, signals := c'.signals }
  pc : c'.pc = c.pc ∨ c'.pc = .gone

/-- What a step of a child can do. -/
structure ChildMove (c : Starting) (a : ChildAct) (c' : Starting) : Prop where
  pid : c'.pid = c.pid
  gateWrite : c'.gateWrite = c.gateWrite
  group : c'.group = c.group
  fds : c'.fds.Sublist c.fds
  before : c'.pc.before = true → c.pc.before = true
  past : c'.pc.past = true → c.pc.past = true ∨ a = .read (.byte gateByte)
  reads : ∀ v, a = .read (.byte v) → c.pc.before = true ∧ c'.pc.before = false
  start : c'.pc = .closeGateWrite → c.pc = .closeGateWrite ∧ c'.fds = c.fds
  closes : c.pc = .closeGateWrite → c'.pc = .closeGateWrite ∨ c'.pc = .gone ∨ c'.fds = c.fds.close c.gateWrite
  grouped : c'.pc.grouped = true → c.pc.grouped = true ∧ c'.pgid = c.pgid ∨ c'.pgid = c.group

section Child

variable {c c' c'' : Starting} {a : ChildAct} {eventPipe : Int × Int}

theorem Signalled.refl (c : Starting) : Signalled c c := ⟨rfl, Or.inl rfl⟩

theorem Signalled.trans (h : Signalled c c') (h' : Signalled c' c'') : Signalled c c'' where
  same := by rw [h'.same, h.same]
  pc := by
    rcases h'.pc with h₁ | h₁
    · rw [h₁]
      exact h.pc
    · exact Or.inr h₁

theorem signalled_deliver (c : Starting) (sig : Sig) : Signalled c (c.deliver sig) := by
  unfold Starting.deliver
  split
  · refine ⟨rfl, ?_⟩
    dsimp only
    split
    · exact Or.inr rfl
    · exact Or.inl rfl
  · exact .refl c

theorem signalled_generate (c : Starting) (sig : Sig) : Signalled c (c.generate sig) := by
  unfold Starting.generate
  dsimp only
  generalize (if sig = SIGCONT then c.signals.pending.filter (· ∉ stopSignals) else c.signals.pending) = pending
  have h : Signalled c { c with signals := { c.signals with pending := pending } } := ⟨rfl, Or.inl rfl⟩
  split
  · exact ⟨rfl, Or.inl rfl⟩
  · exact h.trans (signalled_deliver _ sig)

theorem signalled_deliverAll (sigs : List Sig) (c : Starting) : Signalled c (sigs.foldl Starting.deliver c) := by
  induction sigs generalizing c with
  | nil => exact .refl c
  | cons sig sigs ih => exact (signalled_deliver c sig).trans (ih _)

/-- A step that is not a read and goes from one of the calls to the next, or to the end. -/
theorem Signalled.move (h : Signalled c c') (ha : ∀ r, a ≠ .read r) : ChildMove c a c' := by
  obtain ⟨hs, hpc⟩ := h
  obtain ⟨pid, gr, gw, arg, pc', fds', pgid', sigs'⟩ := c'
  cases c
  simp only [Starting.mk.injEq] at hs
  obtain ⟨rfl, rfl, rfl, rfl, -, rfl, rfl, -⟩ := hs
  refine ⟨rfl, rfl, rfl, List.Sublist.refl _, ?_, ?_, fun v hv => absurd hv (ha _), ?_, ?_, ?_⟩ <;>
    rcases hpc with rfl | rfl <;> simp +contextual

theorem eventShutFds_sublist (eventPipe : Int × Int) (fds : FdTable Fd) :
    (eventShutFds eventPipe fds).Sublist fds := by
  unfold eventShutFds
  dsimp only
  split <;> split <;> first
    | exact List.Sublist.refl _
    | exact List.filter_sublist
    | exact List.filter_sublist.trans List.filter_sublist

/-- A step from one call to another, or to the end, that is not the read of a byte. -/
theorem childMove_of {pc : ChildPc} {fds : FdTable Fd} {pgid : Int} {signals : SignalState}
    (hfds : fds.Sublist c.fds) (ha : ∀ v, a ≠ .read (.byte v)) (hb : pc.before = true → c.pc.before = true)
    (hp : pc.past = true → c.pc.past = true)
    (hs : pc = .closeGateWrite → c.pc = .closeGateWrite ∧ fds = c.fds)
    (hc : c.pc = .closeGateWrite → pc = .closeGateWrite ∨ pc = .gone ∨ fds = c.fds.close c.gateWrite)
    (hg : pc.grouped = true → c.pc.grouped = true ∧ pgid = c.pgid ∨ pgid = c.group) :
    ChildMove c a { c with pc := pc, fds := fds, pgid := pgid, signals := signals } :=
  ⟨rfl, rfl, rfl, hfds, hb, fun h => Or.inl (hp h), fun v hv => absurd hv (ha v), hs, hc, hg⟩

theorem ChildMove.trans_signalled (h : ChildMove c a c') (h' : Signalled c' c'')
    (ha : ∀ v, a ≠ .read (.byte v)) :
    ChildMove c a c'' := by
  have hm := @Signalled.move c' c'' .unblock h' (by simp)
  refine ⟨hm.pid.trans h.pid, hm.gateWrite.trans h.gateWrite, hm.group.trans h.group, hm.fds.trans h.fds,
    fun hb => h.before (hm.before hb), fun hp => ?_, fun v hv => absurd hv (ha v), fun hs => ?_, fun hc =>
      ?_, fun hg => ?_⟩
  · rcases hm.past hp with hp | hp
    · exact h.past hp
    · cases hp
  · obtain ⟨h₁, h₂⟩ := hm.start hs
    obtain ⟨h₃, h₄⟩ := h.start h₁
    exact ⟨h₃, h₂.trans h₄⟩
  · rcases h'.pc with hpc | hpc
    · rw [hpc]
      have hfds : c''.fds = c'.fds := by rw [h'.same]
      rw [hfds]
      exact h.closes hc
    · exact Or.inr (Or.inl hpc)
  · have hpgid : c''.pgid = c'.pgid := by rw [h'.same]
    rw [hpgid]
    rcases h'.pc with hpc | hpc
    · exact h.grouped (hpc ▸ hg)
    · rw [hpc] at hg
      cases hg

theorem childStep_gone (hc : c.pc = .gone) : childStep eventPipe c a = none := by
  cases a <;> simp [childStep, hc]

theorem present_of_step (hs : childStep eventPipe c a = some c') : c.pc ≠ .gone := by
  intro hg
  rw [childStep_gone hg] at hs
  cases hs

/-- **One step of a child.** -/
theorem childStep_move (h : childStep eventPipe c a = some c') : ChildMove c a c' := by
  cases a with
  | signal sig =>
    simp only [childStep] at h
    split at h
    · cases h
    · cases h
      exact (signalled_generate c sig).move (by simp)
  | closeGateWrite =>
    simp only [childStep] at h
    split at h
    · rename_i hpc
      cases h
      refine childMove_of List.filter_sublist ?_ ?_ ?_ ?_ ?_ ?_ <;> simp [hpc]
    · cases h
  | blockStartupSignals =>
    simp only [childStep] at h
    split at h
    · rename_i hpc
      cases h
      refine childMove_of (List.Sublist.refl _) ?_ ?_ ?_ ?_ ?_ ?_ <;> simp [hpc]
    · cases h
  | setpgid r =>
    simp only [childStep] at h
    split at h
    · rename_i hpc
      cases h
      refine childMove_of (List.Sublist.refl _) ?_ ?_ ?_ ?_ ?_ ?_ <;>
        simp [Starting.group, hpc]
    · rename_i hpc
      cases h
      refine childMove_of (List.Sublist.refl _) ?_ ?_ ?_ ?_ ?_ ?_ <;> simp [hpc]
    · rename_i hpc
      cases h
      refine childMove_of (List.Sublist.refl _) ?_ ?_ ?_ ?_ ?_ ?_ <;> simp [hpc]
    · cases h
  | closeEvent =>
    simp only [childStep] at h
    split at h
    · rename_i hpc
      cases h
      refine childMove_of (eventShutFds_sublist _ _) ?_ ?_ ?_ ?_ ?_ ?_ <;> simp [hpc]
    · cases h
  | read r =>
    simp only [childStep] at h
    split at h
    · rename_i value hpc
      cases h
      refine ⟨rfl, rfl, rfl, List.Sublist.refl _, ?_, ?_, fun v _ => ⟨by simp [hpc], ?_⟩, ?_, ?_, ?_⟩ <;>
        split <;> simp_all
    · rename_i hpc
      cases h
      refine childMove_of (List.Sublist.refl _) ?_ ?_ ?_ ?_ ?_ ?_ <;> simp [hpc]
    · rename_i hpc
      cases h
      refine childMove_of (List.Sublist.refl _) ?_ ?_ ?_ ?_ ?_ ?_ <;> simp [hpc]
    · rename_i hpc
      cases h
      refine childMove_of (List.Sublist.refl _) ?_ ?_ ?_ ?_ ?_ ?_ <;> simp [hpc]
    · cases h
  | closeGateRead =>
    simp only [childStep] at h
    split at h
    · rename_i hpc
      cases h
      refine childMove_of List.filter_sublist ?_ ?_ ?_ ?_ ?_ ?_ <;> simp [hpc]
    · cases h
  | resetSignal =>
    simp only [childStep] at h
    split at h
    · rename_i hpc
      cases h
      refine childMove_of (List.Sublist.refl _) ?_ ?_ ?_ ?_ ?_ ?_ <;> simp [hpc]
    · cases h
  | unblock =>
    simp only [childStep] at h
    split at h
    · rename_i hpc
      cases h
      refine @ChildMove.trans_signalled c { c with
        pc := .prepared, signals :=
          { c.signals with blocked := [], pending := [] } } _ _ ?_ (signalled_deliverAll _ _)
        (by simp)
      refine childMove_of (List.Sublist.refl _) ?_ ?_ ?_ ?_ ?_ ?_ <;> simp [hpc]
    · cases h

end Child

/-! ### One step of the parent -/

/-- The children that have read from the gate in a run, by their places. -/
def readers (tr : List StartupAct) : List ℕ :=
  tr.filterMap fun a => match a with
    | .child i (.read (.byte _)) => some i
    | _ => none

@[simp] theorem readers_append (tr tr' : List StartupAct) : readers (tr ++ tr') = readers tr ++ readers tr' :=
  List.filterMap_append

/-- A child is moved to a process group. -/
def Starting.moved (pid pgid : Int) (c : Starting) : Starting := if c.pid = pid then { c with pgid := pgid } else c

theorem gateBytes_append (l l' : List Event) :
    gateBytes (calls (l ++ l')) = gateBytes (calls l) + gateBytes (calls l') := by
  simp [gateBytes]

/-- **One call of the parent.** -/
theorem call_cases (plan : LaunchPlan) (s : Startup) (e : Event) :
    (∃ pid k js, e = .call (.fork pid) k js ∧ 0 < pid ∧ plan.call s e =
      { s with children := s.children ++ [plan.forked (s.children.map Starting.pid) pid k.shellPgrp k.fds] }) ∨
    (∃ pid pgid k js, e = .call (.setpgid pid pgid .ok) k js ∧
      plan.call s e = { s with children := s.children.map (Starting.moved pid pgid) }) ∨
    (∃ fd k js, e = .call (.writeGate fd .ok) k js ∧
      plan.call s e = { s with gate := s.gate ++ [gateByte] }) ∨
    (plan.call s e = s ∧ forks [e] = [] ∧ gateBytes (calls [e]) = 0) := by
  cases e with
  | env e => exact Or.inr (Or.inr (Or.inr ⟨rfl, rfl, rfl⟩))
  | call c k js =>
    cases c with
    | fork pid =>
      by_cases hp : 0 < pid
      · exact Or.inl ⟨pid, k, js, rfl, hp, if_pos hp⟩
      · exact Or.inr (Or.inr (Or.inr ⟨if_neg hp, by simp [forks, calls, hp], rfl⟩))
    | setpgid pid pgid r =>
      cases r with
      | ok => exact Or.inr (Or.inl ⟨pid, pgid, k, js, rfl, rfl⟩)
      | err e => exact Or.inr (Or.inr (Or.inr ⟨rfl, rfl, rfl⟩))
    | writeGate fd r =>
      cases r with
      | ok => exact Or.inr (Or.inr (Or.inl ⟨fd, k, js, rfl, rfl⟩))
      | err e => exact Or.inr (Or.inr (Or.inr ⟨rfl, rfl, rfl⟩))
    | _ => exact Or.inr (Or.inr (Or.inr ⟨rfl, rfl, rfl⟩))

@[simp] theorem moved_pid (pid pgid : Int) (c : Starting) : (c.moved pid pgid).pid = c.pid := by
  unfold Starting.moved
  split <;> rfl

@[simp] theorem moved_pc (pid pgid : Int) (c : Starting) : (c.moved pid pgid).pc = c.pc := by
  unfold Starting.moved
  split <;> rfl

/-- What a step of a child does to the gate. -/
theorem gateAfter_cases {plan : LaunchPlan} {s : Startup} {a : ChildAct} {gate : Bytes}
    (h : plan.gateAfter s a = some gate) :
    (∃ v, a = .read (.byte v) ∧ s.gate = v :: gate) ∨ (∀ v, a ≠ .read (.byte v)) ∧ gate = s.gate := by
  unfold LaunchPlan.gateAfter at h
  split at h
  · split at h
    · rename_i heq
      split at h
      · rename_i hv
        exact Or.inl ⟨_, rfl, by rw [heq, hv, Option.some.inj h]⟩
      · cases h
    · cases h
  · split at h
    · rename_i hcond
      exact Or.inr ⟨by simp, (Option.some.inj h).symm.trans hcond.1.symm⟩
    · cases h
  · rename_i hne _
    exact Or.inr ⟨hne, (Option.some.inj h).symm⟩

/-! ### The invariant -/

/-- What is known of the launch: its forks hand on the gate, its groupings are in the group of the first child. -/
structure LaunchKnown (plan : LaunchPlan) (seg : List Event) : Prop where
  inherits : ∀ pid k js, .call (.fork pid) k js ∈ seg → 0 < pid →
    plan.writes (k.fds.close plan.gateWrite) = false
  groups : ∀ x ∈ groupings seg, (forks seg).head? = some x.2
  single : plan.single = true → (forks seg).length ≤ 1

/-- What holds of a child of a launch whose first child is `leader`. -/
structure ChildInv (plan : LaunchPlan) (leader : Option Int) (c : Starting) : Prop where
  gateWrite : c.gateWrite = plan.gateWrite
  table : plan.writes (c.fds.close plan.gateWrite) = false
  closed : c.pc = .closeGateWrite ∨ c.pc = .gone ∨ plan.writes c.fds = false
  group : leader = some c.group
  grouped : c.pc.grouped = true → leader = some c.pgid

/-- What holds when the parent of a launch has made the calls `made` and the steps `tr` have been taken. -/
structure GateInv (plan : LaunchPlan) (seg : List Event) (tr : List StartupAct) (s : Startup) (made : List Event) :
    Prop where
  split : seg = made ++ s.left
  pids : s.children.map Starting.pid = forks made
  count : gateBytes (calls made) = (readers tr).length + s.gate.length
  bytes : ∀ b ∈ s.gate, b = gateByte
  once : (readers tr).Nodup
  bound : ∀ i ∈ readers tr, i < s.children.length
  before : ∀ i c, s.children[i]? = some c → c.pc.before = true → i ∉ readers tr
  past : ∀ i c, s.children[i]? = some c → c.pc.past = true → i ∈ readers tr
  child : ∀ c ∈ s.children, ChildInv plan (forks seg).head? c

section Invariant

variable {plan : LaunchPlan} {seg made : List Event} {tr : List StartupAct} {s s' : Startup}

theorem gateInv_init (plan : LaunchPlan) (seg : List Event) : GateInv plan seg [] (.init seg) [] where
  split := rfl
  pids := rfl
  count := rfl
  bytes := by simp [Startup.init]
  once := by simp [readers]
  bound := by simp [readers]
  before := by simp [Startup.init]
  past := by simp [Startup.init]
  child := by simp [Startup.init]

theorem writes_sublist {F F' : FdTable Fd} (h : F'.Sublist F) (hF : plan.writes F = false) :
    plan.writes F' = false := by
  unfold LaunchPlan.writes at *
  rw [List.any_eq_false] at *
  exact fun e he => hF e (h.subset he)

theorem ChildInv.step {leader : Option Int} {c c' : Starting} {a : ChildAct} (h : ChildInv plan leader c)
    (hs : childStep plan.eventPipe c a = some c') : ChildInv plan leader c' := by
  have hm := childStep_move hs
  refine ⟨hm.gateWrite.trans h.gateWrite, writes_sublist (hm.fds.filter _) h.table, ?_,
    hm.group ▸ h.group, fun hg => ?_⟩
  · rcases h.closed with hc | hc | hc
    · rcases hm.closes hc with h' | h' | h'
      · exact Or.inl h'
      · exact Or.inr (Or.inl h')
      · rw [h', h.gateWrite]
        exact Or.inr (Or.inr h.table)
    · rw [childStep_gone hc] at hs
      cases hs
    · exact Or.inr (Or.inr (writes_sublist hm.fds hc))
  · rcases hm.grouped hg with ⟨h₁, h₂⟩ | h₂
    · rw [h₂]
      exact h.grouped h₁
    · rw [h₂]
      exact h.group

theorem ChildInv.moved {leader : Option Int} {c : Starting} {pid pgid : Int} (h : ChildInv plan leader c)
    (hp : leader = some pgid) : ChildInv plan leader (c.moved pid pgid) := by
  unfold Starting.moved
  split
  · exact ⟨h.gateWrite, h.table, h.closed, h.group, fun _ => hp⟩
  · exact h

/-- A child just forked. -/
theorem childInv_forked (hk : LaunchKnown plan seg) {pid pgid : Int} {k : Kernel} {js : List Job}
    (hpid : 0 < pid) (he : seg = made ++ Event.call (.fork pid) k js :: s.left) :
    ChildInv plan (forks seg).head? (plan.forked (forks made) pid pgid k.fds) where
  gateWrite := rfl
  table := hk.inherits pid k js (by simp [he]) hpid
  closed := Or.inl rfl
  group := by
    have hforks : forks seg = forks made ++ pid :: forks s.left := by
      rw [he, ← List.singleton_append, forks_append, forks_append]
      simp [forks, calls, hpid]
    have hsingle := hk.single
    rw [hforks] at hsingle ⊢
    unfold Starting.group LaunchPlan.forked childPgid
    cases hs : plan.single with
    | true =>
      -- the only child
      have hlen := hsingle hs
      simp only [List.length_append, List.length_cons] at hlen
      obtain h0 : forks made = [] := List.length_eq_zero_iff.mp (by omega)
      simp [h0]
    | false =>
      cases hm : forks made with
      | nil => simp
      | cons leader rest =>
        have : 0 < leader := (mem_forks.mp (hm ▸ List.mem_cons_self)).1
        simp [this.ne']
  grouped h := by cases h

theorem readers_parent (tr : List StartupAct) : readers (tr ++ [StartupAct.parent]) = readers tr := by
  rw [readers_append]
  exact List.append_nil _

section Parent

variable (h : GateInv plan seg tr s made) {left : List Event} {k : Kernel} {js : List Job}
include h

/-- A child is forked. -/
theorem gateInv_fork (hk : LaunchKnown plan seg) {pid : Int} (hpid : 0 < pid)
    (hsplit : seg = (made ++ [Event.call (.fork pid) k js]) ++ left) :
    GateInv plan seg (tr ++ [StartupAct.parent])
      { s with
        left := left
        children := s.children ++ [plan.forked (s.children.map Starting.pid) pid k.shellPgrp k.fds] }
      (made ++ [Event.call (.fork pid) k js]) := by
  have hnew := @childInv_forked plan seg made { s with left := left } hk pid k.shellPgrp k js hpid
    (by simpa using hsplit)
  have hlast : ∀ {i c}, (s.children ++ [plan.forked
    (s.children.map Starting.pid) pid k.shellPgrp k.fds])[i]? = some c →
      s.children[i]? = some c ∨ i = s.children.length ∧ c.pc = .closeGateWrite := by
    intro i c hi
    rw [List.getElem?_append] at hi
    split at hi
    · exact Or.inl hi
    · rw [List.getElem?_singleton] at hi
      split at hi
      · cases hi
        exact Or.inr ⟨by omega, rfl⟩
      · cases hi
  refine ⟨hsplit, ?_, ?_, h.bytes, (readers_parent tr).symm ▸ h.once, ?_, ?_, ?_, ?_⟩
  · rw [List.map_append, h.pids, forks_append]
    simp [forks, calls, hpid, LaunchPlan.forked]
  · rw [readers_parent]
    simpa [gateBytes] using h.count
  · intro i hi
    rw [List.length_append]
    exact Nat.lt_add_right _ (h.bound i (readers_parent tr ▸ hi))
  · intro i c hi hb
    rw [readers_parent]
    rcases hlast hi with hi | ⟨rfl, -⟩
    · exact h.before i c hi hb
    · exact fun hm => absurd (h.bound _ hm) (lt_irrefl _)
  · intro i c hi hp
    rw [readers_parent]
    rcases hlast hi with hi | ⟨-, hpc⟩
    · exact h.past i c hi hp
    · rw [hpc] at hp
      cases hp
  · intro c hm
    rcases List.mem_append.mp hm with hm | hm
    · exact h.child c hm
    · rw [List.mem_singleton.mp hm, h.pids]
      exact hnew

/-- A child is moved to the group of the job. -/
theorem gateInv_setpgid (hk : LaunchKnown plan seg) {pid pgid : Int}
    (hsplit : seg = (made ++ [Event.call (.setpgid pid pgid .ok) k js]) ++ left) :
    GateInv plan seg (tr ++ [StartupAct.parent])
      { s with left := left, children := s.children.map (Starting.moved pid pgid) }
      (made ++ [Event.call (.setpgid pid pgid .ok) k js]) := by
  have hgroup : (forks seg).head? = some pgid := by
    refine hk.groups (pid, pgid) ?_
    rw [hsplit, groupings_append, groupings_append]
    simp [groupings]
  have hold : ∀ {i : ℕ} {c : Starting}, (s.children.map (Starting.moved pid pgid))[i]? = some c →
      ∃ c₀ : Starting, s.children[i]? = some c₀ ∧ c.pc = c₀.pc := by
    intro i c hi
    rw [List.getElem?_map] at hi
    obtain ⟨c₀, hc₀, rfl⟩ := Option.map_eq_some_iff.mp hi
    exact ⟨c₀, hc₀, moved_pc ..⟩
  refine ⟨hsplit, ?_, ?_, h.bytes, (readers_parent tr).symm ▸ h.once, ?_, ?_, ?_, ?_⟩
  · have hmap : (s.children.map (Starting.moved pid pgid)).map Starting.pid = s.children.map Starting.pid := by
      rw [List.map_map]
      exact List.map_congr_left fun c _ => moved_pid ..
    rw [hmap, h.pids, forks_append]
    exact (List.append_nil _).symm
  · rw [readers_parent]
    simpa [gateBytes] using h.count
  · intro i hi
    rw [List.length_map]
    exact h.bound i (readers_parent tr ▸ hi)
  · intro i c hi hb
    obtain ⟨c₀, hc₀, hpc⟩ := hold hi
    rw [readers_parent]
    exact h.before i c₀ hc₀ (hpc ▸ hb)
  · intro i c hi hp
    obtain ⟨c₀, hc₀, hpc⟩ := hold hi
    rw [readers_parent]
    exact h.past i c₀ hc₀ (hpc ▸ hp)
  · intro c hm
    obtain ⟨c₀, hc₀, rfl⟩ := List.mem_map.mp hm
    exact (h.child c₀ hc₀).moved hgroup

/-- **One call of the parent.** -/
theorem gateInv_parent (hk : LaunchKnown plan seg) {e : Event} (hl : s.left = e :: left) :
    GateInv plan seg (tr ++ [StartupAct.parent]) (plan.call { s with left := left } e) (made ++ [e]) := by
  have hsplit : seg = (made ++ [e]) ++ left := by rw [h.split, hl, List.append_assoc, List.singleton_append]
  rcases call_cases plan { s with left := left } e with ⟨pid, k, js, rfl, hpid, hc⟩ |
    ⟨pid, pgid, k, js, rfl, hc⟩ |
    ⟨fd, k, js, rfl, hc⟩ | ⟨hc, hf, hg⟩
  · rw [hc]
    exact gateInv_fork h hk hpid hsplit
  · rw [hc]
    exact gateInv_setpgid h hk hsplit
  · -- a byte is written
    rw [hc]
    have hreaders := (readers_parent tr).symm
    refine ⟨hsplit, ?_, ?_, ?_, hreaders ▸ h.once, hreaders ▸ h.bound, hreaders ▸ h.before,
      hreaders ▸ h.past, h.child⟩
    · rw [h.pids, forks_append]
      exact (List.append_nil _).symm
    · rw [readers_parent]
      have hone : gateBytes (calls [.call (.writeGate fd .ok) k js]) = 1 := rfl
      rw [gateBytes_append, h.count, hone, List.length_append, Nat.add_assoc]
      rfl
    · intro b hb
      rcases List.mem_append.mp hb with hb | hb
      · exact h.bytes b hb
      · exact List.mem_singleton.mp hb
  · rw [hc]
    have hreaders := (readers_parent tr).symm
    refine ⟨hsplit, ?_, ?_, h.bytes, hreaders ▸ h.once, hreaders ▸ h.bound, hreaders ▸ h.before,
      hreaders ▸ h.past,
      h.child⟩
    · rw [h.pids, forks_append, hf, List.append_nil]
    · rw [readers_parent]
      rw [gateBytes_append, h.count, hg, Nat.add_zero]

end Parent

/-- A child is replaced by what a step of it has made. -/
theorem set_cases {l : List Starting} {i j : ℕ} {c' x : Starting} (hj : (l.set i c')[j]? = some x) :
    (j = i ∧ x = c') ∨ (j ≠ i ∧ l[j]? = some x) := by
  rw [List.getElem?_set] at hj
  split at hj
  · rename_i hij
    split at hj
    · exact Or.inl ⟨hij.symm, (Option.some.inj hj).symm⟩
    · cases hj
  · rename_i hij
    exact Or.inr ⟨fun h => hij h.symm, hj⟩

theorem set_pids {l : List Starting} {i : ℕ} {c c' : Starting} (hc : l[i]? = some c) (hpid : c'.pid = c.pid) :
    (l.set i c').map Starting.pid = l.map Starting.pid := by
  obtain ⟨hi, rfl⟩ := List.getElem?_eq_some_iff.mp hc
  rw [List.map_set, hpid]
  refine List.ext_getElem? ?_
  intro j
  rw [List.getElem?_set]
  split
  · rename_i hij
    subst hij
    simp [hi]
  · rfl

/-- A child reads a byte. -/
theorem gateInv_read (h : GateInv plan seg tr s made) {i : ℕ} {v : UInt8} {c c' : Starting} {gate : Bytes}
    (hc : s.children[i]? = some c) (hm : ChildMove c (.read (.byte v)) c') (hgate : s.gate = v :: gate)
    (hpids : (s.children.set i c').map Starting.pid = forks made)
    (hchild : ∀ x ∈ s.children.set i c', ChildInv plan (forks seg).head? x) :
    GateInv plan seg (tr ++ [StartupAct.child i (.read (.byte v))])
      { s with gate := gate, children := s.children.set i c' } made := by
  obtain ⟨hb, hb'⟩ := hm.reads v rfl
  have hnot := h.before i c hc hb
  have hreaders : readers (tr ++ [StartupAct.child i (.read (.byte v))]) = readers tr ++ [i] := readers_append ..
  refine ⟨h.split, hpids, ?_, fun b hb => h.bytes b (by simp [hgate, hb]), ?_, ?_, ?_, ?_, hchild⟩
  · rw [hreaders, h.count, hgate]
    simp only [List.length_append, List.length_cons, List.length_nil]
    omega
  · rw [hreaders]
    exact h.once.append (List.nodup_singleton i) (by simpa using hnot)
  · intro j hj
    rw [List.length_set]
    rw [hreaders] at hj
    rcases List.mem_append.mp hj with hj | hj
    · exact h.bound j hj
    · rw [List.mem_singleton.mp hj]
      exact (List.getElem?_eq_some_iff.mp hc).1
  · intro j x hj hbx
    rw [hreaders]
    rcases set_cases hj with ⟨rfl, rfl⟩ | ⟨hne, hj⟩
    · rw [hb'] at hbx
      cases hbx
    · simpa [hne] using h.before j x hj hbx
  · intro j x hj hpx
    rw [hreaders]
    rcases set_cases hj with ⟨rfl, rfl⟩ | ⟨hne, hj⟩
    · simp
    · exact List.mem_append_left _ (h.past j x hj hpx)

/-- A child takes a step that leaves the bytes in the gate. -/
theorem gateInv_quiet (h : GateInv plan seg tr s made) {i : ℕ} {a : ChildAct} {c c' : Starting}
    (hc : s.children[i]? = some c) (hm : ChildMove c a c') (hne : ∀ v, a ≠ .read (.byte v))
    (hpids : (s.children.set i c').map Starting.pid = forks made)
    (hchild : ∀ x ∈ s.children.set i c', ChildInv plan (forks seg).head? x) :
    GateInv plan seg (tr ++ [StartupAct.child i a]) { s with children := s.children.set i c' } made := by
  have hreaders : readers (tr ++ [StartupAct.child i a]) = readers tr := by
    rw [readers_append]
    have : readers [.child i a] = [] := by
      unfold readers
      refine List.filterMap_eq_nil_iff.mpr ?_
      intro b hb
      rw [List.mem_singleton.mp hb]
      split
      · rename_i heq
        cases heq
        exact absurd rfl (hne _)
      · rfl
    rw [this, List.append_nil]
  refine ⟨h.split, hpids, hreaders ▸ h.count, h.bytes, hreaders ▸ h.once, ?_, ?_, ?_, hchild⟩
  · intro j hj
    rw [List.length_set]
    exact h.bound j (hreaders ▸ hj)
  · intro j x hj hbx
    rw [hreaders]
    rcases set_cases hj with ⟨rfl, rfl⟩ | ⟨-, hj⟩
    · exact h.before j c hc (hm.before hbx)
    · exact h.before j x hj hbx
  · intro j x hj hpx
    rw [hreaders]
    rcases set_cases hj with ⟨rfl, rfl⟩ | ⟨-, hj⟩
    · rcases hm.past hpx with hp | hp
      · exact h.past j c hc hp
      · exact absurd hp (hne _)
    · exact h.past j x hj hpx

theorem gateInv_child (h : GateInv plan seg tr s made) {i : ℕ} {a : ChildAct} {c c' : Starting} {gate : Bytes}
    (hc : s.children[i]? = some c) (hg : plan.gateAfter s a = some gate)
    (hs : childStep plan.eventPipe c a = some c') :
    GateInv plan seg (tr ++ [StartupAct.child i a])
      { s with gate := gate, children := s.children.set i c' } made := by
  have hm := childStep_move hs
  have hpids : (s.children.set i c').map Starting.pid = forks made := (set_pids hc hm.pid).trans h.pids
  have hchild : ∀ x ∈ s.children.set i c', ChildInv plan (forks seg).head? x := by
    intro x hx
    rcases List.mem_or_eq_of_mem_set hx with hx | rfl
    · exact h.child x hx
    · exact (h.child c (List.mem_of_getElem? hc)).step hs
  rcases gateAfter_cases hg with ⟨v, rfl, hgate⟩ | ⟨hne, rfl⟩
  · exact gateInv_read h hc hm hgate hpids hchild
  · exact gateInv_quiet h hc hm hne hpids hchild

/-- **The invariant holds in every run of a launch.** -/
theorem gateInv_run (hk : LaunchKnown plan seg) (hrun : Run (startupStep plan) (.init seg) tr s) :
    ∃ made, GateInv plan seg tr s made := by
  refine hrun.invariant (I := fun tr s => ∃ made, GateInv plan seg tr s made) ⟨[], gateInv_init plan seg⟩ ?_
  rintro tr s a s' - ⟨made, h⟩ hs
  cases a with
  | parent =>
    simp only [startupStep] at hs
    split at hs
    · rename_i e left hl
      split at hs
      · cases hs
        exact ⟨_, gateInv_parent h hk hl⟩
      · cases hs
    · cases hs
  | abort =>
    simp only [startupStep] at hs
    split at hs
    · cases hs
      have hreaders : readers (tr ++ [StartupAct.abort]) = readers tr := by
        rw [readers_append]; exact List.append_nil _
      exact ⟨made, h.split, h.pids, hreaders ▸ h.count, h.bytes, hreaders ▸ h.once, hreaders ▸ h.bound,
        hreaders ▸ h.before, hreaders ▸ h.past, h.child⟩
    · cases hs
  | child i a =>
    obtain ⟨c, hc, hs⟩ := Option.bind_eq_some_iff.mp hs
    obtain ⟨gate, hg, hs⟩ := Option.bind_eq_some_iff.mp hs
    obtain ⟨c', hc', hs⟩ := Option.bind_eq_some_iff.mp hs
    cases hs
    exact ⟨made, gateInv_child h hc hg hc'⟩

end Invariant

/-! ### A whole launch -/

/-- The launch that `execute_command` begins with, and whether it has succeeded. -/
def launchChain (com : Command) (next : List Command) : Sh Bool :=
  if next ≠ [] then do
    let r ← launchPipeline com next
    pure r.isOk
  else do
    let r ← launchSingle com
    pure r.isOk

/-- What a launch that started in `w` has come to in `w'` with the log `seg`. -/
structure ChainLaunched (com : Command) (next : List Command) (w : World) (opened : Bool) (seg : List Event)
    (w' : World) :
    Prop where
  log : w'.log = w.log ++ seg
  fds : w'.kernel.fds = w.kernel.fds
  gated : Gated com w seg
  bytes : opened = true → gateBytes (calls seg) = (forks seg).length
  gate : Gatewired w.kernel.fds w.kernel.created (wires seg)
  stages : opened = true → ∃ gate ws, wires seg = .piped gate :: ws ∧
    Stages w.kernel.fds (gateTable w.kernel.created gate) w.kernel.created none (com :: next) ws
  groups : ∀ x ∈ groupings seg, (forks seg).head? = some x.2
  single : next = [] → (forks seg).length ≤ 1

theorem chainLaunched_of {α : Type} {com : Command} {next : List Command} {w w' : World} {r : Except Int α}
    {P : α → World → Prop} (hs : LaunchSpec com w P r w')
    (hP : ∀ a w', P a w' → ∃ pgid ps, Launched com w pgid ps w') (hw : WiredTo w (com :: next) r w')
    (hone : next = [] → ∀ ws, Marked w ws w' → (pidsOf ws).length ≤ 1) :
    ∃ seg, ChainLaunched com next w r.isOk seg w' := by
  obtain ⟨seg, hseg, hfds, hgate, hbytes⟩ : ∃ seg, w'.log = w.log ++ seg ∧ w'.kernel.fds = w.kernel.fds ∧
      Gated com w seg ∧ (r.isOk = true → gateBytes (calls seg) = (forks seg).length) := by
    cases r with
    | error e =>
      obtain ⟨-, hu⟩ := hs
      obtain ⟨seg, hseg, -, hgate, -⟩ := hu.log
      exact ⟨seg, hseg, hu.fds, hgate, fun h => by cases h⟩
    | ok a =>
      obtain ⟨pgid, ps, hl⟩ := hP a w' hs
      obtain ⟨seg, hseg, -, hf, hgate, hb, -⟩ := hl.log
      exact ⟨seg, hseg, hl.fds, hgate, fun _ => by rw [hb, hf]⟩
  obtain ⟨ws, hm, hl⟩ := hw
  have hws : wires seg = ws := by
    have := hm.wires
    rw [hseg, wires_append] at this
    exact List.append_cancel_left this
  subst hws
  refine ⟨seg, hseg, hfds, hgate, hbytes, hl.gate, fun hr => hl.stages ?_, fun x hx => ?_, fun hn => ?_⟩
  · cases r with
    | error e => cases hr
    | ok a => exact ⟨a, rfl⟩
  · obtain ⟨gs, hgs, hall⟩ := hm.groups
    rw [hseg, groupings_append] at hgs
    obtain rfl := List.append_cancel_left hgs
    rw [← pidsOf_wires]
    exact hall x hx
  · rw [← pidsOf_wires]
    exact hone hn _ hm

/-- **Every launch returns**, having made its calls. -/
theorem launchChain_done (com : Command) (next : List Command) (w : World) :
    ∃ opened w' seg, launchChain com next w = .done opened w' ∧ ChainLaunched com next w opened seg w' := by
  unfold launchChain
  split
  · rename_i hn
    obtain ⟨r, w', hrun, hs⟩ := Prog.wp_total.mp (@wp_launchPipeline (fun _ => False) com next w)
    have hw := @wp_launchPipeline_wired w com next
    unfold Prog.wp at hw
    rw [hrun] at hw
    obtain ⟨seg, h⟩ := chainLaunched_of hs (fun _ _ h => ⟨_, _, h.2.2.2⟩) hw fun h0 => absurd h0 hn
    exact ⟨_, w', seg, Prog.bind_done hrun, h⟩
  · rename_i hn
    obtain rfl : next = [] := not_not.mp hn
    obtain ⟨r, w', hrun, hs⟩ := Prog.wp_total.mp (@wp_launchSingle (fun _ => False) com w)
    have hw := @wp_launchSingle_wired w com
    unfold Prog.wp at hw
    rw [hrun] at hw
    obtain ⟨seg, h⟩ := chainLaunched_of hs (fun _ _ h => ⟨_, _, h.2⟩) hw.1 fun _ => hw.2
    exact ⟨_, w', seg, Prog.bind_done hrun, h⟩

/-- The gate is the first pipe. -/
def gateOf : List Wire → ℕ × ℕ
  | .piped ends :: _ => ends
  | _ => (0, 0)

/-- The launch of a chain of commands in `w`, in a shell with the given event pipe and signal dispositions. -/
def planOf (com : Command) (next : List Command) (w : World) (eventPipe : Int × Int)
    (action : Sig → Disposition) :
    LaunchPlan where
  single := next = []
  gateRead := (gateOf (wires (logOf (launchChain com next) w))).1
  gateWrite := (gateOf (wires (logOf (launchChain com next) w))).2
  gatePipe := w.kernel.created
  eventPipe := eventPipe
  action := action
  final := (launchChain com next w).state.kernel.fds

/-- The runs of the launch of a chain of commands. -/
def LaunchRun (com : Command) (next : List Command) (w : World) (eventPipe : Int × Int)
    (action : Sig → Disposition) (tr : List StartupAct) (s : Startup) : Prop :=
  Run (startupStep (planOf com next w eventPipe action)) (.init (logOf (launchChain com next) w)) tr s

theorem LaunchRun.of_runFrom {com : Command} {next : List Command} {w : World} {eventPipe : Int × Int}
    {action : Sig → Disposition} {tr : List StartupAct} {s : Startup}
    (h : runFrom (startupStep (planOf com next w eventPipe action))
      (.init (logOf (launchChain com next) w)) tr = some s) :
    LaunchRun com next w eventPipe action tr s :=
  Run.of_runFrom h

/-- What the gate guarantees when the launch of a chain has come to `s` by the steps `tr`, and its parent has made the
calls `made`. -/
structure GateSafe (com : Command) (next : List Command) (w : World) (plan : LaunchPlan) (tr : List StartupAct)
    (s : Startup) (made : List Event) : Prop where
  split : logOf (launchChain com next) w = made ++ s.left
  /-- nobody has read before a byte was written, and before that, in `pre`, everything was prepared for the
  program, where `js` is the table that the write has seen -/
  prepared : readers tr ≠ [] → ∃ pgid pre fd k js, pre <+: made ∧ (∀ c ∈ calls pre, ¬ c.OfGate) ∧
    .call (.writeGate fd .ok) k js ∈ made ∧ Prepared com w pgid pre js ∧
    forks pre = forks (logOf (launchChain com next) w)
  /-- no byte is lost or read twice -/
  count : gateBytes (calls made) = (readers tr).length + s.gate.length
  once : (readers tr).Nodup
  /-- only a child that has read is past the gate, and it is in the group of the job -/
  passed : ∀ i c, s.children[i]? = some c → c.pc.past = true →
    i ∈ readers tr ∧ (forks (logOf (launchChain com next) w)).head? = some c.pgid
  /-- when the gate has been opened there is a byte for every child that waits -/
  served : (∃ w', launchChain com next w = .done true w') → s.left = [] →
    ∀ i c, s.children[i]? = some c → c.pc = .gateWait →
    ∃ s', startupStep plan s (.child i (.read (.byte gateByte))) = some s'
  /-- when the parent has come to its end or has been killed nobody waits for ever -/
  released : s.left = [] ∨ s.alive = false → (∀ c ∈ s.children, c.pc ≠ .closeGateWrite) →
    ∀ i c, s.children[i]? = some c → c.pc = .gateWait →
      ∃ r s', (r = .byte gateByte ∨ r = .eof) ∧ startupStep plan s (.child i (.read r)) = some s'

section Launch

variable {com : Command} {next : List Command} {w w' : World} {opened : Bool} {seg : List Event}
  {eventPipe : Int × Int} {action : Sig → Disposition} {plan : LaunchPlan} {tr : List StartupAct} {s : Startup}

/-- The child that closes its copy of the write end has none. -/
theorem writes_inherits (hn : w.kernel.Numbered) (hp : plan.gatePipe = w.kernel.created) {gate : ℕ × ℕ}
    {T : FdTable Fd} (h : Inherits w.kernel.fds w.kernel.created gate T) :
    plan.writes (T.close gate.2) = false := by
  obtain ⟨es, hT, hes⟩ := h
  unfold LaunchPlan.writes
  rw [List.any_eq_false]
  intro e he hw
  obtain ⟨he, hne⟩ := List.mem_filter.mp he
  simp only [hp, decide_eq_true_eq, ne_eq] at hw hne
  rw [hT.eq, List.append_assoc] at he
  rcases List.mem_append.mp he with he | he
  · exact (hes e he).2 hw
  rcases List.mem_append.mp he with he | he
  · simp only [gateTable, List.mem_cons, List.not_mem_nil, or_false] at he
    rcases he with rfl | rfl
    · exact hne rfl
    · cases hw
  · have := hn e he
    rw [hw] at this
    exact lt_irrefl _ this

theorem ChainLaunched.logOf_eq (h : ChainLaunched com next w opened seg w')
    (hd : launchChain com next w = .done opened w') : logOf (launchChain com next) w = seg := by
  unfold logOf
  rw [hd]
  show w'.log.drop w.log.length = seg
  rw [h.log, List.drop_left]

theorem mem_wires_fork {pid : Int} {k : Kernel} {js : List Job} (h : .call (.fork pid) k js ∈ seg)
    (hp : 0 < pid) :
    .forked pid k.fds ∈ wires seg :=
  List.mem_filterMap.mpr ⟨_, h, if_pos hp⟩

theorem ChainLaunched.known (h : ChainLaunched com next w opened seg w') (hn : w.kernel.Numbered)
    (hd : launchChain com next w = .done opened w') : LaunchKnown (planOf com next w eventPipe action) seg where
  inherits pid k js hm hp := by
    have hw := mem_wires_fork hm hp
    rcases h.gate with h0 | ⟨gate, ws, hws, hall⟩
    · have : pid ∈ pidsOf (wires seg) := List.mem_filterMap.mpr ⟨_, hw, rfl⟩
      rw [h0] at this
      cases this
    · have hgate : (planOf com next w eventPipe action).gateWrite = gate.2 := by
        unfold planOf
        rw [h.logOf_eq hd, hws]
        rfl
      rw [hgate]
      rw [hws] at hw
      exact writes_inherits hn rfl (hall pid _ (by simpa using hw))
  groups := h.groups
  single hs := h.single (by simpa [planOf] using hs)

/-- A waiting child reads the byte at the front of the gate. -/
theorem startupStep_read {i : ℕ} {c : Starting} (hc : s.children[i]? = some c) (hpc : c.pc = .gateWait)
    {gate : Bytes} (hg : s.gate = gateByte :: gate) :
    ∃ s', startupStep plan s (.child i (.read (.byte gateByte))) = some s' := by
  simp [startupStep, hc, LaunchPlan.gateAfter, hg, childStep, hpc]

/-- A waiting child finds the end of the gate. -/
theorem startupStep_eof {i : ℕ} {c : Starting} (hc : s.children[i]? = some c) (hpc : c.pc = .gateWait)
    (hg : s.gate = []) (hh : plan.held s = false) :
    ∃ s', startupStep plan s (.child i (.read .eof)) = some s' := by
  simp [startupStep, hc, LaunchPlan.gateAfter, hg, hh, childStep, hpc]

/-- A gate with a byte in it begins with one. -/
theorem GateInv.front {made : List Event} (h : GateInv plan seg tr s made) (hg : s.gate ≠ []) :
    ∃ gate, s.gate = gateByte :: gate := by
  cases hs : s.gate with
  | nil => exact absurd hs hg
  | cons b gate => exact ⟨gate, by rw [h.bytes b (by simp [hs])]⟩

/-- Somebody who has not read is left a byte. -/
theorem GateInv.waiting {made : List Event} (h : GateInv plan seg tr s made)
    (hb : gateBytes (calls made) = (forks made).length) {i : ℕ} {c : Starting} (hc : s.children[i]? = some c)
    (hpc : c.pc = .gateWait) : s.gate ≠ [] := by
  intro h0
  have hi : i ∉ readers tr := h.before i c hc (by simp [hpc])
  have hlt : i < s.children.length := (List.getElem?_eq_some_iff.mp hc).1
  have hnodup : (i :: readers tr).Nodup := List.nodup_cons.mpr ⟨hi, h.once⟩
  have hsub : i :: readers tr ⊆ List.range s.children.length := by
    intro j hj
    rw [List.mem_range]
    rcases List.mem_cons.mp hj with rfl | hj
    · exact hlt
    · exact h.bound j hj
  have hle := (List.subperm_of_subset hnodup hsub).length_le
  have hcount := h.count
  rw [h0, hb, ← h.pids] at hcount
  simp only [List.length_cons, List.length_range, List.length_map, List.length_nil, add_zero] at hle hcount
  omega

/-- The first byte was written after the preparations. -/
theorem ChainLaunched.prepared (hl : ChainLaunched com next w opened seg w') {left : List Event}
    (hsplit : seg = made ++ left) (hpos : 0 < gateBytes (calls made)) :
    ∃ pgid pre fd k js, pre <+: made ∧ (∀ c ∈ calls pre, ¬ c.OfGate) ∧ .call (.writeGate fd .ok) k js ∈ made ∧
      Prepared com w pgid pre js ∧ forks pre = forks seg := by
  obtain ⟨pre, post, hpp, hpre, hpost, hprep, -⟩ := hl.gated
  obtain ⟨c, hc, hwrite⟩ := List.countP_pos_iff.mp hpos
  obtain ⟨fd, rfl⟩ : ∃ fd, c = .writeGate fd .ok := by
    cases c with
    | writeGate fd r => cases r <;> first | exact ⟨fd, rfl⟩ | cases hwrite
    | _ => cases hwrite
  have hpm : pre <+: made := by
    have h₁ : pre <+: seg := ⟨post, hpp.symm⟩
    have h₂ : made <+: seg := ⟨left, hsplit.symm⟩
    rcases List.prefix_or_prefix_of_prefix h₁ h₂ with h' | ⟨rest, rfl⟩
    · exact h'
    · exact (hpre (.writeGate fd .ok) (by rw [calls_append]; exact List.mem_append_left _ hc) trivial).elim
  obtain ⟨k, js, hm⟩ := mem_calls.mp hc
  have hmpost : .call (.writeGate fd .ok) k js ∈ post := by
    have : .call (.writeGate fd .ok) k js ∈ pre ++ post := by
      rw [← hpp, hsplit]
      exact List.mem_append_left _ hm
    exact (List.mem_append.mp this).resolve_left fun h' => hpre _ (mem_calls.mpr ⟨k, js, h'⟩) trivial
  obtain ⟨pgid, hp⟩ := hprep fd .ok k js hmpost
  exact ⟨pgid, pre, fd, k, js, hpm, hpre, hm, hp, by rw [hpp, forks_append, hpost, List.append_nil]⟩

/-- When the parent is done or dead, and every child has closed its copy, nobody holds the write end. -/
theorem held_false (hn : w.kernel.Numbered) (hfinal : plan.final = w.kernel.fds)
    (hpipe : plan.gatePipe = w.kernel.created) (h : GateInv plan seg tr s made) (hend : s.left = [] ∨ s.alive = false)
    (hpast : ∀ c ∈ s.children, c.pc ≠ .closeGateWrite) : plan.held s = false := by
  unfold LaunchPlan.held
  rw [Bool.or_eq_false_iff]
  constructor
  · rcases hend with h0 | h0
    · rw [h0, Bool.and_eq_false_iff]
      refine Or.inr ?_
      show plan.writes plan.final = false
      unfold LaunchPlan.writes
      rw [hfinal, List.any_eq_false]
      intro e he hw
      have := hn e he
      simp only [hpipe, decide_eq_true_eq] at hw
      rw [hw] at this
      exact lt_irrefl _ this
    · rw [h0, Bool.false_and]
  · rw [List.any_eq_false]
    intro x hx hw
    simp only [Bool.and_eq_true, decide_eq_true_eq] at hw
    rcases (h.child x hx).closed with hx' | hx' | hx'
    · exact hpast x hx hx'
    · exact hw.1 hx'
    · rw [hx'] at hw
      exact absurd hw.2 (by decide)

/-- **The startup gate.** -/
theorem startup_gate (com : Command) (next : List Command) {w : World} (hn : w.kernel.Numbered)
    (eventPipe : Int × Int) (action : Sig → Disposition) {tr : List StartupAct} {s : Startup}
    (hrun : LaunchRun com next w eventPipe action tr s) :
    ∃ made, GateSafe com next w (planOf com next w eventPipe action) tr s made := by
  obtain ⟨opened, w', seg, hd, hl⟩ := launchChain_done com next w
  unfold LaunchRun at hrun
  have hseg := hl.logOf_eq hd
  rw [hseg] at hrun
  obtain ⟨made, h⟩ := gateInv_run (hl.known hn hd) hrun
  have hfinal : (planOf com next w eventPipe action).final = w.kernel.fds := by
    unfold planOf
    rw [hd]
    exact hl.fds
  have hpipe : (planOf com next w eventPipe action).gatePipe = w.kernel.created := rfl
  generalize planOf com next w eventPipe action = plan at *
  refine ⟨made, hseg.trans h.split, ?_, h.count, h.once, fun i c hc hp => ⟨h.past i c hc hp, ?_⟩, ?_, ?_⟩
  · intro hr
    rw [hseg]
    refine hl.prepared h.split ?_
    have := List.length_pos_iff.mpr hr
    rw [h.count]
    omega
  · have hg : c.pc.grouped = true := by
      cases hpc : c.pc <;> rw [hpc] at hp <;> first | rfl | cases hp
    rw [hseg]
    exact (h.child c (List.mem_of_getElem? hc)).grouped hg
  · rintro ⟨w'', hd'⟩ hleft i c hc hpc
    rw [hd] at hd'
    cases hd'
    have hmade : made = seg := by rw [h.split, hleft, List.append_nil]
    obtain ⟨gate, hg⟩ := h.front (h.waiting (by rw [hmade]; exact hl.bytes rfl) hc hpc)
    exact startupStep_read hc hpc hg
  · intro hend hpast i c hc hpc
    by_cases hg : s.gate = []
    · obtain ⟨s', hs'⟩ := startupStep_eof hc hpc hg (held_false hn hfinal hpipe h hend hpast)
      exact ⟨.eof, s', Or.inr rfl, hs'⟩
    · obtain ⟨gate, hg⟩ := h.front hg
      obtain ⟨s', hs'⟩ := @startupStep_read plan s i c hc hpc gate hg
      exact ⟨.byte gateByte, s', Or.inl rfl, hs'⟩

end Launch

/-- The parent opens the gate for two children, the second comes through it, and the parent is killed. -/
def passing : List StartupAct :=
  List.replicate 16 .parent ++ [.child 1 .closeGateWrite, .child 1 .blockStartupSignals,
    .child 1 (.setpgid (.err .EINTR)),
    .child 1 (.setpgid .ok), .child 0 .closeGateWrite, .child 1 .closeEvent, .child 1 (.read (.err .EINTR)), .abort,
    .child 1 (.read (.byte gateByte)), .child 1 .closeGateRead]

theorem passing_safe : ∃ s made,
    LaunchRun (wordCommand true [97]) [wordCommand false [98]] (freshShell []) (-1, -1)
      (fun _ => .default) passing s ∧
      readers passing = [1] ∧ GateSafe (wordCommand true [97]) [wordCommand false [98]] (freshShell [])
        (planOf (wordCommand true [97]) [wordCommand false [98]] (freshShell []) (-1, -1)
          fun _ => .default) passing s
        made := by
  have hrun : (runFrom (startupStep (planOf (wordCommand true [97]) [wordCommand false [98]]
    (freshShell []) (-1, -1)
      fun _ => .default)) (.init (logOf (launchChain (wordCommand true [97]) [wordCommand false [98]])
        (freshShell [])))
      passing).isSome = true := by decide +kernel
  obtain ⟨s, hs⟩ := Option.isSome_iff_exists.mp hrun
  obtain ⟨made, h⟩ := startup_gate (wordCommand true [97]) [wordCommand false [98]] (w := freshShell [])
    (fun e he => absurd he List.not_mem_nil) (-1, -1) (fun _ => .default) (.of_runFrom hs)
  exact ⟨s, made, .of_runFrom hs, by decide, h⟩

end MiniShell
