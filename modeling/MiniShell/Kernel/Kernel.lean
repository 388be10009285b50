import MiniShell.Kernel.WaitStatus
import MiniShell.Lib.FdTable

/-!
# The kernel, as the shell sees it

The kernel holds the children the shell has forked and not yet collected, the shell's descriptors and
the terminal.  `Env` is what the rest of the world can do at any moment: a child terminates, is
stopped, is continued or moves to another process group, and the terminal's modes and foreground
group are changed by somebody else.  `Choice` is what the kernel may decide in a system call.

A child reports its newest change of state at most once, and a terminated child stays a zombie until
`waitpid` collects it.
-/

namespace MiniShell

open MiniShell.Lib

/-- The error numbers the shell tells apart. -/
inductive Errno where
  | EINTR | EACCES | ESRCH | ECHILD | other
  deriving DecidableEq

/-- The result of a system call that returns 0 or fails. -/
inductive Res where
  | ok
  | err (e : Errno)
  deriving DecidableEq

/-! ### Children -/

/-- The state of a child that has not been collected. -/
inductive ChildState where
  /-- running; `resumed` says that it was continued and that this has not been reported -/
  | running (resumed : Bool)
  /-- stopped by a signal; `reported` says that `waitpid` has reported it -/
  | stopped (sig : Sig) (reported : Bool)
  /-- terminated and not collected -/
  | zombie (t : Termination)
  deriving DecidableEq

structure Child where
  pid : Int
  pgid : Int
  state : ChildState
  deriving DecidableEq

namespace ChildState

/-- The process terminates.  A stopped process cannot exit, it can only be killed. -/
def terminate (t : Termination) : ChildState → ChildState
  | running _ => zombie t
  | stopped sig reported =>
    match t with
    | .exited _ => stopped sig reported
    | .signaled _ _ => zombie t
  | zombie t' => zombie t'

def stop (sig : Sig) : ChildState → ChildState
  | running _ => stopped sig false
  | s => s

def resume : ChildState → ChildState
  | stopped _ _ => running true
  | s => s

/-- The effect of a signal the shell sends: the ones whose effect is certain have it, a `SIGTERM` leaves
it to the process whether and when it terminates. -/
def deliver (sig : Sig) (s : ChildState) : ChildState :=
  if sig = SIGKILL then s.terminate (.signaled SIGKILL false)
  else if sig = SIGCONT then s.resume
  else s

@[simp] theorem deliver_kill (s : ChildState) :
    s.deliver SIGKILL = s.terminate (.signaled SIGKILL false) := rfl

/-- A process that gets `SIGKILL` terminates, or had terminated before. -/
theorem terminate_kill (s : ChildState) (sig : Sig) (core : Bool) :
    ∃ t, s.terminate (.signaled sig core) = zombie t := by
  cases s with
  | running r => exact ⟨_, rfl⟩
  | stopped sg r => exact ⟨_, rfl⟩
  | zombie t => exact ⟨t, rfl⟩

end ChildState

/-! ### The state of the kernel -/

/-- What a descriptor refers to. -/
inductive Desc where
  | file (n : ℕ)
  | pipeRead (n : ℕ)
  | pipeWrite (n : ℕ)
  deriving DecidableEq

structure Fd where
  desc : Desc
  cloexec : Bool
  deriving DecidableEq

/-- Terminal modes; the shell only stores and copies them. -/
abbrev Termios : Type := ℕ

structure Kernel where
  /-- the process group of the shell, in which its children start -/
  shellPgrp : Int
  children : List Child
  fds : FdTable Fd
  /-- the number of descriptions created so far, pipes and files -/
  created : ℕ
  ttyPgrp : Int
  ttyModes : Termios
  deriving DecidableEq

/-- What the rest of the world can do. -/
inductive Env where
  | terminate (pid : Int) (t : Termination)
  | stop (pid : Int) (sig : Sig)
  | resume (pid : Int)
  | regroup (pid pgid : Int)
  | ttyModes (modes : Termios)
  | ttyPgrp (pgid : Int)
  deriving DecidableEq

/-- What the kernel may decide in a system call. -/
inductive Choice where
  | ok
  | fail (e : Errno)
  | pick (n : Int)
  deriving DecidableEq

/-- The option bits of `waitpid`. -/
structure WaitOpts where
  nohang : Bool
  untraced : Bool
  continued : Bool
  deriving DecidableEq

/-- What `waitpid` returns: an error, 0 (nothing to report yet), or a pid with its wait status. -/
inductive WaitRes where
  | err (e : Errno)
  | nothing
  | report (pid : Int) (status : ℕ)
  deriving DecidableEq

/-- What a child in this state has to report. -/
def ChildState.report (opts : WaitOpts) : ChildState → Option Change
  | .running resumed => if opts.continued && resumed then some .continued else none
  | .stopped sig reported => if opts.untraced && !reported then some (.stopped sig) else none
  | .zombie t => some (.ended t)

/-- The child is named by `target`: by its pid when that is positive, by its group otherwise. -/
def Child.named (target : Int) (c : Child) : Bool :=
  if 0 < target then c.pid == target else c.pgid == -target

namespace Kernel

/-- The pids of the children that have not been collected. -/
def pids (k : Kernel) : List Int := k.children.map Child.pid

/-- Change the children that satisfy `p`. -/
def updateChildren (p : Child → Bool) (f : ChildState → ChildState) (k : Kernel) : Kernel :=
  { k with children := k.children.map fun c => if p c then { c with state := f c.state } else c }

/-- Move the child `pid` to the process group `pgid`. -/
def moveChild (pid pgid : Int) (k : Kernel) : Kernel :=
  { k with children := k.children.map fun c => if c.pid = pid then { c with pgid := pgid } else c }

@[simp] theorem updateChildren_pids (p : Child → Bool) (f : ChildState → ChildState) (k : Kernel) :
    (k.updateChildren p f).pids = k.pids := by
  unfold pids updateChildren
  rw [List.map_map]
  apply List.map_congr_left
  intro c _
  simp only [Function.comp]
  split <;> rfl

@[simp] theorem moveChild_pids (pid pgid : Int) (k : Kernel) : (k.moveChild pid pgid).pids = k.pids := by
  unfold pids moveChild
  rw [List.map_map]
  apply List.map_congr_left
  intro c _
  simp only [Function.comp]
  split <;> rfl

@[simp] theorem updateChildren_fds (p : Child → Bool) (f : ChildState → ChildState) (k : Kernel) :
    (k.updateChildren p f).fds = k.fds := rfl

@[simp] theorem moveChild_fds (pid pgid : Int) (k : Kernel) : (k.moveChild pid pgid).fds = k.fds := rfl

theorem mem_updateChildren {p : Child → Bool} {f : ChildState → ChildState} {k : Kernel} {c : Child} :
    c ∈ (k.updateChildren p f).children ↔
      ∃ c₀ ∈ k.children, c = if p c₀ then { c₀ with state := f c₀.state } else c₀ := by
  simp only [updateChildren, List.mem_map]
  exact ⟨fun ⟨c₀, h, e⟩ => ⟨c₀, h, e.symm⟩, fun ⟨c₀, h, e⟩ => ⟨c₀, h, e.symm⟩⟩

theorem mem_moveChild {pid pgid : Int} {k : Kernel} {c : Child} :
    c ∈ (k.moveChild pid pgid).children ↔
      ∃ c₀ ∈ k.children, c = if c₀.pid = pid then { c₀ with pgid := pgid } else c₀ := by
  simp only [moveChild, List.mem_map]
  exact ⟨fun ⟨c₀, h, e⟩ => ⟨c₀, h, e.symm⟩, fun ⟨c₀, h, e⟩ => ⟨c₀, h, e.symm⟩⟩

/-! ### The environment -/

/-- Something happens outside the shell. -/
def happen (k : Kernel) : Env → Kernel
  | .terminate pid t => k.updateChildren (fun c => c.pid = pid) (·.terminate t)
  | .stop pid sig => k.updateChildren (fun c => c.pid = pid) (·.stop sig)
  | .resume pid => k.updateChildren (fun c => c.pid = pid) (·.resume)
  | .regroup pid pgid => k.moveChild pid pgid
  | .ttyModes modes => { k with ttyModes := modes }
  | .ttyPgrp pgid => { k with ttyPgrp := pgid }

@[simp] theorem happen_pids (k : Kernel) (e : Env) : (k.happen e).pids = k.pids := by
  cases e <;> simp [happen] <;> rfl

@[simp] theorem happen_fds (k : Kernel) (e : Env) : (k.happen e).fds = k.fds := by
  cases e <;> rfl

/-! ### System calls on processes -/

/-- A pid that `fork` can return when it is free to choose: one above 1 that no child and no group uses. -/
def freshPid (k : Kernel) : Int :=
  k.children.foldr (fun c m => max (max c.pid c.pgid) m) (max 1 k.shellPgrp) + 1

theorem le_freshPid (k : Kernel) : ∀ p ∈ k.pids, p < k.freshPid := by
  have key : ∀ cs : List Child, ∀ p ∈ cs.map Child.pid,
      p ≤ cs.foldr (fun c m => max (max c.pid c.pgid) m) (max 1 k.shellPgrp) := by
    intro cs
    induction cs with
    | nil => simp
    | cons c cs ih =>
      intro p hp
      simp only [List.map_cons, List.mem_cons] at hp
      simp only [List.foldr_cons]
      rcases hp with rfl | hp
      · exact le_max_of_le_left (le_max_left _ _)
      · exact le_max_of_le_right (ih p hp)
  intro p hp
  have := key k.children p hp
  unfold freshPid
  omega

theorem one_lt_freshPid (k : Kernel) : 1 < k.freshPid := by
  have key : ∀ cs : List Child,
      1 ≤ cs.foldr (fun c m => max (max c.pid c.pgid) m) (max 1 k.shellPgrp) := by
    intro cs
    induction cs with
    | nil => exact le_max_left _ _
    | cons c cs ih => exact le_max_of_le_right ih
  have := key k.children
  unfold freshPid
  omega

/-- The pid a successful `fork` returns: a number above 1 that is no uncollected child's. -/
def forkPid (choice : Choice) (k : Kernel) : Int :=
  match choice with
  | .pick p => if 1 < p ∧ p ∉ k.pids then p else k.freshPid
  | _ => k.freshPid

theorem forkPid_spec (choice : Choice) (k : Kernel) :
    1 < k.forkPid choice ∧ k.forkPid choice ∉ k.pids := by
  have hfresh : 1 < k.freshPid ∧ k.freshPid ∉ k.pids :=
    ⟨k.one_lt_freshPid, fun h => by have := k.le_freshPid _ h; omega⟩
  unfold forkPid
  split
  · split
    · assumption
    · exact hfresh
  · exact hfresh

/-- `fork`, in the parent: -1, or the pid of a child that starts in the shell's process group. -/
def fork (choice : Choice) (k : Kernel) : Int × Kernel :=
  match choice with
  | .fail _ => (-1, k)
  | choice =>
    let pid := k.forkPid choice
    (pid, { k with children := k.children ++ [⟨pid, k.shellPgrp, .running false⟩] })

/-- `setpgid`, of a child. -/
def setpgid (pid pgid : Int) (choice : Choice) (k : Kernel) : Res × Kernel :=
  match choice with
  | .fail e => (.err e, k)
  | _ => (.ok, k.moveChild pid pgid)

/-- `kill`: the signal reaches the children `target` names.  When it names none of them the target may
still be some other process, and the call may fail. -/
def kill (target : Int) (sig : Sig) (choice : Choice) (k : Kernel) : Res × Kernel :=
  if k.children.any (Child.named target) then
    (.ok, k.updateChildren (Child.named target) (·.deliver sig))
  else
    match choice with
    | .fail e => (.err e, k)
    | _ => (.ok, k)

/-! ### `waitpid` -/

/-- The child `pid` has been reported: a zombie is gone, another change is not reported again. -/
def collect (pid : Int) (change : Change) (k : Kernel) : Kernel :=
  match change with
  | .ended _ => { k with children := k.children.filter fun c => c.pid ≠ pid }
  | .stopped sig => k.updateChildren (fun c => c.pid = pid) fun _ => .stopped sig true
  | .continued => k.updateChildren (fun c => c.pid = pid) fun _ => .running false

/-- The children named by `target` that have something to report under `opts`. -/
def ready (target : Int) (opts : WaitOpts) (k : Kernel) : List (Child × Change) :=
  k.children.filterMap fun c =>
    if c.named target then (c.state.report opts).map (c, ·) else none

/-- The report the kernel chooses among the ones that are ready. -/
def choose (choice : Choice) (l : List (Child × Change)) : Option (Child × Change) :=
  match choice with
  | .pick p => (l.find? fun x => x.1.pid == p).or l.head?
  | _ => l.head?

/-- One try of `waitpid`; `none` when there is a child to wait for and nothing to report. -/
def poll (target : Int) (opts : WaitOpts) (choice : Choice) (k : Kernel) :
    Option (WaitRes × Kernel) :=
  if choice = .fail .EINTR then some (.err .EINTR, k)
  else if k.children.any (Child.named target) then
    match choose choice (k.ready target opts) with
    | some (c, change) => some (.report c.pid change.status, k.collect c.pid change)
    | none => none
  else some (.err .ECHILD, k)

theorem mem_ready {target : Int} {opts : WaitOpts} {k : Kernel} {c : Child} {change : Change} :
    (c, change) ∈ k.ready target opts ↔
      c ∈ k.children ∧ c.named target = true ∧ c.state.report opts = some change := by
  simp only [ready, List.mem_filterMap]
  constructor
  · rintro ⟨c', hc', h⟩
    split at h
    · obtain ⟨ch, hch, heq⟩ := Option.map_eq_some_iff.mp h
      cases heq
      exact ⟨hc', by assumption, hch⟩
    · cases h
  · rintro ⟨hc, hn, hr⟩
    exact ⟨c, hc, by simp [hn, hr]⟩

theorem choose_mem {choice : Choice} {l : List (Child × Change)} {x : Child × Change}
    (h : choose choice l = some x) : x ∈ l := by
  unfold choose at h
  split at h
  · rcases Option.or_eq_some_iff.mp h with h | ⟨-, h⟩
    · exact List.mem_of_find?_eq_some h
    · exact List.mem_of_head? h
  · exact List.mem_of_head? h

theorem choose_none {choice : Choice} {l : List (Child × Change)} (h : choose choice l = none) :
    l = [] := by
  unfold choose at h
  split at h
  · exact List.head?_eq_none_iff.mp (Option.or_eq_none_iff.mp h).2
  · exact List.head?_eq_none_iff.mp h

/-- **What one try of `waitpid` can answer.** -/
theorem poll_cases {target : Int} {opts : WaitOpts} {choice : Choice} {k k' : Kernel} {r : WaitRes}
    (h : k.poll target opts choice = some (r, k')) :
    (choice = .fail .EINTR ∧ r = .err .EINTR ∧ k' = k) ∨
    ((∀ c ∈ k.children, c.named target = false) ∧ r = .err .ECHILD ∧ k' = k) ∨
    ∃ c change, c ∈ k.children ∧ c.named target = true ∧ c.state.report opts = some change ∧
      r = .report c.pid change.status ∧ k' = k.collect c.pid change := by
  unfold poll at h
  split at h
  · cases h
    exact Or.inl ⟨by assumption, rfl, rfl⟩
  · split at h
    · split at h
      · rename_i c change hch
        cases h
        obtain ⟨hc, hn, hr⟩ := mem_ready.mp (choose_mem hch)
        exact Or.inr (Or.inr ⟨c, change, hc, hn, hr, rfl, rfl⟩)
      · cases h
    · rename_i hany
      cases h
      refine Or.inr (Or.inl ⟨fun c hc => ?_, rfl, rfl⟩)
      simpa using fun hn => hany (List.any_eq_true.mpr ⟨c, hc, hn⟩)

/-- When `waitpid` has to wait there is a child it names, and none of those has anything to report. -/
theorem poll_none {target : Int} {opts : WaitOpts} {choice : Choice} {k : Kernel}
    (h : k.poll target opts choice = none) :
    choice ≠ .fail .EINTR ∧ (∃ c ∈ k.children, c.named target = true) ∧
      ∀ c ∈ k.children, c.named target = true → c.state.report opts = none := by
  unfold poll at h
  split at h
  · cases h
  · rename_i hE
    split at h
    · rename_i hany
      split at h
      · cases h
      · rename_i hch
        refine ⟨hE, List.any_eq_true.mp hany, fun c hc hn => ?_⟩
        by_contra hr
        obtain ⟨change, hr⟩ := Option.ne_none_iff_exists'.mp hr
        have : (c, change) ∈ k.ready target opts := mem_ready.mpr ⟨hc, hn, hr⟩
        rw [choose_none hch] at this
        simp at this
    · cases h

/-- Collecting a termination takes the pid away; collecting another change takes nothing away. -/
theorem collect_pids (pid : Int) (change : Change) (k : Kernel) :
    (k.collect pid change).pids =
      match change with
      | .ended _ => k.pids.filter (· ≠ pid)
      | _ => k.pids := by
  cases change with
  | ended t =>
    simp only [collect, pids]
    rw [List.filter_map]
    rfl
  | stopped sig => exact updateChildren_pids ..
  | continued => exact updateChildren_pids ..

@[simp] theorem collect_fds (pid : Int) (change : Change) (k : Kernel) :
    (k.collect pid change).fds = k.fds := by
  cases change <;> rfl

/-! ### System calls on descriptors -/

/-- `pipe`: two fresh descriptors, the read end first. -/
def pipe (choice : Choice) (k : Kernel) : Option (ℕ × ℕ) × Kernel :=
  match choice with
  | .fail _ => (none, k)
  | _ =>
    let r := k.fds.lowestFree 0
    let fds := (r, (⟨.pipeRead k.created, false⟩ : Fd)) :: k.fds
    let w := FdTable.lowestFree 0 fds
    (some (r, w), { k with
      fds := (w, ⟨.pipeWrite k.created, false⟩) :: fds
      created := k.created + 1 })

/-- `close`: on Linux the descriptor is gone whatever the call returns. -/
def close (fd : ℕ) (k : Kernel) : Kernel := { k with fds := k.fds.close fd }

/-- `fcntl(fd, F_SETFD, flags | FD_CLOEXEC)`. -/
def setCloexec (fd : ℕ) (choice : Choice) (k : Kernel) : Res × Kernel :=
  match choice with
  | .fail e => (.err e, k)
  | _ => (.ok, { k with fds := k.fds.update fd fun d => { d with cloexec := true } })

/-- `open`: the lowest free descriptor, for a new description. -/
def openFile (choice : Choice) (k : Kernel) : Option ℕ × Kernel :=
  match choice with
  | .fail _ => (none, k)
  | _ =>
    let fd := k.fds.lowestFree 0
    (some fd, { k with
      fds := (fd, ⟨.file k.created, false⟩) :: k.fds
      created := k.created + 1 })

/-- `fcntl(fd, F_DUPFD_CLOEXEC, 3)`; it fails on a descriptor that is not open. -/
def dupfd (fd : ℕ) (choice : Choice) (k : Kernel) : Option ℕ × Kernel :=
  match choice, k.fds.find fd with
  | .fail _, _ => (none, k)
  | _, none => (none, k)
  | _, some d =>
    let new := k.fds.lowestFree 3
    (some new, { k with fds := (new, ⟨d.desc, true⟩) :: k.fds })

/-- `dup2(old, new)`; it fails on a descriptor that is not open. -/
def dup2 (old new : ℕ) (choice : Choice) (k : Kernel) : Res × Kernel :=
  match choice, k.fds.find old with
  | .fail e, _ => (.err e, k)
  | _, none => (.err .other, k)
  | _, some d =>
    if old = new then (.ok, k)
    else (.ok, { k with fds := (new, ⟨d.desc, false⟩) :: k.fds.close new })

end Kernel

end MiniShell
