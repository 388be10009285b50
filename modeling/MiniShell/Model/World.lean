import MiniShell.Lib.Prog
import MiniShell.Model.Table

/-!
# The world of the shell, and its system calls

A `World` is the kernel together with the shell's own variables.  What the environment does is decided
by the `script`: a list of events outside the shell (`env`) and of the kernel's decisions in system
calls (`res`).  A system call first lets the events happen that stand before the next decision, and
then takes that decision; a script that has run out means that nothing more happens and that every
call succeeds.  A `waitpid` that has to wait goes on reading the script, and blocks for ever when it
ends first.  So every script is a possible environment, and a statement about every script is a
statement about every behaviour of the children and every failure of the calls.

The `log` records, in order, what happened outside and every system call with its result, the kernel
at that moment and the job table at that moment.
-/

namespace MiniShell

open MiniShell.Lib

/-- An item of the environment's script. -/
inductive Item where
  | env (e : Env)
  | res (c : Choice)
  deriving DecidableEq

/-- What `malloc` is called for. -/
inductive Alloc where
  | job (pgid : Int)
  | process (pid : Int)
  deriving DecidableEq

/-- The flags the shell opens files with: `O_RDONLY`, `O_WRONLY | O_CREAT | O_TRUNC` and `O_WRONLY | O_CREAT |
O_APPEND`; the mode 0644 is part of the two that create. -/
inductive OpenFlags where
  | readOnly | createTruncate | createAppend
  deriving DecidableEq

/-- The system calls of the shell, with their results.  A `waitpid` is recorded when it is made and again
when it is answered; `nothing` as the answer of a blocking one means that it waits for ever. -/
inductive Call where
  | pipe (ends : Option (ℕ × ℕ))
  | close (fd : ℕ)
  | setCloexec (fd : ℕ) (r : Res)
  | open_ (path : Bytes) (flags : OpenFlags) (fd : Option ℕ)
  | dupfd (fd : ℕ) (new : Option ℕ)
  | dup2 (old new : ℕ) (r : Res)
  | fflush (r : Res)
  | fork (pid : Int)
  | setpgid (pid pgid : Int) (r : Res)
  | kill (target : Int) (sig : Sig) (r : Res)
  | waitpid (target : Int) (opts : WaitOpts)
  | waited (target : Int) (opts : WaitOpts) (r : WaitRes)
  | malloc (what : Alloc) (r : Res)
  | tcsetpgrp (pgid : Int) (r : Res)
  | tcgetattr (r : Res)
  | tcsetattr (modes : Termios) (r : Res)
  | writeGate (fd : ℕ) (r : Res)
  | nanosleep
  | service (n : Int)
  deriving DecidableEq

/-- An entry of the log. -/
inductive Event where
  | env (e : Env)
  | call (c : Call) (kernel : Kernel) (jobs : List Job)
  deriving DecidableEq

structure World where
  kernel : Kernel
  ctx : ShellContext
  term : Terminal
  script : List Item
  log : List Event
  deriving DecidableEq

/-- Programs of the shell. -/
abbrev Sh (α : Type) : Type := Prog World α

/-- The jobs of the table, newest first. -/
def World.jobs (w : World) : List Job := w.ctx.jobs.head

/-- Change the table. -/
def World.updateManager (f : JobManager → JobManager) (w : World) : World :=
  { w with ctx := { w.ctx with jobs := f w.ctx.jobs } }

/-- Replace the list of jobs. -/
def World.setJobs (jobs : List Job) (w : World) : World :=
  w.updateManager fun manager => { manager with head := jobs }

/-- Change the job a pointer points to; a pointer into the table is a position in the list. -/
def World.updateJob (i : ℕ) (f : Job → Job) (w : World) : World :=
  w.setJobs (w.jobs.modify i f)

/-- The environment's events in a piece of the script. -/
def envs : List Item → List Env
  | [] => []
  | .env e :: s => e :: envs s
  | .res _ :: s => envs s

namespace World

/-- The world after the piece `used` of the script, with `rest` still to come. -/
def drift (used rest : List Item) (w : World) : World :=
  { w with
    kernel := (envs used).foldl Kernel.happen w.kernel
    script := rest
    log := w.log ++ (envs used).map Event.env }

/-- Record a system call. -/
def record (c : Call) (w : World) : World :=
  { w with log := w.log ++ [.call c w.kernel w.ctx.jobs.head] }

@[simp] theorem drift_ctx (used rest : List Item) (w : World) : (w.drift used rest).ctx = w.ctx := rfl
@[simp] theorem drift_term (used rest : List Item) (w : World) : (w.drift used rest).term = w.term := rfl
@[simp] theorem drift_script (used rest : List Item) (w : World) :
    (w.drift used rest).script = rest := rfl
@[simp] theorem record_ctx (c : Call) (w : World) : (w.record c).ctx = w.ctx := rfl
@[simp] theorem record_term (c : Call) (w : World) : (w.record c).term = w.term := rfl
@[simp] theorem record_kernel (c : Call) (w : World) : (w.record c).kernel = w.kernel := rfl
@[simp] theorem record_script (c : Call) (w : World) : (w.record c).script = w.script := rfl

theorem foldl_happen_pids (es : List Env) (k : Kernel) : (es.foldl Kernel.happen k).pids = k.pids := by
  induction es generalizing k with
  | nil => rfl
  | cons e es ih => simp [ih]

theorem foldl_happen_fds (es : List Env) (k : Kernel) : (es.foldl Kernel.happen k).fds = k.fds := by
  induction es generalizing k with
  | nil => rfl
  | cons e es ih => simp [ih]

@[simp] theorem drift_pids (used rest : List Item) (w : World) :
    (w.drift used rest).kernel.pids = w.kernel.pids := foldl_happen_pids ..

@[simp] theorem drift_fds (used rest : List Item) (w : World) :
    (w.drift used rest).kernel.fds = w.kernel.fds := foldl_happen_fds ..

end World

/-! ### The script -/

/-- The next decision of the script, after the events that stand before it. -/
def nextChoice : List Item → List Item × Choice × List Item
  | [] => ([], .ok, [])
  | .env e :: s => let (used, c, rest) := nextChoice s; (.env e :: used, c, rest)
  | .res c :: s => ([.res c], c, s)

theorem nextChoice_append (s : List Item) : (nextChoice s).1 ++ (nextChoice s).2.2 = s := by
  induction s with
  | nil => rfl
  | cons x s ih =>
    cases x with
    | env e => simp only [nextChoice, List.cons_append, ih]
    | res c => rfl

/-- A decision other than success stands in the script, so taking it uses the script up. -/
theorem nextChoice_used {s : List Item} (h : (nextChoice s).2.1 ≠ .ok) : (nextChoice s).1 ≠ [] := by
  cases s with
  | nil => simp [nextChoice] at h
  | cons x s => cases x <;> simp [nextChoice]

theorem nextChoice_nil {s : List Item} (h : (nextChoice s).1 = []) : s = [] := by
  cases s with
  | nil => rfl
  | cons x s => cases x <;> simp [nextChoice] at h

/-! ### System calls that do not wait -/

/-- A system call whose effect on the kernel is `f`, recorded as `call`. -/
def syscall {ρ : Type} (f : Choice → Kernel → ρ × Kernel) (call : ρ → Call) : Sh ρ := fun w =>
  let (used, c, rest) := nextChoice w.script
  let w₁ := w.drift used rest
  let (r, k) := f c w₁.kernel
  .done r { w₁.record (call r) with kernel := k }

/-- What a script may hold for one system call: `used` is consumed, `c` is decided, `rest` is left. -/
structure Turn (script used : List Item) (c : Choice) (rest : List Item) : Prop where
  split : script = used ++ rest
  cause : c ≠ .ok → used ≠ []
  spent : used = [] → script = []

theorem nextChoice_turn (s : List Item) :
    Turn s (nextChoice s).1 (nextChoice s).2.1 (nextChoice s).2.2 :=
  ⟨(nextChoice_append s).symm, nextChoice_used, nextChoice_nil⟩

theorem Turn.length_le {script used rest : List Item} {c : Choice} (h : Turn script used c rest) :
    rest.length ≤ script.length := by
  rw [h.split, List.length_append]
  omega

/-- A call that fails has used up a piece of the script. -/
theorem Turn.length_lt {script used rest : List Item} {c : Choice} (h : Turn script used c rest)
    (hc : c ≠ .ok) : rest.length < script.length := by
  have := List.length_pos_iff.mpr (h.cause hc)
  rw [h.split, List.length_append]
  omega

/-- **The rule of a system call.** -/
theorem wp_syscall {ρ : Type} {f : Choice → Kernel → ρ × Kernel} {call : ρ → Call}
    {Q : ρ → World → Prop} {R : World → Prop} {w : World}
    (h : ∀ used c rest, Turn w.script used c rest →
      Q (f c (w.drift used rest).kernel).1
        { (w.drift used rest).record (call (f c (w.drift used rest).kernel).1) with
          kernel := (f c (w.drift used rest).kernel).2 }) :
    Prog.wp (syscall f call) Q R w :=
  h _ _ _ (nextChoice_turn w.script)

/-- The rule of a system call when it matters which piece of the script it reads. -/
theorem wp_syscall_next {ρ : Type} {f : Choice → Kernel → ρ × Kernel} {call : ρ → Call}
    {Q : ρ → World → Prop} {R : World → Prop} {w : World} {used rest : List Item} {c : Choice}
    (hnext : nextChoice w.script = (used, c, rest))
    (h : Q (f c (w.drift used rest).kernel).1
      { (w.drift used rest).record (call (f c (w.drift used rest).kernel).1) with
        kernel := (f c (w.drift used rest).kernel).2 }) :
    Prog.wp (syscall f call) Q R w := by
  unfold Prog.wp syscall
  rw [hnext]
  exact h

/-- A result that does not change the kernel: 0, or the error the script names. -/
def plainRes (c : Choice) : Res :=
  match c with
  | .fail e => .err e
  | _ => .ok

def pipe : Sh (Option (ℕ × ℕ)) := syscall Kernel.pipe .pipe

def close (fd : ℕ) : Sh Unit := fun w =>
  .done () { w.record (.close fd) with kernel := w.kernel.close fd }

def setCloexec (fd : ℕ) : Sh Res := syscall (Kernel.setCloexec fd) (.setCloexec fd)

def openFile (path : Bytes) (flags : OpenFlags) : Sh (Option ℕ) :=
  syscall Kernel.openFile (.open_ path flags)

def dupfd (fd : ℕ) : Sh (Option ℕ) := syscall (Kernel.dupfd fd) (.dupfd fd)

def dup2 (old new : ℕ) : Sh Res := syscall (Kernel.dup2 old new) (.dup2 old new)

def fflush : Sh Res := syscall (fun c k => (plainRes c, k)) .fflush

def fork : Sh Int := syscall Kernel.fork .fork

def setpgid (pid pgid : Int) : Sh Res := syscall (Kernel.setpgid pid pgid) (.setpgid pid pgid)

def kill (target : Int) (sig : Sig) : Sh Res := syscall (Kernel.kill target sig) (.kill target sig)

def malloc (what : Alloc) : Sh Res := syscall (fun c k => (plainRes c, k)) (.malloc what)

def nanosleep : Sh Unit := syscall (fun _ k => ((), k)) fun _ => .nanosleep

/-- `write(fd, "G", 1)`: 1 byte is written, or it is not. -/
def writeGate (fd : ℕ) : Sh Res := syscall (fun c k => (plainRes c, k)) (.writeGate fd)

def tcsetpgrp (pgid : Int) : Sh Res :=
  syscall (fun c k => match c with
    | .fail e => (.err e, k)
    | _ => (.ok, { k with ttyPgrp := pgid })) (.tcsetpgrp pgid)

/-- `tcgetattr`: the modes of the terminal when it succeeds. -/
def tcgetattr : Sh (Option Termios × Res) :=
  syscall (fun c k => match c with
    | .fail e => ((none, .err e), k)
    | _ => ((some k.ttyModes, .ok), k)) (fun r => .tcgetattr r.2)

def tcsetattr (modes : Termios) : Sh Res :=
  syscall (fun c k => match c with
    | .fail e => (.err e, k)
    | _ => (.ok, { k with ttyModes := modes })) (.tcsetattr modes)

/-! ### `waitpid` -/

/-- A blocking `waitpid` on what is left of the script: it answers at a decision at which the kernel has
an answer, and at the end of the script at the latest. -/
def waitLoop (target : Int) (opts : WaitOpts) : List Item → World → Outcome World WaitRes
  | [], w =>
    match w.kernel.poll target opts .ok with
    | some (r, k) => .done r { w.record (.waited target opts r) with kernel := k, script := [] }
    | none => .blocked { w.record (.waited target opts .nothing) with script := [] }
  | .env e :: s, w => waitLoop target opts s (w.drift [.env e] s)
  | .res c :: s, w =>
    match w.kernel.poll target opts c with
    | some (r, k) => .done r { w.record (.waited target opts r) with kernel := k, script := s }
    | none => waitLoop target opts s w

/-- `waitpid` with `WNOHANG`: one try. -/
def waitNohang (target : Int) (opts : WaitOpts) : Sh WaitRes :=
  syscall (fun c k => (k.poll target opts c).getD (.nothing, k)) (.waited target opts)

/-- `waitpid` without `WNOHANG`. -/
def waitBlocking (target : Int) (opts : WaitOpts) : Sh WaitRes := fun w =>
  waitLoop target opts w.script w

def waitpid (target : Int) (opts : WaitOpts) : Sh WaitRes := do
  Prog.modify (World.record (.waitpid target opts))
  if opts.nohang then waitNohang target opts else waitBlocking target opts

/-- The answers of a blocking `waitpid`: at some point of the script the kernel has one, or the script
ends and there is none. -/
theorem waitLoop_cases (target : Int) (opts : WaitOpts) (s : List Item) (w : World) :
    (∃ used c rest r k, Turn s used c rest ∧
      (w.drift used rest).kernel.poll target opts c = some (r, k) ∧
      waitLoop target opts s w =
        .done r { (w.drift used rest).record (.waited target opts r) with kernel := k }) ∨
    ((w.drift s []).kernel.poll target opts .ok = none ∧
      waitLoop target opts s w =
        .blocked ((w.drift s []).record (.waited target opts .nothing))) := by
  induction s generalizing w with
  | nil =>
    unfold waitLoop
    cases hp : w.kernel.poll target opts .ok with
    | some x =>
      refine Or.inl ⟨[], .ok, [], x.1, x.2, ⟨rfl, by simp, by simp⟩, hp, ?_⟩
      simp [World.drift, World.record, envs]
    | none =>
      refine Or.inr ⟨hp, ?_⟩
      simp [World.drift, World.record, envs]
  | cons x s ih =>
    cases x with
    | env e =>
      unfold waitLoop
      rcases ih (w.drift [.env e] s) with ⟨used, c, rest, r, k, ht, hp, hw⟩ | ⟨hp, hw⟩
      · refine Or.inl ⟨.env e :: used, c, rest, r, k, ⟨by simp [ht.split], by simp, by simp⟩, ?_, ?_⟩
        · simpa [World.drift, envs] using hp
        · rw [hw]
          simp [World.drift, World.record, envs]
      · refine Or.inr ⟨by simpa [World.drift, envs] using hp, ?_⟩
        rw [hw]
        simp [World.drift, World.record, envs]
    | res c =>
      unfold waitLoop
      cases hp : w.kernel.poll target opts c with
      | some x =>
        refine Or.inl ⟨[.res c], c, s, x.1, x.2, ⟨rfl, by simp, by simp⟩, hp, ?_⟩
        simp [World.drift, World.record, envs]
      | none =>
        -- the kernel has no answer at this decision, and the call waits on
        rcases ih w with ⟨used, c', rest, r, k, ht, hp', hw⟩ | ⟨hp', hw⟩
        · exact Or.inl ⟨.res c :: used, c', rest, r, k, ⟨by simp [ht.split], by simp, by simp⟩,
            hp', hw⟩
        · exact Or.inr ⟨hp', hw⟩

/-- **The rule of a blocking `waitpid`.** -/
theorem wp_waitpid {target : Int} {opts : WaitOpts} (hopts : opts.nohang = false)
    {Q : WaitRes → World → Prop} {R : World → Prop} {w : World}
    (hdone : ∀ used c rest r k, Turn w.script used c rest →
      ((w.record (.waitpid target opts)).drift used rest).kernel.poll target opts c = some (r, k) →
      Q r { ((w.record (.waitpid target opts)).drift used rest).record (.waited target opts r) with
        kernel := k })
    (hblock : ((w.record (.waitpid target opts)).drift w.script []).kernel.poll target opts .ok = none →
      R (((w.record (.waitpid target opts)).drift w.script []).record (.waited target opts .nothing))) :
    Prog.wp (waitpid target opts) Q R w := by
  unfold waitpid
  rw [Prog.wp_bind, Prog.wp_modify, hopts, if_neg (by decide)]
  unfold Prog.wp waitBlocking
  rcases waitLoop_cases target opts w.script (w.record (.waitpid target opts)) with
    ⟨used, c, rest, r, k, ht, hp, hw⟩ | ⟨hp, hw⟩
  · simp only [World.record_script, hw]
    exact hdone used c rest r k ht hp
  · simp only [World.record_script, hw]
    exact hblock hp

/-- **The rule of `waitpid` with `WNOHANG`.** -/
theorem wp_waitpid_nohang {target : Int} {opts : WaitOpts} (hopts : opts.nohang = true)
    {Q : WaitRes → World → Prop} {R : World → Prop} {w : World}
    (hdone : ∀ used c rest r k, Turn w.script used c rest →
      (((w.record (.waitpid target opts)).drift used rest).kernel.poll target opts c = some (r, k) ∨
        ((w.record (.waitpid target opts)).drift used rest).kernel.poll target opts c = none ∧
          r = .nothing ∧ k = ((w.record (.waitpid target opts)).drift used rest).kernel) →
      Q r { ((w.record (.waitpid target opts)).drift used rest).record (.waited target opts r) with
        kernel := k }) :
    Prog.wp (waitpid target opts) Q R w := by
  unfold waitpid
  rw [Prog.wp_bind, Prog.wp_modify, if_pos hopts]
  refine wp_syscall fun used c rest ht => hdone used c rest _ _ ht ?_
  cases hp : ((w.record (.waitpid target opts)).drift used rest).kernel.poll target opts c with
  | some x => exact Or.inl rfl
  | none => exact Or.inr ⟨rfl, rfl, rfl⟩

/-! ### Retrying after `EINTR` -/

/-- `while (call < 0) if (errno == EINTR) continue; ...`: repeat an interrupted call.  The measure bounds how often. -/
def retryWith {σ : Type} (μ : σ → ℕ) (call : Prog σ Res) : Prog σ Res :=
  Prog.loop μ (fun () => do
    match ← call with
    | .err .EINTR => pure (.inl ())
    | r => pure (.inr r)) ()

def retry (call : Sh Res) : Sh Res := retryWith (fun w => w.script.length) call

/-- The rule of `retry`: an invariant that interrupted calls keep. -/
theorem wp_retry {call : Sh Res} {Q : Res → World → Prop} {R : World → Prop} (I : World → Prop)
    (hc : ∀ w, I w → Prog.wp call (fun r w' =>
      (r = .err .EINTR → I w' ∧ w'.script.length < w.script.length) ∧
      (r ≠ .err .EINTR → Q r w')) R w) {w : World} (hI : I w) :
    Prog.wp (retry call) Q R w := by
  unfold retry retryWith
  refine Prog.wp_loop (fun _ => I) ?_ () w hI
  intro _ w hI
  rw [Prog.wp_bind]
  refine Prog.wp_mono (hc w hI) ?_ (fun _ h => h)
  intro r w' h
  split
  · exact h.1 rfl
  · rename_i hr
    exact h.2 hr

end MiniShell
