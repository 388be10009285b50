import Mathlib.Tactic

/-!
# Wait statuses

The 16-bit numbers `waitpid` stores in its status argument, and the macros that take them apart.
-/

namespace MiniShell

/-- A signal number, as a wait status can carry it. -/
structure Sig where
  num : ℕ
  pos : 0 < num
  lt : num < 127
  deriving DecidableEq

def SIGINT : Sig := ⟨2, by decide, by decide⟩
def SIGQUIT : Sig := ⟨3, by decide, by decide⟩
def SIGKILL : Sig := ⟨9, by decide, by decide⟩
def SIGTERM : Sig := ⟨15, by decide, by decide⟩
def SIGCONT : Sig := ⟨18, by decide, by decide⟩
def SIGTSTP : Sig := ⟨20, by decide, by decide⟩
def SIGTTIN : Sig := ⟨21, by decide, by decide⟩

/-- There are 256 exit codes. -/
instance exitCodes_neZero : NeZero 256 := ⟨by decide⟩

/-- How a process terminates. -/
inductive Termination where
  | exited (code : Fin 256)
  | signaled (sig : Sig) (core : Bool)
  deriving DecidableEq

/-- A change of state that `waitpid` can report. -/
inductive Change where
  | ended (t : Termination)
  | stopped (sig : Sig)
  | continued
  deriving DecidableEq

namespace Termination

/-- The wait status of a termination. -/
def status : Termination → ℕ
  | exited code => code * 256
  | signaled sig core => sig.num + if core then 128 else 0

/-- The exit status a shell gives a terminated command: its exit code, or 128 plus the signal. -/
def exitStatus : Termination → Int
  | exited code => code
  | signaled sig _ => 128 + sig.num

end Termination

/-- The wait status of a change. -/
def Change.status : Change → ℕ
  | .ended t => t.status
  | .stopped sig => sig.num * 256 + 127
  | .continued => 65535

/-! ### The macros -/

def WTERMSIG (status : ℕ) : ℕ := status % 128
def WEXITSTATUS (status : ℕ) : ℕ := status / 256 % 256
def WIFEXITED (status : ℕ) : Bool := WTERMSIG status == 0
/-- In C, `((signed char)((status & 0x7f) + 1) >> 1) > 0`: the value 127 is not a signal. -/
def WIFSIGNALED (status : ℕ) : Bool := 0 < WTERMSIG status && WTERMSIG status < 127
def WIFSTOPPED (status : ℕ) : Bool := status % 256 == 127
def WIFCONTINUED (status : ℕ) : Bool := status == 65535

/-- A termination is seen as one, by exactly one of the two macros. -/
@[simp] theorem ended_macros (t : Termination) :
    (WIFEXITED t.status || WIFSIGNALED t.status) = true := by
  cases t with
  | exited code =>
    have := code.isLt
    simp [Termination.status, WIFEXITED, WTERMSIG]
    omega
  | signaled sig core =>
    have := sig.pos
    have := sig.lt
    cases core <;> simp [Termination.status, WIFEXITED, WIFSIGNALED, WTERMSIG] <;> omega

@[simp] theorem stopped_macros (sig : Sig) :
    WIFEXITED (Change.stopped sig).status = false ∧ WIFSIGNALED (Change.stopped sig).status = false ∧
      WIFSTOPPED (Change.stopped sig).status = true := by
  have h : WTERMSIG (Change.stopped sig).status = 127 := by
    simp only [Change.status, WTERMSIG]
    omega
  have h' : (Change.stopped sig).status % 256 = 127 := by
    simp only [Change.status]
    omega
  simp [WIFEXITED, WIFSIGNALED, WIFSTOPPED, h, h']

@[simp] theorem continued_macros :
    WIFEXITED Change.continued.status = false ∧ WIFSIGNALED Change.continued.status = false ∧
      WIFSTOPPED Change.continued.status = false ∧ WIFCONTINUED Change.continued.status = true := by
  decide

/-- The macros give back the exit status of a termination. -/
theorem exitStatus_macros (t : Termination) :
    (if WIFEXITED t.status then (WEXITSTATUS t.status : Int) else 128 + WTERMSIG t.status) =
      t.exitStatus := by
  cases t with
  | exited code =>
    have hc := code.isLt
    have h0 : WIFEXITED (Termination.exited code).status = true := by
      simp [Termination.status, WIFEXITED, WTERMSIG]; omega
    have h1 : WEXITSTATUS (Termination.exited code).status = code := by
      simp [Termination.status, WEXITSTATUS, Nat.mod_eq_of_lt hc]
    simp [h0, h1, Termination.exitStatus]
  | signaled sig core =>
    have := sig.pos
    have := sig.lt
    have h0 : WTERMSIG (Termination.signaled sig core).status = sig.num := by
      cases core <;> simp [Termination.status, WTERMSIG] <;> omega
    have h1 : WIFEXITED (Termination.signaled sig core).status = false := by
      simp [WIFEXITED, h0]; omega
    simp [h0, h1, Termination.exitStatus]

end MiniShell
