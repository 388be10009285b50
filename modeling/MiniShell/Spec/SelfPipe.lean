import MiniShell.Lib.Trace
import MiniShell.Model.Event

/-!
# The event pipe loses no signal

A pending event keeps the event pipe readable until the loop has drained it and is on its way to
`signal_take_events`; a signal that has not been answered is still in the handler, pending, or in the hands of the
loop.  Together: when the loop would block with an empty pipe, nothing is left to be answered.
-/

namespace MiniShell

open MiniShell.Lib

/-- What answers a signal: a `job_reap` that starts, a reset of the input. -/
def Handles : EventSig → ShellAct → Prop
  | .chld, a => a = .loop .reap
  | .int, a => a = .loop .reset

/-- The loop has taken the event of the signal, and has not got to it yet. -/
def LoopPc.holds : LoopPc → EventSig → Bool
  | .child events _, sig => events.has sig
  | .reaping events _, .int => events.interrupt
  | .interrupt events _, .int => events.interrupt
  | _, _ => false

/-- The loop will look at the pending events before it waits again, or it has been left. -/
def LoopPc.willTake : LoopPc → Bool
  | .drain _ | .take _ | .left => true
  | _ => false

/-- The loop is not left while it holds an event. -/
theorem LoopPc.holds_of_mayLeave {pc : LoopPc} (h : pc.mayLeave = true) (sig : EventSig) :
    pc.holds sig = false := by
  cases pc with
  | child | reaping | interrupt => cases h
  | _ => cases sig <;> rfl

section Steps

variable {cap : ℕ} {s s' : SelfPipe}

-- every lemma on a step rewrites with these equations
attribute [local simp] loopStep shellStep

/-- The loop has moved on by `a`: it holds what it held, unless `a` handles it. -/
def MovesOn (s : SelfPipe) (a : LoopAct) (s' : SelfPipe) : Prop :=
  ∃ pc, s' = { s with pc := pc } ∧ (s.pc.willTake = true → pc.willTake = true) ∧
    ∀ sig, s.pc.holds sig = true → pc.holds sig = true ∨ Handles sig (.loop a)

/-- Where the loop holds nothing there is nothing to lose. -/
theorem movesOn_empty {a : LoopAct} {pc : LoopPc} (ht : s.pc.willTake = false)
    (hh : ∀ sig, s.pc.holds sig = false) (h : some { s with pc := pc } = some s') : MovesOn s a s' := by
  refine ⟨pc, (Option.some.inj h).symm, fun h => absurd (ht ▸ h) (by simp), fun sig h => ?_⟩
  exact absurd (hh sig ▸ h) (by simp)

theorem loopStep_reap (h : loopStep s .reap = some s') : MovesOn s .reap s' := by
  obtain ⟨pending, pipe, handler, pc⟩ := s
  cases pc <;> simp only [loopStep, reduceCtorEq] at h
  split at h
  · obtain rfl := Option.some.inj h
    refine ⟨_, rfl, (fun hw => by cases hw), fun sig hs => ?_⟩
    cases sig with
    | chld => exact Or.inr rfl
    | int => exact Or.inl hs
  · cases h

theorem loopStep_reaped (h : loopStep s .reaped = some s') : MovesOn s .reaped s' := by
  obtain ⟨pending, pipe, handler, pc⟩ := s
  cases pc <;> simp only [loopStep, reduceCtorEq] at h
  obtain rfl := Option.some.inj h
  refine ⟨_, rfl, (fun hw => by cases hw), fun sig hs => Or.inl ?_⟩
  cases sig with
  | chld => cases hs
  | int => exact hs

theorem loopStep_noChild (h : loopStep s .noChild = some s') : MovesOn s .noChild s' := by
  obtain ⟨pending, pipe, handler, pc⟩ := s
  cases pc <;> simp only [loopStep, reduceCtorEq] at h
  split at h
  · cases h
  · next hc =>
    obtain rfl := Option.some.inj h
    refine ⟨_, rfl, (fun hw => by cases hw), fun sig hs => Or.inl ?_⟩
    cases sig with
    | chld => exact absurd hs hc
    | int => exact hs

theorem loopStep_reset (h : loopStep s .reset = some s') : MovesOn s .reset s' := by
  obtain ⟨pending, pipe, handler, pc⟩ := s
  cases pc <;> simp only [loopStep, reduceCtorEq] at h
  split at h
  · obtain rfl := Option.some.inj h
    refine ⟨_, rfl, (fun hw => by cases hw), fun sig hs => Or.inr ?_⟩
    cases sig with
    | chld => cases hs
    | int => rfl
  · cases h

theorem loopStep_noInterrupt (h : loopStep s .noInterrupt = some s') : MovesOn s .noInterrupt s' := by
  obtain ⟨pending, pipe, handler, pc⟩ := s
  cases pc <;> simp only [loopStep, reduceCtorEq] at h
  split at h
  · cases h
  · next hc =>
    obtain rfl := Option.some.inj h
    refine ⟨_, rfl, (fun hw => by cases hw), fun sig hs => ?_⟩
    cases sig with
    | chld => cases hs
    | int => exact absurd hs hc

theorem loopStep_leave (h : loopStep s .leave = some s') : MovesOn s .leave s' := by
  obtain ⟨pending, pipe, handler, pc⟩ := s
  simp only [loopStep] at h
  split at h
  · next hl =>
    obtain rfl := Option.some.inj h
    refine ⟨_, rfl, fun _ => rfl, fun sig hs => ?_⟩
    exact absurd (LoopPc.holds_of_mayLeave hl sig ▸ hs) (by simp)
  · cases h

/-- What a step of the loop can do: take the events, read from the pipe, or move on, keeping what it holds. -/
theorem loopStep_cases {a : LoopAct} (h : loopStep s a = some s') :
    (∃ input, s.pc = .take input ∧ a = .takeEvents s.pending ∧
      s' = { s with pending := .none, pc := .child s.pending input }) ∨
    (∃ input n, s.pc = .drain input ∧ s' = { s with pipe := n }) ∨ MovesOn s a s' := by
  obtain ⟨pending, pipe, handler, pc⟩ := s
  cases a with
  | reap => exact Or.inr (Or.inr (loopStep_reap h))
  | reaped => exact Or.inr (Or.inr (loopStep_reaped h))
  | noChild => exact Or.inr (Or.inr (loopStep_noChild h))
  | reset => exact Or.inr (Or.inr (loopStep_reset h))
  | noInterrupt => exact Or.inr (Or.inr (loopStep_noInterrupt h))
  | leave => exact Or.inr (Or.inr (loopStep_leave h))
  | read =>
    cases pc <;> simp only [loopStep, reduceCtorEq] at h
    split at h
    · exact Or.inr (Or.inl ⟨_, _, rfl, (Option.some.inj h).symm⟩)
    · cases h
  | readAgain =>
    cases pc <;> simp only [loopStep, reduceCtorEq] at h
    exact Or.inr (Or.inl ⟨_, pipe, rfl, (Option.some.inj h).symm⟩)
  | drained =>
    cases pc <;> simp only [loopStep, reduceCtorEq] at h
    split at h
    · obtain rfl := Option.some.inj h
      exact Or.inr (Or.inr ⟨_, rfl, fun _ => rfl, fun sig hs => by cases sig <;> cases hs⟩)
    · cases h
  | takeEvents events =>
    cases pc <;> simp only [loopStep, reduceCtorEq] at h
    split at h
    · next he =>
      obtain rfl : events = pending := he
      exact Or.inl ⟨_, rfl, rfl, (Option.some.inj h).symm⟩
    · cases h
  | ready event input =>
    cases pc <;> simp only [loopStep, reduceCtorEq] at h
    split at h
    · exact Or.inr (Or.inr (movesOn_empty rfl (fun sig => by cases sig <;> rfl) h))
    · cases h
  | prompt | interrupted | newline | inputRead =>
    cases pc <;> simp only [loopStep, reduceCtorEq] at h
    exact Or.inr (Or.inr (movesOn_empty rfl (fun sig => by cases sig <;> rfl) h))
  | readInput | noInput =>
    rcases pc with _ | _ | _ | _ | _ | _ | _ | _ | (_ | _) | _ | _ <;> simp only [loopStep, reduceCtorEq] at h
    exact Or.inr (Or.inr (movesOn_empty rfl (fun sig => by cases sig <;> rfl) h))

/-- What a step of the shell can do: one of the three steps of the handler, or a step of the loop. -/
theorem shellStep_cases {a : ShellAct} (h : shellStep cap s a = some s') :
    (∃ sig, a = .signal sig ∧ s.handler = .idle ∧ s' = { s with handler := .entered sig }) ∨
    (∃ sig, a = .setPending ∧ s.handler = .entered sig ∧
      s' = { s with pending := s.pending.add sig, handler := .notifying }) ∨
    (a = .notify ∧ s.handler = .notifying ∧
      s' = { s with pipe := if s.pipe < cap then s.pipe + 1 else s.pipe, handler := .idle }) ∨
    (a = .notifyAgain ∧ s' = s) ∨
    (∃ b, a = .loop b ∧ s.handler = .idle ∧ loopStep s b = some s') := by
  obtain ⟨pending, pipe, handler, pc⟩ := s
  cases a with
  | signal sig =>
    cases handler <;> simp only [shellStep, reduceCtorEq] at h
    exact Or.inl ⟨sig, rfl, rfl, (Option.some.inj h).symm⟩
  | setPending =>
    cases handler <;> simp only [shellStep, reduceCtorEq] at h
    exact Or.inr (Or.inl ⟨_, rfl, rfl, (Option.some.inj h).symm⟩)
  | notify =>
    cases handler <;> simp only [shellStep, reduceCtorEq] at h
    exact Or.inr (Or.inr (Or.inl ⟨rfl, rfl, (Option.some.inj h).symm⟩))
  | notifyAgain =>
    cases handler <;> simp only [shellStep, reduceCtorEq] at h
    exact Or.inr (Or.inr (Or.inr (Or.inl ⟨rfl, (Option.some.inj h).symm⟩)))
  | loop b =>
    cases handler <;> simp only [shellStep, reduceCtorEq] at h
    exact Or.inr (Or.inr (Or.inr (Or.inr ⟨b, rfl, rfl, h⟩)))

end Steps

/-! ### The invariants -/

/-- A pending event will be looked at: the pipe is readable, the loop is on its way to take it, or the handler is
about to write. -/
def SelfPipe.Awake (s : SelfPipe) : Prop :=
  s.pending ≠ .none → 0 < s.pipe ∨ s.pc.willTake = true ∨ s.handler = .notifying

/-- A signal that has not been answered is in the handler, pending, or in the hands of the loop. -/
def SelfPipe.Holds (s : SelfPipe) (sig : EventSig) : Prop :=
  s.handler = .entered sig ∨ s.pending.has sig = true ∨ s.pc.holds sig = true

section Invariants

variable {cap : ℕ} {s s' : SelfPipe} {a : ShellAct}

theorem awake_step (hcap : 1 ≤ cap) (hi : s.Awake) (h : shellStep cap s a = some s') : s'.Awake := by
  intro hp
  rcases shellStep_cases h with ⟨sig, -, hh, rfl⟩ | ⟨sig, -, -, rfl⟩ | ⟨-, -, rfl⟩ |
    ⟨-, rfl⟩ | ⟨b, -, -, hs⟩
  · rcases hi hp with h | h | h
    · exact Or.inl h
    · exact Or.inr (Or.inl h)
    · rw [hh] at h
      cases h
  · exact Or.inr (Or.inr rfl)
  · -- the byte is dropped only when the pipe is full, and then it is readable
    refine Or.inl ?_
    show 0 < if s.pipe < cap then s.pipe + 1 else s.pipe
    split <;> omega
  · exact hi hp
  · rcases loopStep_cases hs with ⟨input, -, -, rfl⟩ | ⟨input, n, hpc, rfl⟩ | ⟨pc, rfl, hw, -⟩
    · exact absurd rfl hp
    · exact Or.inr (Or.inl (show s.pc.willTake = true by rw [hpc]; rfl))
    · rcases hi hp with h | h | h
      · exact Or.inl h
      · exact Or.inr (Or.inl (hw h))
      · exact Or.inr (Or.inr h)

/-- Only the signal itself asks for an answer. -/
theorem holds_step {tr : List ShellAct} {sig : EventSig}
    (hi : Followed (· = .signal sig) (Handles sig) tr ∨ s.Holds sig) (h : shellStep cap s a = some s') :
    Followed (· = .signal sig) (Handles sig) (tr ++ [a]) ∨ s'.Holds sig := by
  rcases shellStep_cases h with ⟨sg, rfl, hh, rfl⟩ | ⟨sg, rfl, hh, rfl⟩ | ⟨rfl, hh, rfl⟩ |
    ⟨rfl, rfl⟩ | ⟨b, rfl, hh, hs⟩
  · by_cases hsg : sg = sig
    · exact Or.inr (Or.inl (by rw [hsg]))
    · rcases hi with hi | hi | hi
      · exact Or.inl (hi.snoc fun h => hsg (ShellAct.signal.inj h))
      · rw [hh] at hi
        cases hi
      · exact Or.inr (Or.inr hi)
  · rcases hi with hi | hi | hi | hi
    · exact Or.inl (hi.snoc (by simp))
    · obtain rfl : sg = sig := by rw [hh] at hi; exact HandlerPc.entered.inj hi
      exact Or.inr (Or.inr (Or.inl (by simp [PendingEvents.add_has])))
    · exact Or.inr (Or.inr (Or.inl (by simp [PendingEvents.add_has, hi])))
    · exact Or.inr (Or.inr (Or.inr hi))
  · rcases hi with hi | hi | hi
    · exact Or.inl (hi.snoc (by simp))
    · rw [hh] at hi
      cases hi
    · exact Or.inr (Or.inr hi)
  · exact hi.imp_left fun h => h.snoc (by simp)
  · have hb : ¬ ShellAct.loop b = .signal sig := by simp
    rcases hi with hi | hi | hi | hi
    · exact Or.inl (hi.snoc hb)
    · rw [hh] at hi
      cases hi
    · rcases loopStep_cases hs with ⟨input, -, -, rfl⟩ | ⟨input, n, -, rfl⟩ | ⟨pc, rfl, -, -⟩
      · exact Or.inr (Or.inr (Or.inr hi))
      · exact Or.inr (Or.inr (Or.inl hi))
      · exact Or.inr (Or.inr (Or.inl hi))
    · rcases loopStep_cases hs with ⟨input, hpc, -, rfl⟩ | ⟨input, n, hpc, rfl⟩ | ⟨pc, rfl, -, hk⟩
      · rw [hpc] at hi
        cases sig <;> cases hi
      · exact Or.inr (Or.inr (Or.inr hi))
      · rcases hk sig hi with hk | hk
        · exact Or.inr (Or.inr (Or.inr hk))
        · exact Or.inl (Followed.answer hb hk)

/-- An event is cleared only where it is taken. -/
theorem cleared_taken {sig : EventSig} (h : shellStep cap s a = some s') (hs : s.pending.has sig = true)
    (hs' : s'.pending.has sig = false) :
    ∃ events, a = .loop (.takeEvents events) ∧ events.has sig = true := by
  have hkept : s'.pending = s.pending → False := fun h => by rw [h, hs] at hs'; cases hs'
  rcases shellStep_cases h with ⟨sg, -, -, rfl⟩ | ⟨sg, -, -, rfl⟩ | ⟨-, -, rfl⟩ | ⟨-, rfl⟩ |
    ⟨b, rfl, -, hb⟩
  · exact absurd rfl hkept
  · simp [PendingEvents.add_has, hs] at hs'
  · exact absurd rfl hkept
  · exact absurd rfl hkept
  · rcases loopStep_cases hb with ⟨input, -, rfl, -⟩ | ⟨input, n, -, rfl⟩ | ⟨pc, rfl, -, -⟩
    · exact ⟨s.pending, rfl, hs⟩
    · exact absurd rfl hkept
    · exact absurd rfl hkept

end Invariants

/-! ### Runs -/

/-- **The event pipe loses no event.**  In every run of the loop and the handler, with a pipe that holds at least one
byte: when the loop is about to block, the pipe is readable if an event is pending; an event is cleared only by the
`signal_take_events` that returns it; and when the loop is about to block with an empty pipe, every `SIGCHLD` has
been followed by a `job_reap` and every `SIGINT` by a reset of the input. -/
theorem selfPipe_run (cap : ℕ) (hcap : 1 ≤ cap) (tr : List ShellAct) (s : SelfPipe)
    (h : Run (shellStep cap) SelfPipe.init tr s) :
    (s.AboutToBlock → s.pending ≠ .none → 0 < s.pipe) ∧
    (∀ sig a s', shellStep cap s a = some s' → s.pending.has sig = true → s'.pending.has sig = false →
      ∃ events, a = .loop (.takeEvents events) ∧ events.has sig = true) ∧
    (s.AboutToBlock → s.pipe = 0 → ∀ sig, Followed (· = .signal sig) (Handles sig) tr) := by
  have hawake : s.Awake := by
    refine @Run.invariant _ _ (shellStep cap) SelfPipe.init s tr (fun _ s => s.Awake) ?_ ?_ h
    · exact fun hp => absurd rfl hp
    · exact fun _ hi hs => awake_step hcap hi hs
  have hholds : ∀ sig, Followed (· = .signal sig) (Handles sig) tr ∨ s.Holds sig := by
    intro sig
    refine @Run.invariant _ _ (shellStep cap) SelfPipe.init s tr
      (fun tr s => Followed (· = .signal sig) (Handles sig) tr ∨ s.Holds sig) (Or.inl Followed.nil) ?_ h
    exact fun _ hi hs => holds_step hi hs
  have hblock : s.AboutToBlock → s.pending ≠ .none → 0 < s.pipe := by
    rintro ⟨hpc, hh⟩ hp
    rcases hawake hp with h | h | h
    · exact h
    · rw [hpc] at h
      cases h
    · rw [hh] at h
      cases h
  refine ⟨hblock, fun sig a s' hs => cleared_taken hs, fun hb hpipe sig => ?_⟩
  rcases hholds sig with h | h | h | h
  · exact h
  · rw [hb.2] at h
    cases h
  · -- a pending event would keep the pipe readable
    have hp : s.pending ≠ .none := fun hn => by rw [hn] at h; simp at h
    exact absurd (hblock hb hp) (by omega)
  · rw [hb.1] at h
    cases sig <;> cases h

/-! A pipe of one byte.  Two signals come before the loop waits, the second byte is dropped, and a third signal comes
between the drain and `signal_take_events`. -/

def burstTrace : List ShellAct :=
  [.signal .chld, .setPending, .notify, .signal .int, .setPending, .notify, .loop .prompt,
   .loop (.ready true false), .loop .read, .loop .drained, .signal .chld, .setPending, .notify,
   .loop (.takeEvents ⟨true, true⟩), .loop .reap, .loop .reaped, .loop .reset, .loop .newline, .loop .noInput,
   .loop .prompt, .loop (.ready true false), .loop .read, .loop .drained, .loop (.takeEvents ⟨false, false⟩),
   .loop .noChild, .loop .noInterrupt, .loop .noInput, .loop .prompt]

/-- Three signals and one byte of pipe: the loop blocks with everything answered. -/
theorem burst_answered : ∃ s, Run (shellStep 1) SelfPipe.init burstTrace s ∧ s.AboutToBlock ∧ s.pipe = 0 ∧
    ∀ sig, Followed (· = .signal sig) (Handles sig) burstTrace := by
  have hrun : Run (shellStep 1) SelfPipe.init burstTrace ⟨.none, 0, .idle, .select⟩ :=
    Run.of_runFrom (by decide)
  refine ⟨_, hrun, ⟨rfl, rfl⟩, rfl, ?_⟩
  exact (selfPipe_run 1 le_rfl burstTrace _ hrun).2.2 ⟨rfl, rfl⟩ rfl

end MiniShell
