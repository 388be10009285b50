import Mathlib.Tactic

/-!
# Runs of a labelled transition system

A run with the labels of its steps, the invariant rule, and the bookkeeping of requests: in a trace every label
that satisfies `p` is *followed* when one that satisfies `q` comes after it.  A `Monitor` reads a trace from the
front and says of every label whether it is allowed there.
-/

namespace MiniShell.Lib

variable {σ α : Type}

/-- `Run step s₀ tr s`: the steps labelled `tr` lead from `s₀` to `s`. -/
inductive Run (step : σ → α → Option σ) (s₀ : σ) : List α → σ → Prop
  | nil : Run step s₀ [] s₀
  | snoc {tr : List α} {s s' : σ} {a : α} (h : Run step s₀ tr s) (hs : step s a = some s') :
      Run step s₀ (tr ++ [a]) s'

/-- The state after the steps labelled `tr`, if they can all be taken. -/
def runFrom (step : σ → α → Option σ) (s : σ) : List α → Option σ
  | [] => some s
  | a :: tr => (step s a).bind fun s' => runFrom step s' tr

namespace Run

variable {step : σ → α → Option σ} {s₀ s s' : σ} {tr tr' : List α}

theorem trans (h : Run step s₀ tr s) (h' : Run step s tr' s') : Run step s₀ (tr ++ tr') s' := by
  induction h' with
  | nil => simpa using h
  | snoc _ hs ih => rw [← List.append_assoc]; exact ih.snoc hs

theorem of_runFrom (h : runFrom step s₀ tr = some s) : Run step s₀ tr s := by
  induction tr generalizing s₀ with
  | nil =>
    obtain rfl : s₀ = s := by simpa [runFrom] using h
    exact .nil
  | cons a tr ih =>
    obtain ⟨s₁, hs, h⟩ := Option.bind_eq_some_iff.mp h
    have hone : Run step s₀ [a] s₁ := Run.nil.snoc hs
    exact hone.trans (ih h)

/-- What holds at the start and is kept by every step holds after every run. -/
theorem invariant {I : List α → σ → Prop} (h₀ : I [] s₀)
    (hstep : ∀ {tr s a s'}, Run step s₀ tr s → I tr s → step s a = some s' → I (tr ++ [a]) s')
    (h : Run step s₀ tr s) : I tr s := by
  induction h with
  | nil => exact h₀
  | snoc hr hs ih => exact hstep hr ih hs

end Run

/-- Every label that satisfies `p` is followed by one that satisfies `q`. -/
def Followed (p q : α → Prop) (tr : List α) : Prop :=
  ∀ pre a post, tr = pre ++ a :: post → p a → ∃ b ∈ post, q b

namespace Followed

variable {p q : α → Prop} {tr : List α} {b : α}

theorem nil : Followed p q ([] : List α) := fun pre a post h => by simp at h

/-- A trace that ends with `b` is cut inside the trace before, or right before `b`. -/
theorem snoc_cut {pre post : List α} {a : α} (h : tr ++ [b] = pre ++ a :: post) :
    (∃ post', post = post' ++ [b] ∧ tr = pre ++ a :: post') ∨ (post = [] ∧ a = b) := by
  rcases List.eq_nil_or_concat post with rfl | ⟨post', c, rfl⟩
  · have h' := (List.append_inj' h rfl).2
    exact Or.inr ⟨rfl, (by simpa using h'.symm)⟩
  · rw [List.concat_eq_append] at h ⊢
    have h' := List.append_inj' (show tr ++ [b] = (pre ++ a :: post') ++ [c] by simpa using h) rfl
    obtain rfl : b = c := by simpa using h'.2
    exact Or.inl ⟨post', rfl, h'.1⟩

/-- A label that asks for nothing leaves answered what was. -/
theorem snoc (h : Followed p q tr) (hb : ¬ p b) : Followed p q (tr ++ [b]) := by
  intro pre a post hcut ha
  rcases snoc_cut hcut with ⟨post', rfl, htr⟩ | ⟨-, rfl⟩
  · obtain ⟨c, hc, hq⟩ := h pre a post' htr ha
    exact ⟨c, List.mem_append_left _ hc, hq⟩
  · exact absurd ha hb

/-- An answer answers everything before it. -/
theorem answer (hb : ¬ p b) (hq : q b) : Followed p q (tr ++ [b]) := by
  intro pre a post hcut ha
  rcases snoc_cut hcut with ⟨post', rfl, -⟩ | ⟨-, rfl⟩
  · exact ⟨b, by simp, hq⟩
  · exact absurd ha hb

end Followed

/-- A monitor: its state after a label, and what it demands of the next label. -/
structure Monitor (μ α : Type) where
  next : μ → α → μ
  allows : μ → α → Prop

namespace Monitor

variable {μ : Type} (M : Monitor μ α) (m : μ)

/-- The state of the monitor after a trace. -/
def after (tr : List α) : μ := tr.foldl M.next m

/-- Every label of the trace is allowed where it stands. -/
def Allows (m : μ) : List α → Prop
  | [] => True
  | a :: tr => M.allows m a ∧ Allows (M.next m a) tr

instance instDecidableAllows [∀ m a, Decidable (M.allows m a)] : ∀ m tr, Decidable (M.Allows m tr)
  | _, [] => .isTrue trivial
  | m, a :: tr =>
    have := instDecidableAllows (M.next m a) tr
    inferInstanceAs (Decidable (_ ∧ _))

theorem after_snoc (tr : List α) (a : α) : M.after m (tr ++ [a]) = M.next (M.after m tr) a := by
  simp [after]

theorem allows_append {m : μ} {tr tr' : List α} :
    M.Allows m (tr ++ tr') ↔ M.Allows m tr ∧ M.Allows (M.after m tr) tr' := by
  induction tr generalizing m with
  | nil => simp [Allows, after]
  | cons a tr ih =>
    simp only [List.cons_append, Allows, ih, and_assoc]
    rfl

theorem allows_snoc {m : μ} {tr : List α} {a : α} :
    M.Allows m (tr ++ [a]) ↔ M.Allows m tr ∧ M.allows (M.after m tr) a := by
  simp [allows_append, Allows]

end Monitor

end MiniShell.Lib
