import Mathlib.Tactic

/-!
# Programs that return or wait for ever

A program over a state `σ` returns a value and a state, or it blocks in some state and never
returns.  The state a blocked program stops in is kept, so that what a program has done before it
blocks can still be spoken of.

* `wp m Q R s` — the run of `m` from `s` returns with `Q`, or blocks with `R`; `R = fun _ => False`
  is total correctness, `R = fun _ => True` is partial correctness;
* `loop μ body` — a `while` loop whose number of rounds is bounded by the measure `μ`; in `wp_loop` every
  further round makes `μ` smaller, so that the bound is never felt;
* `mapList` — the program run on every element of a list, in order.
-/

namespace MiniShell.Lib

/-- How the run of a program ends. -/
inductive Outcome (σ α : Type) where
  | done (a : α) (s : σ)
  | blocked (s : σ)
  deriving DecidableEq

namespace Outcome

variable {σ α : Type}

/-- The state a run ends in, returned or blocked. -/
def state : Outcome σ α → σ
  | done _ s => s
  | blocked s => s

@[simp] theorem state_done (a : α) (s : σ) : (done a s).state = s := rfl
@[simp] theorem state_blocked (s : σ) : (blocked s : Outcome σ α).state = s := rfl

/-- What a run returns, if it does. -/
def value : Outcome σ α → Option α
  | done a _ => some a
  | blocked _ => none

theorem eq_done {o : Outcome σ α} {a : α} (h : o.value = some a) : o = done a o.state := by
  cases o with
  | done b s => exact congrArg (done · s) (Option.some.inj h)
  | blocked s => cases h

end Outcome

/-- A program over the state `σ`. -/
def Prog (σ α : Type) : Type := σ → Outcome σ α

namespace Prog

variable {σ τ α β : Type}

/-- The program that returns `a` and does nothing. -/
def ret (a : α) : Prog σ α := fun s => .done a s

/-- `m`, then `f` on what it returned. -/
def bind (m : Prog σ α) (f : α → Prog σ β) : Prog σ β := fun s =>
  match m s with
  | .done a s' => f a s'
  | .blocked s' => .blocked s'

instance : Monad (Prog σ) where
  pure := ret
  bind := bind

/-- The state. -/
def get : Prog σ σ := fun s => .done s s

/-- Replace the state by its image under `f`. -/
def modify (f : σ → σ) : Prog σ Unit := fun s => .done () (f s)

/-- Wait for ever. -/
def block : Prog σ α := fun s => .blocked s

theorem pure_apply (a : α) (s : σ) : (pure a : Prog σ α) s = .done a s := rfl

theorem bind_apply (m : Prog σ α) (f : α → Prog σ β) (s : σ) :
    (m >>= f) s = match m s with
      | .done a s' => f a s'
      | .blocked s' => .blocked s' := rfl

theorem bind_done {m : Prog σ α} {f : α → Prog σ β} {s s' : σ} {a : α} (h : m s = .done a s') :
    (m >>= f) s = f a s' := by rw [bind_apply, h]

theorem bind_blocked {m : Prog σ α} {f : α → Prog σ β} {s s' : σ} (h : m s = .blocked s') :
    (m >>= f) s = .blocked s' := by rw [bind_apply, h]

instance : LawfulMonad (Prog σ) := LawfulMonad.mk' (Prog σ)
  (fun m => by
    funext s
    change bind m ret s = m s
    unfold bind
    cases m s <;> rfl)
  (fun _ _ => rfl)
  (fun m f g => by
    funext s
    simp only [bind_apply]
    cases m s <;> rfl)

/-! ## Weakest preconditions -/

/-- The run of `m` from `s` returns with `Q`, or blocks with `R`. -/
def wp (m : Prog σ α) (Q : α → σ → Prop) (R : σ → Prop) (s : σ) : Prop :=
  match m s with
  | .done a s' => Q a s'
  | .blocked s' => R s'

variable {Q Q' : α → σ → Prop} {R R' : σ → Prop} {s : σ}

@[simp] theorem wp_pure (a : α) : wp (pure a : Prog σ α) Q R = Q a := rfl

@[simp] theorem wp_get {Q : σ → σ → Prop} : wp get Q R = fun s => Q s s := rfl

@[simp] theorem wp_modify {Q : Unit → σ → Prop} (f : σ → σ) :
    wp (modify f) Q R = fun s => Q () (f s) := rfl

@[simp] theorem wp_block : wp (block : Prog σ α) Q R = R := rfl

@[simp] theorem wp_bind {m : Prog σ α} {f : α → Prog σ β} {Q : β → σ → Prop} :
    wp (m >>= f) Q R = wp m (fun a => wp (f a) Q R) R := by
  funext s
  unfold wp
  rw [bind_apply]
  cases m s <;> rfl

theorem wp_get_bind {f : σ → Prog σ β} {Q : β → σ → Prop} : wp (get >>= f) Q R s ↔ wp (f s) Q R s :=
  Iff.rfl

theorem wp_modify_bind {g : σ → σ} {f : Unit → Prog σ β} {Q : β → σ → Prop} :
    wp (modify g >>= f) Q R s ↔ wp (f ()) Q R (g s) := Iff.rfl

theorem wp_ite {p : Prop} [Decidable p] {m n : Prog σ α} :
    wp (if p then m else n) Q R s ↔ (p → wp m Q R s) ∧ (¬p → wp n Q R s) := by
  split <;> simp_all

theorem wp_mono {m : Prog σ α} (h : wp m Q R s) (hQ : ∀ a s', Q a s' → Q' a s')
    (hR : ∀ s', R s' → R' s') : wp m Q' R' s := by
  unfold wp at *
  cases hm : m s with
  | done a s' => rw [hm] at h; exact hQ a s' h
  | blocked s' => rw [hm] at h; exact hR s' h

theorem wp_and {m : Prog σ α} (h : wp m Q R s) (h' : wp m Q' R' s) :
    wp m (fun a s' => Q a s' ∧ Q' a s') (fun s' => R s' ∧ R' s') s := by
  unfold wp at *
  cases hm : m s with
  | done a s' => rw [hm] at h h'; exact ⟨h, h'⟩
  | blocked s' => rw [hm] at h h'; exact ⟨h, h'⟩

theorem wp_done {m : Prog σ α} {a : α} {s' : σ} (h : wp m Q R s) (hm : m s = .done a s') :
    Q a s' := by
  unfold wp at h
  rw [hm] at h
  exact h

/-- What holds of every state a run can end in, returned or blocked. -/
theorem wp_state {m : Prog σ α} {P : σ → Prop} (h : wp m (fun _ => P) P s) : P (m s).state := by
  unfold wp at h
  cases hm : m s with
  | done a s' => rw [hm] at h; exact h
  | blocked s' => rw [hm] at h; exact h

/-- What the state before and the state after each part are related by, they are related by over the whole. -/
theorem state_bind {T : σ → σ → Prop}
    (htrans : ∀ {s₁ s₂ s₃}, T s₁ s₂ → T s₂ s₃ → T s₁ s₃) {m : Prog σ α}
    {f : α → Prog σ β} (hm : ∀ s, T s (m s).state) (hf : ∀ a s, T s (f a s).state) (s : σ) :
    T s ((m >>= f) s).state := by
  have h := hm s
  rw [bind_apply]
  cases hms : m s with
  | done a s' =>
    rw [hms] at h
    exact htrans h (hf a s')
  | blocked s' =>
    rw [hms] at h
    exact h

/-- Total correctness, as the existence of the result. -/
theorem wp_total {m : Prog σ α} : wp m Q (fun _ => False) s ↔ ∃ a s', m s = .done a s' ∧ Q a s' := by
  unfold wp
  cases hm : m s with
  | done a s' => simp
  | blocked s' => simp

/-! ## Loops -/

/-- At most `n` rounds of `body`; a round returns the next loop state or the value of the loop. -/
def rounds (body : τ → Prog σ (τ ⊕ α)) : ℕ → τ → Prog σ α
  | 0, _ => block
  | n + 1, t => do
    match ← body t with
    | .inl t' => rounds body n t'
    | .inr a => pure a

/-- The `while` loop on `body`, whose rounds make the measure `μ` smaller. -/
def loop (μ : σ → ℕ) (body : τ → Prog σ (τ ⊕ α)) (t : τ) : Prog σ α := fun s =>
  rounds body (μ s + 1) t s

/-- Every round of `body` that asks for a further one makes `μ` smaller. -/
def Decreases (μ : σ → ℕ) (body : τ → Prog σ (τ ⊕ α)) : Prop :=
  ∀ t s t' s', body t s = .done (.inl t') s' → μ s' < μ s

/-- The rule of the loop: an invariant that a round keeps while it makes the measure smaller. -/
theorem wp_loop {μ : σ → ℕ} {body : τ → Prog σ (τ ⊕ α)} (I : τ → σ → Prop)
    (hb : ∀ t s, I t s → wp (body t) (fun x s' => match x with
      | .inl t' => I t' s' ∧ μ s' < μ s
      | .inr a => Q a s') R s) :
    ∀ t s, I t s → wp (loop μ body t) Q R s := by
  have key : ∀ n t s, μ s < n → I t s → wp (rounds body n t) Q R s := by
    intro n
    induction n with
    | zero => intro t s hn; omega
    | succ n ih =>
      intro t s hn hI
      rw [rounds, wp_bind]
      refine wp_mono (hb t s hI) ?_ (fun _ h => h)
      rintro (t' | a) s' h
      · exact ih t' s' (by omega) h.1
      · exact h
  exact fun t s hI => key _ t s (by omega) hI

/-- The rule of the loop when its measure is known to get smaller. -/
theorem wp_loop_decreases {μ : σ → ℕ} {body : τ → Prog σ (τ ⊕ α)} (hd : Decreases μ body)
    (I : τ → σ → Prop) (hb : ∀ t s, I t s → wp (body t) (fun x s' => match x with
      | .inl t' => I t' s'
      | .inr a => Q a s') R s) :
    ∀ t s, I t s → wp (loop μ body t) Q R s := by
  apply wp_loop I
  intro t s hI
  have h := hb t s hI
  unfold wp at h ⊢
  cases hrun : body t s with
  | blocked s' => rwa [hrun] at h
  | done x s' =>
    rw [hrun] at h
    cases x with
    | inl t' => exact ⟨h, hd t s t' s' hrun⟩
    | inr a => exact h

/-- What the first program does is known from its run only. -/
theorem wp_bind_done {m : Prog σ α} {f : α → Prog σ β} {Q : β → σ → Prop}
    (h : ∀ a s', m s = .done a s' → wp (f a) Q (fun _ => True) s') : wp (m >>= f) Q (fun _ => True) s := by
  rw [wp_bind]
  unfold wp
  split
  · exact h _ _ (by assumption)
  · trivial

/-- The rule of the loop when nothing is claimed of a program that blocks: the measure does not matter. -/
theorem wp_loop_partial {μ : σ → ℕ} {body : τ → Prog σ (τ ⊕ α)} (I : τ → σ → Prop)
    (hb : ∀ t s, I t s → wp (body t) (fun x s' => match x with
      | .inl t' => I t' s'
      | .inr a => Q a s') (fun _ => True) s) :
    ∀ t s, I t s → wp (loop μ body t) Q (fun _ => True) s := by
  have key : ∀ n t s, I t s → wp (rounds body n t) Q (fun _ => True) s := by
    intro n
    induction n with
    | zero => exact fun _ _ _ => trivial
    | succ n ih =>
      intro t s hI
      rw [rounds, wp_bind]
      refine wp_mono (hb t s hI) ?_ (fun _ h => h)
      rintro (t' | a) s' h
      · exact ih t' s' h
      · exact h
  exact fun t s hI => key _ t s hI

/-! ## Lists -/

/-- Run `f` on every element of a list, in order. -/
def mapList (f : α → Prog σ β) : List α → Prog σ (List β)
  | [] => pure []
  | a :: l => do
    let b ← f a
    let bs ← mapList f l
    pure (b :: bs)

theorem mapList_append (f : α → Prog σ β) (l l' : List α) : mapList f (l ++ l') = (do
    let bs ← mapList f l
    let bs' ← mapList f l'
    pure (bs ++ bs') : Prog σ (List β)) := by
  induction l with
  | nil => simp [mapList]
  | cons a l ih => simp [mapList, ih]

theorem wp_mapList_append {f : α → Prog σ β} {l l' : List α} {Q : List β → σ → Prop} :
    wp (mapList f (l ++ l')) Q R s ↔ wp (mapList f l)
      (fun bs => wp (mapList f l') (fun bs' => Q (bs ++ bs')) R) R s := by
  rw [mapList_append]
  simp only [wp_bind, wp_pure]

/-- The rule of `mapList`: an invariant on what has been returned and what is left to do. -/
theorem wp_mapList {f : α → Prog σ β} (I : List β → List α → σ → Prop)
    (hf : ∀ bs a l s, I bs (a :: l) s → wp (f a) (fun b s' => I (bs ++ [b]) l s') R s) :
    ∀ l s, I [] l s → wp (mapList f l) (fun bs s' => I bs [] s') R s := by
  have key : ∀ l bs₀ s, I bs₀ l s → wp (mapList f l) (fun bs s' => I (bs₀ ++ bs) [] s') R s := by
    intro l
    induction l with
    | nil => intro bs₀ s h; simpa [mapList] using h
    | cons a l ih =>
      intro bs₀ s h
      simp only [mapList, wp_bind, wp_pure]
      refine wp_mono (hf bs₀ a l s h) ?_ (fun _ h => h)
      intro b s' hb
      refine wp_mono (ih (bs₀ ++ [b]) s' hb) ?_ (fun _ h => h)
      intro bs s'' h
      simpa using h
  exact fun l s h => by simpa using key l [] s h

/-- The rule of `mapList` for a relation `S` between what goes in and what comes out, which the passage `T` of states
leaves alone. -/
theorem wp_mapList_forall₂ {f : α → Prog σ β} (T : σ → σ → Prop)
    (S : σ → σ → α → β → Prop) (hrefl : ∀ s, T s s)
    (htrans : ∀ {s₁ s₂ s₃}, T s₁ s₂ → T s₂ s₃ → T s₁ s₃)
    (hearlier : ∀ {s₁ s₂ s₃ a b}, T s₁ s₂ → S s₂ s₃ a b → S s₁ s₃ a b)
    (hlater : ∀ {s₁ s₂ s₃ a b}, S s₁ s₂ a b → T s₂ s₃ → S s₁ s₃ a b)
    (hf : ∀ a s, wp (f a) (fun b s' => T s s' ∧ S s s' a b) R s) :
    ∀ l s, wp (mapList f l) (fun bs s' => T s s' ∧ List.Forall₂ (S s s') l bs) R s := by
  intro l
  induction l with
  | nil => exact fun s => ⟨hrefl s, .nil⟩
  | cons a l ih =>
    intro s
    simp only [mapList, wp_bind, wp_pure]
    refine wp_mono (hf a s) ?_ (fun _ h => h)
    intro b s₁ h₁
    refine wp_mono (ih s₁) ?_ (fun _ h => h)
    intro bs s₂ h₂
    exact ⟨htrans h₁.1 h₂.1, .cons (hlater h₁.2 h₂.1) (h₂.2.imp fun _ _ h => hearlier h₁.1 h)⟩

/-- Run `f` on every element of a list, in order, for its effect. -/
def forList (f : α → Prog σ Unit) : List α → Prog σ Unit
  | [] => pure ()
  | a :: l => do
    f a
    forList f l

/-- The rule of `forList`: an invariant on what is left to do. -/
theorem wp_forList {f : α → Prog σ Unit} (I : List α → σ → Prop)
    (hf : ∀ a l s, I (a :: l) s → wp (f a) (fun _ s' => I l s') R s) :
    ∀ l s, I l s → wp (forList f l) (fun _ s' => I [] s') R s := by
  intro l
  induction l with
  | nil => intro s h; simpa [forList] using h
  | cons a l ih =>
    intro s h
    simp only [forList, wp_bind]
    exact wp_mono (hf a l s h) (fun _ s' h' => ih s' h') (fun _ h => h)

/-! ## What a program leaves alone -/

/-- Wherever a run of `m` ends, returned or blocked, `f` sees what it saw before. -/
def Keeps (f : σ → τ) (m : Prog σ α) : Prop := ∀ s, f (m s).state = f s

section Keeps

variable {f : σ → τ}

theorem keeps_pure (a : α) : Keeps f (pure a : Prog σ α) := fun _ => rfl

theorem keeps_block : Keeps f (block : Prog σ α) := fun _ => rfl

theorem keeps_modify {g : σ → σ} (h : ∀ s, f (g s) = f s) : Keeps f (modify g) := h

theorem Keeps.bind {m : Prog σ α} {n : α → Prog σ β} (hm : Keeps f m) (hn : ∀ a, Keeps f (n a)) :
    Keeps f (m >>= n) :=
  state_bind (T := fun s s' => f s' = f s) (fun h h' => h'.trans h) hm hn

theorem keeps_get_bind {n : σ → Prog σ α} (h : ∀ s, Keeps f (n s)) : Keeps f (get >>= n) := fun s => h s s

theorem Keeps.ite {p : Prop} [Decidable p] {m n : Prog σ α} (hm : p → Keeps f m) (hn : ¬p → Keeps f n) :
    Keeps f (if p then m else n) := by
  split
  · exact hm (by assumption)
  · exact hn (by assumption)

theorem keeps_of_wp {m : Prog σ α} (h : ∀ s, wp m (fun _ s' => f s' = f s) (fun s' => f s' = f s) s) :
    Keeps f m :=
  fun s => wp_state (h s)

theorem Keeps.wp {m : Prog σ α} (h : Keeps f m) (s : σ) :
    wp m (fun _ s' => f s' = f s) (fun s' => f s' = f s) s := by
  have hs := h s
  unfold Prog.wp
  cases hm : m s with
  | done a s' => rwa [hm] at hs
  | blocked s' => rwa [hm] at hs

theorem Keeps.loop {υ : Type} {μ : σ → ℕ} {body : υ → Prog σ (υ ⊕ α)}
    (h : ∀ t, Keeps f (body t)) (t : υ) :
    Keeps f (loop μ body t) := by
  have key : ∀ n t, Keeps f (rounds body n t) := by
    intro n
    induction n with
    | zero => exact fun _ => keeps_block
    | succ n ih =>
      intro t
      apply (h t).bind
      intro x
      cases x with
      | inl t' => exact ih t'
      | inr a => exact keeps_pure a
  exact fun s => key _ t s

theorem Keeps.mapList {m : α → Prog σ β} (h : ∀ a, Keeps f (m a)) (l : List α) : Keeps f (mapList m l) := by
  induction l with
  | nil => exact keeps_pure _
  | cons a l ih => exact (h a).bind fun _ => ih.bind fun _ => keeps_pure _

theorem Keeps.forList {m : α → Prog σ Unit} (h : ∀ a, Keeps f (m a)) (l : List α) :
    Keeps f (forList m l) := by
  induction l with
  | nil => exact keeps_pure _
  | cons a l ih => exact (h a).bind fun _ => ih

end Keeps

end Prog

end MiniShell.Lib
