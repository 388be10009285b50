import MiniShell.Model.Child
import MiniShell.Spec.Fates
import MiniShell.Model.Shell

/-!
# Builtin and external redirection agree

* `Decides outcome cs` — in the calls `cs` the opens end as `outcome` says, and no other step fails;
* `Redirects outcome target x r cs w w'` — one descriptor has been redirected to `x`, by the shell or by a child: what
  was opened, what came of it and where the descriptor is now; `wp_redirectOutput_agree`, `wp_setredirect_agree` and
  their fellows say so of each half;
* **`redirections_agree`** — the two implementations open the same files in the same order, put the same files on 0
  and 1, and return the same.
-/

namespace MiniShell

open MiniShell.Lib MiniShellError

/-! ### What a redirection is to do -/

/-- The opens among the calls, in order. -/
def opens (cs : List Call) : List (Bytes × OpenFlags) :=
  cs.filterMap fun c => match c with
    | .open_ path flags _ => some (path, flags)
    | _ => none

@[simp] theorem opens_append (cs cs' : List Call) : opens (cs ++ cs') = opens cs ++ opens cs' :=
  List.filterMap_append

theorem opens_allDup2 {old new : ℕ} {cs : List Call} (h : AllDup2 old new cs) : opens cs = [] :=
  List.filterMap_eq_nil_iff.mpr fun c hc => by
    obtain ⟨r, rfl⟩ := h c hc
    rfl

/-- The opens end as `outcome` says, and no other step fails. -/
structure Decides (outcome : Bytes → OpenFlags → Bool) (cs : List Call) : Prop where
  opens : ∀ path flags fd, .open_ path flags fd ∈ cs → fd.isSome = outcome path flags
  others : ∀ c ∈ cs, c.FailsStep → ∃ path flags, c = .open_ path flags none

/-- What the output of a command is redirected to. -/
def Command.outputOpening (com : Command) : Option (Bytes × OpenFlags) :=
  com.redirect.outputFile.map (·, com.outputFlags)

/-- What the input of a command is redirected to. -/
def Command.inputOpening (com : Command) : Option (Bytes × OpenFlags) :=
  com.redirect.inputFile.map (·, .readOnly)

/-- The opens that are tried: all up to the first that fails. -/
def tried (outcome : Bytes → OpenFlags → Bool) : List (Bytes × OpenFlags) → List (Bytes × OpenFlags)
  | [] => []
  | x :: l => x :: if outcome x.1 x.2 then tried outcome l else []

/-- The descriptor `target` is on the file that was opened as `x`, or where it was. -/
def OnFile (w w' : World) (target : ℕ) : Option (Bytes × OpenFlags) → Prop
  | none => descOf w'.kernel.fds target = descOf w.kernel.fds target
  | some x => ∃ n, descOf w'.kernel.fds target = some (.file n) ∧ Opened x.1 x.2 n w w'

/-- The descriptor `target` has been redirected to `x` with the result `r`. -/
structure Redirects (outcome : Bytes → OpenFlags → Bool) (target : ℕ)
    (x : Option (Bytes × OpenFlags)) (r : Int) (cs : List Call) (w w' : World) : Prop where
  opens : opens cs = tried outcome x.toList
  result : r = if ∀ y ∈ x, outcome y.1 y.2 = true then ok else errOpen
  onFile : r = ok → OnFile w w' target x

/-- When `target` has been redirected the other open descriptors are where they were. -/
def Spared (target : ℕ) (r : Int) (w w' : World) : Prop :=
  r = ok → ∀ fd, fd ≠ target → w.kernel.fds.IsOpen fd → descOf w'.kernel.fds fd = descOf w.kernel.fds fd

section Decides

variable {outcome : Bytes → OpenFlags → Bool} {cs cs' : List Call}

theorem Decides.left (h : Decides outcome (cs ++ cs')) : Decides outcome cs :=
  ⟨fun p f fd hm => h.opens p f fd (List.mem_append_left _ hm), fun c hm => h.others c
    (List.mem_append_left _ hm)⟩

theorem Decides.right (h : Decides outcome (cs ++ cs')) : Decides outcome cs' :=
  ⟨fun p f fd hm => h.opens p f fd (List.mem_append_right _ hm), fun c hm => h.others c
    (List.mem_append_right _ hm)⟩

/-- With the opens aside no `dup2` fails. -/
theorem Decides.succeeds (h : Decides outcome cs) {old new : ℕ} {dups : List Call} (hall : AllDup2 old new dups)
    (hsub : dups ⊆ cs) : Succeeds dups := by
  intro c hc hfail
  obtain ⟨path, flags, rfl⟩ := h.others c (hsub hc) hfail
  obtain ⟨r, hr⟩ := hall _ hc
  cases hr

end Decides

variable {outcome : Bytes → OpenFlags → Bool} {w w' : World} {target : ℕ} {path : Bytes} {flags : OpenFlags}
  {r : Int} {cs : List Call} {R : World → Prop}

/-- Nothing is to be redirected. -/
theorem Redirects.nothing (outcome : Bytes → OpenFlags → Bool) (target : ℕ) (w : World) :
    Redirects outcome target none ok [] w w :=
  ⟨rfl, by simp, fun _ => rfl⟩

/-- **What the shell does for one descriptor.** -/
theorem StreamResult.redirects {saved : Int} (h : StreamResult w target path flags r saved cs w')
    (hd : Decides outcome cs) : Redirects outcome target (some (path, flags)) r cs w w' := by
  cases h with
  | unsaved _ =>
    obtain ⟨_, _, he⟩ := hd.others _ (List.mem_singleton_self _) trivial
    cases he
  | unopened _ hs hf =>
    have hout : outcome path flags = false := (hd.opens path flags none (by simp)).symm
    exact ⟨by simp [opens, tried, hout], by simp [hout], fun hr => absurd hr (by decide)⟩
  | unmoved _ _ _ hall hdups => exact absurd (hd.succeeds hall fun c hc => by simp [hc]) hdups
  | @moved s fd n d dups w' hfind hs hn hf hall hdups =>
    have hout : outcome path flags = true := (hd.opens path flags (some fd) (by simp)).symm
    refine ⟨?_, by simp [hout], fun _ => ⟨n, by rw [hf, if_pos rfl], hn⟩⟩
    have hnil := opens_allDup2 hall
    unfold opens at hnil
    simp [opens, tried, hout, hnil]

theorem StreamResult.spared {saved : Int} (h : StreamResult w target path flags r saved cs w') :
    Spared target r w w' := by
  cases h with
  | unsaved _ => exact fun hr => absurd hr (by decide)
  | unopened _ _ _ => exact fun hr => absurd hr (by decide)
  | unmoved _ _ _ _ _ => exact fun hr => absurd hr (by decide)
  | moved hfind hs hn hf _ _ =>
    intro _ x hx hopen
    rw [hf, if_neg hx, descOf_cons, if_neg]
    rintro rfl
    exact hs hopen

/-- **What a child does for one descriptor.** -/
theorem wp_setredirectStream {Q : Int → World → Prop} (hopen : w.kernel.fds.IsOpen target)
    (h : ∀ r w' cs, Made cs w w' → Spared target r w w' → (∀ outcome, Decides outcome cs →
      Redirects outcome target (some (path, flags)) r cs w w') → Q r w') :
    Prog.wp (setredirectStream target path flags) Q R w := by
  unfold setredirectStream
  rw [Prog.wp_bind]
  have hfail : ∀ {e w'}, e ≠ ok → Spared target e w w' := fun he hr => absurd hr he
  refine wp_openFile (fun w₁ h₁ hf₁ => h _ w₁ _ h₁ (hfail (by decide)) fun outcome hd => ?_)
    fun fd n w₁ h₁ hn hfd hf₁ => ?_
  · have hout : outcome path flags = false := (hd.opens path flags none (by simp)).symm
    exact ⟨by simp [opens, tried, hout], by simp [hout], fun hr => absurd hr (by decide)⟩
  have hne : fd ≠ target := fun he => hfd (he ▸ hopen)
  simp only [redirectFd, if_neg hne, Prog.wp_bind]
  refine wp_retry_dup2 (fun dups d w₂ h₂ hall hcs hd₂ hf₂ => ?_) fun dups e w₂ h₂ hall he hm hf₂ => ?_
  · simp only [Prog.wp_bind]
    apply wp_close_made
    intro w₃ h₃ hf₃
    rw [hf₁] at hd₂
    have hdesc : ∀ x, descOf w₃.kernel.fds x = if x = target then some (.file n)
        else descOf w.kernel.fds x := by
      intro x
      rw [hf₃, hf₂, hf₁, descOf_moved hfd hne hd₂]
    refine h _ w₃ _ ((h₁.trans h₂).trans h₃) (fun _ x hx _ => by rw [hdesc, if_neg hx]) fun outcome hd => ?_
    have hout : outcome path flags = true := (hd.opens path flags (some fd) (by simp)).symm
    refine ⟨?_, by simp [hout], fun _ => ⟨n, by rw [hdesc, if_pos rfl], hn.between (.refl w) (h₂.trans h₃)⟩⟩
    have hnil := opens_allDup2 hall
    unfold opens at hnil
    simp [opens, tried, hout, hnil]
  · have hr : errDup2 ≠ ok := by decide
    simp only [Prog.wp_pure, if_pos hr, if_pos hne, Prog.wp_bind]
    refine wp_close_made fun w₃ h₃ hf₃ => h _ w₃ _ ((h₁.trans h₂).trans h₃) (hfail hr)
      ?_
    intro outcome hd
    exact absurd he (by simpa [Call.FailsStep] using hd.succeeds hall (fun c hc => by simp [hc]) _ hm)

/-! ### Both descriptors -/

/-- What a command is to be redirected to: the output first. -/
def Command.openings (com : Command) : List (Bytes × OpenFlags) :=
  com.outputOpening.toList ++ com.inputOpening.toList

/-- The redirection of a command has ended with the result `r`. -/
structure Redirected (outcome : Bytes → OpenFlags → Bool) (com : Command) (r : Int) (cs : List Call)
    (w w' : World) :
    Prop where
  opens : opens cs = tried outcome com.openings
  result : r = if ∀ y ∈ com.openings, outcome y.1 y.2 = true then ok else errOpen
  stdin : r = ok → OnFile w w' 0 com.inputOpening
  stdout : r = ok → OnFile w w' 1 com.outputOpening

theorem tried_append (outcome : Bytes → OpenFlags → Bool) (l l' : List (Bytes × OpenFlags)) :
    tried outcome (l ++ l') =
      tried outcome l ++ if ∀ y ∈ l, outcome y.1 y.2 = true then tried outcome l' else [] := by
  induction l with
  | nil => simp [tried]
  | cons x l ih =>
    have hcons : (∀ y ∈ x :: l, outcome y.1 y.2 = true) ↔
        outcome x.1 x.2 = true ∧ ∀ y ∈ l, outcome y.1 y.2 = true := List.forall_mem_cons
    rw [List.cons_append, tried, tried, ih]
    by_cases hx : outcome x.1 x.2 = true
    · rw [if_pos hx, if_pos hx, List.cons_append]
      by_cases hl : ∀ y ∈ l, outcome y.1 y.2 = true
      · rw [if_pos hl, if_pos (hcons.mpr ⟨hx, hl⟩)]
      · rw [if_neg hl, if_neg fun h => hl (hcons.mp h).2]
    · rw [if_neg hx, if_neg hx, if_neg fun h => hx (hcons.mp h).1]
      rfl

/-- A descriptor that stays where it was put. -/
theorem OnFile.after {w₁ : World} {x : Option (Bytes × OpenFlags)} {cs₁ : List Call}
    (h : OnFile w w₁ target x) (hmade : Made cs₁ w₁ w')
    (hsame : descOf w'.kernel.fds target = descOf w₁.kernel.fds target) :
    OnFile w w' target x := by
  cases x with
  | none => exact hsame.trans h
  | some x =>
    obtain ⟨n, hn, hopened⟩ := h
    exact ⟨n, hsame.trans hn, hopened.between (.refl w) hmade⟩

/-- A descriptor that was left alone before it was put on its file. -/
theorem OnFile.before {w₁ : World} {x : Option (Bytes × OpenFlags)} {cs₁ : List Call}
    (h : OnFile w₁ w' target x) (hmade : Made cs₁ w w₁)
    (hsame : descOf w₁.kernel.fds target = descOf w.kernel.fds target) :
    OnFile w w' target x := by
  cases x with
  | none => exact Eq.trans h hsame
  | some x =>
    obtain ⟨n, hn, hopened⟩ := h
    exact ⟨n, hn, hopened.between hmade (.refl w')⟩

/-- A descriptor on its file is open. -/
theorem OnFile.isOpen {x : Option (Bytes × OpenFlags)} (h : OnFile w w' target x)
    (hopen : w.kernel.fds.IsOpen target) :
    w'.kernel.fds.IsOpen target := by
  rw [isOpen_iff_desc] at hopen ⊢
  cases x with
  | none => exact fun hnone => hopen (h ▸ hnone)
  | some x =>
    obtain ⟨n, hn, -⟩ := h
    rw [hn]
    simp

section Both

variable {com : Command} {w₁ w₂ : World} {r₁ r₂ : Int} {cs₁ cs₂ : List Call}

/-- The output has failed, and the input is not tried. -/
theorem Redirects.alone (h : Redirects outcome 1 com.outputOpening r₁ cs₁ w w₁) (hr : r₁ ≠ ok) :
    Redirected outcome com r₁ cs₁ w w₁ := by
  have hout : ¬ ∀ y ∈ com.outputOpening, outcome y.1 y.2 = true :=
    fun hall => hr (by rw [h.result, if_pos hall])
  have hout' : ¬ ∀ y ∈ com.outputOpening.toList, outcome y.1 y.2 = true := by simpa using hout
  refine ⟨?_, ?_, fun hok => absurd hok hr, fun hok => absurd hok hr⟩
  · rw [h.opens, Command.openings, tried_append, if_neg hout', List.append_nil]
  · rw [h.result, if_neg hout, if_neg fun hall => hout' fun y hy => hall y (List.mem_append_left _ hy)]

/-- The output has been redirected, and the input is tried. -/
theorem Redirects.both (h₁ : Redirects outcome 1 com.outputOpening ok cs₁ w w₁)
    (h₂ : Redirects outcome 0 com.inputOpening r₂ cs₂ w₁ w₂) (hm₁ : Made cs₁ w w₁)
    (hm₂ : Made cs₂ w₁ w₂) (hs₁ : Spared 1 ok w w₁) (hs₂ : Spared 0 r₂ w₁ w₂)
    (hopen₀ : w.kernel.fds.IsOpen 0) (hopen₁ : w.kernel.fds.IsOpen 1) :
    Redirected outcome com r₂ (cs₁ ++ cs₂) w w₂ := by
  have hout : ∀ y ∈ com.outputOpening, outcome y.1 y.2 = true := by
    by_contra hout
    have hr := h₁.result
    rw [if_neg hout] at hr
    exact absurd hr (by decide)
  have hout' : ∀ y ∈ com.outputOpening.toList, outcome y.1 y.2 = true := by simpa using hout
  refine ⟨?_, ?_, fun hr => (h₂.onFile hr).before hm₁ (hs₁ rfl 0 (by decide) hopen₀), fun hr => ?_⟩
  · rw [opens_append, h₁.opens, h₂.opens, Command.openings, tried_append, if_pos hout']
  · rw [h₂.result]
    refine if_congr ?_ rfl rfl
    simp only [Command.openings, List.forall_mem_append, Option.mem_toList]
    exact ⟨fun h => ⟨hout, h⟩, fun h => h.2⟩
  · have hfile := h₁.onFile rfl
    exact hfile.after hm₂ (hs₂ hr 1 (by decide) (hfile.isOpen hopen₁))

end Both

/-! ### The two implementations -/

theorem wp_redirectOutput_agree {cmd : Command} {Q : Int × Int → World → Prop} (hopen : w.kernel.fds.IsOpen 1)
    (h : ∀ r saved w' cs, Made cs w w' → Spared 1 r w w' →
      (∀ outcome, Decides outcome cs → Redirects outcome 1 cmd.outputOpening r cs w w') → Q (r, saved) w') :
    Prog.wp (redirectOutput cmd) Q R w := by
  unfold redirectOutput
  unfold Command.outputOpening at h
  cases hfile : cmd.redirect.outputFile with
  | none =>
    rw [hfile] at h
    exact h _ _ w [] (.refl w) (fun _ _ _ _ => rfl) fun outcome _ => .nothing outcome 1 w
  | some path =>
    rw [hfile] at h
    rw [Prog.wp_bind]
    apply wp_fflush
    intro r w₁ hm₁ hf₁
    cases r with
    | err e =>
      apply h _ _ w₁ _ hm₁ (fun hr => absurd hr (by decide))
      intro outcome hd
      obtain ⟨_, _, he⟩ := hd.others _ (List.mem_singleton_self _) trivial
      cases he
    | ok =>
      have hsame : ∀ fd, descOf w₁.kernel.fds fd = descOf w.kernel.fds fd := fun fd => by rw [hf₁]
      refine wp_redirectStream (hf₁ ▸ hopen) fun r saved w₂ cs hm₂ hr => h _ _ w₂ _ (hm₁.trans hm₂)
        (fun hok fd hne hfd => ?_) fun outcome hd => ?_
      · rw [hr.spared hok fd hne (hf₁ ▸ hfd), hsame]
      · have hred := hr.redirects hd.right
        refine ⟨?_, hred.result, fun hok => (hred.onFile hok).before hm₁ (hsame 1)⟩
        rw [opens_append, hred.opens]
        rfl

theorem wp_redirectInput_agree {cmd : Command} {savedOut : Int} {Q : Int × Int × Int → World → Prop}
    (hopen : w.kernel.fds.IsOpen 0)
    (h : ∀ r savedIn w' cs, Made cs w w' → Spared 0 r w w' →
      (∀ outcome, Decides outcome cs → Redirects outcome 0 cmd.inputOpening r cs w w') →
      Q (r, savedOut, savedIn) w') :
    Prog.wp (redirectInput cmd (ok, savedOut)) Q R w := by
  unfold redirectInput
  unfold Command.inputOpening at h
  rw [if_neg (by simp)]
  cases hfile : cmd.redirect.inputFile with
  | none =>
    rw [hfile] at h
    exact h _ _ w [] (.refl w) (fun _ _ _ _ => rfl) fun outcome _ => .nothing outcome 0 w
  | some path =>
    rw [hfile] at h
    rw [Prog.wp_bind]
    exact wp_redirectStream hopen fun r savedIn w₁ cs hm₁ hr =>
      h _ _ w₁ _ hm₁ hr.spared fun outcome hd => hr.redirects hd

/-- **The redirection of a builtin.** -/
theorem wp_builtinApplyRedirect_agree {cmd : Command} (h₀ : w.kernel.fds.IsOpen 0)
    (h₁ : w.kernel.fds.IsOpen 1) :
    Prog.wp (builtinApplyRedirect cmd) (fun r w' => ∃ cs, Made cs w w' ∧ ∀ outcome, Decides outcome cs →
      Redirected outcome cmd r.1 cs w w') R w := by
  rw [builtinApplyRedirect, Prog.wp_bind]
  refine wp_redirectOutput_agree h₁ fun r savedOut w₁ cs₁ hm₁ hs₁ hr => ?_
  by_cases hok : r = ok
  · subst hok
    have hopen : w₁.kernel.fds.IsOpen 0 := by
      rw [isOpen_iff_desc, hs₁ rfl 0 (by decide) h₀]
      exact isOpen_iff_desc.mp h₀
    exact wp_redirectInput_agree hopen fun r₂ savedIn w₂ cs₂ hm₂ hs₂ hr₂ =>
      ⟨cs₁ ++ cs₂, hm₁.trans hm₂, fun outcome hd =>
      (hr outcome hd.left).both (hr₂ outcome hd.right) hm₁ hm₂ hs₁ hs₂ h₀ h₁⟩
  · unfold redirectInput
    rw [if_pos hok]
    exact ⟨cs₁, hm₁, fun outcome hd => (hr outcome hd).alone hok⟩

/-- **The redirection of a child.** -/
theorem wp_setredirect_agree {com : Command} (h₀ : w.kernel.fds.IsOpen 0) (h₁ : w.kernel.fds.IsOpen 1) :
    Prog.wp (setredirect com) (fun r w' => ∃ cs, Made cs w w' ∧ ∀ outcome, Decides outcome cs →
      Redirected outcome com r cs w w') R w := by
  have output : ∀ {Q : Int → World → Prop}, (∀ r w' cs, Made cs w w' → Spared 1 r w w' →
      (∀ outcome, Decides outcome cs → Redirects outcome 1 com.outputOpening r cs w w') → Q r w') →
      Prog.wp (setredirectOutput com) Q R w := fun h => by
    unfold setredirectOutput
    unfold Command.outputOpening Command.outputFlags at h
    cases hfile : com.redirect.outputFile with
    | none =>
      rw [hfile] at h
      exact h _ w [] (.refl w) (fun _ _ _ _ => rfl) fun outcome _ => .nothing outcome 1 w
    | some path =>
      rw [hfile] at h
      exact wp_setredirectStream h₁ h
  have input : ∀ {w₁ : World} {Q : Int → World → Prop}, w₁.kernel.fds.IsOpen 0 →
    (∀ r w' cs, Made cs w₁ w' →
      Spared 0 r w₁ w' → (∀ outcome, Decides outcome cs →
        Redirects outcome 0 com.inputOpening r cs w₁ w') → Q r w') →
      Prog.wp (setredirectInput com) Q R w₁ := fun {w₁ _} hopen h => by
    unfold setredirectInput
    unfold Command.inputOpening at h
    cases hfile : com.redirect.inputFile with
    | none =>
      rw [hfile] at h
      exact h _ w₁ [] (.refl w₁) (fun _ _ _ _ => rfl) fun outcome _ => .nothing outcome 0 w₁
    | some path =>
      rw [hfile] at h
      exact wp_setredirectStream hopen h
  unfold setredirect
  rw [Prog.wp_bind]
  apply output
  intro r w₁ cs₁ hm₁ hs₁ hr
  by_cases hok : r = ok
  · subst hok
    rw [if_neg (by simp)]
    have hopen : w₁.kernel.fds.IsOpen 0 := by
      rw [isOpen_iff_desc, hs₁ rfl 0 (by decide) h₀]
      exact isOpen_iff_desc.mp h₀
    exact input hopen fun r₂ w₂ cs₂ hm₂ hs₂ hr₂ =>
      ⟨cs₁ ++ cs₂, hm₁.trans hm₂, fun outcome hd =>
      (hr outcome hd.left).both (hr₂ outcome hd.right) hm₁ hm₂ hs₁ hs₂ h₀ h₁⟩
  · rw [if_pos hok]
    exact ⟨cs₁, hm₁, fun outcome hd => (hr outcome hd).alone hok⟩

/-! ### What becomes of a failure -/

/-- One of the files cannot be opened. -/
def FileRefused (outcome : Bytes → OpenFlags → Bool) (cmd : Command) : Prop :=
  ∃ y ∈ cmd.openings, outcome y.1 y.2 = false

theorem Redirected.refused {cmd : Command} (h : Redirected outcome cmd r cs w w') (hr : FileRefused outcome cmd) :
    r = errOpen := by
  obtain ⟨y, hy, hfalse⟩ := hr
  rw [h.result, if_neg fun hall => by rw [hall y hy] at hfalse; cases hfalse]

theorem Redirected.granted {cmd : Command} (h : Redirected outcome cmd r cs w w')
    (hr : ¬ FileRefused outcome cmd) :
    r = ok := by
  rw [h.result, if_pos fun y hy => Bool.eq_true_of_not_eq_false fun hfalse => hr ⟨y, hy, hfalse⟩]

theorem shellNormalizeStatus_error {e : Int} (he : e < 0) : shellNormalizeStatus e = 1 := if_pos he

/-- **A builtin whose redirection is refused**: the handler is not run, and the exit status is 1. -/
theorem shellCommand_refused {cmd : Command} {name : Bytes} {entry : Builtin} (hname : cmd.argv0 = some name)
    (hentry : builtinLookup name = some entry) (hfg : cmd.background = false) (h₀ : w.kernel.fds.IsOpen 0)
    (h₁ : w.kernel.fds.IsOpen 1) {savedOut savedIn : Int}
    (hrun : builtinApplyRedirect cmd w = .done (errOpen, savedOut, savedIn) w') :
    dispatcherCommand cmd [] w = dispatchAbandon errOpen savedOut savedIn w' ∧
      ∃ w'', shellCommand cmd [] w = .done () w'' ∧ w''.ctx.lastExitStatus = 1 := by
  have hdispatch : dispatcherCommand cmd [] w = dispatchAbandon errOpen savedOut savedIn w' := by
    rw [dispatcherCommand_builtin hname hentry, if_neg (by simp [hfg]), dispatchBuiltin_eq, Prog.bind_done hrun,
      if_pos (show errOpen ≠ ok by decide)]
  refine ⟨hdispatch, ?_⟩
  obtain ⟨ret, so, si, w₁, cs, hdone, -, -, hd, -⟩ := @builtinApplyRedirect_spec w cmd h₀ h₁
  rw [hrun] at hdone
  cases hdone
  have habandon : Prog.wp (dispatchAbandon errOpen savedOut savedIn) (fun r _ => r = errOpen)
      (fun _ => False) w' := by
    unfold dispatchAbandon
    rw [Prog.wp_bind]
    apply wp_builtinRestoreRedirect hd
    intro r w₂ _ _ _
    rw [Prog.wp_ite]
    exact ⟨fun _ => rfl, fun _ => rfl⟩
  obtain ⟨r, w₂, hr, rfl⟩ := Prog.wp_total.mp habandon
  refine ⟨_, Prog.bind_done (hdispatch.trans hr), ?_⟩
  exact shellNormalizeStatus_error (e := errOpen) (by decide)

/-- **A command whose child exits with 1**: the exit status is 1. -/
theorem shellCommand_exited {cmd : Command} {name : Bytes} (hname : cmd.argv0 = some name)
    (hentry : builtinLookup name = none) (hfg : cmd.background = false) (hrun : shellCommand cmd [] w = .done () w')
    {seg : List Event} (hseg : w'.log = w.log ++ seg) (hends : EndsAs (fun _ => .exited 1) seg) :
    w'.ctx.lastExitStatus = 1 := by
  have hdispatch : dispatcherCommand cmd [] = executeCommand cmd [] := by
    unfold dispatcherCommand
    simp only [hname, hentry]
    rw [if_neg (by simp)]
  unfold shellCommand at hrun
  rw [hdispatch, Prog.bind_apply] at hrun
  cases hexec : executeCommand cmd [] w with
  | blocked w₁ => rw [hexec] at hrun; cases hrun
  | done status w₁ =>
    rw [hexec] at hrun
    cases hrun
    have hstatus : status < 0 ∨ status = ((1 : Fin 256) : ℕ) := by
      have hwp : Prog.wp (executeCommand cmd []) (fun status w₁ => w₁.log = w.log ++ seg →
          status < 0 ∨ status = ((1 : Fin 256) : ℕ)) (fun _ => True) w := by
        unfold executeCommand checkJobLimit
        rw [Prog.wp_bind, Prog.wp_get_bind]
        split
        · exact fun _ => Or.inl (by decide)
        · rw [Prog.wp_pure, if_neg (by simp), if_neg (by simp)]
          unfold Prog.wp
          cases hsingle : executeSingle cmd w with
          | blocked w₂ => trivial
          | done r w₂ => exact fun hlog => executeSingle_exited hfg hsingle hlog hends
      exact Prog.wp_done hwp hexec hseg
    rcases hstatus with hneg | hone
    · exact shellNormalizeStatus_error hneg
    · rw [hone]
      rfl

/-- **Builtin and external redirection agree.**  When nothing fails but the opens, and these end alike, the shell in `w`
and a child in `v` open the same files in the same order, put the same files on descriptors 0 and 1 and return the same.
A file that cannot be opened keeps the handler or the program from running, and the exit status becomes 1. -/
theorem redirections_agree (cmd : Command) (outcome : Bytes → OpenFlags → Bool) {w v w' v' : World}
    {ret savedOut savedIn r : Int} {cs cs' : List Call}
    (hw₀ : w.kernel.fds.IsOpen 0) (hw₁ : w.kernel.fds.IsOpen 1) (hv₀ : v.kernel.fds.IsOpen 0)
    (hv₁ : v.kernel.fds.IsOpen 1) (hshell : builtinApplyRedirect cmd w = .done (ret, savedOut, savedIn) w')
    (hcs : Made cs w w') (hchild : setredirect cmd v = .done r v') (hcs' : Made cs' v v')
    (hd : Decides outcome cs) (hd' : Decides outcome cs') :
    opens cs = opens cs' ∧ opens cs = tried outcome cmd.openings ∧ ret = r ∧
      (¬ FileRefused outcome cmd → ret = ok ∧ childCommand cmd v = .done (.execs cmd.argv) v' ∧
        OnFile w w' 1 cmd.outputOpening ∧ OnFile v v' 1 cmd.outputOpening ∧
        OnFile w w' 0 cmd.inputOpening ∧ OnFile v v' 0 cmd.inputOpening) ∧
      (FileRefused outcome cmd → cmd.background = false → ∀ name, cmd.argv0 = some name →
        (∀ entry, builtinLookup name = some entry →
          dispatcherCommand cmd [] w = dispatchAbandon ret savedOut savedIn w' ∧
          ∃ w'', shellCommand cmd [] w = .done () w'' ∧ w''.ctx.lastExitStatus = 1) ∧
        (builtinLookup name = none → childCommand cmd v = .done (.exits 1) v' ∧
          ∀ u u' seg, shellCommand cmd [] u = .done () u' → u'.log = u.log ++ seg →
            EndsAs (fun _ => .exited 1) seg → u'.ctx.lastExitStatus = 1)) := by
  have made_eq : ∀ {u u' : World} {as bs : List Call}, Made as u u' → Made bs u u' → as = bs := by
    rintro u u' as bs ⟨seg, hlog, rfl⟩ ⟨seg', hlog', rfl⟩
    rw [List.append_cancel_left (hlog.symm.trans hlog')]
  obtain ⟨_, hm, hred⟩ := Prog.wp_done (wp_builtinApplyRedirect_agree (R := fun _ => True) hw₀ hw₁) hshell
  obtain rfl := made_eq hm hcs
  obtain ⟨_, hm', hred'⟩ := Prog.wp_done (wp_setredirect_agree (R := fun _ => True) hv₀ hv₁) hchild
  obtain rfl := made_eq hm' hcs'
  have hshellR := hred outcome hd
  have hchildR := hred' outcome hd'
  have hret : ret = r := hshellR.result.trans hchildR.result.symm
  have hcommand : childCommand cmd v = (if r ≠ ok then pure (.exits 1) else pure (.execs cmd.argv) :
      Sh ChildEnd) v' :=
    Prog.bind_done hchild
  refine ⟨hshellR.opens.trans hchildR.opens.symm, hshellR.opens, hret, fun hgranted => ?_,
    fun hrefused hfg name hname =>
    ⟨fun entry hentry => ?_, fun hentry =>
      ⟨?_, fun u u' seg hu hseg hends => shellCommand_exited hname hentry hfg hu hseg hends⟩⟩⟩
  · have hok := hchildR.granted hgranted
    refine ⟨hshellR.granted hgranted, ?_, hshellR.stdout (hret.trans hok), hchildR.stdout hok,
      hshellR.stdin (hret.trans hok), hchildR.stdin hok⟩
    rw [hcommand, if_neg (not_not.mpr hok)]
    rfl
  · obtain rfl := hshellR.refused hrefused
    exact shellCommand_refused hname hentry hfg hw₀ hw₁ hshell
  · rw [hcommand, if_pos (by rw [hchildR.refused hrefused]; decide)]
    rfl

/-- A child with its standard descriptors, in which the open of the input file fails. -/
def refusedChild : World := { refusedInput with script := [.res .ok, .res .ok, .res (.fail .other)] }

/-- The open of the input fails. -/
def noInput (_ : Bytes) (flags : OpenFlags) : Bool := flags ≠ .readOnly

theorem made_of_nil {w w' : World} (h : w.log = []) : Made (calls w'.log) w w' := ⟨w'.log, by rw [h]; rfl, rfl⟩

/-- Both open the output, then the input, and fail. -/
theorem refusedInput_agree : ∃ w' v' savedOut savedIn,
    builtinApplyRedirect redirectedStatus refusedInput = .done (errOpen, savedOut, savedIn) w' ∧
    setredirect redirectedStatus refusedChild = .done errOpen v' ∧
    opens (calls w'.log) = opens (calls v'.log) ∧
    (∃ w'', shellCommand redirectedStatus [] refusedInput = .done () w'' ∧ w''.ctx.lastExitStatus = 1) := by
  have hcalls : calls (builtinApplyRedirect redirectedStatus refusedInput).state.log =
      [.fflush .ok, .dupfd 1 (some 3), .open_ [111] .createTruncate (some 4), .dup2 4 1 .ok, .close 4,
        .dupfd 0 (some 4), .open_ [105] .readOnly none] := by decide +kernel
  have hcalls' : calls (setredirect redirectedStatus refusedChild).state.log =
      [.open_ [111] .createTruncate (some 3), .dup2 3 1 .ok, .close 3, .open_ [105] .readOnly none] := by
        decide +kernel
  have hd : Decides noInput (calls (builtinApplyRedirect redirectedStatus refusedInput).state.log) := by
    rw [hcalls]
    constructor
    · intro path flags fd hm
      simp at hm
      rcases hm with ⟨-, rfl, rfl⟩ | ⟨-, rfl, rfl⟩ <;> rfl
    · intro c hm hfail
      simp at hm
      rcases hm with rfl | rfl | rfl | rfl | rfl | rfl | rfl <;>
        first | exact ⟨_, _, rfl⟩ | exact absurd hfail id
  have hd' : Decides noInput (calls (setredirect redirectedStatus refusedChild).state.log) := by
    rw [hcalls']
    constructor
    · intro path flags fd hm
      simp at hm
      rcases hm with ⟨-, rfl, rfl⟩ | ⟨-, rfl, rfl⟩ <;> rfl
    · intro c hm hfail
      simp at hm
      rcases hm with rfl | rfl | rfl | rfl <;> first | exact ⟨_, _, rfl⟩ | exact absurd hfail id
  have hshell : builtinApplyRedirect redirectedStatus refusedInput =
      .done (errOpen, 3, 4) (builtinApplyRedirect redirectedStatus refusedInput).state := by decide +kernel
  have hchild : setredirect redirectedStatus refusedChild =
      .done errOpen (setredirect redirectedStatus refusedChild).state := by decide +kernel
  have hagree := redirections_agree redirectedStatus noInput (w := refusedInput) (v := refusedChild)
    (by decide) (by decide)
    (by decide) (by decide) hshell (made_of_nil rfl) hchild (made_of_nil rfl) hd hd'
  have hrefused : FileRefused noInput redirectedStatus := ⟨([105], .readOnly), by decide, rfl⟩
  exact ⟨_, _, _, _, hshell, hchild, hagree.1, ((hagree.2.2.2.2 hrefused rfl _ rfl).1 .status (by decide)).2⟩

end MiniShell
