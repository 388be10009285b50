import MiniShell.Model.Console
import MiniShell.Spec.Agree

/-!
# The output of a redirected builtin

* `Erases H h` — without the buffer `H` is the program `h`; `erases_dispatchPrinting` says that the dispatcher
  with the buffer is the dispatcher of the shell;
* `Prints H` — `H` leaves the descriptors alone and uses `stdout` only by printing and by emptying the buffer;
  programs made of `printBytes`, `autoFlush` and the handlers of the shell do;
* **`redirected_output`** — what waited in the buffer goes to the old standard output and what the handler prints
  to the file, all of it and in order.
-/

namespace MiniShell

open MiniShell.Lib MiniShellError Buffered

variable {α β : Type}

/-! ### Without the buffer -/

/-- What is left of a run when the buffer is forgotten. -/
def Console.erase : Outcome Console α → Outcome World α
  | .done a c => .done a c.world
  | .blocked c => .blocked c.world

/-- Without the buffer `H` is `h`. -/
def Erases (H : Prog Console α) (h : Sh α) : Prop := ∀ c, Console.erase (H c) = h c.world

theorem erases_onWorld (m : Sh α) : Erases (onWorld m) m := by
  intro c
  unfold onWorld
  cases m c.world <;> rfl

theorem erases_pure (a : α) : Erases (pure a) (pure a) := fun _ => rfl

theorem Erases.bind {H : Prog Console α} {h : Sh α} {F : α → Prog Console β} {f : α → Sh β}
    (hH : Erases H h) (hF : ∀ a, Erases (F a) (f a)) : Erases (H >>= F) (h >>= f) := by
  intro c
  have hc := hH c
  rw [Prog.bind_apply, Prog.bind_apply, ← hc]
  cases H c with
  | done a c' => exact hF a c'
  | blocked c' => rfl

theorem Erases.ite {p : Prop} [Decidable p] {H H' : Prog Console α} {h h' : Sh α} (hH : Erases H h)
    (hH' : Erases H' h') :
    Erases (if p then H else H') (if p then h else h') := by
  split
  · exact hH
  · exact hH'

theorem erases_printBytes (bytes : Bytes) : Erases (printBytes bytes) (pure ()) := fun _ => rfl

theorem erases_toStdout (f : Desc → Buffered Desc UInt8 → Buffered Desc UInt8) :
    Erases (Prog.modify (Console.toStdout f)) (pure ()) := fun c => congrArg (Outcome.done ()) (toStdout_world f c)

theorem erases_autoFlush (n : ℕ) : Erases (autoFlush n) (pure ()) := erases_toStdout _

theorem erases_fflushStdout : Erases fflushStdout fflush := by
  have h : Erases fflushStdout (fflush >>= fun r => if r = .ok then pure () >>= fun _ => pure .ok else pure r) :=
    (erases_onWorld fflush).bind fun r => .ite ((erases_toStdout _).bind fun _ => erases_pure _) (erases_pure _)
  have hr : (fun r : Res => (if r = .ok then pure () >>= fun _ => pure .ok else pure r : Sh Res)) = pure := by
    funext r
    split
    · rename_i hok
      rw [hok, pure_bind]
    · rfl
  rwa [hr, bind_pure] at h

theorem onWorld_done {m : Sh α} {c : Console} {a : α} {w : World} (h : m c.world = .done a w) :
    onWorld m c = .done a { c with world := w } := by
  unfold onWorld
  rw [h]

theorem onWorld_blocked {m : Sh α} {c : Console} {w : World} (h : m c.world = .blocked w) :
    onWorld m c = .blocked { c with world := w } := by
  unfold onWorld
  rw [h]

/-- **The dispatcher with the buffer is the dispatcher of the shell.** -/
theorem erases_dispatchPrinting {H : Prog Console Int} {entry : Builtin} (hH : Erases H entry.handler)
    (cmd : Command) :
    Erases (dispatchPrinting cmd H) (dispatchBuiltin cmd entry) := by
  have output : Erases (redirectOutputPrinting cmd) (redirectOutput cmd) := by
    unfold redirectOutputPrinting redirectOutput
    cases cmd.redirect.outputFile with
    | none => exact erases_pure _
    | some path =>
      apply erases_fflushStdout.bind
      intro r
      cases r with
      | err e => exact erases_pure _
      | ok => exact erases_onWorld _
  have apply : Erases (applyRedirectPrinting cmd) (builtinApplyRedirect cmd) :=
    output.bind fun _ => erases_onWorld _
  exact apply.bind fun r =>
    .ite (erases_onWorld _) (hH.bind fun ret => erases_fflushStdout.bind fun flushed => erases_onWorld _)

/-! ### What the handler does with the buffer -/

/-- The program leaves the descriptors alone, and what it does with `stdout` is print and empty the buffer. -/
def Prints (H : Prog Console α) : Prop := ∀ c d, c.stdout = some d →
  Prog.wp H (fun _ c' => c'.world.kernel.fds = c.world.kernel.fds ∧ ∃ bs, Streams d bs c.out c'.out)
    (fun _ => True) c

theorem wp_onWorld {m : Sh α} {Q : α → Console → Prop} {R : Console → Prop} {c : Console}
    (h : Prog.wp m (fun a w => Q a { c with world := w }) (fun w => R { c with world := w }) c.world) :
    Prog.wp (onWorld m) Q R c := by
  unfold Prog.wp at h ⊢
  cases hm : m c.world with
  | done a w =>
    rw [hm] at h
    rw [onWorld_done hm]
    exact h
  | blocked w =>
    rw [hm] at h
    rw [onWorld_blocked hm]
    exact h

theorem Console.stdout_eq {c : Console} : c.stdout = descOf c.world.kernel.fds 1 := rfl

theorem Prints.bind {H : Prog Console α} {F : α → Prog Console β} (hH : Prints H) (hF : ∀ a, Prints (F a)) :
    Prints (H >>= F) := by
  intro c d hd
  rw [Prog.wp_bind]
  refine Prog.wp_mono (hH c d hd) ?_ fun _ h => h
  intro a c₁ h₁
  have hd₁ : c₁.stdout = some d := by rw [Console.stdout_eq, h₁.1, ← Console.stdout_eq, hd]
  refine Prog.wp_mono (hF a c₁ d hd₁) (fun b c₂ h₂ => ⟨h₂.1.trans h₁.1, ?_⟩) fun _ h => h
  obtain ⟨bs, hbs⟩ := h₁.2
  obtain ⟨bs', hbs'⟩ := h₂.2
  exact ⟨bs ++ bs', hbs.trans hbs'⟩

theorem prints_printBytes (bytes : Bytes) : Prints (printBytes bytes) := fun c d _ =>
  ⟨rfl, bytes, streams_print d bytes c.out⟩

theorem prints_autoFlush (n : ℕ) : Prints (autoFlush n) := by
  intro c d hd
  have hc : c.toStdout (drain n) = { c with out := c.out.drain n d } := by
    unfold Console.toStdout
    rw [hd]
  have hdrained : (c.toStdout (drain n)).world.kernel.fds = c.world.kernel.fds ∧
      ∃ bs, Streams d bs c.out (c.toStdout (drain n)).out := by
    rw [hc]
    exact ⟨rfl, [], streams_drain n d c.out⟩
  exact hdrained

/-- A program of the shell that leaves the descriptors alone, as the handlers do. -/
theorem prints_onWorld {m : Sh α} (hm : Prog.Keeps World.fds m) : Prints (onWorld m) := fun c d _ =>
  wp_onWorld (Prog.wp_mono (hm.wp c.world) (fun _ _ h => ⟨h, [], .refl d c.out⟩) fun _ _ => trivial)

/-- What the handler has printed, and the calls it has made. -/
theorem Prints.run {H : Prog Console Int} {entry : Builtin} (hP : Prints H)
    (hE : Erases H entry.handler) {c : Console} {d : Desc} (hd : c.stdout = some d) :
    Prog.wp H (fun _ c' => c'.world.kernel.fds = c.world.kernel.fds ∧
      (∃ bs, Streams d bs c.out c'.out) ∧ ∃ cs, Made cs c.world c'.world) (fun _ => True) c := by
  have hgrow : LogGrows entry.handler :=
    closed_anyHandler (K := fun _ m => LogGrows m) logGrows_vars logGrows_tty entry
  have hwp := hP c d hd
  have herase := hE c
  have hlog := hgrow c.world
  unfold Prog.wp at hwp ⊢
  cases hH : H c with
  | blocked c' => trivial
  | done a c' =>
    rw [hH] at hwp herase
    rw [← herase] at hlog
    obtain ⟨seg, hseg⟩ := hlog
    exact ⟨hwp.1, hwp.2, calls seg, seg, hseg.symm, rfl⟩

/-! ### The run of the dispatcher -/

theorem wp_fflushStdout {Q : Res → Console → Prop} {R : Console → Prop} {c : Console} {d : Desc}
    (hd : c.stdout = some d) (hok : ∀ w', Made [.fflush .ok] c.world w' → w'.kernel.fds = c.world.kernel.fds →
      Q .ok { world := w', out := c.out.flush d })
    (herr : ∀ e w', Made [.fflush (.err e)] c.world w' → w'.kernel.fds = c.world.kernel.fds →
      Q (.err e) { c with world := w' }) : Prog.wp fflushStdout Q R c := by
  unfold fflushStdout
  rw [Prog.wp_bind]
  refine wp_onWorld (wp_fflush fun r w' hmade hfds => ?_)
  cases r with
  | err e =>
    rw [if_neg (by simp)]
    exact herr e w' hmade hfds
  | ok =>
    rw [if_pos rfl, Prog.wp_modify_bind]
    have hd' : Console.stdout { c with world := w' } = some d := by
      rw [Console.stdout_eq, hfds, ← Console.stdout_eq, hd]
    have hc : Console.toStdout flush { c with world := w' } = { world := w', out := c.out.flush d } := by
      unfold Console.toStdout
      rw [hd']
    rw [hc]
    exact hok w' hmade hfds

theorem wp_onWorld_made {m : Sh α} (hm : LogGrows m) {Q : α → Console → Prop} {c : Console}
    (h : ∀ a w' cs, Made cs c.world w' → Q a { c with world := w' }) :
    Prog.wp (onWorld m) Q (fun _ => True) c := by
  refine wp_onWorld ?_
  have hlog := hm c.world
  unfold Prog.wp
  cases hrun : m c.world with
  | blocked w' => trivial
  | done a w' =>
    rw [hrun] at hlog
    obtain ⟨seg, hseg⟩ := hlog
    exact h a w' _ ⟨seg, hseg.symm, rfl⟩

theorem dispatchPrinting_eq (cmd : Command) (H : Prog Console Int) : dispatchPrinting cmd H =
    redirectOutputPrinting cmd >>= fun out => onWorld (redirectInput cmd out) >>= fun r =>
      if r.1 ≠ ok then onWorld (dispatchAbandon r.1 r.2.1 r.2.2) else H >>= finishPrinting r.2.1 r.2.2 := by
  unfold dispatchPrinting applyRedirectPrinting
  rw [bind_assoc]

theorem wp_abandonPrinting (ret savedOut savedIn : Int) {c : Console} :
    Prog.wp (onWorld (dispatchAbandon ret savedOut savedIn))
      (fun _ c' => c'.out = c.out ∧ ∃ cs, Made cs c.world c'.world) (fun _ => True) c :=
  wp_onWorld_made (closed_dispatchAbandon (K := fun _ m => LogGrows m) logGrows_vars.table ret savedOut savedIn)
    fun _ _ cs hmade => ⟨rfl, cs, hmade⟩

/-- The flush after the handler has succeeded, or it is among the calls as a failure. -/
theorem wp_finishPrinting (savedOut savedIn ret : Int) {c : Console} {d : Desc} (hd : c.stdout = some d) :
    Prog.wp (finishPrinting savedOut savedIn ret) (fun _ c' => ∃ cs, Made cs c.world c'.world ∧
      (c'.out = c.out.flush d ∨ ∃ e, .fflush (.err e) ∈ cs)) (fun _ => True) c := by
  -- restoring leaves the buffer alone
  have rest : ∀ {c₁ : Console} {cs₁ : List Call} (a : Int), Made cs₁ c.world c₁.world →
      (c₁.out = c.out.flush d ∨ ∃ e, .fflush (.err e) ∈ cs₁) →
        Prog.wp (onWorld (dispatchRestore savedOut savedIn a))
        (fun _ c' => ∃ cs, Made cs c.world c'.world ∧
          (c'.out = c.out.flush d ∨ ∃ e, .fflush (.err e) ∈ cs)) (fun _ => True) c₁ := by
    intro c₁ cs₁ a hm₁ hout
    have hgrow := closed_dispatchRestore (K := fun _ m => LogGrows m) logGrows_vars.table savedOut savedIn a
    exact wp_onWorld_made hgrow fun _ w₂ cs₂ hm₂ =>
      ⟨cs₁ ++ cs₂, hm₁.trans hm₂, hout.imp_right fun ⟨e, he⟩ => ⟨e, List.mem_append_left _ he⟩⟩
  unfold finishPrinting
  rw [Prog.wp_bind]
  refine wp_fflushStdout hd (fun w₁ hm₁ _ => ?_) fun e w₁ hm₁ _ => ?_
  · exact rest _ hm₁ (Or.inl rfl)
  · exact rest _ hm₁ (Or.inr ⟨e, List.mem_singleton_self _⟩)

/-- All that was printed since `c`, whose buffer was empty, went to the file, and nothing else was written. -/
structure Filed (path : Bytes) (flags : OpenFlags) (c c' : Console) : Prop where
  pending : c'.out.pending = []
  output : ∃ bs, c'.out.printed = c.out.printed ++ bs ∧ (bs = [] ∧ c'.out.written = c.out.written ∨
    ∃ n, Opened path flags n c.world c'.world ∧ c'.out.written = deliver c.out.written (.file n) bs)

/-- The handler has not run. -/
theorem filed_nothing {path : Bytes} {flags : OpenFlags} {c c' : Console} (hempty : c.out.pending = [])
    (hout : c'.out = c.out) : Filed path flags c c' where
  pending := by rw [hout, hempty]
  output := ⟨[], by rw [hout, List.append_nil], Or.inl ⟨rfl, by rw [hout]⟩⟩

/-- `stdout` is on the file when the redirection of the output has succeeded. -/
theorem StreamResult.onFile {w w' : World} {path : Bytes} {flags : OpenFlags} {r saved : Int} {cs : List Call}
    (h : StreamResult w 1 path flags r saved cs w') (hr : r = ok) :
    ∃ n, descOf w'.kernel.fds 1 = some (.file n) ∧ Opened path flags n w w' := by
  cases h with
  | unsaved _ => exact absurd hr (by decide)
  | unopened _ _ _ => exact absurd hr (by decide)
  | unmoved _ _ _ _ _ => exact absurd hr (by decide)
  | moved _ _ hn hf _ _ => exact ⟨_, by rw [hf, if_pos rfl], hn⟩

/-- The dispatcher after the flush before the redirection. -/
def redirectedPrinting (cmd : Command) (path : Bytes) (H : Prog Console Int) : Prog Console Int :=
  onWorld (redirectStream 1 path cmd.outputFlags) >>= fun out => onWorld (redirectInput cmd out) >>= fun r =>
    if r.1 ≠ ok then onWorld (dispatchAbandon r.1 r.2.1 r.2.2) else H >>= finishPrinting r.2.1 r.2.2

section Redirected

variable {cmd : Command} {path : Bytes} {entry : Builtin} {H : Prog Console Int} {c c' : Console}

/-- With `stdout` on the file the handler's output goes there. -/
theorem wp_handlerPrinting {n : ℕ} {cs : List Call} {c₀ : Console} (hE : Erases H entry.handler) (hP : Prints H)
    (hempty : c.out.pending = []) (hout : c.out = c₀.out) (hmade : Made cs c₀.world c.world)
    (hn : Opened path cmd.outputFlags n c₀.world c.world) (hd : c.stdout = some (.file n))
    (savedOut savedIn : Int) :
    Prog.wp (H >>= finishPrinting savedOut savedIn) (fun _ c' => ∃ cs, Made cs c₀.world c'.world ∧
      ((∀ e, .fflush (.err e) ∉ cs) → Filed path cmd.outputFlags c₀ c')) (fun _ => True) c := by
  rw [Prog.wp_bind]
  refine Prog.wp_mono (hP.run hE hd) ?_ fun _ h => h
  intro ret c₁ h
  obtain ⟨hfds, ⟨bs, hbs⟩, cs₁, hm₁⟩ := h
  have hd₁ : c₁.stdout = some (.file n) := by rw [Console.stdout_eq, hfds, ← Console.stdout_eq, hd]
  refine Prog.wp_mono (wp_finishPrinting savedOut savedIn ret hd₁) ?_ fun _ h => h
  intro ret' c₂ h
  obtain ⟨cs₂, hm₂, hflush⟩ := h
  refine ⟨cs ++ (cs₁ ++ cs₂), hmade.trans (hm₁.trans hm₂), fun hsucc => ?_⟩
  rcases hflush with hflush | ⟨e, he⟩
  · refine ⟨by rw [hflush]; rfl, bs, ?_, Or.inr ⟨n, hn.between (.refl _) (hm₁.trans hm₂), ?_⟩⟩
    · rw [hflush, ← hout]
      exact hbs.printed
    · rw [hflush, hbs.flush_written, hempty, List.nil_append, hout]
  · exact absurd (List.mem_append_right _ (List.mem_append_right _ he)) (hsucc e)

theorem wp_redirectedPrinting (hE : Erases H entry.handler) (hP : Prints H) (hempty : c.out.pending = [])
    (h₀ : c.world.kernel.fds.IsOpen 0) (h₁ : c.world.kernel.fds.IsOpen 1) :
    Prog.wp (redirectedPrinting cmd path H) (fun _ c' => ∃ cs, Made cs c.world c'.world ∧
      ((∀ e, .fflush (.err e) ∉ cs) → Filed path cmd.outputFlags c c')) (fun _ => True) c := by
  -- nothing has been printed when the redirection fails
  have abandon : ∀ {cs : List Call} {w : World} (ret savedOut savedIn : Int), Made cs c.world w →
      Prog.wp (onWorld (dispatchAbandon ret savedOut savedIn)) (fun _ c' => ∃ cs, Made cs c.world c'.world ∧
        ((∀ e, .fflush (.err e) ∉ cs) → Filed path cmd.outputFlags c c')) (fun _ => True)
          { c with world := w } := by
    intro cs w ret savedOut savedIn hm
    refine Prog.wp_mono (wp_abandonPrinting ret savedOut savedIn) ?_ fun _ h => h
    intro _ c' h
    obtain ⟨hout, cs', hm'⟩ := h
    exact ⟨cs ++ cs', hm.trans hm', fun _ => filed_nothing hempty hout⟩
  unfold redirectedPrinting
  rw [Prog.wp_bind]
  refine wp_onWorld (wp_redirectStream h₁ fun r savedOut w₁ cs₁ hm₁ hr => ?_)
  rw [Prog.wp_bind]
  by_cases hok : r = ok
  · obtain ⟨n, hd, hn⟩ := hr.onFile hok
    have hopen : w₁.kernel.fds.IsOpen 0 := by
      rw [isOpen_iff_desc, hr.spared hok 0 (by decide) h₀]
      exact isOpen_iff_desc.mp h₀
    rw [hok]
    refine wp_onWorld (c := { c with world := w₁ })
      (wp_redirectInput_agree hopen fun r₂ savedIn w₂ cs₂ hm₂ hs₂ _ => ?_)
    rw [Prog.wp_ite]
    refine ⟨fun _ => abandon _ _ _ (hm₁.trans hm₂), fun hok₂ => ?_⟩
    have hdup : descOf w₂.kernel.fds 1 = some (.file n) := by
      rw [hs₂ (not_not.mp hok₂) 1 (by decide), hd]
      rw [isOpen_iff_desc, hd]
      simp
    exact @wp_handlerPrinting cmd path entry H { c with world := w₂ } n _ c hE hP hempty rfl (hm₁.trans hm₂)
      (hn.between (.refl _) hm₂) hdup savedOut savedIn
  · have hinput : redirectInput cmd (r, savedOut) = pure (r, savedOut, -1) := if_pos hok
    rw [hinput]
    refine wp_onWorld (c := { c with world := w₁ }) ?_
    rw [Prog.wp_pure, if_pos hok]
    exact abandon _ _ _ hm₁

variable {w₁ : World} {d : Desc} (hfile : cmd.redirect.outputFile = some path)
include hfile

/-- The flush before the redirection has failed: nothing was saved, so nothing is restored. -/
theorem dispatchPrinting_refused {e : Errno} (hflush : fflush c.world = .done (.err e) w₁)
    (H : Prog Console Int) :
    dispatchPrinting cmd H c = .done errUnknown { c with world := w₁ } := by
  have hflushed : fflushStdout c = .done (.err e) { c with world := w₁ } := by
    unfold fflushStdout
    rw [Prog.bind_done (onWorld_done hflush), if_neg (by simp)]
    rfl
  have houtput : redirectOutputPrinting cmd c = .done (errUnknown, -1) { c with world := w₁ } := by
    unfold redirectOutputPrinting
    rw [hfile]
    exact (Prog.bind_done hflushed).trans rfl
  have hrestore : builtinRestoreRedirect (-1) (-1) = pure ok := by
    unfold builtinRestoreRedirect
    rw [restoreStream_none (by decide), restoreStream_none (by decide)]
    rfl
  have habandon : onWorld (dispatchAbandon errUnknown (-1) (-1)) { c with world := w₁ } =
      .done errUnknown { c with world := w₁ } := by
    unfold dispatchAbandon
    rw [hrestore]
    rfl
  rw [dispatchPrinting_eq, Prog.bind_done houtput]
  exact habandon

/-- The flush before the redirection has succeeded. -/
theorem dispatchPrinting_flushed (hflush : fflush c.world = .done .ok w₁) (hd : c.stdout = some d)
    (hfds : w₁.kernel.fds = c.world.kernel.fds) (H : Prog Console Int) :
    dispatchPrinting cmd H c = redirectedPrinting cmd path H { world := w₁, out := c.out.flush d } := by
  have hd' : Console.stdout { c with world := w₁ } = some d := by
    rw [Console.stdout_eq, hfds, ← Console.stdout_eq, hd]
  have hflushed : fflushStdout c = .done .ok { world := w₁, out := c.out.flush d } := by
    unfold fflushStdout
    rw [Prog.bind_done (onWorld_done hflush), if_pos rfl]
    have hc : Console.toStdout flush { c with world := w₁ } = { world := w₁, out := c.out.flush d } := by
      unfold Console.toStdout
      rw [hd']
    exact congrArg (Outcome.done Res.ok) hc
  have houtput : redirectOutputPrinting cmd c =
      onWorld (redirectStream 1 path cmd.outputFlags) { world := w₁, out := c.out.flush d } := by
    unfold redirectOutputPrinting
    rw [hfile]
    exact (Prog.bind_done hflushed).trans rfl
  rw [dispatchPrinting_eq, Prog.bind_apply, houtput]
  rfl

end Redirected

/-- Everything is where it belongs: what waited in `c` went to `d`, what was printed since went to the file, and nothing
else was written. -/
structure Placed (path : Bytes) (flags : OpenFlags) (d : Desc) (c c' : Console) : Prop where
  pending : c'.out.pending = []
  output : ∃ bs, c'.out.printed = c.out.printed ++ bs ∧
    (bs = [] ∧ c'.out.written = deliver c.out.written d c.out.pending ∨
      ∃ n, Opened path flags n c.world c'.world ∧
        c'.out.written = deliver (deliver c.out.written d c.out.pending) (.file n) bs)

/-- **The output of a redirected builtin.**  When no flush fails, what waited in the buffer is written to the old
standard output, all that the handler prints is written to the file in order, nothing else is written and the
buffer is empty. When the flush before the redirection fails, it is the only call that is made, and the handler
does not matter. -/
theorem redirected_output {cmd : Command} {path : Bytes} {entry : Builtin} {H : Prog Console Int} {c c' : Console}
    {ret : Int} {d : Desc} (hfile : cmd.redirect.outputFile = some path) (hE : Erases H entry.handler)
    (hP : Prints H) (h₀ : c.world.kernel.fds.IsOpen 0) (hd : c.stdout = some d)
    (hrun : dispatchPrinting cmd H c = .done ret c') :
    dispatchBuiltin cmd entry c.world = .done ret c'.world ∧
      ∃ flushed cs, Made (.fflush flushed :: cs) c.world c'.world ∧
      ((∀ e, .fflush (.err e) ∉ .fflush flushed :: cs) → Placed path cmd.outputFlags d c c') ∧
      (flushed ≠ .ok → cs = [] ∧ c'.out = c.out ∧ ∀ H', dispatchPrinting cmd H' c =
        .done errUnknown c') := by
  have herase : dispatchBuiltin cmd entry c.world = .done ret c'.world := by
    rw [← erases_dispatchPrinting hE cmd c, hrun]
    rfl
  have h₁ : c.world.kernel.fds.IsOpen 1 := by
    rw [isOpen_iff_desc, ← Console.stdout_eq, hd]
    simp
  refine ⟨herase, ?_⟩
  obtain ⟨flushed, w₁, hflush, hm₁, hfds⟩ : ∃ r w₁, fflush c.world = .done r w₁ ∧
    Made [.fflush r] c.world w₁ ∧
      w₁.kernel.fds = c.world.kernel.fds := by
    have hwp : Prog.wp fflush (fun r w₁ => Made [.fflush r] c.world w₁ ∧ w₁.kernel.fds = c.world.kernel.fds)
      (fun _ => False) c.world := wp_fflush fun r w₁ hm hf => ⟨hm, hf⟩
    obtain ⟨r, w₁, hdone, h⟩ := Prog.wp_total.mp hwp
    exact ⟨r, w₁, hdone, h⟩
  cases flushed with
  | err e =>
    have hrefused := dispatchPrinting_refused hfile hflush
    have hc : c' = { c with world := w₁ } := by
      rw [hrefused H] at hrun
      cases hrun
      rfl
    subst hc
    exact ⟨.err e, [], hm₁, fun hsucc => absurd (List.mem_singleton_self _) (hsucc e),
      fun _ => ⟨rfl, rfl, hrefused⟩⟩
  | ok =>
    rw [dispatchPrinting_flushed hfile hflush hd hfds] at hrun
    have hwp := @wp_redirectedPrinting cmd path entry H { world := w₁, out := c.out.flush d } hE hP rfl
      (by rw [hfds]; exact h₀) (by rw [hfds]; exact h₁)
    obtain ⟨cs, hm, hfiled⟩ := Prog.wp_done hwp hrun
    refine ⟨.ok, cs, hm₁.trans hm, fun hsucc => ?_, fun hne => absurd rfl hne⟩
    obtain ⟨hpending, bs, hprinted, hout⟩ := hfiled fun e he => hsucc e (List.mem_cons_of_mem _ he)
    refine ⟨hpending, bs, hprinted, hout.imp_right ?_⟩
    rintro ⟨n, hn, hwritten⟩
    exact ⟨n, hn.between hm₁ (.refl _), hwritten⟩

/-- `status > o`, with a notice in the buffer of which the library writes two bytes while the handler prints. -/
def noticed : Console where
  world := { refusedInput with script := List.replicate 10 (.res .ok) }
  out := ⟨[91, 49, 93], fun _ => [], [91, 49, 93]⟩

def statusPrinting : Prog Console Int := do
  printBytes [79, 75, 10]
  autoFlush 2
  onWorld Builtin.status.handler

def printingToFile : Command := { redirectedStatus with redirect := ⟨none, some [111], false⟩ }

theorem noticed_placed : ∃ c', dispatchPrinting printingToFile statusPrinting noticed = .done ok c' ∧
    Placed [111] .createTruncate (.file 1) noticed c' := by
  have hE : Erases statusPrinting Builtin.status.handler :=
    (erases_printBytes _).bind fun _ => (erases_autoFlush 2).bind fun _ => erases_onWorld _
  have hP : Prints statusPrinting :=
    (prints_printBytes _).bind fun _ => (prints_autoFlush 2).bind fun _ => prints_onWorld (keepsFds_handler .status)
  obtain ⟨c', hrun, hcalls⟩ : ∃ c', dispatchPrinting printingToFile statusPrinting noticed = .done ok c' ∧
      calls c'.world.log = [.fflush .ok, .dupfd 1 (some 3), .open_ [111] .createTruncate (some 4), .dup2 4 1 .ok,
        .close 4, .fflush .ok, .dup2 3 1 .ok, .close 3] := ⟨_, rfl, by decide +kernel⟩
  obtain ⟨-, flushed, cs, ⟨seg, hlog, hseg⟩, hplaced, -⟩ :=
    @redirected_output printingToFile [111] .status statusPrinting noticed c' ok (.file 1) rfl hE hP
      (by decide) rfl hrun
  have hall : .fflush flushed :: cs = calls c'.world.log := by
    rw [hlog, ← hseg]
    rfl
  refine ⟨c', hrun, hplaced fun e he => ?_⟩
  rw [hall, hcalls] at he
  simp at he

end MiniShell
