import MiniShell.Spec.Record

/-!
# The redirection of a builtin is undone

* `FdTable.descOf` — what a descriptor refers to;
* `Diverted F₀ saves F` — the table `F` is `F₀` with some standard descriptors sent elsewhere, and `saves`
  says where the old ones are kept; `redirectStream` adds to `saves`, `restoreStream` takes from it, and when
  nothing is left in it every descriptor is what it was;
* `Call.FailsStep` — a step of the redirection that has failed for good;
* **`dispatcherCommand_undoes_redirect`** — whatever fails, a builtin leaves the descriptors as it found them, or
  restoring one of them has failed and the shell stops; its handler is run once when every step of the redirection
  has succeeded, and is not run otherwise.
-/

namespace MiniShell

open MiniShell.Lib MiniShellError

/-! ### Calls and what they do to the descriptors -/

/-- The calls `cs` have been made between `w` and `w'`. -/
def Made (cs : List Call) (w w' : World) : Prop := ∃ seg, w'.log = w.log ++ seg ∧ calls seg = cs

section Made

variable {w w₁ w₂ : World} {cs cs' : List Call}

theorem Made.refl (w : World) : Made [] w w := ⟨[], by simp, rfl⟩

theorem Made.trans (h : Made cs w w₁) (h' : Made cs' w₁ w₂) : Made (cs ++ cs') w w₂ := by
  obtain ⟨seg, hlog, rfl⟩ := h
  obtain ⟨seg', hlog', rfl⟩ := h'
  exact ⟨seg ++ seg', by rw [hlog', hlog, List.append_assoc], calls_append _ _⟩

end Made

/-- The call `c` has been made between `w` and `w'`, on the kernel `k`. -/
def Did (c : Call) (k : Kernel) (w w' : World) : Prop :=
  ∃ (es : List Env) (js : List Job), w'.log = w.log ++ (es.map Event.env ++ [.call c k js])

theorem Did.made {c : Call} {k : Kernel} {w w' : World} (h : Did c k w w') : Made [c] w w' := by
  obtain ⟨es, js, hlog⟩ := h
  exact ⟨_, hlog, by rw [calls_append, calls_envs]; rfl⟩

variable {α : Type} {R : World → Prop} {w : World}

/-- The rule of a system call, for what it does to the kernel and to the log. -/
theorem wp_call {f : Choice → Kernel → α × Kernel} {call : α → Call} {Q : α → World → Prop}
    (h : ∀ c k w', k.fds = w.kernel.fds → Did (call (f c k).1) k w w' → w'.kernel = (f c k).2 →
      (c ≠ .ok → w'.script.length < w.script.length) → Q (f c k).1 w') :
    Prog.wp (syscall f call) Q R w := by
  apply wp_syscall
  intro used c rest ht
  exact h c (w.drift used rest).kernel _ (World.drift_fds ..)
    ⟨envs used, w.jobs, List.append_assoc ..⟩ rfl ht.length_lt

theorem wp_fflush {Q : Res → World → Prop}
    (h : ∀ r w', Made [.fflush r] w w' → w'.kernel.fds = w.kernel.fds → Q r w') : Prog.wp fflush Q R w :=
  wp_call fun _ _ w' hfds hdid hk _ => h _ w' hdid.made (hk ▸ hfds)

/-- What `fcntl(fd, F_DUPFD_CLOEXEC, 3)` can do. -/
theorem dupfd_cases (fd : ℕ) (c : Choice) (k : Kernel) : k.dupfd fd c = (none, k) ∨
    ∃ new d, k.fds.find fd = some d ∧ ¬ k.fds.IsOpen new ∧
      k.dupfd fd c = (some new, { k with fds := (new, ⟨d.desc, true⟩) :: k.fds }) := by
  unfold Kernel.dupfd
  split
  · exact Or.inl rfl
  · exact Or.inl rfl
  · rename_i d _ hd
    exact Or.inr ⟨_, d, hd, FdTable.lowestFree_not_open 3 k.fds, rfl⟩

theorem wp_dupfd {fd : ℕ} {Q : Option ℕ → World → Prop}
    (hnone : ∀ w', Made [.dupfd fd none] w w' → w'.kernel.fds = w.kernel.fds → Q none w')
    (hsome : ∀ new d w', Made [.dupfd fd (some new)] w w' → w.kernel.fds.find fd = some d →
      ¬ w.kernel.fds.IsOpen new → w'.kernel.fds = (new, ⟨d.desc, true⟩) :: w.kernel.fds →
        Q (some new) w') :
    Prog.wp (dupfd fd) Q R w := by
  apply wp_call
  intro c k w' hfds hdid hk _
  rcases dupfd_cases fd c k with h | ⟨new, d, hd, hnew, h⟩
  · rw [h] at hdid hk ⊢
    exact hnone w' hdid.made (hk ▸ hfds)
  · rw [h] at hdid hk ⊢
    rw [hfds] at hd hnew hk
    exact hsome new d w' hdid.made hd hnew (hk ▸ rfl)

/-- What `open` can do. -/
theorem openFile_cases (c : Choice) (k : Kernel) : k.openFile c = (none, k) ∨
    ∃ fd, ¬ k.fds.IsOpen fd ∧
      k.openFile c = (some fd, { k with fds := (fd, ⟨.file k.created, false⟩) :: k.fds, created := k.created + 1 }) := by
  unfold Kernel.openFile
  split
  · exact Or.inl rfl
  · exact Or.inr ⟨_, FdTable.lowestFree_not_open 0 k.fds, rfl⟩

/-- The description `n` was created between `w` and `w'` by opening `path` with `flags`. -/
def Opened (path : Bytes) (flags : OpenFlags) (n : ℕ) (w w' : World) : Prop :=
  ∃ seg, w'.log = w.log ++ seg ∧ ∃ k js fd, k.created = n ∧ .call (.open_ path flags (some fd)) k js ∈ seg

theorem Opened.between {path : Bytes} {flags : OpenFlags} {n : ℕ} {w₀ w w' w₁ : World} {cs cs' : List Call}
    (h : Opened path flags n w w') (h₀ : Made cs w₀ w) (h₁ : Made cs' w' w₁) :
    Opened path flags n w₀ w₁ := by
  obtain ⟨seg, hlog, k, js, fd, hn, hm⟩ := h
  obtain ⟨seg₀, hlog₀, -⟩ := h₀
  obtain ⟨seg₁, hlog₁, -⟩ := h₁
  exact ⟨seg₀ ++ seg ++ seg₁, by simp [hlog₁, hlog, hlog₀], k, js, fd, hn, by simp [hm]⟩

theorem wp_openFile {path : Bytes} {flags : OpenFlags} {Q : Option ℕ → World → Prop}
    (hnone : ∀ w', Made [.open_ path flags none] w w' → w'.kernel.fds = w.kernel.fds → Q none w')
    (hsome : ∀ fd n w', Made [.open_ path flags (some fd)] w w' → Opened path flags n w w' →
      ¬ w.kernel.fds.IsOpen fd → w'.kernel.fds = (fd, ⟨.file n, false⟩) :: w.kernel.fds → Q (some fd) w') :
    Prog.wp (openFile path flags) Q R w := by
  apply wp_call
  intro c k w' hfds hdid hk _
  rcases openFile_cases c k with h | ⟨fd, hfd, h⟩
  · rw [h] at hdid hk ⊢
    exact hnone w' hdid.made (hk ▸ hfds)
  · rw [h] at hdid hk ⊢
    rw [hfds] at hfd hk
    obtain ⟨es, js, hlog⟩ := hdid
    exact hsome fd k.created w' (Did.made ⟨es, js, hlog⟩) ⟨_, hlog, k, js, fd, rfl, by simp⟩ hfd
      (hk ▸ rfl)

/-- What a successful `dup2` makes of the table. -/
def dup2Table (old new : ℕ) (d : Fd) (F : FdTable Fd) : FdTable Fd :=
  if old = new then F else (new, ⟨d.desc, false⟩) :: F.close new

/-- What `dup2` can do. -/
theorem dup2_cases (old new : ℕ) (c : Choice) (k : Kernel) :
    (∃ e, (e = .EINTR → c ≠ .ok) ∧ k.dup2 old new c = (.err e, k)) ∨
    ∃ d, k.fds.find old = some d ∧ k.dup2 old new c = (.ok, { k with fds := dup2Table old new d k.fds }) := by
  unfold Kernel.dup2
  split
  · exact Or.inl ⟨_, fun _ => by simp, rfl⟩
  · exact Or.inl ⟨.other, by simp, rfl⟩
  · rename_i d _ hd
    refine Or.inr ⟨d, hd, ?_⟩
    unfold dup2Table
    split <;> rfl

/-- A step of the redirection that has failed; an interrupted `dup2` is made again. -/
def Call.FailsStep : Call → Prop
  | .fflush (.err _) | .dupfd _ none | .open_ _ _ none => True
  | .dup2 _ _ (.err e) => e ≠ .EINTR
  | _ => False

/-- No step of the redirection has failed. -/
def Succeeds (cs : List Call) : Prop := ∀ c ∈ cs, ¬ c.FailsStep

theorem succeeds_append {cs cs' : List Call} : Succeeds (cs ++ cs') ↔ Succeeds cs ∧ Succeeds cs' :=
  List.forall_mem_append

/-- The calls `cs` are all `dup2(old, new)`. -/
def AllDup2 (old new : ℕ) (cs : List Call) : Prop := ∀ c ∈ cs, ∃ r, c = .dup2 old new r

theorem wp_retry_dup2 {old new : ℕ} {Q : Res → World → Prop}
    (hok : ∀ cs d w', Made cs w w' → AllDup2 old new cs → Succeeds cs →
      w.kernel.fds.find old = some d → w'.kernel.fds = dup2Table old new d w.kernel.fds → Q .ok w')
    (herr : ∀ cs e w', Made cs w w' → AllDup2 old new cs → e ≠ .EINTR → .dup2 old new (.err e) ∈ cs →
      w'.kernel.fds = w.kernel.fds → Q (.err e) w') :
    Prog.wp (retry (dup2 old new)) Q R w := by
  refine wp_retry (fun w' => ∃ cs, Made cs w w' ∧ AllDup2 old new cs ∧ Succeeds cs ∧
    w'.kernel.fds = w.kernel.fds) ?_ ⟨[], .refl w, by simp [AllDup2], by simp [Succeeds], rfl⟩
  rintro w₁ ⟨cs, hmade, hall, hcs, hfds⟩
  apply wp_call
  intro c k w' hk₁ hdid hk hlt
  have hmade := hmade.trans hdid.made
  have all : ∀ r, AllDup2 old new (cs ++ [.dup2 old new r]) := fun r =>
    List.forall_mem_append.mpr ⟨hall, by simp⟩
  rw [hfds] at hk₁
  rcases dup2_cases old new c k with ⟨e, he, h⟩ | ⟨d, hd, h⟩
  · rw [h] at hmade hk ⊢
    have hsame : w'.kernel.fds = w.kernel.fds := hk ▸ hk₁
    by_cases hint : e = .EINTR
    · subst hint
      refine ⟨fun _ => ⟨⟨_, hmade, all _, ?_, hsame⟩, hlt (he rfl)⟩, fun hr => absurd rfl hr⟩
      exact succeeds_append.mpr ⟨hcs, by simp [Succeeds, Call.FailsStep]⟩
    · exact ⟨fun hr => absurd (Res.err.inj hr) hint, fun _ => herr _ e w' hmade (all _) hint (by simp) hsame⟩
  · rw [h] at hmade hk ⊢
    rw [hk₁] at hd hk
    refine ⟨fun hr => Res.noConfusion hr, fun _ => hok _ d w' hmade (all _) ?_ hd (hk ▸ rfl)⟩
    exact succeeds_append.mpr ⟨hcs, by simp [Succeeds, Call.FailsStep]⟩

theorem wp_close_made {fd : ℕ} {Q : Unit → World → Prop}
    (h : ∀ w', Made [.close fd] w w' → w'.kernel.fds = w.kernel.fds.close fd → Q () w') :
    Prog.wp (close fd) Q R w :=
  h _ ⟨[.call _ _ _], rfl, rfl⟩ rfl

/-! ### Descriptors sent elsewhere -/

/-- What the descriptor `fd` refers to. -/
def descOf (F : FdTable Fd) (fd : ℕ) : Option Desc := (F.find fd).map Fd.desc

theorem isOpen_iff_desc {F : FdTable Fd} {fd : ℕ} : F.IsOpen fd ↔ descOf F fd ≠ none := by
  rw [FdTable.isOpen_iff_find, descOf, ne_eq, ne_eq, Option.map_eq_none_iff]

theorem descOf_cons {F : FdTable Fd} {n fd : ℕ} {d : Fd} :
    descOf ((n, d) :: F) fd = if fd = n then some d.desc else descOf F fd := by
  unfold descOf
  rw [FdTable.find_cons]
  split <;> rfl

theorem descOf_close {F : FdTable Fd} {n fd : ℕ} :
    descOf (F.close n) fd = if fd = n then none else descOf F fd := by
  unfold descOf
  rw [FdTable.find_close]
  split <;> rfl

theorem descOf_dup2 {F : FdTable Fd} {old new fd : ℕ} {d : Fd} (hd : F.find old = some d) :
    descOf (dup2Table old new d F) fd = if fd = new then some d.desc else descOf F fd := by
  unfold dup2Table
  split
  · rename_i heq
    split
    · rename_i hfd
      rw [hfd, ← heq, descOf, hd]
      rfl
    · rfl
  · rw [descOf_cons, descOf_close]
    split <;> rfl

/-- The table `F` is `F₀` with the descriptors `saves.map snd` sent elsewhere; the old ones are kept in
`saves.map fst`. -/
structure Diverted (F₀ : FdTable Fd) (saves : List (ℕ × ℕ)) (F : FdTable Fd) : Prop where
  saved : ∀ x ∈ saves, descOf F x.1 = descOf F₀ x.2
  fresh : ∀ x ∈ saves, descOf F₀ x.1 = none
  opened : ∀ x ∈ saves, descOf F₀ x.2 ≠ none ∧ descOf F x.2 ≠ none
  distinct : (saves.map Prod.fst).Nodup ∧ (saves.map Prod.snd).Nodup
  rest : ∀ fd, fd ∉ saves.map Prod.fst → fd ∉ saves.map Prod.snd → descOf F fd = descOf F₀ fd

section Diverted

variable {F₀ F G : FdTable Fd} {saves : List (ℕ × ℕ)} {saved target : ℕ}

theorem Diverted.refl (F : FdTable Fd) : Diverted F [] F := ⟨by simp, by simp, by simp, by simp, by simp⟩

theorem Diverted.eq (h : Diverted F₀ [] F) (fd : ℕ) : descOf F fd = descOf F₀ fd :=
  h.rest fd (by simp) (by simp)

/-- The table may change where nothing is looked at. -/
theorem Diverted.congr (h : Diverted F₀ saves F) (hG : ∀ fd, descOf G fd = descOf F fd) :
    Diverted F₀ saves G where
  saved x hx := (hG _).trans (h.saved x hx)
  fresh := h.fresh
  opened x hx := ⟨(h.opened x hx).1, hG _ ▸ (h.opened x hx).2⟩
  distinct := h.distinct
  rest fd hs ht := (hG fd).trans (h.rest fd hs ht)

/-- What is free in the table is not kept, not sent elsewhere, and was free before. -/
theorem Diverted.free (h : Diverted F₀ saves F) {fd : ℕ} (hfd : descOf F fd = none) :
    fd ∉ saves.map Prod.fst ∧ fd ∉ saves.map Prod.snd ∧ descOf F₀ fd = none := by
  have hs : fd ∉ saves.map Prod.fst := by
    intro hm
    obtain ⟨x, hx, rfl⟩ := List.mem_map.mp hm
    exact (h.opened x hx).1 (h.saved x hx ▸ hfd)
  have ht : fd ∉ saves.map Prod.snd := by
    intro hm
    obtain ⟨x, hx, rfl⟩ := List.mem_map.mp hm
    exact (h.opened x hx).2 hfd
  exact ⟨hs, ht, h.rest fd hs ht ▸ hfd⟩

/-- A standard descriptor is copied to a free one. -/
theorem Diverted.save (h : Diverted F₀ saves F) {d : Fd} (ht : target ∉ saves.map Prod.snd)
    (hd : F.find target = some d) (hs : ¬ F.IsOpen saved) (hopen : descOf F₀ target ≠ none) :
    Diverted F₀ (saves ++ [(saved, target)]) ((saved, ⟨d.desc, true⟩) :: F) := by
  have hfree : descOf F saved = none := by simpa [isOpen_iff_desc] using hs
  obtain ⟨hs₁, hs₂, hs₀⟩ := h.free hfree
  have hdesc : descOf F target = some d.desc := by rw [descOf, hd]; rfl
  have hne : target ≠ saved := by
    rintro rfl
    rw [hfree] at hdesc
    cases hdesc
  -- the target is not one of the descriptors kept, which were free at first
  have ht₁ : target ∉ saves.map Prod.fst := by
    intro hm
    obtain ⟨x, hx, hxt⟩ := List.mem_map.mp hm
    exact hopen (hxt ▸ h.fresh x hx)
  have hkeep : ∀ {fd}, fd ≠ saved → descOf ((saved, (⟨d.desc, true⟩ : Fd)) :: F) fd = descOf F fd :=
    fun hfd => by
    rw [descOf_cons, if_neg hfd]
  have hmem : ∀ {x : ℕ × ℕ}, x ∈ saves → x.1 ≠ saved ∧ x.2 ≠ saved := fun hx =>
    ⟨fun he => hs₁ (he ▸ List.mem_map_of_mem hx), fun he => hs₂ (he ▸ List.mem_map_of_mem hx)⟩
  refine ⟨?_, ?_, ?_, ?_, ?_⟩
  · refine List.forall_mem_append.mpr ⟨fun x hx => ?_, List.forall_mem_singleton.mpr ?_⟩
    · rw [hkeep (hmem hx).1, h.saved x hx]
    · rw [descOf_cons, if_pos rfl, ← h.rest target ht₁ ht, hdesc]
  · exact List.forall_mem_append.mpr ⟨h.fresh, List.forall_mem_singleton.mpr hs₀⟩
  · refine List.forall_mem_append.mpr ⟨fun x hx => ?_, List.forall_mem_singleton.mpr ?_⟩
    · rw [hkeep (hmem hx).2]
      exact h.opened x hx
    · rw [hkeep hne, hdesc]
      exact ⟨hopen, by simp⟩
  · rw [List.map_append, List.map_append]
    exact ⟨List.nodup_append.mpr ⟨h.distinct.1, by simp, fun a ha b hb he =>
        hs₁ ((he.trans (List.mem_singleton.mp hb) : a = saved) ▸ ha)⟩,
      List.nodup_append.mpr ⟨h.distinct.2, by simp, fun a ha b hb he =>
        ht ((he.trans (List.mem_singleton.mp hb) : a = target) ▸ ha)⟩⟩
  · intro fd hfs hft
    simp only [List.map_append, List.mem_append, List.map_cons, List.map_nil, List.mem_singleton, not_or] at hfs hft
    rw [hkeep hfs.2]
    exact h.rest fd hfs.1 hft.1

/-- A standard descriptor whose old one is kept is sent elsewhere. -/
theorem Diverted.redirect (h : Diverted F₀ saves F) (ht : target ∈ saves.map Prod.snd)
    (hG : ∀ fd, fd ≠ target → descOf G fd = descOf F fd) (hopen : descOf G target ≠ none) :
    Diverted F₀ saves G := by
  have hne : ∀ x ∈ saves, x.1 ≠ target := by
    intro x hx he
    obtain ⟨y, hy, rfl⟩ := List.mem_map.mp ht
    exact (h.opened y hy).1 (he ▸ h.fresh x hx)
  refine ⟨fun x hx => ?_, h.fresh, fun x hx => ⟨(h.opened x hx).1, ?_⟩, h.distinct, fun fd hs hfd => ?_⟩
  · rw [hG _ (hne x hx), h.saved x hx]
  · by_cases hx₂ : x.2 = target
    · rw [hx₂]
      exact hopen
    · rw [hG _ hx₂]
      exact (h.opened x hx).2
  · rw [hG fd fun he => hfd (he ▸ ht)]
    exact h.rest fd hs hfd

/-- The old descriptor is put back and its copy closed. -/
theorem Diverted.restore (h : Diverted F₀ ((saved, target) :: saves) F) {d : Fd} (hd : F.find saved = some d) :
    Diverted F₀ saves (FdTable.close (dup2Table saved target d F) saved) := by
  obtain ⟨hn₁, hn₂⟩ := h.distinct
  simp only [List.map_cons, List.nodup_cons] at hn₁ hn₂
  have hmem : ∀ {x}, x ∈ saves → x ∈ (saved, target) :: saves := List.mem_cons_of_mem _
  have hhead : (saved, target) ∈ (saved, target) :: saves := List.mem_cons_self
  have hdesc : some d.desc = descOf F₀ target := by rw [← h.saved _ hhead, descOf, hd]; rfl
  have hopen := (h.opened _ hhead).1
  have hne : target ≠ saved := fun he => hopen (he ▸ h.fresh _ hhead)
  have hG : ∀ fd, descOf (FdTable.close (dup2Table saved target d F) saved) fd =
      if fd = saved then none else if fd = target then descOf F₀ target else descOf F fd := by
    intro fd
    rw [descOf_close, descOf_dup2 hd, hdesc]
  have hx : ∀ x ∈ saves, x.1 ≠ saved ∧ x.1 ≠ target ∧ x.2 ≠ saved ∧ x.2 ≠ target := fun x hx =>
    ⟨fun he => hn₁.1 (he ▸ List.mem_map_of_mem hx), fun he => hopen (he ▸ h.fresh x (hmem hx)),
      fun he => (h.opened x (hmem hx)).1 (he ▸ h.fresh _ hhead), fun he =>
        hn₂.1 (he ▸ List.mem_map_of_mem hx)⟩
  refine ⟨fun x hm => ?_, fun x hm => h.fresh x (hmem hm), fun x hm => ⟨(h.opened x (hmem hm)).1, ?_⟩,
    ⟨hn₁.2, hn₂.2⟩, fun fd hs ht => ?_⟩
  · rw [hG, if_neg (hx x hm).1, if_neg (hx x hm).2.1, h.saved x (hmem hm)]
  · rw [hG, if_neg (hx x hm).2.2.1, if_neg (hx x hm).2.2.2]
    exact (h.opened x (hmem hm)).2
  · rw [hG]
    split
    · rename_i heq
      rw [heq, h.fresh _ hhead]
    · split
      · rename_i heq
        rw [heq]
      · exact h.rest fd (by simp_all) (by simp_all)

end Diverted

/-! ### Redirecting and restoring one descriptor -/

/-- What redirecting `target` leaves behind: nothing is kept, or the old descriptor is kept in `saved`. -/
def Kept (F₀ : FdTable Fd) (saves : List (ℕ × ℕ)) (target : ℕ) (cs : List Call) (saved : Int)
    (F : FdTable Fd) : Prop :=
  saved = -1 ∧ Diverted F₀ saves F ∨
    ∃ s : ℕ, saved = s ∧ .dupfd target (some s) ∈ cs ∧ Diverted F₀ (saves ++ [(s, target)]) F

/-- What a descriptor refers to after a new one has been opened and closed again. -/
theorem descOf_close_open {F : FdTable Fd} {fd : ℕ} {d : Fd} (hfd : ¬ F.IsOpen fd) (x : ℕ) :
    descOf (FdTable.close ((fd, d) :: F) fd) x = descOf F x := by
  rw [descOf_close, descOf_cons]
  split
  · rename_i heq
    rw [heq]
    exact (by simpa [isOpen_iff_desc] using hfd : descOf F fd = none).symm
  · rfl

/-- How redirecting `target` to `path` ends: the old descriptor cannot be kept, the file cannot be opened, it cannot be
moved to `target`, or it is there. -/
inductive StreamResult (w : World) (target : ℕ) (path : Bytes) (flags : OpenFlags) :
    Int → Int → List Call → World → Prop
  | unsaved {w' : World} : w'.kernel.fds = w.kernel.fds →
      StreamResult w target path flags errDup2 (-1) [.dupfd target none] w'
  | unopened {s : ℕ} {d : Fd} {w' : World} : w.kernel.fds.find target = some d → ¬ w.kernel.fds.IsOpen s →
      w'.kernel.fds = (s, ⟨d.desc, true⟩) :: w.kernel.fds →
      StreamResult w target path flags errOpen s [.dupfd target (some s), .open_ path flags none] w'
  | unmoved {s fd : ℕ} {d : Fd} {dups : List Call} {w' : World} : w.kernel.fds.find target = some d →
      ¬ w.kernel.fds.IsOpen s → (∀ x, descOf w'.kernel.fds x =
          descOf ((s, ⟨d.desc, true⟩) :: w.kernel.fds) x) →
      AllDup2 fd target dups → ¬ Succeeds dups →
      StreamResult w target path flags errDup2 s
        (.dupfd target (some s) :: .open_ path flags (some fd) :: (dups ++ [.close fd])) w'
  | moved {s fd n : ℕ} {d : Fd} {dups : List Call} {w' : World} : w.kernel.fds.find target = some d →
      ¬ w.kernel.fds.IsOpen s → Opened path flags n w w' →
      (∀ x, descOf w'.kernel.fds x =
        if x = target then some (.file n) else descOf ((s, ⟨d.desc, true⟩) :: w.kernel.fds) x) →
      AllDup2 fd target dups → Succeeds dups →
      StreamResult w target path flags ok s
        (.dupfd target (some s) :: .open_ path flags (some fd) :: (dups ++ [.close fd])) w'

/-- What a descriptor refers to when the one just opened has been moved to `target`. -/
theorem descOf_moved {F : FdTable Fd} {fd target n : ℕ} {d : Fd} (hfd : ¬ F.IsOpen fd) (hne : fd ≠ target)
    (hd : FdTable.find ((fd, (⟨.file n, false⟩ : Fd)) :: F) fd = some d) (x : ℕ) :
    descOf (FdTable.close (dup2Table fd target d ((fd, ⟨.file n, false⟩) :: F)) fd) x =
      if x = target then some (.file n) else descOf F x := by
  have hdesc : d.desc = .file n := by
    rw [FdTable.find_cons, if_pos rfl, Option.some.injEq] at hd
    rw [← hd]
  have hx := descOf_close_open (d := (⟨.file n, false⟩ : Fd)) hfd x
  rw [descOf_close] at hx ⊢
  rw [descOf_dup2 hd, hdesc]
  split at hx
  · rename_i heq
    rw [if_pos heq, if_neg (heq ▸ hne), hx]
  · rename_i hxfd
    rw [if_neg hxfd, hx]

theorem wp_redirectStream {target : ℕ} {path : Bytes} {flags : OpenFlags} {Q : Int × Int → World → Prop}
    (hopen : w.kernel.fds.IsOpen target)
    (h : ∀ r saved w' cs, Made cs w w' → StreamResult w target path flags r saved cs w' → Q (r, saved) w') :
    Prog.wp (redirectStream target path flags) Q R w := by
  unfold redirectStream
  rw [Prog.wp_bind]
  apply wp_dupfd (fun w₁ h₁ hf₁ => h _ _ w₁ _ h₁ (.unsaved hf₁))
  intro s d w₁ h₁ hd hs hf₁
  simp only
  rw [Prog.wp_bind]
  refine wp_openFile (fun w₂ h₂ hf₂ => h _ _ w₂ _ (h₁.trans h₂) (.unopened hd hs (hf₂.trans hf₁)))
    ?_
  intro fd n w₂ h₂ hn hfd hf₂
  have hopen₁ : w₁.kernel.fds.IsOpen target := by
    rw [hf₁, FdTable.isOpen_cons]
    exact Or.inr hopen
  have hne : fd ≠ target := fun he => hfd (he ▸ hopen₁)
  simp only [if_pos hne]
  rw [Prog.wp_bind]
  refine wp_retry_dup2 (fun cs d₂ w₃ h₃ hall hcs hd₂ hf₃ => ?_) fun cs e w₃ h₃ hall he hcs hf₃ => ?_
  · simp only [Prog.wp_bind]
    apply wp_close_made
    intro w₄ h₄ hf₄
    rw [hf₂] at hd₂
    refine h _ _ w₄ _ (((h₁.trans h₂).trans h₃).trans h₄)
      (.moved hd hs (hn.between h₁ (h₃.trans h₄)) ?_ hall hcs)
    intro x
    rw [hf₄, hf₃, hf₂, descOf_moved hfd hne hd₂, hf₁]
  · simp only [Prog.wp_bind]
    apply wp_close_made
    intro w₄ h₄ hf₄
    refine h _ _ w₄ _ (((h₁.trans h₂).trans h₃).trans h₄) (.unmoved hd hs (fun x => ?_) hall fun hc => ?_)
    · rw [hf₄, hf₃, hf₂, descOf_close_open hfd, hf₁]
    · exact hc _ hcs he

section StreamResult

variable {w' : World} {target : ℕ} {path : Bytes} {flags : OpenFlags} {r saved : Int} {cs : List Call}
  (h : StreamResult w target path flags r saved cs w')
include h

/-- The result says whether a step has failed. -/
theorem StreamResult.succeeds : r = ok ↔ Succeeds cs := by
  cases h with
  | unsaved _ => simp [Succeeds, Call.FailsStep, errDup2, ok]
  | unopened _ _ _ => simp [Succeeds, Call.FailsStep, errOpen, ok]
  | unmoved _ _ _ _ hdups =>
    refine ⟨fun hr => absurd hr (by decide), fun hc => absurd (fun c hm => hc c ?_) hdups⟩
    simp [hm]
  | moved _ _ _ _ _ hdups =>
    refine ⟨fun _ => List.forall_mem_cons.mpr ⟨id, List.forall_mem_cons.mpr ⟨id, ?_⟩⟩, fun _ => rfl⟩
    exact succeeds_append.mpr ⟨hdups, List.forall_mem_singleton.mpr id⟩

/-- What the result leaves of a table that is already diverted. -/
theorem StreamResult.kept {F₀ : FdTable Fd} {saves : List (ℕ × ℕ)} (hd : Diverted F₀ saves w.kernel.fds)
    (ht : target ∉ saves.map Prod.snd) (hopen : F₀.IsOpen target) :
    Kept F₀ saves target cs saved w'.kernel.fds := by
  have saves_to : ∀ {s : ℕ} {d : Fd}, w.kernel.fds.find target = some d → ¬ w.kernel.fds.IsOpen s →
      Diverted F₀ (saves ++ [(s, target)]) ((s, ⟨d.desc, true⟩) :: w.kernel.fds) := fun hfind hs =>
    hd.save ht hfind hs (isOpen_iff_desc.mp hopen)
  cases h with
  | unsaved hf => exact Or.inl ⟨rfl, hf ▸ hd⟩
  | unopened hfind hs hf => exact Or.inr ⟨_, rfl, by simp, hf ▸ saves_to hfind hs⟩
  | unmoved hfind hs hf _ _ => exact Or.inr ⟨_, rfl, by simp, (saves_to hfind hs).congr hf⟩
  | @moved s _ _ _ _ _ hfind hs _ hf _ _ =>
    have ht' : target ∈ (saves ++ [(s, target)]).map Prod.snd := by simp
    refine Or.inr ⟨_, rfl, by simp, (saves_to hfind hs).redirect ht' (fun x hx => ?_) ?_⟩
    · rw [hf, if_neg hx]
    · rw [hf, if_pos rfl]
      simp

end StreamResult

/-- A `dup2` that was to restore a descriptor has failed for good. -/
def RestoreFails (saved target : ℕ) (cs : List Call) : Prop :=
  ∃ e, e ≠ Errno.EINTR ∧ .dup2 saved target (.err e) ∈ cs

theorem wp_restoreStream {saved target : ℕ} {Q : Int → World → Prop}
    (hok : ∀ w' cs d, Made cs w w' → w.kernel.fds.find saved = some d →
      w'.kernel.fds = FdTable.close (dup2Table saved target d w.kernel.fds) saved → Q ok w')
    (herr : ∀ r w' cs, Made cs w w' → RestoreFails saved target cs → r ≠ ok → Q r w') :
    Prog.wp (restoreStream saved target) Q R w := by
  unfold restoreStream
  rw [if_pos (Int.natCast_nonneg _), Int.toNat_natCast, Prog.wp_bind]
  refine wp_retry_dup2 (fun cs d w₁ h₁ _ _ hfind hf₁ => ?_) fun cs e w₁ h₁ _ he hcs hf₁ => ?_
  · simp only [Prog.wp_bind]
    exact wp_close_made fun w₂ h₂ hf₂ => hok w₂ _ d (h₁.trans h₂) hfind (by rw [hf₂, hf₁])
  · simp only [Prog.wp_bind]
    exact wp_close_made fun w₂ h₂ hf₂ => herr _ w₂ _ (h₁.trans h₂)
      ⟨e, he, List.mem_append_left _ hcs⟩
      (by rw [if_neg (by simp)]; decide)

theorem restoreStream_none {saved : Int} (h : saved < 0) (target : ℕ) : restoreStream saved target = pure ok := by
  unfold restoreStream
  rw [if_neg (by omega)]

/-! ### `builtin_apply_redirect` and `builtin_restore_redirect` -/

/-- The descriptors that `saved_out` and `saved_in` keep. -/
def savesOf (savedOut savedIn : Int) : List (ℕ × ℕ) :=
  (if savedOut < 0 then [] else [(savedOut.toNat, 1)]) ++ if savedIn < 0 then [] else [(savedIn.toNat, 0)]

/-- The copies `saves` were made by calls among `cs`. -/
def Copied (saves : List (ℕ × ℕ)) (cs : List Call) : Prop := ∀ x ∈ saves, .dupfd x.2 (some x.1) ∈ cs

theorem Copied.mono {saves : List (ℕ × ℕ)} {cs cs' : List Call} (h : Copied saves cs) (hsub : cs ⊆ cs') :
    Copied saves cs' := fun x hx => hsub (h x hx)

theorem wp_redirectOutput {cmd : Command} {Q : Int × Int → World → Prop} (h₁ : w.kernel.fds.IsOpen 1)
    (h : ∀ r saved w' cs, Made cs w w' → (r = ok ↔ Succeeds cs) →
      Diverted w.kernel.fds (savesOf saved (-1)) w'.kernel.fds → Copied (savesOf saved (-1)) cs →
        Q (r, saved) w') :
    Prog.wp (redirectOutput cmd) Q R w := by
  have hnone : ∀ cs, Copied (savesOf (-1) (-1)) cs := by simp [Copied, savesOf]
  unfold redirectOutput
  cases cmd.redirect.outputFile with
  | none => exact h _ _ w [] (.refl w) ⟨fun _ => by simp [Succeeds], fun _ => rfl⟩ (.refl _) (hnone _)
  | some path =>
    rw [Prog.wp_bind]
    apply wp_fflush
    intro r w₁ hmade₁ hf₁
    cases r with
    | err e =>
      refine h _ _ w₁ _ hmade₁ ⟨fun hr => absurd hr (by decide), fun hc => ?_⟩ (hf₁ ▸ .refl _) (hnone _)
      exact absurd (hc _ (List.mem_singleton_self _)) (by simp [Call.FailsStep])
    | ok =>
      have hd : Diverted w.kernel.fds [] w₁.kernel.fds := hf₁ ▸ .refl _
      apply wp_redirectStream (hf₁ ▸ h₁)
      intro r saved w₂ cs hmade₂ hr
      have hkept := hr.kept hd (by simp) h₁
      have hsucc : r = ok ↔ Succeeds ([.fflush .ok] ++ cs) := by
        rw [succeeds_append, hr.succeeds]
        exact ⟨fun hc => ⟨by simp [Succeeds, Call.FailsStep], hc⟩, fun hc => hc.2⟩
      rcases hkept with ⟨rfl, hdiv⟩ | ⟨s, rfl, hs, hdiv⟩
      · exact h _ _ w₂ _ (hmade₁.trans hmade₂) hsucc hdiv (hnone _)
      · have hsaves : savesOf s (-1) = [(s, 1)] := by
          rw [savesOf, if_neg (Int.not_lt.mpr (Int.natCast_nonneg s)), Int.toNat_natCast]
          rfl
        refine h _ _ w₂ _ (hmade₁.trans hmade₂) hsucc (hsaves ▸ hdiv) ?_
        rw [hsaves]
        exact List.forall_mem_singleton.mpr (List.mem_append_right _ hs)

theorem wp_redirectInput {cmd : Command} {r savedOut : Int} {F₀ : FdTable Fd}
    {Q : Int × Int × Int → World → Prop} (h₀ : F₀.IsOpen 0)
    (hd : Diverted F₀ (savesOf savedOut (-1)) w.kernel.fds) (hkeep : r ≠ ok → Q (r, savedOut, -1) w)
    (h : r = ok → ∀ ret savedIn w' cs, Made cs w w' → (ret = ok ↔ Succeeds cs) →
      Diverted F₀ (savesOf savedOut savedIn) w'.kernel.fds →
      (∀ cs₀, Copied (savesOf savedOut (-1)) cs₀ → Copied (savesOf savedOut savedIn) (cs₀ ++ cs)) →
      Q (ret, savedOut, savedIn) w') :
    Prog.wp (redirectInput cmd (r, savedOut)) Q R w := by
  unfold redirectInput
  rw [Prog.wp_ite]
  refine ⟨hkeep, fun hok => ?_⟩
  have h := h (not_not.mp hok)
  cases cmd.redirect.inputFile with
  | none =>
    exact h _ _ w [] (.refl w) ⟨fun _ => by simp [Succeeds], fun _ => rfl⟩ hd
      fun cs₀ hc => hc.mono (List.subset_append_left _ _)
  | some path =>
    rw [Prog.wp_bind]
    have hsaves : savesOf savedOut (-1) = if savedOut < 0 then [] else [(savedOut.toNat, 1)] := by simp [savesOf]
    have hzero : 0 ∉ (savesOf savedOut (-1)).map Prod.snd := by
      rw [hsaves]
      split <;> simp
    have hzero₁ : 0 ∉ (savesOf savedOut (-1)).map Prod.fst := by
      intro hm
      obtain ⟨x, hx, hx₀⟩ := List.mem_map.mp hm
      exact isOpen_iff_desc.mp h₀ (hx₀ ▸ hd.fresh x hx)
    have hopen : w.kernel.fds.IsOpen 0 := by
      rw [isOpen_iff_desc, hd.rest 0 hzero₁ hzero]
      exact isOpen_iff_desc.mp h₀
    apply wp_redirectStream hopen
    intro ret savedIn w₂ cs hmade hresult
    have hret := hresult.succeeds
    rcases hresult.kept hd hzero h₀ with ⟨rfl, hdiv⟩ | ⟨s, rfl, hs, hdiv⟩
    · exact h _ _ w₂ _ hmade hret hdiv fun cs₀ hc => hc.mono (List.subset_append_left _ _)
    · have hsaves' : savesOf savedOut s = savesOf savedOut (-1) ++ [(s, 0)] := by
        rw [hsaves, savesOf, if_neg (Int.not_lt.mpr (Int.natCast_nonneg s)), Int.toNat_natCast]
      apply h _ _ w₂ _ hmade hret (hsaves' ▸ hdiv)
      intro cs₀ hcopied
      rw [hsaves']
      exact List.forall_mem_append.mpr ⟨hcopied.mono (List.subset_append_left _ _),
        List.forall_mem_singleton.mpr (List.mem_append_right _ hs)⟩

/-- Restoring one of the copies `saves` has failed. -/
def SomeRestoreFails (saves : List (ℕ × ℕ)) (cs : List Call) : Prop := ∃ x ∈ saves, RestoreFails x.1 x.2 cs

theorem wp_builtinRestoreRedirect {savedOut savedIn : Int} {F₀ : FdTable Fd} {Q : Int → World → Prop}
    (hd : Diverted F₀ (savesOf savedOut savedIn) w.kernel.fds)
    (h : ∀ r w' cs, Made cs w w' → (r = ok ∧ Diverted F₀ [] w'.kernel.fds ∨
      r ≠ ok ∧ SomeRestoreFails (savesOf savedOut savedIn) cs) → Q r w') :
    Prog.wp (builtinRestoreRedirect savedOut savedIn) Q R w := by
  unfold builtinRestoreRedirect
  rw [Prog.wp_bind]
  -- the second restoration, after the first has succeeded or failed
  have second : ∀ r₁ w₁ cs, Made cs w w₁ →
      (r₁ = ok ∧ Diverted F₀ (savesOf (-1) savedIn) w₁.kernel.fds ∨
        r₁ ≠ ok ∧ SomeRestoreFails (savesOf savedOut savedIn) cs) →
      Prog.wp (do
        let r₂ ← restoreStream savedIn 0
        pure (if r₁ ≠ ok ∨ r₂ ≠ ok then errDup2 else ok)) Q R w₁ := by
    intro r₁ w₁ cs hmade hfirst
    rw [Prog.wp_bind]
    rcases Int.lt_or_le savedIn 0 with hin | hin
    · rw [restoreStream_none hin]
      refine h _ w₁ cs hmade ?_
      rcases hfirst with ⟨rfl, hd₁⟩ | ⟨hr₁, hfail⟩
      · exact Or.inl ⟨by simp, by simpa [savesOf, hin] using hd₁⟩
      · exact Or.inr ⟨by rw [if_pos (Or.inl hr₁)]; decide, hfail⟩
    · lift savedIn to ℕ using hin
      have hsaves : savesOf (-1) savedIn = [(savedIn, 0)] := by
        simp [savesOf, Int.not_lt.mpr (Int.natCast_nonneg savedIn)]
      have hmem : (savedIn, 0) ∈ savesOf savedOut savedIn := by
        simp [savesOf, Int.not_lt.mpr (Int.natCast_nonneg savedIn)]
      refine wp_restoreStream (fun w₂ cs₂ d hmade₂ hfind hf₂ => ?_)
        fun r₂ w₂ cs₂ hmade₂ hfail hr₂ => ?_
      · refine h _ w₂ _ (hmade.trans hmade₂) ?_
        rcases hfirst with ⟨rfl, hd₁⟩ | ⟨hr₁, e, he, hfail⟩
        · rw [hsaves] at hd₁
          exact Or.inl ⟨by simp, hf₂ ▸ hd₁.restore hfind⟩
        · obtain ⟨e', he', hm⟩ := hfail
          exact Or.inr ⟨by rw [if_pos (Or.inl hr₁)]; decide, e, he, e', he', List.mem_append_left _ hm⟩
      · obtain ⟨e, he, hm⟩ := hfail
        exact h _ w₂ _ (hmade.trans hmade₂) (Or.inr ⟨by rw [if_pos (Or.inr hr₂)]; decide, _, hmem, e, he,
          List.mem_append_right _ hm⟩)
  rcases Int.lt_or_le savedOut 0 with hout | hout
  · rw [restoreStream_none hout]
    exact second _ w [] (.refl w) (Or.inl ⟨rfl, by simpa [savesOf, hout] using hd⟩)
  · lift savedOut to ℕ using hout
    have hsaves : savesOf savedOut savedIn = (savedOut, 1) :: savesOf (-1) savedIn := by
      simp [savesOf, Int.not_lt.mpr (Int.natCast_nonneg savedOut)]
    refine wp_restoreStream (fun w₁ cs d hmade hfind hf₁ => ?_) fun r₁ w₁ cs hmade hfail hr₁ => ?_
    · rw [hsaves] at hd
      exact second _ w₁ cs hmade (Or.inl ⟨rfl, hf₁ ▸ hd.restore hfind⟩)
    · exact second _ w₁ cs hmade (Or.inr ⟨hr₁, _, by rw [hsaves]; exact List.mem_cons_self, hfail⟩)

/-! ### The handlers leave the descriptors alone -/

/-- The descriptors of the shell. -/
def World.fds (w : World) : FdTable Fd := w.kernel.fds

theorem keepsFds_syscall {f : Choice → Kernel → α × Kernel} {call : α → Call}
    (h : ∀ c k, (f c k).2.fds = k.fds) :
    Prog.Keeps World.fds (syscall f call) :=
  Prog.keeps_of_wp fun _ => wp_syscall fun _ _ _ _ => (h _ _).trans (World.drift_fds ..)

theorem keepsFds_kill (target : Int) (sig : Sig) : Prog.Keeps World.fds (kill target sig) :=
  keepsFds_syscall fun _ _ => kill_fds

theorem keepsFds_waitpid (target : Int) (opts : WaitOpts) : Prog.Keeps World.fds (waitpid target opts) :=
  Prog.keeps_of_wp fun _ => wp_ask
    (fun r w' h _ _ => by
      obtain ⟨es, k, rfl, hk, -⟩ := h.answer
      rcases hk with ⟨c, hpoll⟩ | ⟨-, -, hk⟩
      · exact (poll_fds hpoll).trans (World.foldl_happen_fds ..)
      · exact (congrArg Kernel.fds hk).trans (World.foldl_happen_fds ..))
    fun _ w' h => by
      obtain ⟨es, hk, -⟩ := h.log
      exact (congrArg Kernel.fds hk).trans (World.foldl_happen_fds ..)

theorem keepsFds_tcsetpgrp (pgid : Int) : Prog.Keeps World.fds (tcsetpgrp pgid) :=
  keepsFds_syscall fun c _ => by cases c <;> rfl

theorem keepsFds_tcgetattr : Prog.Keeps World.fds tcgetattr := keepsFds_syscall fun c _ => by cases c <;> rfl

theorem keepsFds_tcsetattr (modes : Termios) : Prog.Keeps World.fds (tcsetattr modes) :=
  keepsFds_syscall fun c _ => by cases c <;> rfl

theorem keeps_retry {τ : Type} {f : World → τ} {call : Sh Res} (h : Prog.Keeps f call) :
    Prog.Keeps f (retry call) :=
  Prog.Keeps.loop (fun _ => h.bind fun r => by split <;> exact Prog.keeps_pure _) ()

/-- A change to the context. -/
theorem keepsFds_ctx (f : World → ShellContext) :
    Prog.Keeps World.fds (Prog.modify fun w => { w with ctx := f w }) := Prog.keeps_modify fun _ => rfl

theorem keepsFds_updateJob (i : ℕ) (f : Job → Job) : Prog.Keeps World.fds (Prog.modify (World.updateJob i f)) :=
  Prog.keeps_modify fun _ => rfl

theorem keepsFds_terminalSetPgrp (pgid : Int) : Prog.Keeps World.fds (terminalSetPgrp pgid) :=
  (keeps_retry (keepsFds_tcsetpgrp pgid)).bind fun r => by cases r <;> exact Prog.keeps_pure _

theorem keepsFds_terminalSetForeground (pgid : Int) : Prog.Keeps World.fds (terminalSetForeground pgid) :=
  Prog.keeps_get_bind fun _ => .ite (fun _ => Prog.keeps_pure _) fun _ =>
    .ite (fun _ => Prog.keeps_pure _) fun _ => keepsFds_terminalSetPgrp pgid

theorem keepsFds_terminalGetModes (modes : Termios) : Prog.Keeps World.fds (terminalGetModes modes) :=
  Prog.keeps_get_bind fun _ => .ite (fun _ => Prog.keeps_pure _) fun _ =>
    Prog.Keeps.loop (fun _ => keepsFds_tcgetattr.bind fun r => by split <;> exact Prog.keeps_pure _) ()

theorem keepsFds_terminalSetModes (modes : Termios) : Prog.Keeps World.fds (terminalSetModes modes) :=
  Prog.keeps_get_bind fun _ => .ite (fun _ => Prog.keeps_pure _) fun _ =>
    (keeps_retry (keepsFds_tcsetattr modes)).bind fun r => by cases r <;> exact Prog.keeps_pure _

theorem keepsFds_terminalRestore : Prog.Keeps World.fds terminalRestore :=
  Prog.keeps_get_bind fun _ => .ite (fun _ => Prog.keeps_pure _) fun _ => .ite (fun _ => Prog.keeps_pure _) fun _ =>
    (keepsFds_terminalSetPgrp _).bind fun _ => .ite (fun _ => Prog.keeps_pure _) fun _ =>
      .ite (fun _ => (keepsFds_terminalSetModes _).bind fun _ =>
        .ite (fun _ => Prog.keeps_pure _) fun _ => Prog.keeps_pure _) fun _ => Prog.keeps_pure _

theorem keepsFds_jobContinue (job : Job) : Prog.Keeps World.fds (jobContinue job) :=
  .ite (fun _ => Prog.keeps_pure _) fun _ => .ite (fun _ => Prog.keeps_pure _) fun _ =>
    (keeps_retry (keepsFds_kill _ _)).bind fun r => by cases r <;> exact Prog.keeps_pure _

theorem keepsFds_jobWaitForeground (job : Job) : Prog.Keeps World.fds (jobWaitForeground job) := by
  refine .ite (fun _ => Prog.keeps_pure _) fun _ => Prog.Keeps.loop (fun job => ?_) job
  refine .ite (fun _ => Prog.keeps_pure _) fun _ => (keepsFds_waitpid _ _).bind fun r => ?_
  split
  · exact Prog.keeps_pure _
  · exact Prog.keeps_pure _
  · exact Prog.keeps_pure _
  · split <;> exact Prog.keeps_pure _

theorem keepsFds_finishRestored (job : Job) (restored : Int) : Prog.Keeps World.fds (finishRestored job restored) :=
  .ite (fun _ => (keepsFds_ctx _).bind fun _ => Prog.keeps_pure _) fun _ =>
    .ite (fun _ => Prog.keeps_pure _) fun _ => .ite (fun _ => Prog.keeps_pure _) fun _ =>
      (keepsFds_ctx _).bind fun _ => Prog.keeps_pure _

theorem keepsFds_fgPrepare : Prog.Keeps World.fds fgPrepare := by
  apply Prog.keeps_get_bind
  intro w
  split
  · exact Prog.keeps_pure _
  · rename_i i job _
    have modes : Prog.Keeps World.fds (fgSetModes job) :=
      .ite (fun _ => keepsFds_terminalSetModes _) fun _ => Prog.keeps_pure _
    have continued : Prog.Keeps World.fds (fgContinue job) :=
      .ite (fun _ => keepsFds_jobContinue _) fun _ => Prog.keeps_pure _
    have undo : ∀ e : Int, Prog.Keeps World.fds (do
        let _ ← terminalRestore
        pure (.error e) : Sh (Except Int (ℕ × Job))) := fun e =>
      keepsFds_terminalRestore.bind fun _ => Prog.keeps_pure _
    exact (keepsFds_terminalSetForeground _).bind fun _ => .ite (fun _ => Prog.keeps_pure _) fun _ =>
      modes.bind fun _ => .ite (fun _ => undo _) fun _ => continued.bind fun r =>
        .ite (fun _ => undo _) fun _ => (keepsFds_updateJob _ _).bind fun _ => Prog.keeps_pure _

theorem keepsFds_builtinFg : Prog.Keeps World.fds builtinFg := by
  apply keepsFds_fgPrepare.bind
  intro r
  cases r with
  | error e => exact Prog.keeps_pure _
  | ok x =>
    refine (keepsFds_jobWaitForeground _).bind fun r => (keepsFds_updateJob _ _).bind fun _ =>
      .ite (fun _ => ?_) fun _ => ?_
    · exact keepsFds_terminalRestore.bind fun _ => Prog.keeps_pure _
    · have save : Prog.Keeps World.fds (saveTerminalModes x.1 r.2) :=
        (keepsFds_terminalGetModes _).bind fun _ => .ite (fun _ => keepsFds_updateJob _ _) fun _ =>
          Prog.keeps_pure _
      have rest : Prog.Keeps World.fds (terminalRestore >>= finishRestored r.2) :=
        keepsFds_terminalRestore.bind fun _ => keepsFds_finishRestored _ _
      exact .ite (fun _ => save.bind fun _ => rest) fun _ => rest

theorem keepsFds_builtinBg : Prog.Keeps World.fds builtinBg := by
  apply Prog.keeps_get_bind
  intro w
  split
  · exact Prog.keeps_pure _
  · exact (keepsFds_jobContinue _).bind fun _ => (keepsFds_updateJob _ _).bind fun _ =>
      .ite (fun _ => Prog.keeps_pure _) fun _ => Prog.keeps_pure _

theorem keepsFds_service : Prog.Keeps World.fds service := keepsFds_syscall fun _ _ => rfl

/-- **No handler changes the descriptors.** -/
theorem keepsFds_handler (b : Builtin) : Prog.Keeps World.fds b.handler := by
  cases b
  case fg => exact keepsFds_builtinFg
  case bg => exact keepsFds_builtinBg
  case exit => exact Prog.keeps_get_bind fun _ => (keepsFds_ctx _).bind fun _ => Prog.keeps_pure _
  case reload =>
    apply Prog.Keeps.bind (keepsFds_syscall fun _ _ => rfl)
    intro _
    exact .ite (fun _ => Prog.keeps_pure _) fun _ =>
      .ite (fun _ => (keepsFds_ctx _).bind fun _ => Prog.keeps_pure _) fun _ => Prog.keeps_pure _
  case jobs | help | status => exact Prog.keeps_pure _
  all_goals exact keepsFds_service

/-! ### `dispatcher_command` -/

/-- The handler stands between the redirection and `dispatchFinish`, and nowhere else. -/
theorem dispatchBuiltin_eq (cmd : Command) (entry : Builtin) :
    dispatchBuiltin cmd entry = builtinApplyRedirect cmd >>= fun r =>
      if r.1 ≠ ok then dispatchAbandon r.1 r.2.1 r.2.2 else entry.handler >>= dispatchFinish r.2.1 r.2.2 := rfl

/-- The same descriptors are open, and each refers to what it did. -/
structure SameDescriptors (F F' : FdTable Fd) : Prop where
  isOpen : ∀ fd, F'.IsOpen fd ↔ F.IsOpen fd
  desc : ∀ fd, descOf F' fd = descOf F fd

/-- The descriptors are what they were, or restoring one of them has failed and the shell stops. -/
def RedirectUndone (w w' : World) : Prop :=
  SameDescriptors w.kernel.fds w'.kernel.fds ∨
    w'.ctx.running = false ∧ ∃ cs, Made cs w w' ∧
      ∃ saved target e, Call.dupfd target (some saved) ∈ cs ∧ e ≠ .EINTR ∧ .dup2 saved target
        (.err e) ∈ cs

theorem Diverted.same {F₀ F : FdTable Fd} (h : Diverted F₀ [] F) : SameDescriptors F₀ F where
  isOpen fd := by rw [isOpen_iff_desc, isOpen_iff_desc, h.eq]
  desc := h.eq

/-- The world after `stopRunning`. -/
def World.stopped (w : World) : World := { w with ctx := { w.ctx with running := false } }

/-- What restoring has achieved, with `stopRunning` after a failure. -/
theorem restored_undone {w₀ w₁ : World} {cs : List Call} {saves : List (ℕ × ℕ)} {r : Int}
    (hmade : Made cs w₀ w₁) (hcopied : Copied saves cs)
    (h : r = ok ∧ Diverted w₀.kernel.fds [] w₁.kernel.fds ∨ r ≠ ok ∧ SomeRestoreFails saves cs) :
    (r = ok → RedirectUndone w₀ w₁) ∧ (r ≠ ok → RedirectUndone w₀ w₁.stopped) := by
  rcases h with ⟨hr, hd⟩ | ⟨hr, x, hx, e, he, hm⟩
  · exact ⟨fun _ => Or.inl hd.same, fun hn => absurd hr hn⟩
  · exact ⟨fun hn => absurd hn hr, fun _ => Or.inr ⟨rfl, cs, hmade, x.1, x.2, e, hcopied x hx, he, hm⟩⟩

section Dispatch

variable {w₀ : World} {savedOut savedIn : Int} {cs : List Call} (hmade : Made cs w₀ w)
  (hd : Diverted w₀.kernel.fds (savesOf savedOut savedIn) w.kernel.fds)
  (hcopied : Copied (savesOf savedOut savedIn) cs)
include hmade hd hcopied

theorem wp_dispatchAbandon (ret : Int) :
    Prog.wp (dispatchAbandon ret savedOut savedIn) (fun _ => RedirectUndone w₀) R w := by
  unfold dispatchAbandon
  rw [Prog.wp_bind]
  apply wp_builtinRestoreRedirect hd
  intro r w₁ cs₁ hmade₁ hr
  have hundone := restored_undone (hmade.trans hmade₁) (hcopied.mono (List.subset_append_left _ _))
    (hr.imp_right fun ⟨hne, x, hx, e, he, hm⟩ => ⟨hne, x, hx, e, he, List.mem_append_right _ hm⟩)
  rw [Prog.wp_ite]
  exact ⟨fun hne => hundone.2 hne, fun hok => hundone.1 (not_not.mp hok)⟩

theorem wp_dispatchFinish (ret : Int) :
    Prog.wp (dispatchFinish savedOut savedIn ret) (fun _ => RedirectUndone w₀) R w := by
  unfold dispatchFinish
  rw [Prog.wp_bind]
  apply wp_fflush
  intro flushed w₁ hmade₁ hf₁
  unfold dispatchRestore
  rw [Prog.wp_bind]
  apply wp_builtinRestoreRedirect (hf₁ ▸ hd)
  intro r w₂ cs₂ hmade₂ hr
  have hundone := restored_undone ((hmade.trans hmade₁).trans hmade₂)
    ((hcopied.mono (List.subset_append_left _ _)).mono (List.subset_append_left _ _))
    (hr.imp_right fun ⟨hne, x, hx, e, he, hm⟩ => ⟨hne, x, hx, e, he, List.mem_append_right _ hm⟩)
  rw [Prog.wp_ite]
  exact ⟨fun hne => hundone.2 hne, fun hok => hundone.1 (not_not.mp hok)⟩

end Dispatch

/-- `builtin_apply_redirect` returns, and its result says whether a step has failed. -/
theorem builtinApplyRedirect_spec {cmd : Command} (h₀ : w.kernel.fds.IsOpen 0) (h₁ : w.kernel.fds.IsOpen 1) :
    ∃ ret savedOut savedIn w' cs, builtinApplyRedirect cmd w = .done (ret, savedOut, savedIn) w' ∧
      Made cs w w' ∧
      (ret = ok ↔ Succeeds cs) ∧ Diverted w.kernel.fds (savesOf savedOut savedIn) w'.kernel.fds ∧
      Copied (savesOf savedOut savedIn) cs := by
  have hwp : Prog.wp (builtinApplyRedirect cmd) (fun r w' => ∃ cs, Made cs w w' ∧ (r.1 = ok ↔ Succeeds cs) ∧
      Diverted w.kernel.fds (savesOf r.2.1 r.2.2) w'.kernel.fds ∧ Copied (savesOf r.2.1 r.2.2) cs)
      (fun _ => False) w := by
    rw [builtinApplyRedirect, Prog.wp_bind]
    apply wp_redirectOutput h₁
    intro r savedOut w₁ cs hmade hr hd hcopied
    refine wp_redirectInput h₀ hd (fun _ => ⟨cs, hmade, hr, hd, hcopied⟩)
      fun hok ret savedIn w₂ cs₂ hmade₂ hret hd₂ hcopied₂ =>
        ⟨cs ++ cs₂, hmade.trans hmade₂, ?_, hd₂, hcopied₂ cs hcopied⟩
    rw [succeeds_append, ← hr, hret]
    exact ⟨fun hc => ⟨hok, hc⟩, fun hc => hc.2⟩
  obtain ⟨⟨ret, savedOut, savedIn⟩, w', hdone, cs, h⟩ := Prog.wp_total.mp hwp
  exact ⟨ret, savedOut, savedIn, w', cs, hdone, h⟩

/-- A builtin on the command line is refused, or run by `dispatchBuiltin`. -/
theorem dispatcherCommand_builtin {cmd : Command} {next : List Command} {name : Bytes} {entry : Builtin}
    (hname : cmd.argv0 = some name) (hentry : builtinLookup name = some entry) :
    dispatcherCommand cmd next =
      if next ≠ [] ∨ cmd.background = true then pure errParse else dispatchBuiltin cmd entry := by
  have hchain : commandChainHasBuiltin (cmd :: next) = true := by
    simp [commandChainHasBuiltin, hname, hentry]
  unfold dispatcherCommand
  simp only [hname, hchain, and_true, hentry]
  by_cases hnext : next ≠ []
  · rw [if_pos hnext, if_pos (Or.inl hnext)]
  · rw [if_neg hnext]
    by_cases hbg : cmd.background = true
    · rw [if_pos hbg, if_pos (Or.inr hbg)]
    · rw [if_neg hbg, if_neg (by tauto)]

/-- **The redirection of a builtin is undone.**  Whatever fails, the descriptors are what they were when
`dispatcher_command` returns, or restoring one of them has failed and the shell stops.  When every step of the
redirection has succeeded the handler is run once, and otherwise it is not run. -/
theorem dispatcherCommand_undoes_redirect {cmd : Command} {next : List Command} {name : Bytes}
    {entry : Builtin} {w : World} (hname : cmd.argv0 = some name) (hentry : builtinLookup name = some entry)
    (h₀ : w.kernel.fds.IsOpen 0) (h₁ : w.kernel.fds.IsOpen 1) :
    (∀ ret w', dispatcherCommand cmd next w = .done ret w' → RedirectUndone w w') ∧
      if next ≠ [] ∨ cmd.background = true then dispatcherCommand cmd next w = .done errParse w
      else ∃ ret savedOut savedIn w₁ cs,
        builtinApplyRedirect cmd w = .done (ret, savedOut, savedIn) w₁ ∧ Made cs w w₁ ∧
          (Succeeds cs → dispatcherCommand cmd next w =
            (entry.handler >>= dispatchFinish savedOut savedIn) w₁) ∧
          (¬ Succeeds cs → dispatcherCommand cmd next w = dispatchAbandon ret savedOut savedIn w₁) := by
  rw [dispatcherCommand_builtin hname hentry]
  by_cases hrefused : next ≠ [] ∨ cmd.background = true
  · rw [if_pos hrefused, if_pos hrefused]
    refine ⟨fun ret w' h => ?_, rfl⟩
    cases h
    exact Or.inl (Diverted.refl _).same
  rw [if_neg hrefused, if_neg hrefused]
  obtain ⟨ret, savedOut, savedIn, w₁, cs, hdone, hmade, hret, hd, hcopied⟩ :=
    @builtinApplyRedirect_spec w cmd h₀ h₁
  have hrun : dispatchBuiltin cmd entry w =
      (if ret ≠ ok then dispatchAbandon ret savedOut savedIn else entry.handler >>=
        dispatchFinish savedOut savedIn) w₁ := by
    rw [dispatchBuiltin_eq, Prog.bind_done hdone]
  refine ⟨fun r w' h => ?_, ret, savedOut, savedIn, w₁, cs, hdone, hmade, fun hs => ?_, fun hs => ?_⟩
  · rw [hrun] at h
    split at h
    · have habandon := wp_dispatchAbandon (R := fun _ => True) hmade hd hcopied ret
      exact (Prog.wp_done habandon h :)
    · -- the handler may have made calls, and leaves the descriptors alone
      rw [Prog.bind_apply] at h
      cases hh : entry.handler w₁ with
      | blocked w₂ => rw [hh] at h; cases h
      | done a w₂ =>
        rw [hh] at h
        have hfds : w₂.kernel.fds = w₁.kernel.fds := by
          have hkeep := keepsFds_handler entry w₁
          rwa [hh] at hkeep
        obtain ⟨seg, hseg⟩ : w₁.log <+: w₂.log := by
          have hgrow : LogGrows entry.handler :=
            closed_anyHandler (K := fun _ m => LogGrows m) logGrows_vars logGrows_tty _
          have hlog := hgrow w₁
          rwa [hh] at hlog
        have hmade₂ : Made (cs ++ calls seg) w w₂ := hmade.trans ⟨seg, hseg.symm, rfl⟩
        rw [← hfds] at hd
        have hfinish := wp_dispatchFinish (R := fun _ => True) hmade₂ hd
          (hcopied.mono (List.subset_append_left _ _)) a
        exact (Prog.wp_done hfinish h :)
  · rw [hrun, if_neg (not_not.mpr (hret.mpr hs))]
  · rw [hrun, if_pos fun hr => hs (hret.mp hr)]

/-- `status > o < i`. -/
def redirectedStatus : Command :=
  { argc := 1, argv := [ascii ['s', 't', 'a', 't', 'u', 's']], background := false
    redirect := ⟨some [105], some [111], false⟩ }

/-- A shell with its standard descriptors, in which the open of the input file fails. -/
def refusedInput : World where
  kernel :=
    { shellPgrp := 100, children := [], fds := [(0, ⟨.file 0, false⟩), (1, ⟨.file 1, false⟩), (2, ⟨.file 2, false⟩)]
      created := 3, ttyPgrp := 100, ttyModes := 0 }
  ctx := { running := true, jobs := jobmanagerInit, lastExitStatus := 0, config := ⟨[], 16, 0⟩ }
  term := ⟨100, false, false, 0⟩
  script := [.res .ok, .res .ok, .res .ok, .res .ok, .res .ok, .res (.fail .other)]
  log := []

/-- The output has been redirected by then, and is put back. -/
theorem refusedInput_undone : ∃ w', dispatcherCommand redirectedStatus [] refusedInput = .done errOpen w' ∧
    RedirectUndone refusedInput w' ∧ w'.ctx.running = true := by
  have hundone := (@dispatcherCommand_undoes_redirect redirectedStatus [] _ .status refusedInput rfl
    (by decide) (by decide) (by decide)).1
  exact ⟨(dispatcherCommand redirectedStatus [] refusedInput).state, by decide +kernel,
    hundone errOpen _ (by decide +kernel), by decide +kernel⟩

end MiniShell
