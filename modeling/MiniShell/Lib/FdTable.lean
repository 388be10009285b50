import Mathlib.Tactic

/-!
# Descriptor tables

A descriptor table is a list of numbered entries.  A new entry takes the lowest number that is free.
`Extra F₀ ks F` says that `F` is the table `F₀` with the descriptors `ks` opened on top of it; opening
adds to `ks`, closing takes from it, and when nothing is left in `ks` the table is `F₀` again.
-/

namespace MiniShell.Lib

/-- A table of descriptors with data in `δ`. -/
abbrev FdTable (δ : Type) : Type := List (ℕ × δ)

namespace FdTable

variable {δ : Type}

/-- The descriptor `fd` is open. -/
def IsOpen (F : FdTable δ) (fd : ℕ) : Prop := fd ∈ F.map Prod.fst

instance (F : FdTable δ) : DecidablePred (IsOpen F) := fun fd => by unfold IsOpen; infer_instance

/-- The lowest free descriptor that is at least `m`. -/
def lowestFree (m : ℕ) (F : FdTable δ) : ℕ :=
  ((List.range' m (F.length + 1)).find? fun n => !decide (F.IsOpen n)).getD m

/-- Close `fd`. -/
def close (F : FdTable δ) (fd : ℕ) : FdTable δ := F.filter fun e => e.1 ≠ fd

/-- Change the data of `fd`. -/
def update (F : FdTable δ) (fd : ℕ) (f : δ → δ) : FdTable δ :=
  F.map fun e => if e.1 = fd then (e.1, f e.2) else e

/-- The data of `fd`. -/
def find (F : FdTable δ) (fd : ℕ) : Option δ := (List.find? (fun e => e.1 == fd) F).map Prod.snd

theorem isOpen_cons {F : FdTable δ} {n fd : ℕ} {d : δ} :
    IsOpen ((n, d) :: F) fd ↔ fd = n ∨ F.IsOpen fd := by simp [IsOpen]

@[simp] theorem isOpen_update {F : FdTable δ} {n fd : ℕ} {f : δ → δ} :
    IsOpen (F.update n f) fd ↔ F.IsOpen fd := by
  unfold IsOpen update
  rw [List.map_map]
  have : (Prod.fst ∘ fun e : ℕ × δ => if e.1 = n then (e.1, f e.2) else e) = Prod.fst := by
    funext e
    simp only [Function.comp]
    split <;> rfl
  rw [this]

theorem isOpen_close {F : FdTable δ} {n fd : ℕ} : IsOpen (F.close n) fd ↔ F.IsOpen fd ∧ fd ≠ n := by
  simp only [IsOpen, close, List.mem_map, List.mem_filter, decide_eq_true_eq]
  constructor
  · rintro ⟨e, ⟨he, hn⟩, rfl⟩
    exact ⟨⟨e, he, rfl⟩, hn⟩
  · rintro ⟨⟨e, he, rfl⟩, hn⟩
    exact ⟨e, ⟨he, hn⟩, rfl⟩

theorem find_cons {F : FdTable δ} {n fd : ℕ} {d : δ} :
    find ((n, d) :: F) fd = if fd = n then some d else F.find fd := by
  unfold find
  by_cases h : fd = n
  · simp [h]
  · simp [h, Ne.symm h]

theorem find_close {F : FdTable δ} {n fd : ℕ} :
    find (F.close n) fd = if fd = n then none else F.find fd := by
  unfold find close
  rw [List.find?_filter]
  by_cases h : fd = n
  · subst h
    rw [if_pos rfl, Option.map_eq_none_iff, List.find?_eq_none]
    simp
  · rw [if_neg h]
    congr 2
    funext e
    by_cases he : e.1 = fd
    · simp [he, h]
    · simp [he]

theorem isOpen_iff_find {F : FdTable δ} {fd : ℕ} : F.IsOpen fd ↔ F.find fd ≠ none := by
  unfold IsOpen find
  rw [ne_eq, Option.map_eq_none_iff, List.find?_eq_none, List.mem_map]
  simp

/-- Among more numbers than there are entries one is free. -/
theorem exists_free (m : ℕ) (F : FdTable δ) : ∃ n ∈ List.range' m (F.length + 1), ¬ F.IsOpen n := by
  by_contra h
  have hsub : List.range' m (F.length + 1) ⊆ F.map Prod.fst := by
    intro n hn
    by_contra hF
    exact h ⟨n, hn, hF⟩
  have hle := (List.subperm_of_subset List.nodup_range' hsub).length_le
  simp at hle

theorem lowestFree_not_open (m : ℕ) (F : FdTable δ) : ¬ F.IsOpen (F.lowestFree m) := by
  obtain ⟨n, hn, hF⟩ := exists_free m F
  unfold lowestFree
  cases hf : (List.range' m (F.length + 1)).find? fun n => !decide (F.IsOpen n) with
  | none =>
    have := List.find?_eq_none.mp hf n hn
    simp [hF] at this
  | some k =>
    have := List.find?_some hf
    simpa using this

/-- The lowest free descriptor, when all below it are open. -/
theorem lowestFree_eq {F : FdTable δ} {n : ℕ} (hbelow : ∀ x < n, F.IsOpen x) (hn : ¬ F.IsOpen n) :
    F.lowestFree 0 = n := by
  have hle : n ≤ F.lowestFree 0 := by
    by_contra hlt
    exact lowestFree_not_open 0 F (hbelow _ (by omega))
  refine le_antisymm (not_lt.mp fun hlt => ?_) hle
  unfold lowestFree at hlt
  cases hf : (List.range' 0 (F.length + 1)).find? fun n => !decide (F.IsOpen n) with
  | none =>
    rw [hf] at hlt
    simp at hlt
  | some k =>
    rw [hf, Option.getD_some] at hlt
    have hfirst := (List.find?_range'_eq_some.mp hf).2.2 n (Nat.zero_le n) hlt
    simp [hn] at hfirst

/-! ### A table with descriptors opened on top of it -/

/-- `F` is `F₀` with the descriptors `ks` opened on top of it. -/
structure Extra (F₀ : FdTable δ) (ks : List ℕ) (F : FdTable δ) : Prop where
  nodup : ks.Nodup
  isOpen : ∀ k ∈ ks, F.IsOpen k
  rest : F.filter (fun e => e.1 ∉ ks) = F₀

variable {F₀ F : FdTable δ} {k : ℕ} {ks ks' : List ℕ}

theorem Extra.refl (F : FdTable δ) : Extra F [] F := ⟨by simp, by simp, by simp⟩

theorem Extra.eq (h : Extra F₀ [] F) : F = F₀ := by simpa using h.rest

theorem Extra.perm (h : Extra F₀ ks F) (hp : ks.Perm ks') : Extra F₀ ks' F where
  nodup := hp.nodup_iff.mp h.nodup
  isOpen k hk := h.isOpen k (hp.mem_iff.mpr hk)
  rest := by simpa only [hp.mem_iff] using h.rest

/-- Opening a free descriptor. -/
theorem Extra.cons (h : Extra F₀ ks F) (hk : ¬ F.IsOpen k) (d : δ) :
    Extra F₀ (k :: ks) ((k, d) :: F) where
  nodup := List.nodup_cons.mpr ⟨fun hm => hk (h.isOpen k hm), h.nodup⟩
  isOpen j hj := by
    rw [isOpen_cons]
    rcases List.mem_cons.mp hj with rfl | hj
    · exact Or.inl rfl
    · exact Or.inr (h.isOpen j hj)
  rest := by
    rw [← h.rest, List.filter_cons_of_neg (by simp)]
    apply List.filter_congr
    intro e he
    have hne : e.1 ≠ k := fun heq => hk (heq ▸ List.mem_map_of_mem he)
    simp [hne]

/-- Closing one of the descriptors on top. -/
theorem Extra.close (h : Extra F₀ (k :: ks) F) : Extra F₀ ks (F.close k) where
  nodup := (List.nodup_cons.mp h.nodup).2
  isOpen j hj := by
    rw [isOpen_close]
    refine ⟨h.isOpen j (List.mem_cons_of_mem _ hj), ?_⟩
    rintro rfl
    exact (List.nodup_cons.mp h.nodup).1 hj
  rest := by
    rw [← h.rest, FdTable.close, List.filter_filter]
    apply List.filter_congr
    intro e _
    by_cases e.1 = k <;> simp_all

/-- Changing the data of one of the descriptors on top. -/
theorem Extra.update (h : Extra F₀ ks F) (hk : k ∈ ks) (f : δ → δ) :
    Extra F₀ ks (F.update k f) where
  nodup := h.nodup
  isOpen j hj := isOpen_update.mpr (h.isOpen j hj)
  rest := by
    rw [← h.rest, FdTable.update, List.filter_map]
    have hfun : (fun e : ℕ × δ => decide (e.1 ∉ ks)) ∘ (fun e => if e.1 = k then (e.1, f e.2) else e) =
        fun e => decide (e.1 ∉ ks) := by
      funext e
      simp only [Function.comp]
      split <;> rfl
    rw [hfun]
    -- the entry that changes is one of those the filter drops
    conv_rhs => rw [← List.map_id (List.filter _ F)]
    apply List.map_congr_left
    intro e he
    have hne : e.1 ≠ k := by
      rintro rfl
      simp [hk] at he
    simp [hne]

/-! ### The entries on top of a table -/

/-- `F` is `F₀` with the entries `es` on top of it, under numbers of their own. -/
structure Stacked (F₀ es F : FdTable δ) : Prop where
  eq : F = es ++ F₀
  nodup : (es.map Prod.fst).Nodup
  new : ∀ e ∈ es, ¬ F₀.IsOpen e.1

section Stacked

variable {es es₁ es₂ : FdTable δ} {d : δ}

theorem close_of_not_open (h : ¬ F.IsOpen k) : F.close k = F :=
  List.filter_eq_self.mpr fun e he => by
    have hne : e.1 ≠ k := fun heq => h (heq ▸ List.mem_map_of_mem he)
    simpa using hne

theorem update_of_not_open (h : ¬ F.IsOpen k) (f : δ → δ) : F.update k f = F := by
  unfold update
  conv_rhs => rw [← List.map_id F]
  apply List.map_congr_left
  intro e he
  have hne : e.1 ≠ k := fun heq => h (heq ▸ List.mem_map_of_mem he)
  rw [if_neg hne, id]

theorem isOpen_append {fd : ℕ} : IsOpen (es₁ ++ es₂) fd ↔ IsOpen es₁ fd ∨ IsOpen es₂ fd := by
  simp only [IsOpen, List.map_append, List.mem_append]

theorem close_append {fd : ℕ} : close (es₁ ++ es₂) fd = es₁.close fd ++ es₂.close fd :=
  List.filter_append ..

theorem update_append {fd : ℕ} {f : δ → δ} :
    update (es₁ ++ es₂) fd f = es₁.update fd f ++ es₂.update fd f :=
  List.map_append ..

theorem find_append {fd : ℕ} : find (es₁ ++ es₂) fd = (es₁.find fd).or (es₂.find fd) := by
  unfold find
  rw [List.find?_append]
  cases List.find? (fun e => e.1 == fd) es₁ <;> simp

theorem Stacked.refl (F : FdTable δ) : Stacked F [] F := ⟨rfl, by simp, by simp⟩

/-- The numbers of the entries on top are not open elsewhere. -/
theorem Stacked.not_open (h : Stacked F₀ (es₁ ++ (k, d) :: es₂) F) :
    ¬ es₁.IsOpen k ∧ ¬ es₂.IsOpen k ∧ ¬ F₀.IsOpen k := by
  have hnd := h.nodup
  rw [List.map_append, List.map_cons, List.nodup_middle] at hnd
  have hk := (List.nodup_cons.mp hnd).1
  rw [List.mem_append, not_or] at hk
  exact ⟨hk.1, hk.2, h.new (k, d) (by simp)⟩

/-- Opening a free descriptor puts it on top. -/
theorem Stacked.cons (h : Stacked F₀ es F) (hk : ¬ F.IsOpen k) (d : δ) :
    Stacked F₀ ((k, d) :: es) ((k, d) :: F) where
  eq := by rw [h.eq, List.cons_append]
  nodup := by
    rw [h.eq, isOpen_append, not_or] at hk
    exact List.nodup_cons.mpr ⟨hk.1, h.nodup⟩
  new e he := by
    rcases List.mem_cons.mp he with rfl | he
    · rw [h.eq, isOpen_append, not_or] at hk
      exact hk.2
    · exact h.new e he

/-- Closing one of the descriptors on top takes it out. -/
theorem Stacked.close (h : Stacked F₀ (es₁ ++ (k, d) :: es₂) F) :
    Stacked F₀ (es₁ ++ es₂) (F.close k) where
  eq := by
    obtain ⟨h₁, h₂, h₀⟩ := h.not_open
    have hd : FdTable.close ((k, d) :: es₂) k = es₂.close k := List.filter_cons_of_neg (by simp)
    rw [h.eq, close_append, close_append, hd, close_of_not_open h₁, close_of_not_open h₂,
      close_of_not_open h₀]
  nodup := by
    have hnd := h.nodup
    rw [List.map_append, List.map_cons, List.nodup_middle, ← List.map_append] at hnd
    exact (List.nodup_cons.mp hnd).2
  new e he := h.new e (by
    rcases List.mem_append.mp he with he | he <;> simp [he])

/-- Closing a descriptor that is not on top. -/
theorem Stacked.close_base (h : Stacked F₀ es F) (hk : ¬ IsOpen es k) :
    Stacked (F₀.close k) es (F.close k) where
  eq := by rw [h.eq, close_append, close_of_not_open hk]
  nodup := h.nodup
  new e he ho := h.new e he (isOpen_close.mp ho).1

/-- Changing the data of one of the descriptors on top. -/
theorem Stacked.update (h : Stacked F₀ (es₁ ++ (k, d) :: es₂) F) (f : δ → δ) :
    Stacked F₀ (es₁ ++ (k, f d) :: es₂) (F.update k f) where
  eq := by
    obtain ⟨h₁, h₂, h₀⟩ := h.not_open
    have hd : FdTable.update ((k, d) :: es₂) k f = (k, f d) :: es₂.update k f := by simp [FdTable.update]
    rw [h.eq, update_append, update_append, hd, update_of_not_open h₁, update_of_not_open h₂,
      update_of_not_open h₀]
  nodup := by simpa using h.nodup
  new e he := by
    rcases List.mem_append.mp he with he | he
    · exact h.new e (by simp [he])
    · rcases List.mem_cons.mp he with rfl | he
      · exact h.not_open.2.2
      · exact h.new e (by simp [he])

end Stacked

end FdTable

end MiniShell.Lib
