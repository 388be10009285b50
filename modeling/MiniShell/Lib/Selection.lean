import Mathlib.Data.List.Sort

/-!
# Collecting, sorting and selecting

A scan collects the first few items that count, `qsort` puts them in order, and one of them is selected.  What does not
depend on the order of the items: a sorted list whose equal elements are the same, and the value of the best.
-/

namespace MiniShell.Lib

variable {α β κ : Type}

/-! ### Collecting -/

/-- Collect `f` of the items that count, until there are `n`. -/
def collectFirst (n : ℕ) (counts : α → Bool) (f : α → β) : List α → List β → List β
  | [], found => found
  | a :: l, found =>
    if ¬ counts a then collectFirst n counts f l found
    else if n ≤ found.length then found
    else collectFirst n counts f l (found ++ [f a])

theorem collectFirst_eq (n : ℕ) (counts : α → Bool) (f : α → β) (l : List α) (found : List β) :
    collectFirst n counts f l found = found ++ ((l.filter counts).take (n - found.length)).map f := by
  induction l generalizing found with
  | nil => simp [collectFirst]
  | cons a l ih =>
    unfold collectFirst
    by_cases hc : counts a = true
    · rw [if_neg (not_not.mpr hc), List.filter_cons_of_pos hc]
      by_cases hn : n ≤ found.length
      · rw [if_pos hn, Nat.sub_eq_zero_of_le hn, List.take_zero, List.map_nil, List.append_nil]
      · obtain ⟨k, hk⟩ : ∃ k, n - found.length = k + 1 := ⟨n - found.length - 1, by omega⟩
        have hk' : n - (found ++ [f a]).length = k := by
          rw [List.length_append, List.length_singleton]
          omega
        rw [if_neg hn, ih, hk, hk', List.take_succ_cons, List.map_cons, List.append_assoc, List.singleton_append]
    · rw [if_pos hc, ih, List.filter_cons_of_neg hc]

/-- The items that are collected. -/
def firstOf (n : ℕ) (counts : α → Bool) (l : List α) : List α := (l.filter counts).take n

theorem collectFirst_nil (n : ℕ) (counts : α → Bool) (f : α → β) (l : List α) :
    collectFirst n counts f l [] = (firstOf n counts l).map f := collectFirst_eq n counts f l []

theorem length_firstOf_le (n : ℕ) (counts : α → Bool) (l : List α) : (firstOf n counts l).length ≤ n :=
  List.length_take_le n _

/-- Two orders of the same items that the scan cannot tell apart: all the items that count have room, or the first
`n` of them are the same. -/
def Alike (n : ℕ) (counts : α → Bool) (l l' : List α) : Prop :=
  l.Perm l' ∧ ((l.filter counts).length ≤ n ∨ (firstOf n counts l).Perm (firstOf n counts l'))

theorem Alike.perm {n : ℕ} {counts : α → Bool} {l l' : List α} (h : Alike n counts l l') :
    (firstOf n counts l).Perm (firstOf n counts l') := by
  obtain ⟨hperm, hroom | hfirst⟩ := h
  · have hfilter : (l.filter counts).Perm (l'.filter counts) := hperm.filter counts
    unfold firstOf
    rw [List.take_of_length_le hroom, List.take_of_length_le (hfilter.length_eq ▸ hroom)]
    exact hfilter
  · exact hfirst

/-! ### Sorting -/

/-- What a comparison function has to be. -/
structure Consistent (cmp : α → α → Int) : Prop where
  total : ∀ a b, cmp a b ≤ 0 ∨ cmp b a ≤ 0
  trans : ∀ a b c, cmp a b ≤ 0 → cmp b c ≤ 0 → cmp a c ≤ 0

/-- A `qsort`: it returns the same elements, and in order when the comparison is consistent.  In which order it leaves
equal elements is not said. -/
structure Qsort where
  sort : {α : Type} → (α → α → Int) → List α → List α
  perm : ∀ {α : Type} (cmp : α → α → Int) (l : List α), (sort cmp l).Perm l
  sorted : ∀ {α : Type} (cmp : α → α → Int) (l : List α), Consistent cmp → (sort cmp l).Pairwise
    fun a b => cmp a b ≤ 0

/-- Insertion sort is one. -/
def Qsort.insertion : Qsort where
  sort cmp l := l.insertionSort fun a b => cmp a b ≤ 0
  perm _ l := List.perm_insertionSort _ l
  sorted cmp l h :=
    haveI : Std.Total fun a b => cmp a b ≤ 0 := ⟨h.total⟩
    haveI : IsTrans _ fun a b => cmp a b ≤ 0 := ⟨h.trans⟩
    List.pairwise_insertionSort _ l

/-- **The sorted list does not depend on the order** when equal elements are the same. -/
theorem Qsort.sort_eq (q q' : Qsort) {cmp : α → α → Int} (hcmp : Consistent cmp) {l l' : List α}
    (h : l.Perm l') (heq : ∀ a ∈ l, ∀ b ∈ l, cmp a b ≤ 0 → cmp b a ≤ 0 → a = b) :
    q.sort cmp l = q'.sort cmp l' := by
  have hperm : (q.sort cmp l).Perm (q'.sort cmp l') := ((q.perm cmp l).trans h).trans (q'.perm cmp l').symm
  refine hperm.eq_of_pairwise (fun a b ha hb => heq a ?_ b ?_) (q.sorted cmp l hcmp) (q'.sorted cmp l' hcmp)
  · exact (q.perm cmp l).subset ha
  · exact h.symm.subset ((q'.perm cmp l').subset hb)

/-- Collect and sort; one item needs no sorting. -/
def collectSorted (q : Qsort) (n : ℕ) (counts : α → Bool) (f : α → β) (cmp : β → β → Int)
    (l : List α) : List β :=
  let found := collectFirst n counts f l []
  if 1 < found.length then q.sort cmp found else found

section CollectSorted

variable (q q' : Qsort) {n : ℕ} {counts : α → Bool} {f : α → β} {cmp : β → β → Int} {l l' : List α}

theorem collectSorted_perm (n : ℕ) (counts : α → Bool) (f : α → β) (cmp : β → β → Int)
    (l : List α) :
    (collectSorted q n counts f cmp l).Perm ((firstOf n counts l).map f) := by
  unfold collectSorted
  rw [collectFirst_nil]
  simp only
  split
  · exact q.perm cmp _
  · exact .refl _

theorem length_collectSorted_le (n : ℕ) (counts : α → Bool) (f : α → β) (cmp : β → β → Int)
    (l : List α) :
    (collectSorted q n counts f cmp l).length ≤ n := by
  rw [(collectSorted_perm q n counts f cmp l).length_eq, List.length_map]
  exact length_firstOf_le n counts l

/-- **What is collected does not depend on the order** when the scan cannot tell the orders apart and items that compare
equal are the same. -/
theorem collectSorted_eq (hcmp : Consistent cmp) (h : Alike n counts l l')
    (heq : ∀ a ∈ l, ∀ b ∈ l, cmp (f a) (f b) ≤ 0 → cmp (f b) (f a) ≤ 0 → f a = f b) :
    collectSorted q n counts f cmp l = collectSorted q' n counts f cmp l' := by
  have hperm : ((firstOf n counts l).map f).Perm ((firstOf n counts l').map f) := h.perm.map f
  have hmem : ∀ a ∈ firstOf n counts l, a ∈ l := fun a ha => (List.mem_filter.mp (List.mem_of_mem_take ha)).1
  unfold collectSorted
  simp only [collectFirst_nil]
  rw [← hperm.length_eq]
  split
  · apply q.sort_eq q' hcmp hperm
    intro x hx y hy
    obtain ⟨a, ha, rfl⟩ := List.mem_map.mp hx
    obtain ⟨b, hb, rfl⟩ := List.mem_map.mp hy
    exact heq a (hmem a ha) b (hmem b hb)
  · rename_i hone
    -- at most one item
    cases hl : (firstOf n counts l).map f with
    | nil =>
      rw [hl] at hperm
      exact hperm.nil_eq
    | cons x rest =>
      have hrest : rest = [] := by
        rw [hl, List.length_cons] at hone
        exact List.eq_nil_of_length_eq_zero (by omega)
      rw [hl, hrest] at hperm
      rw [hrest, List.singleton_perm.mp hperm]

end CollectSorted

/-! ### Selecting -/

/-- One step of the search for the best: `a` against the best so far. -/
def challenge [LT κ] [DecidableLT κ] (eligible : α → Bool) (key : α → κ) (best : Option α)
    (a : α) : Option α :=
  if ¬ eligible a then best
  else
    match best with
    | none => some a
    | some b => if key b < key a then some a else best

/-- `best` is one of the best among the eligible in `l`, or there is none. -/
def IsBest [LE κ] (eligible : α → Bool) (key : α → κ) (l : List α) : Option α → Prop
  | none => ∀ a ∈ l, eligible a = false
  | some b => b ∈ l ∧ eligible b = true ∧ ∀ a ∈ l, eligible a = true → key a ≤ key b

section IsBest

variable [LinearOrder κ] {eligible : α → Bool} {key : α → κ}

theorem IsBest.challenge {l : List α} {best : Option α} (h : IsBest eligible key l best) (a : α) :
    IsBest eligible key (l ++ [a]) (challenge eligible key best a) := by
  unfold Lib.challenge
  by_cases ha : eligible a = true
  · rw [if_neg (not_not.mpr ha)]
    cases best with
    | none =>
      refine ⟨by simp, ha, List.forall_mem_append.mpr ⟨fun x hx hxe => ?_, List.forall_mem_singleton.mpr fun _ => le_rfl⟩⟩
      rw [h x hx] at hxe
      cases hxe
    | some b =>
      obtain ⟨hb, hbe, hmax⟩ := h
      by_cases hlt : key b < key a
      · simp only [if_pos hlt]
        exact ⟨by simp, ha, List.forall_mem_append.mpr
          ⟨fun x hx hxe => (hmax x hx hxe).trans hlt.le, List.forall_mem_singleton.mpr fun _ => le_rfl⟩⟩
      · simp only [if_neg hlt]
        exact ⟨List.mem_append_left _ hb, hbe, List.forall_mem_append.mpr
          ⟨hmax, List.forall_mem_singleton.mpr fun _ => not_lt.mp hlt⟩⟩
  · rw [if_pos ha]
    cases best with
    | none => exact List.forall_mem_append.mpr ⟨h, List.forall_mem_singleton.mpr (by simpa using ha)⟩
    | some b =>
      obtain ⟨hb, hbe, hmax⟩ := h
      exact ⟨List.mem_append_left _ hb, hbe, List.forall_mem_append.mpr
        ⟨hmax, List.forall_mem_singleton.mpr fun h => absurd h ha⟩⟩

/-- **The search finds the best.** -/
theorem isBest_foldl (l : List α) : IsBest eligible key l (l.foldl (challenge eligible key) none) := by
  have run : ∀ (rest done : List α) (best : Option α), IsBest eligible key done best →
      IsBest eligible key (done ++ rest) (rest.foldl (challenge eligible key) best) := by
    intro rest
    induction rest with
    | nil =>
      intro done best h
      rwa [List.append_nil]
    | cons a rest ih =>
      intro done best h
      have hstep := ih (done ++ [a]) _ (h.challenge a)
      rwa [List.append_assoc] at hstep
  exact run l [] none fun a ha => absurd ha List.not_mem_nil

theorem IsBest.perm {l l' : List α} {best : Option α} (h : IsBest eligible key l best) (hl : l.Perm l') :
    IsBest eligible key l' best := by
  cases best with
  | none => exact fun a ha => h a (hl.symm.subset ha)
  | some b => exact ⟨hl.subset h.1, h.2.1, fun a ha => h.2.2 a (hl.symm.subset ha)⟩

/-- **The key of the best is unique.** -/
theorem IsBest.key_eq {l : List α} {best best' : Option α} (h : IsBest eligible key l best)
    (h' : IsBest eligible key l best') : best.map key = best'.map key := by
  cases best with
  | none =>
    cases best' with
    | none => rfl
    | some b' => exact absurd ((h b' h'.1).symm.trans h'.2.1) Bool.false_ne_true
  | some b =>
    cases best' with
    | none => exact absurd ((h' b h.1).symm.trans h.2.1) Bool.false_ne_true
    | some b' => exact congrArg some (le_antisymm (h'.2.2 b h.1 h.2.1) (h.2.2 b' h'.1 h'.2.1))

end IsBest

end MiniShell.Lib
