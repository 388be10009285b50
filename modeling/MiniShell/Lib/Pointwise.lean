import Mathlib.Tactic

/-!
# Lists that are related entry by entry

Rules for `List.Forall₂`: composing two relations, changing one entry, and going from an entry on one side to the one
on the other.
-/

namespace MiniShell.Lib

variable {α β γ δ : Type}

theorem forall₂_comp {r : α → β → Prop} {s : β → γ → Prop} {t : α → γ → Prop}
    (ht : ∀ a b c, r a b → s b c → t a c) {l : List α} {l' : List β} {l'' : List γ}
    (h : List.Forall₂ r l l') (h' : List.Forall₂ s l' l'') :
    List.Forall₂ t l l'' := by
  induction h generalizing l'' with
  | nil =>
    cases h'
    exact .nil
  | cons ha _ ih =>
    cases h' with
    | cons hb h' => exact .cons (ht _ _ _ ha hb) (ih h')

theorem forall₂_map_eq {r : α → β → Prop} {f : α → δ} {g : β → δ}
    (hr : ∀ a b, r a b → g b = f a) {l : List α} {l' : List β} (h : List.Forall₂ r l l') :
    l'.map g = l.map f := by
  induction h with
  | nil => rfl
  | cons ha _ ih => rw [List.map_cons, List.map_cons, hr _ _ ha, ih]

/-- One entry is replaced. -/
theorem forall₂_set {r : α → α → Prop} (hr : ∀ a, r a a) {l : List α} {i : ℕ} {a b : α}
    (hi : l[i]? = some a) (h : r a b) : List.Forall₂ r l (l.set i b) := by
  induction l generalizing i with
  | nil => simp at hi
  | cons c l ih =>
    cases i with
    | zero =>
      obtain rfl : c = a := by simpa using hi
      exact .cons h (List.forall₂_same.mpr fun a _ => hr a)
    | succ i => exact .cons (hr c) (ih (by simpa using hi))

theorem forall₂_get {r : α → β → Prop} {l : List α} {l' : List β} (h : List.Forall₂ r l l')
    {i : ℕ} {a : α} (hi : l[i]? = some a) : ∃ b, l'[i]? = some b ∧ r a b := by
  induction h generalizing i with
  | nil => simp at hi
  | @cons c d _ _ ha _ ih =>
    cases i with
    | zero =>
      obtain rfl : c = a := by simpa using hi
      exact ⟨d, rfl, ha⟩
    | succ i => exact ih (by simpa using hi)

theorem forall₂_get_right {r : α → β → Prop} {l : List α} {l' : List β} (h : List.Forall₂ r l l')
    {i : ℕ} {b : β} (hi : l'[i]? = some b) : ∃ a, l[i]? = some a ∧ r a b :=
  forall₂_get h.flip hi

theorem forall₂_mem_right {r : α → β → Prop} {l : List α} {l' : List β}
    (h : List.Forall₂ r l l') {b : β} (hb : b ∈ l') : ∃ a ∈ l, r a b := by
  obtain ⟨i, hi⟩ := List.mem_iff_getElem?.mp hb
  obtain ⟨a, ha, hr⟩ := forall₂_get_right h hi
  exact ⟨a, List.mem_of_getElem? ha, hr⟩

end MiniShell.Lib
