import Mathlib.Tactic

/-!
# The first record that lists a key

Records are kept newest first, and a key may be listed in several of them.  `FirstOpen lists opens rs` says
that the first record of `rs` in which the key is listed has it open.  It survives whatever keeps the listing
and the openness of every single record, new records that do not list the key, and the removal of records in
which the key is not open.
-/

namespace MiniShell.Lib

variable {ρ : Type} {lists opens : ρ → Prop}

/-- The first record that lists the key has it open. -/
def FirstOpen (lists opens : ρ → Prop) : List ρ → Prop
  | [] => False
  | r :: rs => (lists r ∧ opens r) ∨ (¬ lists r ∧ FirstOpen lists opens rs)

namespace FirstOpen

theorem head {r : ρ} {rs : List ρ} (hl : lists r) (ho : opens r) : FirstOpen lists opens (r :: rs) :=
  Or.inl ⟨hl, ho⟩

theorem skip {r : ρ} {rs : List ρ} (hl : ¬ lists r) (h : FirstOpen lists opens rs) :
    FirstOpen lists opens (r :: rs) := Or.inr ⟨hl, h⟩

theorem exists_open {rs : List ρ} (h : FirstOpen lists opens rs) : ∃ r ∈ rs, lists r ∧ opens r := by
  induction rs with
  | nil => exact absurd h id
  | cons r rs ih =>
    rcases h with h | ⟨-, h⟩
    · exact ⟨r, by simp, h⟩
    · obtain ⟨r', hr', ho⟩ := ih h
      exact ⟨r', by simp [hr'], ho⟩

/-- Records may change as long as they list the same keys and keep them open. -/
theorem forall₂ {rs rs' : List ρ}
    (hrs : List.Forall₂ (fun r r' => (lists r ↔ lists r') ∧ (opens r → opens r')) rs rs')
    (h : FirstOpen lists opens rs) : FirstOpen lists opens rs' := by
  induction hrs with
  | nil => exact h
  | cons hr _ ih =>
    rcases h with ⟨hl, ho⟩ | ⟨hl, h⟩
    · exact head (hr.1.mp hl) (hr.2 ho)
    · exact skip (fun hl' => hl (hr.1.mpr hl')) (ih h)

/-- Records in which the key is not open may be removed. -/
theorem filter {rs : List ρ} {p : ρ → Bool} (hp : ∀ r ∈ rs, opens r → p r = true)
    (h : FirstOpen lists opens rs) : FirstOpen lists opens (rs.filter p) := by
  induction rs with
  | nil => exact h
  | cons r rs ih =>
    have ih := ih fun r' hr' => hp r' (List.mem_cons_of_mem _ hr')
    rcases h with ⟨hl, ho⟩ | ⟨hl, h⟩
    · rw [List.filter_cons_of_pos (hp r (by simp) ho)]
      exact head hl ho
    · rw [List.filter_cons]
      split
      · exact skip hl (ih h)
      · exact ih h

/-- The first record that satisfies `p` may be removed when the key is not open in it. -/
theorem eraseP {rs : List ρ} {p : ρ → Bool} (hp : ∀ r, rs.find? p = some r → ¬ opens r)
    (h : FirstOpen lists opens rs) : FirstOpen lists opens (rs.eraseP p) := by
  induction rs with
  | nil => exact h
  | cons r rs ih =>
    by_cases hpr : p r = true
    · rw [List.eraseP_cons_of_pos hpr]
      rcases h with ⟨-, ho⟩ | ⟨-, h⟩
      · exact absurd ho (hp r (by simp [hpr]))
      · exact h
    · rw [List.eraseP_cons_of_neg hpr]
      rcases h with ⟨hl, ho⟩ | ⟨hl, h⟩
      · exact head hl ho
      · exact skip hl (ih (fun r' hr' => hp r' (by simpa [hpr] using hr')) h)

end FirstOpen

end MiniShell.Lib
