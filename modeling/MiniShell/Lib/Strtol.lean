import Mathlib.Data.List.TakeWhile
import Mathlib.Tactic

/-!
# Decimal numbers in strings

The functions `strtol` and `strtoul` of the C library, to base 10, on a string that may begin with white space and a
sign.  `Denotes space s x` says that the whole string is a number, written as `x`; `scanNumeral_full` that this is what
the functions look for, and `strtol_accepts` and `strtoul_accepts` when they convert all of the string.
-/

namespace MiniShell.Lib.Strtol

def isDigit (c : UInt8) : Bool := 48 ≤ c && c ≤ 57

/-- The number a list of digits denotes. -/
def digitsValue (digits : List UInt8) : ℕ := digits.foldl (fun n c => 10 * n + (c.toNat - 48)) 0

/-- A sign and digits. -/
structure Numeral where
  negative : Bool
  digits : List UInt8
  deriving DecidableEq

namespace Numeral

def magnitude (x : Numeral) : ℕ := digitsValue x.digits

def value (x : Numeral) : Int := if x.negative then -(x.magnitude : Int) else x.magnitude

end Numeral

/-- The sign at the start of a string, which is true for `'-'`, and what stands behind it. -/
def splitSign : List UInt8 → Bool × List UInt8
  | [] => (false, [])
  | c :: t => if c = 45 then (true, t) else if c = 43 then (false, t) else (false, c :: t)

section

variable (space : UInt8 → Bool)

/-- The number at the start of a string and what stands behind it. -/
def scanNumeral (s : List UInt8) : Option (Numeral × List UInt8) :=
  let (negative, t) := splitSign (s.dropWhile space)
  if t.takeWhile isDigit = [] then none else some (⟨negative, t.takeWhile isDigit⟩, t.dropWhile isDigit)

/-- The outcome of a conversion. -/
structure Conversion where
  value : Int
  /-- what the end pointer points to, when it has moved -/
  rest : Option (List UInt8)
  /-- `errno` is `ERANGE` -/
  rangeError : Bool
  deriving DecidableEq

/-- The usual test for an unusable result: `errno != 0 || end == s || *end != '\0'`. -/
def Conversion.fails (r : Conversion) : Bool := r.rangeError || r.rest != some []

theorem Conversion.fails_iff {r : Conversion} : r.fails = false ↔ r = ⟨r.value, some [], false⟩ := by
  obtain ⟨v, rest, e⟩ := r
  simp [Conversion.fails, and_comm]

/-- `strtol`, for a type of `bits` bits. -/
def strtol (bits : ℕ) (s : List UInt8) : Conversion :=
  match scanNumeral space s with
  | none => ⟨0, none, false⟩
  | some (x, rest) =>
    if x.value < -2 ^ (bits - 1) then ⟨-2 ^ (bits - 1), some rest, true⟩
    else if 2 ^ (bits - 1) ≤ x.value then ⟨2 ^ (bits - 1) - 1, some rest, true⟩
    else ⟨x.value, some rest, false⟩

/-- `strtoul`, for a type of `bits` bits; a number with a minus sign is negated in that type. -/
def strtoul (bits : ℕ) (s : List UInt8) : Conversion :=
  match scanNumeral space s with
  | none => ⟨0, none, false⟩
  | some (x, rest) =>
    if 2 ^ bits ≤ x.magnitude then ⟨2 ^ bits - 1, some rest, true⟩
    else ⟨x.value % 2 ^ bits, some rest, false⟩

/-- **The whole string is a number**: white space, a sign and digits, of which only the digits have to be there. -/
inductive Denotes : List UInt8 → Numeral → Prop where
  | plain {blanks digits : List UInt8} (hb : ∀ c ∈ blanks, space c = true) (hne : digits ≠ [])
      (hd : ∀ c ∈ digits, isDigit c = true) : Denotes (blanks ++ digits) ⟨false, digits⟩
  | plus {blanks digits : List UInt8} (hb : ∀ c ∈ blanks, space c = true) (hne : digits ≠ [])
      (hd : ∀ c ∈ digits, isDigit c = true) : Denotes (blanks ++ 43 :: digits) ⟨false, digits⟩
  | minus {blanks digits : List UInt8} (hb : ∀ c ∈ blanks, space c = true) (hne : digits ≠ [])
      (hd : ∀ c ∈ digits, isDigit c = true) : Denotes (blanks ++ 45 :: digits) ⟨true, digits⟩

/-- White space is none of the characters of a number. -/
def Apart : Prop := ∀ c, space c = true → isDigit c = false ∧ c ≠ 43 ∧ c ≠ 45

end

section

variable {space : UInt8 → Bool} {s blanks digits t : List UInt8} {x : Numeral}

theorem splitSign_digits (hd : ∀ c ∈ digits, isDigit c = true) : splitSign digits = (false, digits) := by
  cases digits with
  | nil => rfl
  | cons c t =>
    have hc := hd c List.mem_cons_self
    have h1 : c ≠ 45 := by
      rintro rfl
      exact absurd hc (by decide)
    have h2 : c ≠ 43 := by
      rintro rfl
      exact absurd hc (by decide)
    simp [splitSign, h1, h2]

/-- What stands before the string behind the sign. -/
theorem splitSign_eq {negative : Bool} (h : splitSign s = (negative, t)) :
    negative = true ∧ s = 45 :: t ∨ negative = false ∧ (s = 43 :: t ∨ s = t) := by
  cases s with
  | nil =>
    cases h
    exact Or.inr ⟨rfl, Or.inr rfl⟩
  | cons c u =>
    unfold splitSign at h
    dsimp only at h
    split at h
    · rename_i hc
      cases h
      exact Or.inl ⟨rfl, by rw [hc]⟩
    · split at h
      · rename_i hc
        cases h
        exact Or.inr ⟨rfl, Or.inl (by rw [hc])⟩
      · cases h
        exact Or.inr ⟨rfl, Or.inr rfl⟩

theorem dropWhile_blanks (hb : ∀ c ∈ blanks, space c = true) (ht : ∀ c ∈ t.head?, space c = false) :
    (blanks ++ t).dropWhile space = t := by
  rw [List.dropWhile_append_of_pos hb]
  cases t with
  | nil => rfl
  | cons c t => exact List.dropWhile_cons_of_neg (by simp [ht c rfl])

/-- **A string is a number when the scan leaves nothing of it.** -/
theorem scanNumeral_full (ha : Apart space) : scanNumeral space s = some (x, []) ↔ Denotes space s x := by
  have digit_apart : ∀ c, isDigit c = true → space c = false := by
    intro c hc
    by_contra hs
    rw [(ha c (by simpa using hs)).1] at hc
    cases hc
  have all_digits : ∀ {digits : List UInt8}, (∀ c ∈ digits, isDigit c = true) →
      digits.takeWhile isDigit = digits ∧ digits.dropWhile isDigit = [] := fun hd =>
    ⟨List.takeWhile_eq_self_iff.mpr hd, List.dropWhile_eq_nil_iff.mpr hd⟩
  constructor
  · intro h
    have hblanks : ∀ c ∈ s.takeWhile space, space c = true := fun c hc => List.mem_takeWhile_imp hc
    have hs : s = s.takeWhile space ++ s.dropWhile space := (List.takeWhile_append_dropWhile).symm
    unfold scanNumeral at h
    cases hsplit : splitSign (s.dropWhile space) with
    | mk negative t =>
      rw [hsplit] at h
      dsimp only at h
      split at h
      · cases h
      · rename_i hne
        obtain ⟨rfl, hrest⟩ := Prod.mk.inj (Option.some.inj h)
        -- what stands behind the sign is digits and nothing else
        have hd : ∀ c ∈ t.takeWhile isDigit, isDigit c = true := fun c hc => List.mem_takeWhile_imp hc
        have ht : t = t.takeWhile isDigit := by
          conv_lhs => rw [← List.takeWhile_append_dropWhile (p := isDigit) (l := t), hrest, List.append_nil]
        rw [← ht] at hne hd ⊢
        generalize s.takeWhile space = blanks at hblanks hs
        rcases splitSign_eq hsplit with ⟨rfl, hu⟩ | ⟨rfl, hu | hu⟩
        · rw [hs, hu]
          exact .minus hblanks hne hd
        · rw [hs, hu]
          exact .plus hblanks hne hd
        · rw [hs, hu]
          exact .plain hblanks hne hd
  · intro h
    cases h with
    | @plain blanks digits hb hne hd =>
      obtain ⟨htake, hdrop⟩ := all_digits hd
      have hhead : ∀ c ∈ digits.head?, space c = false :=
        fun c hc => digit_apart c (hd c (List.mem_of_head? hc))
      unfold scanNumeral
      rw [dropWhile_blanks hb hhead, splitSign_digits hd]
      simp [htake, hdrop, hne]
    | @plus blanks digits hb hne hd =>
      obtain ⟨htake, hdrop⟩ := all_digits hd
      have hhead : ∀ c ∈ (43 :: digits).head?, space c = false := by
        intro c hc
        obtain rfl : 43 = c := by simpa using hc
        by_contra hs
        exact (ha 43 (by simpa using hs)).2.1 rfl
      unfold scanNumeral
      rw [dropWhile_blanks hb hhead]
      simp [splitSign, htake, hdrop, hne]
    | @minus blanks digits hb hne hd =>
      obtain ⟨htake, hdrop⟩ := all_digits hd
      have hhead : ∀ c ∈ (45 :: digits).head?, space c = false := by
        intro c hc
        obtain rfl : 45 = c := by simpa using hc
        by_contra hs
        exact (ha 45 (by simpa using hs)).2.2 rfl
      unfold scanNumeral
      rw [dropWhile_blanks hb hhead]
      simp [splitSign, htake, hdrop, hne]

/-- A string is at most one number. -/
theorem Denotes.unique (ha : Apart space) {y : Numeral} (h : Denotes space s x) (h' : Denotes space s y) :
    x = y := by
  have hx := (scanNumeral_full ha).mpr h
  rw [(scanNumeral_full ha).mpr h'] at hx
  exact (Prod.mk.inj (Option.some.inj hx)).1.symm

/-- A number with a minus sign is negative. -/
theorem Denotes.negative (ha : Apart space) (hb : ∀ c ∈ blanks, space c = true)
    (h : Denotes space (blanks ++ 45 :: t) x) : x.negative = true := by
  have hscan := (scanNumeral_full ha).mpr h
  have hhead : ∀ c ∈ (45 :: t).head?, space c = false := by
    intro c hc
    obtain rfl : 45 = c := by simpa using hc
    by_contra hs
    exact (ha 45 (by simpa using hs)).2.2 rfl
  unfold scanNumeral at hscan
  rw [dropWhile_blanks hb hhead] at hscan
  simp only [splitSign, if_true] at hscan
  split at hscan
  · cases hscan
  · rw [← (Prod.mk.inj (Option.some.inj hscan)).1]

/-- **When `strtol` converts the whole string.** -/
theorem strtol_accepts (ha : Apart space) {bits : ℕ} {v : Int} :
    strtol space bits s = ⟨v, some [], false⟩ ↔
      ∃ x, Denotes space s x ∧ -2 ^ (bits - 1) ≤ x.value ∧ x.value < 2 ^ (bits - 1) ∧ v = x.value := by
  unfold strtol
  constructor
  · intro h
    split at h
    · cases h
    · rename_i x rest hscan
      split at h
      · cases h
      · split at h
        · cases h
        · cases h
          exact ⟨x, (scanNumeral_full ha).mp hscan, by omega, by omega, rfl⟩
  · rintro ⟨x, hx, hlo, hhi, rfl⟩
    rw [(scanNumeral_full ha).mpr hx]
    dsimp only
    rw [if_neg (by omega), if_neg (by omega)]

/-- **When `strtoul` converts the whole string.** -/
theorem strtoul_accepts (ha : Apart space) {bits : ℕ} {v : Int} :
    strtoul space bits s = ⟨v, some [], false⟩ ↔
      ∃ x, Denotes space s x ∧ x.magnitude < 2 ^ bits ∧ v = x.value % 2 ^ bits := by
  unfold strtoul
  constructor
  · intro h
    split at h
    · cases h
    · rename_i x rest hscan
      split at h
      · cases h
      · cases h
        exact ⟨x, (scanNumeral_full ha).mp hscan, by omega, rfl⟩
  · rintro ⟨x, hx, hlt, rfl⟩
    rw [(scanNumeral_full ha).mpr hx]
    dsimp only
    rw [if_neg (by omega)]

/-- What is printed for a number are digits. -/
theorem toDigits_isDigit (n : ℕ) :
    ∀ c ∈ (Nat.toDigits 10 n).map fun c => UInt8.ofNat c.toNat, isDigit c = true := by
  intro c hc
  obtain ⟨d, hd, rfl⟩ := List.mem_map.mp hc
  have hdigit := Nat.isDigit_of_mem_toDigits (by decide) (by decide) hd
  have hrange : 48 ≤ d.toNat ∧ d.toNat ≤ 57 := by
    simp only [Char.isDigit, Bool.and_eq_true, decide_eq_true_eq] at hdigit
    exact hdigit
  obtain ⟨h1, h2⟩ := hrange
  generalize d.toNat = m at h1 h2 ⊢
  interval_cases m <;> decide

/-- The digits that are printed for a number denote it. -/
theorem digitsValue_toDigits (n : ℕ) :
    digitsValue ((Nat.toDigits 10 n).map fun c => UInt8.ofNat c.toNat) = n := by
  have hfold : ∀ (l : List Char) (m : ℕ), (∀ c ∈ l, c.isDigit = true) →
      (l.map fun c => UInt8.ofNat c.toNat).foldl (fun n c => 10 * n + (c.toNat - 48)) m =
        Nat.ofDigitChars 10 l m := by
    intro l
    induction l with
    | nil => exact fun _ _ => rfl
    | cons c l ih =>
      intro m hl
      have hc : c.toNat < 256 := by
        have hdigit := hl c List.mem_cons_self
        simp only [Char.isDigit, Bool.and_eq_true, decide_eq_true_eq] at hdigit
        have hle : c.val.toNat ≤ 57 := UInt32.le_iff_toNat_le.mp hdigit.2
        have heq : c.toNat = c.val.toNat := rfl
        omega
      have hbyte : (UInt8.ofNat c.toNat).toNat = c.toNat := UInt8.toNat_ofNat_of_lt' hc
      rw [List.map_cons, List.foldl_cons, hbyte, ih _ fun d hd => hl d (List.mem_cons_of_mem _ hd),
        Nat.ofDigitChars_cons]
      rfl
  unfold digitsValue
  rw [hfold _ _ fun c hc => Nat.isDigit_of_mem_toDigits (by decide) (by decide) hc]
  exact Nat.ofDigitChars_ten_toDigits

end

end MiniShell.Lib.Strtol
